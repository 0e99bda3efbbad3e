import HabitatGraph.Build.Assemble
import HabitatGraph.Extract.SyntaxTree
import HabitatGraph.Foundation.Outlines
import Mathlib.Data.List.DropRight

/-! # Declarations of a file

Extractors of several languages give the same nodes and edges to what a file declares:
functions, classes with bases and methods, methods that stand apart from their type, and
imports. What they push is one extraction for each declaration, and what the whole file
pushes follows an outline that is read off the declarations.
-/

namespace HabitatGraph

open SyntaxTree

namespace Extraction

def empty : Extraction := ⟨[], []⟩

/-- What is pushed by one step and then by another. -/
def append (x y : Extraction) : Extraction := ⟨x.nodes ++ y.nodes, x.edges ++ y.edges⟩

/-- What is pushed by several steps. -/
def concat (xs : List Extraction) : Extraction :=
  ⟨xs.flatMap Extraction.nodes, xs.flatMap Extraction.edges⟩

def labels (x : Extraction) : List String := x.nodes.map RawNode.label

def keys (x : Extraction) : List EdgeKey := x.edges.map RawEdge.key

@[simp] theorem labels_append (x y : Extraction) : (x.append y).labels = x.labels ++ y.labels :=
  List.map_append

@[simp] theorem keys_append (x y : Extraction) : (x.append y).keys = x.keys ++ y.keys :=
  List.map_append

@[simp] theorem labels_concat (xs : List Extraction) : (concat xs).labels = xs.flatMap labels :=
  List.map_flatMap

@[simp] theorem keys_concat (xs : List Extraction) : (concat xs).keys = xs.flatMap keys :=
  List.map_flatMap

/-- Every node is said to come from the file. -/
def ComesFrom (sourceFile : String) (x : Extraction) : Prop :=
  ∀ n ∈ x.nodes, n.sourceFile = sourceFile

theorem comesFrom_empty (sourceFile : String) : ComesFrom sourceFile empty := fun _ hn =>
  absurd hn List.not_mem_nil

theorem ComesFrom.append {sourceFile : String} {x y : Extraction} (hx : ComesFrom sourceFile x)
    (hy : ComesFrom sourceFile y) : ComesFrom sourceFile (x.append y) := fun n hn =>
  (List.mem_append.mp hn).elim (hx n) (hy n)

theorem ComesFrom.concat {sourceFile : String} {xs : List Extraction}
    (hxs : ∀ x ∈ xs, ComesFrom sourceFile x) : ComesFrom sourceFile (concat xs) := by
  intro n hn
  obtain ⟨x, hx, hn⟩ := List.mem_flatMap.mp hn
  exact hxs x hx n hn

/-- The extraction declares and states what the outline does. -/
structure Follows (x : Extraction) (o : Outline String String) : Prop where
  labels : ∀ l, l ∈ x.labels ↔ l ∈ o.declares
  keys : ∀ k, k ∈ x.keys ↔ k ∈ o.edges

/-- What is known of any extraction. -/
def loose (x : Extraction) : Outline String String :=
  .ofLoose {l | l ∈ x.labels} {k | k ∈ x.keys}

theorem follows_loose (x : Extraction) : x.Follows x.loose where
  labels _ := Iff.rfl
  keys k := by
    rw [loose, Outline.edges_ofLoose]
    rfl

end Extraction

open Extraction

/-! ## Names -/

section Names

variable {source : List UInt8} (toLowercase : String → String)

/-- The text of the field `name`, in lower case. -/
def lowerName (node : SyntaxTree source) : Option String :=
  (childByFieldName node "name").map fun nameNode => toLowercase (textOf nameNode)

/-- A method without the underscores around its name, unless there is nothing else. -/
def methodId (raw : String) : String :=
  let trimmed := String.ofList ((raw.toList.dropWhile (· == '_')).rdropWhile (· == '_'))
  if trimmed.isEmpty then toLowercase raw else toLowercase trimmed

end Names

/-! ## Emitting declarations -/

/-- A declaration at the top level of a file, its names in lower case. -/
inductive Declaration
  | function (name : String)
  | cls (name : String) (bases methods : List String)
  | method (receiver name : String)
  | imports (module : String)
deriving DecidableEq, Repr

/-- The label of a name inside another one. -/
def qualify (outer name : String) : String := outer ++ "_" ++ name

/-- A base whose name the file gives to a class of its own is that class. -/
def baseId (b : String) (localClasses : List String) (base : String) : String :=
  if base ∈ localClasses then qualify b base else base

section Emit

variable {source : List UInt8} (b sourceFile : String)

/-- A node with an edge to it. -/
def emitItem (container label relation : String) (node : SyntaxTree source) : Extraction :=
  ⟨[⟨label, sourceFile, makeSpan node⟩], [⟨container, label, relation, .extracted⟩]⟩

/-- An edge alone. -/
def emitEdge (src tgt relation : String) : Extraction := ⟨[], [⟨src, tgt, relation, .extracted⟩]⟩

def emitFunction (name : String) (node : SyntaxTree source) : Extraction :=
  emitItem sourceFile b (qualify b name) "contains" node

/-- A class with its bases and with its methods, each given with its node. -/
def emitClass (localClasses : List String) (c : String) (node : SyntaxTree source)
    (bases : List String) (methods : List (String × SyntaxTree source)) : Extraction :=
  let classLabel := qualify b c
  ((emitItem sourceFile b classLabel "contains" node).append
    (concat (bases.map fun base => emitEdge (baseId b localClasses base) classLabel "inherits")))
    |>.append (concat (methods.map fun m =>
      emitItem sourceFile classLabel (qualify classLabel m.1) "method" m.2))

def emitMethod (receiver name : String) (node : SyntaxTree source) : Extraction :=
  emitItem sourceFile (qualify b receiver) (qualify (qualify b receiver) name) "method" node

def emitImport (module : String) : Extraction := emitEdge b module "imports_from"

end Emit

/-! ## What is declared -/

namespace Declaration

variable (b : String) (localClasses : List String)

def labels : Declaration → List String
  | .function name => [qualify b name]
  | .cls c _ methods => qualify b c :: methods.map (qualify (qualify b c))
  | .method receiver name => [qualify (qualify b receiver) name]
  | .imports _ => []

/-- Edges between names of the file. -/
def inner : Declaration → List EdgeKey
  | .function name => [(b, qualify b name, "contains")]
  | .cls c bases methods =>
      (b, qualify b c, "contains") ::
        ((bases.filter fun base => base ∈ localClasses).map fun base =>
          (qualify b base, qualify b c, "inherits")) ++
        methods.map fun m => (qualify b c, qualify (qualify b c) m, "method")
  | .method receiver name =>
      if receiver ∈ localClasses then
        [(qualify b receiver, qualify (qualify b receiver) name, "method")]
      else []
  | .imports _ => []

/-- Edges from names that the file does not declare as such. -/
def incoming : Declaration → List EdgeKey
  | .cls c bases _ =>
      (bases.filter fun base => base ∉ localClasses).map fun base =>
        (base, qualify b c, "inherits")
  | .method receiver name =>
      if receiver ∈ localClasses then []
      else [(qualify b receiver, qualify (qualify b receiver) name, "method")]
  | _ => []

/-- Edges to the modules that the file imports. -/
def outgoing : Declaration → List EdgeKey
  | .imports module => [(b, module, "imports_from")]
  | _ => []

def className : Declaration → Option String
  | .cls c _ _ => some c
  | _ => none

end Declaration

/-- The classes of a file. -/
def classNames (ds : List Declaration) : List String := ds.filterMap Declaration.className

section Outline

variable {b : String} {ds : List Declaration}

theorem mem_classNames {c : String} :
    c ∈ classNames ds ↔ ∃ bases methods, .cls c bases methods ∈ ds := by
  rw [classNames, List.mem_filterMap]
  constructor
  · rintro ⟨d, hd, hc⟩
    cases d with
    | cls c' bases methods =>
        cases hc
        exact ⟨bases, methods, hd⟩
    | function _ => cases hc
    | method _ _ => cases hc
    | imports _ => cases hc
  · rintro ⟨bases, methods, hd⟩
    exact ⟨_, hd, rfl⟩

/-- The outline of a file with these declarations. -/
def declaredNames (b : String) (ds : List Declaration) : Set String :=
  {l | l = b ∨ ∃ d ∈ ds, l ∈ d.labels b}

theorem file_mem_declaredNames : b ∈ declaredNames b ds := .inl rfl

theorem mem_declaredNames {d : Declaration} (hd : d ∈ ds) {l : String} (hl : l ∈ d.labels b) :
    l ∈ declaredNames b ds := .inr ⟨d, hd, hl⟩

theorem class_mem_declaredNames {c : String} (hc : c ∈ classNames ds) :
    qualify b c ∈ declaredNames b ds := by
  obtain ⟨bases, methods, hd⟩ := mem_classNames.mp hc
  exact mem_declaredNames hd List.mem_cons_self

theorem inner_ends {d : Declaration} (hd : d ∈ ds) {e : EdgeKey}
    (he : e ∈ d.inner b (classNames ds)) :
    e.1 ∈ declaredNames b ds ∧ e.2.1 ∈ declaredNames b ds := by
  cases d with
  | function name =>
      cases List.mem_singleton.mp he
      exact ⟨file_mem_declaredNames, mem_declaredNames hd List.mem_cons_self⟩
  | cls c bases methods =>
      have hclass : qualify b c ∈ declaredNames b ds := mem_declaredNames hd List.mem_cons_self
      rcases List.mem_append.mp he with hfirst | hmethod
      · cases List.mem_cons.mp hfirst with
        | inl heq =>
            rw [heq]
            exact ⟨file_mem_declaredNames, hclass⟩
        | inr hbase =>
            obtain ⟨base, hlocal, rfl⟩ := List.mem_map.mp hbase
            have hbase : base ∈ classNames ds := by simpa using (List.mem_filter.mp hlocal).2
            exact ⟨class_mem_declaredNames hbase, hclass⟩
      · obtain ⟨m, hm, rfl⟩ := List.mem_map.mp hmethod
        exact ⟨hclass, mem_declaredNames hd (List.mem_cons_of_mem _ (List.mem_map_of_mem hm))⟩
  | method receiver name =>
      rw [Declaration.inner] at he
      split at he
      next hlocal =>
        cases List.mem_singleton.mp he
        exact ⟨class_mem_declaredNames hlocal, mem_declaredNames hd List.mem_cons_self⟩
      next => cases he
  | imports _ => cases he

theorem incoming_target {d : Declaration} (hd : d ∈ ds) {e : EdgeKey}
    (he : e ∈ d.incoming b (classNames ds)) : e.2.1 ∈ declaredNames b ds := by
  cases d with
  | cls c bases methods =>
      obtain ⟨base, -, rfl⟩ := List.mem_map.mp he
      exact mem_declaredNames hd List.mem_cons_self
  | method receiver name =>
      rw [Declaration.incoming] at he
      split at he
      next => cases he
      next =>
        cases List.mem_singleton.mp he
        exact mem_declaredNames hd List.mem_cons_self
  | function _ => cases he
  | imports _ => cases he

theorem outgoing_source {d : Declaration} {e : EdgeKey} (he : e ∈ d.outgoing b) :
    e.1 ∈ declaredNames b ds := by
  cases d with
  | imports module =>
      cases List.mem_singleton.mp he
      exact file_mem_declaredNames
  | function _ => cases he
  | cls _ _ _ => cases he
  | method _ _ => cases he

end Outline

/-- The outline of a file: what leaves it are bases and receivers that it does not declare,
and its imports. -/
def outline (b : String) (ds : List Declaration) : Outline String String where
  declares := declaredNames b ds
  inner := {e | ∃ d ∈ ds, e ∈ d.inner b (classNames ds)}
  incoming := {e | ∃ d ∈ ds, e ∈ d.incoming b (classNames ds)}
  outgoing := {e | ∃ d ∈ ds, e ∈ d.outgoing b}
  loose := ∅
  inner_closed _ he := he.elim fun _ h => inner_ends h.1 h.2
  incoming_target _ he := he.elim fun _ h => incoming_target h.1 h.2
  outgoing_source _ he := he.elim fun _ h => outgoing_source h.2

/-! ## What is emitted -/

/-- The extraction is what the declarations come to, all of it from the file. -/
structure Emits (b sourceFile : String) (localClasses : List String) (ds : List Declaration)
    (x : Extraction) : Prop where
  labels : ∀ l, l ∈ x.labels ↔ ∃ d ∈ ds, l ∈ d.labels b
  keys : ∀ k, k ∈ x.keys ↔ ∃ d ∈ ds,
    k ∈ d.inner b localClasses ∨ k ∈ d.incoming b localClasses ∨ k ∈ d.outgoing b
  comesFrom : x.ComesFrom sourceFile

section Emits

variable {source : List UInt8} {b sourceFile : String} {localClasses : List String}

theorem emits_empty : Emits b sourceFile localClasses [] .empty where
  labels := by simp [Extraction.labels, Extraction.empty]
  keys := by simp [Extraction.keys, Extraction.empty]
  comesFrom := comesFrom_empty sourceFile

theorem emits_concat {α : Type} {as : List α} {f : α → Extraction} {ds : α → List Declaration}
    (h : ∀ a ∈ as, Emits b sourceFile localClasses (ds a) (f a)) :
    Emits b sourceFile localClasses (as.flatMap ds) (concat (as.map f)) where
  labels l := by
    simp only [labels_concat, List.flatMap_map, List.mem_flatMap]
    constructor
    · rintro ⟨a, ha, hl⟩
      obtain ⟨d, hd, hl⟩ := ((h a ha).labels l).mp hl
      exact ⟨d, ⟨a, ha, hd⟩, hl⟩
    · rintro ⟨d, ⟨a, ha, hd⟩, hl⟩
      exact ⟨a, ha, ((h a ha).labels l).mpr ⟨d, hd, hl⟩⟩
  keys k := by
    simp only [keys_concat, List.flatMap_map, List.mem_flatMap]
    constructor
    · rintro ⟨a, ha, hk⟩
      obtain ⟨d, hd, hk⟩ := ((h a ha).keys k).mp hk
      exact ⟨d, ⟨a, ha, hd⟩, hk⟩
    · rintro ⟨d, ⟨a, ha, hd⟩, hk⟩
      exact ⟨a, ha, ((h a ha).keys k).mpr ⟨d, hd, hk⟩⟩
  comesFrom := by
    refine ComesFrom.concat fun x hx => ?_
    obtain ⟨a, ha, rfl⟩ := List.mem_map.mp hx
    exact (h a ha).comesFrom

theorem comesFrom_emitItem (container label relation : String) (node : SyntaxTree source) :
    ComesFrom sourceFile (emitItem sourceFile container label relation node) := fun _ hn =>
  List.mem_singleton.mp hn ▸ rfl

theorem comesFrom_emitEdge (src tgt relation : String) :
    ComesFrom sourceFile (emitEdge src tgt relation) := fun _ hn => absurd hn List.not_mem_nil

theorem labels_emitClass (c : String) (node : SyntaxTree source) (bases : List String)
    (methods : List (String × SyntaxTree source)) :
    (emitClass b sourceFile localClasses c node bases methods).labels =
      qualify b c :: (methods.map Prod.fst).map (qualify (qualify b c)) := by
  have hbases : (bases.map fun base =>
      emitEdge (baseId b localClasses base) (qualify b c) "inherits").flatMap
        Extraction.labels = [] :=
    List.flatMap_eq_nil_iff.mpr fun x hx => by
      obtain ⟨base, -, rfl⟩ := List.mem_map.mp hx
      rfl
  rw [emitClass, labels_append, labels_append, labels_concat, labels_concat, hbases,
    List.flatMap_map, List.map_map, List.map_eq_flatMap]
  rfl

theorem keys_emitClass (c : String) (node : SyntaxTree source) (bases : List String)
    (methods : List (String × SyntaxTree source)) :
    (emitClass b sourceFile localClasses c node bases methods).keys =
      (b, qualify b c, "contains") ::
        bases.map (fun base => (baseId b localClasses base, qualify b c, "inherits")) ++
        (methods.map Prod.fst).map
          fun m => (qualify b c, qualify (qualify b c) m, "method") := by
  rw [emitClass, keys_append, keys_append, keys_concat, keys_concat, List.flatMap_map,
    List.flatMap_map, List.map_map, List.map_eq_flatMap, List.map_eq_flatMap]
  rfl

theorem emits_function (name : String) (node : SyntaxTree source) :
    Emits b sourceFile localClasses [.function name] (emitFunction b sourceFile name node) where
  labels := by simp [Extraction.labels, emitFunction, emitItem, Declaration.labels]
  keys := by
    simp [Extraction.keys, emitFunction, emitItem, RawEdge.key, Declaration.inner,
      Declaration.incoming, Declaration.outgoing]
  comesFrom := comesFrom_emitItem _ _ _ node

theorem emits_method (receiver name : String) (node : SyntaxTree source) :
    Emits b sourceFile localClasses [.method receiver name]
      (emitMethod b sourceFile receiver name node) where
  labels := by simp [Extraction.labels, emitMethod, emitItem, Declaration.labels]
  keys k := by
    by_cases hlocal : receiver ∈ localClasses <;>
      simp [Extraction.keys, emitMethod, emitItem, RawEdge.key, Declaration.inner,
        Declaration.incoming, Declaration.outgoing, hlocal]
  comesFrom := comesFrom_emitItem _ _ _ node

theorem emits_import (module : String) :
    Emits b sourceFile localClasses [.imports module] (emitImport b module) where
  labels := by simp [Extraction.labels, emitImport, emitEdge, Declaration.labels]
  keys := by
    simp [Extraction.keys, emitImport, emitEdge, RawEdge.key, Declaration.inner,
      Declaration.incoming, Declaration.outgoing]
  comesFrom := comesFrom_emitEdge _ _ _

/-- The edge from a base of a class, by whether the file declares the base. -/
theorem inherits_iff {c base : String} {k : EdgeKey} :
    k = (baseId b localClasses base, qualify b c, "inherits") ↔
      base ∈ localClasses ∧ k = (qualify b base, qualify b c, "inherits") ∨
        base ∉ localClasses ∧ k = (base, qualify b c, "inherits") := by
  by_cases hlocal : base ∈ localClasses <;> simp [baseId, hlocal]

theorem emits_class (c : String) (node : SyntaxTree source) (bases : List String)
    (methods : List (String × SyntaxTree source)) :
    Emits b sourceFile localClasses [.cls c bases (methods.map Prod.fst)]
      (emitClass b sourceFile localClasses c node bases methods) where
  labels l := by
    simp only [List.mem_singleton, exists_eq_left]
    rw [labels_emitClass]
    exact Iff.rfl
  keys k := by
    simp only [List.mem_singleton, exists_eq_left]
    simp only [keys_emitClass, Declaration.inner, Declaration.incoming, Declaration.outgoing,
      List.cons_append, List.mem_cons, List.mem_append, List.mem_map, List.mem_filter,
      decide_eq_true_eq, List.not_mem_nil, or_false, and_assoc, @eq_comm _ _ k, inherits_iff,
      and_or_left, exists_or, or_assoc]
    -- the edges from other files stand after those to methods
    exact or_congr_right (or_congr_right or_comm)
  comesFrom := by
    refine ((comesFrom_emitItem _ _ _ node).append (ComesFrom.concat ?_)).append
      (ComesFrom.concat ?_)
    · intro x hx
      obtain ⟨base, -, rfl⟩ := List.mem_map.mp hx
      exact comesFrom_emitEdge _ _ _
    · intro x hx
      obtain ⟨m, -, rfl⟩ := List.mem_map.mp hx
      exact comesFrom_emitItem _ _ _ m.2

/-- The node of the file and what its declarations emit follow the outline. -/
theorem Emits.follows {ds : List Declaration} {x : Extraction} {span : Span}
    (h : Emits b sourceFile (classNames ds) ds x) :
    (append ⟨[⟨b, sourceFile, span⟩], []⟩ x).Follows (outline b ds) where
  labels l := by
    rw [labels_append, List.mem_append, h.labels]
    exact or_congr_left List.mem_singleton
  keys k := by
    rw [keys_append, List.mem_append, h.keys]
    simp only [outline, Outline.edges, Extraction.keys, List.map_nil, List.not_mem_nil, false_or,
      Set.mem_union, Set.mem_ofPred_eq, Set.mem_empty_iff_false, or_false, and_or_left, exists_or,
      or_assoc]

end Emits

end HabitatGraph
