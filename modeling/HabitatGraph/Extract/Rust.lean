import HabitatGraph.Extract.SyntaxTree
import HabitatGraph.Foundation.Selections

/-! # The Rust extractor

The walk emits a node for every item with a name and threads two contexts down the
tree: the name of the innermost function, and the type of the innermost `impl`.
Calls are attributed to the first and definitions of functions to the second. Neither
context is ever dropped, so a function below a method counts as another method.
-/

namespace HabitatGraph

namespace RustExtractor

open SyntaxTree Selections Utf8Lines

/-- The contexts of a walk. -/
structure Enclosing where
  fn : Option String
  impl : Option String
deriving DecidableEq, Repr

section Walk

variable {source : List UInt8} (pathStr : String)

def namedItemKinds : List String := ["struct_item", "enum_item", "trait_item", "mod_item"]

/-- What a node adds to the result. -/
def emit (enclosing : Enclosing) (node : SyntaxTree source) (result : Extraction) : Extraction :=
  if kind node = "function_item" then
    match childByFieldName node "name" with
    | some nameNode =>
        let name := textOf nameNode
        { nodes := result.nodes ++ [⟨name, pathStr, makeSpan node⟩]
          edges := match enclosing.impl with
            | some implType => result.edges ++ [⟨implType, name, "defines", .extracted⟩]
            | none => result.edges }
    | none => result
  else if kind node ∈ namedItemKinds then
    match childByFieldName node "name" with
    | some nameNode =>
        { result with nodes := result.nodes ++ [⟨textOf nameNode, pathStr, makeSpan node⟩] }
    | none => result
  else if kind node = "call_expression" then
    match enclosing.fn, childByFieldName node "function" with
    | some fnName, some funcNode =>
        { result with edges := result.edges ++ [⟨fnName, textOf funcNode, "calls", .inferred⟩] }
    | _, _ => result
  else result

/-- The name of a function item that has one. -/
def newFnName (node : SyntaxTree source) : Option String :=
  if kind node = "function_item" then (childByFieldName node "name").map textOf else none

/-- The type of an `impl` item that has one. -/
def newImplName (node : SyntaxTree source) : Option String :=
  if kind node = "impl_item" then (childByFieldName node "type").map textOf else none

/-- The contexts for the children: replaced by the node, or inherited. -/
def childContext (enclosing : Enclosing) (node : SyntaxTree source) : Enclosing where
  fn := (newFnName node).or enclosing.fn
  impl := (newImplName node).or enclosing.impl

/-- Visit a node and all named ones below it. -/
def walk (enclosing : Enclosing) (result : Extraction) (node : SyntaxTree source) : Extraction :=
  RoseTree.traverse SyntaxNode.named childContext (emit pathStr) enclosing result node

/-- The walk from the root, outside any function or `impl`. -/
def extractTree (root : SyntaxTree source) : Extraction :=
  walk pathStr ⟨none, none⟩ ⟨[], []⟩ root

/-! ## The walk as a fold over the nodes -/

/-- The node that is emitted for an item with a name. -/
def itemNode (node : SyntaxTree source) : Option RawNode :=
  if kind node = "function_item" ∨ kind node ∈ namedItemKinds then
    (childByFieldName node "name").map fun nameNode => ⟨textOf nameNode, pathStr, makeSpan node⟩
  else none

/-- The edge that is emitted at a node. -/
def itemEdge (enclosing : Enclosing) (node : SyntaxTree source) : Option RawEdge :=
  if kind node = "call_expression" then
    enclosing.fn.bind fun fnName =>
      (childByFieldName node "function").map fun funcNode =>
        ⟨fnName, textOf funcNode, "calls", .inferred⟩
  else
    (newFnName node).bind fun name =>
      enclosing.impl.map fun implType => ⟨implType, name, "defines", .extracted⟩

theorem emit_eq (enclosing : Enclosing) (node : SyntaxTree source) (result : Extraction) :
    emit pathStr enclosing node result =
      ⟨result.nodes ++ (itemNode pathStr node).toList,
        result.edges ++ (itemEdge enclosing node).toList⟩ := by
  unfold emit itemNode itemEdge newFnName
  by_cases hfn : kind node = "function_item"
  · have hcall : kind node ≠ "call_expression" := by rw [hfn]; decide
    simp only [hfn, ↓reduceIte, true_or]
    cases childByFieldName node "name" with
    | none => simp
    | some nameNode => cases enclosing.impl <;> simp
  · by_cases hitem : kind node ∈ namedItemKinds
    · have hcall : kind node ≠ "call_expression" := by
        intro heq
        rw [heq] at hitem
        exact absurd hitem (by decide)
      simp only [hfn, hitem, hcall, ↓reduceIte, or_true]
      cases childByFieldName node "name" <;> simp
    · by_cases hcall : kind node = "call_expression"
      · rw [if_neg hfn, if_neg hitem, if_pos hcall, if_neg (not_or.mpr ⟨hfn, hitem⟩),
          if_pos hcall]
        cases enclosing.fn <;> cases childByFieldName node "function" <;> simp
      · simp [hfn, hitem, hcall]

/-- Below some ancestors the contexts are those of the innermost that set them. -/
def contextAt (ancestors : List (SyntaxTree source)) : Enclosing where
  fn := ancestors.findSome? newFnName
  impl := ancestors.findSome? newImplName

theorem inherited_childContext (ancestors : List (SyntaxTree source)) :
    RoseTree.inherited childContext ⟨none, none⟩ ancestors = contextAt ancestors := by
  induction ancestors with
  | nil => rfl
  | cons t ancestors ih =>
      rw [RoseTree.inherited_cons, ih, childContext, contextAt, contextAt,
        List.findSome?_cons, List.findSome?_cons]
      cases newFnName t <;> cases newImplName t <;> rfl

theorem foldl_emit_eq (occs : List (List (SyntaxTree source) × SyntaxTree source))
    (result : Extraction) :
    occs.foldl (fun result occ => emit pathStr (contextAt occ.1) occ.2 result) result =
      ⟨result.nodes ++ occs.filterMap fun occ => itemNode pathStr occ.2,
        result.edges ++ occs.filterMap fun occ => itemEdge (contextAt occ.1) occ.2⟩ := by
  induction occs generalizing result with
  | nil => simp
  | cons occ occs ih =>
      rw [List.foldl_cons, ih, emit_eq]
      simp only [List.filterMap_eq_flatMap_toList, List.flatMap_cons, List.append_assoc]

/-- The walk emits what each named node asks for, in pre-order. -/
theorem extractTree_eq (root : SyntaxTree source) :
    extractTree pathStr root =
      ⟨(occurrences root).filterMap fun occ => itemNode pathStr occ.2,
        (occurrences root).filterMap fun occ => itemEdge (contextAt occ.1) occ.2⟩ := by
  have hfold : RoseTree.traverse SyntaxNode.named childContext (emit pathStr) ⟨none, none⟩
      ⟨[], []⟩ root = _ :=
    RoseTree.traverse_eq_foldl_visits (⟨none, none⟩ : Enclosing) [] (⟨[], []⟩ : Extraction) root
  simp only [inherited_childContext] at hfold
  rw [extractTree, walk, hfold, ← occurrences, foldl_emit_eq, List.nil_append, List.nil_append]

/-! ## What the walk should attribute -/

/-- The items that a method may not be separated by from its `impl`. -/
def ownerKinds : List String := ["function_item", "impl_item", "trait_item", "mod_item"]

/-- The edge to a method from the type of the `impl` that it stands in directly. -/
def methodEdge (ancestors : List (SyntaxTree source)) (node : SyntaxTree source) :
    Option RawEdge :=
  (newFnName node).bind fun name =>
    ((ancestors.find? fun t => kind t ∈ ownerKinds).bind newImplName).map fun implType =>
      ⟨implType, name, "defines", .extracted⟩

/-- Items with a name become nodes in pre-order, a call has the innermost function with
a name as its source, and a type defines the methods of its `impl` blocks. -/
structure Attributes (root : SyntaxTree source) : Prop where
  nodes : (extractTree pathStr root).nodes =
    (occurrences root).filterMap fun occ => itemNode pathStr occ.2
  calls : ((extractTree pathStr root).edges.filter fun e => e.relation = "calls").map
      RawEdge.source =
    (occurrences root).filterMap fun occ =>
      if kind occ.2 = "call_expression" then occ.1.findSome? newFnName else none
  defines : ((extractTree pathStr root).edges.filter fun e => e.relation = "defines") =
    (occurrences root).filterMap fun occ => methodEdge occ.1 occ.2

/-- Every call in a function with a name says what is called. -/
def CallsNamed (root : SyntaxTree source) : Prop :=
  ∀ occ ∈ occurrences root, kind occ.2 = "call_expression" →
    (occ.1.findSome? newFnName).isSome → (childByFieldName occ.2 "function").isSome

/-- No item lies between a function with a name and the innermost `impl` around it. -/
def MethodsDirect (root : SyntaxTree source) : Prop :=
  ∀ occ ∈ occurrences root, (newFnName occ.2).isSome → (occ.1.findSome? newImplName).isSome →
    ∀ t ∈ occ.1.takeWhile fun t => (newImplName t).isNone, kind t ∉ ownerKinds

/-! ## When it does -/

/-- The source of the calls edge at a node. -/
def callSource (occ : List (SyntaxTree source) × SyntaxTree source) : Option String :=
  if kind occ.2 = "call_expression" then
    (occ.1.findSome? newFnName).bind fun fnName =>
      (childByFieldName occ.2 "function").map fun _ => fnName
  else none

theorem callSources_eq (root : SyntaxTree source) :
    ((extractTree pathStr root).edges.filter fun e => e.relation = "calls").map RawEdge.source =
      (occurrences root).filterMap callSource := by
  rw [extractTree_eq, List.filter_filterMap, List.map_filterMap]
  congr 1
  funext occ
  unfold itemEdge callSource contextAt
  split
  next =>
    cases occ.1.findSome? newFnName <;> cases childByFieldName occ.2 "function" <;> simp
  next =>
    cases newFnName occ.2 <;> cases occ.1.findSome? newImplName <;> simp

/-- The defines edge at a node. -/
def definesEdge (occ : List (SyntaxTree source) × SyntaxTree source) : Option RawEdge :=
  (newFnName occ.2).bind fun name =>
    (occ.1.findSome? newImplName).map fun implType => ⟨implType, name, "defines", .extracted⟩

theorem definesEdges_eq (root : SyntaxTree source) :
    ((extractTree pathStr root).edges.filter fun e => e.relation = "defines") =
      (occurrences root).filterMap definesEdge := by
  rw [extractTree_eq, List.filter_filterMap]
  congr 1
  funext occ
  unfold itemEdge definesEdge contextAt
  split
  next hcall =>
    have hfn : newFnName occ.2 = none := by
      rw [newFnName, hcall]
      rfl
    rw [hfn]
    cases occ.1.findSome? newFnName <;> cases childByFieldName occ.2 "function" <;> simp
  next =>
    cases newFnName occ.2 <;> cases occ.1.findSome? newImplName <;> simp

theorem kind_mem_ownerKinds (t : SyntaxTree source) (himpl : (newImplName t).isSome) :
    decide (kind t ∈ ownerKinds) := by
  unfold newImplName at himpl
  split at himpl
  next hkind => rw [hkind]; decide
  next => cases himpl

theorem callSources_iff (root : SyntaxTree source) :
    ((occurrences root).filterMap callSource = (occurrences root).filterMap fun occ =>
      if kind occ.2 = "call_expression" then occ.1.findSome? newFnName else none) ↔
        CallsNamed root := by
  rw [filterMap_eq_filterMap_iff, CallsNamed]
  · refine forall₂_congr fun occ _ => ?_
    unfold callSource
    split
    next hcall =>
      cases occ.1.findSome? newFnName <;> cases childByFieldName occ.2 "function" <;>
        simp [hcall]
    next hcall => simp [hcall]
  · intro occ _ name hname
    unfold callSource at hname
    split at hname
    next hcall =>
      obtain ⟨fnName, hfn, hmap⟩ := Option.bind_eq_some_iff.mp hname
      obtain ⟨_, -, rfl⟩ := Option.map_eq_some_iff.mp hmap
      exact (if_pos hcall).trans hfn
    next => cases hname

theorem definesEdges_iff (root : SyntaxTree source) :
    ((occurrences root).filterMap definesEdge =
      (occurrences root).filterMap fun occ => methodEdge occ.1 occ.2) ↔ MethodsDirect root := by
  rw [eq_comm, filterMap_eq_filterMap_iff, MethodsDirect]
  · refine forall₂_congr fun occ _ => ?_
    have howner := find?_bind_eq_findSome?_iff occ.1
      (fun t : SyntaxTree source => kind_mem_ownerKinds t)
    unfold methodEdge definesEdge
    cases newFnName occ.2 with
    | none => simp
    | some name =>
        simp only [decide_eq_true_eq] at howner
        simp only [Option.bind_some, Option.isSome_some, forall_const, ← howner]
        constructor
        · intro hmap
          refine Option.map_injective ?_ hmap
          intro T T' heq
          exact (RawEdge.mk.inj heq).1
        · intro heq
          rw [heq]
  · intro occ _ edge hedge
    obtain ⟨name, hname, hmap⟩ := Option.bind_eq_some_iff.mp hedge
    obtain ⟨implType, himpl, rfl⟩ := Option.map_eq_some_iff.mp hmap
    rw [definesEdge, hname, findSome?_of_find?_bind occ.1 himpl kind_mem_ownerKinds]
    rfl

/-- The walk attributes calls and methods to the right items exactly when every call
in a function says what is called and no item lies between a function and the
innermost `impl` around it. The tree is arbitrary. -/
theorem attributes_iff (root : SyntaxTree source) :
    Attributes pathStr root ↔ CallsNamed root ∧ MethodsDirect root := by
  rw [← callSources_iff, ← definesEdges_iff, ← callSources_eq pathStr, ← definesEdges_eq pathStr]
  constructor
  · intro hright
    exact ⟨hright.calls, hright.defines⟩
  · intro ⟨hcalls, hdefines⟩
    exact ⟨by rw [extractTree_eq], hcalls, hdefines⟩

end Walk

/-! ## A function inside a method -/

def nestedSource : List UInt8 := encode "impl T{fn m(){fn g(){}}}".toList

theorem length_nestedSource : nestedSource.length = 24 := by decide +kernel

/-- The function `g` stands in the body of the method `m`. -/
def nestedTree : SyntaxTree nestedSource :=
  let node := lineNode length_nestedSource
  let g := node "function_item" [] 14 22 (by decide)
    [node "identifier" ["name"] 17 18 (by decide) [],
      node "parameters" ["parameters"] 18 20 (by decide) [],
      node "block" ["body"] 20 22 (by decide) []]
  let m := node "function_item" [] 7 23 (by decide)
    [node "identifier" ["name"] 10 11 (by decide) [],
      node "parameters" ["parameters"] 11 13 (by decide) [],
      node "block" ["body"] 13 23 (by decide) [g]]
  node "source_file" [] 0 24 (by decide)
    [node "impl_item" [] 0 24 (by decide)
      [node "type_identifier" ["type"] 5 6 (by decide) [],
        node "declaration_list" ["body"] 6 24 (by decide) [m]]]

/-- It is reported as a method of `T` as well. -/
theorem nestedTree_attributes :
    (extractTree "a.rs" nestedTree).edges =
        [⟨"T", "m", "defines", .extracted⟩, ⟨"T", "g", "defines", .extracted⟩] ∧
      ¬ Attributes "a.rs" nestedTree := by
  have hedges : (extractTree "a.rs" nestedTree).edges =
      [⟨"T", "m", "defines", .extracted⟩, ⟨"T", "g", "defines", .extracted⟩] := by
    decide +kernel
  refine ⟨hedges, fun hright => ?_⟩
  have hdefines := hright.defines
  rw [hedges] at hdefines
  exact absurd hdefines (by decide +kernel)

end RustExtractor

end HabitatGraph
