import HabitatGraph.Extract.CppPasses
import HabitatGraph.Extract.Go
import HabitatGraph.Extract.JavaScript
import HabitatGraph.Extract.MarkdownSpans
import HabitatGraph.Extract.Python
import HabitatGraph.Extract.Rust
import HabitatGraph.Source.Manifest

/-! # The registry of extractors

A file goes to the first registered extractor that knows its extension, and is skipped if
there is none. The grammars are parameters; whatever trees they give, an extraction comes
from its file and follows an outline of it.
-/

namespace HabitatGraph

open Extraction TextExtractor

/-- The languages of a build with the features `js`, `go`, `text` and `cpp`. -/
inductive Language
  | rust
  | python
  | js
  | go
  | text
  | cpp
deriving DecidableEq, Repr

namespace Language

def extensions : Language → List String
  | .rust => ["rs"]
  | .python => ["py"]
  | .js => ["js", "jsx", "mjs", "cjs"]
  | .go => ["go"]
  | .text => ["md", "markdown", "txt", "rst"]
  | .cpp => ["cpp", "cc", "cxx", "hpp", "hxx"]

end Language

def registeredExtractors : List Language := [.rust, .python, .js, .go, .text, .cpp]

/-- What the parsers of the languages give for a source. -/
abbrev Grammars := Language → (source : Bytes) → Except String (SyntaxTree source)

section Registry

variable (tables : CaseTables) (grammars : Grammars)

def TextExtractor.CaseTables.lower (s : String) : String :=
  String.ofList (tables.toLowercase s.toList)

/-- What is extracted from a tree; a text is extracted from its bytes. -/
def Language.extractTree (lang : Language) (path : String) {source : Bytes}
    (root : SyntaxTree source) : Extraction :=
  match lang with
  | .rust => RustExtractor.extractTree path root
  | .python => PythonExtractor.extractTree tables.lower (fileLabel tables path) path root
  | .js => JsExtractor.extractTree tables.lower (fileLabel tables path) path root
  | .go => GoExtractor.extractTree tables.lower (fileLabel tables path) path root
  | .text => TextExtractor.extract tables path source
  | .cpp => CppExtractor.extractTree tables.lower (fileLabel tables path) path root

def Language.extract (lang : Language) (path : String) (source : Bytes) :
    Except GraphError Extraction :=
  if lang = .text then .ok (TextExtractor.extract tables path source)
  else do
    let root ← (grammars lang source).mapError (GraphError.parse path)
    .ok (lang.extractTree tables path root)

/-- The extractor for the extension of a path. -/
def extractorFor (path : String) : Option Language :=
  (fileExtension path.toList).bind fun ext =>
    registeredExtractors.find? fun lang =>
      lang.extensions.contains (String.ofList (tables.toLowercase ext))

/-- A file and what reading it gives. -/
abbrev SourceFile := String × Except String Bytes

/-- Read and extract one file, unless no extractor takes it. -/
def extractFile (file : SourceFile) : Option (Except GraphError Extraction) :=
  (extractorFor tables file.1).map fun lang => do
    let bytes ← file.2.mapError fun e => GraphError.io (file.1 ++ ": " ++ e)
    lang.extract tables grammars file.1 bytes

/-- All files are extracted, or none. They are in parallel, so the error may be that of
another file than the first. -/
def extractFiles (files : List SourceFile) : Except GraphError (List Extraction) :=
  (files.filterMap (extractFile tables grammars)).mapM fun outcome => outcome

/-! ## Outlines -/

/-- In C++ what a file contains is inside the file. -/
def CppExtractor.fileOutline {source : Bytes} (b sourceFile : String) (root : SyntaxTree source) :
    Outline String String where
  declares := {l | l ∈ (CppExtractor.extractTree tables.lower b sourceFile root).labels}
  inner := {k | ∃ e ∈ (CppExtractor.extractTree tables.lower b sourceFile root).edges,
    e.key = k ∧ e.relation ∈ CppExtractor.hierarchy}
  incoming := ∅
  outgoing := ∅
  loose := {k | ∃ e ∈ (CppExtractor.extractTree tables.lower b sourceFile root).edges,
    e.key = k ∧ e.relation ∉ CppExtractor.hierarchy}
  inner_closed k hk := by
    obtain ⟨e, he, rfl, hrelation⟩ := hk
    have hends := CppExtractor.placed_of_mem_edges he hrelation
    exact ⟨List.mem_map.mpr hends.1.1, List.mem_map.mpr hends.2.1⟩
  incoming_target _ hk := hk.elim
  outgoing_source _ hk := hk.elim

/-- The outline of a tree. Of Rust and of texts only names and edges are known. -/
def Language.treeOutline (lang : Language) (path : String) {source : Bytes}
    (root : SyntaxTree source) : Outline String String :=
  match lang with
  | .python => outline (fileLabel tables path) (PythonExtractor.declarations tables.lower root)
  | .js => outline (fileLabel tables path) (JsExtractor.declarations tables.lower root)
  | .go => outline (fileLabel tables path) (GoExtractor.declarations tables.lower root)
  | .cpp => CppExtractor.fileOutline tables (fileLabel tables path) path root
  | lang => (lang.extractTree tables path root).loose

/-- The outline of a file that is read and parsed. -/
def fileOutline (file : SourceFile) : Option (Outline String String) :=
  (extractorFor tables file.1).bind fun lang =>
    file.2.toOption.bind fun bytes =>
      if lang = .text then some (TextExtractor.extract tables file.1 bytes).loose
      else (grammars lang bytes).toOption.map (lang.treeOutline tables file.1)

section Follows

variable {tables grammars}

theorem CppExtractor.follows_extractTree {source : Bytes} {b sourceFile : String}
    (root : SyntaxTree source) :
    (CppExtractor.extractTree tables.lower b sourceFile root).Follows
      (CppExtractor.fileOutline tables b sourceFile root) where
  labels _ := Iff.rfl
  keys k := by
    rw [Extraction.keys, List.mem_map]
    simp only [Outline.edges, CppExtractor.fileOutline, Set.union_empty, Set.mem_union,
      Set.mem_ofPred_eq, ← exists_or, ← and_or_left]
    exact exists_congr fun e => and_congr_right fun _ => (and_iff_left (em _)).symm

theorem Language.follows_extractTree (lang : Language) (path : String) {source : Bytes}
    (root : SyntaxTree source) :
    (lang.extractTree tables path root).Follows (lang.treeOutline tables path root) := by
  cases lang with
  | rust => exact follows_loose _
  | python => exact PythonExtractor.follows_extractTree root
  | js => exact JsExtractor.follows_extractTree root
  | go => exact GoExtractor.follows_extractTree root
  | text => exact follows_loose _
  | cpp => exact CppExtractor.follows_extractTree root

/-! ## Where nodes come from -/

theorem RustExtractor.comesFrom_extractTree {source : Bytes} {path : String}
    (root : SyntaxTree source) : ComesFrom path (RustExtractor.extractTree path root) := by
  intro n hn
  rw [RustExtractor.extractTree_eq] at hn
  obtain ⟨occ, -, hn⟩ := List.mem_filterMap.mp hn
  unfold RustExtractor.itemNode at hn
  split at hn
  next =>
    obtain ⟨nameNode, -, rfl⟩ := Option.map_eq_some_iff.mp hn
    rfl
  next => cases hn

theorem CppExtractor.comesFrom_extractTree {source : Bytes} {toLowercase : String → String}
    {b path : String} (root : SyntaxTree source) :
    ComesFrom path (CppExtractor.extractTree toLowercase b path root) := by
  intro n hn
  rw [CppExtractor.extractTree_eq] at hn
  cases List.mem_cons.mp hn with
  | inl hfile => rw [hfile]
  | inr hitem =>
      obtain ⟨event, -, hn⟩ := List.mem_filterMap.mp hitem
      cases event with
      | item container label relation node =>
          cases hn
          rfl
      | edge e => cases hn

theorem TextExtractor.comesFrom_extract {path : String} {source : Bytes} :
    ComesFrom path (TextExtractor.extract tables path source) := by
  intro n hn
  unfold TextExtractor.extract at hn
  dsimp only at hn
  split at hn
  next =>
    rw [TextExtractor.parseMarkdown, scan_nodes] at hn
    cases List.mem_append.mp hn with
    | inl hfile => rw [List.mem_singleton.mp hfile]
    | inr hheading =>
        obtain ⟨p, -, hp⟩ := List.mem_filterMap.mp hheading
        split at hp
        next =>
          obtain ⟨label, -, rfl⟩ := Option.map_eq_some_iff.mp hp
          rfl
        next => cases hp
  next => rw [List.mem_singleton.mp hn]

theorem Language.comesFrom_extractTree (lang : Language) (path : String) {source : Bytes}
    (root : SyntaxTree source) : ComesFrom path (lang.extractTree tables path root) := by
  cases lang with
  | rust => exact RustExtractor.comesFrom_extractTree root
  | python => exact PythonExtractor.comesFrom_extractTree root
  | js => exact JsExtractor.comesFrom_extractTree root
  | go => exact GoExtractor.comesFrom_extractTree root
  | text => exact TextExtractor.comesFrom_extract
  | cpp => exact CppExtractor.comesFrom_extractTree root

/-- What a file yields follows its outline and comes from it. -/
structure Yields (tables : CaseTables) (grammars : Grammars) (file : SourceFile)
    (x : Extraction) : Prop where
  follows : ∃ o, fileOutline tables grammars file = some o ∧ x.Follows o
  comesFrom : x.ComesFrom file.1

theorem yields_of_extractFile {file : SourceFile} {x : Extraction}
    (h : extractFile tables grammars file = some (.ok x)) : Yields tables grammars file x := by
  obtain ⟨lang, hlang, h⟩ := Option.map_eq_some_iff.mp h
  obtain ⟨bytes, hbytes, h⟩ := bind_eq_ok_iff.mp h
  rw [mapError_eq_ok_iff] at hbytes
  have houtline : fileOutline tables grammars file =
      if lang = .text then some (TextExtractor.extract tables file.1 bytes).loose
      else (grammars lang bytes).toOption.map (lang.treeOutline tables file.1) := by
    rw [fileOutline, hlang, Option.bind_some, hbytes]
    rfl
  unfold Language.extract at h
  split at h
  next htext =>
    cases h
    rw [if_pos htext] at houtline
    exact ⟨⟨_, houtline, follows_loose _⟩, TextExtractor.comesFrom_extract⟩
  next htext =>
    obtain ⟨root, hroot, h⟩ := bind_eq_ok_iff.mp h
    rw [mapError_eq_ok_iff] at hroot
    cases h
    rw [if_neg htext, hroot] at houtline
    exact ⟨⟨_, houtline, lang.follows_extractTree file.1 root⟩,
      lang.comesFrom_extractTree file.1 root⟩

end Follows

end Registry

end HabitatGraph
