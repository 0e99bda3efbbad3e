import HabitatGraph.Cli.UpdateRebuild
import HabitatGraph.Extract.Registry
import HabitatGraph.Fixtures.Parity

/-! # The graph of a rebuild

A rebuild extracts files of several languages and assembles what they yield. The graph
has the names of all files and what linking their outlines keeps. So nothing inside a file
is lost, an import is kept exactly when some file has the name of its module, and more
files lose nothing.
-/

namespace HabitatGraph

open Extraction TextExtractor

section Rebuild

variable {tables : CaseTables} {grammars : Grammars} {contentId contentId' : String → UInt32}
  {files files' : List SourceFile} {xs xs' : List Extraction} {g g' : Graph}

theorem mapM_eq_ok_iff {ε α : Type} {outcomes : List (Except ε α)} {as : List α} :
    (outcomes.mapM fun outcome => outcome) = .ok as ↔ outcomes = as.map .ok := by
  induction outcomes generalizing as with
  | nil => cases as <;> simp [List.mapM_nil, pure, Except.pure]
  | cons outcome outcomes ih =>
      rw [List.mapM_cons, bind_eq_ok_iff]
      constructor
      · rintro ⟨a, rfl, h⟩
        obtain ⟨rest, hrest, h⟩ := bind_eq_ok_iff.mp h
        cases h
        rw [ih.mp hrest, List.map_cons]
      · intro h
        cases as with
        | nil => cases h
        | cons a as =>
            obtain ⟨rfl, hrest⟩ := List.cons.inj h
            exact ⟨a, rfl, bind_eq_ok_iff.mpr ⟨as, ih.mpr hrest, rfl⟩⟩

/-- The outlines of some files. -/
def outlines (tables : CaseTables) (grammars : Grammars) (files : List SourceFile) :
    Set (Outline String String) :=
  {o | ∃ file ∈ files, fileOutline tables grammars file = some o}

theorem outlines_mono (hsub : ∀ file ∈ files, file ∈ files') :
    outlines tables grammars files ⊆ outlines tables grammars files' := fun _ ho =>
  ho.imp fun file h => ⟨hsub file h.1, h.2⟩

/-- A successful extraction is that of the files which have an extractor. -/
theorem mem_of_extractFiles (h : extractFiles tables grammars files = .ok xs) {x : Extraction} :
    x ∈ xs ↔ ∃ file ∈ files, extractFile tables grammars file = some (.ok x) := by
  have hmap := mapM_eq_ok_iff.mp h
  rw [← List.mem_filterMap, hmap, List.mem_map]
  constructor
  · exact fun hx => ⟨x, hx, rfl⟩
  · rintro ⟨y, hy, heq⟩
    cases heq
    exact hy

/-- Every outline is followed by what its file yields. -/
theorem exists_of_mem_outlines (h : extractFiles tables grammars files = .ok xs)
    {o : Outline String String} (ho : o ∈ outlines tables grammars files) :
    ∃ x ∈ xs, x.Follows o := by
  obtain ⟨file, hfile, ho⟩ := ho
  obtain ⟨lang, hlang, -⟩ := Option.bind_eq_some_iff.mp ho
  have hmem : (extractFile tables grammars file).isSome := by
    rw [extractFile, hlang]
    rfl
  obtain ⟨outcome, houtcome⟩ := Option.isSome_iff_exists.mp hmem
  have hok : outcome ∈ xs.map (Except.ok : Extraction → Except GraphError Extraction) := by
    rw [← mapM_eq_ok_iff.mp h]
    exact List.mem_filterMap.mpr ⟨file, hfile, houtcome⟩
  obtain ⟨x, hx, rfl⟩ := List.mem_map.mp hok
  obtain ⟨o', ho', hfollows⟩ := (yields_of_extractFile houtcome).follows
  obtain rfl := Option.some.inj (ho.symm.trans ho')
  exact ⟨x, hx, hfollows⟩

theorem exists_outline_of_mem (h : extractFiles tables grammars files = .ok xs) {x : Extraction}
    (hx : x ∈ xs) : ∃ o ∈ outlines tables grammars files, x.Follows o := by
  obtain ⟨file, hfile, hextract⟩ := (mem_of_extractFiles h).mp hx
  obtain ⟨o, ho, hfollows⟩ := (yields_of_extractFile hextract).follows
  exact ⟨o, ⟨file, hfile, ho⟩, hfollows⟩

theorem mem_declaredLabels_iff {l : String} :
    l ∈ declaredLabels xs ↔ ∃ x ∈ xs, l ∈ x.labels := by
  simp only [declaredLabels, Extraction.labels, List.mem_map, List.mem_flatMap]
  constructor
  · rintro ⟨n, ⟨x, hx, hn⟩, rfl⟩
    exact ⟨x, hx, n, hn, rfl⟩
  · rintro ⟨x, hx, n, hn, rfl⟩
    exact ⟨n, ⟨x, hx, hn⟩, rfl⟩

theorem mem_names_iff (h : extractFiles tables grammars files = .ok xs) {l : String} :
    l ∈ Outline.names (outlines tables grammars files) ↔ l ∈ declaredLabels xs := by
  rw [mem_declaredLabels_iff]
  constructor
  · rintro ⟨o, ho, hl⟩
    obtain ⟨x, hx, hfollows⟩ := exists_of_mem_outlines h ho
    exact ⟨x, hx, (hfollows.labels l).mpr hl⟩
  · rintro ⟨x, hx, hl⟩
    obtain ⟨o, ho, hfollows⟩ := exists_outline_of_mem h hx
    exact ⟨o, ho, (hfollows.labels l).mp hl⟩

theorem mem_linked_outlines_iff (h : extractFiles tables grammars files = .ok xs)
    {s t r : String} :
    (s, t, r) ∈ Outline.linked (outlines tables grammars files) ↔ Asserts xs s t r := by
  have hkey : (∃ o ∈ outlines tables grammars files, (s, t, r) ∈ o.edges) ↔
      ∃ x ∈ xs, (s, t, r) ∈ x.keys := by
    constructor
    · rintro ⟨o, ho, hk⟩
      obtain ⟨x, hx, hfollows⟩ := exists_of_mem_outlines h ho
      exact ⟨x, hx, (hfollows.keys _).mpr hk⟩
    · rintro ⟨x, hx, hk⟩
      obtain ⟨o, ho, hfollows⟩ := exists_outline_of_mem h hx
      exact ⟨o, ho, (hfollows.keys _).mp hk⟩
  change (_ ∧ s ∈ _ ∧ t ∈ _) ↔ _
  rw [hkey, mem_names_iff h, mem_names_iff h, Asserts, and_comm, and_assoc]
  simp only [Extraction.keys, List.mem_map, RawEdge.key, Prod.mk.injEq]

/-- A node has the source file of one of the raw nodes it was assembled from. -/
theorem exists_rawNode_of_assemble (hg : assemble contentId xs = some g) {n : Node}
    (hn : n ∈ g.nodes) : ∃ x ∈ xs, ∃ m ∈ x.nodes, m.sourceFile = n.sourceFile := by
  have hview : g.view.node n.label = some n.location :=
    (Graph.view_node_eq_some_iff (assemble_wellFormed hg).nodup_labels).mpr ⟨n, hn, rfl, rfl⟩
  rw [assemble_view hg] at hview
  obtain ⟨m, hm, -, hlocation⟩ := KeyedList.exists_of_firstBy_eq_some hview
  obtain ⟨x, hx, hm⟩ := List.mem_flatMap.mp hm
  exact ⟨x, hx, m, hm, congrArg Prod.fst hlocation⟩

theorem mem_labels_iff_names (hxs : extractFiles tables grammars files = .ok xs)
    (hg : assemble contentId xs = some g) {l : String} :
    l ∈ g.labels ↔ l ∈ Outline.names (outlines tables grammars files) := by
  rw [Graph.mem_labels_iff, assemble_view hg, ofExtractions_node_isSome_iff, mem_names_iff hxs]

theorem mem_labelKeys_iff_linked (hxs : extractFiles tables grammars files = .ok xs)
    (hg : assemble contentId xs = some g) {k : EdgeKey} :
    k ∈ g.labelKeys ↔ k ∈ Outline.linked (outlines tables grammars files) := by
  obtain ⟨s, t, r⟩ := k
  rw [Graph.mem_labelKeys_iff, assemble_view hg, ofExtractions_edge_isSome_iff,
    mem_linked_outlines_iff hxs]

end Rebuild

/-! ## A module and a file with its name -/

namespace ImportSample

open Utf8Lines

def importSource : Bytes := encode "from b import x".toList

theorem length_importSource : importSource.length = 15 := by decide

/-- The import of `b`. -/
def importTree : SyntaxTree importSource :=
  let node := SyntaxTree.lineNode length_importSource
  node "module" [] 0 15 (by decide)
    [node "import_from_statement" [] 0 15 (by decide)
      [node "dotted_name" ["module_name"] 5 6 (by decide) [],
        node "dotted_name" ["name"] 14 15 (by decide) []]]

/-- A parser that knows this source and finds nothing in any other. -/
def grammars : Grammars := fun _ source =>
  if h : source = importSource then .ok (h ▸ importTree)
  else .ok (SyntaxTree.lineNode rfl "module" [] 0 0 ⟨Nat.le_refl 0, Nat.zero_le _⟩ [])

def files : List SourceFile := [("a.py", .ok importSource), ("b.go", .ok [])]

def extracted : List Extraction :=
  [⟨[⟨"a", "a.py", ⟨0, 15, 1, 1⟩⟩], [⟨"a", "b", "imports_from", .extracted⟩]⟩,
    ⟨[⟨"b", "b.go", ⟨0, 0, 1, 1⟩⟩], []⟩]

theorem extractFiles_files :
    extractFiles TextExtractor.asciiTables grammars files = .ok extracted := by rfl

theorem assemble_extracted : ∃ g, assemble (fun _ => 0) extracted = some g :=
  Option.isSome_iff_exists.mp ((assemble_isSome_iff _ _).mpr (by decide))

theorem outlines_files :
    outline "a" [.imports "b"] ∈ outlines TextExtractor.asciiTables grammars files ∧
      outline "b" [] ∈ outlines TextExtractor.asciiTables grammars files := by
  constructor
  · exact ⟨("a.py", .ok importSource), List.mem_cons_self, rfl⟩
  · exact ⟨("b.go", .ok []), List.mem_cons_of_mem _ (List.mem_singleton_self _), rfl⟩

end ImportSample

/-! ## Updates -/

section Updates

variable {PathBuf : Type} [LinearOrder PathBuf] {T : Toolchain PathBuf} {tables : CaseTables}
  {grammars : Grammars} {tree : SourceTree PathBuf} {w w' : World PathBuf}

/-- The extractors of the toolchain are those of the registry. -/
def Toolchain.Registered (T : Toolchain PathBuf) (tables : CaseTables) (grammars : Grammars) :
    Prop :=
  ∀ path, T.extractor path = (extractorFor tables (T.toStringLossy path)).map fun lang =>
    lang.extract tables grammars (T.toStringLossy path)

/-- The files of a tree, all of which can be read. -/
def Toolchain.sourceFiles (T : Toolchain PathBuf) (tree : SourceTree PathBuf) : List SourceFile :=
  tree.files.map fun path => (T.toStringLossy path, .ok (tree.content path))

omit [LinearOrder PathBuf] in
theorem extractFile_of_registered (hregistered : T.Registered tables grammars) (path : PathBuf)
    (bytes : Bytes) : extractFile tables grammars (T.toStringLossy path, .ok bytes) =
      (T.extractor path).map fun extract => extract bytes := by
  rw [extractFile, hregistered, Option.map_map]
  rfl

omit [LinearOrder PathBuf] in
/-- Whatever the grammars are, every node is attributed to the file it was found in. -/
theorem attributesNodes_of_registered (hregistered : T.Registered tables grammars) :
    T.AttributesNodes := by
  intro path extract bytes x hextract hx n hn
  have hfile := extractFile_of_registered hregistered path bytes
  rw [hextract, Option.map_some, hx] at hfile
  exact (yields_of_extractFile hfile).comesFrom n hn

/-- A tree that parses is extracted file by file. -/
theorem extractFiles_of_registered (hregistered : T.Registered tables grammars)
    (hparses : ∀ path ∈ tree.files, T.Parses tree path) :
    extractFiles tables grammars (T.sourceFiles tree) =
      .ok (tree.files.filterMap (T.extraction tree)) := by
  rw [extractFiles, mapM_eq_ok_iff, Toolchain.sourceFiles, List.filterMap_map, List.map_filterMap]
  apply List.filterMap_congr
  intro path hpath
  rw [Function.comp_apply, extractFile_of_registered hregistered, Toolchain.extraction]
  cases hextract : T.extractor path with
  | none => rfl
  | some extract =>
      obtain ⟨x, hx⟩ := hparses path hpath extract hextract
      rw [Option.map_some, Option.bind_some, hx]
      rfl

/-- The sidecar holds the names of all files and what linking their outlines keeps. -/
def Toolchain.LinksOutlines (T : Toolchain PathBuf) (tables : CaseTables) (grammars : Grammars)
    (w : World PathBuf) : Prop :=
  let files := outlines tables grammars (T.sourceFiles w.tree)
  ∃ graph, T.prior w.disk = some graph ∧ (∀ l, l ∈ graph.labels ↔ l ∈ Outline.names files) ∧
    ∀ k, k ∈ graph.labelKeys ↔ ∃ o ∈ files, Outline.Kept files o k

theorem linksOutlines_of_sameAsRebuild (hregistered : T.Registered tables grammars)
    (h : T.SameAsRebuild w) : T.LinksOutlines tables grammars w := by
  obtain ⟨graph, full, hprior, hparses, hfull, -, hview⟩ := h
  have hfiles := extractFiles_of_registered hregistered hparses
  refine ⟨graph, hprior, fun l => ?_, fun k => ?_⟩
  · rw [Graph.mem_labels_iff, hview, ← Graph.mem_labels_iff, mem_labels_iff_names hfiles hfull]
  · rw [Graph.mem_labelKeys_iff, hview, ← Graph.mem_labelKeys_iff,
      mem_labelKeys_iff_linked hfiles hfull, Outline.mem_linked_iff]

/-- After every successful run of a history of faithful steps, incremental updates
included, the sidecar says what the files of the tree come to when they are linked.
The extractors are those of the registry, so nothing is assumed of where nodes come from. -/
theorem linksOutlines_of_faithfulSteps (hregistered : T.Registered tables grammars)
    (hroundTrips : T.RoundTrips) (hinj : Function.Injective T.hash)
    {records : List (RunRecord PathBuf)} (hstart : w.disk .sidecar = none)
    (h : History T Eq w records w') (hfaithful : T.FaithfulSteps none records) :
    ∀ r ∈ records, r.result.isOk → T.LinksOutlines tables grammars r.stop := by
  have hstems : T.StemsFrom none w.disk := by
    rw [Toolchain.StemsFrom, Toolchain.prior, hstart, Option.bind_none]
  have hrule := Toolchain.faithfulSteps_rule hroundTrips hinj
    (attributesNodes_of_registered hregistered)
  intro r hr hok
  exact linksOutlines_of_sameAsRebuild hregistered
    ((hrule.forall_good_iff h hstems).mpr hfaithful r hr hok)

end Updates

end HabitatGraph
