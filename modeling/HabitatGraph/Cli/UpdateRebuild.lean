import HabitatGraph.Cli.UpdateWorld
import HabitatGraph.Foundation.Sources

/-! # Incremental updates and full rebuilds

An incremental update should yield the graph of a full rebuild of the present
files. It does so exactly when the step from the tree of the last successful run
to the present one is faithful: declarations and assertions of changed files do
not compete with those of unchanged ones, and no edge of an unchanged file leads
into a changed one.
-/

namespace HabitatGraph

open Program KeyedList

/-! ## Trees as lists of declarations -/

/-- The file is in both trees, with the same content. -/
def Unchanged {PathBuf : Type} [LinearOrder PathBuf] (old new : SourceTree PathBuf)
    (path : PathBuf) : Prop :=
  path ∈ old.files ∧ path ∈ new.files ∧ old.content path = new.content path

instance {PathBuf : Type} [LinearOrder PathBuf] (old new : SourceTree PathBuf) :
    DecidablePred (Unchanged old new) := fun _ => inferInstanceAs (Decidable (_ ∧ _ ∧ _))

namespace Toolchain

variable {PathBuf : Type} [LinearOrder PathBuf] {T : Toolchain PathBuf}
  {tree old new : SourceTree PathBuf} {w w' : World PathBuf}

/-- The extractors attribute every node to the file it was found in. -/
def AttributesNodes (T : Toolchain PathBuf) : Prop :=
  ∀ path extract bytes x, T.extractor path = some extract → extract bytes = .ok x →
    ∀ n ∈ x.nodes, n.sourceFile = T.toStringLossy path

/-- What a file declares; nothing when it is not extracted. -/
def declared (T : Toolchain PathBuf) (tree : SourceTree PathBuf) (path : PathBuf) : Extraction :=
  (T.extraction tree path).getD ⟨[], []⟩

/-- The files of a tree with what each of them declares. -/
def sources (T : Toolchain PathBuf) (tree : SourceTree PathBuf) :
    Sources PathBuf String Location String Confidence where
  files := tree.files
  node := fun path => firstBy (fun n => some n.label) RawNode.location (T.declared tree path).nodes
  edge := fun path => firstBy (fun e => some e.key) RawEdge.confidence (T.declared tree path).edges

theorem flatMap_declared {α : Type} (f : Extraction → List α) (hf : f ⟨[], []⟩ = [])
    (files : List PathBuf) :
    (files.filterMap (T.extraction tree)).flatMap f =
      files.flatMap fun p => f (T.declared tree p) := by
  induction files with
  | nil => rfl
  | cons path files ih =>
      cases hx : T.extraction tree path with
      | none => simp [List.filterMap_cons_none hx, ih, declared, hx, hf]
      | some x => simp [List.filterMap_cons_some hx, ih, declared, hx]

/-- Assembling the extractions of some files denotes what those files declare. -/
theorem ofExtractions_eq_graph (files : List PathBuf) :
    SymbolGraph.ofExtractions (files.filterMap (T.extraction tree)) =
      ((T.sources tree).onFiles files).graph := by
  have hnode : (SymbolGraph.ofExtractions (files.filterMap (T.extraction tree))).node =
      ((T.sources tree).onFiles files).graph.node := by
    change firstBy (fun n => some n.label) RawNode.location _ = _
    rw [flatMap_declared Extraction.nodes rfl, Sources.firstBy_flatMap]
    rfl
  have hedge : firstBy (fun e => some e.key) RawEdge.confidence
      ((files.filterMap (T.extraction tree)).flatMap Extraction.edges) =
        Sources.firstIn files (T.sources tree).edge := by
    rw [flatMap_declared Extraction.edges rfl, Sources.firstBy_flatMap]
    rfl
  apply LabelledGraph.eq_of_maps hnode
  funext k
  have hends : ∀ l,
      ((SymbolGraph.ofExtractions (files.filterMap (T.extraction tree))).node l).isSome ↔
        (((T.sources tree).onFiles files).graph.node l).isSome := fun l => by rw [hnode]
  exact if_congr (and_congr (hends k.1) (hends k.2.1)) (congrFun hedge k) rfl

theorem location_of_sources (hattributes : T.AttributesNodes) {path : PathBuf} {label : String}
    {loc : Location} (h : (T.sources tree).node path label = some loc) :
    loc.1 = T.toStringLossy path := by
  obtain ⟨n, hn, -, rfl⟩ := exists_of_firstBy_eq_some h
  change n ∈ (T.declared tree path).nodes at hn
  unfold declared extraction at hn
  cases hextractor : T.extractor path with
  | none => simp [hextractor] at hn
  | some extract =>
      cases hx : extract (tree.content path) with
      | error e => simp [hextractor, hx, Except.toOption] at hn
      | ok x =>
          refine hattributes path extract _ x hextractor hx n ?_
          simpa [hextractor, hx, Except.toOption] using hn

/-! ## What the comparison of manifests finds -/

theorem hashes_manifestOf (path : PathBuf) :
    (T.manifestOf tree).hashes (T.toStringLossy path) =
      if path ∈ tree.files then some (T.hash (tree.content path)) else none := by
  apply Option.ext
  intro h
  rw [hashes_manifestOf_eq_some_iff]
  split
  next hmem => simp [hmem]
  next hmem => simp [hmem]

theorem mem_paths_manifestOf {path : PathBuf} :
    T.toStringLossy path ∈ (T.manifestOf tree).paths ↔ path ∈ tree.files := by
  rw [← not_iff_not, ← Manifest.hashes_eq_none_iff, hashes_manifestOf]
  simp

theorem hashes_eq_iff_unchanged (hinj : Function.Injective T.hash) {path : PathBuf}
    (hpath : path ∈ old.files ∨ path ∈ new.files) :
    (T.manifestOf new).hashes (T.toStringLossy path) =
        (T.manifestOf old).hashes (T.toStringLossy path) ↔ Unchanged old new path := by
  rw [hashes_manifestOf, hashes_manifestOf]
  unfold Unchanged
  by_cases hold : path ∈ old.files
  · by_cases hnew : path ∈ new.files
    · simp [hold, hnew, hinj.eq_iff, eq_comm]
    · simp [hold, hnew]
  · simp [hold, hpath.resolve_left hold]

/-- The files extracted again are those that are not unchanged. -/
theorem mem_toExtractSet_manifestOf (hinj : Function.Injective T.hash) {path : PathBuf}
    (hpath : path ∈ new.files) :
    T.toStringLossy path ∈ (diffInputs (T.manifestOf old) (T.manifestOf new)).toExtractSet ↔
      ¬ Unchanged old new path := by
  rw [mem_toExtractSet_iff, mem_paths_manifestOf, Ne,
    hashes_eq_iff_unchanged hinj (Or.inr hpath)]
  exact and_iff_right hpath

theorem mem_staleSet_manifestOf (hinj : Function.Injective T.hash) {path : PathBuf}
    (hpath : path ∈ old.files) :
    T.toStringLossy path ∈ (diffInputs (T.manifestOf old) (T.manifestOf new)).staleSet ↔
      ¬ Unchanged old new path := by
  rw [mem_staleSet_iff, mem_paths_manifestOf, Ne, hashes_eq_iff_unchanged hinj (Or.inl hpath)]
  exact and_iff_right hpath

/-! ## One step -/

/-- The step from one tree to another is one that an incremental update gets
right. -/
def StepFaithful (T : Toolchain PathBuf) (old new : SourceTree PathBuf) : Prop :=
  Sources.Faithful (T.sources old) (T.sources new) (Unchanged old new)

theorem extraction_eq_of_unchanged {path : PathBuf} (h : Unchanged old new path) :
    T.extraction new path = T.extraction old path := by
  simp only [extraction, h.2.2]

/-- Updating a tree replaces the files that are not unchanged. -/
theorem replaces_sources (hinj : Function.Injective T.hash) (hattributes : T.AttributesNodes) :
    Sources.Replaces (T.sources old) (T.sources new) (Unchanged old new)
      (keepsFile (diffInputs (T.manifestOf old) (T.manifestOf new)).staleSet) where
  filter_eq := by
    refine @StableSort.eq_of_pairwise_lt_of_mem_iff _ _ _ (fun p => p) _ _ (old.sorted.filter _)
      (new.sorted.filter _) fun path => ?_
    simp only [List.mem_filter, decide_eq_true_eq]
    exact ⟨fun h => ⟨h.2.2.1, h.2⟩, fun h => ⟨h.2.1, h.2⟩⟩
  node_eq := by
    intro path _ hunchanged
    simp only [sources, declared, extraction_eq_of_unchanged hunchanged]
  edge_eq := by
    intro path _ hunchanged
    simp only [sources, declared, extraction_eq_of_unchanged hunchanged]
  file_eq := by
    intro p _ q _ label loc hp hq
    apply T.toStringLossy.injective
    rw [← location_of_sources hattributes hp, location_of_sources hattributes hq]
  keep_iff := by
    intro path hpath label loc hloc
    rw [keepsFile, decide_eq_true_iff, location_of_sources hattributes hloc,
      mem_staleSet_manifestOf hinj hpath, not_not]

/-! ## Rebuilding -/

/-- The sidecar holds the nodes and edges that assembling all present files
yields. -/
def SameAsRebuild (T : Toolchain PathBuf) (w : World PathBuf) : Prop :=
  ∃ graph full, T.prior w.disk = some graph ∧ (∀ path ∈ w.tree.files, T.Parses w.tree path) ∧
    assemble T.contentId (w.tree.files.filterMap (T.extraction w.tree)) = some full ∧
      graph.WellFormed ∧ graph.view = full.view

omit [LinearOrder PathBuf] in
/-- Clustering leaves a canonical graph its nodes. -/
theorem clustered_nodes {g : Graph} (hg : g.WellFormed) : (T.clustered g).nodes = g.nodes :=
  StableSort.sortByKey_eq_self hg.sorted_nodes

omit [LinearOrder PathBuf] in
theorem clustered_edges {g : Graph} (hg : g.WellFormed) : (T.clustered g).edges = g.edges :=
  StableSort.sortByKey_eq_self hg.sorted_edges

theorem ofExtractions_eq_sources :
    SymbolGraph.ofExtractions (tree.files.filterMap (T.extraction tree)) =
      (T.sources tree).graph := ofExtractions_eq_graph tree.files

/-- A well-formed sidecar graph is the rebuilt one when it denotes what the files
declare. -/
theorem sameAsRebuild_iff_view {graph : Graph} (hprior : T.prior w.disk = some graph)
    (hparses : ∀ path ∈ w.tree.files, T.Parses w.tree path) (hgraph : graph.WellFormed) :
    T.SameAsRebuild w ↔ graph.view = (T.sources w.tree).graph := by
  constructor
  · rintro ⟨graph', full, hprior', -, hfull, -, hview⟩
    obtain rfl := Option.some.inj (hprior.symm.trans hprior')
    rw [hview, assemble_view hfull, ofExtractions_eq_sources]
  · intro hview
    have hsome := @assemble_isSome_of_view T.contentId
      (w.tree.files.filterMap (T.extraction w.tree)) graph hgraph
      (by rw [hview, ofExtractions_eq_sources])
    obtain ⟨full, hfull⟩ := Option.isSome_iff_exists.mp hsome
    refine ⟨graph, full, hprior, hparses, hfull, hgraph, ?_⟩
    rw [hview, assemble_view hfull, ofExtractions_eq_sources]

/-! ## One run -/

/-- The sidecar stems from the tree `built`: it records its files and holds what
they declare. Without such a tree there is no usable sidecar. -/
def StemsFrom (T : Toolchain PathBuf) (built : Option (SourceTree PathBuf))
    (disk : PartialMap Artifact String) : Prop :=
  match built with
  | none => T.prior disk = none
  | some old => ∃ graph, T.prior disk = some graph ∧ graph.manifest = T.manifestOf old ∧
      graph.WellFormed ∧ graph.view = (T.sources old).graph ∧ ∀ path ∈ old.files, T.Parses old path

theorem StemsFrom.exists_old {built : Option (SourceTree PathBuf)}
    {disk : PartialMap Artifact String}
    (h : T.StemsFrom built disk) {graph : Graph} (hprior : T.prior disk = some graph) :
    ∃ old, built = some old ∧ graph.manifest = T.manifestOf old ∧ graph.WellFormed ∧
      graph.view = (T.sources old).graph ∧ ∀ path ∈ old.files, T.Parses old path := by
  cases built with
  | none => exact absurd (h.symm.trans hprior) nofun
  | some old =>
      obtain ⟨graph', hprior', hrest⟩ := h
      obtain rfl := Option.some.inj (hprior.symm.trans hprior')
      exact ⟨old, rfl, hrest⟩

theorem parses_of_unchanged {path : PathBuf} (h : Unchanged old new path)
    (hparses : T.Parses old path) : T.Parses new path := by
  intro extract hextract
  rw [← h.2.2]
  exact hparses extract hextract

/-- An incremental merge denotes the fresh files over what is kept of the old
graph. -/
theorem merged_view (hinj : Function.Injective T.hash) {graph newPartial merged : Graph}
    (hgraph : graph.WellFormed) (hmanifest : graph.manifest = T.manifestOf old)
    (hview : graph.view = (T.sources old).graph)
    (hassemble : assemble T.contentId
      ((T.freshFiles graph new).filterMap (T.extraction new)) = some newPartial)
    (hmerge : merge T.contentId newPartial
      (pruneGraph graph (T.diffOf graph new).staleSet) = some merged) :
    merged.view = (Sources.fresh (T.sources new) (Unchanged old new)).graph.overlay
      ((T.sources old).graph.restrict
        (keepsFile (diffInputs (T.manifestOf old) (T.manifestOf new)).staleSet)) := by
  have hfresh : T.freshFiles graph new =
      (Sources.fresh (T.sources new) (Unchanged old new)).files := by
    apply List.filter_congr
    intro path hpath
    rw [diffOf, hmanifest, decide_eq_decide]
    exact mem_toExtractSet_manifestOf hinj hpath
  rw [merge_view hmerge (assemble_wellFormed hassemble).nodup_ids
    (pruneGraph_wellFormed hgraph).nodup_ids, assemble_view hassemble, pruneGraph_view hgraph,
    ofExtractions_eq_graph, hfresh, hview, diffOf, hmanifest]
  rfl

omit [LinearOrder PathBuf] in
/-- Clustering and publishing change neither the nodes nor the edges. -/
theorem exists_graph_of_published (hroundTrips : T.RoundTrips) {g : Graph} (hg : g.WellFormed)
    (hschema : g.schema = schemaVersion) {manifest : Manifest}
    {disk disk' : PartialMap Artifact String}
    (hpublished : T.Published (T.clustered g) manifest disk disk') :
    ∃ graph, T.prior disk' = some graph ∧ graph.manifest = manifest ∧ graph.WellFormed ∧
      graph.view = g.view := by
  refine ⟨_, prior_of_published hroundTrips hpublished hschema, rfl, ?_, ?_⟩
  · exact hg.congr (clustered_nodes hg) (clustered_edges hg)
  · exact Graph.view_congr (clustered_nodes hg) (clustered_edges hg)

/-- A tree in which nothing differs denotes the same graph, faithfully. -/
theorem sources_of_unchanged (hinj : Function.Injective T.hash) (hattributes : T.AttributesNodes)
    (hunchanged : ∀ path, path ∈ old.files ∨ path ∈ new.files → Unchanged old new path) :
    (T.sources new).graph = (T.sources old).graph ∧ T.StepFaithful old new := by
  have hreplaces := @replaces_sources _ _ T old new hinj hattributes
  have hold : ∀ path ∈ old.files, Unchanged old new path := fun path hpath =>
    hunchanged path (Or.inl hpath)
  have hnew : ∀ path ∈ new.files, Unchanged old new path := fun path hpath =>
    hunchanged path (Or.inr hpath)
  exact ⟨hreplaces.graph_eq_of_forall_kept hold hnew, hreplaces.faithful_of_forall_kept hold hnew⟩

section Run

variable (hroundTrips : T.RoundTrips) (hinj : Function.Injective T.hash)
  (hattributes : T.AttributesNodes)
include hroundTrips hinj hattributes

/-- What a successful run leaves in the sidecar: a well-formed graph that records
the present tree and is the rebuilt one exactly when the step is faithful. -/
theorem exists_graph_of_outcome {built : Option (SourceTree PathBuf)}
    (hbuilt : T.StemsFrom built w.disk) (h : T.Outcome w.tree w.disk w'.disk) :
    ∃ graph, T.prior w'.disk = some graph ∧ graph.manifest = T.manifestOf w.tree ∧
      graph.WellFormed ∧ (∀ path ∈ w.tree.files, T.Parses w.tree path) ∧
        (graph.view = (T.sources w.tree).graph ↔
          ∀ old, built = some old → T.StepFaithful old w.tree) := by
  generalize hdisk : w'.disk = disk' at h
  cases h with
  | full hprior hparses hassemble hpublished =>
      obtain ⟨graph, hgraph, hmanifest, hwf, hview⟩ := exists_graph_of_published hroundTrips
        (assemble_wellFormed hassemble) (assemble_fields hassemble).1 hpublished
      refine ⟨graph, hgraph, hmanifest, hwf, hparses, ?_⟩
      rw [hview, assemble_view hassemble, ofExtractions_eq_sources]
      refine iff_of_true rfl ?_
      -- a full build happens only without a usable sidecar
      rintro old rfl
      obtain ⟨_, hsome, -⟩ := hbuilt
      exact absurd (hprior.symm.trans hsome) nofun
  | @noop graph hprior hempty =>
      obtain ⟨old, rfl, hmanifest, hwf, hview, hparses⟩ := hbuilt.exists_old hprior
      -- nothing differs, so every file of either tree is unchanged
      rw [diffOf, hmanifest] at hempty
      have hunchanged : ∀ path, path ∈ old.files ∨ path ∈ w.tree.files →
          Unchanged old w.tree path := fun path hpath =>
        (hashes_eq_iff_unchanged hinj hpath).mp (isEmpty_diffInputs_iff.mp hempty _)
      obtain ⟨hsame, hfaithful⟩ := sources_of_unchanged hinj hattributes hunchanged
      refine ⟨graph, hprior, hmanifest.trans (manifestOf_eq_of_isEmpty hempty), hwf, ?_, ?_⟩
      · intro path hpath
        have hpath := hunchanged path (Or.inr hpath)
        exact parses_of_unchanged hpath (hparses path hpath.1)
      · refine iff_of_true (hview.trans hsame.symm) ?_
        intro old' heq
        exact Option.some.inj heq ▸ hfaithful
  | @incremental graph newPartial merged _ hprior hempty hparses hassemble hmerge hpublished =>
      obtain ⟨old, rfl, hmanifest, hwf, hview, hparsesOld⟩ := hbuilt.exists_old hprior
      obtain ⟨graph', hgraph', hmanifest', hwf', hview'⟩ := exists_graph_of_published hroundTrips
        (merge_wellFormed hmerge) ((merge_schema hmerge).trans (assemble_fields hassemble).1)
        hpublished
      refine ⟨graph', hgraph', hmanifest', hwf', ?_, ?_⟩
      · intro path hpath
        -- what was not extracted again parsed in an earlier run
        by_cases hunchanged : Unchanged old w.tree path
        · exact parses_of_unchanged hunchanged (hparsesOld path hunchanged.1)
        · refine hparses path (List.mem_filter.mpr ⟨hpath, decide_eq_true ?_⟩)
          rw [diffOf, hmanifest]
          exact (mem_toExtractSet_manifestOf hinj hpath).mpr hunchanged
      · rw [hview', merged_view hinj hwf hmanifest hview hassemble hmerge,
          (replaces_sources hinj hattributes).update_eq_iff]
        exact ⟨fun hstep _ heq => Option.some.inj heq ▸ hstep, fun hstep => hstep old rfl⟩

/-- A successful run ends with the rebuilt graph exactly when its step is faithful,
and the sidecar then stems from the present tree. -/
theorem sameAsRebuild_of_outcome_iff {built : Option (SourceTree PathBuf)}
    (hbuilt : T.StemsFrom built w.disk) (htree : w'.tree = w.tree)
    (h : T.Outcome w.tree w.disk w'.disk) :
    (T.SameAsRebuild w' ↔ ∀ old, built = some old → T.StepFaithful old w.tree) ∧
      (T.SameAsRebuild w' → T.StemsFrom (some w.tree) w'.disk) := by
  obtain ⟨graph, hprior, hmanifest, hwf, hparses, hfaithful⟩ :=
    exists_graph_of_outcome hroundTrips hinj hattributes hbuilt h
  have hview := @sameAsRebuild_iff_view _ _ T w' graph hprior (htree.symm ▸ hparses) hwf
  rw [htree] at hview
  constructor
  · rw [hview, hfaithful]
  · intro hsame
    exact ⟨graph, hprior, hmanifest, hwf, hview.mp hsame, hparses⟩

end Run

/-! ## Histories -/

/-- Every successful run takes a faithful step from the tree of the last successful
run before it; `built` is that tree before the first run. -/
def FaithfulSteps (T : Toolchain PathBuf) :
    Option (SourceTree PathBuf) → List (RunRecord PathBuf) → Prop
  | _, [] => True
  | built, r :: records =>
      match r.result with
      | .ok _ =>
          (∀ old, built = some old → T.StepFaithful old r.start.tree) ∧
            FaithfulSteps T (some r.start.tree) records
      | .error _ => FaithfulSteps T built records

theorem StemsFrom.congr {built : Option (SourceTree PathBuf)}
    {disk disk' : PartialMap Artifact String} (h : T.StemsFrom built disk)
    (hsidecar : disk' .sidecar = disk .sidecar) : T.StemsFrom built disk' := by
  unfold StemsFrom prior at h ⊢
  rwa [hsidecar]

theorem faithfulSteps_rule (hroundTrips : T.RoundTrips) (hinj : Function.Injective T.hash)
    (hattributes : T.AttributesNodes) :
    HistoryRule T Eq T.SameAsRebuild T.StemsFrom
      (fun built r => ∀ old, built = some old → T.StepFaithful old r.start.tree)
      (fun r => some r.start.tree) T.FaithfulSteps where
  nil _ := trivial
  error built r records e hresult := by rw [FaithfulSteps, hresult]
  ok built r records line hresult := by rw [FaithfulSteps, hresult]
  sidecar _ _ _ := StemsFrom.congr
  good built r line hbuilt hrun :=
    sameAsRebuild_of_outcome_iff hroundTrips hinj hattributes hbuilt (reads_of_steps hrun.steps).1
      (outcome_of_run hrun)

/-- Over every history from a directory without a sidecar, all successful runs end
with the rebuilt graph exactly when all their steps are faithful. The tree is edited
between runs in any way, and any call of a run may fail; of the tools it is asked that
the sidecar round trips, that the hash is injective, and that nodes name their files. -/
theorem sameAsRebuild_iff_faithfulSteps (hroundTrips : T.RoundTrips)
    (hinj : Function.Injective T.hash) (hattributes : T.AttributesNodes)
    {records : List (RunRecord PathBuf)} (hstart : w.disk .sidecar = none)
    (h : History T Eq w records w') :
    (∀ r ∈ records, r.result.isOk → T.SameAsRebuild r.stop) ↔ T.FaithfulSteps none records := by
  apply (faithfulSteps_rule hroundTrips hinj hattributes).forall_good_iff h
  rw [StemsFrom, prior, hstart, Option.bind_none]

/-! ## A lost call -/

/-- The sidecar lacks an edge that the rebuilt graph has. -/
def LosesEdge (T : Toolchain PathBuf) (w : World PathBuf) (k : EdgeKey) : Prop :=
  ∃ graph ∈ T.prior w.disk, ∃ full ∈
    assemble T.contentId (w.tree.files.filterMap (T.extraction w.tree)),
      graph.view.edge k = none ∧ (full.view.edge k).isSome

/-- The sidecar has the nodes and edges of the rebuilt graph, ids included. -/
def HoldsRebuilt (T : Toolchain PathBuf) (w : World PathBuf) : Prop :=
  ∃ graph ∈ T.prior w.disk, ∃ full ∈
    assemble T.contentId (w.tree.files.filterMap (T.extraction w.tree)),
      graph.nodes = full.nodes ∧ graph.edges = full.edges

instance (w : World PathBuf) (k : EdgeKey) : Decidable (T.LosesEdge w k) :=
  inferInstanceAs (Decidable (∃ graph ∈ T.prior w.disk, ∃ full ∈ assemble T.contentId _,
    graph.view.edge k = none ∧ (full.view.edge k).isSome))

instance (w : World PathBuf) : Decidable (T.HoldsRebuilt w) :=
  inferInstanceAs (Decidable (∃ graph ∈ T.prior w.disk, ∃ full ∈ assemble T.contentId _,
    graph.nodes = full.nodes ∧ graph.edges = full.edges))

theorem LosesEdge.not_sameAsRebuild {k : EdgeKey} (h : T.LosesEdge w k) :
    ¬ T.SameAsRebuild w := by
  obtain ⟨graph, hprior, full, hfull, hnone, hsome⟩ := h
  rintro ⟨graph', full', hprior', -, hfull', -, hview⟩
  obtain rfl := Option.some.inj (hprior.symm.trans hprior')
  obtain rfl := Option.some.inj (hfull.symm.trans hfull')
  rw [← hview, hnone] at hsome
  cases hsome

theorem HoldsRebuilt.sameAsRebuild (h : T.HoldsRebuilt w)
    (hparses : ∀ path ∈ w.tree.files, T.Parses w.tree path) : T.SameAsRebuild w := by
  obtain ⟨graph, hprior, full, hfull, hnodes, hedges⟩ := h
  refine ⟨graph, full, hprior, hparses, hfull, ?_, Graph.view_congr hnodes hedges⟩
  exact (assemble_wellFormed hfull).congr hnodes hedges

/-- The function `a` of `a.rs` calls `bb`, the function of the other file. -/
def extractCall (path : String) (bytes : Bytes) : Extraction :=
  let span : Span := ⟨0, UInt32.ofNat bytes.length, 1, 1⟩
  if path = "a.rs" then ⟨[⟨"a", path, span⟩], [⟨"a", "bb", "calls", .inferred⟩]⟩
  else ⟨[⟨"bb", path, span⟩], []⟩

/-- A caller and a callee with the given texts. -/
def callTree (caller callee : String) : SourceTree String where
  files := ["a.rs", "b.rs"]
  sorted := by decide
  content := fun path => source (if path = "a.rs" then caller else callee)

/-- The graph of such a tree. -/
def callGraph (caller callee : String) (edges : List Edge) : Graph where
  schema := schemaVersion
  nodes := [⟨⟨1⟩, "a", "a.rs", ⟨0, UInt32.ofNat caller.length, 1, 1⟩⟩,
    ⟨⟨2⟩, "bb", "b.rs", ⟨0, UInt32.ofNat callee.length, 1, 1⟩⟩]
  edges := edges
  communities := [⟨⟨0⟩, "community-0", [⟨1⟩]⟩, ⟨⟨1⟩, "community-1", [⟨2⟩]⟩]
  manifest := ⟨[⟨"a.rs", caller⟩, ⟨"b.rs", callee⟩], cargoPkgVersion, none⟩

def callEdge : Edge := ⟨⟨1⟩, ⟨2⟩, "calls", .inferred⟩

def callToolchain : Toolchain String :=
  sample extractCall
    [("built", callGraph "fn a() \x7b bb() \x7d" "fn bb() \x7b\x7d" [callEdge]),
      ("one edit", callGraph "fn a() \x7b bb() \x7d" "fn bb() \x7b \x7d" []),
      ("two edits", callGraph "fn a() \x7b bb(); \x7d" "fn bb() \x7b \x7d" [callEdge])]

/-- Build, then edit the callee, with or without the caller, and update. -/
def calleeEdited (caller : String) : List (SourceTree String × List (Option String)) :=
  [(callTree "fn a() \x7b bb() \x7d" "fn bb() \x7b\x7d", List.replicate 12 none),
    (callTree caller "fn bb() \x7b \x7d", List.replicate 13 none)]

theorem exists_lost_call :
    ∃ played ∈ play callToolchain World.respondAtRest emptyWorld
        (calleeEdited "fn a() \x7b bb() \x7d"),
      ∃ r ∈ played.1, r.result.isOk ∧ callToolchain.LosesEdge r.stop ("a", "bb", "calls") := by
  decide +kernel

theorem exists_kept_call :
    ∃ played ∈ play callToolchain World.respondAtRest emptyWorld
        (calleeEdited "fn a() \x7b bb(); \x7d"),
      ∀ r ∈ played.1, r.result.isOk ∧ callToolchain.HoldsRebuilt r.stop := by
  decide +kernel

theorem callToolchain_attributesNodes : callToolchain.AttributesNodes := by
  intro path extract bytes x hextract hx n hn
  obtain rfl := Option.some.inj hextract
  obtain rfl := Except.ok.inj hx
  unfold extractCall at hn
  dsimp only at hn
  split at hn
  next =>
    rw [List.mem_singleton.mp hn]
    rfl
  next =>
    rw [List.mem_singleton.mp hn]
    rfl

/-- An edit of a callee, in a file of its own: the update loses the call of an
unchanged file, which a rebuild has. -/
theorem update_loses_call :
    ∃ (T : Toolchain String) (w w' : World String) (records : List (RunRecord String)),
      T.RoundTrips ∧ Function.Injective T.hash ∧ T.AttributesNodes ∧ w.disk .sidecar = none ∧
        History T Eq w records w' ∧ ∃ r ∈ records, r.result.isOk ∧ ¬ T.SameAsRebuild r.stop := by
  obtain ⟨⟨records, w'⟩, hplay, r, hr, hok, hloses⟩ := exists_lost_call
  exact ⟨callToolchain, emptyWorld, w', records, sample_roundTrips (by decide),
    sample_hash_injective, callToolchain_attributesNodes, rfl,
    history_of_play respondAtRest_eq hplay, r, hr, hok, hloses.not_sameAsRebuild⟩

/-- Editing the caller as well makes the step faithful. -/
theorem caller_edited_faithful :
    ∃ played ∈ play callToolchain World.respondAtRest emptyWorld
        (calleeEdited "fn a() \x7b bb(); \x7d"), callToolchain.FaithfulSteps none played.1 := by
  obtain ⟨played, hplay, hkept⟩ := exists_kept_call
  refine ⟨played, hplay, ?_⟩
  apply (sameAsRebuild_iff_faithfulSteps (sample_roundTrips (by decide)) sample_hash_injective
    callToolchain_attributesNodes rfl (history_of_play respondAtRest_eq hplay)).mp
  intro r hr _
  apply (hkept r hr).2.sameAsRebuild
  rintro path - extract hextract
  obtain rfl := Option.some.inj hextract
  exact ⟨_, rfl⟩

end Toolchain

end HabitatGraph
