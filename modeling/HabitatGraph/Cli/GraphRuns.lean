import HabitatGraph.Build.MergeDriver
import HabitatGraph.Cli.Prune

/-! # Runs of graph operations

Starting from the empty graph, every graph is made by assembling extractions or
by merging, pruning or three-way merging graphs made before. Whatever the
content ids, each operation returns a well-formed graph as long as the labels of
the whole run fit into the id space.
-/

namespace HabitatGraph

open KeyedList

variable (contentId : String → UInt32)

/-- One operation; graphs made before are named by their position. -/
inductive GraphOp
  | assemble (extractions : List Extraction)
  | merge (a b : Nat)
  | pruneGraph (g : Nat) (staleFiles : List String)
  | merge3 (base ours theirs : Nat)

/-- The graph at a position; there is only the empty graph where none was made. -/
def graphAt (made : List Graph) (position : Nat) : Graph := (made[position]?).getD Graph.new

/-- The graph an operation makes. -/
def GraphOp.apply (made : List Graph) : GraphOp → Option Graph
  | .assemble extractions => HabitatGraph.assemble contentId extractions
  | .merge a b => HabitatGraph.merge contentId (graphAt made a) (graphAt made b)
  | .pruneGraph g staleFiles => some (HabitatGraph.pruneGraph (graphAt made g) staleFiles)
  | .merge3 base ours theirs =>
      HabitatGraph.merge3 contentId (graphAt made base) (graphAt made ours) (graphAt made theirs)

/-- Apply the operations in order, adding each graph to those made before. -/
def runOps : List Graph → List GraphOp → Option (List Graph)
  | made, [] => some made
  | made, op :: ops => (op.apply contentId made).bind fun g => runOps (made ++ [g]) ops

/-- The labels an operation brings in. -/
def GraphOp.newLabels : GraphOp → List String
  | .assemble extractions => declaredLabels extractions
  | _ => []

/-- All labels of a run. -/
def opLabels (ops : List GraphOp) : List String := ops.flatMap GraphOp.newLabels

variable {contentId}

/-- A well-formed graph whose labels are among `labels`. -/
structure GraphOver (labels : Finset String) (g : Graph) : Prop where
  wellFormed : g.WellFormed
  labels_subset : ∀ label ∈ g.labels, label ∈ labels

theorem graphOver_new (labels : Finset String) : GraphOver labels Graph.new :=
  ⟨Graph.wellFormed_new, fun _ h => absurd h List.not_mem_nil⟩

theorem GraphOver.graphAt {labels : Finset String} {made : List Graph}
    (hmade : ∀ g ∈ made, GraphOver labels g) (position : Nat) :
    GraphOver labels (graphAt made position) := by
  unfold HabitatGraph.graphAt
  cases h : made[position]? with
  | none => exact graphOver_new labels
  | some g => exact hmade g (List.mem_of_getElem? h)

section Step

variable {labels : Finset String} (hlabels : labels.card ≤ 2 ^ 32)

include hlabels

theorem GraphOver.assemble {extractions : List Extraction}
    (hnew : ∀ label ∈ declaredLabels extractions, label ∈ labels) :
    ∃ g, HabitatGraph.assemble contentId extractions = some g ∧ GraphOver labels g := by
  have hreturns : (HabitatGraph.assemble contentId extractions).isSome := by
    apply (assemble_isSome_iff contentId extractions).mpr
    apply le_trans (length_le_card (nodup_map_firsts _) _) hlabels
    intro label hlabel
    exact hnew label (mem_map_firsts.mp hlabel)
  obtain ⟨g, hg⟩ := Option.isSome_iff_exists.mp hreturns
  refine ⟨g, hg, assemble_wellFormed hg, fun label hlabel => ?_⟩
  exact hnew label ((mem_labels_of_assemble hg).mp hlabel)

theorem GraphOver.merge {a b : Graph} (ha : GraphOver labels a) (hb : GraphOver labels b) :
    ∃ g, HabitatGraph.merge contentId a b = some g ∧ GraphOver labels g := by
  have hsubset : ∀ label ∈ (a.nodes ++ b.nodes).map Node.label, label ∈ labels := by
    intro label hlabel
    rw [List.map_append, List.mem_append] at hlabel
    exact hlabel.elim (ha.labels_subset label) (hb.labels_subset label)
  have hreturns : (HabitatGraph.merge contentId a b).isSome := by
    apply (merge_isSome_iff contentId a b).mpr
    apply le_trans (length_le_card (nodup_map_firsts _) _) hlabels
    intro label hlabel
    rw [mem_map_firsts, List.map_map] at hlabel
    exact hsubset label hlabel
  obtain ⟨g, hg⟩ := Option.isSome_iff_exists.mp hreturns
  refine ⟨g, hg, merge_wellFormed hg, fun label hlabel => ?_⟩
  exact hsubset label ((mem_labels_of_merge hg).mp hlabel)

theorem GraphOver.merge3 {base ours theirs : Graph} (hours : GraphOver labels ours)
    (htheirs : GraphOver labels theirs) :
    ∃ g, HabitatGraph.merge3 contentId base ours theirs = some g ∧ GraphOver labels g := by
  have hsubset : ∀ label ∈ (preNodes base ours theirs).map Node.label, label ∈ labels := by
    intro label hlabel
    obtain ⟨hside, -⟩ := mem_map_label_preNodes.mp hlabel
    exact hside.elim (hours.labels_subset label) (htheirs.labels_subset label)
  have hreturns : (HabitatGraph.merge3 contentId base ours theirs).isSome := by
    apply (merge3_isSome_iff contentId base ours theirs).mpr
    exact (length_le_card (nodup_preNodes base ours theirs) hsubset).trans hlabels
  obtain ⟨g, hg⟩ := Option.isSome_iff_exists.mp hreturns
  refine ⟨g, hg, merge3_wellFormed hg, fun label hlabel => ?_⟩
  exact hsubset label ((mem_labels_of_merge3 hg).mp hlabel)

omit hlabels in
theorem GraphOver.pruneGraph {g : Graph} (hg : GraphOver labels g) (staleFiles : List String) :
    GraphOver labels (HabitatGraph.pruneGraph g staleFiles) :=
  ⟨pruneGraph_wellFormed hg.wellFormed, fun label hlabel =>
    hg.labels_subset label (pruneGraph_labels_subset hlabel)⟩

/-- One operation on well-formed graphs makes a well-formed graph. -/
theorem GraphOver.apply {made : List Graph} (hmade : ∀ g ∈ made, GraphOver labels g) (op : GraphOp)
    (hop : ∀ label ∈ op.newLabels, label ∈ labels) :
    ∃ g, op.apply contentId made = some g ∧ GraphOver labels g := by
  cases op with
  | assemble extractions => exact GraphOver.assemble hlabels hop
  | merge a b => exact GraphOver.merge hlabels (.graphAt hmade a) (.graphAt hmade b)
  | pruneGraph g staleFiles =>
      exact ⟨_, rfl, GraphOver.pruneGraph (.graphAt hmade g) staleFiles⟩
  | merge3 base ours theirs =>
      exact GraphOver.merge3 hlabels (.graphAt hmade ours) (.graphAt hmade theirs)

/-- A run keeps making well-formed graphs. -/
theorem GraphOver.runOps {made : List Graph} (hmade : ∀ g ∈ made, GraphOver labels g)
    (ops : List GraphOp) (hops : ∀ label ∈ opLabels ops, label ∈ labels) :
    ∃ made', HabitatGraph.runOps contentId made ops = some made' ∧
      made'.length = made.length + ops.length ∧ ∀ g ∈ made', GraphOver labels g := by
  induction ops generalizing made with
  | nil => exact ⟨made, rfl, rfl, hmade⟩
  | cons op ops ih =>
      simp only [opLabels, List.flatMap_cons, List.mem_append] at hops
      obtain ⟨g, happly, hg⟩ : ∃ g, op.apply contentId made = some g ∧ GraphOver labels g :=
        GraphOver.apply hlabels hmade op fun label hlabel => hops label (Or.inl hlabel)
      have hmade' : ∀ g' ∈ made ++ [g], GraphOver labels g' := by
        intro g' hg'
        rcases List.mem_append.mp hg' with hg' | hg'
        · exact hmade g' hg'
        · exact List.mem_singleton.mp hg' ▸ hg
      obtain ⟨made', hrun, hlength, hgraphs⟩ := ih hmade' fun label hlabel =>
        hops label (Or.inr hlabel)
      refine ⟨made', ?_, ?_, hgraphs⟩
      · rw [HabitatGraph.runOps, happly, Option.bind_some]
        exact hrun
      · rw [hlength, List.length_append, List.length_singleton, List.length_cons]
        omega

end Step

/-- Every graph of every run is well-formed, and every run returns, whatever the
content ids, when the run has fewer than 2^32 distinct labels. A run may assemble,
prune and merge two or three graphs in any order, and use every graph as often as it likes. -/
theorem runOps_wellFormed (contentId : String → UInt32) (ops : List GraphOp)
    (hlabels : (opLabels ops).toFinset.card < 2 ^ 32) :
    ∃ made, runOps contentId [Graph.new] ops = some made ∧ made.length = ops.length + 1 ∧
      ∀ g ∈ made, g.WellFormed := by
  have hnew : ∀ g ∈ [Graph.new], GraphOver (opLabels ops).toFinset g := by
    intro g hg
    exact List.mem_singleton.mp hg ▸ graphOver_new _
  obtain ⟨made, hrun, hlength, hmade⟩ := @GraphOver.runOps contentId _ hlabels.le _ hnew ops
    fun label hlabel => List.mem_toFinset.mpr hlabel
  refine ⟨made, hrun, ?_, fun g hg => (hmade g hg).wellFormed⟩
  rw [hlength, List.length_singleton, Nat.add_comm]

/-- Assemble two files, merge both ways, prune one and merge three-way, with
every label sharing one content id. -/
def collidingRun : List GraphOp :=
  [.assemble [⟨[⟨"a", "a.rs", ⟨0, 10, 1, 2⟩⟩, ⟨"b", "a.rs", ⟨0, 10, 1, 2⟩⟩],
      [⟨"a", "b", "calls", .extracted⟩]⟩],
    .assemble [⟨[⟨"b", "b.rs", ⟨0, 10, 1, 2⟩⟩], [⟨"b", "a", "calls", .inferred⟩]⟩],
    .merge 1 2, .merge 2 1, .pruneGraph 3 ["a.rs"], .merge3 1 3 4]

theorem runOps_wellFormed_colliding :
    ∃ made, runOps (fun _ => 0) [Graph.new] collidingRun = some made ∧
      made.length = collidingRun.length + 1 ∧ ∀ g ∈ made, g.WellFormed :=
  runOps_wellFormed (fun _ => 0) collidingRun (by decide)

end HabitatGraph
