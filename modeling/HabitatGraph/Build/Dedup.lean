import HabitatGraph.Core.View

/-! # Duplicate removal and canonical form

Every build operation ends by removing duplicates and sorting. From a list of
nodes with distinct ids and labels and edges between them, this yields a
well-formed graph with the same view.
-/

namespace HabitatGraph

open KeyedList StableSort

/-- Remove nodes of a repeated id and edges of a repeated key; the first
occurrence wins. Communities and manifest are copied through. -/
def dedup (g : Graph) : Graph where
  schema := g.schema
  nodes := firsts Node.id g.nodes
  edges := firsts Edge.key g.edges
  communities := g.communities
  manifest := g.manifest

namespace Graph

variable {g : Graph}

theorem mem_dedup_sorted_nodes (hids : (g.nodes.map Node.id).Nodup) {n : Node} :
    n ∈ (dedup g).sorted.nodes ↔ n ∈ g.nodes := by
  rw [mem_sorted_nodes]
  unfold dedup
  rw [firsts_eq_self hids]

theorem dedup_sorted_nodes_perm (hids : (g.nodes.map Node.id).Nodup) :
    (dedup g).sorted.nodes.Perm g.nodes := by
  have hfirsts : firsts Node.id g.nodes = g.nodes := firsts_eq_self hids
  simpa only [Graph.sorted, dedup, hfirsts] using sortByKey_perm g.nodes

theorem mem_of_mem_dedup_sorted_edges {e : Edge} (h : e ∈ (dedup g).sorted.edges) :
    e ∈ g.edges := mem_of_mem_firsts (mem_sorted_edges.mp h)

/-- Nodes with distinct ids and labels, and edges between them, come out
well-formed. -/
theorem wellFormed_dedup_sorted (hids : (g.nodes.map Node.id).Nodup)
    (hlabels : (g.nodes.map Node.label).Nodup)
    (hclosed : ∀ e ∈ g.edges, e.source ∈ g.nodes.map Node.id ∧ e.target ∈ g.nodes.map Node.id) :
    (dedup g).sorted.WellFormed := by
  have hperm := dedup_sorted_nodes_perm hids
  have hmem : ∀ id, id ∈ (dedup g).sorted.nodes.map Node.id ↔ id ∈ g.nodes.map Node.id :=
    fun id => (hperm.map Node.id).mem_iff
  refine ⟨(hperm.map _).nodup_iff.mpr hids, (hperm.map _).nodup_iff.mpr hlabels, ?_, ?_,
    pairwise_sortByKey _, pairwise_sortByKey _⟩
  · intro e he
    obtain ⟨hs, ht⟩ := hclosed e (mem_of_mem_dedup_sorted_edges he)
    exact ⟨(hmem _).mpr hs, (hmem _).mpr ht⟩
  · exact ((sortByKey_perm _).map Edge.key).nodup_iff.mpr (nodup_map_firsts g.edges)

/-- Reordering nodes of distinct ids changes no label. -/
theorem labelOf_eq_of_perm {g' : Graph} (hperm : g'.nodes.Perm g.nodes)
    (hids : (g.nodes.map Node.id).Nodup) (id : NodeId) : g'.labelOf id = g.labelOf id := by
  have hids' : (g'.nodes.map Node.id).Nodup := (hperm.map _).nodup_iff.mpr hids
  refine Option.ext fun label => ?_
  rw [labelOf_eq_some_iff hids, labelOf_eq_some_iff hids']
  simp only [hperm.mem_iff]

/-- Reordering nodes of distinct labels changes no id. -/
theorem idOf_eq_of_perm {g' : Graph} (hperm : g'.nodes.Perm g.nodes)
    (hlabels : (g.nodes.map Node.label).Nodup) (label : String) : g'.idOf label = g.idOf label := by
  have hlabels' : (g'.nodes.map Node.label).Nodup := (hperm.map _).nodup_iff.mpr hlabels
  refine Option.ext fun id => ?_
  rw [idOf_eq_some_iff hlabels, idOf_eq_some_iff hlabels']
  simp only [hperm.mem_iff]

theorem labelKey_eq_of_perm {g' : Graph} (hperm : g'.nodes.Perm g.nodes)
    (hids : (g.nodes.map Node.id).Nodup) (e : Edge) : g'.labelKey e = g.labelKey e := by
  simp only [labelKey, labelOf_eq_of_perm hperm hids]

theorem view_node_eq_of_perm {g' : Graph} (hperm : g'.nodes.Perm g.nodes)
    (hlabels : (g.nodes.map Node.label).Nodup) : g'.view.node = g.view.node := by
  have hlabels' : (g'.nodes.map Node.label).Nodup := (hperm.map _).nodup_iff.mpr hlabels
  funext label
  refine Option.ext fun loc => ?_
  rw [view_node_eq_some_iff hlabels, view_node_eq_some_iff hlabels']
  simp only [hperm.mem_iff]

/-- Canonicalizing keeps what the graph denotes. -/
theorem view_dedup_sorted (hids : (g.nodes.map Node.id).Nodup)
    (hlabels : (g.nodes.map Node.label).Nodup) : (dedup g).sorted.view = g.view := by
  have hperm := dedup_sorted_nodes_perm hids
  refine LabelledGraph.eq_of_maps (view_node_eq_of_perm hperm hlabels) ?_
  have hkey : (dedup g).sorted.labelKey = g.labelKey :=
    funext fun e => labelKey_eq_of_perm hperm hids e
  funext k
  unfold view firstBy
  dsimp only
  rw [hkey]
  -- both steps look at edges through their key, which fixes the label key
  have hfirsts : (firsts Edge.key g.edges).find? (fun e => g.labelKey e = some k) =
      g.edges.find? (fun e => g.labelKey e = some k) :=
    find?_firsts _ fun e _ f _ h => by rw [labelKey_eq_of_key_eq h]
  have hsort : (dedup g).sorted.edges.find? (fun e => g.labelKey e = some k) =
      (firsts Edge.key g.edges).find? (fun e => g.labelKey e = some k) := by
    refine find?_sortByKey _ fun e _ f _ he hf => ?_
    exact key_eq_of_labelKey_eq hlabels (of_decide_eq_true he) (of_decide_eq_true hf)
  rw [hsort, hfirsts]

end Graph

end HabitatGraph
