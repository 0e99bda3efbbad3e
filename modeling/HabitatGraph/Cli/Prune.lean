import HabitatGraph.Core.View

/-! # Pruning the files that went stale

An incremental update starts from the prior graph without the nodes of changed
and removed files. Pruning keeps a graph well-formed and restricts what it
denotes to the symbols found elsewhere.
-/

namespace HabitatGraph

open KeyedList

/-- Drop the nodes of stale files, every edge that touches one, and all
communities. -/
def pruneGraph (g : Graph) (staleFiles : List String) : Graph :=
  let nodes := g.nodes.filter fun n => n.sourceFile ∉ staleFiles
  let kept := nodes.map Node.id
  { g with
    nodes := nodes
    edges := g.edges.filter fun e => e.source ∈ kept ∧ e.target ∈ kept
    communities := [] }

variable {g : Graph} {staleFiles : List String}

theorem mem_pruneGraph_nodes {n : Node} :
    n ∈ (pruneGraph g staleFiles).nodes ↔ n ∈ g.nodes ∧ n.sourceFile ∉ staleFiles := by
  simp [pruneGraph]

theorem mem_pruneGraph_edges {e : Edge} :
    e ∈ (pruneGraph g staleFiles).edges ↔ e ∈ g.edges ∧
      e.source ∈ (pruneGraph g staleFiles).nodes.map Node.id ∧
        e.target ∈ (pruneGraph g staleFiles).nodes.map Node.id := by
  simp only [pruneGraph, List.mem_filter, decide_eq_true_eq]

theorem pruneGraph_nodes_sublist : (pruneGraph g staleFiles).nodes.Sublist g.nodes :=
  List.filter_sublist

theorem pruneGraph_edges_sublist : (pruneGraph g staleFiles).edges.Sublist g.edges :=
  List.filter_sublist

theorem pruneGraph_wellFormed (hg : g.WellFormed) : (pruneGraph g staleFiles).WellFormed where
  nodup_ids := hg.nodup_ids.sublist (pruneGraph_nodes_sublist.map _)
  nodup_labels := hg.nodup_labels.sublist (pruneGraph_nodes_sublist.map _)
  closed := fun _ he => (mem_pruneGraph_edges.mp he).2
  nodup_edges := hg.nodup_edges.sublist (pruneGraph_edges_sublist.map _)
  sorted_nodes := hg.sorted_nodes.sublist pruneGraph_nodes_sublist
  sorted_edges := hg.sorted_edges.sublist pruneGraph_edges_sublist

theorem pruneGraph_labels_subset : (pruneGraph g staleFiles).labels ⊆ g.labels :=
  (pruneGraph_nodes_sublist.map Node.label).subset

/-- Pruning keeps the label of every kept id. -/
theorem labelOf_pruneGraph (hids : (g.nodes.map Node.id).Nodup) {id : NodeId}
    (hid : id ∈ (pruneGraph g staleFiles).nodes.map Node.id) :
    (pruneGraph g staleFiles).labelOf id = g.labelOf id := by
  obtain ⟨n, hn, rfl⟩ := List.mem_map.mp hid
  have hids' : ((pruneGraph g staleFiles).nodes.map Node.id).Nodup :=
    hids.sublist (pruneGraph_nodes_sublist.map _)
  rw [Graph.labelOf_id hids' hn, Graph.labelOf_id hids (pruneGraph_nodes_sublist.subset hn)]

/-- A file other than the stale ones holds the symbol. -/
def keepsFile (staleFiles : List String) (_ : String) (loc : Location) : Bool :=
  loc.1 ∉ staleFiles

theorem labelKey_pruneGraph (hids : (g.nodes.map Node.id).Nodup) {e : Edge}
    (he : e ∈ (pruneGraph g staleFiles).edges) :
    (pruneGraph g staleFiles).labelKey e = g.labelKey e := by
  obtain ⟨-, hs, ht⟩ := mem_pruneGraph_edges.mp he
  simp only [Graph.labelKey, labelOf_pruneGraph hids hs, labelOf_pruneGraph hids ht]

theorem pruneGraph_view_node (hlabels : (g.nodes.map Node.label).Nodup) :
    (pruneGraph g staleFiles).view.node = (g.view.restrict (keepsFile staleFiles)).node := by
  have hlabels' : ((pruneGraph g staleFiles).nodes.map Node.label).Nodup :=
    hlabels.sublist (pruneGraph_nodes_sublist.map _)
  funext label
  apply Option.ext
  intro loc
  change _ ↔ (g.view.node label).filter (keepsFile staleFiles label) = some loc
  rw [Graph.view_node_eq_some_iff hlabels', Option.filter_eq_some_iff,
    Graph.view_node_eq_some_iff hlabels]
  constructor
  · rintro ⟨n, hn, hlabel, rfl⟩
    obtain ⟨hn, hfile⟩ := mem_pruneGraph_nodes.mp hn
    exact ⟨⟨n, hn, hlabel, rfl⟩, decide_eq_true hfile⟩
  · rintro ⟨⟨n, hn, hlabel, rfl⟩, hfile⟩
    exact ⟨n, mem_pruneGraph_nodes.mpr ⟨hn, of_decide_eq_true hfile⟩, hlabel, rfl⟩

/-- An id keeps its node when its label is kept. -/
theorem mem_ids_pruneGraph (hlabels : (g.nodes.map Node.label).Nodup) {id : NodeId}
    {label : String} (hlabel : g.labelOf id = some label)
    (hkept : ((pruneGraph g staleFiles).view.node label).isSome) :
    id ∈ (pruneGraph g staleFiles).nodes.map Node.id := by
  obtain ⟨n, hn, rfl⟩ := List.mem_map.mp (Graph.mem_labels_iff.mpr hkept)
  obtain ⟨m, hm, rfl, heq⟩ := Graph.exists_node_of_labelOf hlabel
  obtain rfl := eq_of_mem_of_key_eq hlabels hm (pruneGraph_nodes_sublist.subset hn) heq
  exact List.mem_map_of_mem hn

/-- Pruning denotes restricting to the symbols of files that are not stale. -/
theorem pruneGraph_view (hg : g.WellFormed) :
    (pruneGraph g staleFiles).view = g.view.restrict (keepsFile staleFiles) := by
  have hp : (pruneGraph g staleFiles).WellFormed := pruneGraph_wellFormed hg
  have hnode : (pruneGraph g staleFiles).view.node =
      (g.view.restrict (keepsFile staleFiles)).node := pruneGraph_view_node hg.nodup_labels
  apply LabelledGraph.eq_of_maps hnode
  funext k
  obtain ⟨s, t, r⟩ := k
  by_cases hends : (pruneGraph g staleFiles).view.HasEnds (s, t, r)
  · -- both ends are kept, so exactly the edges of this key are
    have hkept : (g.view.restrict (keepsFile staleFiles)).edge (s, t, r) =
        g.view.edge (s, t, r) := by
      unfold LabelledGraph.HasEnds at hends
      rw [hnode] at hends
      exact if_pos hends
    rw [hkept]
    apply Option.ext
    intro c
    rw [hp.view_edge_eq_some_iff, hg.view_edge_eq_some_iff]
    constructor
    · rintro ⟨e, he, hk, rfl⟩
      exact ⟨e, (mem_pruneGraph_edges.mp he).1, labelKey_pruneGraph hg.nodup_ids he ▸ hk, rfl⟩
    · rintro ⟨e, he, hk, rfl⟩
      obtain ⟨hs, ht, -⟩ := Graph.labelKey_eq_some_iff.mp hk
      have hmem : e ∈ (pruneGraph g staleFiles).edges := mem_pruneGraph_edges.mpr
        ⟨he, mem_ids_pruneGraph hg.nodup_labels hs hends.1,
          mem_ids_pruneGraph hg.nodup_labels ht hends.2⟩
      exact ⟨e, hmem, (labelKey_pruneGraph hg.nodup_ids hmem).trans hk, rfl⟩
  · have hends' : ¬ (g.view.restrict (keepsFile staleFiles)).HasEnds (s, t, r) := by
      unfold LabelledGraph.HasEnds at hends ⊢
      rwa [hnode] at hends
    rw [LabelledGraph.edge_eq_none_of_not_hasEnds _ hends,
      LabelledGraph.edge_eq_none_of_not_hasEnds _ hends']

end HabitatGraph
