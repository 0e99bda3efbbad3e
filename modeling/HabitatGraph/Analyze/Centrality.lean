import HabitatGraph.Core.Schema
import HabitatGraph.Foundation.PartialMap
import HabitatGraph.Foundation.Tally

/-! # Degree centrality

The degree of a node counts the ends of edges at it. The ranking lists the busiest
node first and breaks ties by id, so it forgets the order the degrees were counted
and walked in. The god nodes are its first entries.
-/

namespace HabitatGraph

open KeyedList StableSort Tally

/-- A node and its degree. -/
abbrev Ranked := NodeId × Nat

/-- A node at the top of the ranking. -/
structure GodNode where
  id : NodeId
  label : String
  degree : Nat
deriving DecidableEq, Repr

/-! ## Counting -/

/-- Every declared node, at degree 0. -/
def declaredDegrees (graph : Graph) : List Ranked :=
  (firsts (fun id => id) (graph.nodes.map Node.id)).map fun id => (id, 0)

/-- A self-loop holds both ends of its edge. -/
def countEdge (degrees : List Ranked) (edge : Edge) : List Ranked :=
  if edge.source = edge.target then addTo edge.source 2 degrees
  else addTo edge.target 1 (addTo edge.source 1 degrees)

/-- The entries of the degree map. -/
def degrees (graph : Graph) : List Ranked := graph.edges.foldl countEdge (declaredDegrees graph)

/-- Degree descending, then id ascending. -/
def rankKey (entry : Ranked) : Natᵒᵈ ×ₗ NodeId := toLex (OrderDual.toDual entry.2, entry.1)

/-- The nodes by degree, the map being walked in some order. -/
def degreeCentrality (order : WalkOrder Ranked) (graph : Graph) : List Ranked :=
  sortByKey rankKey (order.walk (degrees graph))

/-- The `topN` nodes of highest degree with their labels. -/
def godNodes (order : WalkOrder Ranked) (graph : Graph) (topN : Nat) : List GodNode :=
  if topN = 0 then []
  else
    let labelOf := PartialMap.ofEntries (graph.nodes.map fun n => (n.id, n.label))
    ((sortByKey rankKey (degreeCentrality order graph)).take topN).map fun entry =>
      ⟨entry.1, (labelOf entry.1).getD "", entry.2⟩

/-! ## What the degrees are -/

/-- The ends of edges at a node. -/
def endpointCount (edges : List Edge) (id : NodeId) : Nat :=
  (edges.countP fun e => e.source = id) + edges.countP fun e => e.target = id

/-- An id that a node or the end of an edge carries. -/
def Occurs (graph : Graph) (id : NodeId) : Prop :=
  (∃ n ∈ graph.nodes, n.id = id) ∨ ∃ e ∈ graph.edges, e.source = id ∨ e.target = id

theorem countOf_countEdge (ds : List Ranked) (e : Edge) (id : NodeId) :
    countOf (countEdge ds e) id = countOf ds id + endpointCount [e] id := by
  simp only [countEdge, endpointCount, List.countP_singleton, decide_eq_true_eq]
  split
  next hloop =>
    rw [countOf_addTo, hloop]
    split <;> omega
  next => rw [countOf_addTo, countOf_addTo, Nat.add_assoc]

theorem mem_keys_countEdge {ds : List Ranked} {e : Edge} {id : NodeId} :
    id ∈ (countEdge ds e).map Prod.fst ↔
      id ∈ ds.map Prod.fst ∨ e.source = id ∨ e.target = id := by
  unfold countEdge
  split
  next hloop =>
    rw [mem_keys_addTo, ← hloop, or_self]
    exact or_congr_right eq_comm
  next =>
    rw [mem_keys_addTo, mem_keys_addTo, or_assoc]
    exact or_congr_right (or_congr eq_comm eq_comm)

theorem nodup_keys_countEdge {ds : List Ranked} (hnodup : (ds.map Prod.fst).Nodup) (e : Edge) :
    ((countEdge ds e).map Prod.fst).Nodup := by
  unfold countEdge
  split
  next => exact nodup_keys_addTo hnodup
  next => exact nodup_keys_addTo (nodup_keys_addTo hnodup)

theorem sum_countEdge (ds : List Ranked) (e : Edge) :
    ((countEdge ds e).map Prod.snd).sum = (ds.map Prod.snd).sum + 2 := by
  unfold countEdge
  split
  next => exact sum_addTo _ 2 ds
  next => rw [sum_addTo, sum_addTo]

/-- What the fold over the edges has counted. -/
structure CountsEdges (ds : List Ranked) (edges : List Edge) (counted : List Ranked) : Prop where
  nodup : (counted.map Prod.fst).Nodup
  mem_keys : ∀ id, id ∈ counted.map Prod.fst ↔
    id ∈ ds.map Prod.fst ∨ ∃ e ∈ edges, e.source = id ∨ e.target = id
  countOf_eq : ∀ id, countOf counted id = countOf ds id + endpointCount edges id
  sum_eq : (counted.map Prod.snd).sum = (ds.map Prod.snd).sum + 2 * edges.length

theorem countsEdges_foldl {ds : List Ranked} (hnodup : (ds.map Prod.fst).Nodup)
    (edges : List Edge) : CountsEdges ds edges (edges.foldl countEdge ds) := by
  induction edges generalizing ds with
  | nil => constructor <;> simp [hnodup, endpointCount]
  | cons e edges ih =>
      have hrest := ih (nodup_keys_countEdge hnodup e)
      rw [List.foldl_cons]
      constructor
      · exact hrest.nodup
      · intro id
        rw [hrest.mem_keys, mem_keys_countEdge, or_assoc, List.exists_mem_cons_iff]
      · intro id
        have hsplit : endpointCount (e :: edges) id =
            endpointCount [e] id + endpointCount edges id := by
          simp only [endpointCount, List.countP_cons, List.countP_nil]
          omega
        rw [hrest.countOf_eq, countOf_countEdge, hsplit, Nat.add_assoc]
      · rw [hrest.sum_eq, sum_countEdge, List.length_cons]
        omega

theorem keys_declaredDegrees (graph : Graph) :
    (declaredDegrees graph).map Prod.fst = firsts (fun id => id) (graph.nodes.map Node.id) := by
  rw [declaredDegrees, List.map_map]
  exact List.map_id _

theorem nodup_keys_declaredDegrees (graph : Graph) :
    ((declaredDegrees graph).map Prod.fst).Nodup := by
  rw [keys_declaredDegrees]
  have hfirsts := @nodup_map_firsts _ _ _ (fun id : NodeId => id) (graph.nodes.map Node.id)
  rwa [List.map_id'] at hfirsts

theorem countsEdges_degrees (graph : Graph) :
    CountsEdges (declaredDegrees graph) graph.edges (degrees graph) :=
  countsEdges_foldl (nodup_keys_declaredDegrees graph) graph.edges

theorem countOf_declaredDegrees (graph : Graph) (id : NodeId) :
    countOf (declaredDegrees graph) id = 0 := by
  have hzero : ∀ ids : List NodeId, countOf (ids.map fun id => (id, 0)) id = 0 := by
    intro ids
    induction ids with
    | nil => rfl
    | cons id' ids ih => rw [List.map_cons, countOf_cons, ih, ite_self]
  exact hzero _

theorem sum_declaredDegrees (graph : Graph) :
    ((declaredDegrees graph).map Prod.snd).sum = 0 := by
  rw [declaredDegrees, List.map_map]
  induction firsts (fun id => id) (graph.nodes.map Node.id) with
  | nil => rfl
  | cons id ids ih => rw [List.map_cons, List.sum_cons, ih]; rfl

/-- The entries are the ids that occur with the ends of edges at them. -/
theorem mem_degrees_iff {graph : Graph} {id : NodeId} {d : Nat} :
    (id, d) ∈ degrees graph ↔ Occurs graph id ∧ d = endpointCount graph.edges id := by
  have hcounts := countsEdges_degrees graph
  have hkeys : id ∈ (declaredDegrees graph).map Prod.fst ↔ ∃ n ∈ graph.nodes, n.id = id := by
    have hfirsts := @mem_map_firsts _ _ _ (fun id : NodeId => id) (graph.nodes.map Node.id) id
    rw [List.map_id', List.map_id'] at hfirsts
    rw [keys_declaredDegrees, hfirsts, List.mem_map]
  rw [mem_iff_countOf hcounts.nodup, hcounts.mem_keys, hcounts.countOf_eq,
    countOf_declaredDegrees, Nat.zero_add, hkeys, Occurs]

/-! ## The ranking -/

theorem rankKey_injective : Function.Injective rankKey := by
  intro ⟨id, d⟩ ⟨id', d'⟩ h
  simpa [rankKey, and_comm] using h

theorem rankKey_lt_iff {entry entry' : Ranked} :
    rankKey entry < rankKey entry' ↔
      entry'.2 < entry.2 ∨ entry.2 = entry'.2 ∧ entry.1 < entry'.1 := by
  rw [rankKey, rankKey, Prod.Lex.toLex_lt_toLex, OrderDual.toDual_lt_toDual,
    OrderDual.toDual_inj]

theorem degreeCentrality_perm (order : WalkOrder Ranked) (graph : Graph) :
    (degreeCentrality order graph).Perm (degrees graph) :=
  (sortByKey_perm _).trans (order.perm _)

theorem nodup_keys_degreeCentrality (order : WalkOrder Ranked) (graph : Graph) :
    ((degreeCentrality order graph).map Prod.fst).Nodup :=
  ((degreeCentrality_perm order graph).map Prod.fst).nodup_iff.mpr (countsEdges_degrees graph).nodup

theorem pairwise_degreeCentrality (order : WalkOrder Ranked) (graph : Graph) :
    (degreeCentrality order graph).Pairwise fun entry entry' =>
      entry'.2 < entry.2 ∨ entry.2 = entry'.2 ∧ entry.1 < entry'.1 := by
  have hnodup : ((degreeCentrality order graph).map rankKey).Nodup :=
    (nodup_keys_degreeCentrality order graph).of_map.map rankKey_injective
  exact (pairwise_lt_of_nodup (pairwise_sortByKey _) hnodup).imp rankKey_lt_iff.mp

/-- The order the nodes and edges are in, and that the map is walked in, is lost. -/
theorem degreeCentrality_eq_of_perm (order order' : WalkOrder Ranked) {graph graph' : Graph}
    (hnodes : graph'.nodes.Perm graph.nodes) (hedges : graph'.edges.Perm graph.edges) :
    degreeCentrality order' graph' = degreeCentrality order graph := by
  -- an entry is determined by its id, so it is enough that both count the same
  have hdegrees : (degrees graph').Perm (degrees graph) := by
    rw [List.perm_ext_iff_of_nodup (countsEdges_degrees graph').nodup.of_map
      (countsEdges_degrees graph).nodup.of_map]
    intro ⟨id, d⟩
    rw [mem_degrees_iff, mem_degrees_iff]
    simp only [Occurs, endpointCount, hnodes.mem_iff, hedges.mem_iff, hedges.countP_eq]
  have hwalk := ((order'.perm _).trans hdegrees).trans (order.perm (degrees graph)).symm
  exact sortByKey_eq_of_perm hwalk fun _ _ _ _ h => rankKey_injective h

/-- The label a god node is given: that of the last node of its id. -/
def rankLabel (graph : Graph) (id : NodeId) : String :=
  (PartialMap.ofEntries (graph.nodes.map fun n => (n.id, n.label)) id).getD ""

theorem godNodes_eq (order : WalkOrder Ranked) (graph : Graph) (topN : Nat) :
    godNodes order graph topN = ((degreeCentrality order graph).take topN).map fun entry =>
      ⟨entry.1, rankLabel graph entry.1, entry.2⟩ := by
  unfold godNodes
  split
  next hzero =>
    rw [hzero]
    rfl
  next =>
    have hsorted : sortByKey rankKey (degreeCentrality order graph) =
        degreeCentrality order graph := sortByKey_eq_self (pairwise_sortByKey _)
    rw [hsorted]
    rfl

/-- The last node that carries this id. -/
def lastNode? (graph : Graph) (id : NodeId) : Option Node :=
  (graph.nodes.filter fun n => n.id = id).getLast?

theorem rankLabel_eq (graph : Graph) (id : NodeId) :
    rankLabel graph id = ((lastNode? graph id).map Node.label).getD "" := by
  rw [rankLabel, PartialMap.ofEntries_eq_getLast?, List.filter_map, List.getLast?_map,
    Option.map_map]
  rfl

/-- The nodes of this id have one label. -/
def OneLabel (graph : Graph) (id : NodeId) : Prop :=
  ∀ n ∈ graph.nodes, ∀ n' ∈ graph.nodes, n.id = id → n'.id = id → n.label = n'.label

theorem rankLabel_eq_label {graph : Graph} {n : Node} (hn : n ∈ graph.nodes)
    (hlabel : OneLabel graph n.id) : rankLabel graph n.id = n.label := by
  have hentry : PartialMap.ofEntries (graph.nodes.map fun n => (n.id, n.label)) n.id =
      some n.label := by
    rw [PartialMap.ofEntries_eq_some_iff_of_unique]
    · exact List.mem_map.mpr ⟨n, hn, rfl⟩
    · intro label _ hmem
      obtain ⟨n', hn', heq⟩ := List.mem_map.mp hmem
      obtain ⟨hid, rfl⟩ := Prod.mk.inj heq
      exact hlabel n' hn' n hn hid rfl
  rw [rankLabel, hentry]
  rfl

theorem rankLabel_ghost {graph : Graph} {id : NodeId} (hghost : ∀ n ∈ graph.nodes, n.id ≠ id) :
    rankLabel graph id = "" := by
  have hnone : PartialMap.ofEntries (graph.nodes.map fun n => (n.id, n.label)) id = none := by
    rw [PartialMap.ofEntries_eq_none_iff, List.map_map]
    intro hmem
    obtain ⟨n, hn, hid⟩ := List.mem_map.mp hmem
    exact hghost n hn hid
  rw [rankLabel, hnone]
  rfl

theorem rankLabel_eq_of_perm {graph graph' : Graph} (hnodes : graph'.nodes.Perm graph.nodes)
    {id : NodeId} (hlabel : OneLabel graph id) : rankLabel graph' id = rankLabel graph id := by
  by_cases hnode : ∃ n ∈ graph.nodes, n.id = id
  · obtain ⟨n, hn, rfl⟩ := hnode
    have hlabel' : OneLabel graph' n.id := by
      simpa only [OneLabel, hnodes.mem_iff] using hlabel
    rw [rankLabel_eq_label hn hlabel, rankLabel_eq_label (hnodes.mem_iff.mpr hn) hlabel']
  · have hghost : ∀ n ∈ graph.nodes, n.id ≠ id := fun n hn hid => hnode ⟨n, hn, hid⟩
    have hghost' : ∀ n ∈ graph'.nodes, n.id ≠ id := fun n hn => hghost n (hnodes.mem_iff.mp hn)
    rw [rankLabel_ghost hghost, rankLabel_ghost hghost']

/-- Every id that occurs is ranked once with the ends of edges at it, in strict order. -/
structure ExactRanking (graph : Graph) (ranked : List Ranked) : Prop where
  once : (ranked.map Prod.fst).Nodup
  mem_iff : ∀ id d, (id, d) ∈ ranked ↔ Occurs graph id ∧ d = endpointCount graph.edges id
  sum_eq : (ranked.map Prod.snd).sum = 2 * graph.edges.length
  ordered : ranked.Pairwise fun entry entry' =>
    entry'.2 < entry.2 ∨ entry.2 = entry'.2 ∧ entry.1 < entry'.1

theorem exactRanking_degreeCentrality (order : WalkOrder Ranked) (graph : Graph) :
    ExactRanking graph (degreeCentrality order graph) := by
  have hperm := degreeCentrality_perm order graph
  constructor
  · exact nodup_keys_degreeCentrality order graph
  · intro id d
    rw [hperm.mem_iff, mem_degrees_iff]
  · rw [(hperm.map Prod.snd).sum_eq, (countsEdges_degrees graph).sum_eq, sum_declaredDegrees,
      Nat.zero_add]
  · exact pairwise_degreeCentrality order graph

/-- The ranking is exact, the god nodes are its first entries, and both forget every
order. A god node has the label of the last node in the graph that carries its id, and none
if it is only the end of an edge. So the nodes may be permuted as long as the nodes of a
listed id have one label. -/
theorem degreeCentrality_spec (order : WalkOrder Ranked) (graph : Graph) :
    ExactRanking graph (degreeCentrality order graph) ∧
      (∀ topN,
        (godNodes order graph topN).map (fun g => (g.id, g.degree)) =
          (degreeCentrality order graph).take topN ∧
        ∀ g ∈ godNodes order graph topN,
          g.label = ((lastNode? graph g.id).map Node.label).getD "" ∧
          (∀ n ∈ graph.nodes, n.id = g.id → OneLabel graph g.id → g.label = n.label) ∧
          ((∀ n ∈ graph.nodes, n.id ≠ g.id) → g.label = "")) ∧
      ∀ (order' : WalkOrder Ranked) (graph' : Graph),
        graph'.nodes.Perm graph.nodes → graph'.edges.Perm graph.edges →
          degreeCentrality order' graph' = degreeCentrality order graph ∧
          ∀ topN, (∀ g ∈ godNodes order graph topN, OneLabel graph g.id) →
            godNodes order' graph' topN = godNodes order graph topN := by
  refine ⟨exactRanking_degreeCentrality order graph, fun topN => ⟨?_, fun g hg => ⟨?_, ?_, ?_⟩⟩,
    fun order' graph' hnodes hedges => ⟨?_, fun topN hlabels => ?_⟩⟩
  · rw [godNodes_eq, List.map_map]
    exact List.map_id _
  · rw [godNodes_eq] at hg
    obtain ⟨entry, -, rfl⟩ := List.mem_map.mp hg
    exact rankLabel_eq graph entry.1
  · intro n hn hid hlabel
    rw [godNodes_eq] at hg
    obtain ⟨entry, -, rfl⟩ := List.mem_map.mp hg
    change n.id = entry.1 at hid
    change OneLabel graph entry.1 at hlabel
    rw [← hid] at hlabel
    change rankLabel graph entry.1 = n.label
    rw [← hid, rankLabel_eq_label hn hlabel]
  · intro hghost
    rw [godNodes_eq] at hg
    obtain ⟨entry, -, rfl⟩ := List.mem_map.mp hg
    exact rankLabel_ghost hghost
  · exact degreeCentrality_eq_of_perm order order' hnodes hedges
  · rw [godNodes_eq, List.forall_mem_map] at hlabels
    rw [godNodes_eq, godNodes_eq, degreeCentrality_eq_of_perm order order' hnodes hedges]
    apply List.map_congr_left
    intro entry hentry
    rw [rankLabel_eq_of_perm hnodes (hlabels entry hentry)]

/-- Two nodes that carry one id. -/
def sharedId : Graph := { Graph.new with
  nodes := [⟨⟨1⟩, "a", "a.rs", ⟨0, 1, 1, 1⟩⟩, ⟨⟨1⟩, "b", "b.rs", ⟨0, 1, 1, 1⟩⟩] }

theorem godNodes_sharedId :
    sharedId.nodes.reverse.Perm sharedId.nodes ∧
    godNodes (.reversed Ranked) sharedId 1 = [⟨⟨1⟩, "b", 0⟩] ∧
    godNodes (.reversed Ranked) { sharedId with nodes := sharedId.nodes.reverse } 1 =
      [⟨⟨1⟩, "a", 0⟩] := by
  decide

end HabitatGraph
