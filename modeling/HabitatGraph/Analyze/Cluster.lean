import HabitatGraph.Core.Schema
import HabitatGraph.Foundation.PartialMap
import Mathlib.Data.Multiset.Bind

/-! # Community detection

The clustering algorithm works on node indices. Its groups are mapped back to
node ids, put in order of their smallest members and numbered from 0, so the
communities are disjoint, cover the nodes and are in canonical order whatever
order the algorithm returned them in.
-/

namespace HabitatGraph

open KeyedList StableSort

/-- The clustering algorithm: groups of indices from the number of nodes and the
undirected pairs between them, or an error. -/
abbrev Leiden := Nat → List (Nat × Nat) → Option (List (List Nat))

/-- Every index is in one group, and no group is empty. -/
def Leiden.Covers (leiden : Leiden) : Prop :=
  ∀ nodeCount pairs groups, leiden nodeCount pairs = some groups →
    groups.flatten.Perm (List.range nodeCount) ∧ [] ∉ groups

/-! ## Detection -/

/-- The ids of the nodes, ascending; a node's index is its place here. -/
def sortedNodeIds (graph : Graph) : List NodeId :=
  sortByKey (fun id => id) (graph.nodes.map Node.id)

/-- The ends of an edge as a pair of indices; self-loops and edges that leave the
graph count for nothing. -/
def clusterPair (idToIdx : PartialMap NodeId Nat) (edge : Edge) : Option (Nat × Nat) :=
  match idToIdx edge.source, idToIdx edge.target with
  | some src, some tgt => if src = tgt then none else some (min src tgt, max src tgt)
  | _, _ => none

/-- Every pair once. -/
def clusterPairs (graph : Graph) : List (Nat × Nat) :=
  firsts (fun pair => pair)
    (graph.edges.filterMap (clusterPair (PartialMap.ofEntries (sortedNodeIds graph).zipIdx)))

/-- The ids of a group of indices, ascending. -/
def groupMembers (ids : List NodeId) (group : List Nat) : List NodeId :=
  sortByKey (fun id => id) (group.filterMap fun idx => ids[idx]?)

/-- What communities are ordered by. -/
def smallestMember (members : List NodeId) : NodeId :=
  members.head?.getD ⟨UInt32.ofNat (2 ^ 32 - 1)⟩

/-- The community at place `idx`. -/
def numberedCommunity (members : List NodeId) (idx : Nat) : Community :=
  let id : CommunityId := ⟨if idx < 2 ^ 32 then UInt32.ofNat idx else UInt32.ofNat (2 ^ 32 - 1)⟩
  ⟨id, "community-" ++ toString id.get.toNat, members⟩

/-- Detect communities; there are none when the algorithm fails. -/
def detectCommunities (leiden : Leiden) (graph : Graph) : List Community :=
  if graph.nodes.isEmpty then []
  else
    match leiden (sortedNodeIds graph).length (clusterPairs graph) with
    | none => []
    | some groups =>
        let communities := groups.map (groupMembers (sortedNodeIds graph))
        (sortByKey smallestMember communities).zipIdx.map fun entry =>
          numberedCommunity entry.1 entry.2

/-! ## Members -/

theorem filterMap_getElem?_range {α : Type*} (xs : List α) :
    (List.range xs.length).filterMap (fun i => xs[i]?) = xs := by
  induction xs with
  | nil => rfl
  | cons x xs ih =>
      rw [List.length_cons, List.range_succ_eq_map, List.filterMap_cons, List.filterMap_map]
      simpa using ih

/-- The groups mapped back hold every id once. -/
theorem flatten_groupMembers_perm {ids : List NodeId} {groups : List (List Nat)}
    (hcover : groups.flatten.Perm (List.range ids.length)) :
    (groups.map (groupMembers ids)).flatten.Perm ids := by
  have hgroups : (groups.map (groupMembers ids)).flatten.Perm
      (groups.map fun group => group.filterMap fun idx => ids[idx]?).flatten := by
    apply List.Perm.flatten_congr
    rw [List.forall₂_map_left_iff, List.forall₂_map_right_iff, List.forall₂_same]
    exact fun group _ => sortByKey_perm _
  rw [← List.filterMap_flatten] at hgroups
  have hids := hcover.filterMap fun idx => ids[idx]?
  rw [filterMap_getElem?_range] at hids
  exact hgroups.trans hids

theorem groupMembers_ne_nil {ids : List NodeId} {groups : List (List Nat)}
    (hcover : groups.flatten.Perm (List.range ids.length)) {group : List Nat}
    (hgroup : group ∈ groups) (hne : group ≠ []) : groupMembers ids group ≠ [] := by
  obtain ⟨idx, hidx⟩ := List.exists_mem_of_ne_nil _ hne
  have hlt : idx < ids.length := by
    have hmem := hcover.mem_iff.mp (List.mem_flatten_of_mem hgroup hidx)
    simpa using hmem
  have hid : ids[idx] ∈ groupMembers ids group := by
    rw [groupMembers, mem_sortByKey, List.mem_filterMap]
    exact ⟨idx, hidx, List.getElem?_eq_getElem hlt⟩
  exact List.ne_nil_of_mem hid

theorem length_le_length_flatten {α : Type*} {xss : List (List α)} (hne : [] ∉ xss) :
    xss.length ≤ xss.flatten.length := by
  induction xss with
  | nil => simp
  | cons xs xss ih =>
      rw [List.mem_cons, not_or] at hne
      have hpos : 0 < xs.length := List.length_pos_iff.mpr (Ne.symm hne.1)
      have hrest := ih hne.2
      rw [List.length_cons, List.flatten_cons, List.length_append]
      omega

/-! ## Numbering -/

theorem map_members_numbered (mss : List (List NodeId)) (k : Nat) :
    ((mss.zipIdx k).map fun entry => numberedCommunity entry.1 entry.2).map Community.members =
      mss := by
  induction mss generalizing k with
  | nil => rfl
  | cons ms mss ih =>
      rw [List.zipIdx_cons, List.map_cons, List.map_cons, ih]
      rfl

theorem numberedCommunity_id (members : List NodeId) {idx : Nat} (hidx : idx < 2 ^ 32) :
    (numberedCommunity members idx).id.get.toNat = idx := by
  simp only [numberedCommunity, if_pos hidx]
  rw [UInt32.toNat_ofNat', Nat.mod_eq_of_lt hidx]

theorem map_id_numbered (mss : List (List NodeId)) (k : Nat) (hroom : k + mss.length ≤ 2 ^ 32) :
    ((mss.zipIdx k).map fun entry => numberedCommunity entry.1 entry.2).map
        (fun c => c.id.get.toNat) = List.range' k mss.length := by
  induction mss generalizing k with
  | nil => rfl
  | cons ms mss ih =>
      rw [List.length_cons] at hroom ⊢
      rw [List.zipIdx_cons, List.map_cons, List.map_cons, ih (k + 1) (by omega),
        numberedCommunity_id ms (by omega), List.range'_succ]

/-- Communities numbered from 0 on, which are disjoint, cover `ids` and have
their members in order. -/
structure Numbered (ids : List NodeId) (cs : List Community) : Prop where
  ids_eq : cs.map (fun c => c.id.get.toNat) = List.range cs.length
  label : ∀ c ∈ cs, c.label = "community-" ++ toString c.id.get.toNat
  members_ne_nil : ∀ c ∈ cs, c.members ≠ []
  sorted_members : ∀ c ∈ cs, c.members.Pairwise (· ≤ ·)
  cover : cs = [] ∨ (cs.flatMap Community.members).Perm ids

theorem numbered_zipIdx {ids : List NodeId} {mss : List (List NodeId)}
    (hroom : mss.length ≤ 2 ^ 32) (hne : ∀ ms ∈ mss, ms ≠ [])
    (hsorted : ∀ ms ∈ mss, ms.Pairwise (· ≤ ·)) (hcover : mss.flatten.Perm ids) :
    Numbered ids (mss.zipIdx.map fun entry => numberedCommunity entry.1 entry.2) := by
  have hmembers : ∀ c ∈ mss.zipIdx.map (fun entry => numberedCommunity entry.1 entry.2),
      c.members ∈ mss := by
    intro c hc
    rw [← map_members_numbered mss 0]
    exact List.mem_map_of_mem hc
  refine ⟨?_, ?_, fun c hc => hne _ (hmembers c hc), fun c hc => hsorted _ (hmembers c hc), ?_⟩
  · rw [map_id_numbered mss 0 (by omega), List.length_map, List.length_zipIdx,
      List.range_eq_range']
  · intro c hc
    obtain ⟨entry, -, rfl⟩ := List.mem_map.mp hc
    rfl
  · apply Or.inr
    rwa [List.flatMap_def, map_members_numbered]

/-! ## One run of the algorithm -/

/-- Groups of the indices below `n`: every index is in one of them, and none is empty. -/
def IsPartition (n : Nat) (groups : List (List Nat)) : Prop :=
  groups.flatten.Perm (List.range n) ∧ [] ∉ groups

instance (n : Nat) (groups : List (List Nat)) : Decidable (IsPartition n groups) :=
  inferInstanceAs (Decidable (_ ∧ _))

/-- The groups a run returns, mapped back and in order. -/
def orderedMembers (ids : List NodeId) (groups : List (List Nat)) : List (List NodeId) :=
  sortByKey smallestMember (groups.map (groupMembers ids))

theorem sortedNodeIds_perm (graph : Graph) :
    (sortedNodeIds graph).Perm (graph.nodes.map Node.id) := sortByKey_perm _

/-- Without nodes the algorithm has no groups to return. -/
theorem detectCommunities_eq {leiden : Leiden} {graph : Graph} {groups : List (List Nat)}
    (hrun : leiden (sortedNodeIds graph).length (clusterPairs graph) = some groups)
    (hgroups : IsPartition (sortedNodeIds graph).length groups) :
    detectCommunities leiden graph =
      (orderedMembers (sortedNodeIds graph) groups).zipIdx.map fun entry =>
        numberedCommunity entry.1 entry.2 := by
  unfold detectCommunities
  split
  next hempty =>
    have hnodes : sortedNodeIds graph = [] := by
      have hperm := sortedNodeIds_perm graph
      rw [List.isEmpty_iff.mp hempty] at hperm
      exact hperm.eq_nil
    obtain ⟨hcover, hne⟩ := hgroups
    rw [hnodes] at hcover
    have hlength := length_le_length_flatten hne
    rw [hcover.length_eq] at hlength
    have hnone : groups = [] := List.length_eq_zero_iff.mp (Nat.le_zero.mp hlength)
    rw [hnone]
    rfl
  next =>
    rw [hrun]
    rfl

section Run

variable {graph : Graph} {groups : List (List Nat)}
  (hids : (graph.nodes.map Node.id).Nodup)
  (hgroups : IsPartition (sortedNodeIds graph).length groups)

include hgroups

theorem flatten_orderedMembers_perm :
    (orderedMembers (sortedNodeIds graph) groups).flatten.Perm (graph.nodes.map Node.id) :=
  (sortByKey_perm _).flatten.trans
    ((flatten_groupMembers_perm hgroups.1).trans (sortedNodeIds_perm graph))

theorem ne_nil_of_mem_orderedMembers {members : List NodeId}
    (hmembers : members ∈ orderedMembers (sortedNodeIds graph) groups) : members ≠ [] := by
  obtain ⟨group, hgroup, rfl⟩ := List.mem_map.mp (mem_sortByKey.mp hmembers)
  exact groupMembers_ne_nil hgroups.1 hgroup fun heq => hgroups.2 (heq ▸ hgroup)

include hids

theorem length_orderedMembers_le :
    (orderedMembers (sortedNodeIds graph) groups).length ≤ 2 ^ 32 := by
  have hne : [] ∉ orderedMembers (sortedNodeIds graph) groups := by
    intro hmem
    exact ne_nil_of_mem_orderedMembers hgroups hmem rfl
  have hlength := length_le_length_flatten hne
  rw [(flatten_orderedMembers_perm hgroups).length_eq] at hlength
  exact hlength.trans (length_ids_le hids)

theorem numbered_orderedMembers :
    Numbered (graph.nodes.map Node.id)
      ((orderedMembers (sortedNodeIds graph) groups).zipIdx.map fun entry =>
        numberedCommunity entry.1 entry.2) := by
  apply numbered_zipIdx
  · exact length_orderedMembers_le hids hgroups
  · intro ms hms
    exact ne_nil_of_mem_orderedMembers hgroups hms
  · intro ms hms
    obtain ⟨group, -, rfl⟩ := List.mem_map.mp (mem_sortByKey.mp hms)
    exact pairwise_sortByKey _
  · exact flatten_orderedMembers_perm hgroups

end Run

/-- Detected communities are numbered in canonical order. -/
theorem numbered_detectCommunities {leiden : Leiden} (hleiden : leiden.Covers) {graph : Graph}
    (hids : (graph.nodes.map Node.id).Nodup) :
    Numbered (graph.nodes.map Node.id) (detectCommunities leiden graph) := by
  cases hrun : leiden (sortedNodeIds graph).length (clusterPairs graph) with
  | none =>
      have hempty : detectCommunities leiden graph = [] := by
        unfold detectCommunities
        rw [hrun, ite_self]
      rw [hempty]
      constructor <;> simp
  | some groups =>
      have hgroups : IsPartition _ groups := hleiden _ _ groups hrun
      rw [detectCommunities_eq hrun hgroups]
      exact numbered_orderedMembers hids hgroups

/-! ## Independence of the listing -/

/-- The same groups, listed and written in whatever order. -/
def SameGroups (groups groups' : List (List Nat)) : Prop :=
  (groups.map Multiset.ofList).Perm (groups'.map Multiset.ofList)

instance (groups groups' : List (List Nat)) : Decidable (SameGroups groups groups') :=
  inferInstanceAs (Decidable (List.Perm _ _))

theorem groupMembers_eq_of_perm {ids : List NodeId} {group group' : List Nat}
    (hperm : group.Perm group') : groupMembers ids group = groupMembers ids group' :=
  sortByKey_eq_of_perm (hperm.filterMap _) fun _ _ _ _ heq => heq

theorem SameGroups.isPartition {n : Nat} {groups groups' : List (List Nat)}
    (hsame : SameGroups groups groups') (hgroups : IsPartition n groups) :
    IsPartition n groups' := by
  constructor
  · have hjoin := congrArg Multiset.join (Multiset.coe_eq_coe.mpr hsame)
    rw [Multiset.coe_join, Multiset.coe_join, Multiset.coe_eq_coe] at hjoin
    exact hjoin.symm.trans hgroups.1
  · intro hmem
    have hempty := hsame.mem_iff.mpr (List.mem_map_of_mem hmem)
    obtain ⟨group, hgroup, hnil⟩ := List.mem_map.mp hempty
    rw [List.perm_nil.mp (Multiset.coe_eq_coe.mp hnil)] at hgroup
    exact hgroups.2 hgroup

theorem SameGroups.map_groupMembers_perm {groups groups' : List (List Nat)}
    (hsame : SameGroups groups groups') (ids : List NodeId) :
    (groups.map (groupMembers ids)).Perm (groups'.map (groupMembers ids)) := by
  obtain ⟨members, hmembers⟩ : ∃ members : Multiset Nat → List NodeId,
      members ∘ Multiset.ofList = groupMembers ids :=
    ⟨Quot.lift (groupMembers ids) fun _ _ => groupMembers_eq_of_perm, rfl⟩
  rw [← hmembers, ← List.map_map, ← List.map_map]
  exact hsame.map members

theorem smallestMember_mem {members : List NodeId} (hne : members ≠ []) :
    smallestMember members ∈ members := by
  cases members with
  | nil => exact absurd rfl hne
  | cons member members => exact List.mem_cons_self

theorem smallestMember_le {members : List NodeId} (hsorted : members.Pairwise (· ≤ ·))
    {member : NodeId} (hmember : member ∈ members) : smallestMember members ≤ member := by
  cases members with
  | nil => cases hmember
  | cons first members =>
      rcases List.mem_cons.mp hmember with rfl | hrest
      · exact le_rfl
      · exact List.rel_of_pairwise_cons hsorted hrest

/-- Disjoint lists are told apart by their smallest members. -/
theorem eq_of_smallestMember_eq {mss : List (List NodeId)} (hne : [] ∉ mss)
    (hnodup : mss.flatten.Nodup) {ms ms' : List NodeId} (hms : ms ∈ mss) (hms' : ms' ∈ mss)
    (heq : smallestMember ms = smallestMember ms') : ms = ms' := by
  by_contra hdistinct
  have : Std.Symm (@List.Disjoint NodeId) := ⟨fun _ _ h => h.symm⟩
  -- the smallest member would be in both
  have hdisjoint := (List.nodup_flatten.mp hnodup).2.forall hms hms' hdistinct
  have hmem := smallestMember_mem fun h => hne (h ▸ hms)
  have hmem' := smallestMember_mem fun h => hne (h ▸ hms')
  exact hdisjoint hmem (heq ▸ hmem')

/-- The order the groups are listed in, and that of the members of each, is lost. -/
theorem SameGroups.orderedMembers_eq {ids : List NodeId} {groups groups' : List (List Nat)}
    (hsame : SameGroups groups groups') (hids : ids.Nodup)
    (hgroups : IsPartition ids.length groups) :
    orderedMembers ids groups = orderedMembers ids groups' := by
  apply sortByKey_eq_of_perm (hsame.map_groupMembers_perm ids)
  intro ms hms ms' hms' heq
  refine eq_of_smallestMember_eq ?_ ?_ hms hms' heq
  · intro hnil
    obtain ⟨group, hgroup, hempty⟩ := List.mem_map.mp hnil
    exact groupMembers_ne_nil hgroups.1 hgroup (fun h => hgroups.2 (h ▸ hgroup)) hempty
  · exact (flatten_groupMembers_perm hgroups.1).nodup_iff.mpr hids

theorem sortedNodeIds_eq_of_perm {graph graph' : Graph} (hnodes : graph.nodes.Perm graph'.nodes) :
    sortedNodeIds graph = sortedNodeIds graph' :=
  sortByKey_eq_of_perm (hnodes.map _) fun _ _ _ _ heq => heq

/-! ## The canonical partition -/

theorem count_flatMap_members {cs : List Community} (hnodup : ∀ c ∈ cs, c.members.Nodup)
    (id : NodeId) :
    (cs.flatMap Community.members).count id = cs.countP fun c => decide (id ∈ c.members) := by
  induction cs with
  | nil => rfl
  | cons c cs ih =>
      obtain ⟨hc, hcs⟩ := List.forall_mem_cons.mp hnodup
      rw [List.flatMap_cons, List.count_append, ih hcs, List.countP_cons, hc.count, Nat.add_comm]
      simp only [decide_eq_true_eq]

/-- Communities that part the nodes, each in ascending order, numbered from 0 on by
their smallest members. -/
structure CanonicalPartition (ids : List NodeId) (cs : List Community) : Prop where
  members_ne_nil : ∀ c ∈ cs, c.members ≠ []
  members_ascending : ∀ c ∈ cs, c.members.Pairwise (· < ·)
  members_subset : ∀ c ∈ cs, ∀ id ∈ c.members, id ∈ ids
  once : ∀ id ∈ ids, (cs.countP fun c => decide (id ∈ c.members)) = 1
  ids_eq : cs.map (fun c => c.id.get.toNat) = List.range cs.length
  by_smallest : cs.Pairwise fun c c' => ∃ first ∈ c.members, ∀ id ∈ c'.members, first < id

theorem pairwise_orderedMembers {ids : List NodeId} {groups : List (List Nat)}
    (hids : ids.Nodup) (hgroups : IsPartition ids.length groups) :
    (orderedMembers ids groups).Pairwise fun ms ms' =>
      ∃ first ∈ ms, ∀ id ∈ ms', first < id := by
  -- ordered by smallest members, which are distinct as the groups are disjoint
  have hflatten : (orderedMembers ids groups).flatten.Nodup :=
    ((sortByKey_perm _).flatten.trans (flatten_groupMembers_perm hgroups.1)).nodup_iff.mpr hids
  have hsorted : ∀ ms ∈ orderedMembers ids groups, ms ≠ [] ∧ ms.Pairwise (· ≤ ·) := by
    intro ms hms
    obtain ⟨group, hgroup, rfl⟩ := List.mem_map.mp (mem_sortByKey.mp hms)
    refine ⟨?_, pairwise_sortByKey _⟩
    exact groupMembers_ne_nil hgroups.1 hgroup fun h => hgroups.2 (h ▸ hgroup)
  have hordered : (orderedMembers ids groups).Pairwise fun ms ms' =>
      smallestMember ms ≤ smallestMember ms' := pairwise_sortByKey _
  refine (hordered.and (List.nodup_flatten.mp hflatten).2).imp_of_mem ?_
  intro ms ms' hms hms' ⟨hle, hdisjoint⟩
  obtain ⟨hne, -⟩ := hsorted ms hms
  obtain ⟨hne', hsorted'⟩ := hsorted ms' hms'
  refine ⟨smallestMember ms, smallestMember_mem hne, fun id hid => ?_⟩
  have hdistinct : smallestMember ms ≠ smallestMember ms' := by
    intro heq
    exact hdisjoint (smallestMember_mem hne) (heq ▸ smallestMember_mem hne')
  exact (lt_of_le_of_ne hle hdistinct).trans_le (smallestMember_le hsorted' hid)

theorem canonicalPartition_of_numbered {ids : List NodeId} {cs : List Community}
    (hids : ids.Nodup) (hnumbered : Numbered ids cs)
    (hcover : (cs.flatMap Community.members).Perm ids)
    (hsmallest : (cs.map Community.members).Pairwise fun ms ms' =>
      ∃ first ∈ ms, ∀ id ∈ ms', first < id) : CanonicalPartition ids cs := by
  have hnodup : ∀ c ∈ cs, c.members.Nodup :=
    (List.nodup_flatMap.mp (hcover.nodup_iff.mpr hids)).1
  constructor
  · exact hnumbered.members_ne_nil
  · intro c hc
    refine ((hnumbered.sorted_members c hc).and (hnodup c hc)).imp ?_
    intro id id' ⟨hle, hne⟩
    exact lt_of_le_of_ne hle hne
  · intro c hc id hid
    exact hcover.mem_iff.mp (List.mem_flatMap_of_mem hc hid)
  · intro id hid
    rw [← count_flatMap_members hnodup, hcover.count_eq, hids.count, if_pos hid]
  · exact hnumbered.ids_eq
  · exact List.pairwise_map.mp hsmallest

/-- Detected communities are the groups of the algorithm, whose indices stand for the ids in
ascending order, and the canonical partition of the nodes, whatever order the algorithm
lists its groups and their members in and whatever order the nodes are in. The edges are
arbitrary; the algorithm is only assumed to part the indices. -/
theorem detectCommunities_canonical {leiden : Leiden} {graph : Graph} {groups : List (List Nat)}
    (hids : (graph.nodes.map Node.id).Nodup)
    (hrun : leiden (sortedNodeIds graph).length (clusterPairs graph) = some groups)
    (hgroups : IsPartition graph.nodes.length groups) :
    ((detectCommunities leiden graph).map Community.members).Perm
        (groups.map (groupMembers (sortedNodeIds graph))) ∧
      CanonicalPartition (graph.nodes.map Node.id) (detectCommunities leiden graph) ∧
      (∀ (leiden' : Leiden) (groups' : List (List Nat)), SameGroups groups groups' →
        leiden' (sortedNodeIds graph).length (clusterPairs graph) = some groups' →
          detectCommunities leiden' graph = detectCommunities leiden graph) ∧
      ∀ nodes, nodes.Perm graph.nodes →
        detectCommunities leiden { graph with nodes } = detectCommunities leiden graph := by
  have hlength : (sortedNodeIds graph).length = graph.nodes.length := by
    rw [(sortedNodeIds_perm graph).length_eq, List.length_map]
  rw [← hlength] at hgroups
  have hsorted : (sortedNodeIds graph).Nodup := (sortedNodeIds_perm graph).nodup_iff.mpr hids
  refine ⟨?_, ?_, fun leiden' groups' hsame hrun' => ?_, fun nodes hnodes => ?_⟩
  · rw [detectCommunities_eq hrun hgroups, map_members_numbered]
    exact sortByKey_perm _
  · rw [detectCommunities_eq hrun hgroups]
    apply canonicalPartition_of_numbered hids (numbered_orderedMembers hids hgroups)
    · rw [List.flatMap_def, map_members_numbered]
      exact flatten_orderedMembers_perm hgroups
    · rw [map_members_numbered]
      exact pairwise_orderedMembers hsorted hgroups
  · rw [detectCommunities_eq hrun' (hsame.isPartition hgroups), detectCommunities_eq hrun hgroups,
      hsame.orderedMembers_eq hsorted hgroups]
  · have heq : sortedNodeIds { graph with nodes } = sortedNodeIds graph :=
      sortedNodeIds_eq_of_perm hnodes
    have hpairs : clusterPairs { graph with nodes } = clusterPairs graph := by
      unfold clusterPairs
      rw [heq]
    have hrun' : leiden (sortedNodeIds { graph with nodes }).length
        (clusterPairs { graph with nodes }) = some groups := by
      rw [heq, hpairs]
      exact hrun
    rw [detectCommunities_eq hrun' (heq ▸ hgroups), detectCommunities_eq hrun hgroups, heq]

/-- A loop, an edge that leaves the graph and one between its two nodes. -/
def loopedPair : Graph := { Graph.new with
  nodes := [⟨⟨5⟩, "b", "b.rs", ⟨0, 1, 1, 1⟩⟩, ⟨⟨2⟩, "a", "a.rs", ⟨0, 1, 1, 1⟩⟩]
  edges := [⟨⟨5⟩, ⟨5⟩, "calls", .extracted⟩, ⟨⟨5⟩, ⟨9⟩, "calls", .extracted⟩,
    ⟨⟨5⟩, ⟨2⟩, "calls", .extracted⟩] }

theorem detectCommunities_canonical_loopedPair :
    CanonicalPartition [⟨5⟩, ⟨2⟩] (detectCommunities (fun _ _ => some [[1], [0]]) loopedPair) :=
  (@detectCommunities_canonical (fun _ _ => some [[1], [0]]) loopedPair [[1], [0]]
    (by decide) rfl (by decide)).2.1

end HabitatGraph
