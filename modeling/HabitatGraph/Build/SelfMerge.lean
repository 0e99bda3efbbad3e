import HabitatGraph.Build.DriverCommunities

/-! # Merging a graph with itself

When nothing changed on either side, the merge driver gives new ids to the
labels in the order of their nodes and moves everything else along. A graph in
canonical order comes back when its ids are those that this reassignment gives.
-/

namespace HabitatGraph

open KeyedList StableSort

/-! ## Reassigning ids in ascending order -/

theorem toNat_iterate_wrappingSucc (n : Nat) (id : UInt32) :
    (wrappingSucc^[n] id).toNat = (id.toNat + n) % 2 ^ 32 := by
  rw [iterate_wrappingSucc, UInt32.toNat_add, UInt32.toNat_ofNat', Nat.add_mod_mod]

/-- Above all ids in use, probing stops at `found` exactly when it starts at or
below `found` and every id from there on is in use. -/
theorem probe_wrappingSucc_iff {used : List UInt32} {start found : UInt32}
    (hused : ∀ v ∈ used, v < found) :
    LinearProbe.probe wrappingSucc used (2 ^ 32) start = some found ↔
      start ≤ found ∧ ∀ v, start ≤ v → v < found → v ∈ used := by
  have hlt := found.toNat_lt
  rw [LinearProbe.probe_eq_some_iff]
  constructor
  · rintro ⟨n, hn, hfound, -, hway⟩
    have hnat : (start.toNat + n) % 2 ^ 32 = found.toNat := by
      rw [← toNat_iterate_wrappingSucc, hfound]
    have hstart : start ≤ found := by
      cases n with
      | zero => exact hfound ▸ UInt32.le_refl start
      | succ n => exact UInt32.le_of_lt (hused _ (hway 0 (by omega)))
    rw [UInt32.le_iff_toNat_le] at hstart
    -- a way that wraps around would end below its start
    have hsum : start.toNat + n = found.toNat := by
      rcases Nat.lt_or_ge (start.toNat + n) (2 ^ 32) with hroom | hwrap
      · rwa [Nat.mod_eq_of_lt hroom] at hnat
      · have := start.toNat_lt
        omega
    refine ⟨UInt32.le_iff_toNat_le.mpr hstart, fun v hv hvlt => ?_⟩
    rw [UInt32.le_iff_toNat_le] at hv
    rw [UInt32.lt_iff_toNat_lt] at hvlt
    have hmem := hway (v.toNat - start.toNat) (by omega)
    have heq : wrappingSucc^[v.toNat - start.toNat] start = v := by
      apply UInt32.toNat_inj.mp
      rw [toNat_iterate_wrappingSucc, Nat.add_sub_cancel' hv, Nat.mod_eq_of_lt v.toNat_lt]
    rwa [heq] at hmem
  · intro ⟨hstart, hbetween⟩
    rw [UInt32.le_iff_toNat_le] at hstart
    refine ⟨found.toNat - start.toNat, by omega, ?_, fun hmem => ?_, fun j hj => ?_⟩
    · apply UInt32.toNat_inj.mp
      rw [toNat_iterate_wrappingSucc, Nat.add_sub_cancel' hstart, Nat.mod_eq_of_lt hlt]
    · exact absurd (hused found hmem) (UInt32.lt_irrefl found)
    · have hnat := toNat_iterate_wrappingSucc j start
      rw [Nat.mod_eq_of_lt (by omega)] at hnat
      apply hbetween
      · rw [UInt32.le_iff_toNat_le]
        omega
      · rw [UInt32.lt_iff_toNat_lt]
        omega

/-- Keys placed in ascending order of their slots get those slots exactly when
each slot is reached from the key's home through slots in use. -/
theorem assign_ascending_iff {ι : Type*} {home slot : ι → UInt32} {used : List UInt32}
    {xs : List ι} (hascending : xs.Pairwise fun x y => slot x < slot y)
    (hused : ∀ v ∈ used, ∀ x ∈ xs, v < slot x) :
    LinearProbe.assign wrappingSucc (2 ^ 32) home used xs = some (xs.map slot) ↔
      ∀ x ∈ xs, home x ≤ slot x ∧
        ∀ v, home x ≤ v → v < slot x → v ∈ used ∨ v ∈ xs.map slot := by
  induction xs generalizing used with
  | nil => simp [LinearProbe.assign]
  | cons x xs ih =>
      obtain ⟨hx, hxs⟩ := List.pairwise_cons.mp hascending
      have hhead : ∀ v ∈ used, v < slot x := fun v hv => hused v hv x List.mem_cons_self
      have htail : ∀ v ∈ slot x :: used, ∀ y ∈ xs, v < slot y := by
        intro v hv y hy
        rcases List.mem_cons.mp hv with rfl | hv
        · exact hx y hy
        · exact hused v hv y (List.mem_cons_of_mem x hy)
      rw [List.map_cons, LinearProbe.assign_cons_eq_some_iff, probe_wrappingSucc_iff hhead,
        ih hxs htail, List.forall_mem_cons]
      apply and_congr
      · apply and_congr_right
        intro _
        have hfree : ∀ v, v < slot x → v ∉ slot x :: xs.map slot := by
          intro v hv hmem
          rcases List.mem_cons.mp hmem with rfl | hmem
          · exact absurd hv (UInt32.lt_irrefl _)
          · obtain ⟨y, hy, rfl⟩ := List.mem_map.mp hmem
            exact absurd (UInt32.lt_trans hv (hx y hy)) (UInt32.lt_irrefl _)
        exact forall_congr' fun v => forall_congr' fun _ => forall_congr' fun hv =>
          (or_iff_left (hfree v hv)).symm
      · simp only [List.mem_cons, or_assoc, or_left_comm]

/-! ## The nodes -/

variable {contentId : String → UInt32} {g : Graph}

theorem keeps_self {κ : Type*} [DecidableEq κ] (xs : List κ) (k : κ) : keeps xs xs xs k := by
  by_cases h : k ∈ xs <;> simp [keeps, h]

theorem map_label_preNodes_self (g : Graph) :
    (preNodes g g g).map Node.label = (firsts Node.label g.nodes).map Node.label := by
  rw [map_label_preNodes, firsts_append_self]
  exact List.filter_eq_self.mpr fun label _ => keeps_self g.labels label

theorem preNodes_self (hg : g.Distinct) : preNodes g g g = g.nodes := by
  rw [preNodes_eq hg, firsts_append_self, firsts_eq_self hg.nodup_labels]
  exact List.filter_eq_self.mpr fun node _ => keeps_self g.labels node.label

/-- A merge that loses no node had no two nodes of one label. -/
theorem nodup_labels_of_merge3_self {merged : Graph}
    (h : merge3 contentId g g g = some merged) (hlength : g.nodes.length ≤ merged.nodes.length) :
    (g.nodes.map Node.label).Nodup := by
  obtain ⟨st, hintern, hst, rfl⟩ := exists_interner_of_merge3 h
  obtain ⟨slots, -, hraw, -⟩ := Interner.exists_slots_of_internAll hintern
  have hnodup : (((preNodes g g g).map Node.toRaw).map RawNode.label).Nodup := by
    rw [List.map_map]
    exact nodup_preNodes g g g
  rw [firsts_eq_self hnodup] at hraw
  apply nodup_of_length_le
  have hpre := congrArg List.length (map_label_preNodes_self g)
  have hnodes := congrArg List.length hraw
  have hmerged : (assembleMerge g g g st.nodes st.table).nodes.length = st.nodes.length :=
    (Graph.dedup_sorted_nodes_perm hst.nodup_ids).length_eq
  simp only [List.length_map] at hpre hnodes
  omega

/-- Every id is its label's content id, or follows on it through ids in use. -/
def Graph.IdsFollow (contentId : String → UInt32) (g : Graph) : Prop :=
  ∀ n ∈ g.nodes, contentId n.label ≤ n.id.get ∧
    ∀ v, contentId n.label ≤ v → v < n.id.get → ⟨v⟩ ∈ g.nodes.map Node.id

theorem assign_labels_iff (hascending : g.nodes.Pairwise fun n m => n.id < m.id) :
    LinearProbe.assign wrappingSucc (2 ^ 32) contentId [] (g.nodes.map Node.label) =
        some (g.nodes.map fun n => n.id.get) ↔ g.IdsFollow contentId := by
  have hslots : g.nodes.Pairwise fun n m => n.id.get < m.id.get :=
    hascending.imp fun h => UInt32.lt_iff_toNat_lt.mpr h
  rw [LinearProbe.assign_map, assign_ascending_iff hslots (by simp)]
  have hmem : ∀ v, v ∈ (g.nodes.map fun n => n.id.get) ↔ ⟨v⟩ ∈ g.nodes.map Node.id := by
    intro v
    rw [List.mem_map, List.mem_map]
    exact exists_congr fun n => and_congr_right fun _ =>
      ⟨congrArg NodeId.mk, congrArg NodeId.get⟩
  simp only [Graph.IdsFollow, hmem, List.not_mem_nil, false_or]

theorem nodes_eq_of_maps {xs ys : List Node} (hraw : xs.map Node.toRaw = ys.map Node.toRaw)
    (hid : xs.map Node.id = ys.map Node.id) : xs = ys := by
  induction xs generalizing ys with
  | nil => simpa using hid
  | cons x xs ih =>
      cases ys with
      | nil => simp at hid
      | cons y ys =>
          rw [List.map_cons, List.map_cons, List.cons.injEq] at hraw hid
          have hhead : x = y := by
            cases x
            cases y
            simp_all [Node.toRaw]
          rw [hhead, ih hraw.2 hid.2]

/-! ## The edges -/

/-- An edge between nodes moves to itself. -/
theorem moveEdge_self {st : Interner} (hst : st.Valid) (hnodes : st.nodes = g.nodes)
    (hg : g.Distinct) {e : Edge} (hs : e.source ∈ g.nodes.map Node.id)
    (ht : e.target ∈ g.nodes.map Node.id) {keep : EdgeKey → Bool} (hkeep : ∀ k, keep k) :
    ∃ k, g.labelKey e = some k ∧
      moveEdge keep st.table (nodeIdToLabelMap g.nodes) e = some (k, e) := by
  have hends : ∀ {id}, id ∈ g.nodes.map Node.id →
      ∃ label, g.labelOf id = some label ∧ st.table label = some id := by
    intro id hid
    obtain ⟨n, hn, rfl⟩ := List.mem_map.mp hid
    refine ⟨n.label, Graph.labelOf_id hg.nodup_ids hn, hst.table_eq_some_iff.mpr ?_⟩
    exact ⟨n, hnodes ▸ hn, rfl, rfl⟩
  obtain ⟨s, hslabel, hstable⟩ := hends hs
  obtain ⟨t, htlabel, httable⟩ := hends ht
  have hkey : g.labelKey e = some (s, t, e.relation) :=
    Graph.labelKey_eq_some_iff.mpr ⟨hslabel, htlabel, rfl⟩
  refine ⟨(s, t, e.relation), hkey, moveEdge_eq_some_iff.mpr ?_⟩
  rw [nodeIdToLabelMap_eq hg.nodup_ids, edgeLabelKey_labelOf]
  exact ⟨hkey, hkeep _, hstable, httable, rfl, rfl⟩

/-- Merging keeps the first edge of each key. -/
theorem mergeGraphEdges_self {st : Interner} (hst : st.Valid) (hnodes : st.nodes = g.nodes)
    (hg : g.Distinct) (hclosed : ∀ e ∈ g.edges,
      e.source ∈ g.nodes.map Node.id ∧ e.target ∈ g.nodes.map Node.id) :
    mergeGraphEdges g g (nodeIdToLabelMap g.nodes) (nodeIdToLabelMap g.nodes)
      (edgeKeySet g.edges (nodeIdToLabelMap g.nodes)) st.table = firsts Edge.key g.edges := by
  let keys := edgeKeySet g.edges (nodeIdToLabelMap g.nodes)
  let place (e : Edge) : EdgeKey × Edge := ((g.labelKey e).getD ("", "", ""), e)
  have hmove : ∀ e ∈ g.edges,
      moveEdge (keeps keys keys keys) st.table (nodeIdToLabelMap g.nodes) e = some (place e) := by
    intro e he
    obtain ⟨hs, ht⟩ := hclosed e he
    obtain ⟨k, hkey, hmoved⟩ := moveEdge_self hst hnodes hg hs ht (keeps_self keys)
    simp only [hmoved, place, hkey, Option.getD_some]
  have hmoved : g.edges.filterMap
      (moveEdge (keeps keys keys keys) st.table (nodeIdToLabelMap g.nodes)) =
        g.edges.map place := by
    rw [← List.filterMap_eq_map]
    exact List.filterMap_congr hmove
  have hfirsts : firsts Prod.fst (g.edges.map place) = (firsts Edge.key g.edges).map place := by
    apply firsts_map_congr
    intro e he f hf
    obtain ⟨k, hkey, -⟩ := moveEdge_self hst hnodes hg (hclosed e he).1 (hclosed e he).2
      (keeps_self keys)
    obtain ⟨k', hkey', -⟩ := moveEdge_self hst hnodes hg (hclosed f hf).1 (hclosed f hf).2
      (keeps_self keys)
    simp only [place, hkey, hkey', Option.getD_some]
    constructor
    · intro heq
      exact Graph.key_eq_of_labelKey_eq hg.nodup_labels (heq ▸ hkey') hkey
    · intro heq
      rw [Graph.labelKey_eq_of_key_eq heq, hkey] at hkey'
      exact (Option.some.inj hkey').symm
  unfold mergeGraphEdges
  dsimp only
  rw [hmoved, firsts_append_self, hfirsts, List.map_map]
  exact List.map_id _

/-! ## The communities -/

/-- Communities that carry the numbers they are given keep them. -/
theorem numberCommunities_eq_self {cs : List Community} {k : Nat}
    (hids : cs.map (fun c => c.id.get.toNat) = List.range' k cs.length) :
    numberCommunities (UInt32.ofNat k) (cs.map fun c => (c.label, c.members)) = cs := by
  induction cs generalizing k with
  | nil => rfl
  | cons c cs ih =>
      rw [List.map_cons, List.length_cons, List.range'_succ, List.cons.injEq] at hids
      obtain ⟨hhead, htail⟩ := hids
      have hid : UInt32.ofNat k = c.id.get := by rw [← hhead, UInt32.ofNat_toNat]
      rw [List.map_cons, numberCommunities, hid]
      apply congrArg (c :: ·)
      cases cs with
      | nil => rfl
      | cons d ds =>
          -- another community follows, so the number is not the last one
          have hnext : d.id.get.toNat = k + 1 := by
            rw [List.map_cons, List.length_cons, List.range'_succ, List.cons.injEq] at htail
            exact htail.1
          have hlt := d.id.get.toNat_lt
          have hsucc : saturatingSucc c.id.get = UInt32.ofNat (k + 1) := by
            have hne : c.id.get ≠ UInt32.ofNat (2 ^ 32 - 1) := by
              intro heq
              have hnat := congrArg UInt32.toNat heq
              rw [hhead, UInt32.toNat_ofNat'] at hnat
              omega
            rw [saturatingSucc, if_neg hne, ← hid, UInt32.ofNat_add]
            rfl
          rw [hsucc]
          exact ih htail

theorem moveMember_self {st : Interner} (hst : st.Valid) (hnodes : st.nodes = g.nodes)
    (hg : g.Distinct) {m : NodeId} (hm : m ∈ g.nodes.map Node.id) :
    moveMember (nodeIdToLabelMap g.nodes) st.table m = some m := by
  obtain ⟨n, hn, rfl⟩ := List.mem_map.mp hm
  rw [moveMember, nodeIdToLabelMap_eq hg.nodup_ids, Graph.labelOf_id hg.nodup_ids hn]
  exact hst.table_eq_some_iff.mpr ⟨n, hnodes ▸ hn, rfl, rfl⟩

theorem survivingCommunities_self (hlabels : (g.communities.map Community.label).Nodup) :
    survivingCommunities g g g = g.communities := by
  rw [survivingCommunities, firsts_append_self, firsts_eq_self hlabels]
  exact List.filter_eq_self.mpr fun c _ => keeps_self (communityLabelSet g.communities) c.label

theorem survivingEntry_self {st : Interner} (hst : st.Valid) (hnodes : st.nodes = g.nodes)
    (hg : g.Distinct) (hlabels : (g.communities.map Community.label).Nodup)
    {c : Community} (hc : c ∈ g.communities)
    (hmembers : ∀ m ∈ c.members, m ∈ g.nodes.map Node.id) :
    survivingEntry g g st.table c = (c.label, c.members) := by
  have hfst : ((g.communities.map fun c => (c.label, c)).map Prod.fst).Nodup := by
    rw [List.map_map]
    exact hlabels
  have hfound : PartialMap.ofEntries (g.communities.map fun c => (c.label, c)) c.label = some c :=
    (PartialMap.ofEntries_eq_some_iff hfst).mpr (List.mem_map.mpr ⟨c, hc, rfl⟩)
  have hmoved : c.members.filterMap (moveMember (nodeIdToLabelMap g.nodes) st.table) =
      c.members := by
    refine (List.filterMap_congr fun m hm => ?_).trans List.filterMap_some
    exact moveMember_self hst hnodes hg (hmembers m hm)
  simp only [survivingEntry, hfound, hmoved]

/-! ## The merged graph -/

/-- A graph in canonical order, its communities numbered from 0 on. -/
structure Graph.Canonical (g : Graph) : Prop where
  distinct : g.Distinct
  closed : ∀ e ∈ g.edges, e.source ∈ g.nodes.map Node.id ∧ e.target ∈ g.nodes.map Node.id
  nodes_sorted : g.nodes.Pairwise fun n m => n.id ≤ m.id
  edges_sorted : g.edges.Pairwise fun e f => e.key ≤ f.key
  communities_sorted : sortCommunities g.communities = g.communities
  community_numbers :
    g.communities.map (fun c => c.id.get.toNat) = List.range g.communities.length
  community_labels : (g.communities.map Community.label).Nodup
  members_ids : ∀ c ∈ g.communities, ∀ m ∈ c.members, m ∈ g.nodes.map Node.id

namespace Graph.Canonical

theorem pairwise_ids (hg : g.Canonical) : g.nodes.Pairwise fun n m => n.id < m.id :=
  pairwise_lt_of_nodup hg.nodes_sorted hg.distinct.nodup_ids

/-- The interner of a merge with itself holds the nodes when their ids follow. -/
theorem exists_interner (hg : g.Canonical) {merged : Graph}
    (h : merge3 contentId g g g = some merged) :
    ∃ st : Interner, st.Valid ∧ merged = assembleMerge g g g st.nodes st.table ∧
      st.nodes.map Node.toRaw = g.nodes.map Node.toRaw ∧
      LinearProbe.assign wrappingSucc (2 ^ 32) contentId [] (g.nodes.map Node.label) =
        some (st.nodes.map fun n => n.id.get) := by
  obtain ⟨st, hintern, hst, rfl⟩ := exists_interner_of_merge3 h
  obtain ⟨slots, hslots, hraw, hids⟩ := Interner.exists_slots_of_internAll hintern
  have hnodup : ((g.nodes.map Node.toRaw).map RawNode.label).Nodup := by
    rw [List.map_map]
    exact hg.distinct.nodup_labels
  rw [preNodes_self hg.distinct, firsts_eq_self hnodup] at hslots hraw
  refine ⟨st, hst, rfl, hraw, ?_⟩
  have hget := congrArg (List.map NodeId.get) hids
  rw [List.map_map, List.map_map] at hget
  rw [List.map_map] at hslots
  refine hslots.trans (congrArg some ?_)
  exact (List.map_id slots).symm.trans hget.symm

theorem communities_eq (hg : g.Canonical) {st : Interner} (hst : st.Valid)
    (hnodes : st.nodes = g.nodes) :
    (assembleMerge g g g st.nodes st.table).communities = g.communities := by
  have hentries : g.communities.map (survivingEntry g g st.table) =
      g.communities.map fun c => (c.label, c.members) := by
    apply List.map_congr_left
    intro c hc
    exact survivingEntry_self hst hnodes hg.distinct hg.community_labels hc (hg.members_ids c hc)
  have hnumbers := hg.community_numbers
  rw [List.range_eq_range'] at hnumbers
  rw [communities_assembleMerge, survivingCommunities_self hg.community_labels, hentries]
  change sortCommunities (numberCommunities (UInt32.ofNat 0) _) = _
  rw [numberCommunities_eq_self hnumbers, hg.communities_sorted]

theorem edges_eq (hg : g.Canonical) {st : Interner} (hst : st.Valid)
    (hnodes : st.nodes = g.nodes) :
    (assembleMerge g g g st.nodes st.table).edges = firsts Edge.key g.edges := by
  have hmerged := mergeGraphEdges_self hst hnodes hg.distinct hg.closed
  have hsorted : (firsts Edge.key g.edges).Pairwise fun e f => e.key ≤ f.key :=
    hg.edges_sorted.sublist (firsts_sublist g.edges)
  change sortByKey Edge.key (firsts Edge.key (mergeGraphEdges _ _ _ _ _ _)) = _
  rw [hmerged, firsts_eq_self (nodup_map_firsts g.edges), sortByKey_eq_self hsorted]

/-- Merged with itself, a canonical graph loses the repeated edges only when its
ids follow from its labels. -/
theorem merge3_self (hg : g.Canonical) (hids : g.IdsFollow contentId) :
    merge3 contentId g g g = some { g with
      edges := firsts Edge.key g.edges
      manifest := mergeManifest g.manifest g.manifest } := by
  have hroom : (preNodes g g g).length ≤ 2 ^ 32 := by
    rw [preNodes_self hg.distinct, ← List.length_map (f := Node.id)]
    exact length_ids_le hg.distinct.nodup_ids
  obtain ⟨merged, hmerged⟩ := Option.isSome_iff_exists.mp
    ((merge3_isSome_iff contentId g g g).mpr hroom)
  obtain ⟨st, hst, hassemble, hraw, hassign⟩ := hg.exists_interner hmerged
  rw [(assign_labels_iff hg.pairwise_ids).mpr hids, Option.some.injEq] at hassign
  have hnodes : st.nodes = g.nodes := by
    apply nodes_eq_of_maps hraw
    have hmk := congrArg (List.map NodeId.mk) hassign
    rw [List.map_map, List.map_map] at hmk
    exact hmk.symm
  have hsorted : (assembleMerge g g g st.nodes st.table).nodes = g.nodes := by
    change sortByKey Node.id (firsts Node.id st.nodes) = g.nodes
    rw [hnodes, firsts_eq_self hg.distinct.nodup_ids, sortByKey_eq_self hg.nodes_sorted]
  rw [hmerged, hassemble, Option.some.injEq]
  exact Graph.ext rfl hsorted (hg.edges_eq hst hnodes) (hg.communities_eq hst hnodes) rfl

theorem labels_perm_of_merge3_self (hg : g.Canonical) {merged : Graph}
    (h : merge3 contentId g g g = some merged) :
    (merged.nodes.map Node.label).Perm (g.nodes.map Node.label) := by
  obtain ⟨st, hst, rfl, hraw, -⟩ := hg.exists_interner h
  have hlabels : st.nodes.map Node.label = g.nodes.map Node.label := by
    simpa [Node.toRaw, Function.comp_def] using congrArg (List.map RawNode.label) hraw
  rw [← hlabels]
  exact (Graph.dedup_sorted_nodes_perm hst.nodup_ids).map Node.label

/-- Conversely, ids that the merge gives back to their labels follow. -/
theorem idsFollow_of_merge3_self (hg : g.Canonical) {merged : Graph}
    (h : merge3 contentId g g g = some merged)
    (hsame : merged.nodes.map (fun n => (n.id, n.label)) = g.nodes.map fun n => (n.id, n.label)) :
    g.IdsFollow contentId := by
  obtain ⟨st, hst, rfl, hraw, hassign⟩ := hg.exists_interner h
  rw [← assign_labels_iff hg.pairwise_ids, hassign, Option.some.injEq]
  -- both lists are looked up by the same labels
  have hlabels : st.nodes.map Node.label = g.nodes.map Node.label := by
    simpa [Node.toRaw, Function.comp_def] using congrArg (List.map RawNode.label) hraw
  have hfound : ∀ n ∈ st.nodes, g.idOf n.label = some n.id := by
    intro n hn
    have hmem : n ∈ (assembleMerge g g g st.nodes st.table).nodes :=
      (Graph.dedup_sorted_nodes_perm hst.nodup_ids).mem_iff.mpr hn
    have hpair : (n.id, n.label) ∈ g.nodes.map fun n => (n.id, n.label) :=
      hsame ▸ List.mem_map.mpr ⟨n, hmem, rfl⟩
    obtain ⟨m, hm, heq⟩ := List.mem_map.mp hpair
    rw [Prod.mk.injEq] at heq
    exact (Graph.idOf_eq_some_iff hg.distinct.nodup_labels).mpr ⟨m, hm, heq.2, heq.1⟩
  have hown : ∀ n ∈ g.nodes, g.idOf n.label = some n.id := fun n hn =>
    (Graph.idOf_eq_some_iff hg.distinct.nodup_labels).mpr ⟨n, hn, rfl, rfl⟩
  have hids := congrArg (List.map fun label => (g.idOf label).map NodeId.get) hlabels
  rw [List.map_map, List.map_map] at hids
  apply (Option.some_injective UInt32).list_map
  rw [List.map_map, List.map_map]
  refine (List.map_congr_left fun n hn => ?_).trans
    (hids.trans (List.map_congr_left fun n hn => ?_))
  · simp [hfound n hn]
  · simp [hown n hn]

end Graph.Canonical

end HabitatGraph
