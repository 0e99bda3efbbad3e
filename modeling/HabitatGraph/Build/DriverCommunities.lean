import HabitatGraph.Build.MergeCommunities
import HabitatGraph.Build.MergeDriver

/-! # Communities through a three-way merge

The exporter takes communities for a partition of the nodes. The merge driver
matches them by label: of each label that survives it keeps the members of one
side. A surviving node is covered once exactly when one such label, and no
second one, holds it.
-/

namespace HabitatGraph

open KeyedList StableSort

variable {contentId : String → UInt32}

/-- Every node is in exactly one community, and every member is a node. -/
structure Partitions (g : Graph) : Prop where
  countP_eq_one : ∀ n ∈ g.nodes, g.communities.countP (fun c => n.id ∈ c.members) = 1
  mem_ids : ∀ c ∈ g.communities, ∀ m ∈ c.members, m ∈ g.nodes.map Node.id

/-- The labels that the members of a community denote in `side`. -/
def heldLabels (side : Graph) (c : Community) : List String :=
  c.members.filterMap (nodeIdToLabelMap side.nodes)

/-- The community label `name` survives through `ours`, whose last community of
that label holds `label`. -/
def HeldByOurs (base ours theirs : Graph) (name label : String) : Prop :=
  ∃ c, PartialMap.ofEntries (ours.communities.map fun c => (c.label, c)) name = some c ∧
    label ∈ heldLabels ours c ∧
    (name ∉ communityLabelSet base.communities ∨ name ∈ communityLabelSet theirs.communities)

/-- The community label `name` survives through `theirs` alone, whose first
community of that label holds `label`. -/
def HeldByTheirs (base ours theirs : Graph) (name label : String) : Prop :=
  name ∉ communityLabelSet ours.communities ∧ name ∉ communityLabelSet base.communities ∧
    ∃ c, theirs.communities.find? (fun c => decide (c.label = name)) = some c ∧
      label ∈ heldLabels theirs c

/-- Every label that survives is held under exactly one community label. -/
def HeldOnce (base ours theirs : Graph) : Prop :=
  ∀ label, Survives (label ∈ base.labels) (label ∈ ours.labels) (label ∈ theirs.labels) →
    ∃! name, HeldByOurs base ours theirs name label ∨ HeldByTheirs base ours theirs name label

/-! ## Counting the communities of a member -/

theorem countP_numberCommunities (nextId : UInt32) (entries : List (String × List NodeId))
    (x : NodeId) :
    (numberCommunities nextId entries).countP (fun c => x ∈ c.members) =
      entries.countP (fun entry => x ∈ entry.2) := by
  induction entries generalizing nextId with
  | nil => rfl
  | cons entry entries ih =>
      rw [numberCommunities, List.countP_cons, List.countP_cons, ih]

theorem countP_sortCommunities (cs : List Community) (x : NodeId) :
    (sortCommunities cs).countP (fun c => x ∈ c.members) = cs.countP (fun c => x ∈ c.members) := by
  rw [sortCommunities, List.countP_map, (sortByKey_perm cs).countP_eq]
  apply List.countP_congr
  intro c _
  simp

/-- A merged id is among the moved members when its label was among them. -/
theorem mem_filterMap_moveMember {st : Interner} (hst : st.Valid) {side : Graph} {label : String}
    {x : NodeId} (hx : st.table label = some x) (c : Community) :
    x ∈ c.members.filterMap (moveMember (nodeIdToLabelMap side.nodes) st.table) ↔
      label ∈ heldLabels side c := by
  rw [heldLabels, List.mem_filterMap, List.mem_filterMap]
  apply exists_congr
  intro m
  apply and_congr_right
  intro _
  rw [moveMember, Option.bind_eq_some_iff]
  constructor
  · intro ⟨label', hlabel', hx'⟩
    obtain ⟨n, hn, rfl, rfl⟩ := hst.table_eq_some_iff.mp hx'
    obtain ⟨n', hn', rfl, hid⟩ := hst.table_eq_some_iff.mp hx
    rw [hlabel', eq_of_mem_of_key_eq hst.nodup_ids hn hn' hid.symm]
  · intro hlabel
    exact ⟨label, hlabel, hx⟩

/-! ## The communities that survive -/

/-- The communities that survive, the first of each label. -/
def survivingCommunities (base ours theirs : Graph) : List Community :=
  (firsts Community.label (ours.communities ++ theirs.communities)).filter fun c =>
    keeps (communityLabelSet base.communities) (communityLabelSet ours.communities)
      (communityLabelSet theirs.communities) c.label

/-- The label and members that a surviving community is given. -/
def survivingEntry (ours theirs : Graph) (labelToNewId : PartialMap String NodeId)
    (c : Community) : String × List NodeId :=
  match PartialMap.ofEntries (ours.communities.map fun c => (c.label, c)) c.label with
  | some comm =>
      (comm.label, comm.members.filterMap (moveMember (nodeIdToLabelMap ours.nodes) labelToNewId))
  | none =>
      (c.label, c.members.filterMap (moveMember (nodeIdToLabelMap theirs.nodes) labelToNewId))

/-- The communities of a merge are the surviving ones, numbered in turn. -/
theorem communities_assembleMerge (base ours theirs : Graph) (nodes : List Node)
    (labelToNewId : PartialMap String NodeId) :
    (assembleMerge base ours theirs nodes labelToNewId).communities =
      sortCommunities (numberCommunities 0 ((survivingCommunities base ours theirs).map
        (survivingEntry ours theirs labelToNewId))) := rfl

theorem mem_survivingCommunities {base ours theirs : Graph} {c : Community} :
    c ∈ survivingCommunities base ours theirs ↔
      (ours.communities ++ theirs.communities).find? (fun d => decide (d.label = c.label)) =
          some c ∧
        (c.label ∉ communityLabelSet base.communities ∨
          c.label ∈ communityLabelSet ours.communities ∧
            c.label ∈ communityLabelSet theirs.communities) := by
  rw [survivingCommunities, List.mem_filter, mem_firsts_iff, keeps_iff]

theorem nodup_map_label_survivingCommunities (base ours theirs : Graph) :
    ((survivingCommunities base ours theirs).map Community.label).Nodup :=
  (nodup_map_firsts _).sublist (List.filter_sublist.map _)

/-- Of a label that `ours` lacks, the first community is the first of `theirs`. -/
theorem find?_append_of_notMem {ours theirs : Graph} {label : String}
    (h : label ∉ communityLabelSet ours.communities) :
    (ours.communities ++ theirs.communities).find? (fun d => decide (d.label = label)) =
      theirs.communities.find? (fun d => decide (d.label = label)) := by
  rw [List.find?_append, List.find?_eq_none.mpr, Option.none_or]
  intro d hd hlabel
  exact h (List.mem_map.mpr ⟨d, hd, of_decide_eq_true hlabel⟩)

/-- A surviving community holds a node under its label. -/
theorem mem_survivingEntry_iff {st : Interner} (hst : st.Valid) {base ours theirs : Graph}
    {label : String} {x : NodeId} (hx : st.table label = some x) {c : Community}
    (hc : c ∈ survivingCommunities base ours theirs) :
    x ∈ (survivingEntry ours theirs st.table c).2 ↔
      HeldByOurs base ours theirs c.label label ∨ HeldByTheirs base ours theirs c.label label := by
  obtain ⟨hfind, hkeep⟩ := mem_survivingCommunities.mp hc
  unfold survivingEntry
  cases hlast : PartialMap.ofEntries (ours.communities.map fun c => (c.label, c)) c.label with
  | some d =>
      obtain ⟨hd, hlabel⟩ := PartialMap.mem_of_ofEntries_map_eq_some hlast
      have hours : c.label ∈ communityLabelSet ours.communities :=
        hlabel ▸ List.mem_map_of_mem hd
      refine (mem_filterMap_moveMember hst hx d).trans ⟨fun hlabel => ?_, ?_⟩
      · exact Or.inl ⟨d, hlast, hlabel, hkeep.imp_right And.right⟩
      · rintro (⟨d', hlast', hlabel, -⟩ | ⟨hnot, -⟩)
        · rw [hlast] at hlast'
          exact Option.some.inj hlast' ▸ hlabel
        · exact absurd hours hnot
  | none =>
      have hnot : c.label ∉ communityLabelSet ours.communities :=
        PartialMap.ofEntries_map_eq_none_iff.mp hlast
      rw [find?_append_of_notMem hnot] at hfind
      refine (mem_filterMap_moveMember hst hx c).trans ⟨fun hlabel => ?_, ?_⟩
      · exact Or.inr ⟨hnot, hkeep.resolve_right fun h => hnot h.1, c, hfind, hlabel⟩
      · rintro (⟨d, hlast', -⟩ | ⟨-, -, c', hfind', hlabel⟩)
        · rw [hlast] at hlast'
          cases hlast'
        · rw [hfind] at hfind'
          exact Option.some.inj hfind' ▸ hlabel

/-- A community label that holds something is the label of a surviving community. -/
theorem exists_surviving_of_held {base ours theirs : Graph} {name label : String}
    (h : HeldByOurs base ours theirs name label ∨ HeldByTheirs base ours theirs name label) :
    ∃ c ∈ survivingCommunities base ours theirs, c.label = name := by
  rcases h with ⟨d, hlast, -, hkeep⟩ | ⟨hours, hbase, c, hfind, -⟩
  · obtain ⟨hd, rfl⟩ := PartialMap.mem_of_ofEntries_map_eq_some hlast
    have hmem : d.label ∈ (ours.communities ++ theirs.communities).map Community.label :=
      List.mem_map_of_mem (List.mem_append_left _ hd)
    obtain ⟨c, hc, hlabel⟩ := List.mem_map.mp (mem_map_firsts.mpr hmem)
    refine ⟨c, List.mem_filter.mpr ⟨hc, keeps_iff.mpr ?_⟩, hlabel⟩
    rw [hlabel]
    exact hkeep.imp_right fun h => ⟨List.mem_map_of_mem hd, h⟩
  · have hlabel : c.label = name := by simpa using List.find?_some hfind
    subst hlabel
    exact ⟨c, mem_survivingCommunities.mpr
      ⟨(find?_append_of_notMem hours).trans hfind, Or.inl hbase⟩, rfl⟩

/-! ## The merged partition -/

theorem countP_communities_eq_one_iff {st : Interner} (hst : st.Valid) {base ours theirs : Graph}
    {label : String} {x : NodeId} (hx : st.table label = some x) :
    (assembleMerge base ours theirs st.nodes st.table).communities.countP
        (fun c => x ∈ c.members) = 1 ↔
      ∃! name, HeldByOurs base ours theirs name label ∨
        HeldByTheirs base ours theirs name label := by
  have hcount : (assembleMerge base ours theirs st.nodes st.table).communities.countP
      (fun c => x ∈ c.members) = (survivingCommunities base ours theirs).countP
        (fun c => x ∈ (survivingEntry ours theirs st.table c).2) := by
    rw [communities_assembleMerge, countP_sortCommunities, countP_numberCommunities]
    exact List.countP_map
  have hlabels := nodup_map_label_survivingCommunities base ours theirs
  rw [hcount, countP_eq_one_iff (List.Nodup.of_map _ hlabels)]
  constructor
  · intro ⟨c, ⟨hc, hheld⟩, hunique⟩
    refine ⟨c.label, (mem_survivingEntry_iff hst hx hc).mp (of_decide_eq_true hheld), ?_⟩
    intro name hname
    obtain ⟨d, hd, rfl⟩ := exists_surviving_of_held hname
    rw [hunique d ⟨hd, decide_eq_true ((mem_survivingEntry_iff hst hx hd).mpr hname)⟩]
  · intro ⟨name, hname, hunique⟩
    obtain ⟨c, hc, rfl⟩ := exists_surviving_of_held hname
    refine ⟨c, ⟨hc, decide_eq_true ((mem_survivingEntry_iff hst hx hc).mpr hname)⟩, ?_⟩
    intro d ⟨hd, hheld⟩
    have hdname := (mem_survivingEntry_iff hst hx hd).mp (of_decide_eq_true hheld)
    exact eq_of_mem_of_key_eq hlabels hd hc (hunique d.label hdname)

theorem exists_entry_of_numberCommunities {nextId : UInt32}
    {entries : List (String × List NodeId)} {c : Community}
    (h : c ∈ numberCommunities nextId entries) : ∃ entry ∈ entries, c.members = entry.2 := by
  induction entries generalizing nextId with
  | nil => cases h
  | cons entry entries ih =>
      rcases List.mem_cons.mp h with rfl | h
      · exact ⟨entry, List.mem_cons_self, rfl⟩
      · obtain ⟨entry', hentry', hmembers⟩ := ih h
        exact ⟨entry', List.mem_cons_of_mem entry hentry', hmembers⟩

/-- Members are moved to merged nodes only. -/
theorem mem_ids_of_moveMember {st : Interner} (hst : st.Valid)
    {idToLabel : PartialMap NodeId String} {members : List NodeId} {m : NodeId}
    (hm : m ∈ members.filterMap (moveMember idToLabel st.table)) : m ∈ st.nodes.map Node.id := by
  obtain ⟨old, -, hmove⟩ := List.mem_filterMap.mp hm
  obtain ⟨label, -, htable⟩ := Option.bind_eq_some_iff.mp hmove
  exact mem_ids_of_table hst htable

/-- Every member of a merged community is a merged node. -/
theorem mem_ids_of_mem_members {st : Interner} (hst : st.Valid) {base ours theirs : Graph}
    {c : Community} (hc : c ∈ (assembleMerge base ours theirs st.nodes st.table).communities)
    {m : NodeId} (hm : m ∈ c.members) : m ∈ st.nodes.map Node.id := by
  rw [communities_assembleMerge] at hc
  obtain ⟨d, hd, rfl⟩ := List.mem_map.mp hc
  rw [Community.mem_sorted_members] at hm
  rw [mem_sortByKey] at hd
  obtain ⟨entry, hentry, hmembers⟩ := exists_entry_of_numberCommunities hd
  obtain ⟨d', -, rfl⟩ := List.mem_map.mp hentry
  rw [hmembers, survivingEntry] at hm
  split at hm
  next => exact mem_ids_of_moveMember hst hm
  next => exact mem_ids_of_moveMember hst hm

theorem survives_iff_mem_preNodes {base ours theirs : Graph} {label : String} :
    Survives (label ∈ base.labels) (label ∈ ours.labels) (label ∈ theirs.labels) ↔
      label ∈ (preNodes base ours theirs).map Node.label := by
  rw [mem_map_label_preNodes, keeps_iff, Survives]
  tauto

/-- A merged graph is partitioned by its communities exactly when every surviving
label is held under one community label. -/
theorem partitions_iff_heldOnce {contentId : String → UInt32} {base ours theirs g : Graph}
    (h : merge3 contentId base ours theirs = some g) :
    Partitions g ↔ HeldOnce base ours theirs := by
  obtain ⟨st, hintern, hst, rfl⟩ := exists_interner_of_merge3 h
  have hperm : (assembleMerge base ours theirs st.nodes st.table).nodes.Perm st.nodes :=
    Graph.dedup_sorted_nodes_perm hst.nodup_ids
  have hsurvives : ∀ label, (st.table label).isSome ↔
      Survives (label ∈ base.labels) (label ∈ ours.labels) (label ∈ theirs.labels) := by
    intro label
    rw [survives_iff_mem_preNodes, hst.table_isSome_iff,
      Interner.mem_labels_of_internAll hintern, List.map_map]
    rfl
  constructor
  · intro hpart label hlabel
    obtain ⟨x, hx⟩ := Option.isSome_iff_exists.mp ((hsurvives label).mpr hlabel)
    obtain ⟨n, hn, -, rfl⟩ := hst.table_eq_some_iff.mp hx
    apply (countP_communities_eq_one_iff hst hx).mp
    exact hpart.countP_eq_one n (hperm.mem_iff.mpr hn)
  · intro hheld
    constructor
    · intro n hn
      have hx : st.table n.label = some n.id :=
        hst.table_eq_some_iff.mpr ⟨n, hperm.mem_iff.mp hn, rfl, rfl⟩
      apply (countP_communities_eq_one_iff hst hx).mpr
      exact hheld n.label ((hsurvives n.label).mp (by rw [hx]; rfl))
    · intro c hc m hm
      exact (hperm.map Node.id).mem_iff.mpr (mem_ids_of_mem_members hst hc hm)

/-- For every three graphs, the communities of their merge partition it exactly when every
surviving label is held under one community label; the merge has no result only when it
needs more ids than there are. -/
theorem merge3_partitions (contentId : String → UInt32) (base ours theirs : Graph) :
    (2 ^ 32 < (preNodes base ours theirs).length ∧ merge3 contentId base ours theirs = none) ∨
      ∃ g, merge3 contentId base ours theirs = some g ∧
        (Partitions g ↔ HeldOnce base ours theirs) := by
  rcases eq_none_or_exists_of_isSome_iff (merge3_isSome_iff contentId base ours theirs) with
    hnone | ⟨g, hg⟩
  · exact Or.inl hnone
  · exact Or.inr ⟨g, hg, partitions_iff_heldOnce hg⟩

/-- Nothing changed on one side; the other side added a symbol to the community. -/
def clusterBase : Graph := { Graph.new with
  nodes := [⟨⟨1⟩, "a", "a.rs", ⟨0, 10, 1, 2⟩⟩]
  communities := [⟨⟨0⟩, "community-0", [⟨1⟩]⟩] }

def clusterTheirs : Graph := { Graph.new with
  nodes := [⟨⟨1⟩, "a", "a.rs", ⟨0, 10, 1, 2⟩⟩, ⟨⟨2⟩, "bb", "a.rs", ⟨12, 20, 3, 4⟩⟩]
  communities := [⟨⟨0⟩, "community-0", [⟨1⟩, ⟨2⟩]⟩] }

/-- Nothing changed on one side; the other side moved a symbol to a community of its own. -/
def movedBase : Graph := { clusterTheirs with
  communities := [⟨⟨0⟩, "community-0", [⟨1⟩, ⟨2⟩]⟩] }

def movedTheirs : Graph := { clusterTheirs with
  communities := [⟨⟨0⟩, "community-0", [⟨1⟩]⟩, ⟨⟨1⟩, "community-1", [⟨2⟩]⟩] }

/-- An added symbol survives the merge and belongs to no community; a moved one belongs to
two. -/
theorem merge3_drops_member : clusterBase.Distinct ∧ clusterTheirs.Distinct ∧
    Partitions clusterBase ∧ Partitions clusterTheirs ∧
    (∃ g, merge3 lengthId clusterBase clusterBase clusterTheirs = some g ∧ "bb" ∈ g.labels ∧
      ¬ Partitions g) ∧
    Partitions movedBase ∧ Partitions movedTheirs ∧
    ∃ g, merge3 lengthId movedBase movedBase movedTheirs = some g ∧
      g.communities.map Community.members = [[⟨1⟩, ⟨2⟩], [⟨2⟩]] ∧ ¬ Partitions g := by
  refine ⟨⟨by decide, by decide⟩, ⟨by decide, by decide⟩, ⟨by decide, by decide⟩,
    ⟨by decide, by decide⟩, ⟨_, rfl, by decide, fun hpart => ?_⟩, ⟨by decide, by decide⟩,
    ⟨by decide, by decide⟩, _, rfl, by decide, fun hpart => ?_⟩
  · exact absurd hpart.countP_eq_one (by decide)
  · exact absurd hpart.countP_eq_one (by decide)

end HabitatGraph
