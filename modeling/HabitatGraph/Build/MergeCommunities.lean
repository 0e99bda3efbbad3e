import HabitatGraph.Build.MergeAlgebra

/-! # Communities through a merge

Merging concatenates communities and sorts them by id. Ids and labels of
communities survive as they are, so two inputs that number their communities
alike collide. A member keeps its meaning where its label keeps its id, which
content addressing grants and a hand-edited graph does not.
-/

namespace HabitatGraph

open KeyedList StableSort

variable {contentId : String → UInt32}

/-- The labels of the nodes that the members of a community are. -/
def Community.memberLabels (c : Community) (g : Graph) : List String :=
  c.members.filterMap g.labelOf

/-- Every community of `side` is one of `g`, and each member whose label has the
same id in `g` means there what it meant in `side`. -/
def CarriesCommunities (side g : Graph) : Prop :=
  ∀ c ∈ side.communities, ∃ c' ∈ g.communities, c'.id = c.id ∧ c'.label = c.label ∧
    ∀ m ∈ c.members, ∀ label, side.labelOf m = some label → g.idOf label = some m →
      m ∈ c'.members ∧ g.labelOf m = some label

/-- Every node of `side` has in `g` the id that it has in `side`. -/
def KeepsIds (side g : Graph) : Prop :=
  ∀ m label, side.labelOf m = some label → g.idOf label = some m

theorem labelOf_of_idOf {g : Graph} (hg : g.Distinct) {m : NodeId} {label : String}
    (h : g.idOf label = some m) : g.labelOf m = some label := by
  obtain ⟨n, hn, rfl, rfl⟩ := (Graph.idOf_eq_some_iff hg.nodup_labels).mp h
  exact Graph.labelOf_id hg.nodup_ids hn

theorem carriesCommunities_of_mem {side g : Graph} (hg : g.Distinct)
    (hmem : ∀ c ∈ side.communities, c.sorted ∈ g.communities) : CarriesCommunities side g := by
  intro c hc
  refine ⟨c.sorted, hmem c hc, rfl, rfl, fun m hm label _ hid => ?_⟩
  exact ⟨Community.mem_sorted_members.mpr hm, labelOf_of_idOf hg hid⟩

theorem mem_sortCommunities {cs : List Community} {c : Community} (hc : c ∈ cs) :
    c.sorted ∈ sortCommunities cs :=
  List.mem_map_of_mem (mem_sortByKey.mpr hc)

theorem map_id_sortCommunities_perm (cs : List Community) :
    ((sortCommunities cs).map Community.id).Perm (cs.map Community.id) := by
  rw [sortCommunities, List.map_map]
  exact (sortByKey_perm cs).map Community.id

/-- The ids and labels of communities are sorted, not changed. -/
theorem map_id_label_sortCommunities (cs : List Community) :
    (sortCommunities cs).map (fun c => (c.id, c.label)) =
      sortByKey Prod.fst (cs.map fun c => (c.id, c.label)) := by
  rw [sortCommunities, List.map_map]
  exact (@sortByKey_map _ _ _ _ Community.id Prod.fst (fun c => (c.id, c.label))
    (fun _ => rfl) cs).symm

/-- Content-addressed graphs without collisions keep their ids in a merge. -/
theorem keepsIds_of_contentAddressed {a b g : Graph} (h : merge contentId a b = some g)
    (hinj : Set.InjOn contentId {label | label ∈ (a.nodes ++ b.nodes).map Node.label})
    {side : Graph} (hside : side ∈ [a, b]) (haddressed : side.ContentAddressed contentId) :
    KeepsIds side g := by
  intro m label hlabel
  obtain ⟨n, hn, rfl, rfl⟩ := Graph.exists_node_of_labelOf hlabel
  have hmem : n ∈ a.nodes ++ b.nodes := by
    rcases List.mem_cons.mp hside with rfl | hside
    · exact List.mem_append_left _ hn
    · obtain rfl := List.mem_singleton.mp hside
      exact List.mem_append_right _ hn
  have hgwf := merge_wellFormed h
  have hin : n.label ∈ g.nodes.map Node.label :=
    (mem_labels_of_merge h).mpr (List.mem_map_of_mem hmem)
  rw [(merge_contentAddressed h hinj).idOf_eq hgwf.nodup_labels,
    if_pos (Graph.view_node_isSome_iff.mpr hin), haddressed n hn]

/-- Every community of `g` is one of an input, with that community's own members
and no others. A member of it that is a node there means the same label in `g`
exactly when that label keeps its id. -/
def OwnMembers (a b g : Graph) : Prop :=
  ∀ c' ∈ g.communities, ∃ side ∈ [a, b], ∃ c ∈ side.communities, c' = c.sorted ∧
    ∀ m ∈ c'.members, ∀ label, side.labelOf m = some label →
      (g.labelOf m = some label ↔ g.idOf label = some m)

theorem ownMembers_of_eq {a b g : Graph} (hg : g.Distinct)
    (hcommunities : g.communities = sortCommunities (a.communities ++ b.communities)) :
    OwnMembers a b g := by
  intro c' hc'
  rw [hcommunities] at hc'
  obtain ⟨c, hc, rfl⟩ := List.mem_map.mp hc'
  have hmeans : ∀ m label, g.labelOf m = some label ↔ g.idOf label = some m := by
    intro m label
    constructor
    · intro h
      obtain ⟨n, hn, rfl, rfl⟩ := Graph.exists_node_of_labelOf h
      exact (Graph.idOf_eq_some_iff hg.nodup_labels).mpr ⟨n, hn, rfl, rfl⟩
    · exact labelOf_of_idOf hg
  rcases List.mem_append.mp (mem_sortByKey.mp hc) with ha | hb
  · exact ⟨a, List.mem_cons_self, c, ha, rfl, fun m _ label _ => hmeans m label⟩
  · exact ⟨b, by simp, c, hb, rfl, fun m _ label _ => hmeans m label⟩

/-- What a merge does to communities: they are those of the inputs and no others,
in order of ids and those of `a` first, each with its id, its label and exactly
its members; it keeps ids distinct exactly when the two inputs do not share one;
and it keeps the meaning of members where labels keep their ids. -/
structure KeepsCommunities (contentId : String → UInt32) (a b g : Graph) : Prop where
  communities_eq : g.communities = sortCommunities (a.communities ++ b.communities)
  ownMembers : OwnMembers a b g
  ids_labels : g.communities.map (fun c => (c.id, c.label)) =
    sortByKey Prod.fst ((a.communities ++ b.communities).map fun c => (c.id, c.label))
  nodup_iff : (g.communities.map Community.id).Nodup ↔ (a.communities.map Community.id).Nodup ∧
    (b.communities.map Community.id).Nodup ∧
      (a.communities.map Community.id).Disjoint (b.communities.map Community.id)
  carries_left : CarriesCommunities a g
  carries_right : CarriesCommunities b g
  keepsIds : Set.InjOn contentId {label | label ∈ (a.nodes ++ b.nodes).map Node.label} →
    ∀ side ∈ [a, b], side.ContentAddressed contentId → KeepsIds side g

theorem keepsCommunities_of_merge {a b g : Graph} (h : merge contentId a b = some g) :
    KeepsCommunities contentId a b g := by
  have hcommunities := merge_communities h
  have hdistinct := (merge_wellFormed h).distinct
  refine ⟨hcommunities, ownMembers_of_eq hdistinct hcommunities, ?_, ?_, ?_, ?_, ?_⟩
  · rw [hcommunities, map_id_label_sortCommunities]
  · rw [hcommunities, (map_id_sortCommunities_perm _).nodup_iff, List.map_append,
      List.nodup_append']
  · apply carriesCommunities_of_mem hdistinct
    intro c hc
    rw [hcommunities]
    exact mem_sortCommunities (List.mem_append_left _ hc)
  · apply carriesCommunities_of_mem hdistinct
    intro c hc
    rw [hcommunities]
    exact mem_sortCommunities (List.mem_append_right _ hc)
  · intro hinj side hside haddressed
    exact keepsIds_of_contentAddressed h hinj hside haddressed

/-- Unless the two graphs have more than 2^32 labels, merging returns and keeps
their communities: the list of the result is that of the inputs, sorted, member
by member. Nothing is assumed of the inputs; what a member means is said for
those whose label has the same id before and after. -/
theorem merge_keepsCommunities (contentId : String → UInt32) (a b : Graph) :
    (2 ^ 32 < (firsts RawNode.label ((a.nodes ++ b.nodes).map Node.toRaw)).length ∧
        merge contentId a b = none) ∨
      ∃ g, merge contentId a b = some g ∧ KeepsCommunities contentId a b g := by
  rcases eq_none_or_exists_of_isSome_iff (merge_isSome_iff contentId a b) with hnone | ⟨g, hg⟩
  · exact Or.inl hnone
  · exact Or.inr ⟨g, hg, keepsCommunities_of_merge hg⟩

/-- A graph whose ids are not content ids: each label has the id that the other
one gets in a merge. -/
def swappedIds : Graph := { Graph.new with
  nodes := [⟨⟨1⟩, "bb", "a.rs", ⟨0, 10, 1, 2⟩⟩, ⟨⟨2⟩, "a", "a.rs", ⟨0, 10, 1, 2⟩⟩]
  communities := [⟨⟨0⟩, "community-0", [⟨1⟩]⟩, ⟨⟨1⟩, "community-1", [⟨2⟩]⟩] }

def otherGraph : Graph := { Graph.new with
  nodes := [⟨⟨3⟩, "ccc", "c.rs", ⟨0, 10, 1, 2⟩⟩]
  communities := [⟨⟨0⟩, "community-0", [⟨3⟩]⟩] }

/-- The community of one label becomes the community of the other, and an id is
given twice. -/
theorem merge_swaps_members : swappedIds.Distinct ∧ otherGraph.Distinct ∧
    ∃ g, merge lengthId swappedIds otherGraph = some g ∧
      (∀ c ∈ swappedIds.communities, ∀ c' ∈ g.communities, c'.label = c.label →
        ∀ label ∈ c.memberLabels swappedIds, label ∉ c'.memberLabels g) ∧
      (swappedIds.communities.map Community.id).Nodup ∧
      (otherGraph.communities.map Community.id).Nodup ∧
      ¬ (g.communities.map Community.id).Nodup := by
  refine ⟨⟨by decide, by decide⟩, ⟨by decide, by decide⟩, _, rfl, ?_, ?_, ?_, ?_⟩
  · decide
  · decide
  · decide
  · decide

end HabitatGraph
