import HabitatGraph.Build.MergeDriver

/-! # What the ids depend on

Assembling, merging and three-way merging all give ids to the labels that
survive, in order of first appearance. Without collisions the order does not
show. With a collision it does: the label that comes first takes the content id.
-/

namespace HabitatGraph

open KeyedList

variable (contentId : String → UInt32)

/-- A call of one of the operations that give ids to labels. -/
inductive BuildCall
  | assemble (extractions : List Extraction)
  | merge (a b : Graph)
  | merge3 (base ours theirs : Graph)

/-- The graph a call returns. -/
def BuildCall.result : BuildCall → Option Graph
  | .assemble extractions => HabitatGraph.assemble contentId extractions
  | .merge a b => HabitatGraph.merge contentId a b
  | .merge3 base ours theirs => HabitatGraph.merge3 contentId base ours theirs

/-- The nodes a call gives ids to, in order. -/
def BuildCall.raws : BuildCall → List RawNode
  | .assemble extractions => extractions.flatMap Extraction.nodes
  | .merge a b => (a.nodes ++ b.nodes).map Node.toRaw
  | .merge3 base ours theirs => (preNodes base ours theirs).map Node.toRaw

/-- The set of labels that survive a call. -/
def BuildCall.labels (call : BuildCall) : Finset String :=
  (call.raws.map RawNode.label).toFinset

variable {contentId}

/-! ## Ids are what the interner holds -/

theorem BuildCall.result_isSome_iff (contentId : String → UInt32) (call : BuildCall) :
    (call.result contentId).isSome ↔ (firsts RawNode.label call.raws).length ≤ 2 ^ 32 := by
  cases call with
  | assemble extractions => exact assemble_isSome_iff contentId extractions
  | merge a b => exact merge_isSome_iff contentId a b
  | merge3 base ours theirs =>
      have hnodup : (((preNodes base ours theirs).map Node.toRaw).map RawNode.label).Nodup := by
        rw [List.map_map]
        exact nodup_preNodes base ours theirs
      refine (merge3_isSome_iff contentId base ours theirs).trans ?_
      rw [BuildCall.raws, firsts_eq_self hnodup, List.length_map]

theorem BuildCall.exists_interner (call : BuildCall) {g : Graph}
    (h : call.result contentId = some g) :
    ∃ st, Interner.empty.internAll contentId call.raws = some st ∧ st.Valid ∧
      g.nodes.Perm st.nodes := by
  cases call with
  | assemble extractions =>
      obtain ⟨st, hintern, hst, rfl⟩ := exists_interner_of_assemble h
      exact ⟨st, hintern, hst, Graph.dedup_sorted_nodes_perm hst.nodup_ids⟩
  | merge a b =>
      obtain ⟨st, _, _, hintern, hst, -, -, rfl⟩ := exists_interner_of_merge h
      exact ⟨st, hintern, hst, Graph.dedup_sorted_nodes_perm hst.nodup_ids⟩
  | merge3 base ours theirs =>
      obtain ⟨st, hintern, hst, rfl⟩ := exists_interner_of_merge3 h
      exact ⟨st, hintern, hst, Graph.dedup_sorted_nodes_perm hst.nodup_ids⟩

theorem Interner.Valid.idOf_eq {st : Interner} (hst : st.Valid) {g : Graph}
    (hperm : g.nodes.Perm st.nodes) (label : String) : g.idOf label = st.table label := by
  rw [hst.table_eq]
  exact @Graph.idOf_eq_of_perm { g with nodes := st.nodes } g hperm hst.nodup_labels label

/-- Labels without collisions get their content ids, in any order. -/
theorem BuildCall.idOf_eq_contentId {call : BuildCall} {g : Graph}
    (h : call.result contentId = some g) (hinj : Set.InjOn contentId call.labels)
    (label : String) :
    g.idOf label = if label ∈ call.labels then some ⟨contentId label⟩ else none := by
  obtain ⟨st, hintern, hst, hperm⟩ := call.exists_interner h
  have hmem : ∀ l, l ∈ call.raws.map RawNode.label ↔ l ∈ call.labels := fun l =>
    List.mem_toFinset.symm
  have hids := Interner.id_eq_contentId_of_internAll hintern fun l hl l' hl' heq =>
    hinj ((hmem l).mp hl) ((hmem l').mp hl') heq
  have htable : (st.table label).isSome ↔ label ∈ call.labels := by
    rw [hst.table_isSome_iff, ← hmem]
    exact Interner.mem_labels_of_internAll hintern
  rw [hst.idOf_eq hperm]
  split
  next hin =>
    obtain ⟨id, hid⟩ := Option.isSome_iff_exists.mp (htable.mpr hin)
    obtain ⟨n, hn, rfl, rfl⟩ := hst.table_eq_some_iff.mp hid
    rw [hid, hids n hn]
  next hout => exact Option.not_isSome_iff_eq_none.mp (mt htable.mp hout)

/-- The label interned first gets its content id. -/
theorem BuildCall.idOf_head {call : BuildCall} {g : Graph} {raw : RawNode} {raws : List RawNode}
    (h : call.result contentId = some g) (hraws : call.raws = raw :: raws) :
    g.idOf raw.label = some ⟨contentId raw.label⟩ := by
  obtain ⟨st, hintern, hst, hperm⟩ := call.exists_interner h
  rw [hst.idOf_eq hperm]
  rw [hraws] at hintern
  obtain ⟨id, middle, hfirst, hrest⟩ := Interner.internAll_cons_eq_some hintern
  apply Interner.table_mono_internAll hrest
  rcases Interner.intern_cases hfirst with ⟨hfound, -⟩ | ⟨value, -, hvalue, rfl, rfl⟩
  · cases hfound
  · have hhome : assignUniqueContentId contentId raw.label Interner.empty.used =
        some (contentId raw.label) := LinearProbe.probe_home (by decide) List.not_mem_nil
    rw [hhome] at hvalue
    obtain rfl := Option.some.inj hvalue
    exact PartialMap.insert_self _ _ _

/-! ## When the label set decides the ids -/

/-- Any two calls whose surviving labels are `labels` give every label the same
id. -/
def IdsDependOnLabels (contentId : String → UInt32) (labels : Finset String) : Prop :=
  ∀ call call' : BuildCall, call.labels = labels → call'.labels = labels →
    ∀ g g', call.result contentId = some g → call'.result contentId = some g' →
      ∀ label, g.idOf label = g'.idOf label

/-- Assembling one file that declares the labels in the given order. -/
def assembleLabels (labels : List String) : BuildCall :=
  .assemble [⟨labels.map fun label => ⟨label, "lib.rs", ⟨0, 0, 0, 0⟩⟩, []⟩]

theorem raws_assembleLabels (labels : List String) :
    (assembleLabels labels).raws = labels.map fun label => ⟨label, "lib.rs", ⟨0, 0, 0, 0⟩⟩ := by
  simp [assembleLabels, BuildCall.raws]

theorem labels_assembleLabels (labels : List String) :
    (assembleLabels labels).labels = labels.toFinset := by
  rw [BuildCall.labels, raws_assembleLabels, List.map_map]
  exact congrArg List.toFinset (List.map_id labels)

theorem BuildCall.isSome_of_card_le {call : BuildCall} (h : call.labels.card ≤ 2 ^ 32) :
    (call.result contentId).isSome := by
  apply (call.result_isSome_iff contentId).mpr
  apply le_trans (length_le_card (nodup_map_firsts _) _) h
  intro label hlabel
  exact List.mem_toFinset.mpr (mem_map_firsts.mp hlabel)

/-- Some call on the labels gives a chosen one its content id. -/
theorem exists_call_idOf {labels : Finset String} (hcard : labels.card ≤ 2 ^ 32) {label : String}
    (hlabel : label ∈ labels) :
    ∃ call : BuildCall, call.labels = labels ∧ ∃ g, call.result contentId = some g ∧
      g.WellFormed ∧ g.idOf label = some ⟨contentId label⟩ := by
  have hset : (label :: (labels.erase label).toList).toFinset = labels := by
    rw [List.toFinset_cons, Finset.toList_toFinset, Finset.insert_erase hlabel]
  have hlabels := (labels_assembleLabels _).trans hset
  obtain ⟨g, hg⟩ := Option.isSome_iff_exists.mp
    (@BuildCall.isSome_of_card_le contentId _ (hlabels.symm ▸ hcard))
  refine ⟨_, hlabels, g, hg, assemble_wellFormed hg, ?_⟩
  exact BuildCall.idOf_head hg (raws_assembleLabels _)

/-- The ids depend only on the set of labels exactly when no two of the labels
share a content id, or there are too many labels for any call to return. This is over
every call that assembles or merges these labels, in every order. -/
theorem idsDependOnLabels_iff (contentId : String → UInt32) (labels : Finset String) :
    IdsDependOnLabels contentId labels ↔ Set.InjOn contentId labels ∨ 2 ^ 32 < labels.card := by
  constructor
  · intro hdepend
    by_contra hneither
    rw [not_or, not_lt] at hneither
    obtain ⟨hcollide, hcard⟩ := hneither
    apply hcollide
    intro l hl l' hl' heq
    -- each of two colliding labels takes the content id when it comes first
    obtain ⟨call, hlabels, g, hg, hwf, hid⟩ := @exists_call_idOf contentId labels hcard l hl
    obtain ⟨call', hlabels', g', hg', -, hid'⟩ := @exists_call_idOf contentId labels hcard l' hl'
    have hsame : g.idOf l' = g.idOf l := by
      rw [hdepend call call' hlabels hlabels' g g' hg hg' l', hid, hid', heq]
    rw [hid] at hsame
    obtain ⟨n, hn, hnl, hnid⟩ := (Graph.idOf_eq_some_iff hwf.nodup_labels).mp hid
    obtain ⟨m, hm, hml, hmid⟩ := (Graph.idOf_eq_some_iff hwf.nodup_labels).mp hsame
    rw [← hnl, ← hml, eq_of_mem_of_key_eq hwf.nodup_ids hn hm (hnid.trans hmid.symm)]
  · rintro (hinj | hmany) call call' hlabels hlabels' g g' hg hg' label
    · rw [BuildCall.idOf_eq_contentId hg (hlabels ▸ hinj),
        BuildCall.idOf_eq_contentId hg' (hlabels' ▸ hinj), hlabels, hlabels']
    · -- a call that returns has at most 2^32 distinct labels
      exfalso
      have hreturns := (call.result_isSome_iff contentId).mp (Option.isSome_iff_exists.mpr ⟨g, hg⟩)
      have hcard : (firsts RawNode.label call.raws).length = labels.card := by
        rw [← hlabels, BuildCall.labels, ← @List.length_map _ _ _ RawNode.label,
          ← List.toFinset_card_of_nodup (nodup_map_firsts call.raws)]
        apply congrArg Finset.card
        ext l
        rw [List.mem_toFinset, List.mem_toFinset, mem_map_firsts]
      omega

/-- Two files whose labels share a content id. -/
def collidingFirst : Extraction := ⟨[⟨"a", "a.rs", ⟨0, 10, 1, 2⟩⟩], []⟩

def collidingSecond : Extraction := ⟨[⟨"b", "b.rs", ⟨0, 10, 1, 2⟩⟩], []⟩

/-- Giving the two files in the other order swaps their ids. -/
theorem ids_depend_on_order :
    ¬ ∀ (contentId : String → UInt32) (labels : Finset String),
      IdsDependOnLabels contentId labels := by
  intro h
  have hids : ∀ g g', assemble lengthId [collidingFirst, collidingSecond] = some g →
      assemble lengthId [collidingSecond, collidingFirst] = some g' → g.idOf "a" = g'.idOf "a" :=
    fun g g' hg hg' => h lengthId {"a", "b"} (.assemble [collidingFirst, collidingSecond])
      (.assemble [collidingSecond, collidingFirst]) (by decide) (by decide) g g' hg hg' "a"
  have hids' := hids _ _ rfl rfl
  exact absurd hids' (by decide)

end HabitatGraph
