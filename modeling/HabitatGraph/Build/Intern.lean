import HabitatGraph.Core.View
import HabitatGraph.Foundation.LinearProbe
import Mathlib.Data.FinEnum

/-! # Interning labels

Assembling and merging give every label a content-addressed id: the label's
`content_id`, or the next free value when that is taken. Labels are interned in
order of appearance and the first node of a label is the one kept, so the ids
are an open-addressing assignment to the labels in order of first appearance.
-/

namespace HabitatGraph

open KeyedList

variable (contentId : String → UInt32)

/-- The value probed after `id`. -/
def wrappingSucc (id : UInt32) : UInt32 := id + 1

/-- A free id for `label`: probe forward from its content id. `none` stands for
the loop that never ends because all 2^32 values are in use. -/
def assignUniqueContentId (label : String) (used : List UInt32) : Option UInt32 :=
  LinearProbe.probe wrappingSucc used (2 ^ 32) (contentId label)

theorem iterate_wrappingSucc (n : Nat) (id : UInt32) :
    wrappingSucc^[n] id = id + UInt32.ofNat n := by
  induction n generalizing id with
  | zero => simp
  | succ n ih =>
      rw [Function.iterate_succ_apply, ih, wrappingSucc, UInt32.ofNat_add, UInt32.add_assoc,
        UInt32.add_comm 1]
      rfl

/-- Probing meets every `u32` before it has made 2^32 steps. -/
theorem reaches_wrappingSucc : LinearProbe.Reaches wrappingSucc (2 ^ 32) := by
  intro s t
  refine ⟨(t - s).toNat, (t - s).toNat_lt, ?_⟩
  rw [iterate_wrappingSucc, UInt32.ofNat_toNat, UInt32.add_comm, UInt32.sub_add_cancel]

theorem card_uint32 : Fintype.card UInt32 = 2 ^ 32 := by
  rw [← FinEnum.card_eq_fintypeCard, FinEnum.card_UInt32]

/-- A call that returns just when `n` labels fit into the id space. -/
theorem eq_none_or_exists_of_isSome_iff {α : Type*} {call : Option α} {n : Nat}
    (h : call.isSome ↔ n ≤ 2 ^ 32) : (2 ^ 32 < n ∧ call = none) ∨ ∃ g, call = some g := by
  cases call with
  | none => exact Or.inl ⟨by simpa using h, rfl⟩
  | some g => exact Or.inr ⟨g, rfl⟩

/-- Labels met so far with their ids, the ids in use, and the nodes made. -/
structure Interner where
  table : PartialMap String NodeId
  used : List UInt32
  nodes : List Node

namespace Interner

def empty : Interner where
  table := PartialMap.empty
  used := []
  nodes := []

/-- Look the label up, or give it a fresh id and push its node. -/
def intern (st : Interner) (raw : RawNode) : Option (NodeId × Interner) :=
  match st.table raw.label with
  | some id => some (id, st)
  | none =>
      (assignUniqueContentId contentId raw.label st.used).map fun value =>
        (⟨value⟩,
          { table := st.table.insert raw.label ⟨value⟩
            used := value :: st.used
            nodes := st.nodes ++ [⟨⟨value⟩, raw.label, raw.sourceFile, raw.span⟩] })

/-- Intern a list of nodes in order. -/
def internAll : Interner → List RawNode → Option Interner
  | st, [] => some st
  | st, raw :: raws => (st.intern contentId raw).bind fun p => internAll p.2 raws

/-- The table and the used ids describe the nodes, which have distinct labels
and ids. -/
structure Valid (st : Interner) : Prop where
  table_eq : st.table = firstBy (fun n => some n.label) Node.id st.nodes
  mem_used : ∀ value, value ∈ st.used ↔ ⟨value⟩ ∈ st.nodes.map Node.id
  nodup_labels : (st.nodes.map Node.label).Nodup
  nodup_ids : (st.nodes.map Node.id).Nodup

theorem valid_empty : empty.Valid where
  table_eq := rfl
  mem_used := by intro value; simp [empty]
  nodup_labels := List.nodup_nil
  nodup_ids := List.nodup_nil

variable {contentId} {st : Interner}

namespace Valid

theorem table_isSome_iff (hst : st.Valid) {label : String} :
    (st.table label).isSome ↔ label ∈ st.nodes.map Node.label := by
  rw [hst.table_eq, firstBy_isSome_iff]
  simp [List.mem_map]

theorem table_eq_some_iff (hst : st.Valid) {label : String} {id : NodeId} :
    st.table label = some id ↔ ∃ n ∈ st.nodes, n.label = label ∧ n.id = id := by
  rw [hst.table_eq]
  constructor
  · intro h
    obtain ⟨n, hn, hlabel, hid⟩ := exists_of_firstBy_eq_some h
    exact ⟨n, hn, Option.some.inj hlabel, hid⟩
  · rintro ⟨n, hn, rfl, rfl⟩
    refine firstBy_eq_some_of_unique hn rfl fun m hm hlabel => ?_
    exact eq_of_mem_of_key_eq hst.nodup_labels hm hn (Option.some.inj hlabel)

end Valid

/-- What interning one node can do: find the label, or place it in a free id. -/
theorem intern_cases {raw : RawNode} {id : NodeId} {st' : Interner}
    (h : st.intern contentId raw = some (id, st')) :
    (st.table raw.label = some id ∧ st' = st) ∨
      ∃ value, st.table raw.label = none ∧
        assignUniqueContentId contentId raw.label st.used = some value ∧ id = ⟨value⟩ ∧
        st' = { table := st.table.insert raw.label ⟨value⟩
                used := value :: st.used
                nodes := st.nodes ++ [⟨⟨value⟩, raw.label, raw.sourceFile, raw.span⟩] } := by
  unfold intern at h
  split at h
  next found hfound =>
    obtain ⟨rfl, rfl⟩ := Prod.mk.inj (Option.some.inj h)
    exact Or.inl ⟨hfound, rfl⟩
  next hnone =>
    obtain ⟨value, hvalue, hpair⟩ := Option.map_eq_some_iff.mp h
    obtain ⟨rfl, rfl⟩ := Prod.mk.inj hpair
    exact Or.inr ⟨value, hnone, hvalue, rfl, rfl⟩

theorem Valid.push (hst : st.Valid) {raw : RawNode} {value : UInt32}
    (hnone : st.table raw.label = none) (hfree : value ∉ st.used) :
    Valid { table := st.table.insert raw.label ⟨value⟩
            used := value :: st.used
            nodes := st.nodes ++ [⟨⟨value⟩, raw.label, raw.sourceFile, raw.span⟩] } where
  table_eq := by
    funext label
    dsimp only
    rw [firstBy_append, PartialMap.overlay_apply, firstBy_cons, firstBy_nil,
      PartialMap.empty_apply, ← hst.table_eq]
    by_cases hlabel : label = raw.label
    · subst hlabel
      simp [hnone]
    · rw [PartialMap.insert_of_ne _ _ hlabel, if_neg (by simpa using Ne.symm hlabel),
        Option.or_none]
  mem_used := by
    intro v
    simp only [List.mem_cons, List.map_append, List.map_cons, List.map_nil, List.mem_append,
      List.not_mem_nil, or_false, NodeId.mk.injEq, hst.mem_used]
    exact or_comm
  nodup_labels := by
    have hnew : raw.label ∉ st.nodes.map Node.label := fun hmem => by
      have := hst.table_isSome_iff.mpr hmem
      simp [hnone] at this
    simpa [List.nodup_append, hst.nodup_labels] using hnew
  nodup_ids := by
    have hnew : (⟨value⟩ : NodeId) ∉ st.nodes.map Node.id := mt (hst.mem_used value).mpr hfree
    simpa [List.nodup_append, hst.nodup_ids] using hnew

theorem Valid.intern (hst : st.Valid) {raw : RawNode} {id : NodeId} {st' : Interner}
    (h : st.intern contentId raw = some (id, st')) : st'.Valid := by
  rcases intern_cases h with ⟨-, rfl⟩ | ⟨value, hnone, hvalue, -, rfl⟩
  · exact hst
  · exact hst.push hnone (LinearProbe.probe_notMem hvalue)

/-- The id interning returns is the one the table holds afterwards. -/
theorem table_of_intern {raw : RawNode} {id : NodeId} {st' : Interner}
    (h : st.intern contentId raw = some (id, st')) : st'.table raw.label = some id := by
  rcases intern_cases h with ⟨hfound, rfl⟩ | ⟨value, -, -, rfl, rfl⟩
  · exact hfound
  · exact PartialMap.insert_self _ _ _

/-- Interning changes no entry of the table. -/
theorem table_mono_intern {raw : RawNode} {id : NodeId} {st' : Interner}
    (h : st.intern contentId raw = some (id, st')) {label : String} {found : NodeId}
    (hfound : st.table label = some found) : st'.table label = some found := by
  rcases intern_cases h with ⟨-, rfl⟩ | ⟨value, hnone, -, -, rfl⟩
  · exact hfound
  · have hne : label ≠ raw.label := by
      rintro rfl
      rw [hnone] at hfound
      cases hfound
    exact (PartialMap.insert_of_ne _ _ hne).trans hfound

theorem internAll_cons_eq_some {raw : RawNode} {raws : List RawNode} {st' : Interner}
    (h : st.internAll contentId (raw :: raws) = some st') :
    ∃ id middle, st.intern contentId raw = some (id, middle) ∧
      middle.internAll contentId raws = some st' := by
  unfold internAll at h
  obtain ⟨⟨id, middle⟩, hmiddle, hrest⟩ := Option.bind_eq_some_iff.mp h
  exact ⟨id, middle, hmiddle, hrest⟩

theorem Valid.internAll {raws : List RawNode} (hst : st.Valid) {st' : Interner}
    (h : st.internAll contentId raws = some st') : st'.Valid := by
  induction raws generalizing st with
  | nil => cases h; exact hst
  | cons raw raws ih =>
      obtain ⟨id, middle, hmiddle, hrest⟩ := internAll_cons_eq_some h
      exact ih (hst.intern hmiddle) hrest

theorem table_mono_internAll {raws : List RawNode} {st' : Interner}
    (h : st.internAll contentId raws = some st') {label : String} {found : NodeId}
    (hfound : st.table label = some found) : st'.table label = some found := by
  induction raws generalizing st with
  | nil => cases h; exact hfound
  | cons raw raws ih =>
      obtain ⟨id, middle, hmiddle, hrest⟩ := internAll_cons_eq_some h
      exact ih hrest (table_mono_intern hmiddle hfound)

theorem internAll_append (raws raws' : List RawNode) :
    st.internAll contentId (raws ++ raws') =
      (st.internAll contentId raws).bind fun middle => middle.internAll contentId raws' := by
  induction raws generalizing st with
  | nil => rfl
  | cons raw raws ih =>
      simp only [List.cons_append, internAll, Option.bind_assoc]
      exact Option.bind_congr fun p _ => ih

/-- The node made for `raw` at `value`. -/
def nodeAt (raw : RawNode) (value : UInt32) : Node :=
  ⟨⟨value⟩, raw.label, raw.sourceFile, raw.span⟩

/-- Interning a list places the labels that are new to it, in order of first
appearance. -/
theorem internAll_nodes (hst : st.Valid) (raws : List RawNode) :
    (st.internAll contentId raws).map Interner.nodes =
      (LinearProbe.assign wrappingSucc (2 ^ 32) contentId st.used
        ((firstsFrom RawNode.label (st.nodes.map Node.label) raws).map RawNode.label)).map
          fun slots => st.nodes ++
            List.zipWith nodeAt (firstsFrom RawNode.label (st.nodes.map Node.label) raws)
              slots := by
  induction raws generalizing st with
  | nil => simp [internAll, LinearProbe.assign]
  | cons raw raws ih =>
      cases htable : st.table raw.label with
      | some id =>
          have hmem : raw.label ∈ st.nodes.map Node.label :=
            hst.table_isSome_iff.mp (by rw [htable]; rfl)
          have hintern : st.intern contentId raw = some (id, st) := by
            simp only [Interner.intern, htable]
          rw [firstsFrom_cons_of_mem raws hmem]
          simp only [internAll, hintern, Option.bind_some]
          exact ih hst
      | none =>
          have hmem : raw.label ∉ st.nodes.map Node.label := fun hmem => by
            have := hst.table_isSome_iff.mpr hmem
            simp [htable] at this
          rw [firstsFrom_cons_of_notMem raws hmem]
          simp only [internAll, Interner.intern, htable, List.map_cons, LinearProbe.assign,
            assignUniqueContentId]
          cases hprobe : LinearProbe.probe wrappingSucc st.used (2 ^ 32) (contentId raw.label) with
          | none => rfl
          | some value =>
              have hpush := hst.push htable (LinearProbe.probe_notMem hprobe)
              have hseen : firstsFrom RawNode.label (raw.label :: st.nodes.map Node.label) raws =
                  firstsFrom RawNode.label
                    ((st.nodes ++ [nodeAt raw value]).map Node.label) raws := by
                refine firstsFrom_congr (fun k => ?_) raws
                simp [nodeAt, or_comm]
              simp only [Option.map_some, Option.bind_some, Option.map_map]
              rw [hseen]
              refine (ih hpush).trans ?_
              dsimp only
              refine congrArg (Option.map · _) (funext fun slots => ?_)
              simp [nodeAt]

/-! ## Interning from scratch -/

theorem map_toRaw_zipWith_nodeAt {raws : List RawNode} {slots : List UInt32}
    (h : slots.length = raws.length) : (List.zipWith nodeAt raws slots).map Node.toRaw = raws := by
  rw [← List.map_uncurry_zip_eq_zipWith, List.map_map]
  exact List.map_fst_zip h.ge

theorem map_id_zipWith_nodeAt {raws : List RawNode} {slots : List UInt32}
    (h : slots.length = raws.length) :
    (List.zipWith nodeAt raws slots).map Node.id = slots.map NodeId.mk := by
  have hslots : (raws.zip slots).map Prod.snd = slots := List.map_snd_zip h.le
  rw [← List.map_uncurry_zip_eq_zipWith, List.map_map]
  conv_rhs => rw [← hslots, List.map_map]
  rfl

/-- The ids given to a list of labels in order of first appearance. -/
theorem exists_slots_of_internAll {raws : List RawNode} {st' : Interner}
    (h : empty.internAll contentId raws = some st') :
    ∃ slots, LinearProbe.assign wrappingSucc (2 ^ 32) contentId []
        ((firsts RawNode.label raws).map RawNode.label) = some slots ∧
      st'.nodes.map Node.toRaw = firsts RawNode.label raws ∧
      st'.nodes.map Node.id = slots.map NodeId.mk := by
  have hnodes := @internAll_nodes contentId _ valid_empty raws
  rw [h, Option.map_some] at hnodes
  obtain ⟨slots, hslots, hst'⟩ := Option.map_eq_some_iff.mp hnodes.symm
  have hlength : slots.length = (firsts RawNode.label raws).length := by
    rw [LinearProbe.assign_length hslots, List.length_map]
    rfl
  refine ⟨slots, hslots, ?_, ?_⟩
  · rw [← hst']
    exact map_toRaw_zipWith_nodeAt hlength
  · rw [← hst']
    exact map_id_zipWith_nodeAt hlength

/-- Interning loses and invents no label. -/
theorem mem_labels_of_internAll {raws : List RawNode} {st' : Interner}
    (h : empty.internAll contentId raws = some st') {label : String} :
    label ∈ st'.nodes.map Node.label ↔ label ∈ raws.map RawNode.label := by
  obtain ⟨-, -, hraw, -⟩ := exists_slots_of_internAll h
  have hlabels : st'.nodes.map Node.label = (firsts RawNode.label raws).map RawNode.label := by
    rw [← hraw, List.map_map]
    rfl
  rw [hlabels, mem_map_firsts]

/-- Interning returns when there are at most 2^32 distinct labels, and only then. -/
theorem internAll_isSome_iff (contentId : String → UInt32) (raws : List RawNode) :
    (empty.internAll contentId raws).isSome ↔ (firsts RawNode.label raws).length ≤ 2 ^ 32 := by
  have hnodes : (empty.internAll contentId raws).isSome =
      (LinearProbe.assign wrappingSucc (2 ^ 32) contentId []
        ((firsts RawNode.label raws).map RawNode.label)).isSome := by
    have h := congrArg Option.isSome (@internAll_nodes contentId _ valid_empty raws)
    rwa [Option.isSome_map, Option.isSome_map] at h
  rw [hnodes, LinearProbe.assign_isSome_iff reaches_wrappingSucc contentId List.nodup_nil,
    card_uint32]
  simp only [List.length_nil, List.length_map, zero_add, List.map_eq_nil_iff]
  constructor
  · rintro (h | h)
    · exact h ▸ Nat.zero_le _
    · exact h
  · exact Or.inr

/-- Interned nodes say of each label what its first raw node says. -/
theorem firstBy_location_of_internAll {raws : List RawNode} {st' : Interner}
    (h : empty.internAll contentId raws = some st') :
    firstBy (fun n => some n.label) Node.location st'.nodes =
      firstBy (fun n => some n.label) RawNode.location raws := by
  obtain ⟨-, -, hraw, -⟩ := exists_slots_of_internAll h
  rw [← firstBy_label_map_toRaw, hraw, firstBy_firsts]

theorem nodup_contentIds {raws : List RawNode}
    (hinj : Set.InjOn contentId {label | label ∈ raws.map RawNode.label}) :
    (((firsts RawNode.label raws).map RawNode.label).map contentId).Nodup := by
  apply (List.nodup_map_iff_inj_on (nodup_map_firsts raws)).mpr
  intro l hl l' hl' heq
  exact hinj (mem_map_firsts.mp hl) (mem_map_firsts.mp hl') heq

/-- Labels without collisions all get their content ids. -/
theorem id_eq_contentId_of_internAll {raws : List RawNode} {st' : Interner}
    (h : empty.internAll contentId raws = some st')
    (hinj : Set.InjOn contentId {label | label ∈ raws.map RawNode.label}) :
    ∀ n ∈ st'.nodes, n.id = ⟨contentId n.label⟩ := by
  obtain ⟨slots, hslots, hraw, hid⟩ := exists_slots_of_internAll h
  have hhome := hslots.symm.trans (LinearProbe.assign_eq_map_home (by decide : 0 < 2 ^ 32)
    (nodup_contentIds hinj) fun _ _ => List.not_mem_nil)
  obtain rfl := Option.some.inj hhome
  rw [← hraw, List.map_map, List.map_map, List.map_map, List.map_inj_left] at hid
  exact hid

end Interner

end HabitatGraph
