import Mathlib.Data.List.Induction
import Mathlib.Data.List.Nodup
import Mathlib.Logic.Function.Basic

/-! # Finite maps as partial functions

A hash map is observed through its lookups only, so it is a partial function.
`ofEntries` collects a list of pairs, a later entry replacing an earlier one of
the same key; `overlay` is the union that prefers its left operand.
-/

/-- A map from keys to values, read by lookup. -/
abbrev PartialMap (κ ν : Type*) := κ → Option ν

namespace PartialMap

variable {κ ν : Type*}

/-- The map with no entries. -/
def empty : PartialMap κ ν := fun _ => none

@[simp] theorem empty_apply (k : κ) : (empty : PartialMap κ ν) k = none := rfl

theorem ne_of_isSome {m : PartialMap κ ν} {j k : κ} (hk : m k = none) (hj : (m j).isSome) :
    j ≠ k := by
  rintro rfl
  simp [hk] at hj

/-- Prefer `m`, fall back to `m'`. -/
def overlay (m m' : PartialMap κ ν) : PartialMap κ ν := fun k => (m k).or (m' k)

theorem overlay_apply (m m' : PartialMap κ ν) (k : κ) : m.overlay m' k = (m k).or (m' k) := rfl

theorem overlay_assoc (m m' m'' : PartialMap κ ν) :
    (m.overlay m').overlay m'' = m.overlay (m'.overlay m'') := by
  funext k
  exact Option.or_assoc

variable [DecidableEq κ]

/-- Add or replace one entry. -/
def insert (m : PartialMap κ ν) (k : κ) (v : ν) : PartialMap κ ν :=
  fun j => if j = k then some v else m j

@[simp] theorem insert_self (m : PartialMap κ ν) (k : κ) (v : ν) : m.insert k v k = some v :=
  if_pos rfl

theorem insert_of_ne (m : PartialMap κ ν) {j k : κ} (v : ν) (h : j ≠ k) :
    m.insert k v j = m j := if_neg h

theorem insert_insert (m : PartialMap κ ν) (k : κ) (v v' : ν) :
    (m.insert k v).insert k v' = m.insert k v' := by
  funext j
  unfold insert
  split <;> rfl

/-- To insert what is there changes nothing. -/
theorem insert_eq_self {m : PartialMap κ ν} {k : κ} {v : ν} (h : m k = some v) :
    m.insert k v = m := by
  funext j
  unfold insert
  split
  next hj => rw [hj, h]
  next => rfl

theorem insert_isSome_iff {m : PartialMap κ ν} {j k : κ} {v : ν} :
    (m.insert k v j).isSome ↔ (m j).isSome ∨ j = k := by
  by_cases h : j = k
  · simp [h]
  · simp [insert_of_ne m v h, h]

/-- Remove one entry. -/
def erase (m : PartialMap κ ν) (k : κ) : PartialMap κ ν := fun j => if j = k then none else m j

theorem erase_of_ne (m : PartialMap κ ν) {j k : κ} (h : j ≠ k) : m.erase k j = m j := if_neg h

/-- Insert the entries of a list in order, after those of `m`. -/
def insertAll (m : PartialMap κ ν) (entries : List (κ × ν)) : PartialMap κ ν :=
  entries.foldl (fun m entry => m.insert entry.1 entry.2) m

/-- The map collected from a list of entries. -/
def ofEntries (entries : List (κ × ν)) : PartialMap κ ν := empty.insertAll entries

@[simp] theorem insertAll_nil (m : PartialMap κ ν) : m.insertAll [] = m := rfl

@[simp] theorem insertAll_cons (m : PartialMap κ ν) (entry : κ × ν) (entries : List (κ × ν)) :
    m.insertAll (entry :: entries) = (m.insert entry.1 entry.2).insertAll entries := rfl

theorem insertAll_of_notMem (m : PartialMap κ ν) {entries : List (κ × ν)} {k : κ}
    (h : k ∉ entries.map Prod.fst) : m.insertAll entries k = m k := by
  induction entries generalizing m with
  | nil => rfl
  | cons entry entries ih =>
      rw [List.map_cons, List.mem_cons, not_or] at h
      rw [insertAll_cons, ih _ h.2, insert_of_ne _ _ h.1]

/-- A key of the list whose entries all hold one value has that value. -/
theorem insertAll_eq_of_forall (m : PartialMap κ ν) {entries : List (κ × ν)} {k : κ} {v : ν}
    (hkey : k ∈ entries.map Prod.fst) (hvalue : ∀ entry ∈ entries, entry.2 = v) :
    m.insertAll entries k = some v := by
  induction entries generalizing m with
  | nil => cases hkey
  | cons entry entries ih =>
      obtain ⟨hhead, htail⟩ := List.forall_mem_cons.mp hvalue
      rw [insertAll_cons]
      by_cases hlater : k ∈ entries.map Prod.fst
      · exact ih _ hlater htail
      · rw [List.map_cons, List.mem_cons, or_iff_left hlater] at hkey
        rw [insertAll_of_notMem _ hlater, hkey, insert_self, hhead]

/-- With distinct keys, an entry of the list is an entry of the map. -/
theorem insertAll_of_mem (m : PartialMap κ ν) {entries : List (κ × ν)}
    (hnodup : (entries.map Prod.fst).Nodup) {k : κ} {v : ν} (h : (k, v) ∈ entries) :
    m.insertAll entries k = some v := by
  induction entries generalizing m with
  | nil => cases h
  | cons entry entries ih =>
      obtain ⟨hhead, htail⟩ := List.nodup_cons.mp hnodup
      rw [insertAll_cons]
      rcases List.mem_cons.mp h with rfl | h
      · rw [insertAll_of_notMem _ hhead, insert_self]
      · exact ih _ htail h

theorem insertAll_eq_some {m : PartialMap κ ν} {entries : List (κ × ν)} {k : κ} {v : ν}
    (h : m.insertAll entries k = some v) : (k, v) ∈ entries ∨ m k = some v := by
  induction entries generalizing m with
  | nil => exact Or.inr h
  | cons entry entries ih =>
      rcases ih h with htail | hhead
      · exact Or.inl (List.mem_cons_of_mem entry htail)
      · by_cases hk : k = entry.1
        · subst hk
          obtain rfl := Option.some.inj ((insert_self m entry.1 entry.2).symm.trans hhead)
          exact Or.inl List.mem_cons_self
        · exact Or.inr ((insert_of_ne m entry.2 hk).symm.trans hhead)

/-- Every entry of the map is one of the list. -/
theorem mem_of_ofEntries_eq_some {entries : List (κ × ν)} {k : κ} {v : ν}
    (h : ofEntries entries k = some v) : (k, v) ∈ entries :=
  (insertAll_eq_some h).resolve_right fun hempty => by cases hempty

theorem ofEntries_eq_some_iff {entries : List (κ × ν)} (hnodup : (entries.map Prod.fst).Nodup)
    {k : κ} {v : ν} : ofEntries entries k = some v ↔ (k, v) ∈ entries :=
  ⟨mem_of_ofEntries_eq_some, insertAll_of_mem _ hnodup⟩

theorem ofEntries_eq_none_iff {entries : List (κ × ν)} {k : κ} :
    ofEntries entries k = none ↔ k ∉ entries.map Prod.fst := by
  constructor
  · suffices hsome : ∀ (m : PartialMap κ ν), k ∈ entries.map Prod.fst →
        (m.insertAll entries k).isSome by
      intro h hmem
      have := hsome empty hmem
      rw [ofEntries] at h
      simp [h] at this
    induction entries with
    | nil => intro m h; cases h
    | cons entry entries ih =>
        intro m hmem
        rw [insertAll_cons]
        by_cases htail : k ∈ entries.map Prod.fst
        · exact ih _ htail
        · rw [List.map_cons, List.mem_cons, or_iff_left htail] at hmem
          subst hmem
          rw [insertAll_of_notMem _ htail, insert_self]
          rfl
  · exact insertAll_of_notMem empty

/-- A key that the list pairs with one value only is looked up as in the list. -/
theorem ofEntries_eq_some_iff_of_unique {entries : List (κ × ν)} {k : κ} {v : ν}
    (hunique : ∀ v', (k, v) ∈ entries → (k, v') ∈ entries → v' = v) :
    ofEntries entries k = some v ↔ (k, v) ∈ entries := by
  constructor
  · exact mem_of_ofEntries_eq_some
  · intro hmem
    cases hfound : ofEntries entries k with
    | none =>
        have hkey : k ∈ entries.map Prod.fst := List.mem_map_of_mem (f := Prod.fst) hmem
        exact absurd hkey (ofEntries_eq_none_iff.mp hfound)
    | some v' => rw [hunique v' hmem (mem_of_ofEntries_eq_some hfound)]

/-- A map collected from keyed elements holds each of them under its key. -/
theorem mem_of_ofEntries_map_eq_some {α : Type*} {key : α → κ} {xs : List α} {k : κ} {x : α}
    (h : ofEntries (xs.map fun x => (key x, x)) k = some x) : x ∈ xs ∧ key x = k := by
  obtain ⟨y, hy, heq⟩ := List.mem_map.mp (mem_of_ofEntries_eq_some h)
  obtain ⟨hkey, rfl⟩ := Prod.mk.inj heq
  exact ⟨hy, hkey⟩

theorem ofEntries_map_eq_none_iff {α : Type*} {key : α → κ} {xs : List α} {k : κ} :
    ofEntries (xs.map fun x => (key x, x)) k = none ↔ k ∉ xs.map key := by
  rw [ofEntries_eq_none_iff, List.map_map]
  rfl

theorem insertAll_filter {m m' : PartialMap κ ν} {k : κ} (h : m k = m' k)
    (entries : List (κ × ν)) :
    m.insertAll (entries.filter fun entry => entry.1 = k) k = m'.insertAll entries k := by
  induction entries generalizing m m' with
  | nil => exact h
  | cons entry entries ih =>
      rw [List.filter_cons]
      split
      next hkey =>
        rw [insertAll_cons, insertAll_cons]
        refine ih ?_
        rw [← of_decide_eq_true hkey, insert_self, insert_self]
      next hkey =>
        rw [insertAll_cons]
        refine ih (h.trans (insert_of_ne m' entry.2 fun heq => hkey ?_).symm)
        exact decide_eq_true heq.symm

/-- A lookup depends on the entries of its key alone. -/
theorem ofEntries_filter (entries : List (κ × ν)) (k : κ) :
    ofEntries (entries.filter fun entry => entry.1 = k) k = ofEntries entries k :=
  insertAll_filter rfl entries

theorem ofEntries_concat (entries : List (κ × ν)) (entry : κ × ν) :
    ofEntries (entries ++ [entry]) = (ofEntries entries).insert entry.1 entry.2 := by
  simp [ofEntries, insertAll]

/-- A lookup finds the last entry of its key. -/
theorem ofEntries_eq_getLast? (entries : List (κ × ν)) (k : κ) :
    ofEntries entries k = (entries.filter fun entry => entry.1 = k).getLast?.map Prod.snd := by
  induction entries using List.reverseRecOn with
  | nil => rfl
  | append_singleton entries entry ih =>
      rw [ofEntries_concat, List.filter_append]
      by_cases hk : entry.1 = k
      · subst hk
        simp
      · rw [insert_of_ne _ _ (Ne.symm hk), ih]
        simp [hk]

theorem insertAll_map_key {κ' : Type*} [DecidableEq κ'] {f : κ → κ'} (hf : Function.Injective f)
    {m : PartialMap κ ν} {m' : PartialMap κ' ν} (h : ∀ k, m' (f k) = m k)
    (entries : List (κ × ν)) (k : κ) :
    m'.insertAll (entries.map fun entry => (f entry.1, entry.2)) (f k) =
      m.insertAll entries k := by
  induction entries generalizing m m' with
  | nil => exact h k
  | cons entry entries ih =>
      rw [List.map_cons, insertAll_cons, insertAll_cons]
      refine ih fun j => ?_
      by_cases hj : j = entry.1
      · rw [hj, insert_self, insert_self]
      · rw [insert_of_ne _ _ hj, insert_of_ne _ _ (hf.ne hj), h]

/-- Keys can be renamed, as long as they stay apart. -/
theorem ofEntries_map_key {κ' : Type*} [DecidableEq κ'] {f : κ → κ'} (hf : Function.Injective f)
    (entries : List (κ × ν)) (k : κ) :
    ofEntries (entries.map fun entry => (f entry.1, entry.2)) (f k) = ofEntries entries k :=
  insertAll_map_key hf (fun _ => rfl) entries k

/-! ## Values grouped by key -/

/-- Append a value to the list of its key. -/
def push (m : PartialMap κ (List ν)) (k : κ) (v : ν) : PartialMap κ (List ν) :=
  m.insert k ((m k).getD [] ++ [v])

/-- Every value listed under its key, in the order of the pairs. -/
def grouped (pairs : List (κ × ν)) : PartialMap κ (List ν) :=
  pairs.foldl (fun m pair => m.push pair.1 pair.2) empty

theorem grouped_concat (pairs : List (κ × ν)) (pair : κ × ν) :
    grouped (pairs ++ [pair]) = (grouped pairs).push pair.1 pair.2 := by
  simp [grouped]

theorem mem_getD_grouped {pairs : List (κ × ν)} {k : κ} {v : ν} :
    v ∈ (grouped pairs k).getD [] ↔ (k, v) ∈ pairs := by
  induction pairs using List.reverseRecOn with
  | nil => simp [grouped]
  | append_singleton pairs pair ih =>
      rw [grouped_concat, push, List.mem_append, List.mem_singleton]
      by_cases hk : k = pair.1
      · subst hk
        simp [ih, Prod.ext_iff]
      · simp [insert_of_ne _ _ hk, ih, Prod.ext_iff, hk]

/-- The list of a key holds the values paired with it, in order. -/
theorem getD_grouped (pairs : List (κ × ν)) (k : κ) :
    (grouped pairs k).getD [] = (pairs.filter fun pair => pair.1 = k).map Prod.snd := by
  induction pairs using List.reverseRecOn with
  | nil => simp [grouped]
  | append_singleton pairs pair ih =>
      rw [grouped_concat, push, List.filter_append, List.map_append, ← ih]
      by_cases hk : k = pair.1
      · subst hk
        simp
      · simp [insert_of_ne _ _ hk, Ne.symm hk]

/-- A key has a list when some pair has the key. -/
theorem grouped_eq_none_iff {pairs : List (κ × ν)} {k : κ} :
    grouped pairs k = none ↔ ∀ v, (k, v) ∉ pairs := by
  induction pairs using List.reverseRecOn with
  | nil => simp [grouped]
  | append_singleton pairs pair ih =>
      rw [grouped_concat, push]
      by_cases hk : k = pair.1
      · subst hk
        simp only [insert_self, reduceCtorEq, false_iff, not_forall, not_not]
        exact ⟨pair.2, by simp⟩
      · simp [insert_of_ne _ _ hk, ih, Prod.ext_iff, hk]

/-- Elements put under the keys they have, and taken together again. -/
theorem flatMap_filter_perm {α : Type*} {ks : List κ} (hnodup : ks.Nodup) (xs : List α)
    (key : α → Option κ) :
    (ks.flatMap fun k => xs.filter fun x => key x = some k).Perm
      (xs.filter fun x => (key x).any (· ∈ ks)) := by
  induction ks with
  | nil =>
      have hnone : (xs.filter fun x => (key x).any (· ∈ ([] : List κ))) = [] := by simp
      rw [hnone]
      rfl
  | cons k ks ih =>
      obtain ⟨hk, hks⟩ := List.nodup_cons.mp hnodup
      have hpart := List.filter_append_perm (fun x => decide (key x = some k))
        (xs.filter fun x => (key x).any (· ∈ k :: ks))
      rw [List.filter_filter, List.filter_filter] at hpart
      refine List.Perm.trans ?_ hpart
      rw [List.flatMap_cons]
      apply List.Perm.append
      · apply List.Perm.of_eq
        apply List.filter_congr
        intro x _
        cases key x <;> simp +contextual
      · apply (ih hks).trans
        apply List.Perm.of_eq
        apply List.filter_congr
        intro x _
        cases key x with
        | none => rfl
        | some k' =>
            by_cases heq : k' = k
            · simp [heq, hk]
            · simp [heq]

end PartialMap
