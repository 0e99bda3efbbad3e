import Mathlib.Algebra.BigOperators.Group.List.Basic
import Mathlib.Algebra.GroupWithZero.Nat
import Mathlib.Data.List.Nodup

/-! # Tallies

A tally counts something for each of its keys. Its entries have distinct keys, so
each is determined by its key and what has been added there, in whatever order a
hash map walks them.
-/

namespace Tally

/-- An order a hash map is walked in: it lists the entries, in any order. -/
structure WalkOrder (α : Type*) where
  walk : List α → List α
  perm : ∀ entries, (walk entries).Perm entries

/-- The entries as they came in, backwards. -/
def WalkOrder.reversed (α : Type*) : WalkOrder α := ⟨List.reverse, List.reverse_perm⟩

variable {κ : Type*} [DecidableEq κ]

/-- Add `n` at a key, which enters with `n` when it is new. -/
def addTo (k : κ) (n : Nat) : List (κ × Nat) → List (κ × Nat)
  | [] => [(k, n)]
  | (k', c) :: counts => if k' = k then (k', c + n) :: counts else (k', c) :: addTo k n counts

/-- What a key counts; nothing when it has no entry. -/
def countOf (counts : List (κ × Nat)) (k : κ) : Nat :=
  ((counts.filter fun entry => entry.1 = k).map Prod.snd).sum

@[simp] theorem countOf_nil (k : κ) : countOf [] k = 0 := rfl

theorem countOf_cons (entry : κ × Nat) (counts : List (κ × Nat)) (k : κ) :
    countOf (entry :: counts) k = (if entry.1 = k then entry.2 else 0) + countOf counts k := by
  unfold countOf
  rw [List.filter_cons]
  by_cases hkey : entry.1 = k
  · simp [hkey]
  · simp [hkey]

theorem countOf_addTo (k : κ) (n : Nat) (counts : List (κ × Nat)) (j : κ) :
    countOf (addTo k n counts) j = countOf counts j + if k = j then n else 0 := by
  induction counts with
  | nil => simp [addTo, countOf_cons]
  | cons entry counts ih =>
      obtain ⟨k', c⟩ := entry
      rw [addTo]
      split
      next heq =>
        subst heq
        rw [countOf_cons, countOf_cons]
        split <;> omega
      next => rw [countOf_cons, countOf_cons, ih, Nat.add_assoc]

theorem mem_keys_addTo {k : κ} {n : Nat} {counts : List (κ × Nat)} {j : κ} :
    j ∈ (addTo k n counts).map Prod.fst ↔ j ∈ counts.map Prod.fst ∨ j = k := by
  induction counts with
  | nil => simp [addTo]
  | cons entry counts ih =>
      obtain ⟨k', c⟩ := entry
      rw [addTo]
      split
      next heq =>
        subst heq
        simp only [List.map_cons, List.mem_cons]
        tauto
      next =>
        rw [List.map_cons, List.map_cons, List.mem_cons, List.mem_cons, ih, or_assoc]

theorem nodup_keys_addTo {k : κ} {n : Nat} {counts : List (κ × Nat)}
    (hnodup : (counts.map Prod.fst).Nodup) : ((addTo k n counts).map Prod.fst).Nodup := by
  induction counts with
  | nil => simp [addTo]
  | cons entry counts ih =>
      obtain ⟨k', c⟩ := entry
      rw [List.map_cons, List.nodup_cons] at hnodup
      obtain ⟨hfresh, hrest⟩ := hnodup
      rw [addTo]
      split
      next => exact List.nodup_cons.mpr ⟨hfresh, hrest⟩
      next hne =>
        rw [List.map_cons, List.nodup_cons, mem_keys_addTo, not_or]
        exact ⟨⟨hfresh, hne⟩, ih hrest⟩

theorem sum_addTo (k : κ) (n : Nat) (counts : List (κ × Nat)) :
    ((addTo k n counts).map Prod.snd).sum = (counts.map Prod.snd).sum + n := by
  induction counts with
  | nil => simp [addTo]
  | cons entry counts ih =>
      obtain ⟨k', c⟩ := entry
      rw [addTo]
      split
      next =>
        simp only [List.map_cons, List.sum_cons]
        omega
      next =>
        rw [List.map_cons, List.map_cons, List.sum_cons, List.sum_cons, ih, Nat.add_assoc]

theorem countOf_eq_zero {counts : List (κ × Nat)} {k : κ} (hk : k ∉ counts.map Prod.fst) :
    countOf counts k = 0 := by
  have hnone : (counts.filter fun entry => entry.1 = k) = [] := by
    rw [List.filter_eq_nil_iff]
    intro entry hentry hkey
    exact hk (List.mem_map.mpr ⟨entry, hentry, of_decide_eq_true hkey⟩)
  rw [countOf, hnone]
  rfl

/-- An entry is a key with what it counts. -/
theorem mem_iff_countOf {counts : List (κ × Nat)} (hnodup : (counts.map Prod.fst).Nodup)
    {k : κ} {c : Nat} : (k, c) ∈ counts ↔ k ∈ counts.map Prod.fst ∧ c = countOf counts k := by
  induction counts with
  | nil => simp
  | cons entry counts ih =>
      rw [List.map_cons, List.nodup_cons] at hnodup
      obtain ⟨hfresh, hrest⟩ := hnodup
      rw [List.mem_cons, ih hrest, List.map_cons, List.mem_cons, countOf_cons]
      by_cases hkey : entry.1 = k
      · subst hkey
        rw [if_pos rfl, countOf_eq_zero hfresh, Prod.ext_iff]
        simp [hfresh]
      · rw [if_neg hkey, Nat.zero_add, Prod.ext_iff]
        simp [Ne.symm hkey]

end Tally
