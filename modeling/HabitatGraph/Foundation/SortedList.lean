import Mathlib.Data.List.Destutter
import Mathlib.Data.List.Sort
import Mathlib.Order.Compare

/-! # Strictly sorted lists as sets

Sorting a list and dropping neighbours that are equal leaves the strictly sorted
list of its members. Such lists are equal when they have the same members, and
two of them are intersected by one merging pass.
-/

namespace SortedList

variable {α : Type*} [LinearOrder α]

/-- Sort, then drop every element that equals the one before it. -/
def sortDedup (xs : List α) : List α := (xs.insertionSort (· ≤ ·)).destutter (· ≠ ·)

theorem mem_destutter' (x a : α) (xs : List α) :
    x ∈ xs.destutter' (· ≠ ·) a ↔ x = a ∨ x ∈ xs := by
  induction xs generalizing a with
  | nil => simp
  | cons b xs ih =>
      rw [List.destutter'_cons]
      split
      next => rw [List.mem_cons, ih, List.mem_cons]
      next heq =>
        rw [not_not] at heq
        rw [ih, List.mem_cons, heq, or_self_left]

@[simp] theorem mem_sortDedup {x : α} {xs : List α} : x ∈ sortDedup xs ↔ x ∈ xs := by
  rw [← List.mem_insertionSort (· ≤ ·) (l := xs), sortDedup]
  cases xs.insertionSort (· ≤ ·) with
  | nil => simp
  | cons a sorted => rw [List.destutter_cons', mem_destutter', List.mem_cons]

/-- What is left is strictly sorted. -/
theorem pairwise_sortDedup (xs : List α) : (sortDedup xs).Pairwise (· < ·) := by
  have hle : (sortDedup xs).Pairwise (· ≤ ·) :=
    (List.pairwise_insertionSort (· ≤ ·) xs).sublist (List.destutter_sublist _ _)
  have hne : (sortDedup xs).IsChain (· ≠ ·) := List.isChain_destutter _ _
  rw [← List.isChain_iff_pairwise] at hle ⊢
  generalize sortDedup xs = ys at hle hne
  induction hle with
  | nil => exact List.IsChain.nil
  | singleton a => exact List.IsChain.singleton a
  | cons_cons hab hle ih =>
      rw [List.isChain_cons_cons] at hne ⊢
      exact ⟨lt_of_le_of_ne hab hne.1, ih hne.2⟩

/-- Sorting a list without repetition leaves it strictly sorted. -/
theorem pairwise_insertionSort_of_nodup {xs : List α} (hnodup : xs.Nodup) :
    (xs.insertionSort (· ≤ ·)).Pairwise (· < ·) := by
  have hsorted := List.pairwise_insertionSort (· ≤ ·) xs
  have hdistinct := (List.perm_insertionSort (· ≤ ·) xs).nodup_iff.mpr hnodup
  exact hsorted.imp₂ (fun _ _ hle hne => lt_of_le_of_ne hle hne) hdistinct

/-- Strictly sorted lists are determined by their members. -/
theorem eq_of_mem_iff {xs ys : List α} (hxs : xs.Pairwise (· < ·)) (hys : ys.Pairwise (· < ·))
    (hmem : ∀ x, x ∈ xs ↔ x ∈ ys) : xs = ys := by
  have hperm : xs.Perm ys :=
    (List.perm_ext_iff_of_nodup (hxs.imp ne_of_lt) (hys.imp ne_of_lt)).mpr hmem
  exact hperm.eq_of_pairwise (fun _ _ _ _ hab hba => absurd hab (not_lt_of_gt hba)) hxs hys

/-- Walk two sorted lists at once and keep what both hold. -/
def intersectSorted : List α → List α → List α
  | a :: as, b :: bs =>
      match _hcmp : cmp a b with
      | .eq => a :: intersectSorted as bs
      | .lt => intersectSorted as (b :: bs)
      | .gt => intersectSorted (a :: as) bs
  | [], _ => []
  | _ :: _, [] => []
termination_by xs ys => xs.length + ys.length

theorem intersectSorted_sublist (xs ys : List α) : (intersectSorted xs ys).Sublist xs := by
  fun_induction intersectSorted xs ys with
  | case1 a as b bs _ ih => exact ih.cons_cons a
  | case2 a as b bs _ ih => exact ih.cons a
  | case3 a as b bs _ ih => exact ih
  | case4 => exact List.nil_sublist _
  | case5 => exact List.nil_sublist _

theorem mem_intersectSorted {xs ys : List α} (hxs : xs.Pairwise (· < ·))
    (hys : ys.Pairwise (· < ·)) {x : α} : x ∈ intersectSorted xs ys ↔ x ∈ xs ∧ x ∈ ys := by
  fun_induction intersectSorted xs ys with
  | case1 a as b bs hcmp ih =>
      have heq := cmp_eq_eq_iff a b |>.mp hcmp
      subst heq
      rw [List.pairwise_cons] at hxs hys
      rw [List.mem_cons, ih hxs.2 hys.2, List.mem_cons, List.mem_cons, ← or_and_left]
  | case2 a as b bs hcmp ih =>
      -- the smaller head is below all of the other list
      have hlt := cmp_eq_lt_iff a b |>.mp hcmp
      rw [List.pairwise_cons] at hxs
      have hnot : a ∉ b :: bs := by
        intro hmem
        rcases List.mem_cons.mp hmem with heq | hmem
        · exact absurd heq (ne_of_lt hlt)
        · exact absurd (List.rel_of_pairwise_cons hys hmem) (not_lt_of_gt hlt)
      rw [ih hxs.2 hys]
      constructor
      · exact fun h => ⟨List.mem_cons_of_mem a h.1, h.2⟩
      · intro h
        refine ⟨(List.mem_cons.mp h.1).resolve_left ?_, h.2⟩
        exact fun heq => hnot (heq ▸ h.2)
  | case3 a as b bs hcmp ih =>
      have hlt := cmp_eq_gt_iff a b |>.mp hcmp
      rw [List.pairwise_cons] at hys
      have hnot : b ∉ a :: as := by
        intro hmem
        rcases List.mem_cons.mp hmem with heq | hmem
        · exact absurd heq (ne_of_lt hlt)
        · exact absurd (List.rel_of_pairwise_cons hxs hmem) (not_lt_of_gt hlt)
      rw [ih hxs hys.2]
      constructor
      · exact fun h => ⟨h.1, List.mem_cons_of_mem b h.2⟩
      · intro h
        refine ⟨h.1, (List.mem_cons.mp h.2).resolve_left ?_⟩
        exact fun heq => hnot (heq ▸ h.1)
  | case4 => simp
  | case5 => simp

theorem pairwise_intersectSorted {xs ys : List α} (hxs : xs.Pairwise (· < ·)) :
    (intersectSorted xs ys).Pairwise (· < ·) :=
  hxs.sublist (intersectSorted_sublist xs ys)

end SortedList
