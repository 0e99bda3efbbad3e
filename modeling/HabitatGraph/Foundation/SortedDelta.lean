import HabitatGraph.Foundation.SortedList

/-! # Differences of sorted lists

A delta holds what one list has and an earlier one lacks, and the reverse.
Applied to the earlier list it gives the later one back, so a consumer that only
sees deltas follows a run of any length.
-/

namespace SortedDelta

variable {α : Type*} [LinearOrder α]

/-- The elements of `xs` that `ys` does not hold, in ascending order. -/
def sortedDiff (xs ys : List α) : List α :=
  (xs.filter fun x => x ∉ ys).insertionSort (· ≤ ·)

@[simp] theorem mem_sortedDiff {xs ys : List α} {x : α} :
    x ∈ sortedDiff xs ys ↔ x ∈ xs ∧ x ∉ ys := by
  rw [sortedDiff, List.mem_insertionSort, List.mem_filter, decide_eq_true_eq]

theorem sortedDiff_eq_nil_iff {xs ys : List α} : sortedDiff xs ys = [] ↔ xs ⊆ ys := by
  rw [List.eq_nil_iff_forall_not_mem]
  refine forall_congr' fun x => ?_
  rw [mem_sortedDiff, not_and, not_not]

/-- A difference of a list without repetition is strictly sorted. -/
theorem pairwise_sortedDiff {xs : List α} (hnodup : xs.Nodup) (ys : List α) :
    (sortedDiff xs ys).Pairwise (· < ·) :=
  SortedList.pairwise_insertionSort_of_nodup (hnodup.filter _)

theorem disjoint_sortedDiff (xs ys : List α) : (sortedDiff xs ys).Disjoint (sortedDiff ys xs) := by
  intro x hxs hys
  rw [mem_sortedDiff] at hxs hys
  exact hxs.2 hys.1

/-- Take out what was removed, put in what was added, and sort again. -/
def applyDelta (removed added xs : List α) : List α :=
  (xs.filter (fun x => x ∉ removed) ++ added).insertionSort (· ≤ ·)

/-- The two differences lead from one sorted list to the other. -/
theorem applyDelta_sortedDiff {before after : List α} (hbefore : before.Pairwise (· < ·))
    (hafter : after.Pairwise (· < ·)) :
    applyDelta (sortedDiff before after) (sortedDiff after before) before = after := by
  have hnodupBefore : before.Nodup := hbefore.imp ne_of_lt
  have hnodupAfter : after.Nodup := hafter.imp ne_of_lt
  have hadded : (sortedDiff after before).Nodup :=
    (pairwise_sortedDiff hnodupAfter before).imp ne_of_lt
  -- what stays was there before, what is added was not
  have hnodup :
      (before.filter (fun x => x ∉ sortedDiff before after) ++ sortedDiff after before).Nodup := by
    refine (hnodupBefore.filter _).append hadded ?_
    intro x hkept hadd
    exact (mem_sortedDiff.mp hadd).2 (List.mem_filter.mp hkept).1
  apply SortedList.eq_of_mem_iff (SortedList.pairwise_insertionSort_of_nodup hnodup) hafter
  intro x
  rw [List.mem_insertionSort, List.mem_append, List.mem_filter, decide_eq_true_eq,
    mem_sortedDiff, mem_sortedDiff]
  by_cases hx : x ∈ before
  · by_cases hx' : x ∈ after <;> simp [hx, hx']
  · simp [hx]

end SortedDelta
