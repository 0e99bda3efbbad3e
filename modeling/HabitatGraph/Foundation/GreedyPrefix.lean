import Mathlib.Algebra.BigOperators.Group.List.Basic
import Mathlib.Algebra.GroupWithZero.Nat
import Mathlib.Order.Bounds.Defs
import Mathlib.Order.Monotone.Defs
import Mathlib.Order.Nat

/-! # Greedy prefixes

Items are taken in order while the sum of their costs stays within a budget, and
the first one that does not fit ends it. Sums are capped, as those of machine
integers that saturate.
-/

namespace GreedyPrefix

variable {α : Type*} (cost : α → Nat) (cap budget : Nat)

/-- How many items fit when `used` is spent already. -/
def fitting (used : Nat) : List α → Nat
  | [] => 0
  | x :: xs =>
      if budget < min (used + cost x) cap then 0 else fitting (min (used + cost x) cap) xs + 1

variable {cost cap budget}

/-- An item is taken exactly when everything up to it fits. -/
theorem lt_fitting_iff {used k : Nat} {xs : List α} (hk : k < xs.length) :
    k < fitting cost cap budget used xs ↔
      min (used + ((xs.take (k + 1)).map cost).sum) cap ≤ budget := by
  induction xs generalizing used k with
  | nil => simp at hk
  | cons x xs ih =>
      rw [List.take_succ_cons, List.map_cons, List.sum_cons, fitting]
      split
      -- costs only add up: past the item that is over the budget nothing fits
      next hover => omega
      next hfits =>
        cases k with
        | zero =>
            rw [List.take_zero, List.map_nil, List.sum_nil]
            omega
        | succ k =>
            rw [Nat.add_lt_add_iff_right, ih (by simpa using hk)]
            omega

theorem fitting_le_length {used : Nat} {xs : List α} :
    fitting cost cap budget used xs ≤ xs.length := by
  induction xs generalizing used with
  | nil => exact Nat.le_refl 0
  | cons x xs ih =>
      rw [fitting, List.length_cons]
      split
      next => exact Nat.zero_le _
      next => exact Nat.succ_le_succ ih

/-- All of a prefix that is not longer than what is taken fits. -/
theorem sum_take_le_of_le_fitting {used n : Nat} {xs : List α} (hused : min used cap ≤ budget)
    (hn : n ≤ fitting cost cap budget used xs) :
    min (used + ((xs.take n).map cost).sum) cap ≤ budget := by
  cases n with
  | zero => simpa using hused
  | succ n =>
      have hlength : n < xs.length := Nat.lt_of_lt_of_le hn fitting_le_length
      exact (lt_fitting_iff hlength).mp hn

/-- What is taken ends where the next item does not fit. -/
theorem fitting_eq_iff {used n : Nat} {xs : List α} (hused : min used cap ≤ budget)
    (hn : n < xs.length) :
    fitting cost cap budget used xs = n ↔
      min (used + ((xs.take n).map cost).sum) cap ≤ budget ∧
        budget < min (used + ((xs.take (n + 1)).map cost).sum) cap := by
  rw [← Nat.not_le, ← lt_fitting_iff hn, Nat.not_lt]
  constructor
  · intro heq
    exact ⟨sum_take_le_of_le_fitting hused (Nat.le_of_eq heq.symm), Nat.le_of_eq heq⟩
  · intro ⟨hfits, hle⟩
    apply Nat.le_antisymm hle
    cases n with
    | zero => exact Nat.zero_le _
    | succ n => exact (lt_fitting_iff (Nat.lt_of_succ_lt hn)).mpr hfits

/-- How many items are taken is the greatest number of them all of whose prefixes fit. -/
theorem isGreatest_fitting {used : Nat} {xs : List α} :
    IsGreatest {n | n ≤ xs.length ∧ ∀ m, 0 < m → m ≤ n →
      min (used + ((xs.take m).map cost).sum) cap ≤ budget} (fitting cost cap budget used xs) := by
  constructor
  · refine ⟨fitting_le_length, fun m hpos hm => ?_⟩
    obtain ⟨k, rfl⟩ := Nat.exists_eq_add_of_lt hpos
    rw [Nat.zero_add] at hm ⊢
    exact (lt_fitting_iff (Nat.lt_of_lt_of_le hm fitting_le_length)).mp hm
  · intro n ⟨hlength, hfits⟩
    cases n with
    | zero => exact Nat.zero_le _
    | succ n => exact (lt_fitting_iff hlength).mpr (hfits (n + 1) (Nat.succ_pos n) (Nat.le_refl _))

/-- A larger budget takes no fewer items. -/
theorem fitting_mono {used : Nat} {xs : List α} :
    Monotone fun budget => fitting cost cap budget used xs := by
  intro smaller larger hle
  -- all prefixes that fit into the smaller budget fit into the larger one
  have hgreatest := @isGreatest_fitting α cost cap smaller used xs
  refine isGreatest_fitting.2 ⟨hgreatest.1.1, fun m hpos hm => ?_⟩
  exact (hgreatest.1.2 m hpos hm).trans hle

end GreedyPrefix
