import HabitatGraph.Foundation.SortedDelta
import Mathlib.Algebra.Group.Nat.Even

/-! # Replay of deltas that may be lost

A follower keeps a list by the deltas of another, of which some do not arrive. An element
comes and goes by turns, and a delta that arrives and changes it sets it right, whatever
the follower had before. Each change that is lost after that turns the follower's belief
about the element from right to wrong or back.
-/

namespace LossyReplay

open SortedDelta

variable {α : Type*} [LinearOrder α]

/-- The next list, and whether the delta to it arrives. -/
structure Notice (α : Type*) where
  next : List α
  arrived : Bool

/-- What the follower has, and what is the case. -/
structure View (α : Type*) where
  belief : List α
  actual : List α

/-- A delta from the actual list to the next is applied to what the follower has, if it
arrives. -/
def View.update (view : View α) (u : Notice α) : View α where
  belief :=
    if u.arrived then
      applyDelta (sortedDiff view.actual u.next) (sortedDiff u.next view.actual) view.belief
    else view.belief
  actual := u.next

def View.after (view : View α) (updates : List (Notice α)) : View α :=
  updates.foldl View.update view

/-- The follower is right about an element. -/
def View.Agrees (view : View α) (a : α) : Prop := a ∈ view.belief ↔ a ∈ view.actual

instance (view : View α) (a : α) : Decidable (view.Agrees a) :=
  inferInstanceAs (Decidable (_ ↔ _))

/-- Which of the deltas that change an element arrive. -/
def changes (a : α) : List α → List (Notice α) → List Bool
  | _, [] => []
  | actual, u :: updates =>
      if actual.contains a = u.next.contains a then changes a u.next updates
      else u.arrived :: changes a u.next updates

theorem contains_eq_iff {a : α} {xs ys : List α} :
    xs.contains a = ys.contains a ↔ (a ∈ xs ↔ a ∈ ys) := by
  rw [Bool.eq_iff_iff, List.contains_iff_mem, List.contains_iff_mem]

theorem mem_applyDelta {removed added xs : List α} {a : α} :
    a ∈ applyDelta removed added xs ↔ a ∈ xs ∧ a ∉ removed ∨ a ∈ added := by
  rw [applyDelta, List.mem_insertionSort, List.mem_append, List.mem_filter, decide_eq_true_eq]

/-- An element that an update does not change is believed as before, one that it changes is
believed as it is now if the delta arrives. -/
theorem agrees_update (view : View α) (u : Notice α) (a : α) :
    (view.update u).Agrees a ↔
      if a ∈ view.actual ↔ a ∈ u.next then view.Agrees a
      else u.arrived = true ∨ ¬ view.Agrees a := by
  unfold View.Agrees View.update
  by_cases harrived : u.arrived = true
  · simp only [harrived, ↓reduceIte, mem_applyDelta, mem_sortedDiff, true_or]
    by_cases hbelief : a ∈ view.belief <;> by_cases hactual : a ∈ view.actual <;>
      by_cases hnext : a ∈ u.next <;> simp [hbelief, hactual, hnext]
  · simp only [harrived]
    by_cases hbelief : a ∈ view.belief <;> by_cases hactual : a ∈ view.actual <;>
      by_cases hnext : a ∈ u.next <;> simp [hbelief, hactual, hnext]

/-- Whether the follower is right after changes that arrived or did not. -/
def settle (right : Bool) (arrivals : List Bool) : Bool :=
  arrivals.foldl (fun right arrived => arrived || !right) right

theorem agrees_after (view : View α) (updates : List (Notice α)) (a : α) :
    (view.after updates).Agrees a ↔
      settle (decide (view.Agrees a)) (changes a view.actual updates) = true := by
  induction updates generalizing view with
  | nil => exact decide_eq_true_iff.symm
  | cons u updates ih =>
      have hstep := agrees_update view u a
      have hnext : (view.after (u :: updates)).Agrees a ↔
          settle (decide ((view.update u).Agrees a)) (changes a u.next updates) = true :=
        ih (view.update u)
      rw [hnext, changes]
      split at hstep
      next hsame => rw [if_pos (contains_eq_iff.mpr hsame), decide_eq_decide.mpr hstep]
      next hchanged =>
        rw [if_neg fun hsame => hchanged (contains_eq_iff.mp hsame), settle, settle,
          List.foldl_cons]
        have hright : decide ((view.update u).Agrees a) =
            (u.arrived || !decide (view.Agrees a)) := by
          rw [Bool.eq_iff_iff, decide_eq_true_iff, hstep]
          simp
        rw [hright]

theorem settle_replicate_false (right : Bool) (k : ℕ) :
    settle right (List.replicate k false) = (right == decide (Even k)) := by
  induction k generalizing right with
  | zero => cases right <;> rfl
  | succ k ih =>
      rw [List.replicate_succ, settle, List.foldl_cons, ← settle, ih]
      by_cases heven : Even k <;> cases right <;> simp [Nat.even_add_one, heven]

theorem settle_append (right : Bool) (arrivals : List Bool) (k : ℕ) :
    settle right (arrivals ++ true :: List.replicate k false) = decide (Even k) := by
  rw [settle, List.foldl_append, List.foldl_cons, Bool.true_or, ← settle, settle_replicate_false]
  simp

/-- Once a change of an element has arrived, the follower is right about it exactly when
the changes that were lost since then are even in number. -/
theorem agrees_iff_even {view : View α} {updates : List (Notice α)} {a : α}
    {arrivals : List Bool} {k : ℕ}
    (hchanges : changes a view.actual updates = arrivals ++ true :: List.replicate k false) :
    (view.after updates).Agrees a ↔ Even k := by
  rw [agrees_after, hchanges, settle_append, decide_eq_true_iff]

/-- As long as none has arrived, it is right exactly when it was right to begin with and they
are even in number, or wrong and they are odd. -/
theorem agrees_iff_of_lost {view : View α} {updates : List (Notice α)} {a : α} {k : ℕ}
    (hchanges : changes a view.actual updates = List.replicate k false) :
    (view.after updates).Agrees a ↔ (view.Agrees a ↔ Even k) := by
  rw [agrees_after, hchanges, settle_replicate_false, beq_iff_eq, decide_eq_decide]

/-- A follower that gets every delta keeps up, list for list. -/
theorem belief_after {view : View α} {updates : List (Notice α)}
    (hview : view.belief = view.actual) (hactual : view.actual.Pairwise (· < ·))
    (hupdates : ∀ u ∈ updates, u.arrived = true ∧ u.next.Pairwise (· < ·)) :
    (view.after updates).belief = (view.after updates).actual := by
  induction updates generalizing view with
  | nil => exact hview
  | cons u updates ih =>
      obtain ⟨⟨harrived, hsorted⟩, hrest⟩ := List.forall_mem_cons.mp hupdates
      refine @ih (view.update u) ?_ hsorted hrest
      rw [View.update, harrived, hview]
      exact applyDelta_sortedDiff hactual hsorted

end LossyReplay
