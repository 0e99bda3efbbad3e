import Mathlib.Data.Nat.Init
import Mathlib.Order.WellFounded

/-! # Runs of labelled transitions

A run is an infinite sequence of states, each reached from the one before by an action.
What every step keeps is kept for ever, or until an action ends it. A move that is
possible for ever is taken at last, and moves that lower a rank come to an end.
-/

/-- A run from a state. -/
structure LabelledRun {S A : Type*} (Step : S → A → S → Prop) (start : S) where
  state : ℕ → S
  action : ℕ → A
  state_zero : state 0 = start
  step : ∀ i, Step (state i) (action i) (state (i + 1))

namespace LabelledRun

variable {S A : Type*} {Step : S → A → S → Prop} {start : S} (run : LabelledRun Step start)

/-- What every step keeps that is not of a kind is kept until one of the kind. -/
theorem kept_until {P : S → Prop} {Q : A → Prop} {i j : ℕ} (hij : i ≤ j)
    (hstep : ∀ k, i ≤ k → P (run.state k) → P (run.state (k + 1)) ∨ Q (run.action k))
    (hi : P (run.state i)) : P (run.state j) ∨ ∃ k, i ≤ k ∧ k < j ∧ Q (run.action k) := by
  induction j, hij using Nat.le_induction with
  | base => exact .inl hi
  | succ j hij ih =>
      rcases ih with hj | ⟨k, hik, hkj, hQ⟩
      · exact (hstep j hij hj).imp_right fun hQ => ⟨j, hij, Nat.lt_succ_self j, hQ⟩
      · exact .inr ⟨k, hik, Nat.lt_succ_of_lt hkj, hQ⟩

theorem kept {P : S → Prop} {i j : ℕ} (hij : i ≤ j)
    (hstep : ∀ k, i ≤ k → P (run.state k) → P (run.state (k + 1)))
    (hi : P (run.state i)) : P (run.state j) := by
  induction j, hij using Nat.le_induction with
  | base => exact hi
  | succ j hij ih => exact hstep j hij ih

/-- A rank that is not raised any more stops changing. -/
theorem rank_settles (rank : S → ℕ) {n : ℕ}
    (hrank : ∀ i ≥ n, rank (run.state (i + 1)) ≤ rank (run.state i)) :
    ∃ m ≥ n, ∀ i ≥ m, rank (run.state i) = rank (run.state m) := by
  -- the least rank that is reached from there on is not left again
  obtain ⟨r, ⟨m, hnm, rfl⟩, hleast⟩ := Nat.lt_wfRel.wf.has_min
    {r | ∃ m ≥ n, rank (run.state m) = r} ⟨_, n, Nat.le_refl n, rfl⟩
  refine ⟨m, hnm, fun i hi => Nat.le_antisymm ?_ ?_⟩
  · exact run.kept (P := fun s => rank s ≤ rank (run.state m)) hi
      (fun k hk hle => Nat.le_trans (hrank k (Nat.le_trans hnm hk)) hle) (Nat.le_refl _)
  · exact Nat.not_lt.mp (hleast _ ⟨i, Nat.le_trans hnm hi, rfl⟩)

section Fairness

variable (enabled : S → Prop) (Move : S → A → S → Prop)

/-- No move is possible for ever without being taken. -/
def WeaklyFair : Prop :=
  ∀ i, ∃ j ≥ i, Move (run.state j) (run.action j) (run.state (j + 1)) ∨ ¬ enabled (run.state j)

variable {enabled Move}

/-- Moves that lower a rank, which nothing raises, come to an end, and again and again
none is possible. -/
theorem moves_end (hfair : run.WeaklyFair enabled Move) (rank : S → ℕ) {n : ℕ}
    (hrank : ∀ i ≥ n, rank (run.state (i + 1)) ≤ rank (run.state i))
    (hmove : ∀ s a s', Move s a s' → rank s' < rank s) :
    ∃ m ≥ n, (∀ i ≥ m, ¬ Move (run.state i) (run.action i) (run.state (i + 1))) ∧
      ∀ i, ∃ j ≥ i, ¬ enabled (run.state j) := by
  obtain ⟨m, hnm, hconstant⟩ := run.rank_settles rank hrank
  have hnone : ∀ i ≥ m, ¬ Move (run.state i) (run.action i) (run.state (i + 1)) := by
    intro i hi hmoves
    have hlt := hmove _ _ _ hmoves
    rw [hconstant i hi, hconstant (i + 1) (Nat.le_succ_of_le hi)] at hlt
    exact Nat.lt_irrefl _ hlt
  refine ⟨m, hnm, hnone, fun i => ?_⟩
  obtain ⟨j, hj, hmoves | hdisabled⟩ := hfair (max i m)
  · exact absurd hmoves (hnone j (Nat.le_trans (Nat.le_max_right i m) hj))
  · exact ⟨j, Nat.le_trans (Nat.le_max_left i m) hj, hdisabled⟩

end Fairness

/-! ## Runs by choice -/

section Choices

variable {C : Type*} (next : S → C → A × S)

def stateAfter (start : S) (choice : ℕ → C) : ℕ → S
  | 0 => start
  | i + 1 => (next (stateAfter start choice i) (choice i)).2

/-- The run of a system that follows choices. -/
def ofChoices (hnext : ∀ s c, Step s (next s c).1 (next s c).2) (start : S) (choice : ℕ → C) :
    LabelledRun Step start where
  state := stateAfter next start choice
  action i := (next (stateAfter next start choice i) (choice i)).1
  state_zero := rfl
  step _ := hnext _ _

end Choices

end LabelledRun
