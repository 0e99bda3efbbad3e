import Mathlib.Data.List.Basic

/-! # Matching the beginning of a text

A matcher reads a text one character at a time until it has a match or cannot have one. A
text may also end before either; then what follows it decides.
-/

/-- What a matcher makes of a character. -/
inductive Verdict (σ α : Type*)
  | more (state : σ)
  | matched (value : α)
  | failed

/-- The outcome of a matcher on a text: a match with its length, none, or that the text is
too short to tell. -/
inductive PrefixMatch (α : Type*)
  | matched (length : Nat) (value : α)
  | failed
  | unended
deriving DecidableEq, Repr

namespace PrefixMatch

variable {σ α : Type*}

/-- One more character before the match. -/
def next : PrefixMatch α → PrefixMatch α
  | .matched length value => .matched (length + 1) value
  | .failed => .failed
  | .unended => .unended

/-- The match, if there is one. -/
def get? : PrefixMatch α → Option (Nat × α)
  | .matched length value => some (length, value)
  | _ => none

def ofVerdict (rest : σ → PrefixMatch α) : Verdict σ α → PrefixMatch α
  | .more state => (rest state).next
  | .matched value => .matched 1 value
  | .failed => .failed

/-- Match a beginning of a text from a state. -/
def run (step : σ → Char → Verdict σ α) : σ → List Char → PrefixMatch α
  | _, [] => .unended
  | state, ch :: chars => ofVerdict (fun state' => run step state' chars) (step state ch)

variable {step : σ → Char → Verdict σ α} {state : σ} {chars after : List Char}

theorem next_eq_unended_iff {m : PrefixMatch α} : m.next = .unended ↔ m = .unended := by
  cases m <;> simp [next]

theorem get?_next (m : PrefixMatch α) :
    m.next.get? = m.get?.map fun found => (found.1 + 1, found.2) := by
  cases m <;> rfl

/-- A text that decides the match decides it whatever follows. -/
theorem run_append (h : run step state chars ≠ .unended) (after : List Char) :
    run step state (chars ++ after) = run step state chars := by
  induction chars generalizing state with
  | nil => exact absurd rfl h
  | cons ch chars ih =>
      rw [List.cons_append, run, run]
      rw [run] at h
      cases hstep : step state ch with
      | more state' =>
          rw [hstep, ofVerdict, ne_eq, next_eq_unended_iff] at h
          rw [ofVerdict, ofVerdict, ih h]
      | matched value => rfl
      | failed => rfl

/-- A text without the characters that can end a match adds none. -/
theorem get?_run_of_notMem {last : Char}
    (hlast : ∀ state ch value, step state ch = .matched value → ch = last)
    (hchars : last ∉ chars) : (run step state chars).get? = none := by
  induction chars generalizing state with
  | nil => rfl
  | cons ch chars ih =>
      rw [List.mem_cons, not_or] at hchars
      rw [run]
      cases hstep : step state ch with
      | more state' => rw [ofVerdict, get?_next, ih hchars.2, Option.map_none]
      | matched value => exact absurd (hlast state ch value hstep).symm hchars.1
      | failed => rfl

theorem get?_run_append_of_notMem {last : Char}
    (hlast : ∀ state ch value, step state ch = .matched value → ch = last)
    (hafter : last ∉ after) (state : σ) (chars : List Char) :
    (run step state (chars ++ after)).get? = (run step state chars).get? := by
  induction chars generalizing state with
  | nil => exact get?_run_of_notMem hlast hafter
  | cons ch chars ih =>
      rw [List.cons_append, run, run]
      cases step state ch with
      | more state' => rw [ofVerdict, ofVerdict, get?_next, get?_next, ih]
      | matched value => rfl
      | failed => rfl

end PrefixMatch
