import Mathlib.Data.Bool.AllAny
import Mathlib.Data.List.Basic

/-! # Readers of characters

A reader takes a text one character at a time. Its step gives the outputs a character
completes and the state after it, or nothing where the text is refused; what a text gives
follows from what its parts give.
-/

/-- The outputs a character completes and the state after it. -/
abbrev Scanner (σ ω : Type*) := σ → Char → Option (List ω × σ)

namespace Scanner

variable {σ ω : Type*} (scanner : Scanner σ ω)

/-- Read a text: the outputs it completes and the state at its end. -/
def run : σ → List Char → Option (List ω × σ)
  | state, [] => some ([], state)
  | state, ch :: chars =>
      (scanner state ch).bind fun next =>
        (run next.2 chars).map fun last => (next.1 ++ last.1, last.2)

/-- From one state a text leads to some outputs and another state. -/
def Reads (state : σ) (chars : List Char) (outputs : List ω) (state' : σ) : Prop :=
  scanner.run state chars = some (outputs, state')

instance [DecidableEq σ] [DecidableEq ω] (state : σ) (chars : List Char) (outputs : List ω)
    (state' : σ) : Decidable (scanner.Reads state chars outputs state') :=
  inferInstanceAs (Decidable (_ = some (outputs, state')))

variable {scanner} {state state' state'' : σ} {chars chars' : List Char}
  {outputs outputs' : List ω}

theorem Reads.nil (state : σ) : scanner.Reads state [] [] state := rfl

theorem Reads.cons {ch : Char} (hstep : scanner state ch = some (outputs, state'))
    (hrest : scanner.Reads state' chars outputs' state'') :
    scanner.Reads state (ch :: chars) (outputs ++ outputs') state'' := by
  rw [Reads, run, hstep, Option.bind_some, hrest]
  rfl

/-- A character that completes nothing. -/
theorem Reads.skip {ch : Char} (hstep : scanner state ch = some ([], state'))
    (hrest : scanner.Reads state' chars outputs state'') :
    scanner.Reads state (ch :: chars) outputs state'' :=
  Reads.cons hstep hrest

theorem Reads.single {ch : Char} (hstep : scanner state ch = some (outputs, state')) :
    scanner.Reads state [ch] outputs state' := by
  rw [← List.append_nil outputs]
  exact Reads.cons hstep (Reads.nil state')

theorem reads_cons_iff {ch : Char} :
    scanner.Reads state (ch :: chars) outputs state' ↔
      ∃ first next rest, scanner state ch = some (first, next) ∧
        scanner.Reads next chars rest state' ∧ outputs = first ++ rest := by
  constructor
  · intro h
    rw [Reads, run, Option.bind_eq_some_iff] at h
    obtain ⟨⟨first, next⟩, hstep, hlast⟩ := h
    obtain ⟨⟨rest, last⟩, hrest, heq⟩ := Option.map_eq_some_iff.mp hlast
    obtain ⟨rfl, rfl⟩ := Prod.mk.inj heq
    exact ⟨first, next, rest, hstep, hrest, rfl⟩
  · intro ⟨first, next, rest, hstep, hrest, houtputs⟩
    rw [houtputs]
    exact Reads.cons hstep hrest

theorem Reads.append (hfirst : scanner.Reads state chars outputs state')
    (hsecond : scanner.Reads state' chars' outputs' state'') :
    scanner.Reads state (chars ++ chars') (outputs ++ outputs') state'' := by
  induction chars generalizing state outputs with
  | nil =>
      cases hfirst
      exact hsecond
  | cons ch chars ih =>
      obtain ⟨first, next, rest, hstep, hrest, rfl⟩ := reads_cons_iff.mp hfirst
      rw [List.append_assoc]
      exact Reads.cons hstep (ih hrest)

/-- A text that completes nothing. -/
theorem Reads.skip_append (hfirst : scanner.Reads state chars [] state')
    (hsecond : scanner.Reads state' chars' outputs state'') :
    scanner.Reads state (chars ++ chars') outputs state'' :=
  hfirst.append hsecond

/-- A text has one outcome. -/
theorem Reads.unique (h : scanner.Reads state chars outputs state')
    (h' : scanner.Reads state chars outputs' state'') : outputs = outputs' ∧ state' = state'' :=
  Prod.mk.inj (Option.some.inj (h.symm.trans h'))

/-- Parts that each lead back to the state they start from. -/
theorem reads_flatMap {ι : Type*} {text : ι → List Char} {part : ι → List ω} {xs : List ι}
    (hreads : ∀ x ∈ xs, scanner.Reads state (text x) (part x) state) :
    scanner.Reads state (xs.flatMap text) (xs.flatMap part) state := by
  induction xs with
  | nil => exact Reads.nil state
  | cons x xs ih =>
      obtain ⟨hx, hxs⟩ := List.forall_mem_cons.mp hreads
      rw [List.flatMap_cons, List.flatMap_cons]
      exact hx.append (ih hxs)

/-- Parts that each add to what the state has collected. -/
theorem reads_collect {ι α : Type*} {text : ι → List Char} {part : ι → List α}
    {collected : List α → σ} {xs : List ι}
    (hreads : ∀ x ∈ xs, ∀ acc,
      scanner.Reads (collected acc) (text x) [] (collected (acc ++ part x)))
    (acc : List α) :
    scanner.Reads (collected acc) (xs.flatMap text) []
      (collected (acc ++ xs.flatMap part)) := by
  induction xs generalizing acc with
  | nil =>
      rw [List.flatMap_nil, List.flatMap_nil, List.append_nil]
      exact Reads.nil _
  | cons x xs ih =>
      obtain ⟨hx, hxs⟩ := List.forall_mem_cons.mp hreads
      rw [List.flatMap_cons, List.flatMap_cons, ← List.append_assoc]
      exact (hx acc).append (ih hxs _)

end Scanner
