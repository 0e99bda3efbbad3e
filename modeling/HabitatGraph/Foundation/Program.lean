import Mathlib.Data.List.Induction

/-! # Programs that call their environment

A program returns, fails, never ends, or calls an operation and goes on with
the answer. Its traces list the calls together with their answers, for all
answers the environment may give; what the environment does give is a separate
matter of steps between its states. A run of a program is a trace of it whose
events are steps.
-/

/-- A program over operations `Op`, answered in `Ans`, failing with `ε`. -/
inductive Program (Op : Type) (Ans : Op → Type) (ε α : Type)
  | pure (a : α)
  | fail (e : ε)
  | diverge
  | call (op : Op) (next : Ans op → Program Op Ans ε α)

namespace Program

variable {Op : Type} {Ans : Op → Type} {ε α β : Type}

/-- Go on with the result; a failure or divergence stays. -/
def bind : Program Op Ans ε α → (α → Program Op Ans ε β) → Program Op Ans ε β
  | .pure a, f => f a
  | .fail e, _ => .fail e
  | .diverge, _ => .diverge
  | .call op next, f => .call op fun ans => (next ans).bind f

instance : Monad (Program Op Ans ε) where
  pure := Program.pure
  bind := Program.bind

/-- Call an operation that may answer with an error, and fail with that error. -/
def request (op : Op) (answer : Ans op → Except ε α) : Program Op Ans ε α :=
  .call op fun ans =>
    match answer ans with
    | .ok a => .pure a
    | .error e => .fail e

/-- The outcome of a computation that may fail. -/
def ofExcept : Except ε α → Program Op Ans ε α
  | .ok a => .pure a
  | .error e => .fail e

/-- The outcome of a computation that may never end. -/
def ofOption : Option α → Program Op Ans ε α
  | some a => .pure a
  | none => .diverge

/-- Run the programs of all elements in order and collect the results. -/
def mapAll (f : α → Program Op Ans ε β) : List α → Program Op Ans ε (List β)
  | [] => .pure []
  | x :: xs => do
      let y ← f x
      let ys ← mapAll f xs
      pure (y :: ys)

/-! ## Traces -/

/-- A call with its answer. -/
abbrev Event (Ans : Op → Type) := Sigma Ans

/-- The calls and answers of a program that ends, and how it ends. -/
inductive Traces : Program Op Ans ε α → List (Event Ans) → Except ε α → Prop
  | pure (a : α) : Traces (.pure a) [] (.ok a)
  | fail (e : ε) : Traces (.fail e) [] (.error e)
  | call {op : Op} {next : Ans op → Program Op Ans ε α} {ans : Ans op} {trace : List (Event Ans)}
      {result : Except ε α} (rest : Traces (next ans) trace result) :
      Traces (.call op next) (⟨op, ans⟩ :: trace) result

variable {trace : List (Event Ans)} {result : Except ε α}

theorem traces_pure_iff {a : α} :
    Traces (.pure a : Program Op Ans ε α) trace result ↔ trace = [] ∧ result = .ok a := by
  constructor
  · intro h
    cases h
    exact ⟨rfl, rfl⟩
  · rintro ⟨rfl, rfl⟩
    exact Traces.pure a

theorem traces_fail_iff {e : ε} :
    Traces (.fail e : Program Op Ans ε α) trace result ↔ trace = [] ∧ result = .error e := by
  constructor
  · intro h
    cases h
    exact ⟨rfl, rfl⟩
  · rintro ⟨rfl, rfl⟩
    exact Traces.fail e

theorem not_traces_diverge : ¬ Traces (.diverge : Program Op Ans ε α) trace result := nofun

theorem traces_call_iff {op : Op} {next : Ans op → Program Op Ans ε α} :
    Traces (.call op next) trace result ↔
      ∃ ans rest, trace = ⟨op, ans⟩ :: rest ∧ Traces (next ans) rest result := by
  constructor
  · intro h
    cases h with
    | call rest => exact ⟨_, _, rfl, rest⟩
  · rintro ⟨ans, rest, rfl, h⟩
    exact Traces.call h

/-- A bind that returns splits its trace where the first program returned. -/
theorem traces_bind_ok_iff {p : Program Op Ans ε α} {f : α → Program Op Ans ε β} {b : β} :
    Traces (p >>= f) trace (.ok b) ↔ ∃ a before after, trace = before ++ after ∧
      Traces p before (.ok a) ∧ Traces (f a) after (.ok b) := by
  induction p generalizing trace with
  | pure a =>
      constructor
      · intro h
        exact ⟨a, [], trace, rfl, Traces.pure a, h⟩
      · rintro ⟨a', before, after, rfl, hp, hf⟩
        obtain ⟨rfl, hok⟩ := traces_pure_iff.mp hp
        cases hok
        exact hf
  | fail e =>
      constructor
      · intro h
        cases (traces_fail_iff.mp h).2
      · rintro ⟨a, before, after, -, hp, -⟩
        cases (traces_fail_iff.mp hp).2
  | diverge =>
      constructor
      · intro h
        exact absurd h not_traces_diverge
      · rintro ⟨a, before, after, -, hp, -⟩
        exact absurd hp not_traces_diverge
  | call op next ih =>
      constructor
      · intro h
        obtain ⟨ans, rest, rfl, hrest⟩ := traces_call_iff.mp h
        obtain ⟨a, before, after, rfl, hp, hf⟩ := (ih ans).mp hrest
        exact ⟨a, ⟨op, ans⟩ :: before, after, rfl, Traces.call hp, hf⟩
      · rintro ⟨a, before, after, rfl, hp, hf⟩
        obtain ⟨ans, rest, rfl, hrest⟩ := traces_call_iff.mp hp
        exact Traces.call ((ih ans).mpr ⟨a, rest, after, rfl, hrest, hf⟩)

/-- A bind that fails does so in the first program or after it returned. -/
theorem traces_bind_error {p : Program Op Ans ε α} {f : α → Program Op Ans ε β} {e : ε}
    (h : Traces (p >>= f) trace (.error e)) :
    Traces p trace (.error e) ∨ ∃ a before after, trace = before ++ after ∧
      Traces p before (.ok a) ∧ Traces (f a) after (.error e) := by
  induction p generalizing trace with
  | pure a => exact Or.inr ⟨a, [], trace, rfl, Traces.pure a, h⟩
  | fail e' =>
      obtain ⟨rfl, herror⟩ := traces_fail_iff.mp h
      cases herror
      exact Or.inl (Traces.fail e)
  | diverge => exact absurd h not_traces_diverge
  | call op next ih =>
      obtain ⟨ans, rest, rfl, hrest⟩ := traces_call_iff.mp h
      rcases ih ans hrest with hp | ⟨a, before, after, rfl, hp, hf⟩
      · exact Or.inl (Traces.call hp)
      · exact Or.inr ⟨a, ⟨op, ans⟩ :: before, after, rfl, Traces.call hp, hf⟩

theorem traces_request_ok_iff {op : Op} {answer : Ans op → Except ε α} {a : α} :
    Traces (request op answer) trace (.ok a) ↔ ∃ ans, answer ans = .ok a ∧ trace = [⟨op, ans⟩] := by
  rw [request, traces_call_iff]
  constructor
  · rintro ⟨ans, rest, rfl, h⟩
    split at h
    next a' hans =>
      obtain ⟨rfl, hok⟩ := traces_pure_iff.mp h
      cases hok
      exact ⟨ans, hans, rfl⟩
    next e hans => cases (traces_fail_iff.mp h).2
  · rintro ⟨ans, hans, rfl⟩
    refine ⟨ans, [], rfl, ?_⟩
    simp only [hans]
    exact Traces.pure a

/-- A request that one answer fulfils is a single event. -/
theorem traces_request_ok_iff_of_unique {op : Op} {answer : Ans op → Except ε α} {a : α}
    {ans : Ans op} (hanswer : ∀ ans', answer ans' = .ok a ↔ ans' = ans) :
    Traces (request op answer) trace (.ok a) ↔ trace = [⟨op, ans⟩] := by
  rw [traces_request_ok_iff]
  constructor
  · rintro ⟨ans', hans', rfl⟩
    rw [(hanswer ans').mp hans']
  · rintro rfl
    exact ⟨ans, (hanswer ans).mpr rfl, rfl⟩

theorem traces_ofExcept_ok_iff {outcome : Except ε α} {a : α} :
    Traces (ofExcept outcome : Program Op Ans ε α) trace (.ok a) ↔
      trace = [] ∧ outcome = .ok a := by
  cases outcome with
  | ok a' => simp [ofExcept, traces_pure_iff, eq_comm]
  | error e => simp [ofExcept, traces_fail_iff]

theorem traces_ofOption_ok_iff {outcome : Option α} {a : α} :
    Traces (ofOption outcome : Program Op Ans ε α) trace (.ok a) ↔
      trace = [] ∧ outcome = some a := by
  cases outcome with
  | some a' => simp [ofOption, traces_pure_iff, eq_comm]
  | none => simp [ofOption, not_traces_diverge]

theorem traces_mapAll_nil_ok_iff {f : α → Program Op Ans ε β} {ys : List β} :
    Traces (mapAll f []) trace (.ok ys) ↔ trace = [] ∧ ys = [] := by
  simp [mapAll, traces_pure_iff]

theorem traces_mapAll_cons_ok_iff {f : α → Program Op Ans ε β} {x : α} {xs : List α}
    {ys : List β} :
    Traces (mapAll f (x :: xs)) trace (.ok ys) ↔ ∃ y rest before after, ys = y :: rest ∧
      trace = before ++ after ∧ Traces (f x) before (.ok y) ∧
        Traces (mapAll f xs) after (.ok rest) := by
  rw [mapAll, traces_bind_ok_iff]
  constructor
  · rintro ⟨y, before, tail, rfl, hf, htail⟩
    obtain ⟨rest, after, last, rfl, hrest, hlast⟩ := traces_bind_ok_iff.mp htail
    obtain ⟨rfl, hok⟩ := traces_pure_iff.mp hlast
    cases hok
    rw [List.append_nil]
    exact ⟨y, rest, before, after, rfl, rfl, hf, hrest⟩
  · rintro ⟨y, rest, before, after, rfl, rfl, hf, hrest⟩
    exact ⟨y, before, after, rfl, hf, traces_bind_ok_iff.mpr
      ⟨rest, after, [], (List.append_nil after).symm, hrest, Traces.pure _⟩⟩

/-- Pass over a failure. -/
def ignore {ε' : Type} : Program Op Ans ε Unit → Program Op Ans ε' Unit
  | .pure a => .pure a
  | .fail _ => .pure ()
  | .diverge => .diverge
  | .call op next => .call op fun ans => (next ans).ignore

theorem traces_ignore_iff {ε' : Type} {p : Program Op Ans ε Unit} {result : Except ε' Unit} :
    Traces p.ignore trace result ↔ result = .ok () ∧ ∃ result', Traces p trace result' := by
  induction p generalizing trace with
  | pure a =>
      rw [ignore, traces_pure_iff]
      constructor
      · rintro ⟨rfl, rfl⟩
        exact ⟨rfl, _, .pure a⟩
      · rintro ⟨rfl, result', h⟩
        exact ⟨(traces_pure_iff.mp h).1, rfl⟩
  | fail e =>
      rw [ignore, traces_pure_iff]
      constructor
      · rintro ⟨rfl, rfl⟩
        exact ⟨rfl, _, .fail e⟩
      · rintro ⟨rfl, result', h⟩
        exact ⟨(traces_fail_iff.mp h).1, rfl⟩
  | diverge =>
      constructor
      · exact fun h => absurd h not_traces_diverge
      · rintro ⟨-, result', h⟩
        exact absurd h not_traces_diverge
  | call op next ih =>
      rw [ignore, traces_call_iff]
      constructor
      · rintro ⟨ans, rest, rfl, hrest⟩
        obtain ⟨rfl, result', h⟩ := (ih ans).mp hrest
        exact ⟨rfl, result', .call h⟩
      · rintro ⟨rfl, result', h⟩
        obtain ⟨ans, rest, rfl, hrest⟩ := traces_call_iff.mp h
        exact ⟨ans, rest, rfl, (ih ans).mpr ⟨rfl, result', hrest⟩⟩

/-! ## What every call satisfies -/

/-- Every call, with its answer, satisfies `P`. -/
def Always (P : Event Ans → Prop) (p : Program Op Ans ε α) : Prop :=
  ∀ trace result, Traces p trace result → ∀ event ∈ trace, P event

/-- Every call of a program that goes on to fail satisfies `P`. -/
def OnFailure (P : Event Ans → Prop) (p : Program Op Ans ε α) : Prop :=
  ∀ trace e, Traces p trace (.error e) → ∀ event ∈ trace, P event

section Always

variable {P : Event Ans → Prop} {p : Program Op Ans ε α} {f : α → Program Op Ans ε β}

theorem Always.onFailure (h : Always P p) : OnFailure P p := fun trace e => h trace (.error e)

theorem always_pure (a : α) : Always P (pure a : Program Op Ans ε α) := by
  intro trace result h event hevent
  rw [(traces_pure_iff.mp h).1] at hevent
  cases hevent

theorem always_ofExcept (outcome : Except ε α) :
    Always P (ofExcept outcome : Program Op Ans ε α) := by
  cases outcome with
  | ok a => exact always_pure a
  | error e =>
      intro trace result h event hevent
      rw [(traces_fail_iff.mp h).1] at hevent
      cases hevent

theorem always_ofOption (outcome : Option α) :
    Always P (ofOption outcome : Program Op Ans ε α) := by
  cases outcome with
  | some a => exact always_pure a
  | none => exact fun trace result h => absurd h not_traces_diverge

theorem always_call {op : Op} {next : Ans op → Program Op Ans ε α} (hop : ∀ ans, P ⟨op, ans⟩)
    (hnext : ∀ ans, Always P (next ans)) : Always P (.call op next) := by
  intro trace result h event hevent
  obtain ⟨ans, rest, rfl, hrest⟩ := traces_call_iff.mp h
  rcases List.mem_cons.mp hevent with rfl | hevent
  · exact hop ans
  · exact hnext ans rest result hrest event hevent

theorem always_request {op : Op} {answer : Ans op → Except ε α} (hop : ∀ ans, P ⟨op, ans⟩) :
    Always P (request op answer) := by
  apply always_call hop
  intro ans
  split
  · exact always_pure _
  · exact always_ofExcept (.error _)

theorem always_bind (hp : Always P p) (hf : ∀ a, Always P (f a)) : Always P (p >>= f) := by
  intro trace result h event hevent
  cases result with
  | ok b =>
      obtain ⟨a, before, after, rfl, hbefore, hafter⟩ := traces_bind_ok_iff.mp h
      rcases List.mem_append.mp hevent with hevent | hevent
      · exact hp before _ hbefore event hevent
      · exact hf a after _ hafter event hevent
  | error e =>
      rcases traces_bind_error h with hfail | ⟨a, before, after, rfl, hbefore, hafter⟩
      · exact hp trace _ hfail event hevent
      · rcases List.mem_append.mp hevent with hevent | hevent
        · exact hp before _ hbefore event hevent
        · exact hf a after _ hafter event hevent

theorem always_mapAll (xs : List α) (hf : ∀ a, Always P (f a)) : Always P (mapAll f xs) := by
  induction xs with
  | nil => exact always_pure []
  | cons x xs ih =>
      exact always_bind (hf x) fun y => always_bind ih fun ys => always_pure (y :: ys)

theorem onFailure_request {op : Op} {answer : Ans op → Except ε α}
    (hop : ∀ ans e, answer ans = .error e → P ⟨op, ans⟩) : OnFailure P (request op answer) := by
  intro trace e h event hevent
  obtain ⟨ans, rest, rfl, hrest⟩ := traces_call_iff.mp h
  split at hrest
  next a hans => cases (traces_pure_iff.mp hrest).2
  next e' hans =>
    rw [(traces_fail_iff.mp hrest).1, List.mem_singleton] at hevent
    exact hevent ▸ hop ans e' hans

/-- Calls made before a failing part hold of a failing whole. -/
theorem onFailure_bind (hp : Always P p) (hf : ∀ a, OnFailure P (f a)) :
    OnFailure P (p >>= f) := by
  intro trace e h event hevent
  rcases traces_bind_error h with hfail | ⟨a, before, after, rfl, hbefore, hafter⟩
  · exact hp trace _ hfail event hevent
  · rcases List.mem_append.mp hevent with hevent | hevent
    · exact hp before _ hbefore event hevent
    · exact hf a after e hafter event hevent

/-- What follows cannot fail, so the whole fails where its first part does. -/
theorem onFailure_bind_pure {g : α → β} (hp : OnFailure P p) :
    OnFailure P (p >>= fun a => pure (g a)) := by
  intro trace e h event hevent
  rcases traces_bind_error h with hfail | ⟨a, before, after, rfl, hbefore, hafter⟩
  · exact hp trace e hfail event hevent
  · cases (traces_pure_iff.mp hafter).2

end Always

/-! ## Runs in an environment -/

section Steps

variable {State Choice E : Type*} (step : State → E → State → Prop)

/-- A sequence of events that leads from one state to another. -/
inductive Steps : State → List E → State → Prop
  | nil (s : State) : Steps s [] s
  | cons {s s' s'' : State} {e : E} {es : List E} (head : step s e s') (tail : Steps s' es s'') :
      Steps s (e :: es) s''

variable {step}

theorem steps_append_iff {s s'' : State} {es es' : List E} :
    Steps step s (es ++ es') s'' ↔ ∃ s', Steps step s es s' ∧ Steps step s' es' s'' := by
  induction es generalizing s with
  | nil =>
      constructor
      · intro h
        exact ⟨s, Steps.nil s, h⟩
      · intro ⟨s', h, h'⟩
        cases h
        exact h'
  | cons e es ih =>
      constructor
      · intro h
        cases h with
        | cons head tail =>
            obtain ⟨s', hs', hs''⟩ := ih.mp tail
            exact ⟨s', Steps.cons head hs', hs''⟩
      · intro ⟨s', h, h'⟩
        cases h with
        | cons head tail => exact Steps.cons head (ih.mpr ⟨s', tail, h'⟩)

theorem steps_cons_iff {s s'' : State} {e : E} {es : List E} :
    Steps step s (e :: es) s'' ↔ ∃ s', step s e s' ∧ Steps step s' es s'' := by
  constructor
  · intro h
    cases h with
    | cons head tail => exact ⟨_, head, tail⟩
  · intro ⟨s', head, tail⟩
    exact Steps.cons head tail

/-- What every step preserves, a sequence of steps preserves. -/
theorem Steps.preserves {s s' : State} {es : List E} (h : Steps step s es s') (I : State → Prop)
    (hstep : ∀ s, ∀ e ∈ es, ∀ s', step s e s' → I s → I s') (hs : I s) : I s' := by
  induction h with
  | nil s => exact hs
  | cons head tail ih =>
      apply ih
      · intro s e he s'
        exact hstep s e (List.mem_cons_of_mem _ he) s'
      · exact hstep _ _ List.mem_cons_self _ head hs

/-- What every step preserves from where the steps before it lead, a sequence of steps
preserves. -/
theorem Steps.preserves_from {s s' : State} {es : List E} (h : Steps step s es s')
    (I : State → Prop)
    (hstep : ∀ front e, front ++ [e] <+: es → ∀ t, Steps step s front t →
      ∀ t', step t e t' → I t → I t') (hs : I s) : I s' := by
  induction es using List.reverseRecOn generalizing s' with
  | nil =>
      cases h
      exact hs
  | append_singleton es e ih =>
      obtain ⟨t, hfront, hlast⟩ := steps_append_iff.mp h
      obtain ⟨t', hstep', htail⟩ := steps_cons_iff.mp hlast
      cases htail
      refine hstep es e List.prefix_rfl t hfront _ hstep' (ih hfront fun front e' hstarts => ?_)
      exact hstep front e' (hstarts.trans (List.prefix_append es [e]))

/-- A run of `p`: one of its traces, as steps of the environment. -/
structure Run (step : State → Event Ans → State → Prop) (p : Program Op Ans ε α) (s : State)
    (trace : List (Event Ans)) (result : Except ε α) (s' : State) : Prop where
  traces : Traces p trace result
  steps : Steps step s trace s'

/-- Run a program in an environment that is told what to do at each call. -/
def interpret (respond : State → (op : Op) → Choice → Ans op × State) :
    Program Op Ans ε α → State → List Choice → Option (List (Event Ans) × Except ε α × State)
  | .pure a, s, _ => some ([], .ok a, s)
  | .fail e, s, _ => some ([], .error e, s)
  | .diverge, _, _ => none
  | .call _ _, _, [] => none
  | .call op next, s, choice :: choices =>
      (interpret respond (next (respond s op choice).1) (respond s op choice).2 choices).map
        fun r => (⟨op, (respond s op choice).1⟩ :: r.1, r.2)

/-- What the interpreter computes is a run. -/
theorem run_of_interpret {step : State → Event Ans → State → Prop}
    {respond : State → (op : Op) → Choice → Ans op × State}
    (hrespond : ∀ s op choice, step s ⟨op, (respond s op choice).1⟩ (respond s op choice).2)
    {p : Program Op Ans ε α} {s s' : State} {choices : List Choice}
    (h : interpret respond p s choices = some (trace, result, s')) :
    Run step p s trace result s' := by
  induction p generalizing s choices trace with
  | pure a =>
      cases h
      exact ⟨Traces.pure a, Steps.nil _⟩
  | fail e =>
      cases h
      exact ⟨Traces.fail e, Steps.nil _⟩
  | diverge => cases h
  | call op next ih =>
      cases choices with
      | nil => cases h
      | cons choice choices =>
          obtain ⟨⟨rest, result', s''⟩, hrest, heq⟩ := Option.map_eq_some_iff.mp h
          cases heq
          have hrun := ih _ hrest
          exact ⟨Traces.call hrun.traces, Steps.cons (hrespond s op choice) hrun.steps⟩

end Steps

end Program
