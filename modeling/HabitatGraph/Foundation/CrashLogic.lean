import HabitatGraph.Foundation.Program

/-! # Programs that may be cut

A run of a program may be cut before any of its calls. A triple says what holds of
a state in which the program ends, of the result it ends with, and of every state
in which it may be cut. Programs that run one after the other, each cut or not,
keep what every one of them keeps.
-/

namespace Program

section Triples

variable {Op : Type} {Ans : Op → Type} {ε α β : Type} {State : Type*}

section CutRun

variable (step : State → Event Ans → State → Prop)

/-- The first calls of a program. -/
inductive CutRun : Program Op Ans ε α → State → State → Prop
  | stop (p : Program Op Ans ε α) (s : State) : CutRun p s s
  | call {op : Op} {next : Ans op → Program Op Ans ε α} {ans : Ans op} {s s' s'' : State}
      (head : step s ⟨op, ans⟩ s') (tail : CutRun (next ans) s' s'') :
      CutRun (.call op next) s s''

/-- From `pre`, a run ends in `post` and is cut in `crash`. -/
structure Triple (pre : State → Prop) (p : Program Op Ans ε α)
    (post : Except ε α → State → Prop) (crash : State → Prop) : Prop where
  cut : ∀ {s s'}, pre s → CutRun step p s s' → crash s'
  ends : ∀ {s trace result s'}, pre s → Run step p s trace result s' → post result s'

end CutRun

variable {step : State → Event Ans → State → Prop} {pre pre' crash crash' : State → Prop}
  {p : Program Op Ans ε α} {post post' : Except ε α → State → Prop}

theorem CutRun.eq_of_pure {a : α} {s s' : State}
    (h : CutRun step (.pure a : Program Op Ans ε α) s s') : s' = s := by
  cases h
  rfl

theorem CutRun.eq_of_fail {e : ε} {s s' : State}
    (h : CutRun step (.fail e : Program Op Ans ε α) s s') : s' = s := by
  cases h
  rfl

/-- A bind is cut in its first program, or after it returned. -/
theorem cutRun_bind {f : α → Program Op Ans ε β} {s s' : State} (h : CutRun step (p >>= f) s s') :
    CutRun step p s s' ∨
      ∃ a trace t, Run step p s trace (.ok a) t ∧ CutRun step (f a) t s' := by
  induction p generalizing s with
  | pure a => exact .inr ⟨a, [], s, ⟨.pure a, .nil s⟩, h⟩
  | fail e =>
      have hs : s' = s :=
        CutRun.eq_of_fail (show CutRun step (.fail e : Program Op Ans ε β) s s' from h)
      exact .inl (hs ▸ .stop _ _)
  | diverge =>
      cases h
      exact .inl (.stop _ _)
  | call op next ih =>
      cases h with
      | stop => exact .inl (.stop _ _)
      | call head tail =>
          rcases ih _ tail with hcut | ⟨a, trace, t, hrun, hcut⟩
          · exact .inl (.call head hcut)
          · exact .inr ⟨a, _, t, ⟨.call hrun.traces, .cons head hrun.steps⟩, hcut⟩

theorem error_ne_ok {e : ε} {a : α} : (.error e : Except ε α) ≠ .ok a := by
  intro h
  cases h

theorem run_pure_iff {a : α} {s s' : State} {trace : List (Event Ans)} {result : Except ε α} :
    Run step (.pure a) s trace result s' ↔ trace = [] ∧ result = .ok a ∧ s' = s := by
  constructor
  · rintro ⟨htraces, hsteps⟩
    obtain ⟨rfl, rfl⟩ := traces_pure_iff.mp htraces
    cases hsteps
    exact ⟨rfl, rfl, rfl⟩
  · rintro ⟨rfl, rfl, rfl⟩
    exact ⟨.pure a, .nil _⟩

theorem run_fail_iff {e : ε} {s s' : State} {trace : List (Event Ans)} {result : Except ε α} :
    Run step (.fail e) s trace result s' ↔ trace = [] ∧ result = .error e ∧ s' = s := by
  constructor
  · rintro ⟨htraces, hsteps⟩
    obtain ⟨rfl, rfl⟩ := traces_fail_iff.mp htraces
    cases hsteps
    exact ⟨rfl, rfl, rfl⟩
  · rintro ⟨rfl, rfl, rfl⟩
    exact ⟨.fail e, .nil _⟩

/-! ## Rules -/

namespace Triple

theorem weaken (h : Triple step pre p post crash) (hpre : ∀ s, pre' s → pre s)
    (hpost : ∀ result s, post result s → post' result s) (hcrash : ∀ s, crash s → crash' s) :
    Triple step pre' p post' crash' where
  cut hs hcut := hcrash _ (h.cut (hpre _ hs) hcut)
  ends hs hrun := hpost _ _ (h.ends (hpre _ hs) hrun)

theorem mono (h : Triple step pre p post crash)
    (hpost : ∀ result s, post result s → post' result s) (hcrash : ∀ s, crash s → crash' s) :
    Triple step pre p post' crash' :=
  h.weaken (fun _ hs => hs) hpost hcrash

theorem crash_mono (h : Triple step pre p post crash) (hcrash : ∀ s, crash s → crash' s) :
    Triple step pre p post crash' :=
  h.mono (fun _ _ hs => hs) hcrash

theorem pure {a : α} (hpost : ∀ s, pre s → post (.ok a) s) (hcrash : ∀ s, pre s → crash s) :
    Triple step pre (.pure a) post crash where
  cut hs hcut := hcut.eq_of_pure ▸ hcrash _ hs
  ends hs hrun := by
    obtain ⟨-, rfl, rfl⟩ := run_pure_iff.mp hrun
    exact hpost _ hs

theorem fail {e : ε} (hpost : ∀ s, pre s → post (.error e) s) (hcrash : ∀ s, pre s → crash s) :
    Triple step pre (.fail e) post crash where
  cut hs hcut := hcut.eq_of_fail ▸ hcrash _ hs
  ends hs hrun := by
    obtain ⟨-, rfl, rfl⟩ := run_fail_iff.mp hrun
    exact hpost _ hs

theorem ofExcept {outcome : Except ε α} (hpost : ∀ s, pre s → post outcome s)
    (hcrash : ∀ s, pre s → crash s) : Triple step pre (ofExcept outcome) post crash := by
  cases outcome with
  | ok a => exact Triple.pure hpost hcrash
  | error e => exact Triple.fail hpost hcrash

/-- One call, and what follows each of its answers. -/
theorem call {op : Op} {next : Ans op → Program Op Ans ε α} (hcrash : ∀ s, pre s → crash s)
    (hnext : ∀ ans,
      Triple step (fun s' => ∃ s, pre s ∧ step s ⟨op, ans⟩ s') (next ans) post crash) :
    Triple step pre (.call op next) post crash where
  cut hs hcut := by
    cases hcut with
    | stop => exact hcrash _ hs
    | call head tail => exact (hnext _).cut ⟨_, hs, head⟩ tail
  ends hs hrun := by
    obtain ⟨htraces, hsteps⟩ := hrun
    obtain ⟨ans, rest, rfl, hrest⟩ := traces_call_iff.mp htraces
    obtain ⟨t, head, tail⟩ := steps_cons_iff.mp hsteps
    exact (hnext ans).ends ⟨_, hs, head⟩ ⟨hrest, tail⟩

theorem bind {f : α → Program Op Ans ε β} {post : Except ε β → State → Prop}
    {mid : Except ε α → State → Prop} (hp : Triple step pre p mid crash)
    (hf : ∀ a, Triple step (mid (.ok a)) (f a) post crash)
    (herror : ∀ e s, mid (.error e) s → post (.error e) s) :
    Triple step pre (p >>= f) post crash where
  cut hs hcut := by
    rcases cutRun_bind hcut with hcut | ⟨a, trace, t, hrun, hcut⟩
    · exact hp.cut hs hcut
    · exact (hf a).cut (hp.ends hs hrun) hcut
  ends {s trace result s'} hs hrun := by
    obtain ⟨htraces, hsteps⟩ := hrun
    cases result with
    | ok b =>
        obtain ⟨a, before, after, rfl, hbefore, hafter⟩ := traces_bind_ok_iff.mp htraces
        obtain ⟨t, hsteps, hsteps'⟩ := steps_append_iff.mp hsteps
        exact (hf a).ends (hp.ends hs ⟨hbefore, hsteps⟩) ⟨hafter, hsteps'⟩
    | error e =>
        rcases traces_bind_error htraces with hfail | ⟨a, before, after, rfl, hbefore, hafter⟩
        · exact herror _ _ (hp.ends hs ⟨hfail, hsteps⟩)
        · obtain ⟨t, hsteps, hsteps'⟩ := steps_append_iff.mp hsteps
          exact (hf a).ends (hp.ends hs ⟨hbefore, hsteps⟩) ⟨hafter, hsteps'⟩

/-- A request by what a single step does. -/
theorem request {op : Op} {answer : Ans op → Except ε α} (hcrash : ∀ s, pre s → crash s)
    (hstep : ∀ s ans s', pre s → step s ⟨op, ans⟩ s' → post (answer ans) s' ∧ crash s') :
    Triple step pre (request op answer) post crash := by
  refine Triple.call hcrash fun ans => ?_
  have hafter : ∀ s', (∃ s, pre s ∧ step s ⟨op, ans⟩ s') → post (answer ans) s' ∧ crash s' :=
    fun s' ⟨s, hs, head⟩ => hstep s ans s' hs head
  split
  next a hans => exact Triple.pure (fun s hs => hans ▸ (hafter s hs).1) fun s hs => (hafter s hs).2
  next e hans => exact Triple.fail (fun s hs => hans ▸ (hafter s hs).1) fun s hs => (hafter s hs).2

/-- A triple is proved state by state. -/
theorem of_forall (h : ∀ s, pre s → Triple step (· = s) p post crash) :
    Triple step pre p post crash where
  cut hs hcut := (h _ hs).cut rfl hcut
  ends hs hrun := (h _ hs).ends rfl hrun

end Triple

/-! ## How runs end -/

section Ends

variable (step) in
/-- Some run of `p` ends with this result in this state. -/
def Ends (p : Program Op Ans ε α) (s : State) (result : Except ε α) (s' : State) : Prop :=
  ∃ trace, Run step p s trace result s'

variable {s s' : State}

theorem ends_pure_iff {a : α} {result : Except ε α} :
    Ends step (.pure a) s result s' ↔ result = .ok a ∧ s' = s := by
  simp [Ends, run_pure_iff]

theorem ends_fail_iff {e : ε} {result : Except ε α} :
    Ends step (.fail e) s result s' ↔ result = .error e ∧ s' = s := by
  simp [Ends, run_fail_iff]

theorem ends_call_iff {op : Op} {next : Ans op → Program Op Ans ε α} {result : Except ε α} :
    Ends step (.call op next) s result s' ↔
      ∃ ans t, step s ⟨op, ans⟩ t ∧ Ends step (next ans) t result s' := by
  constructor
  · rintro ⟨trace, htraces, hsteps⟩
    obtain ⟨ans, rest, rfl, hrest⟩ := traces_call_iff.mp htraces
    obtain ⟨t, head, tail⟩ := steps_cons_iff.mp hsteps
    exact ⟨ans, t, head, rest, hrest, tail⟩
  · rintro ⟨ans, t, head, rest, hrest, tail⟩
    exact ⟨_, .call hrest, .cons head tail⟩

theorem ends_request_iff {op : Op} {answer : Ans op → Except ε α} {result : Except ε α} :
    Ends step (request op answer) s result s' ↔
      ∃ ans, step s ⟨op, ans⟩ s' ∧ result = answer ans := by
  rw [request, ends_call_iff]
  constructor
  · rintro ⟨ans, t, hstep, hends⟩
    split at hends
    next a hans =>
      obtain ⟨rfl, rfl⟩ := ends_pure_iff.mp hends
      exact ⟨ans, hstep, hans.symm⟩
    next e hans =>
      obtain ⟨rfl, rfl⟩ := ends_fail_iff.mp hends
      exact ⟨ans, hstep, hans.symm⟩
  · rintro ⟨ans, hstep, rfl⟩
    refine ⟨ans, s', hstep, ?_⟩
    split
    next a hans => exact ends_pure_iff.mpr ⟨hans, rfl⟩
    next e hans => exact ends_fail_iff.mpr ⟨hans, rfl⟩

/-- A bind ends with its first program's failure, or as what follows does. -/
theorem ends_bind_iff {f : α → Program Op Ans ε β} {result : Except ε β} :
    Ends step (p >>= f) s result s' ↔
      (∃ a t, Ends step p s (.ok a) t ∧ Ends step (f a) t result s') ∨
        ∃ e, Ends step p s (.error e) s' ∧ result = .error e := by
  induction p generalizing s with
  | pure a =>
      constructor
      · intro h
        exact .inl ⟨a, s, ends_pure_iff.mpr ⟨rfl, rfl⟩, h⟩
      · rintro (⟨a', t, hpure, h⟩ | ⟨e, hpure, -⟩)
        · obtain ⟨hok, rfl⟩ := ends_pure_iff.mp hpure
          cases hok
          exact h
        · exact absurd (ends_pure_iff.mp hpure).1 error_ne_ok
  | fail e =>
      constructor
      · intro h
        obtain ⟨rfl, rfl⟩ := ends_fail_iff.mp (show Ends step (.fail e) s result s' from h)
        exact .inr ⟨e, ends_fail_iff.mpr ⟨rfl, rfl⟩, rfl⟩
      · rintro (⟨a, t, hfail, -⟩ | ⟨e', hfail, rfl⟩)
        · exact absurd (ends_fail_iff.mp hfail).1.symm error_ne_ok
        · obtain ⟨herror, rfl⟩ := ends_fail_iff.mp hfail
          cases herror
          exact show Ends step (.fail e) s' (.error e) s' from ends_fail_iff.mpr ⟨rfl, rfl⟩
  | diverge =>
      constructor
      · rintro ⟨trace, htraces, -⟩
        exact absurd htraces not_traces_diverge
      · rintro (⟨a, t, ⟨trace, htraces, -⟩, -⟩ | ⟨e, ⟨trace, htraces, -⟩, -⟩) <;>
          exact absurd htraces not_traces_diverge
  | call op next ih =>
      rw [show (.call op next >>= f : Program Op Ans ε β) = .call op fun ans => next ans >>= f
        from rfl, ends_call_iff]
      simp only [ends_call_iff]
      constructor
      · rintro ⟨ans, t, head, h⟩
        rcases ih ans |>.mp h with ⟨a, t', hp, hf⟩ | ⟨e, hp, rfl⟩
        · exact .inl ⟨a, t', ⟨ans, t, head, hp⟩, hf⟩
        · exact .inr ⟨e, ⟨ans, t, head, hp⟩, rfl⟩
      · rintro (⟨a, t', ⟨ans, t, head, hp⟩, hf⟩ | ⟨e, ⟨ans, t, head, hp⟩, rfl⟩)
        · exact ⟨ans, t, head, (ih ans).mpr (.inl ⟨a, t', hp, hf⟩)⟩
        · exact ⟨ans, t, head, (ih ans).mpr (.inr ⟨e, hp, rfl⟩)⟩

/-- A program whose result is replaced ends as it did. -/
theorem ends_bind_pure_iff {b : β} {result : Except ε β} :
    Ends step (p >>= fun _ => .pure b) s result s' ↔
      ∃ outcome, Ends step p s outcome s' ∧ result = outcome.map fun _ => b := by
  refine ends_bind_iff.trans ?_
  constructor
  · rintro (⟨a, t, hends, hpure⟩ | ⟨e, hends, rfl⟩)
    · obtain ⟨rfl, rfl⟩ := ends_pure_iff.mp hpure
      exact ⟨.ok a, hends, rfl⟩
    · exact ⟨.error e, hends, rfl⟩
  · rintro ⟨outcome, hends, rfl⟩
    cases outcome with
    | ok a => exact .inl ⟨a, s', hends, ends_pure_iff.mpr ⟨rfl, rfl⟩⟩
    | error e => exact .inr ⟨e, hends, rfl⟩

end Ends

/-! ## Undisturbed runs -/

section Perform

variable (respond : State → (op : Op) → Ans op × State)

/-- The result and the state that a program ends with where every call is answered in one way. -/
def perform : Program Op Ans ε α → State → Option (Except ε α × State)
  | .pure a, s => some (.ok a, s)
  | .fail e, s => some (.error e, s)
  | .diverge, _ => none
  | .call op next, s => perform (next (respond s op).1) (respond s op).2

variable {respond}

theorem perform_bind {f : α → Program Op Ans ε β} {a : α} {s s' : State}
    (hp : perform respond p s = some (.ok a, s')) :
    perform respond (p >>= f) s = perform respond (f a) s' := by
  induction p generalizing s with
  | pure b =>
      cases hp
      rfl
  | fail e => cases hp
  | diverge => cases hp
  | call op next ih => exact ih _ hp

theorem perform_bind_error {f : α → Program Op Ans ε β} {e : ε} {s s' : State}
    (hp : perform respond p s = some (.error e, s')) :
    perform respond (p >>= f) s = some (.error e, s') := by
  induction p generalizing s with
  | pure b => cases hp
  | fail e' =>
      cases hp
      rfl
  | diverge => cases hp
  | call op next ih => exact ih _ hp

theorem exists_run_of_perform (hrespond : ∀ s op, step s ⟨op, (respond s op).1⟩ (respond s op).2)
    {s s' : State} {result : Except ε α} (h : perform respond p s = some (result, s')) :
    ∃ trace, Run step p s trace result s' := by
  induction p generalizing s with
  | pure a =>
      cases h
      exact ⟨[], run_pure_iff.mpr ⟨rfl, rfl, rfl⟩⟩
  | fail e =>
      cases h
      exact ⟨[], run_fail_iff.mpr ⟨rfl, rfl, rfl⟩⟩
  | diverge => cases h
  | call op next ih =>
      obtain ⟨trace, hrun⟩ := ih _ h
      exact ⟨_, .call hrun.traces, .cons (hrespond s op) hrun.steps⟩

end Perform

/-! ## One program after the other -/

section Sessions

variable {Cmd : Type} (step) (program : Cmd → Program Op Ans ε α)

/-- A run of a command; without a result it was cut. -/
def SessionStep (s : State) (run : Cmd × Option (Except ε α)) (s' : State) : Prop :=
  match run.2 with
  | none => CutRun step (program run.1) s s'
  | some result => ∃ trace, Run step (program run.1) s trace result s'

/-- Commands that run one after the other. -/
abbrev Session (s : State) (runs : List (Cmd × Option (Except ε α))) (s' : State) : Prop :=
  Steps (SessionStep step program) s runs s'

variable {step program}

theorem Triple.of_sessionStep {s s' : State} {run : Cmd × Option (Except ε α)}
    (h : SessionStep step program s run s')
    (htriple : Triple step pre (program run.1) (fun _ => crash) crash) (hs : pre s) : crash s' := by
  obtain ⟨cmd, result⟩ := run
  cases result with
  | none => exact htriple.cut hs h
  | some result =>
      obtain ⟨trace, hrun⟩ := h
      exact htriple.ends hs hrun

/-- What every command keeps, also when it is cut, a session keeps. -/
theorem Session.keeps {s s' : State} {runs : List (Cmd × Option (Except ε α))}
    (h : Session step program s runs s') {I : State → Prop}
    (hkeeps : ∀ run ∈ runs, Triple step I (program run.1) (fun _ => I) I) (hs : I s) : I s' :=
  h.preserves I (fun _ run hrun _ hstep hI => Triple.of_sessionStep hstep (hkeeps run hrun) hI) hs

end Sessions

end Triples

end Program
