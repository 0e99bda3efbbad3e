import HabitatGraph.Foundation.FairRuns
import Mathlib.Data.List.Basic
import Mathlib.Logic.Function.Basic

/-! # Cells that are swapped as a whole

A cell holds a value that callers read and replace while others do the same. A reader
takes the whole value in one step and works on what it took; a writer prepares a value on
its own and stores it in one step. Every call has its effect at that one step, between the
moment it begins and the moment it returns, and in the order of these steps the cell is a
sequential object.
-/

namespace SwapCell

/-- What a caller asks for: an answer from the value, or another value. -/
inductive Call (Q W : Type*)
  | read (query : Q)
  | write (input : W)

/-- What a caller gets. -/
inductive Reply (R : Type*)
  | answer (result : R)
  | stored

/-- How far a caller is with its call. -/
inductive Phase (V Q W : Type*)
  | idle
  | begun (call : Call Q W)
  /-- a reader with the value it took -/
  | loaded (query : Q) (value : V)
  /-- a writer with the value it made -/
  | prepared (input : W) (value : V)
  | stored (input : W)

/-- A step of a call. -/
inductive Label (Q W R : Type*)
  | invoke (call : Call Q W)
  | load
  | prepare
  | store
  | respond (reply : Reply R)

/-- The sequential object: how a query is answered from a value, and the value that an
input is turned into. -/
structure Object (V Q W R : Type*) where
  answer : V → Q → R
  build : W → V

structure State (κ V Q W : Type*) where
  cell : V
  phase : κ → Phase V Q W

section Model

variable {κ V Q W R : Type*} (obj : Object V Q W R)

/-- One call of the sequential object. -/
def Object.step (value : V) : Call Q W → Reply R × V
  | .read query => (.answer (obj.answer value query), value)
  | .write input => (.stored, obj.build input)

/-- The value after calls in order. -/
def Object.after (value : V) (calls : List (Call Q W)) : V :=
  calls.foldl (fun value call => (obj.step value call).2) value

theorem Object.after_append (value : V) (calls calls' : List (Call Q W)) :
    obj.after value (calls ++ calls') = obj.after (obj.after value calls) calls' :=
  List.foldl_append

/-- The cell before any call. -/
def State.new (value : V) : State κ V Q W := ⟨value, fun _ => .idle⟩

/-- What a step does to the phase of its caller and to the cell. -/
inductive Move : V → Phase V Q W → Label Q W R → Phase V Q W → V → Prop
  | invoke (value : V) (call : Call Q W) : Move value .idle (.invoke call) (.begun call) value
  | load (value : V) (query : Q) :
      Move value (.begun (.read query)) .load (.loaded query value) value
  | prepare (value : V) (input : W) :
      Move value (.begun (.write input)) .prepare (.prepared input (obj.build input)) value
  | store (value : V) (input : W) (made : V) :
      Move value (.prepared input made) .store (.stored input) made
  | answer (value : V) (query : Q) (taken : V) :
      Move value (.loaded query taken) (.respond (.answer (obj.answer taken query))) .idle value
  | stored (value : V) (input : W) : Move value (.stored input) (.respond .stored) .idle value

variable [DecidableEq κ]

/-- A caller in another phase, and another value in the cell. -/
def State.put (s : State κ V Q W) (caller : κ) (phase : Phase V Q W) (value : V) :
    State κ V Q W := ⟨value, Function.update s.phase caller phase⟩

@[simp] theorem State.put_cell (s : State κ V Q W) (caller : κ) (phase : Phase V Q W)
    (value : V) : (s.put caller phase value).cell = value := rfl

@[simp] theorem State.put_phase (s : State κ V Q W) (caller : κ) (phase : Phase V Q W)
    (value : V) : (s.put caller phase value).phase caller = phase := Function.update_self _ _ _

theorem State.put_phase_of_ne (s : State κ V Q W) {caller other : κ} (phase : Phase V Q W)
    (value : V) (hother : other ≠ caller) :
    (s.put caller phase value).phase other = s.phase other := Function.update_of_ne hother _ _

/-- One step of one caller, or none. Between the steps of a caller the others may take any
number of theirs. -/
inductive Step : State κ V Q W → Option (κ × Label Q W R) → State κ V Q W → Prop
  | move {s : State κ V Q W} {caller : κ} {label : Label Q W R} {phase : Phase V Q W} {value : V}
      (hmove : Move obj s.cell (s.phase caller) label phase value) :
      Step s (some (caller, label)) (s.put caller phase value)
  | rest (s : State κ V Q W) : Step s none s

end Model

section Points

variable {κ V Q W R : Type*} {obj : Object V Q W R}

/-- The call that has its effect in a step from a phase. -/
def Phase.point : Phase V Q W → Label Q W R → Option (Call Q W)
  | .begun (.read query), .load => some (.read query)
  | .prepared input _, .store => some (.write input)
  | _, _ => none

/-- The call that has its effect in a step, with its caller. -/
def State.point (s : State κ V Q W) : Option (κ × Label Q W R) → Option (κ × Call Q W)
  | some (caller, label) => ((s.phase caller).point label).map fun call => (caller, call)
  | none => none

/-- What a writer prepared is what its input is turned into. -/
def State.WellPrepared (obj : Object V Q W R) (s : State κ V Q W) : Prop :=
  ∀ caller input value, s.phase caller = .prepared input value → value = obj.build input

theorem State.wellPrepared_new (obj : Object V Q W R) (value : V) :
    (State.new value : State κ V Q W).WellPrepared obj := nofun

/-- The cell changes where a call has its effect, as the object says. -/
theorem Move.cell_eq {value value' : V} {phase phase' : Phase V Q W} {label : Label Q W R}
    (hmove : Move obj value phase label phase' value')
    (hprepared : ∀ input made, phase = .prepared input made → made = obj.build input) :
    value' = (phase.point label).elim value fun call => (obj.step value call).2 := by
  cases hmove with
  | store input => exact hprepared input _ rfl
  | _ => rfl

theorem Move.made_eq {value value' made : V} {phase phase' : Phase V Q W} {label : Label Q W R}
    {input : W} (hmove : Move obj value phase label phase' value')
    (hphase : phase' = .prepared input made) : made = obj.build input := by
  cases hmove with
  | prepare =>
      cases hphase
      rfl
  | _ => cases hphase

variable [DecidableEq κ]

theorem step_some_iff {s s' : State κ V Q W} {caller : κ} {label : Label Q W R} :
    Step obj s (some (caller, label)) s' ↔ ∃ phase value,
      Move obj s.cell (s.phase caller) label phase value ∧ s' = s.put caller phase value := by
  constructor
  · intro hstep
    cases hstep with
    | move hmove => exact ⟨_, _, hmove, rfl⟩
  · rintro ⟨phase, value, hmove, rfl⟩
    exact .move hmove

theorem Move.step {s : State κ V Q W} {caller : κ} {label : Label Q W R}
    {before phase : Phase V Q W} {value : V} (hmove : Move obj s.cell before label phase value)
    (hbefore : s.phase caller = before) :
    Step obj s (some (caller, label)) (s.put caller phase value) := by
  subst hbefore
  exact .move hmove

/-- A step of one caller leaves the calls of the others as they are. -/
theorem Step.phase_of_ne {s s' : State κ V Q W} {a : Option (κ × Label Q W R)}
    (hstep : Step obj s a s') {other : κ} (hother : ∀ label, a ≠ some (other, label)) :
    s'.phase other = s.phase other := by
  cases hstep with
  | rest => rfl
  | @move caller label phase value hmove =>
      exact s.put_phase_of_ne phase value fun heq => hother label (heq ▸ rfl)

theorem Step.wellPrepared {s s' : State κ V Q W} {a : Option (κ × Label Q W R)}
    (hstep : Step obj s a s') (hs : s.WellPrepared obj) : s'.WellPrepared obj := by
  cases hstep with
  | rest => exact hs
  | @move caller label phase value hmove =>
      intro other input made hphase
      by_cases hother : other = caller
      · subst hother
        rw [State.put_phase] at hphase
        exact hmove.made_eq hphase
      · rw [State.put_phase_of_ne _ _ _ hother] at hphase
        exact hs other input made hphase

theorem Step.cell_eq {s s' : State κ V Q W} {a : Option (κ × Label Q W R)}
    (hstep : Step obj s a s') (hs : s.WellPrepared obj) :
    s'.cell = (s.point a).elim s.cell fun point => (obj.step s.cell point.2).2 := by
  cases hstep with
  | rest => rfl
  | move hmove =>
      rw [State.point, Option.elim_map]
      exact hmove.cell_eq (hs _)

end Points

section Runs

variable {κ V Q W R : Type*} [DecidableEq κ] {obj : Object V Q W R} {start : V}
  (run : LabelledRun (Step (κ := κ) obj) (.new start))

/-- The calls that had their effect in the first steps, in order. -/
def points (n : ℕ) : List (κ × Call Q W) :=
  (List.range n).filterMap fun i => (run.state i).point (run.action i)

theorem points_succ (n : ℕ) :
    points run (n + 1) =
      points run n ++ ((run.state n).point (run.action n)).toList := by
  rw [points, points, List.range_succ, List.filterMap_append]
  congr 1

theorem wellPrepared (n : ℕ) : (run.state n).WellPrepared obj := by
  refine run.kept (P := fun s => s.WellPrepared obj) (Nat.zero_le n)
    (fun k _ => (run.step k).wellPrepared) ?_
  rw [run.state_zero]
  exact State.wellPrepared_new obj start

/-- The cell is what the sequential object is after the calls that had their effect. -/
theorem cell_eq_after (n : ℕ) :
    (run.state n).cell = obj.after start ((points run n).map Prod.snd) := by
  induction n with
  | zero =>
      rw [run.state_zero]
      rfl
  | succ n ih =>
      rw [(run.step n).cell_eq (wellPrepared run n), ih, points_succ, List.map_append,
        Object.after_append]
      cases (run.state n).point (run.action n) <;> rfl

/-- A caller takes no step but to prepare a value, from one moment up to another. -/
def Quiet (caller : κ) (i j : ℕ) : Prop :=
  ∀ k, i ≤ k → k < j → ∀ label, run.action k = some (caller, label) → label = .prepare

/-- Where a call was begun and where it had its effect, by the phase of its caller. -/
def Traced (caller : κ) (n : ℕ) : Phase V Q W → Prop
  | .idle => True
  | .begun call => ∃ h, h < n ∧ run.action h = some (caller, .invoke call) ∧
      Quiet run caller (h + 1) n
  | .loaded query value => ∃ h j, h < j ∧ j < n ∧
      run.action h = some (caller, .invoke (.read query)) ∧
      (run.state j).point (run.action j) = some (caller, .read query) ∧
      value = (run.state j).cell ∧ Quiet run caller (h + 1) j ∧ Quiet run caller (j + 1) n
  | .prepared input _ => ∃ h, h < n ∧ run.action h = some (caller, .invoke (.write input)) ∧
      Quiet run caller (h + 1) n
  | .stored input => ∃ h j, h < j ∧ j < n ∧
      run.action h = some (caller, .invoke (.write input)) ∧
      (run.state j).point (run.action j) = some (caller, .write input) ∧
      Quiet run caller (h + 1) j ∧ Quiet run caller (j + 1) n

variable {run}

theorem Quiet.concat {caller : κ} {i n : ℕ} (hquiet : Quiet run caller i n)
    (hlast : ∀ label, run.action n = some (caller, label) → label = .prepare) :
    Quiet run caller i (n + 1) := by
  intro k hik hkn label haction
  rcases Nat.lt_succ_iff_lt_or_eq.mp hkn with hk | rfl
  · exact hquiet k hik hk label haction
  · exact hlast label haction

theorem quiet_self (caller : κ) (n : ℕ) : Quiet run caller n n :=
  fun _ hnk hkn => absurd hkn (Nat.not_lt.mpr hnk)

/-- A step of another caller changes nothing about a call. -/
theorem Traced.concat {caller : κ} {n : ℕ} {phase : Phase V Q W} (h : Traced run caller n phase)
    (hlast : ∀ label, run.action n ≠ some (caller, label)) : Traced run caller (n + 1) phase := by
  have hquiet : ∀ {i}, Quiet run caller i n → Quiet run caller i (n + 1) := fun hquiet =>
    hquiet.concat fun label haction => absurd haction (hlast label)
  cases phase with
  | idle => trivial
  | begun call =>
      obtain ⟨h, hn, hinvoke, hq⟩ := h
      exact ⟨h, Nat.lt_succ_of_lt hn, hinvoke, hquiet hq⟩
  | loaded query value =>
      obtain ⟨h, j, hj, hn, hinvoke, hpoint, hvalue, hq, hq'⟩ := h
      exact ⟨h, j, hj, Nat.lt_succ_of_lt hn, hinvoke, hpoint, hvalue, hq, hquiet hq'⟩
  | prepared input value =>
      obtain ⟨h, hn, hinvoke, hq⟩ := h
      exact ⟨h, Nat.lt_succ_of_lt hn, hinvoke, hquiet hq⟩
  | stored input =>
      obtain ⟨h, j, hj, hn, hinvoke, hpoint, hq, hq'⟩ := h
      exact ⟨h, j, hj, Nat.lt_succ_of_lt hn, hinvoke, hpoint, hq, hquiet hq'⟩

variable (run)

theorem traced (caller : κ) (n : ℕ) : Traced run caller n ((run.state n).phase caller) := by
  induction n with
  | zero =>
      rw [run.state_zero]
      trivial
  | succ n ih =>
      have hstep := run.step n
      generalize haction : run.action n = a at hstep
      generalize hstate : run.state (n + 1) = s' at hstep
      cases hstep with
      | rest => exact ih.concat fun label => by rw [haction]; nofun
      | @move other label phase value hmove =>
          by_cases hother : caller = other
          · subst hother
            rw [State.put_phase]
            generalize hphase : (run.state n).phase caller = before at hmove ih
            generalize hcell : (run.state n).cell = cell at hmove
            have hpoint : (run.state n).point (run.action n) =
                (before.point label).map fun call => (caller, call) := by
              rw [haction, State.point, hphase]
            cases hmove with
            | invoke call => exact ⟨n, Nat.lt_succ_self n, haction, quiet_self caller (n + 1)⟩
            | load query =>
                obtain ⟨h, hn, hinvoke, hq⟩ := ih
                exact ⟨h, n, hn, Nat.lt_succ_self n, hinvoke, hpoint, hcell.symm, hq,
                  quiet_self caller (n + 1)⟩
            | prepare input =>
                obtain ⟨h, hn, hinvoke, hq⟩ := ih
                refine ⟨h, Nat.lt_succ_of_lt hn, hinvoke, hq.concat fun label hlabel => ?_⟩
                rw [haction] at hlabel
                exact (Prod.mk.inj (Option.some.inj hlabel)).2.symm
            | store input made =>
                obtain ⟨h, hn, hinvoke, hq⟩ := ih
                exact ⟨h, n, hn, Nat.lt_succ_self n, hinvoke, hpoint, hq,
                  quiet_self caller (n + 1)⟩
            | answer => trivial
            | stored => trivial
          · rw [State.put_phase_of_ne _ _ _ hother]
            refine ih.concat fun label' hlabel => hother ?_
            rw [haction] at hlabel
            exact (Prod.mk.inj (Option.some.inj hlabel)).1.symm

/-- A call returned at a moment: it was begun earlier, had its effect once in between, and
returns what the sequential object returned then. -/
structure Linearized (caller : κ) (i : ℕ) (reply : Reply R) (call : Call Q W) (h j : ℕ) : Prop where
  invoked : h < j
  responded : j < i
  invoke : run.action h = some (caller, .invoke call)
  point : (run.state j).point (run.action j) = some (caller, call)
  reply : reply = (obj.step (run.state j).cell call).1
  before : Quiet run caller (h + 1) j
  after : Quiet run caller (j + 1) i

/-- Every call that returns is linearized. -/
theorem linearizable {caller : κ} {i : ℕ} {reply : Reply R}
    (hrespond : run.action i = some (caller, .respond reply)) :
    ∃ call h j, Linearized run caller i reply call h j := by
  have htraced := traced run caller i
  obtain ⟨phase, value, hmove, -⟩ := step_some_iff.mp (hrespond ▸ run.step i)
  generalize hphase : (run.state i).phase caller = before at htraced hmove
  cases hmove with
  | answer query taken =>
      obtain ⟨h, j, hj, hi, hinvoke, hpoint, rfl, hq, hq'⟩ := htraced
      exact ⟨_, h, j, hj, hi, hinvoke, hpoint, rfl, hq, hq'⟩
  | stored input =>
      obtain ⟨h, j, hj, hi, hinvoke, hpoint, hq, hq'⟩ := htraced
      exact ⟨_, h, j, hj, hi, hinvoke, hpoint, rfl, hq, hq'⟩

end Runs

/-! ## Runs by schedule -/

section Schedules

variable {κ V Q W R : Type*} (obj : Object V Q W R)

/-- The next step of a caller in a phase. A caller without a call begins one. -/
def advance (value : V) (call : Call Q W) : Phase V Q W → Label Q W R × Phase V Q W × V
  | .idle => (.invoke call, .begun call, value)
  | .begun (.read query) => (.load, .loaded query value, value)
  | .begun (.write input) => (.prepare, .prepared input (obj.build input), value)
  | .loaded query taken => (.respond (.answer (obj.answer taken query)), .idle, value)
  | .prepared input made => (.store, .stored input, made)
  | .stored _ => (.respond .stored, .idle, value)

theorem move_advance (value : V) (call : Call Q W) (phase : Phase V Q W) :
    Move obj value phase (advance obj value call phase).1 (advance obj value call phase).2.1
      (advance obj value call phase).2.2 := by
  cases phase with
  | begun call' => cases call' <;> constructor
  | _ => constructor

variable [DecidableEq κ]

/-- Let one caller take its next step, or none. -/
def choose (s : State κ V Q W) :
    Option (κ × Call Q W) → Option (κ × Label Q W R) × State κ V Q W
  | none => (none, s)
  | some (caller, call) =>
      let next := advance obj s.cell call (s.phase caller)
      (some (caller, next.1), s.put caller next.2.1 next.2.2)

theorem step_choose (s : State κ V Q W) (choice : Option (κ × Call Q W)) :
    Step obj s (choose obj s choice).1 (choose obj s choice).2 := by
  cases choice with
  | none => exact .rest s
  | some choice => exact .move (move_advance obj s.cell choice.2 (s.phase choice.1))

/-- The run in which the callers take their steps in the order of a list, and rest then. -/
abbrev scheduled (start : V) (schedule : List (κ × Call Q W)) :
    LabelledRun (Step (κ := κ) (R := R) obj) (.new start) :=
  .ofChoices (choose obj) (step_choose obj) (.new start) fun i => schedule[i]?

end Schedules

end SwapCell
