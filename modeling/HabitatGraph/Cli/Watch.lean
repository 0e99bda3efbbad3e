import HabitatGraph.Foundation.FairRuns

/-! # The watch loop

Events of the file system wait in a channel. The loop receives one, takes a deadline,
receives what comes until then, and rebuilds. No event is lost: each is received, and a
rebuild starts after that. The deadline is not moved when a further event comes, so the
rebuild waits for quiet after the first event of a burst and not after the last.
-/

namespace HabitatGraph

namespace Watch

/-- `DEBOUNCE`, in nanoseconds. -/
def debounce : ℕ := 200000000

/-- Where the loop is. -/
inductive Phase
  /-- the initial build -/
  | starting
  /-- in `rx.recv()` -/
  | waiting
  /-- with the first event, before the deadline is taken -/
  | received
  /-- at the head of the inner loop -/
  | draining (deadline : ℕ)
  /-- with the remaining time, which is not zero -/
  | measured (deadline remaining : ℕ)
  /-- in `rx.recv_timeout(remaining)`, which may give up at the timeout -/
  | polling (deadline timeout : ℕ)
  /-- out of the inner loop -/
  | triggered
  /-- in `try_rebuild_locked`, whether it rebuilds or fails -/
  | rebuilding
deriving DecidableEq, Repr

/-- The clock, the channel and the loop. Events are numbered as they arrive; those of the
file system and errors of the watcher are received alike. The watcher keeps the sender,
so the channel stays connected. -/
structure WatchState where
  now : ℕ
  arrivals : ℕ
  channel : List ℕ
  phase : Phase
deriving DecidableEq, Repr

inductive WatchAction
  | pass (duration : ℕ)
  | arrive (event : ℕ)
  | receive (event : ℕ)
  | startRebuild
  | advance
deriving DecidableEq, Repr

/-- The watcher is set up before the initial build. -/
def initial : WatchState := ⟨0, 0, [], .starting⟩

/-- The next step of the loop, if it does not wait. -/
def loopStep (s : WatchState) : Option (WatchAction × WatchState) :=
  match s.phase with
  | .starting => some (.advance, { s with phase := .waiting })
  | .waiting =>
      match s.channel with
      | [] => none
      | event :: rest => some (.receive event, { s with channel := rest, phase := .received })
  | .received => some (.advance, { s with phase := .draining (s.now + debounce) })
  | .draining deadline =>
      let remaining := deadline - s.now
      if remaining = 0 then some (.advance, { s with phase := .triggered })
      else some (.advance, { s with phase := .measured deadline remaining })
  | .measured deadline remaining =>
      some (.advance, { s with phase := .polling deadline (s.now + remaining) })
  | .polling deadline timeout =>
      match s.channel with
      | event :: rest =>
          some (.receive event, { s with channel := rest, phase := .draining deadline })
      | [] => if timeout ≤ s.now then some (.advance, { s with phase := .triggered }) else none
  | .triggered => some (.startRebuild, { s with phase := .rebuilding })
  | .rebuilding => some (.advance, { s with phase := .waiting })

/-- An event arrives in the channel. -/
def WatchState.arrive (s : WatchState) : WatchState :=
  { s with arrivals := s.arrivals + 1, channel := s.channel ++ [s.arrivals] }

/-- Time passes, in any phase: a rebuild takes as long as it takes. -/
def WatchState.pass (s : WatchState) (duration : ℕ) : WatchState :=
  { s with now := s.now + duration }

/-- The loop goes on, an event arrives or time passes. -/
inductive WatchStep : WatchState → WatchAction → WatchState → Prop
  | loop {s s' : WatchState} {a : WatchAction} (h : loopStep s = some (a, s')) : WatchStep s a s'
  | arrive (s : WatchState) : WatchStep s (.arrive s.arrivals) s.arrive
  | pass (s : WatchState) (duration : ℕ) : WatchStep s (.pass duration) (s.pass duration)

/-- A run with finitely many events: time goes on without bound, and the loop does not
stand still for ever where it could go on. -/
structure WatchRun extends LabelledRun WatchStep initial where
  finite : ∃ n, ∀ i ≥ n, ∀ event, action i ≠ .arrive event
  timed : ∀ t, ∃ i, t ≤ (state i).now
  fair : toLabelledRun.WeaklyFair (fun s => (loopStep s).isSome)
    (fun s a s' => loopStep s = some (a, s'))

/-- No event is lost, and a rebuild waits for a quiet window after the last event. -/
structure Debounced (run : WatchRun) : Prop where
  noneLost : ∀ i event, run.action i = .arrive event →
    ∃ j k, i < j ∧ j < k ∧ run.action j = .receive event ∧ run.action k = .startRebuild
  quiet : ∀ k, run.action k = .startRebuild → ∀ j < k, ∀ event,
    run.action j = .receive event → (run.state j).now + debounce ≤ (run.state k).now

/-! ## What the loop does -/

/-- The steps of the loop, by the phase it is in. -/
inductive LoopMove (s : WatchState) : WatchAction → WatchState → Prop
  | started (hphase : s.phase = .starting) : LoopMove s .advance { s with phase := .waiting }
  | first {event : ℕ} {rest : List ℕ} (hphase : s.phase = .waiting)
      (hchannel : s.channel = event :: rest) :
      LoopMove s (.receive event) { s with channel := rest, phase := .received }
  | window (hphase : s.phase = .received) :
      LoopMove s .advance { s with phase := .draining (s.now + debounce) }
  | elapsed {deadline : ℕ} (hphase : s.phase = .draining deadline) (helapsed : deadline ≤ s.now) :
      LoopMove s .advance { s with phase := .triggered }
  | measure {deadline : ℕ} (hphase : s.phase = .draining deadline) (hopen : s.now < deadline) :
      LoopMove s .advance { s with phase := .measured deadline (deadline - s.now) }
  | poll {deadline remaining : ℕ} (hphase : s.phase = .measured deadline remaining) :
      LoopMove s .advance { s with phase := .polling deadline (s.now + remaining) }
  | further {deadline timeout event : ℕ} {rest : List ℕ}
      (hphase : s.phase = .polling deadline timeout) (hchannel : s.channel = event :: rest) :
      LoopMove s (.receive event) { s with channel := rest, phase := .draining deadline }
  | timeout {deadline timeout : ℕ} (hphase : s.phase = .polling deadline timeout)
      (hchannel : s.channel = []) (htimeout : timeout ≤ s.now) :
      LoopMove s .advance { s with phase := .triggered }
  | trigger (hphase : s.phase = .triggered) :
      LoopMove s .startRebuild { s with phase := .rebuilding }
  | rebuilt (hphase : s.phase = .rebuilding) : LoopMove s .advance { s with phase := .waiting }

theorem loopMove_of_loopStep {s s' : WatchState} {a : WatchAction}
    (hstep : loopStep s = some (a, s')) : LoopMove s a s' := by
  unfold loopStep at hstep
  split at hstep
  next hphase => cases hstep; exact .started hphase
  next hphase =>
    split at hstep
    next => cases hstep
    next hchannel => cases hstep; exact .first hphase hchannel
  next hphase => cases hstep; exact .window hphase
  next hphase =>
    dsimp only at hstep
    split at hstep
    next hzero => cases hstep; exact .elapsed hphase (Nat.sub_eq_zero_iff_le.mp hzero)
    next hpos => cases hstep; exact .measure hphase (Nat.lt_of_sub_ne_zero hpos)
  next hphase => cases hstep; exact .poll hphase
  next hphase =>
    split at hstep
    next hchannel => cases hstep; exact .further hphase hchannel
    next hchannel =>
      split at hstep
      next htimeout => cases hstep; exact .timeout hphase hchannel htimeout
      next => cases hstep
  next hphase => cases hstep; exact .trigger hphase
  next hphase => cases hstep; exact .rebuilt hphase

/-- The loop waits for an event. -/
def Idle (s : WatchState) : Prop := s.phase = .waiting ∧ s.channel = []

/-- The loop stands still only where it waits for an event, or for one until a timeout. -/
theorem idle_or_polling {s : WatchState} (hnone : ¬ (loopStep s).isSome) :
    Idle s ∨ ∃ deadline timeout, s.phase = .polling deadline timeout ∧ s.channel = [] ∧
      s.now < timeout := by
  unfold loopStep at hnone
  split at hnone
  next => simp at hnone
  next hphase =>
    split at hnone
    next hchannel => exact .inl ⟨hphase, hchannel⟩
    next => simp at hnone
  next => simp at hnone
  next =>
    dsimp only at hnone
    split at hnone <;> simp at hnone
  next => simp at hnone
  next deadline timeout hphase =>
    split at hnone
    next => simp at hnone
    next hchannel =>
      split at hnone
      next => simp at hnone
      next htimeout => exact .inr ⟨deadline, timeout, hphase, hchannel, Nat.not_le.mp htimeout⟩
  next => simp at hnone
  next => simp at hnone

/-! ## No event is lost -/

/-- How many steps the loop takes at most before it waits, for the phase alone. -/
def Phase.rank : Phase → ℕ
  | .waiting => 0
  | .rebuilding | .starting => 1
  | .triggered => 2
  | .polling _ _ => 3
  | .measured _ _ => 4
  | .draining _ => 5
  | .received => 6

/-- Each event in the channel may set the loop back, once. -/
def WatchState.rank (s : WatchState) : ℕ := 7 * s.channel.length + s.phase.rank

theorem rank_lt_of_loopStep {s s' : WatchState} {a : WatchAction}
    (hstep : loopStep s = some (a, s')) : s'.rank < s.rank := by
  cases loopMove_of_loopStep hstep <;> simp_all [WatchState.rank, Phase.rank] <;> omega

/-- Only an event that arrives raises the rank. -/
theorem rank_le_of_step {s s' : WatchState} {a : WatchAction} (hstep : WatchStep s a s')
    (hevent : ∀ event, a ≠ .arrive event) : s'.rank ≤ s.rank := by
  cases hstep with
  | loop hloop => exact Nat.le_of_lt (rank_lt_of_loopStep hloop)
  | arrive => exact absurd rfl (hevent s.arrivals)
  | pass => exact Nat.le_refl _

theorem now_le_of_step {s s' : WatchState} {a : WatchAction} (hstep : WatchStep s a s') :
    s.now ≤ s'.now := by
  cases hstep with
  | loop hloop => cases loopMove_of_loopStep hloop <;> exact Nat.le_refl _
  | arrive => exact Nat.le_refl _
  | pass => exact Nat.le_add_right _ _

variable (run : WatchRun)

theorem now_mono {i j : ℕ} (hij : i ≤ j) : (run.state i).now ≤ (run.state j).now :=
  run.kept (P := fun s => (run.state i).now ≤ s.now) hij
    (fun k _ hle => Nat.le_trans hle (now_le_of_step (run.step k))) (Nat.le_refl _)

/-- Without further events and steps of the loop, only time passes. -/
theorem eq_pass_of_step {s s' : WatchState} {a : WatchAction} (hstep : WatchStep s a s')
    (hevent : ∀ event, a ≠ .arrive event) (hloop : loopStep s ≠ some (a, s')) :
    ∃ duration, s' = s.pass duration := by
  cases hstep with
  | loop h => exact absurd h hloop
  | arrive => exact absurd rfl (hevent s.arrivals)
  | pass duration => exact ⟨duration, rfl⟩

/-- After every point of a run the loop waits for an event at some time, and the channel
is empty. -/
theorem exists_idle (i : ℕ) : ∃ j ≥ i, Idle (run.state j) := by
  obtain ⟨n, hfinite⟩ := run.finite
  obtain ⟨m, hnm, hnone, hdisabled⟩ := run.moves_end run.fair WatchState.rank
    (fun k hk => rank_le_of_step (run.step k) (hfinite k hk))
    (fun _ _ _ hstep => rank_lt_of_loopStep hstep)
  have hpass : ∀ k ≥ m, ∃ duration, run.state (k + 1) = (run.state k).pass duration :=
    fun k hk => eq_pass_of_step (run.step k) (hfinite k (Nat.le_trans hnm hk)) (hnone k hk)
  obtain ⟨j, hj, hstill⟩ := hdisabled (max i m)
  rcases idle_or_polling hstill with hidle | ⟨deadline, timeout, hphase, hchannel, -⟩
  · exact ⟨j, Nat.le_trans (Nat.le_max_left i m) hj, hidle⟩
  · -- the timeout comes, and then the loop could go on for ever
    obtain ⟨l, hl⟩ := run.timed timeout
    obtain ⟨k, hk, hstuck⟩ := hdisabled (max j l)
    have hkept : (run.state k).phase = .polling deadline timeout ∧ (run.state k).channel = [] := by
      refine run.kept (P := fun s => s.phase = .polling deadline timeout ∧ s.channel = [])
        (Nat.le_trans (Nat.le_max_left j l) hk) (fun q hq hstate => ?_) ⟨hphase, hchannel⟩
      obtain ⟨duration, hnext⟩ :=
        hpass q (Nat.le_trans (Nat.le_trans (Nat.le_max_right i m) hj) hq)
      rw [hnext]
      exact hstate
    have htime : timeout ≤ (run.state k).now :=
      Nat.le_trans hl (now_mono run (Nat.le_trans (Nat.le_max_right j l) hk))
    rcases idle_or_polling hstuck with ⟨hwaiting, -⟩ | ⟨_, _, hpolling, -, hlt⟩
    · rw [hkept.1] at hwaiting
      cases hwaiting
    · rw [hkept.1] at hpolling
      cases hpolling
      exact absurd htime (Nat.not_le.mpr hlt)

theorem channel_of_arrive {s s' : WatchState} {event : ℕ}
    (hstep : WatchStep s (.arrive event) s') : event ∈ s'.channel := by
  cases hstep with
  | loop hloop => cases loopMove_of_loopStep hloop
  | arrive => exact List.mem_append_right _ (List.mem_singleton_self _)

/-- An event stays in the channel until it is received. -/
theorem channel_of_step {s s' : WatchState} {a : WatchAction} (hstep : WatchStep s a s')
    {event : ℕ} (hevent : event ∈ s.channel) : event ∈ s'.channel ∨ a = .receive event := by
  cases hstep with
  | loop hloop =>
      cases loopMove_of_loopStep hloop with
      | first _ hchannel | further _ hchannel =>
          rw [hchannel] at hevent
          rcases List.mem_cons.mp hevent with rfl | hrest
          · exact .inr rfl
          · exact .inl hrest
      | _ => exact .inl hevent
  | arrive => exact .inl (List.mem_append_left _ hevent)
  | pass => exact .inl hevent

/-- Something was received and no rebuild has started since. -/
def Phase.Pending : Phase → Prop
  | .received | .draining _ | .measured _ _ | .polling _ _ | .triggered => True
  | .starting | .waiting | .rebuilding => False

theorem pending_of_receive {s s' : WatchState} {event : ℕ}
    (hstep : WatchStep s (.receive event) s') : s'.phase.Pending := by
  cases hstep with
  | loop hloop => cases loopMove_of_loopStep hloop <;> exact trivial

/-- What was received is pending until a rebuild starts. -/
theorem pending_of_step {s s' : WatchState} {a : WatchAction} (hstep : WatchStep s a s')
    (hpending : s.phase.Pending) : s'.phase.Pending ∨ a = .startRebuild := by
  cases hstep with
  | loop hloop =>
      cases loopMove_of_loopStep hloop with
      | trigger => exact .inr rfl
      | started hphase | first hphase | rebuilt hphase =>
          rw [hphase] at hpending
          cases hpending
      | _ => exact .inl trivial
  | arrive => exact .inl hpending
  | pass => exact .inl hpending

/-- Every event that arrives is received, and a rebuild starts after that. -/
theorem noneLost (i : ℕ) (event : ℕ) (harrive : run.action i = .arrive event) :
    ∃ j k, i < j ∧ j < k ∧ run.action j = .receive event ∧ run.action k = .startRebuild := by
  obtain ⟨l, hl, -, hempty⟩ := exists_idle run (i + 1)
  have hchannel : event ∈ (run.state (i + 1)).channel :=
    channel_of_arrive (harrive ▸ run.step i)
  rcases run.kept_until (P := fun s => event ∈ s.channel) (Q := fun a => a = .receive event) hl
    (fun k _ => channel_of_step (run.step k)) hchannel with hstays | ⟨j, hij, -, hreceive⟩
  · rw [hempty] at hstays
    cases hstays
  obtain ⟨l', hl', hwaiting, -⟩ := exists_idle run (j + 1)
  have hpending : (run.state (j + 1)).phase.Pending :=
    pending_of_receive (hreceive ▸ run.step j)
  rcases run.kept_until (P := fun s => s.phase.Pending) (Q := fun a => a = .startRebuild) hl'
    (fun k _ => pending_of_step (run.step k)) hpending with hstays | ⟨k, hjk, -, hrebuild⟩
  · rw [hwaiting] at hstays
    cases hstays
  exact ⟨j, k, hij, hjk, hreceive, hrebuild⟩

/-! ## When a rebuild waits for quiet -/

/-- The inner loop receives nothing after the instant at which the window began. -/
def InTime (s : WatchState) (a : WatchAction) : Prop :=
  match s.phase, a with
  | .polling deadline _, .receive _ => s.now + debounce ≤ deadline
  | _, _ => True

/-- A window from some time on is over before the next rebuild. -/
def WindowFrom (t : ℕ) (s : WatchState) : Prop :=
  match s.phase with
  | .received => t ≤ s.now
  | .draining deadline => t + debounce ≤ deadline
  | .measured deadline remaining => t + debounce ≤ deadline ∧ deadline ≤ s.now + remaining
  | .polling deadline timeout => t + debounce ≤ deadline ∧ deadline ≤ timeout
  | .starting | .waiting | .triggered | .rebuilding => t + debounce ≤ s.now

/-- A window begins at an event that is received in time. -/
theorem windowFrom_of_receive {s s' : WatchState} {event : ℕ}
    (hstep : WatchStep s (.receive event) s') (htime : InTime s (.receive event)) :
    WindowFrom s.now s' := by
  cases hstep with
  | loop hloop =>
      cases loopMove_of_loopStep hloop with
      | first => exact Nat.le_refl _
      | further hphase =>
          unfold InTime at htime
          rw [hphase] at htime
          exact htime

theorem windowFrom_of_step {t : ℕ} {s s' : WatchState} {a : WatchAction}
    (hstep : WatchStep s a s') (hwindow : WindowFrom t s) : WindowFrom t s' := by
  unfold WindowFrom at hwindow
  cases hstep with
  | loop hloop =>
      cases loopMove_of_loopStep hloop with
      | started hphase | trigger hphase | rebuilt hphase =>
          rw [hphase] at hwindow
          exact hwindow
      | first hphase =>
          rw [hphase] at hwindow
          exact Nat.le_trans (Nat.le_add_right _ _) hwindow
      | window hphase =>
          rw [hphase] at hwindow
          exact Nat.add_le_add_right hwindow _
      | elapsed hphase helapsed =>
          rw [hphase] at hwindow
          exact Nat.le_trans hwindow helapsed
      | @measure deadline hphase hopen =>
          rw [hphase] at hwindow
          exact ⟨hwindow, by dsimp only; omega⟩
      | poll hphase =>
          rw [hphase] at hwindow
          exact hwindow
      | further hphase =>
          rw [hphase] at hwindow
          exact hwindow.1
      | timeout hphase _ htimeout =>
          rw [hphase] at hwindow
          exact Nat.le_trans hwindow.1 (Nat.le_trans hwindow.2 htimeout)
  | arrive => exact hwindow
  | pass duration =>
      unfold WindowFrom WatchState.pass
      cases hphase : s.phase <;> simp only [hphase] at hwindow ⊢ <;> omega

theorem triggered_of_startRebuild {s s' : WatchState}
    (hstep : WatchStep s .startRebuild s') : s.phase = .triggered := by
  cases hstep with
  | loop hloop =>
      cases loopMove_of_loopStep hloop with
      | trigger hphase => exact hphase

/-- In a run whose inner loop receives nothing late, no event is lost and every rebuild
waits for quiet. Events arrive at any moment, during a rebuild as well; the run is weakly
fair to the loop. -/
theorem debounced_of_inTime (htime : ∀ i, InTime (run.state i) (run.action i)) :
    Debounced run := by
  refine ⟨noneLost run, fun k hrebuild j hjk event hreceive => ?_⟩
  have hbegins : WindowFrom (run.state j).now (run.state (j + 1)) :=
    windowFrom_of_receive (hreceive ▸ run.step j) (hreceive ▸ htime j)
  have hwindow : WindowFrom (run.state j).now (run.state k) :=
    run.kept hjk (fun q _ => windowFrom_of_step (run.step q)) hbegins
  have htriggered : (run.state k).phase = .triggered :=
    triggered_of_startRebuild (hrebuild ▸ run.step k)
  unfold WindowFrom at hwindow
  rw [htriggered] at hwindow
  exact hwindow

/-! ## Runs by script -/

/-- What happens next. -/
inductive Choice
  | loop
  | arrive
  | pass (duration : ℕ)
deriving DecidableEq, Repr

/-- The action and the state that a choice leads to. Where the loop waits, no time
passes. -/
def chosen (s : WatchState) : Choice → WatchAction × WatchState
  | .loop => (loopStep s).getD (.pass 0, s.pass 0)
  | .arrive => (.arrive s.arrivals, s.arrive)
  | .pass duration => (.pass duration, s.pass duration)

theorem watchStep_chosen (s : WatchState) (choice : Choice) :
    WatchStep s (chosen s choice).1 (chosen s choice).2 := by
  cases choice with
  | loop =>
      rw [chosen]
      cases hstep : loopStep s with
      | none => exact .pass s 0
      | some move => exact .loop hstep
  | arrive => exact .arrive s
  | pass duration => exact .pass s duration

/-- After the choices of the script only time passes. -/
def scripted (script : List Choice) (i : ℕ) : Choice := script[i]?.getD (.pass 1)

abbrev scriptedRun (script : List Choice) : LabelledRun WatchStep initial :=
  .ofChoices chosen watchStep_chosen initial (scripted script)

theorem scripted_of_length_le {script : List Choice} {i : ℕ} (hi : script.length ≤ i) :
    scripted script i = .pass 1 := by
  rw [scripted, List.getElem?_eq_none hi, Option.getD_none]

theorem state_scriptedRun (script : List Choice) (d : ℕ) :
    (scriptedRun script).state (script.length + d) =
      ((scriptedRun script).state script.length).pass d := by
  induction d with
  | zero => rfl
  | succ d ih =>
      have hnext : (scriptedRun script).state (script.length + d + 1) =
          (chosen ((scriptedRun script).state (script.length + d))
            (scripted script (script.length + d))).2 := rfl
      rw [← Nat.add_assoc, hnext, scripted_of_length_le (Nat.le_add_right _ _), ih]
      rfl

instance (s : WatchState) : Decidable (Idle s) := inferInstanceAs (Decidable (_ ∧ _))

/-- A script that leaves the loop waiting for an event is a run. -/
def WatchRun.ofScript (script : List Choice)
    (hidle : Idle ((scriptedRun script).state script.length)) : WatchRun where
  toLabelledRun := scriptedRun script
  finite := by
    refine ⟨script.length, fun i hi event heq => ?_⟩
    have haction : (scriptedRun script).action i = (chosen ((scriptedRun script).state i)
        (scripted script i)).1 := rfl
    rw [haction, scripted_of_length_le hi] at heq
    cases heq
  timed t := ⟨script.length + t, by rw [state_scriptedRun]; exact Nat.le_add_left _ _⟩
  fair i := by
    refine ⟨script.length + i, Nat.le_add_left _ _, .inr ?_⟩
    rw [state_scriptedRun]
    simp [loopStep, WatchState.pass, hidle.1, hidle.2]

instance (s : WatchState) (a : WatchAction) : Decidable (InTime s a) := by
  unfold InTime
  split <;> infer_instance

theorem inTime_ofScript {script : List Choice}
    (hidle : Idle ((scriptedRun script).state script.length))
    (htime : ∀ i < script.length,
      InTime ((scriptedRun script).state i) ((scriptedRun script).action i)) (i : ℕ) :
    InTime ((WatchRun.ofScript script hidle).state i)
      ((WatchRun.ofScript script hidle).action i) := by
  by_cases hi : i < script.length
  · exact htime i hi
  · obtain ⟨d, rfl⟩ := Nat.exists_eq_add_of_le (Nat.not_lt.mp hi)
    have hphase : ((WatchRun.ofScript script hidle).state (script.length + d)).phase =
        .waiting := by
      rw [WatchRun.ofScript, state_scriptedRun]
      exact hidle.1
    unfold InTime
    rw [hphase]
    trivial

/-- From the deadline of a window to its timeout. -/
def poll : List Choice := [.loop, .loop]

/-- An event, and a rebuild after it. -/
def oneEvent : List Choice :=
  [.loop, .arrive, .loop, .loop] ++ poll ++ [.pass debounce, .loop, .loop, .loop]

theorem idle_oneEvent : Idle ((scriptedRun oneEvent).state oneEvent.length) := by
  decide +kernel

theorem debounced_oneEvent : Debounced (.ofScript oneEvent idle_oneEvent) :=
  debounced_of_inTime _ (inTime_ofScript idle_oneEvent (by decide +kernel))

/-! ## A burst -/

/-- A second event comes 150 ms after the first, and a rebuild 50 ms later. -/
def burst : List Choice :=
  [.loop, .arrive, .loop, .loop] ++ poll ++ [.pass 150000000, .arrive, .loop] ++ poll ++
    [.pass 50000000, .loop, .loop, .loop]

theorem idle_burst : Idle ((scriptedRun burst).state burst.length) := by decide +kernel

/-- The rebuild does not wait for quiet after the second event. -/
theorem not_debounced_burst : ¬ Debounced (.ofScript burst idle_burst) := by
  intro hdebounced
  have hlate : (scriptedRun burst).action 8 = .receive 1 ∧
      (scriptedRun burst).action 13 = .startRebuild ∧
      ((scriptedRun burst).state 13).now < ((scriptedRun burst).state 8).now + debounce := by
    decide +kernel
  obtain ⟨hreceive, hrebuild, hlt⟩ := hlate
  exact absurd (hdebounced.quiet 13 hrebuild 8 (by decide) 1 hreceive) (Nat.not_le.mpr hlt)

end Watch

end HabitatGraph
