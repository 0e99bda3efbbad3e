import HabitatGraph.Daemon.ServeUds

/-! # Runs of the daemon

Whatever connections, reloads and failures a run of the daemon has, and in whatever order
its tasks take their steps, every task answers the lines of its own client in their order,
no permit is lost, and a task whose client closes and reads comes to its end, whatever the
other clients do. A task whose client stays silent keeps its permit.
-/

namespace HabitatGraph

open SwapCell Utf8Lines WarmState

namespace DaemonStep

variable {server : Server} {s s' : DaemonState server}
  {a : DaemonAction × Option (Caller × Label Query Graph Answer)}

/-- What a step does to the warm state is a step of the warm state. -/
theorem warm (hstep : DaemonStep server s a s') : Step (object server) s.warm a.2 s'.warm := by
  cases hstep with
  | task hget hmove hwarm => exact hwarm
  | other hwarm => exact hwarm
  | _ => exact .rest s.warm

/-- A step of a task. -/
theorem task_cases (hstep : DaemonStep server s a s') {k : ℕ} (ha : a.1 = .task k) :
    ∃ c c' label, s.connections[k]? = some c ∧ TaskMove server c label c' ∧
      Step (object server) s.warm (label.map fun l => (.task k, l)) s'.warm ∧
      s'.connections = s.connections.set k c' := by
  cases hstep with
  | task hget hmove hwarm =>
      cases ha
      exact ⟨_, _, _, hget, hmove, hwarm, rfl⟩
  | _ => cases ha

/-- A step that is not one of a task leaves its call as it is. -/
theorem phase_eq (hstep : DaemonStep server s a s') {k : ℕ} (ha : a.1 ≠ .task k) :
    s'.warm.phase (.task k) = s.warm.phase (.task k) := by
  refine hstep.warm.phase_of_ne fun label heq => ?_
  cases hstep with
  | @task k' c c' label' warm hget hmove hwarm =>
      cases label' with
      | none => cases heq
      | some label' =>
          cases heq
          exact ha rfl
  | @other label' warm hwarm =>
      cases label' <;> cases heq
  | _ => cases heq

/-- A connection that is served after a step was served before it, with its client's move,
or is the one that the step accepted. -/
theorem connection_cases (hstep : DaemonStep server s a s') {k : ℕ} {c' : Connection}
    (hget : s'.connections[k]? = some c') (ha : a.1 ≠ .task k) :
    (∃ c, s.connections[k]? = some c ∧ (c' = c ∨ ClientMove c c')) ∨
      k = s.connections.length ∧ ∃ stream, c' = .accepted stream := by
  cases hstep with
  | serve stream hpermit =>
      dsimp only at hget
      rw [List.getElem?_append] at hget
      split at hget
      next => exact .inl ⟨c', hget, .inl rfl⟩
      next hk =>
        obtain ⟨hlt, hc⟩ := List.getElem?_eq_some_iff.mp hget
        rw [List.length_singleton] at hlt
        refine .inr ⟨by omega, stream, ?_⟩
        rw [← hc, List.getElem_singleton]
  | @task k' c c'' label warm hget' hmove hwarm =>
      refine .inl ⟨c', ?_, .inl rfl⟩
      rw [← hget]
      exact (List.getElem?_set_ne fun heq => ha (congrArg DaemonAction.task heq)).symm
  | @client k' c c'' hget' hmove =>
      dsimp only at hget
      by_cases heq : k' = k
      · subst heq
        rw [List.getElem?_set_self (List.getElem?_eq_some_iff.mp hget').1] at hget
        cases hget
        exact .inl ⟨c, hget', .inr hmove⟩
      · rw [List.getElem?_set_ne heq] at hget
        exact .inl ⟨c', hget, .inl rfl⟩
  | _ => exact .inl ⟨c', hget, .inl rfl⟩

/-- An element of a list of which one element is replaced. -/
theorem getElem?_set_cases {xs : List Connection} {i j : ℕ} {x y : Connection} (z : Connection)
    (hi : xs[i]? = some x) (hj : xs[j]? = some y) :
    j = i ∧ y = x ∧ (xs.set j z)[i]? = some z ∨ (xs.set j z)[i]? = some x := by
  by_cases heq : j = i
  · subst heq
    exact .inl ⟨rfl, Option.some.inj (hj.symm.trans hi),
      List.getElem?_set_self (List.getElem?_eq_some_iff.mp hi).1⟩
  · exact .inr ((List.getElem?_set_ne heq).trans hi)

/-- A connection stays where it is. Only its task and its client change it, and nothing does
once its task has ended. -/
theorem connection_kept (hstep : DaemonStep server s a s') {k : ℕ} {c : Connection}
    (hget : s.connections[k]? = some c) :
    ∃ c', s'.connections[k]? = some c' ∧ (c.phase.isOpen = false → c' = c) ∧
      (a.1 ≠ .task k → c' = c ∨ ClientMove c c') := by
  obtain ⟨hk, hc⟩ := List.getElem?_eq_some_iff.mp hget
  cases hstep with
  | serve stream hpermit =>
      exact ⟨c, by rw [← hget]; exact List.getElem?_append_left hk, fun _ => rfl,
        fun _ => .inl rfl⟩
  | @task k' c₀ c' label warm hget' hmove hwarm =>
      rcases getElem?_set_cases c' hget hget' with ⟨rfl, rfl, hset⟩ | hset
      · refine ⟨c', hset, fun hclosed => ?_, fun hne => absurd rfl hne⟩
        rw [hmove.wasOpen] at hclosed
        cases hclosed
      · exact ⟨c, hset, fun _ => rfl, fun _ => .inl rfl⟩
  | @client k' c₀ c' hget' hmove =>
      rcases getElem?_set_cases c' hget hget' with ⟨rfl, rfl, hset⟩ | hset
      · refine ⟨c', hset, fun hclosed => ?_, fun _ => .inr hmove⟩
        rw [hmove.wasOpen] at hclosed
        cases hclosed
      · exact ⟨c, hset, fun _ => rfl, fun _ => .inl rfl⟩
  | _ => exact ⟨c, hget, fun _ => rfl, fun _ => .inl rfl⟩

end DaemonStep

section Runs

variable {server : Server} {graph : Graph}
  (run : LabelledRun (DaemonStep server) (.initial server graph))

/-- The run of the warm state in a run of the daemon. -/
def warmRun : LabelledRun (Step (κ := Caller) (object server))
    (.new (publish server.toLowercase graph)) where
  state i := (run.state i).warm
  action i := (run.action i).2
  state_zero := by rw [run.state_zero]; rfl
  step i := (run.step i).warm

/-! ## Answers -/

/-- Every task has answered some lines of its client, and a connection to come has made no
call. -/
structure Sessions (n : ℕ) : Prop where
  served : ∀ k c, (run.state n).connections[k]? = some c → ∃ answered, InOrder n answered ∧
    Session server (publishedAt (warmRun run)) n c ((run.state n).warm.phase (.task k)) answered
  idle : ∀ k, (run.state n).connections.length ≤ k →
    (run.state n).warm.phase (.task k) = .idle

variable {run} in
theorem Sessions.served_succ {n : ℕ} (h : Sessions run n) (k : ℕ) (c' : Connection)
    (hget : (run.state (n + 1)).connections[k]? = some c') : ∃ answered,
    InOrder (n + 1) answered ∧ Session server (publishedAt (warmRun run)) (n + 1) c'
      ((run.state (n + 1)).warm.phase (.task k)) answered := by
  have hstep := run.step n
  by_cases ha : (run.action n).1 = .task k
  · obtain ⟨c, c'', label, hget', hmove, hwarm, hset⟩ := hstep.task_cases ha
    obtain ⟨answered, horder, hsession⟩ := h.served k c hget'
    have hk := (List.getElem?_eq_some_iff.mp hget').1
    rw [hset, List.getElem?_set_self hk, Option.some.injEq] at hget
    rw [← hget]
    exact hmove.session hwarm (cell_eq (warmRun run) n) horder hsession
  · rw [hstep.phase_eq ha]
    rcases hstep.connection_cases hget ha with ⟨c, hget', hsame⟩ | ⟨rfl, stream, rfl⟩
    · obtain ⟨answered, horder, hsession⟩ := h.served k c hget'
      refine ⟨answered, horder.mono (Nat.le_succ n), ?_⟩
      rcases hsame with rfl | hmove
      · exact hsession.succ
      · exact hmove.session hsession
    · rw [h.idle _ (Nat.le_refl _)]
      exact ⟨[], inOrder_nil _, .accepted stream⟩

variable {run} in
theorem Sessions.idle_succ {n : ℕ} (h : Sessions run n) (k : ℕ)
    (hk : (run.state (n + 1)).connections.length ≤ k) :
    (run.state (n + 1)).warm.phase (.task k) = .idle := by
  have hstep := run.step n
  have hlength : (run.state n).connections.length ≤ k := by
    refine Nat.not_lt.mp fun hlt => ?_
    obtain ⟨c', hget, -⟩ := hstep.connection_kept (List.getElem?_eq_getElem hlt)
    have := (List.getElem?_eq_some_iff.mp hget).1
    omega
  rw [hstep.phase_eq, h.idle k hlength]
  intro ha
  obtain ⟨c, -, -, hget, -⟩ := hstep.task_cases ha
  have := (List.getElem?_eq_some_iff.mp hget).1
  omega

theorem sessions (n : ℕ) : Sessions run n := by
  induction n with
  | zero =>
      constructor
      · intro k c hget
        rw [run.state_zero] at hget
        cases hget
      · intro k _
        rw [run.state_zero]
        rfl
  | succ n ih => exact ⟨ih.served_succ, ih.idle_succ⟩

end Runs

/-- Each of the lines that were read took a byte. -/
theorem LinesRead.length_le {stream rest : Reader} {ended : Bool} {raws : List Bytes}
    (h : LinesRead stream ended raws rest) : raws.length ≤ stream.bytes.length := by
  obtain ⟨last, hlast⟩ : ∃ last, readResults maxLineBytes 1 rest = [last] := by
    rw [readResults]
    split <;> exact ⟨_, rfl⟩
  have hresults := h [] 1 fun _ => rfl
  rw [List.append_nil, List.append_nil, hlast, readResults_eq] at hresults
  have hlength := congrArg List.length hresults
  rw [List.length_take, List.length_append, List.length_map, List.length_singleton] at hlength
  have hbounded := length_boundedResults_le maxLineBytes lineContent
    (fun line => line.carried.length ≤ maxLineBytes) (stream.lines []).1 (stream.lines []).2
  have hbytes := length_lines_le stream
  omega

/-- Lines that were all answered from one graph, to the end of the stream. -/
theorem handleConn_of_linesRead {server : Server} (graph : Graph) {stream reader rest : Reader}
    {ended : Bool} {raws : List Bytes} (hlines : LinesRead stream ended raws reader)
    (hend : readBoundedLine reader maxLineBytes = (.ok none, rest)) :
    server.handleConn graph stream = writeLines (raws.flatMap (server.lineReply graph)) := by
  have hlength := hlines.length_le
  obtain ⟨calls, hcalls⟩ := Nat.exists_eq_add_of_le hlength
  have hlast : readResults maxLineBytes (calls + 1) reader = [.ok none] := by
    rw [readResults, hend]
  have hresults := hlines [] (calls + 1) fun _ => rfl
  rw [List.append_nil, List.append_nil, hlast] at hresults
  rw [Server.handleConn, Server.connLoop_eq, hcalls, Nat.add_assoc, hresults,
    List.flatMap_append, List.flatMap_map]
  exact congrArg writeLines (List.append_nil _)

theorem replies_of_const {server : Server} {graphAt : ℕ → Graph} {graph : Graph}
    {answered : List (Bytes × ℕ)} (hgraph : ∀ a ∈ answered, graphAt a.2 = graph) :
    replies server graphAt answered =
      writeLines ((answered.map Prod.fst).flatMap (server.lineReply graph)) := by
  rw [replies, List.flatMap_map]
  exact congrArg writeLines (List.flatMap_congr fun a ha => by rw [hgraph a ha])

theorem Session.written_of_eof {server : Server} {graphAt : ℕ → Graph} {n : ℕ} {c : Connection}
    {phase : Phase (Snapshot server.toLowercase) Query Graph} {answered : List (Bytes × ℕ)}
    (h : Session server graphAt n c phase answered) (hclosed : c.phase = .closed .eof)
    {graph : Graph} (hgraph : ∀ a ∈ answered, graphAt a.2 = graph) :
    c.written = server.handleConn graph c.stream := by
  cases h with
  | eof hlines hend =>
      rw [handleConn_of_linesRead graph hlines hend]
      exact replies_of_const hgraph
  | _ => cases hclosed

section Runs

variable {server : Server} {graph : Graph}
  (run : LabelledRun (DaemonStep server) (.initial server graph))

theorem permitted (n : ℕ) : (run.state n).Permitted := by
  refine run.kept (P := DaemonState.Permitted) (Nat.zero_le n)
    (fun i _ => DaemonState.permitted_step (run.step i)) ?_
  rw [run.state_zero]
  exact DaemonState.permitted_initial graph

/-- How many connections came in the first steps. -/
def accepted (n : ℕ) : ℕ :=
  (List.range n).countP fun i =>
    match (run.action i).1 with
    | .accept _ => true
    | _ => false

theorem connections_dropped_eq (n : ℕ) :
    (run.state n).connections.length + (run.state n).dropped = accepted run n := by
  induction n with
  | zero =>
      rw [run.state_zero]
      rfl
  | succ n ih =>
      rw [accepted, List.range_succ, List.countP_append, ← accepted, ← ih, List.countP_singleton]
      have hstep := run.step n
      generalize run.action n = a at hstep
      generalize run.state (n + 1) = s' at hstep
      cases hstep with
      | serve stream hpermit =>
          dsimp only
          rw [List.length_append, List.length_singleton]
          simp only [↓reduceIte]
          omega
      | drop stream hpermit =>
          simp only [↓reduceIte]
          omega
      | task hget hmove hwarm =>
          dsimp only
          rw [List.length_set]
          rfl
      | client hget hmove =>
          dsimp only
          rw [List.length_set]
          rfl
      | _ => rfl

/-- Never are more connections served than there are permits, every permit is free or held
by a task, and a connection is turned away only when all are held. This is so at every
moment of every run, whatever tasks, clients and reloads do, fair or not. -/
theorem capacity (n : ℕ) :
    (run.state n).serving ≤ maxConnections ∧
      (run.state n).permits + (run.state n).serving = maxConnections ∧
      (run.state n).connections.length + (run.state n).dropped = accepted run n ∧
      ∀ stream, (run.action n).1 = .accept stream →
        ((run.state (n + 1)).dropped = (run.state n).dropped ↔
          (run.state n).serving < maxConnections) := by
  have hpermitted := permitted run n
  refine ⟨Nat.le_trans (Nat.le_add_left _ _) hpermitted.le, hpermitted,
    connections_dropped_eq run n, ?_⟩
  intro stream haccept
  have hstep := run.step n
  rw [← Prod.eta (run.action n), haccept] at hstep
  rcases DaemonState.accept_cases hpermitted hstep with ⟨hfree, -, hdropped⟩ | ⟨hfull, -, hdropped⟩
  · exact iff_of_true hdropped hfree
  · rw [hdropped]
    exact iff_of_false (by omega) (by omega)

end Runs

/-! ## Tasks end -/

theorem length_bytes_cons (chunk : Chunk) (chunks : Reader) :
    Reader.bytes (chunk :: chunks) = chunk.1 ++ Reader.bytes chunks := List.flatten_cons

theorem bytes_consume (chunk : Chunk) (chunks : Reader) (count : ℕ) :
    Reader.bytes (consume (chunk :: chunks) count) = chunk.1.drop count ++ Reader.bytes chunks := by
  rw [consume]
  split
  next hempty => rw [hempty, List.nil_append]
  next hrest => rw [length_bytes_cons]

/-- A line that is read takes a byte at least. -/
theorem length_bytes_lt {maxBytes : ℕ} {reader rest : Reader} {buf raw : Bytes}
    (hread : readLoop maxBytes reader buf = (.ok (some raw), rest)) :
    rest.bytes.length < buf.length + reader.bytes.length := by
  induction reader generalizing buf with
  | nil =>
      rw [readLoop] at hread
      cases buf with
      | nil => cases hread
      | cons byte buf =>
          cases hread
          exact Nat.zero_lt_succ _
  | cons chunk chunks ih =>
      have hpos := List.length_pos_of_ne_nil chunk.2
      rw [readLoop] at hread
      rw [length_bytes_cons, List.length_append]
      split at hread
      next nlPos hfind =>
        cases hread
        rw [bytes_consume, List.length_append, List.length_drop]
        omega
      next hfind =>
        split at hread
        next => cases hread
        next hfits =>
          have hrest := ih hread
          rw [List.length_append] at hrest
          omega

/-- How many steps a task has left at most, with the bytes that it has not read. -/
def TaskPhase.rank {V : Type*} (unread : ℕ) : TaskPhase → Phase V Query Graph → ℕ
  | .closed _, _ => 0
  | _, .begun _ => 4 * unread + 3
  | .waiting, _ => 4 * unread + 2
  | .reading, _ => 4 * unread + 1

theorem TaskPhase.rank_pos {V : Type*} (unread : ℕ) {phase : TaskPhase}
    (hopen : phase.isOpen = true) (call : Phase V Query Graph) : 0 < phase.rank unread call := by
  cases phase with
  | closed why => cases hopen
  | _ => cases call <;> exact Nat.succ_pos _

theorem TaskPhase.rank_reading_lt {V : Type*} {unread unread' : ℕ} (hlt : unread' < unread)
    (call : Phase V Query Graph) :
    TaskPhase.reading.rank unread' call < TaskPhase.reading.rank unread call := by
  cases call <;> simp only [TaskPhase.rank] <;> omega

section Runs

variable {server : Server}

def Connection.rank (c : Connection) (call : Phase (Snapshot server.toLowercase) Query Graph) : ℕ :=
  c.phase.rank c.reader.bytes.length call

/-- A step of a task lowers its rank. -/
theorem TaskMove.rank_lt {k : ℕ} {c c' : Connection} {label : Option (Label Query Graph Answer)}
    {warm warm' : State Caller (Snapshot server.toLowercase) Query Graph}
    (hmove : TaskMove server c label c')
    (hwarm : Step (object server) warm (label.map fun l => (.task k, l)) warm') :
    c'.rank (warm'.phase (.task k)) < c.rank (warm.phase (.task k)) := by
  have hpos := c.phase.rank_pos c.reader.bytes.length hmove.wasOpen (warm.phase (.task k))
  unfold Connection.rank
  cases hmove with
  | skip hphase hcame hread hblank =>
      cases hwarm
      have hlt := length_bytes_lt hread
      rw [List.length_nil, Nat.zero_add] at hlt
      rw [hphase]
      exact TaskPhase.rank_reading_lt hlt _
  | ask hphase hcame hread hblank =>
      obtain ⟨phase, value, hmove, rfl⟩ := step_some_iff.mp hwarm
      have hlt := length_bytes_lt hread
      rw [List.length_nil] at hlt
      rw [State.put_phase, hphase]
      generalize warm.phase (.task k) = before at hmove
      cases hmove
      simp only [TaskPhase.rank]
      omega
  | load hphase =>
      obtain ⟨phase, value, hmove, rfl⟩ := step_some_iff.mp hwarm
      rw [State.put_phase, hphase]
      generalize warm.phase (.task k) = before at hmove
      cases hmove
      exact Nat.lt_succ_self _
  | @reply text hphase hroom =>
      obtain ⟨phase, value, hmove, rfl⟩ := step_some_iff.mp hwarm
      rw [State.put_phase, hphase]
      generalize warm.phase (.task k) = before at hmove
      generalize Reply.answer (Answer.response text) = given at hmove
      cases hmove <;> exact Nat.lt_succ_self _
  | _ => exact hpos

/-- A client that has closed its side leaves the steps of its task as they are. -/
theorem ClientMove.rank_eq {c c' : Connection} (hmove : ClientMove c c') (hended : c.ended = true)
    (call : Phase (Snapshot server.toLowercase) Query Graph) : c'.rank call = c.rank call := by
  cases hmove with
  | sends hopen chunk hsends =>
      rw [hended] at hsends
      cases hsends
  | _ => rfl

/-- A task has not ended. -/
def IsOpen (k : ℕ) (s : DaemonState server) : Prop :=
  ∃ c, s.connections[k]? = some c ∧ c.phase.isOpen = true

/-- A task waits for its client: for more to come, or for room to write to. -/
def Connection.Waits (c : Connection) (call : Phase (Snapshot server.toLowercase) Query Graph) :
    Prop :=
  (c.phase = .reading ∧ ¬ c.CanRead) ∨
    (c.full = true ∧ ((∃ query snapshot, call = .loaded query snapshot) ∨
      (c.phase = .reading ∧ ∃ e rest, readBoundedLine c.reader maxLineBytes = (.error e, rest))))

/-- A task has not ended, and does not wait for its client. -/
def CanMove (k : ℕ) (s : DaemonState server) : Prop :=
  ∃ c, s.connections[k]? = some c ∧ c.phase.isOpen = true ∧ ¬ c.Waits (s.warm.phase (.task k))

/-- A task takes a step. -/
def Moves (k : ℕ) (s : DaemonState server)
    (a : DaemonAction × Option (Caller × Label Query Graph Answer)) (s' : DaemonState server) :
    Prop := a.1 = .task k ∧ DaemonStep server s a s'

def DaemonState.rank (s : DaemonState server) (k : ℕ) : ℕ :=
  (s.connections[k]?).elim 0 fun c => c.rank (s.warm.phase (.task k))

theorem Moves.rank_lt {k : ℕ} {s s' : DaemonState server}
    {a : DaemonAction × Option (Caller × Label Query Graph Answer)} (h : Moves k s a s') :
    s'.rank k < s.rank k := by
  obtain ⟨c, c', label, hget, hmove, hwarm, hset⟩ := h.2.task_cases h.1
  have hk := (List.getElem?_eq_some_iff.mp hget).1
  rw [DaemonState.rank, DaemonState.rank, hset, List.getElem?_set_self hk, hget]
  exact hmove.rank_lt hwarm

theorem DaemonStep.rank_le {k : ℕ} {s s' : DaemonState server} {c : Connection}
    {a : DaemonAction × Option (Caller × Label Query Graph Answer)}
    (hstep : DaemonStep server s a s') (hget : s.connections[k]? = some c)
    (hended : c.phase.isOpen = true → c.ended = true) : s'.rank k ≤ s.rank k := by
  by_cases ha : a.1 = .task k
  · exact Nat.le_of_lt (Moves.rank_lt ⟨ha, hstep⟩)
  · obtain ⟨c', hget', -, hsame⟩ := hstep.connection_kept hget
    rw [DaemonState.rank, DaemonState.rank, hget', hget, hstep.phase_eq ha]
    rcases hsame ha with rfl | hmove
    · exact Nat.le_refl _
    · exact Nat.le_of_eq (hmove.rank_eq (hended hmove.wasOpen) _)

/-- A task whose call is where its session says, and that does not wait for its client, can
go on without an error of its socket. -/
theorem Session.exists_move {graphAt : ℕ → Graph} {n k : ℕ} {c : Connection}
    {answered : List (Bytes × ℕ)} {warm : State Caller (Snapshot server.toLowercase) Query Graph}
    (h : Session server graphAt n c (warm.phase (.task k)) answered)
    (hopen : c.phase.isOpen = true) (hwaits : ¬ c.Waits (warm.phase (.task k))) :
    ∃ label c' warm', TaskMove server c label c' ∧ c'.phase ≠ .closed .failed ∧
      Step (object server) warm (label.map fun l => (.task k, l)) warm' := by
  generalize hcall : warm.phase (.task k) = call at h hwaits
  rw [Connection.Waits, not_or] at hwaits
  obtain ⟨hbytes, hroom⟩ := hwaits
  cases h with
  | @reading stream reader ended full _ hlines =>
      have hcame := not_not.mp fun hcame => hbytes ⟨rfl, hcame⟩
      rcases hread : readBoundedLine reader maxLineBytes with ⟨e | (_ | raw), rest⟩
      · have hfull : full = false :=
          eq_false_of_ne_true fun hfull => hroom ⟨hfull, .inr ⟨rfl, e, rest, hread⟩⟩
        exact ⟨none, _, warm, .tooLong rfl hcame hread (List.prefix_refl _) (List.prefix_refl _)
          (.inl hfull), nofun, .rest warm⟩
      · exact ⟨none, _, warm, .eof rfl hcame hread, nofun, .rest warm⟩
      · cases hblank : raw.all isAsciiWhitespace with
        | true => exact ⟨none, _, warm, .skip rfl hcame hread hblank, nofun, .rest warm⟩
        | false =>
            exact ⟨_, _, _, .ask rfl hcame hread hblank, nofun,
              (Move.invoke warm.cell _).step hcall⟩
  | asked => exact ⟨_, _, _, .load rfl, nofun, (Move.load warm.cell _).step hcall⟩
  | @loaded stream reader ended full =>
      have hfull : full = false :=
        eq_false_of_ne_true fun hfull => hroom ⟨hfull, .inl ⟨_, _, rfl⟩⟩
      exact ⟨_, _, _, .reply rfl (.inl hfull), nofun, (Move.answer warm.cell _ _).step hcall⟩
  | _ => cases hopen

variable {graph : Graph} (run : LabelledRun (DaemonStep server) (.initial server graph))

/-- A task that does not wait for its client can go on, whatever the others have done. -/
theorem exists_moves {n k : ℕ} (hmove : CanMove k (run.state n)) :
    ∃ a s', Moves k (run.state n) a s' ∧
      ∀ c', s'.connections[k]? = some c' → c'.phase ≠ .closed .failed := by
  obtain ⟨c, hget, hopen, hwaits⟩ := hmove
  obtain ⟨answered, -, hsession⟩ := (sessions run n).served k c hget
  obtain ⟨label, c', warm', hmove, hfailed, hwarm⟩ := hsession.exists_move hopen hwaits
  refine ⟨_, _, ⟨rfl, .task hget hmove hwarm⟩, ?_⟩
  intro c'' hget'
  rw [List.getElem?_set_self (List.getElem?_eq_some_iff.mp hget).1] at hget'
  cases hget'
  exact hfailed

theorem connection_later {n i k : ℕ} (hni : n ≤ i) {c : Connection}
    (hget : (run.state n).connections[k]? = some c) :
    ∃ c', (run.state i).connections[k]? = some c' := by
  refine run.kept (P := fun s => ∃ c', s.connections[k]? = some c') hni ?_ ⟨c, hget⟩
  rintro j - ⟨c', hget'⟩
  obtain ⟨c'', hget'', -⟩ := (run.step j).connection_kept hget'
  exact ⟨c'', hget''⟩

/-- A task that has ended does not start again. -/
theorem closed_later {m i k : ℕ} (hmi : m ≤ i) {c : Connection}
    (hget : (run.state m).connections[k]? = some c) (hclosed : ¬ IsOpen k (run.state m)) :
    ¬ IsOpen k (run.state i) := by
  obtain ⟨c', hget', hclosed'⟩ := run.kept
    (P := fun s => ∃ c', s.connections[k]? = some c' ∧ c'.phase.isOpen = false) hmi
    (by
      rintro j - ⟨c', hget', hclosed'⟩
      obtain ⟨c'', hget'', hsame, -⟩ := (run.step j).connection_kept hget'
      exact ⟨c'', hget'', hsame hclosed' ▸ hclosed'⟩)
    ⟨c, hget, eq_false_of_ne_true fun hopen => hclosed ⟨c, hget, hopen⟩⟩
  rintro ⟨c₀, hget₀, hopen⟩
  rw [hget'] at hget₀
  cases hget₀
  rw [hclosed'] at hopen
  cases hopen

/-- From some moment on the client of a task has closed its side and reads what is written,
as long as the task is open. -/
def Leaves (k : ℕ) : Prop :=
  ∃ m, ∀ i ≥ m, ∀ c, (run.state i).connections[k]? = some c → c.phase.isOpen = true →
    c.ended = true ∧ c.full = false

/-- A task comes to its end when its client leaves, and stays there. -/
theorem ends_of_leaves {k : ℕ} (hfair : run.WeaklyFair (CanMove k) (Moves k))
    (hleaves : Leaves run k) : ∃ m, ∀ i ≥ m, ¬ IsOpen k (run.state i) := by
  obtain ⟨n, hleaves⟩ := hleaves
  by_cases hnever : ∀ i ≥ n, ¬ IsOpen k (run.state i)
  · exact ⟨n, hnever⟩
  simp only [not_forall, not_not] at hnever
  obtain ⟨n', hn', c, hget, -⟩ := hnever
  have hrank : ∀ i ≥ n', (run.state (i + 1)).rank k ≤ (run.state i).rank k := by
    intro i hi
    obtain ⟨c', hget'⟩ := connection_later run hi hget
    exact (run.step i).rank_le hget' fun hopen =>
      (hleaves i (Nat.le_trans hn' hi) c' hget' hopen).1
  obtain ⟨-, -, -, hends⟩ := run.moves_end hfair (fun s => s.rank k) hrank
    fun s a s' hmoves => hmoves.rank_lt
  obtain ⟨m, hm, hstuck⟩ := hends n'
  obtain ⟨c', hget'⟩ := connection_later run hm hget
  -- a client that has left lets its task move as long as it is open
  have hclosed : ¬ IsOpen k (run.state m) := by
    rintro ⟨c₀, hget₀, hopen⟩
    obtain ⟨hended, hroom⟩ := hleaves m (Nat.le_trans hn' hm) c₀ hget₀ hopen
    refine hstuck ⟨c₀, hget₀, hopen, ?_⟩
    rintro (⟨-, hcame⟩ | ⟨hfull, -⟩)
    · exact hcame (.inl hended)
    · rw [hroom] at hfull
      cases hfull
  exact ⟨m, fun i hi => closed_later run hi hget' hclosed⟩

theorem serving_eq_zero {s : DaemonState server} (h : ∀ k, ¬ IsOpen k s) : s.serving = 0 := by
  rw [DaemonState.serving, List.countP_eq_zero]
  intro c hc hopen
  obtain ⟨k, hget⟩ := List.mem_iff_getElem?.mp hc
  exact h k ⟨c, hget, hopen⟩

/-- What holds of each number below a bound from a moment on holds of all from one on. -/
theorem exists_forall_lt {P : ℕ → ℕ → Prop} {bound : ℕ}
    (h : ∀ k < bound, ∃ m, ∀ i ≥ m, P k i) : ∃ m, ∀ i ≥ m, ∀ k < bound, P k i := by
  induction bound with
  | zero => exact ⟨0, fun i _ k hk => absurd hk (Nat.not_lt_zero k)⟩
  | succ bound ih =>
      obtain ⟨m, hm⟩ := ih fun k hk => h k (Nat.lt_succ_of_lt hk)
      obtain ⟨m', hm'⟩ := h bound (Nat.lt_succ_self bound)
      refine ⟨max m m', fun i hi k hk => ?_⟩
      rcases Nat.lt_succ_iff_lt_or_eq.mp hk with hlt | rfl
      · exact hm i (Nat.le_trans (Nat.le_max_left m m') hi) k hlt
      · exact hm' i (Nat.le_trans (Nat.le_max_right m m') hi)

theorem length_connections_le {n : ℕ}
    (hnone : ∀ i ≥ n, ∀ stream, (run.action i).1 ≠ .accept stream) {i : ℕ} (hi : n ≤ i) :
    (run.state i).connections.length ≤ (run.state n).connections.length := by
  refine LabelledRun.kept run
    (P := fun s => s.connections.length ≤ (run.state n).connections.length) hi ?_ (Nat.le_refl _)
  intro j hj hle
  have hstep := run.step j
  have haction := hnone j hj
  generalize run.action j = a at hstep haction
  generalize run.state (j + 1) = s' at hstep ⊢
  cases hstep with
  | serve stream hpermit => exact absurd rfl (haction stream)
  | drop stream hpermit => exact hle
  | task hget hmove hwarm =>
      dsimp only
      rwa [List.length_set]
  | client hget hmove =>
      dsimp only
      rwa [List.length_set]
  | _ => exact hle

/-- A task waits for nothing but its own client: one that does not can take its next step
without an error, whatever other tasks, clients and reloads do. When tasks take their steps
while they can, one whose client closes and reads comes to its end, though other clients
stay connected and silent; and when all clients do so and no connection comes any more,
every permit is free again. -/
theorem permits_return (hfair : ∀ k, run.WeaklyFair (CanMove k) (Moves k)) :
    (∀ i k, CanMove k (run.state i) → ∃ a s', Moves k (run.state i) a s' ∧
        ∀ c', s'.connections[k]? = some c' → c'.phase ≠ .closed .failed) ∧
      (∀ k, Leaves run k → ∃ m, ∀ i ≥ m, ¬ IsOpen k (run.state i)) ∧
      ∀ n, (∀ i ≥ n, ∀ stream, (run.action i).1 ≠ .accept stream) → (∀ k, Leaves run k) →
        ∃ m, ∀ i ≥ m, (run.state i).permits = maxConnections := by
  refine ⟨fun i k hmove => exists_moves run hmove, fun k => ends_of_leaves run (hfair k), ?_⟩
  intro n hnone hleaves
  obtain ⟨m, hm⟩ := exists_forall_lt (P := fun k i => ¬ IsOpen k (run.state i))
    fun k (_ : k < (run.state n).connections.length) => ends_of_leaves run (hfair k) (hleaves k)
  refine ⟨max m n, fun i hi => ?_⟩
  have hclosed : ∀ k, ¬ IsOpen k (run.state i) := by
    rintro k ⟨c, hget, hopen⟩
    have hlength := length_connections_le run hnone (Nat.le_trans (Nat.le_max_right m n) hi)
    have hk := (List.getElem?_eq_some_iff.mp hget).1
    exact hm i (Nat.le_trans (Nat.le_max_left m n) hi) k (by omega) ⟨c, hget, hopen⟩
  have hpermitted := permitted run i
  rw [DaemonState.Permitted, serving_eq_zero hclosed] at hpermitted
  exact hpermitted

end Runs

/-! ## A connection with one line -/

namespace OneLine

/-- The letter x and a line feed, one after the other. -/
def first : Reader := [⟨[120], by decide⟩]

def stream : Reader := first ++ [⟨[10], by decide⟩]

def graph : Graph := labelledGraph "old"

def request : Query := .handle (fromUtf8Lossy [120])

def response : String := searchServer.handleJsonrpc graph (fromUtf8Lossy [120])

def idle : State Caller (Snapshot id) Query Graph := .new (publish id graph)

def asked : State Caller (Snapshot id) Query Graph :=
  idle.put (.task 0) (.begun (.read request)) idle.cell

def loaded : State Caller (Snapshot id) Query Graph :=
  asked.put (.task 0) (.loaded request asked.cell) asked.cell

def replied : State Caller (Snapshot id) Query Graph := loaded.put (.task 0) .idle loaded.cell

def reply : Bytes := writeLines (responseLines response)

/-- The first client, with the chunks that it has sent and those that are unread. -/
def client (sent unread : Reader) (ended full : Bool) (phase : TaskPhase) (written : Bytes) :
    Connection := ⟨sent, unread, ended, full, phase, written⟩

/-- The second client, which never sends anything. -/
def silent : Connection := .accepted []

def silentEnded : Connection := { silent with ended := true }

def served : List Connection :=
  [client stream [] true false (.closed .eof) reply, { silentEnded with phase := .closed .eof }]

/-- The first client sends its line in two parts, lets the socket fill up before it is
answered, reads the answer and goes. The second one stays silent until then. -/
def states : List (DaemonState searchServer) :=
  [.initial searchServer graph,
    ⟨idle, 255, [.accepted []], 0⟩,
    ⟨idle, 254, [.accepted [], silent], 0⟩,
    ⟨idle, 254, [client first first false false .reading [], silent], 0⟩,
    ⟨idle, 254, [client first first false true .reading [], silent], 0⟩,
    ⟨idle, 254, [client stream stream false true .reading [], silent], 0⟩,
    ⟨asked, 254, [client stream [] false true .waiting [], silent], 0⟩,
    ⟨loaded, 254, [client stream [] false true .waiting [], silent], 0⟩,
    ⟨loaded, 254, [client stream [] false false .waiting [], silent], 0⟩,
    ⟨replied, 254, [client stream [] false false .reading reply, silent], 0⟩,
    ⟨replied, 254, [client stream [] true false .reading reply, silent], 0⟩,
    ⟨replied, 255, [client stream [] true false (.closed .eof) reply, silent], 0⟩,
    ⟨replied, 255, [client stream [] true false (.closed .eof) reply, silentEnded], 0⟩]

def actions : List (DaemonAction × Option (Caller × Label Query Graph Answer)) :=
  [(.accept [], none), (.accept [], none), (.client 0, none), (.client 0, none),
    (.client 0, none), (.task 0, some (.task 0, .invoke (.read request))),
    (.task 0, some (.task 0, .load)), (.client 0, none),
    (.task 0, some (.task 0, .respond (.answer (.response response)))), (.client 0, none),
    (.task 0, none), (.client 1, none), (.task 1, none)]

theorem asks :
    TaskMove searchServer (client stream stream false true .reading [])
      (some (.invoke (.read request))) (client stream [] false true .waiting []) :=
  @TaskMove.ask _ _ [120] [] rfl (.inr rfl) rfl rfl

theorem loads :
    TaskMove searchServer (client stream [] false true .waiting []) (some .load)
      (client stream [] false true .waiting []) := .load rfl

theorem answers :
    TaskMove searchServer (client stream [] false false .waiting [])
      (some (.respond (.answer (.response response))))
      (client stream [] false false .reading reply) := .reply rfl (.inl rfl)

theorem ends :
    TaskMove searchServer (client stream [] true false .reading reply) none
      (client stream [] true false (.closed .eof) reply) := .eof rfl (.inl rfl) rfl

def run : LabelledRun (DaemonStep searchServer) (.initial searchServer graph) where
  state i := states.getD i ⟨replied, 256, served, 0⟩
  action i := actions.getD i (.acceptFails, none)
  state_zero := rfl
  step
    | 0 => .serve [] (by decide)
    | 1 => .serve [] (by decide)
    | 2 => .client (k := 0) rfl (.sends rfl ⟨[120], by decide⟩ rfl)
    | 3 => .client (k := 0) rfl (.fills rfl)
    | 4 => .client (k := 0) rfl (.sends rfl ⟨[10], by decide⟩ rfl)
    | 5 => .task (k := 0) rfl asks ((@Move.invoke _ _ _ _ (object searchServer) _ _).step rfl)
    | 6 => .task (k := 0) rfl loads
        ((@Move.load _ _ _ _ (object searchServer) _ _).step (State.put_phase _ _ _ _))
    | 7 => .client (k := 0) rfl (.reads rfl)
    | 8 => .task (k := 0) rfl answers
        ((@Move.answer _ _ _ _ (object searchServer) _ _ _).step (State.put_phase _ _ _ _))
    | 9 => .client (k := 0) rfl (.ends rfl)
    | 10 => .task (k := 0) rfl ends (.rest replied)
    | 11 => .client (k := 1) rfl (.ends rfl)
    | 12 => .task (k := 1) rfl (.eof rfl (.inl rfl) rfl) (.rest replied)
    | _ + 13 => .acceptFails _

theorem closed_of_le {n : ℕ} (hn : 13 ≤ n) (k : ℕ) : ¬ IsOpen k (run.state n) := by
  obtain ⟨n, rfl⟩ := Nat.exists_eq_add_of_le' hn
  rintro ⟨c, hget, hopen⟩
  have hmem : c ∈ served := List.mem_of_getElem? hget
  rcases List.mem_pair.mp hmem with rfl | rfl <;> cases hopen

/-- The permits of both clients are free again, and the first one's is while the second one
is still silent. -/
theorem permits_return_oneLine :
    (∃ m, ∀ i ≥ m, ¬ IsOpen 0 (run.state i)) ∧
      ∃ m, ∀ i ≥ m, (run.state i).permits = maxConnections := by
  have hleaves : ∀ k, Leaves run k := fun k =>
    ⟨13, fun i hi c hget hopen => absurd ⟨c, hget, hopen⟩ (closed_of_le hi k)⟩
  obtain ⟨-, hends, hpermits⟩ := permits_return run fun k i => ⟨max i 13, Nat.le_max_left i 13,
    .inr fun ⟨c, hget, hopen, _⟩ => closed_of_le (Nat.le_max_right i 13) k ⟨c, hget, hopen⟩⟩
  refine ⟨hends 0 (hleaves 0), hpermits 13 ?_ hleaves⟩
  intro i hi stream heq
  obtain ⟨i, rfl⟩ := Nat.exists_eq_add_of_le' hi
  have hfails : (run.action (i + 13)).1 = .acceptFails := rfl
  rw [hfails] at heq
  cases heq

end OneLine

end HabitatGraph
