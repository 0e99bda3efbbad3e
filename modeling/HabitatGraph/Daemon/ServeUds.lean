import HabitatGraph.Daemon.Connection
import HabitatGraph.Daemon.WarmState

/-! # Serving a socket

The daemon accepts one connection after another and serves each by a task of its own as
long as a permit is free; a connection that comes when none is free is dropped, and a
failed `accept` is tried again. A task reads a line, hands it to the warm state and writes
the reply, and gives its permit back when it ends. A task waits for its client: for the end
of a line to come, and for room in the socket to write to, as long as the client takes; a
client may stay connected and silent. Tasks, clients, reloads and the accept loop take their
steps in any order.
-/

namespace HabitatGraph

open SwapCell Utf8Lines WarmState

/-- How many connections are served at a time. -/
def maxConnections : ℕ := 256

/-- Why a task ended: its stream did, a line was too long, or its client was gone. -/
inductive Ending
  | eof
  | tooLong
  | failed
deriving DecidableEq

/-- Where a task is: in `read_bounded_line`, in `state.handle`, or at its end. -/
inductive TaskPhase
  | reading
  | waiting
  | closed (why : Ending)
deriving DecidableEq

def TaskPhase.isOpen : TaskPhase → Bool
  | .closed _ => false
  | _ => true

/-- A connection that is served: what its client has sent, what is unread of it, whether the
client has closed its side, so that nothing more comes, whether the socket takes no more
until the client reads, and what was written to it. -/
structure Connection where
  stream : Reader
  reader : Reader
  ended : Bool
  full : Bool
  phase : TaskPhase
  written : Bytes

/-- A connection that was accepted, with what its client had sent by then. -/
def Connection.accepted (stream : Reader) : Connection :=
  ⟨stream, stream, false, false, .reading, []⟩

/-- `fill_buf` would wait: what has come has no line feed, and is not too long yet. -/
def awaitsMore (maxBytes : ℕ) : Reader → Bytes → Bool
  | [], _ => true
  | avail :: chunks, buf =>
      (avail.1.findIdx? (· == newline)).isNone && decide (buf.length + avail.1.length ≤ maxBytes) &&
        awaitsMore maxBytes chunks (buf ++ avail.1)

/-- `read_bounded_line` comes to its end with what has come. -/
def Connection.CanRead (c : Connection) : Prop :=
  c.ended = true ∨ awaitsMore maxLineBytes c.reader [] = false

/-- What a client does while its task runs: it sends, it closes its side, it lets the socket
fill up, it reads. -/
inductive ClientMove : Connection → Connection → Prop
  | sends {c : Connection} (hopen : c.phase.isOpen = true) (chunk : Chunk)
      (hended : c.ended = false) :
      ClientMove c { c with stream := c.stream ++ [chunk], reader := c.reader ++ [chunk] }
  | ends {c : Connection} (hopen : c.phase.isOpen = true) : ClientMove c { c with ended := true }
  | fills {c : Connection} (hopen : c.phase.isOpen = true) : ClientMove c { c with full := true }
  | reads {c : Connection} (hopen : c.phase.isOpen = true) : ClientMove c { c with full := false }

/-- Who calls the warm state: the task of a connection, or a reload or search from
elsewhere. -/
inductive Caller
  | task (k : ℕ)
  | other (k : ℕ)
deriving DecidableEq

/-- A step of a task, with what it does to the warm state. It reads a line once it has come,
and writes once the socket takes all of it; writing may fail after a part of what is to be
written. -/
inductive TaskMove (server : Server) :
    Connection → Option (Label Query Graph Answer) → Connection → Prop
  | skip {c : Connection} {raw : Bytes} {rest : Reader} (hphase : c.phase = .reading)
      (hcame : c.CanRead)
      (hread : readBoundedLine c.reader maxLineBytes = (.ok (some raw), rest))
      (hblank : raw.all isAsciiWhitespace = true) :
      TaskMove server c none { c with reader := rest }
  | ask {c : Connection} {raw : Bytes} {rest : Reader} (hphase : c.phase = .reading)
      (hcame : c.CanRead)
      (hread : readBoundedLine c.reader maxLineBytes = (.ok (some raw), rest))
      (hblank : raw.all isAsciiWhitespace = false) :
      TaskMove server c (some (.invoke (.read (.handle (fromUtf8Lossy raw)))))
        { c with reader := rest, phase := .waiting }
  | eof {c : Connection} {rest : Reader} (hphase : c.phase = .reading) (hcame : c.CanRead)
      (hread : readBoundedLine c.reader maxLineBytes = (.ok none, rest)) :
      TaskMove server c none { c with phase := .closed .eof }
  | tooLong {c : Connection} {e : IoError} {rest : Reader} {text feed : Bytes}
      (hphase : c.phase = .reading) (hcame : c.CanRead)
      (hread : readBoundedLine c.reader maxLineBytes = (.error e, rest))
      -- two writes, and the failure of either is passed over
      (htext : text <+: asBytes lineTooLongResponse) (hfeed : feed <+: [newline])
      (hroom : c.full = false ∨ text ++ feed ≠ asBytes lineTooLongResponse ++ [newline]) :
      TaskMove server c none
        { c with phase := .closed .tooLong, written := c.written ++ (text ++ feed) }
  | readFails {c : Connection} (hphase : c.phase = .reading) :
      TaskMove server c none { c with phase := .closed .failed }
  | load {c : Connection} (hphase : c.phase = .waiting) : TaskMove server c (some .load) c
  | reply {c : Connection} {text : String} (hphase : c.phase = .waiting)
      (hroom : c.full = false ∨ responseLines text = []) :
      TaskMove server c (some (.respond (.answer (.response text))))
        { c with phase := .reading, written := c.written ++ writeLines (responseLines text) }
  | replyFails {c : Connection} {text : String} {sent : Bytes} (hphase : c.phase = .waiting)
      (hsent : sent <+: writeLines (responseLines text))
      (hfails : sent ≠ writeLines (responseLines text)) :
      TaskMove server c (some (.respond (.answer (.response text))))
        { c with phase := .closed .failed, written := c.written ++ sent }

/-- The state of the daemon: the warm state with its callers, the permits that are free,
the connections in the order they were accepted, and how many were dropped. -/
structure DaemonState (server : Server) where
  warm : State Caller (Snapshot server.toLowercase) Query Graph
  permits : ℕ
  connections : List Connection
  dropped : ℕ

/-- The daemon after `bind`, with the graph it was started with. -/
def DaemonState.initial (server : Server) (graph : Graph) : DaemonState server :=
  ⟨.new (publish server.toLowercase graph), maxConnections, [], 0⟩

/-- What the daemon does next. -/
inductive DaemonAction
  | accept (stream : Reader)
  | acceptFails
  | task (k : ℕ)
  | client (k : ℕ)
  | other

/-- A step of the accept loop, of a task, of a client, or of another caller of the warm
state. -/
inductive DaemonStep (server : Server) : DaemonState server →
    DaemonAction × Option (Caller × Label Query Graph Answer) → DaemonState server → Prop
  | serve {s : DaemonState server} (stream : Reader) (hpermit : 0 < s.permits) :
      DaemonStep server s (.accept stream, none)
        { s with permits := s.permits - 1, connections := s.connections ++ [.accepted stream] }
  | drop {s : DaemonState server} (stream : Reader) (hpermit : s.permits = 0) :
      DaemonStep server s (.accept stream, none) { s with dropped := s.dropped + 1 }
  | acceptFails (s : DaemonState server) : DaemonStep server s (.acceptFails, none) s
  | task {s : DaemonState server} {k : ℕ} {c c' : Connection}
      {label : Option (Label Query Graph Answer)}
      {warm : State Caller (Snapshot server.toLowercase) Query Graph}
      (hget : s.connections[k]? = some c) (hmove : TaskMove server c label c')
      (hwarm : Step (object server) s.warm (label.map fun l => (.task k, l)) warm) :
      DaemonStep server s (.task k, label.map fun l => (.task k, l))
        { s with
          warm := warm
          -- the permit is dropped with the task
          permits := s.permits + if c'.phase.isOpen then 0 else 1
          connections := s.connections.set k c' }
  | client {s : DaemonState server} {k : ℕ} {c c' : Connection}
      (hget : s.connections[k]? = some c) (hmove : ClientMove c c') :
      DaemonStep server s (.client k, none) { s with connections := s.connections.set k c' }
  | other {s : DaemonState server} {label : Option (ℕ × Label Query Graph Answer)}
      {warm : State Caller (Snapshot server.toLowercase) Query Graph}
      (hwarm : Step (object server) s.warm (label.map fun l => (.other l.1, l.2)) warm) :
      DaemonStep server s (.other, label.map fun l => (.other l.1, l.2)) { s with warm := warm }

variable {server : Server}

theorem TaskMove.wasOpen {c c' : Connection} {label : Option (Label Query Graph Answer)}
    (hmove : TaskMove server c label c') : c.phase.isOpen = true := by
  cases hmove <;> simp [TaskPhase.isOpen, *]

theorem ClientMove.wasOpen {c c' : Connection} (hmove : ClientMove c c') :
    c.phase.isOpen = true := by
  cases hmove <;> assumption

theorem ClientMove.phase_eq {c c' : Connection} (hmove : ClientMove c c') :
    c'.phase = c.phase := by
  cases hmove <;> rfl

namespace DaemonState

/-! ## Capacity -/

/-- How many tasks are running. -/
def serving (s : DaemonState server) : ℕ := s.connections.countP fun c => c.phase.isOpen

/-- Every permit is free or held by a task. -/
def Permitted (s : DaemonState server) : Prop := s.permits + s.serving = maxConnections

theorem permitted_initial (graph : Graph) : (initial server graph).Permitted := rfl

theorem serving_set {s : DaemonState server} {k : ℕ} {c c' : Connection}
    (hget : s.connections[k]? = some c) (hopen : c.phase.isOpen = true) :
    (s.connections.set k c').countP (fun c => c.phase.isOpen) +
      (if c'.phase.isOpen then 0 else 1) = s.serving := by
  obtain ⟨hk, rfl⟩ := List.getElem?_eq_some_iff.mp hget
  have hle := List.boole_getElem_le_countP (p := fun c : Connection => c.phase.isOpen) hk
  rw [List.countP_set hk, serving]
  simp only [hopen, ↓reduceIte] at hle ⊢
  cases c'.phase.isOpen <;> simp only [Bool.false_eq_true, ↓reduceIte] <;> omega

theorem permitted_step {s s' : DaemonState server}
    {a : DaemonAction × Option (Caller × Label Query Graph Answer)}
    (hstep : DaemonStep server s a s') (hs : s.Permitted) : s'.Permitted := by
  unfold Permitted at hs ⊢
  cases hstep with
  | serve stream hpermit =>
      have hone : [Connection.accepted stream].countP (fun c => c.phase.isOpen) = 1 := rfl
      rw [serving, List.countP_append, hone, ← serving]
      dsimp only
      omega
  | @task k c c' label warm hget hmove hwarm =>
      have hset := @serving_set _ _ _ _ c' hget hmove.wasOpen
      rw [serving]
      dsimp only
      omega
  | @client k c c' hget hmove =>
      have hset := @serving_set _ _ _ _ c' hget hmove.wasOpen
      rw [hmove.phase_eq, hmove.wasOpen, if_pos rfl, Nat.add_zero] at hset
      rw [serving, hset]
      exact hs
  | _ => exact hs

/-- A connection is served while a permit is free and dropped when none is. -/
theorem accept_cases {s s' : DaemonState server} {stream : Reader}
    {label : Option (Caller × Label Query Graph Answer)} (hs : s.Permitted)
    (hstep : DaemonStep server s (.accept stream, label) s') :
    (s.serving < maxConnections ∧ s'.connections = s.connections ++ [.accepted stream] ∧
        s'.dropped = s.dropped) ∨
      (s.serving = maxConnections ∧ s'.connections = s.connections ∧
        s'.dropped = s.dropped + 1) := by
  unfold Permitted at hs
  cases hstep with
  | serve _ hpermit => exact .inl ⟨by omega, rfl, rfl⟩
  | drop _ hpermit => exact .inr ⟨by omega, rfl, rfl⟩

end DaemonState

/-! ## What a task writes -/

theorem consume_append (chunk : Chunk) (chunks later : Reader) (count : ℕ) :
    consume (chunk :: chunks ++ later) count = consume (chunk :: chunks) count ++ later := by
  rw [List.cons_append, consume, consume]
  split <;> rfl

/-- What is read without waiting does not depend on what comes later. -/
theorem readLoop_append {maxBytes : ℕ} {reader : Reader} {buf : Bytes}
    (h : awaitsMore maxBytes reader buf = false) (later : Reader) :
    readLoop maxBytes (reader ++ later) buf =
      ((readLoop maxBytes reader buf).1, (readLoop maxBytes reader buf).2 ++ later) := by
  induction reader generalizing buf with
  | nil => cases h
  | cons avail chunks ih =>
      rw [List.cons_append, readLoop, readLoop]
      rw [awaitsMore] at h
      cases hfind : avail.1.findIdx? (· == newline) with
      | some nlPos =>
          dsimp only
          rw [← List.cons_append, consume_append]
      | none =>
          dsimp only
          split
          next => rfl
          next hfits =>
            refine ih ?_
            rwa [hfind, decide_eq_true (Nat.le_of_not_gt hfits), Option.isNone_none,
              Bool.true_and, Bool.true_and] at h

/-- Without the end of the stream no line is missing. -/
theorem readLoop_ne_none {maxBytes : ℕ} {reader : Reader} {buf : Bytes}
    (h : awaitsMore maxBytes reader buf = false) : (readLoop maxBytes reader buf).1 ≠ .ok none := by
  induction reader generalizing buf with
  | nil => cases h
  | cons avail chunks ih =>
      rw [readLoop]
      rw [awaitsMore] at h
      cases hfind : avail.1.findIdx? (· == newline) with
      | some nlPos => simp
      | none =>
          dsimp only
          split
          next => simp
          next hfits =>
            refine ih ?_
            rwa [hfind, decide_eq_true (Nat.le_of_not_gt hfits), Option.isNone_none,
              Bool.true_and, Bool.true_and] at h

theorem Connection.CanRead.ended {c : Connection} {rest : Reader} (hcame : c.CanRead)
    (hread : readBoundedLine c.reader maxLineBytes = (.ok none, rest)) : c.ended = true :=
  hcame.resolve_right fun hcame => readLoop_ne_none hcame (congrArg Prod.fst hread)

/-- The lines that a task has read of what its client sent. What the client sends later, if
it has not closed its side, comes after them. -/
def LinesRead (stream : Reader) (ended : Bool) (raws : List Bytes) (rest : Reader) : Prop :=
  ∀ later calls, (ended = true → later = []) →
    readResults maxLineBytes (raws.length + calls) (stream ++ later) =
      raws.map (fun raw => .ok (some raw)) ++ readResults maxLineBytes calls (rest ++ later)

theorem linesRead_nil (stream : Reader) (ended : Bool) : LinesRead stream ended [] stream := by
  intro later calls _
  rw [List.length_nil, Nat.zero_add]
  rfl

theorem LinesRead.concat {c : Connection} {rest : Reader} {raws : List Bytes} {raw : Bytes}
    (h : LinesRead c.stream c.ended raws c.reader) (hcame : c.CanRead)
    (hread : readBoundedLine c.reader maxLineBytes = (.ok (some raw), rest)) :
    LinesRead c.stream c.ended (raws ++ [raw]) rest := by
  intro later calls hlater
  have hnext := h later (1 + calls) hlater
  have hline : readBoundedLine (c.reader ++ later) maxLineBytes =
      (.ok (some raw), rest ++ later) := by
    rcases hcame with hended | hcame
    · rw [hlater hended, List.append_nil, List.append_nil, hread]
    · rw [readBoundedLine, readLoop_append hcame, ← readBoundedLine, hread]
  rw [Nat.add_comm 1 calls, readResults, hline] at hnext
  rw [List.length_append, List.length_singleton, Nat.add_assoc, Nat.add_comm 1 calls, hnext,
    List.map_append, List.append_assoc]
  rfl

/-- More that comes does not change what was read. -/
theorem LinesRead.sent {stream rest : Reader} {raws : List Bytes}
    (h : LinesRead stream false raws rest) (chunk : Chunk) :
    LinesRead (stream ++ [chunk]) false raws (rest ++ [chunk]) := by
  intro later calls _
  rw [List.append_assoc, List.append_assoc]
  exact h ([chunk] ++ later) calls fun hended => absurd hended Bool.false_ne_true

theorem LinesRead.ended {stream rest : Reader} {ended : Bool} {raws : List Bytes}
    (h : LinesRead stream ended raws rest) : LinesRead stream true raws rest := by
  intro later calls hlater
  exact h later calls fun _ => hlater rfl

/-- What is written for lines, each answered from the graph of its moment. -/
def replies (server : Server) (graphAt : ℕ → Graph) (answered : List (Bytes × ℕ)) : Bytes :=
  writeLines (answered.flatMap fun a => server.lineReply (graphAt a.2) a.1)

theorem replies_concat (graphAt : ℕ → Graph) (answered : List (Bytes × ℕ)) (raw : Bytes) (j : ℕ) :
    replies server graphAt (answered ++ [(raw, j)]) =
      replies server graphAt answered ++ writeLines (server.lineReply (graphAt j) raw) := by
  rw [replies, List.flatMap_append, writeLines_append]
  simp [replies]

theorem lineReply_of_blank (graph : Graph) {raw : Bytes}
    (hblank : raw.all isAsciiWhitespace = true) : server.lineReply graph raw = [] :=
  if_pos hblank

theorem lineReply_of_not_blank (graph : Graph) {raw : Bytes}
    (hblank : raw.all isAsciiWhitespace = false) :
    server.lineReply graph raw =
      responseLines (server.handleJsonrpc graph (fromUtf8Lossy raw)) := by
  rw [Server.lineReply, hblank]
  rfl

/-- The moments at which lines were answered go up, and are past. -/
structure InOrder (n : ℕ) (answered : List (Bytes × ℕ)) : Prop where
  ascending : (answered.map Prod.snd).Pairwise (· < ·)
  past : ∀ a ∈ answered, a.2 < n

theorem inOrder_nil (n : ℕ) : InOrder n [] := ⟨List.Pairwise.nil, by simp⟩

theorem InOrder.mono {m n : ℕ} {answered : List (Bytes × ℕ)} (h : InOrder m answered)
    (hmn : m ≤ n) : InOrder n answered :=
  ⟨h.ascending, fun a ha => Nat.lt_of_lt_of_le (h.past a ha) hmn⟩

theorem InOrder.concat {j n : ℕ} {answered : List (Bytes × ℕ)} (h : InOrder j answered)
    (hjn : j < n) (raw : Bytes) : InOrder n (answered ++ [(raw, j)]) := by
  constructor
  · rw [List.map_append, List.pairwise_append]
    refine ⟨h.ascending, List.pairwise_singleton _ _, ?_⟩
    intro i hi i' hi'
    obtain ⟨a, ha, rfl⟩ := List.mem_map.mp hi
    rw [List.map_singleton, List.mem_singleton] at hi'
    exact hi' ▸ h.past a ha
  · intro a ha
    rcases List.mem_append.mp ha with ha | ha
    · exact Nat.lt_trans (h.past a ha) hjn
    · rw [List.mem_singleton.mp ha]
      exact hjn

/-- How far a task is at a moment, with the lines that it has answered: it has written the
replies to them and nothing else, but for a part of what it was writing when it ended. -/
inductive Session (server : Server) (graphAt : ℕ → Graph) (n : ℕ) :
    Connection → Phase (Snapshot server.toLowercase) Query Graph → List (Bytes × ℕ) → Prop
  | reading {stream reader : Reader} {ended full : Bool} {answered : List (Bytes × ℕ)}
      (hlines : LinesRead stream ended (answered.map Prod.fst) reader) :
      Session server graphAt n
        ⟨stream, reader, ended, full, .reading, replies server graphAt answered⟩ .idle answered
  | asked {stream reader : Reader} {ended full : Bool} {answered : List (Bytes × ℕ)} {raw : Bytes}
      (hlines : LinesRead stream ended (answered.map Prod.fst ++ [raw]) reader)
      (hblank : raw.all isAsciiWhitespace = false) :
      Session server graphAt n
        ⟨stream, reader, ended, full, .waiting, replies server graphAt answered⟩
        (.begun (.read (.handle (fromUtf8Lossy raw)))) answered
  | loaded {stream reader : Reader} {ended full : Bool} {answered : List (Bytes × ℕ)}
      {raw : Bytes} {j : ℕ}
      (hlines : LinesRead stream ended (answered.map Prod.fst ++ [raw]) reader)
      (hblank : raw.all isAsciiWhitespace = false) (hj : j < n) (horder : InOrder j answered) :
      Session server graphAt n
        ⟨stream, reader, ended, full, .waiting, replies server graphAt answered⟩
        (.loaded (.handle (fromUtf8Lossy raw)) (publish server.toLowercase (graphAt j))) answered
  | eof {stream reader rest : Reader} {full : Bool} {answered : List (Bytes × ℕ)}
      (hlines : LinesRead stream true (answered.map Prod.fst) reader)
      (hend : readBoundedLine reader maxLineBytes = (.ok none, rest)) :
      Session server graphAt n
        ⟨stream, reader, true, full, .closed .eof, replies server graphAt answered⟩ .idle answered
  | tooLong {stream reader rest : Reader} {ended full : Bool} {answered : List (Bytes × ℕ)}
      {e : IoError} {text feed : Bytes}
      (hlines : LinesRead stream ended (answered.map Prod.fst) reader)
      (hend : readBoundedLine reader maxLineBytes = (.error e, rest))
      (htext : text <+: asBytes lineTooLongResponse) (hfeed : feed <+: [newline]) :
      Session server graphAt n
        ⟨stream, reader, ended, full, .closed .tooLong,
          replies server graphAt answered ++ (text ++ feed)⟩ .idle answered
  | readFails {stream reader : Reader} {ended full : Bool} {answered : List (Bytes × ℕ)}
      (hlines : LinesRead stream ended (answered.map Prod.fst) reader) :
      Session server graphAt n
        ⟨stream, reader, ended, full, .closed .failed, replies server graphAt answered⟩ .idle
        answered
  | replyFails {stream reader : Reader} {ended full : Bool} {answered : List (Bytes × ℕ)}
      {raw sent : Bytes} {j : ℕ}
      (hlines : LinesRead stream ended (answered.map Prod.fst ++ [raw]) reader) (hj : j < n)
      (horder : InOrder j answered)
      (hsent : sent <+: writeLines (server.lineReply (graphAt j) raw)) :
      Session server graphAt n
        ⟨stream, reader, ended, full, .closed .failed, replies server graphAt answered ++ sent⟩
        .idle answered

variable {graphAt : ℕ → Graph}

theorem Session.accepted {n : ℕ} (stream : Reader) :
    Session server graphAt n (.accepted stream) .idle [] := by
  have hnone : replies server graphAt [] = [] := rfl
  rw [Connection.accepted, ← hnone]
  exact .reading (linesRead_nil stream false)

theorem Session.succ {n : ℕ} {c : Connection}
    {phase : Phase (Snapshot server.toLowercase) Query Graph} {answered : List (Bytes × ℕ)}
    (h : Session server graphAt n c phase answered) :
    Session server graphAt (n + 1) c phase answered := by
  cases h with
  | reading hlines => exact .reading hlines
  | asked hlines hblank => exact .asked hlines hblank
  | loaded hlines hblank hj horder => exact .loaded hlines hblank (Nat.lt_succ_of_lt hj) horder
  | eof hlines hend => exact .eof hlines hend
  | tooLong hlines hend htext hfeed => exact .tooLong hlines hend htext hfeed
  | readFails hlines => exact .readFails hlines
  | replyFails hlines hj horder hsent =>
      exact .replyFails hlines (Nat.lt_succ_of_lt hj) horder hsent

/-- Lines that were read stay so whatever the client does. -/
theorem ClientMove.linesRead {c c' : Connection} (hmove : ClientMove c c') {raws : List Bytes}
    (h : LinesRead c.stream c.ended raws c.reader) :
    LinesRead c'.stream c'.ended raws c'.reader := by
  cases hmove with
  | sends hopen chunk hended =>
      rw [hended] at h
      dsimp only
      rw [hended]
      exact h.sent chunk
  | ends hopen => exact h.ended
  | fills hopen => exact h
  | reads hopen => exact h

/-- A step of a client keeps the session of its task. -/
theorem ClientMove.session {n : ℕ} {c c' : Connection} (hmove : ClientMove c c')
    {phase : Phase (Snapshot server.toLowercase) Query Graph} {answered : List (Bytes × ℕ)}
    (h : Session server graphAt n c phase answered) :
    Session server graphAt (n + 1) c' phase answered := by
  have hopen := hmove.wasOpen
  have hphase := hmove.phase_eq
  have hwritten : c'.written = c.written := by cases hmove <;> rfl
  obtain ⟨stream', reader', ended', full', phase', written'⟩ := c'
  cases h with
  | reading hlines =>
      obtain rfl := hphase
      obtain rfl := hwritten
      exact .reading (hmove.linesRead hlines)
  | asked hlines hblank =>
      obtain rfl := hphase
      obtain rfl := hwritten
      exact .asked (hmove.linesRead hlines) hblank
  | loaded hlines hblank hj horder =>
      obtain rfl := hphase
      obtain rfl := hwritten
      exact .loaded (hmove.linesRead hlines) hblank (Nat.lt_succ_of_lt hj) horder
  | _ => cases hopen

/-- A line that was read and answered, if it is not blank. -/
theorem Session.answered {n j : ℕ} {stream reader : Reader} {ended full : Bool}
    {answered : List (Bytes × ℕ)} {raw : Bytes} {reply : List String}
    (hlines : LinesRead stream ended (answered.map Prod.fst ++ [raw]) reader)
    (hreply : server.lineReply (graphAt j) raw = reply) :
    Session server graphAt n
      ⟨stream, reader, ended, full, .reading, replies server graphAt answered ++ writeLines reply⟩
      .idle (answered ++ [(raw, j)]) := by
  rw [← hreply, ← replies_concat]
  refine .reading ?_
  rw [List.map_append]
  exact hlines

/-- A blank line that was read. -/
theorem Session.skipped {n j : ℕ} {stream reader : Reader} {ended full : Bool}
    {answered : List (Bytes × ℕ)} {raw : Bytes}
    (hlines : LinesRead stream ended (answered.map Prod.fst ++ [raw]) reader)
    (hblank : raw.all isAsciiWhitespace = true) :
    Session server graphAt n
      ⟨stream, reader, ended, full, .reading, replies server graphAt answered⟩ .idle
      (answered ++ [(raw, j)]) := by
  have hsession : Session server graphAt n ⟨stream, reader, ended, full, .reading,
      replies server graphAt answered ++ writeLines []⟩ .idle (answered ++ [(raw, j)]) :=
    .answered hlines (lineReply_of_blank (graphAt j) hblank)
  have hnothing : writeLines [] = [] := rfl
  rwa [hnothing, List.append_nil] at hsession

/-- A step of a task keeps its session. -/
theorem TaskMove.session {n k : ℕ} {c c' : Connection} {label : Option (Label Query Graph Answer)}
    {warm warm' : State Caller (Snapshot server.toLowercase) Query Graph}
    (hmove : TaskMove server c label c')
    (hwarm : Step (object server) warm (label.map fun l => (.task k, l)) warm')
    (hcell : warm.cell = publish server.toLowercase (graphAt n)) {answered : List (Bytes × ℕ)}
    (horder : InOrder n answered)
    (hsession : Session server graphAt n c (warm.phase (.task k)) answered) :
    ∃ answered', InOrder (n + 1) answered' ∧
      Session server graphAt (n + 1) c' (warm'.phase (.task k)) answered' := by
  have hlater := horder.mono (Nat.le_succ n)
  generalize hbefore : warm.phase (.task k) = before at hsession
  cases hmove with
  | @skip raw rest hphase hcame hread hblank =>
      cases hwarm
      cases hsession with
      | reading hlines =>
          exact ⟨_, horder.concat (Nat.lt_succ_self n) raw,
            hbefore ▸ Session.skipped (LinesRead.concat hlines hcame hread) hblank⟩
      | _ => cases hphase
  | ask hphase hcame hread hblank =>
      obtain ⟨phase, value, hmove, rfl⟩ := step_some_iff.mp hwarm
      rw [hbefore] at hmove
      cases hsession with
      | reading hlines =>
          rw [State.put_phase]
          cases hmove
          exact ⟨answered, hlater, .asked (LinesRead.concat hlines hcame hread) hblank⟩
      | _ => cases hphase
  | eof hphase hcame hread =>
      cases hwarm
      cases hsession with
      | reading hlines =>
          obtain rfl := hcame.ended hread
          exact ⟨answered, hlater, hbefore ▸ .eof hlines hread⟩
      | _ => cases hphase
  | tooLong hphase hcame hread htext hfeed hroom =>
      cases hwarm
      cases hsession with
      | reading hlines => exact ⟨answered, hlater, hbefore ▸ .tooLong hlines hread htext hfeed⟩
      | _ => cases hphase
  | readFails hphase =>
      cases hwarm
      cases hsession with
      | reading hlines => exact ⟨answered, hlater, hbefore ▸ .readFails hlines⟩
      | _ => cases hphase
  | load hphase =>
      obtain ⟨phase, value, hmove, rfl⟩ := step_some_iff.mp hwarm
      rw [hbefore] at hmove
      rw [State.put_phase]
      cases hsession with
      | asked hlines hblank =>
          cases hmove
          rw [hcell]
          exact ⟨answered, hlater, .loaded hlines hblank (Nat.lt_succ_self n) horder⟩
      | loaded => cases hmove
      | _ => cases hphase
  | @reply text hphase hroom =>
      obtain ⟨phase, value, hmove, rfl⟩ := step_some_iff.mp hwarm
      rw [hbefore] at hmove
      rw [State.put_phase]
      cases hsession with
      | asked => cases hmove
      | @loaded stream reader ended full _ raw j hlines hblank hj hbelow =>
          cases hmove
          exact ⟨_, hbelow.concat (Nat.lt_succ_of_lt hj) raw,
            Session.answered hlines (lineReply_of_not_blank (graphAt j) hblank)⟩
      | _ => cases hphase
  | @replyFails text sent hphase hsent hfails =>
      obtain ⟨phase, value, hmove, rfl⟩ := step_some_iff.mp hwarm
      rw [hbefore] at hmove
      rw [State.put_phase]
      cases hsession with
      | asked => cases hmove
      | loaded hlines hblank hj hbelow =>
          cases hmove
          refine ⟨answered, hlater, .replyFails hlines (Nat.lt_succ_of_lt hj) hbelow ?_⟩
          rw [lineReply_of_not_blank _ hblank]
          exact hsent
      | _ => cases hphase

end HabitatGraph
