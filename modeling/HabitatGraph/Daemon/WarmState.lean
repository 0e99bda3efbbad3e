import HabitatGraph.Foundation.SwapCell
import HabitatGraph.Serve.Jsonrpc
import HabitatGraph.Serve.LabelIndex

/-! # The warm state

The daemon holds a graph together with its label index. A reload builds the index of the
new graph and swaps the pair in one store; a request takes the pair in one load and is
answered from it alone. So every request sees one graph, the one of the last reload that
was stored when it took its pair, and never the index of another.
-/

namespace HabitatGraph

open SwapCell

/-- A graph and its index. The index of another graph cannot be paired with it. -/
structure Snapshot (toLowercase : String → String) where
  graph : Graph
  index : LabelIndex
  index_eq : index = LabelIndex.build toLowercase graph

namespace WarmState

/-- The pair that is published for a graph, by `new` and by `reload`. -/
def publish (toLowercase : String → String) (graph : Graph) : Snapshot toLowercase :=
  ⟨graph, LabelIndex.build toLowercase graph, rfl⟩

theorem publish_graph {toLowercase : String → String} (snap : Snapshot toLowercase) :
    publish toLowercase snap.graph = snap := by
  obtain ⟨graph, index, rfl⟩ := snap
  rfl

/-- What is asked of the warm state. -/
inductive Query
  | handle (request : String)
  | find (needle : String)

inductive Answer
  | response (text : String)
  | ids (ids : List NodeId)

variable (server : Server)

/-- Answer from one pair: `handle` from its graph, `find` from its index. -/
def answer (snap : Snapshot server.toLowercase) : Query → Answer
  | .handle request => .response (server.handleJsonrpc snap.graph request)
  | .find needle => .ids (snap.index.find server.toLowercase needle)

/-- The warm state as an object that is swapped: a reload is a write of a graph. -/
def object : Object (Snapshot server.toLowercase) Query Graph Answer where
  answer := answer server
  build := publish server.toLowercase

/-- The graph of the last of some reloads, or the one to begin with. -/
def published (graph : Graph) (calls : List (Call Query Graph)) : Graph :=
  calls.foldl (fun graph call =>
    match call with
    | .read _ => graph
    | .write next => next) graph

theorem published_append (graph : Graph) (calls calls' : List (Call Query Graph)) :
    published graph (calls ++ calls') = published (published graph calls) calls' :=
  List.foldl_append

/-- The ids of the nodes whose lowercased label holds the lowercased needle, ascending. -/
structure IsScan (graph : Graph) (needle : String) (ids : List NodeId) : Prop where
  ascending : ids.Pairwise (· < ·)
  mem_iff : ∀ id, id ∈ ids ↔ LabelIndex.Carries server.toLowercase graph needle id

/-- A reply is the one that a graph gives. -/
def RepliesFrom (graph : Graph) : Call Query Graph → Reply Answer → Prop
  | .read (.handle request), .answer (.response text) => text = server.handleJsonrpc graph request
  | .read (.find needle), .answer (.ids ids) =>
      (graph.nodes.map Node.id).Nodup → IsScan server graph needle ids
  | .write _, .stored => True
  | _, _ => False

variable {server}

theorem after_eq (graph : Graph) (calls : List (Call Query Graph)) :
    (object server).after (publish server.toLowercase graph) calls =
      publish server.toLowercase (published graph calls) := by
  induction calls generalizing graph with
  | nil => rfl
  | cons call calls ih =>
      cases call with
      | read query => exact ih graph
      | write next => exact ih next

theorem repliesFrom_step (snap : Snapshot server.toLowercase) (call : Call Query Graph) :
    RepliesFrom server snap.graph call ((object server).step snap call).1 := by
  cases call with
  | write next => exact trivial
  | read query =>
      cases query with
      | handle request => exact rfl
      | find needle =>
          intro hdistinct
          rw [snap.index_eq]
          obtain ⟨hascending, hmem⟩ := LabelIndex.find_carriers hdistinct needle
          exact ⟨hascending, hmem⟩

section Runs

variable {κ : Type} [DecidableEq κ] {graph : Graph}
  (run : LabelledRun (Step (κ := κ) (object server))
    (.new (publish server.toLowercase graph)))

/-- The graph that is published at a moment: the one of the last reload stored by then. -/
def publishedAt (n : ℕ) : Graph := published graph ((points run n).map Prod.snd)

theorem cell_eq (n : ℕ) :
    (run.state n).cell = publish server.toLowercase (publishedAt run n) := by
  rw [cell_eq_after, after_eq, publishedAt]

theorem publishedAt_succ (n : ℕ) :
    publishedAt run (n + 1) =
      match (run.state n).point (run.action n) with
      | some (_, .write next) => next
      | _ => publishedAt run n := by
  rw [publishedAt, points_succ, List.map_append, published_append, ← publishedAt]
  rcases (run.state n).point (run.action n) with _ | ⟨caller, _ | _⟩ <;> rfl

/-- From a reload on its graph is published, until another one is stored. -/
theorem publishedAt_of_store {caller : κ} {j n : ℕ} {next : Graph} (hjn : j < n)
    (hstore : (run.state j).point (run.action j) = some (caller, .write next)) :
    publishedAt run n = next ∨ ∃ l caller', j < l ∧ l < n ∧
      (run.state l).point (run.action l) = some (caller', .write (publishedAt run n)) := by
  induction n, hjn using Nat.le_induction with
  | base =>
      rw [publishedAt_succ, hstore]
      exact .inl rfl
  | succ n hjn ih =>
      rw [publishedAt_succ]
      split
      next caller' later hpoint =>
        exact .inr ⟨n, caller', hjn, Nat.lt_succ_self n, hpoint⟩
      next =>
        refine ih.imp_right ?_
        rintro ⟨l, caller', hjl, hln, hpoint⟩
        exact ⟨l, caller', hjl, Nat.lt_succ_of_lt hln, hpoint⟩

/-- However requests and reloads overlap, each takes its effect at one moment between its
beginning and its return, and the reply is the one of the graph published at that moment:
the index that is searched is never the one of another graph. A reload that returned
before the request began is seen, unless another one was stored after it. -/
theorem reply_of_published {caller : κ} {i : ℕ} {reply : Reply Answer}
    (hrespond : run.action i = some (caller, .respond reply)) :
    ∃ call h j, Linearized run caller i reply call h j ∧
      RepliesFrom server (publishedAt run j) call reply ∧
      ∀ caller' next k h' j', Linearized run caller' k .stored (.write next) h' j' → k ≤ h →
        publishedAt run j = next ∨ ∃ l caller'', j' < l ∧ l < j ∧
          (run.state l).point (run.action l) = some (caller'', .write (publishedAt run j)) := by
  obtain ⟨call, h, j, hlinearized⟩ := linearizable run hrespond
  refine ⟨call, h, j, hlinearized, ?_, ?_⟩
  · rw [hlinearized.reply, cell_eq]
    exact repliesFrom_step (publish server.toLowercase (publishedAt run j)) call
  · intro caller' next k h' j' hreload hreturned
    have hjj : j' < j := by
      have := hreload.responded
      have := hlinearized.invoked
      omega
    exact publishedAt_of_store run hjj hreload.point

end Runs

/-! ## A reload between two searches -/

/-- A graph with one node. -/
def labelledGraph (label : String) : Graph :=
  { Graph.new with nodes := [⟨⟨7⟩, label, "a.rs", ⟨0, 1, 1, 1⟩⟩] }

/-- A search takes its pair, the graph is reloaded, and the search returns after that. -/
def overlapping : List (Bool × Call Query Graph) :=
  [(false, .read (.find "old")), (true, .write (labelledGraph "new")),
    (false, .read (.find "old")), (true, .write (labelledGraph "new")),
    (true, .write (labelledGraph "new")), (true, .write (labelledGraph "new")),
    (false, .read (.find "old"))]

/-- A server that decodes nothing: a search uses none of its libraries. -/
def searchServer : Server where
  serde :=
    { toStringPretty := fun value => .ok (String.ofList (value.pretty []))
      fromStr := fun _ => .error "expected value"
      display := fun value => String.ofList value.compact
      toStr := fun value => .ok (String.ofList value.compact) }
  toLowercase := id
  tables := asciiTables
  blake3Hex := fun _ => ""

abbrev overlappingRun :=
  scheduled (object searchServer) (publish id (labelledGraph "old")) overlapping

/-- What the search returns: the answer from the graph that was published when it began. -/
def oldReply : Reply Answer :=
  .answer (answer searchServer (publish id (labelledGraph "old")) (.find "old"))

/-- The search is answered from the graph that it took, which is not published any more. -/
theorem reply_of_published_overlapping :
    ∃ call h j, Linearized overlappingRun false 6 oldReply call h j ∧
      RepliesFrom searchServer (publishedAt overlappingRun j) call oldReply := by
  have hrespond : overlappingRun.action 6 = some (false, .respond oldReply) := rfl
  obtain ⟨call, h, j, hlinearized, hreplies, -⟩ := reply_of_published overlappingRun hrespond
  exact ⟨call, h, j, hlinearized, hreplies⟩

end WarmState

end HabitatGraph
