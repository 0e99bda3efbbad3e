import HabitatGraph.Foundation.KeyedList
import HabitatGraph.Foundation.StableSort
import Mathlib.Data.Prod.Lex
import Mathlib.Data.String.Basic

/-! # The graph model

The vocabulary shared by every stage: identifiers, spans, the confidence of an
edge, the output of one file's extraction, and the graph with its manifest.
`Graph.sorted` puts every collection in canonical order.
-/

namespace HabitatGraph

/-! ## Identifiers -/

/-- A stable identifier for a graph node. -/
structure NodeId where
  get : UInt32
deriving DecidableEq, Repr

/-- A stable identifier for a detected community. -/
structure CommunityId where
  get : UInt32
deriving DecidableEq, Repr

theorem NodeId.toNat_injective : Function.Injective fun id : NodeId => id.get.toNat := by
  intro ⟨a⟩ ⟨b⟩ h
  exact congrArg NodeId.mk (UInt32.toNat_inj.mp h)

theorem CommunityId.toNat_injective : Function.Injective fun id : CommunityId => id.get.toNat := by
  intro ⟨a⟩ ⟨b⟩ h
  exact congrArg CommunityId.mk (UInt32.toNat_inj.mp h)

instance : LinearOrder NodeId := LinearOrder.lift' _ NodeId.toNat_injective

instance : LinearOrder CommunityId := LinearOrder.lift' _ CommunityId.toNat_injective

/-- There are 2^32 ids. -/
theorem length_ids_le {ids : List NodeId} (hids : ids.Nodup) : ids.length ≤ 2 ^ 32 := by
  have hcard : ids.length ≤ (Finset.range (2 ^ 32)).card := by
    apply KeyedList.length_le_card (hids.map NodeId.toNat_injective)
    intro n hn
    obtain ⟨id, -, rfl⟩ := List.mem_map.mp hn
    exact Finset.mem_range.mpr id.get.toNat_lt
  rwa [Finset.card_range] at hcard

/-! ## Extraction output -/

/-- A byte and line range within a source file. -/
structure Span where
  startByte : UInt32
  endByte : UInt32
  startLine : UInt32
  endLine : UInt32
deriving DecidableEq, Repr

/-- How a relationship was derived. -/
inductive Confidence
  | extracted
  | inferred
  | ambiguous
deriving DecidableEq, Repr

/-- The wire string. -/
def Confidence.asStr : Confidence → String
  | .extracted => "EXTRACTED"
  | .inferred => "INFERRED"
  | .ambiguous => "AMBIGUOUS"

/-- Only stated relationships are load-bearing. -/
def Confidence.isTrusted : Confidence → Bool
  | .extracted => true
  | _ => false

/-- A node before interning, identified by its label. -/
structure RawNode where
  label : String
  sourceFile : String
  span : Span
deriving DecidableEq, Repr

/-- An edge before interning, naming its endpoints by label. -/
structure RawEdge where
  source : String
  target : String
  relation : String
  confidence : Confidence
deriving DecidableEq, Repr

/-- The nodes and edges extracted from a single file. -/
structure Extraction where
  nodes : List RawNode
  edges : List RawEdge
deriving DecidableEq, Repr

/-! ## The graph -/

/-- A node of the knowledge graph. -/
structure Node where
  id : NodeId
  label : String
  sourceFile : String
  sourceLocation : Span
deriving DecidableEq, Repr

/-- A directed, typed relationship between two nodes. -/
structure Edge where
  source : NodeId
  target : NodeId
  relation : String
  confidence : Confidence
deriving DecidableEq, Repr

/-- A cluster of related nodes. -/
structure Community where
  id : CommunityId
  label : String
  members : List NodeId
deriving DecidableEq, Repr

/-- One processed input, by path and content hash. -/
structure InputRecord where
  path : String
  contentHash : String
deriving DecidableEq, Repr

/-- How the graph was produced. -/
structure Manifest where
  inputs : List InputRecord
  toolVersion : String
  generatedAt : Option String
deriving DecidableEq, Repr

/-- The knowledge graph. -/
@[ext] structure Graph where
  schema : String
  nodes : List Node
  edges : List Edge
  communities : List Community
  manifest : Manifest
deriving DecidableEq, Repr

/-- The schema tag of every graph written by this version. -/
def schemaVersion : String := "habitat-graph.graph.v0"

/-- The version recorded in manifests, fixed when the crate is built. -/
def cargoPkgVersion : String := "0.0.0"

/-- The manifest of a graph without inputs. -/
def Manifest.default : Manifest where
  inputs := []
  toolVersion := cargoPkgVersion
  generatedAt := none

/-- The empty graph with the current schema version. -/
def Graph.new : Graph where
  schema := schemaVersion
  nodes := []
  edges := []
  communities := []
  manifest := Manifest.default

/-- The numbers of nodes, edges and communities. -/
def Graph.counts (g : Graph) : Nat × Nat × Nat :=
  (g.nodes.length, g.edges.length, g.communities.length)

/-- The error of every fallible boundary. -/
inductive GraphError
  | io (message : String)
  | parse (file message : String)
  | guard (message : String)
  | schema (message : String)
  | backend (message : String)
  | cache (message : String)
  | daemon (message : String)
deriving DecidableEq, Repr

@[simp] theorem ok_bind {ε α β : Type} (a : α) (f : α → Except ε β) :
    ((Except.ok a : Except ε α) >>= f) = f a := rfl

theorem bind_eq_ok_iff {ε α β : Type} {outcome : Except ε α} {f : α → Except ε β} {b : β} :
    (outcome >>= f) = .ok b ↔ ∃ a, outcome = .ok a ∧ f a = .ok b := by
  cases outcome with
  | error e => simp [bind, Except.bind]
  | ok a => simp

theorem mapError_eq_ok_iff {ε ε' α : Type} {f : ε → ε'} {outcome : Except ε α} {a : α} :
    outcome.mapError f = .ok a ↔ outcome = .ok a := by
  cases outcome <;> simp [Except.mapError]

/-! ## Canonical order -/

/-- What identifies an edge: its ends and its relation, in sorting order. -/
def Edge.key (e : Edge) : NodeId ×ₗ NodeId ×ₗ String :=
  toLex (e.source, toLex (e.target, e.relation))

theorem Edge.key_eq_iff {e e' : Edge} :
    e.key = e'.key ↔ e.source = e'.source ∧ e.target = e'.target ∧ e.relation = e'.relation := by
  simp only [Edge.key, EmbeddingLike.apply_eq_iff_eq, Prod.mk.injEq]

/-- A community with its members in ascending order. -/
def Community.sorted (c : Community) : Community :=
  { c with members := StableSort.sortByKey (fun m => m) c.members }

@[simp] theorem Community.sorted_id (c : Community) : c.sorted.id = c.id := rfl

@[simp] theorem Community.sorted_label (c : Community) : c.sorted.label = c.label := rfl

@[simp] theorem Community.mem_sorted_members {c : Community} {m : NodeId} :
    m ∈ c.sorted.members ↔ m ∈ c.members := StableSort.mem_sortByKey

theorem Community.sorted_sorted (c : Community) : c.sorted.sorted = c.sorted := by
  unfold Community.sorted
  dsimp only
  rw [StableSort.sortByKey_eq_self (StableSort.pairwise_sortByKey _)]

/-- Communities by id, each with its members ascending. -/
def sortCommunities (cs : List Community) : List Community :=
  (StableSort.sortByKey Community.id cs).map Community.sorted

theorem sortCommunities_eq (cs : List Community) :
    sortCommunities cs = StableSort.sortByKey Community.id (cs.map Community.sorted) :=
  (StableSort.sortByKey_map Community.sorted Community.sorted_id cs).symm

theorem map_sorted_sortCommunities (cs : List Community) :
    (sortCommunities cs).map Community.sorted = sortCommunities cs := by
  unfold sortCommunities
  rw [List.map_map]
  exact List.map_congr_left fun c _ => c.sorted_sorted

theorem sortCommunities_append_left (cs ds : List Community) :
    sortCommunities (sortCommunities cs ++ ds) = sortCommunities (cs ++ ds) := by
  rw [sortCommunities_eq, List.map_append, map_sorted_sortCommunities, sortCommunities_eq cs,
    StableSort.sortByKey_append_sortByKey, ← List.map_append, ← sortCommunities_eq]

theorem sortCommunities_append_right (cs ds : List Community) :
    sortCommunities (cs ++ sortCommunities ds) = sortCommunities (cs ++ ds) := by
  rw [sortCommunities_eq, List.map_append, map_sorted_sortCommunities, sortCommunities_eq ds,
    StableSort.sortByKey_append_sortByKey_right, ← List.map_append, ← sortCommunities_eq]

/-- Every collection in canonical order: nodes by id, edges by key, communities
by id and each community's members ascending. -/
def Graph.sorted (g : Graph) : Graph where
  schema := g.schema
  nodes := StableSort.sortByKey Node.id g.nodes
  edges := StableSort.sortByKey Edge.key g.edges
  communities := sortCommunities g.communities
  manifest := g.manifest

@[simp] theorem Graph.mem_sorted_nodes {g : Graph} {n : Node} :
    n ∈ g.sorted.nodes ↔ n ∈ g.nodes := StableSort.mem_sortByKey

@[simp] theorem Graph.mem_sorted_edges {g : Graph} {e : Edge} :
    e ∈ g.sorted.edges ↔ e ∈ g.edges := StableSort.mem_sortByKey

/-- Sorting twice is sorting once. -/
theorem Graph.sorted_sorted (g : Graph) : g.sorted.sorted = g.sorted := by
  have hcommunities : sortCommunities (sortCommunities g.communities) =
      sortCommunities g.communities := by
    simpa using sortCommunities_append_left g.communities []
  unfold Graph.sorted
  dsimp only
  rw [StableSort.sortByKey_eq_self (StableSort.pairwise_sortByKey g.nodes),
    StableSort.sortByKey_eq_self (StableSort.pairwise_sortByKey g.edges), hcommunities]

end HabitatGraph
