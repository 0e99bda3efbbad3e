import HabitatGraph.Core.Sanitize
import HabitatGraph.Foundation.Template
import HabitatGraph.Serve.Query

/-! # Concept explanation

What a concept is, told from the nodes that carry it: their relations in both
directions and their communities. All labels and relations are escaped, so the
explanation shows nothing dangerous but the line feeds it is laid out with.
-/

namespace HabitatGraph

open StableSort Template

/-- How many matched nodes are summarised. -/
def maxConcepts : Nat := 10

/-- How many edges are listed in one direction. -/
def maxEdgesPerNode : Nat := 8

/-- The label of a node as it is rendered, or a name made of its id where there is
no such node. -/
def labelOr (fallback : NodeId → String) (graph : Graph) (id : NodeId) : String :=
  match graph.nodes.find? fun n => n.id = id with
  | some n => displaySafe n.label
  | none => fallback id

def labelOf : Graph → NodeId → String :=
  labelOr fun id => "<id " ++ toString id.get.toNat ++ ">"

/-- One direction of relations: the end that is the node, the other end, and how
the list and its entries are worded. -/
structure Direction where
  own : Edge → NodeId
  other : Edge → NodeId
  heading : String
  before : String
  after : String
  noun : String

/-- The words around the relations are harmless. -/
structure Direction.Clean (direction : Direction) : Prop where
  heading : CleanLiteral isRenderDangerous direction.heading
  before : CleanLiteral isRenderDangerous direction.before
  after : CleanLiteral isRenderDangerous direction.after
  noun : CleanLiteral isRenderDangerous direction.noun

/-- The relations of a node in one direction, by the other end and the relation. -/
def renderRelations (graph : Graph) (direction : Direction) (node : Node) : Text :=
  let edges := sortByKey (fun e => toLex (direction.other e, e.relation))
    (graph.edges.filter fun e => direction.own e = node.id)
  if edges.isEmpty then [.literal "  ", .literal direction.heading, .literal ": (none)\n"]
  else
    [.literal "  ", .literal direction.heading, .literal " (", .argument (toString edges.length),
      .literal " relation(s)):\n"] ++
    ((edges.take maxEdgesPerNode).map fun e =>
      [.literal direction.before, .argument (displaySafe e.relation), .literal direction.after,
        .argument (labelOf graph (direction.other e)), .literal "\n"]).flatten ++
    if edges.length > maxEdgesPerNode then
      [.literal "    … ", .argument (toString (edges.length - maxEdgesPerNode)), .literal " more ",
        .literal direction.noun, .literal " (showing first ", .argument (toString maxEdgesPerNode),
        .literal ")\n"]
    else []

def outbound : Direction := ⟨Edge.source, Edge.target, "Outbound", "    --[", "]--> ", "outbound"⟩

def inbound : Direction := ⟨Edge.target, Edge.source, "Inbound", "    <--[", "]-- ", "inbound"⟩

def renderOutbound (graph : Graph) (node : Node) : Text := renderRelations graph outbound node

def renderInbound (graph : Graph) (node : Node) : Text := renderRelations graph inbound node

/-- The communities of a node, by id. -/
def renderCommunity (graph : Graph) (node : Node) : Text :=
  let communities := sortByKey Community.id
    (graph.communities.filter fun c => c.members.contains node.id)
  if communities.isEmpty then [.literal "  Community: (none)\n"]
  else
    .literal "  Community: " ::
      join ", " (communities.map fun c => [.argument (displaySafe c.label)]) ++ [.literal "\n"]

/-- What is told of one matched node. -/
def summariseNode (graph : Graph) (node : Node) : Text :=
  [.literal "\nNode: `", .argument (displaySafe node.label), .literal "` (id ",
    .argument (toString node.id.get.toNat), .literal ")\n"] ++
  renderOutbound graph node ++ renderInbound graph node ++ renderCommunity graph node

/-- Explain a concept. -/
def explain (toLowercase : String → String) (graph : Graph) (concept : String) : Text :=
  let found := findByLabel toLowercase graph concept
  if found.isEmpty then
    [.literal "No nodes match \"", .argument (displaySafe concept), .literal "\".\n"]
  else
    let total := found.length
    (if total > maxConcepts then
      [.argument (toString total), .literal " node(s) match \"", .argument (displaySafe concept),
        .literal "\" (showing first ", .argument (toString maxConcepts), .literal "):\n"]
    else
      [.argument (toString total), .literal " node(s) match \"", .argument (displaySafe concept),
        .literal "\":\n"]) ++
    ((found.take maxConcepts).map (summariseNode graph)).flatten ++
    if total > maxConcepts then
      [.literal "\n… ", .argument (toString (total - maxConcepts)),
        .literal " more node(s) not shown.\n"]
    else []

/-! ## Clean output -/

theorem renderSafe_labelOr {fallback : NodeId → String} (hfallback : ∀ id, RenderSafe (fallback id))
    (graph : Graph) (id : NodeId) : RenderSafe (labelOr fallback graph id) := by
  unfold labelOr
  split
  next n _ => exact renderSafe_displaySafe n.label
  next => exact hfallback id

theorem renderSafe_labelOf (graph : Graph) (id : NodeId) : RenderSafe (labelOf graph id) := by
  apply renderSafe_labelOr
  intro id
  rw [renderSafe_append, renderSafe_append]
  exact ⟨⟨by decide, renderSafe_toString _⟩, by decide⟩

theorem clean_outbound : outbound.Clean := by
  constructor <;> decide

theorem clean_inbound : inbound.Clean := by
  constructor <;> decide

theorem clean_renderRelations (graph : Graph) {direction : Direction} (h : direction.Clean)
    (node : Node) : Clean isRenderDangerous (renderRelations graph direction node) := by
  have hentry : ∀ e, Clean isRenderDangerous [.literal direction.before,
      .argument (displaySafe e.relation), .literal direction.after,
      .argument (labelOf graph (direction.other e)), .literal "\n"] := by
    intro e
    simp +decide only [clean_literal_cons, clean_argument_iff, clean_nil, h.before, h.after,
      renderSafe_displaySafe, renderSafe_labelOf, and_self]
  simp +decide only [renderRelations, clean_ite, clean_append, clean_literal_cons,
    clean_argument_iff, clean_nil, clean_flatten, List.forall_mem_map, h.heading, h.noun, hentry,
    renderSafe_toString, implies_true, and_self]

theorem clean_renderCommunity (graph : Graph) (node : Node) :
    Clean isRenderDangerous (renderCommunity graph node) := by
  have hjoin : Clean isRenderDangerous (join ", " ((sortByKey Community.id
      (graph.communities.filter fun c => c.members.contains node.id)).map
        fun c => [.argument (displaySafe c.label)])) := by
    apply clean_join (by decide)
    rw [List.forall_mem_map]
    intro c _
    exact clean_argument_iff.mpr ⟨renderSafe_displaySafe c.label, clean_nil⟩
  simp +decide only [renderCommunity, clean_ite, clean_append, clean_literal_cons, clean_nil,
    hjoin, implies_true, and_self]

theorem clean_summariseNode (graph : Graph) (node : Node) :
    Clean isRenderDangerous (summariseNode graph node) := by
  simp +decide only [summariseNode, renderOutbound, renderInbound, clean_append,
    clean_literal_cons, clean_argument_iff, clean_nil, renderSafe_displaySafe, renderSafe_toString,
    clean_renderRelations graph clean_outbound, clean_renderRelations graph clean_inbound,
    clean_renderCommunity, and_self]

/-- Explaining a concept shows nothing dangerous but its own line feeds. -/
theorem clean_explain (toLowercase : String → String) (graph : Graph) (concept : String) :
    Clean isRenderDangerous (explain toLowercase graph concept) := by
  simp +decide only [explain, clean_ite, clean_append, clean_literal_cons, clean_argument_iff,
    clean_nil, clean_flatten, List.forall_mem_map, clean_summariseNode, renderSafe_displaySafe,
    renderSafe_toString, implies_true, and_self]

end HabitatGraph
