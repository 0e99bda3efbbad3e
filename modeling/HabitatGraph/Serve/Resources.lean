import HabitatGraph.Core.StrDebug
import HabitatGraph.Core.Text
import HabitatGraph.Export.Json
import HabitatGraph.Serve.Explain
import HabitatGraph.Serve.Load

/-! # Resources

The views of a graph that a client reads by URI: its schema, a report, the nodes with a
label and a community. All labels, relations and file names in them are escaped.
-/

namespace HabitatGraph

open StableSort Template

namespace Resources

def schemaUri : String := "habitat-graph://schema"

def reportUri : String := "habitat-graph://report"

def nodePrefix : String := "habitat-graph://node/"

def communityPrefix : String := "habitat-graph://community/"

/-- How many nodes the report names. -/
def reportSampleSize : Nat := 20

/-- What follows `start` in a text that begins with it. -/
def stripStart (start s : String) : Option String :=
  if start.toList.isPrefixOf s.toList then some (String.ofList (s.toList.drop start.toList.length))
  else none

/-- An entry of the list of resources, or of templates when its key is `uriTemplate`. -/
def listEntry (key uri name description mimeType : String) : JsonValue :=
  .object [(key, .string uri), ("name", .string name), ("description", .string description),
    ("mimeType", .string mimeType)]

/-- The resources and the templates of URIs. -/
def resourcesList (graph : Graph) : JsonValue :=
  .object
    [("resources", .array
      [listEntry "uri" reportUri "report"
        ("Graph summary (" ++ toString graph.nodes.length ++ " nodes, " ++
          toString graph.edges.length ++ " edges, " ++ toString graph.communities.length ++
          " communities)") "text/markdown",
      listEntry "uri" schemaUri "schema" "The graph.json schema version + envelope shape"
        "application/json"]),
    ("resourceTemplates", .array
      [listEntry "uriTemplate" "habitat-graph://node/\x7blabel\x7d" "node"
        "A node's detail by label" "text/markdown",
      listEntry "uriTemplate" "habitat-graph://community/\x7bid\x7d" "community"
        "A community's members by id" "text/markdown"])]

/-- A text as the contents of a resource. -/
def contents (uri mime text : String) : JsonValue :=
  .object [("contents", .array
    [.object [("uri", .string uri), ("mimeType", .string mime), ("text", .string text)]])]

/-- The schema version and the shape of the envelope, as JSON text. -/
def renderSchema (toStr : JsonValue → Except String String) : Except String JsonValue :=
  let payload : JsonValue := .object [("schema_version", .string schemaVersion),
    ("envelope", .string "NetworkX node-link: directed,multigraph,graph,nodes,links")]
  match toStr payload with
  | .ok text => .ok (contents schemaUri "application/json" text)
  | .error e => .error ("schema serialisation failed: " ++ e)

/-- The label of a node, or its number where there is no such node. -/
def nodeLabel (graph : Graph) (id : NodeId) : String :=
  match graph.nodes.find? fun n => n.id = id with
  | some n => n.label
  | none => "<unknown:" ++ toString id.get.toNat ++ ">"

/-- Where a node is declared. -/
def location (node : Node) : Text :=
  [.argument (displaySafe node.sourceFile), .literal ":",
    .argument (toString node.sourceLocation.startLine.toNat)]

/-- The counts and the first nodes of a graph. -/
def reportText (graph : Graph) : Text :=
  let n := graph.nodes.length
  [.literal "# habitat-graph — Graph Report\n\n", .literal "| Metric | Count |\n",
    .literal "| --- | --- |\n", .literal "| Nodes | ", .argument (toString n),
    .literal " |\n| Edges | ", .argument (toString graph.edges.length),
    .literal " |\n| Communities | ", .argument (toString graph.communities.length),
    .literal " |\n\n"] ++
  if n = 0 then [.literal "_Graph is empty._\n"]
  else
    [.literal "## Node Sample (up to ", .argument (toString reportSampleSize), .literal ")\n\n"] ++
    ((sortByKey Node.id graph.nodes).take reportSampleSize).flatMap (fun node =>
      [.literal "- `", .argument (displaySafe node.label), .literal "` (`"] ++ location node ++
        [.literal "`)\n"]) ++
    if n > reportSampleSize then
      [.literal "\n_… and ", .argument (toString (n - reportSampleSize)),
        .literal " more node(s)._\n"]
    else []

def renderReport (graph : Graph) : JsonValue :=
  contents reportUri "text/markdown" (render (reportText graph))

/-- One direction of the edges of a node, by the other end and the relation. -/
def edgesText (graph : Graph) (own other : Edge → NodeId) (heading arrow : String) (node : Node) :
    Text :=
  let edges := sortByKey (fun e => toLex (other e, e.relation))
    (graph.edges.filter fun e => own e = node.id)
  if edges.isEmpty then [.literal "- **", .literal heading, .literal " edges:** none\n"]
  else
    [.literal "- **", .literal heading, .literal " edges:**\n"] ++
    edges.flatMap fun e =>
      [.literal "  - `", .argument (displaySafe e.relation), .literal "` ", .literal arrow,
        .literal " `", .argument (displaySafe (nodeLabel graph (other e))), .literal "`\n"]

/-- What is told of one node. -/
def nodeText (graph : Graph) (node : Node) : Text :=
  [.literal "## `", .argument (displaySafe node.label), .literal "`\n\n",
    .literal "- **File:** `"] ++ location node ++ [.literal "`\n"] ++
  edgesText graph Edge.source Edge.target "Outbound" "→" node ++
  edgesText graph Edge.target Edge.source "Inbound" "←" node ++ [.literal "\n"]

/-- The nodes whose labels hold a text. -/
def renderNode (toLowercase : String → String) (tables : UnicodeTables) (graph : Graph)
    (label : String) : Except String JsonValue :=
  if label.isEmpty then .error "node template requires a non-empty label segment"
  else
    let found := findByLabel toLowercase graph label
    if found.isEmpty then .error ("no node found matching label: " ++ strDebug tables label)
    else
      .ok (contents (nodePrefix ++ label) "text/markdown" (render
        ([.literal "# Nodes matching `", .argument (displaySafe label), .literal "`\n\n"] ++
          found.flatMap (nodeText graph))))

/-- The members of a community, by id. -/
def communityText (graph : Graph) (raw : UInt32) (community : Community) : Text :=
  let members := sortByKey (fun m => m) community.members
  [.literal "# Community ", .argument (toString raw.toNat), .literal ": `",
    .argument (displaySafe community.label), .literal "`\n\n"] ++
  if members.isEmpty then [.literal "_No members._\n"]
  else
    .literal "## Members\n\n" :: members.flatMap fun mid =>
      [.literal "- `", .argument (displaySafe (nodeLabel graph mid)), .literal "` (node ",
        .argument (toString mid.get.toNat), .literal ")\n"]

/-- A community, by the decimal text of its id. -/
def renderCommunity (tables : UnicodeTables) (graph : Graph) (idStr : String) :
    Except String JsonValue :=
  match parseU32 (trim idStr) with
  | none =>
      .error ("community id must be a non-negative integer, got: " ++ strDebug tables idStr)
  | some raw =>
      match graph.communities.find? fun c => c.id = CommunityId.mk raw with
      | none => .error ("community " ++ toString raw.toNat ++ " not found")
      | some community =>
          .ok (contents (communityPrefix ++ toString raw.toNat) "text/markdown"
            (render (communityText graph raw community)))

/-- The resource a URI names. -/
def resourcesRead (toStr : JsonValue → Except String String) (toLowercase : String → String)
    (tables : UnicodeTables) (graph : Graph) (uri : String) : Except String JsonValue :=
  if uri = schemaUri then renderSchema toStr
  else if uri = reportUri then .ok (renderReport graph)
  else match stripStart nodePrefix uri with
    | some label => renderNode toLowercase tables graph label
    | none => match stripStart communityPrefix uri with
      | some idStr => renderCommunity tables graph idStr
      | none => .error ("unknown resource: " ++ uri)

end Resources

end HabitatGraph
