import HabitatGraph.Core.StrDebug
import HabitatGraph.Export.Json
import HabitatGraph.Serve.Budget
import HabitatGraph.Serve.Explain

/-! # Tool calls

The tools a graph is queried with answer in text. Labels, relations and echoed
arguments are escaped in it, but the file names in the lines of `graph_query` and
the schema in the line of `graph_health` are not, so what a tool shows is safe
exactly when these are.
-/

namespace HabitatGraph

open Template

/-- How many matches are listed when no number of tokens is given. -/
def maxQueryResults : Nat := 50

/-- The longest query, in bytes. -/
def maxQueryLen : Nat := 256

/-- Invalid parameters, as a JSON-RPC error code. -/
def invalidParams : Int := -32602

/-- A JSON-RPC error. -/
structure RpcError where
  code : Int
  message : String
deriving DecidableEq, Repr

/-- A reply to a tool call, with the id of the request: its text content, or an
error. -/
structure Response where
  id : JsonValue
  outcome : Except RpcError Text

def errorResponse (id : JsonValue) (code : Int) (message : String) : Response :=
  ⟨id, .error ⟨code, message⟩⟩

/-- Wrap a text as the content of a result. -/
def toolTextResult (id : JsonValue) (text : Text) : Response := ⟨id, .ok text⟩

/-- The label of a node, with the debug form of an id as the fallback. -/
def labelFor : Graph → NodeId → String :=
  labelOr fun nid => "NodeId(" ++ toString nid.get.toNat ++ ")"

section Tools

variable (toLowercase : String → String) (tables : UnicodeTables) (graph : Graph) (id : JsonValue)

/-- The first line of the matches. -/
def queryHeader (total : Nat) (needle : String) : Text :=
  [.argument (toString total), .literal " node(s) match ", .argument (strDebug tables needle),
    .literal ":\n"]

/-- The line of a match. -/
def queryLine (node : Node) : Text :=
  [.literal "  - ", .argument (displaySafe node.label), .literal " [", .argument node.sourceFile,
    .literal ":", .argument (toString node.sourceLocation.startLine.toNat), .literal "]\n"]

/-- The line that says how many matches are not listed. -/
def moreNote (total : Nat) : Text :=
  [.literal "  … ", .argument (toString (total - maxQueryResults)),
    .literal " more (showing first ", .argument (toString maxQueryResults), .literal ")\n"]

/-- Search the labels of nodes for a substring. -/
def toolQuery (args : JsonValue) : Response :=
  match (args.get "query").bind JsonValue.asStr with
  | none => errorResponse id invalidParams "invalid params: graph_query requires a string `query`"
  | some needle =>
      if needle.utf8ByteSize > maxQueryLen then
        errorResponse id invalidParams
          ("invalid params: query exceeds " ++ toString maxQueryLen ++ " bytes")
      else
        let found := findByLabel toLowercase graph needle
        if found.isEmpty then
          toolTextResult id [.literal "no nodes match ", .argument (strDebug tables needle)]
        else
          let total := found.length
          let header := queryHeader tables total needle
          let lines := (found.take maxQueryResults).map queryLine
          match (args.get "max_tokens").bind JsonValue.asU64 with
          | some budget => toolTextResult id (pack header lines.head? lines.tail budget)
          | none =>
              toolTextResult id (header ++ lines.flatten ++
                if total > maxQueryResults then moreNote total else [])

/-- Explain a concept. -/
def toolExplain (args : JsonValue) : Response :=
  match (args.get "concept").bind JsonValue.asStr with
  | none =>
      errorResponse id invalidParams "invalid params: graph_explain requires a string `concept`"
  | some concept =>
      if concept.utf8ByteSize > maxQueryLen then
        errorResponse id invalidParams
          ("invalid params: concept exceeds " ++ toString maxQueryLen ++ " bytes")
      else toolTextResult id (explain toLowercase graph concept)

/-- The shortest path between two labels. -/
def toolPath (args : JsonValue) : Response :=
  match (args.get "from").bind JsonValue.asStr, (args.get "to").bind JsonValue.asStr with
  | some fromLabel, some toLabel =>
      match shortestPath graph fromLabel toLabel with
      | some path =>
          toolTextResult id ([.literal "path (", .argument (toString (path.length - 1)),
            .literal " hop(s)): "] ++
              join " -> " (path.map fun nid => [.argument (labelFor graph nid)]))
      | none =>
          toolTextResult id [.literal "no path between ", .argument (strDebug tables fromLabel),
            .literal " and ", .argument (strDebug tables toLabel)]
  | _, _ =>
      errorResponse id invalidParams "invalid params: graph_path requires string `from` and `to`"

/-- Statistics of the graph. -/
def toolHealth : Response :=
  toolTextResult id
    [.literal "nodes=", .argument (toString graph.nodes.length), .literal " edges=",
      .argument (toString graph.edges.length), .literal " communities=",
      .argument (toString graph.communities.length), .literal " schema=", .argument graph.schema]

/-- The name of the tool that is called. -/
def toolName (params : JsonValue) : String := ((params.get "name").bind JsonValue.asStr).getD ""

/-- The arguments of the call. -/
def toolArguments (params : JsonValue) : JsonValue := (params.get "arguments").getD (.object [])

/-- Hand a call to the tool it names. -/
def toolsCall (params : Option JsonValue) : Response :=
  match params with
  | none => errorResponse id invalidParams "invalid params: missing params object"
  | some params =>
      match toolName params with
      | "graph_query" => toolQuery toLowercase tables graph id (toolArguments params)
      | "graph_path" => toolPath tables graph id (toolArguments params)
      | "graph_health" => toolHealth graph id
      | "graph_explain" => toolExplain toLowercase graph id (toolArguments params)
      | other => errorResponse id invalidParams ("invalid params: unknown tool " ++ other)

end Tools

/-! ## Clean replies -/

/-- The text of the reply, if it has one, shows nothing dangerous but the line
feeds of the tool's template. -/
def Response.Clean (response : Response) : Prop :=
  ∀ text, response.outcome = .ok text → Template.Clean isRenderDangerous text

/-- The text of a reply holds the character. -/
def Response.shows (response : Response) (ch : Char) : Bool :=
  match response.outcome with
  | .ok text => (render text).toList.contains ch
  | .error _ => false

theorem Response.Clean.eq_newline {response : Response} (h : response.Clean) {ch : Char}
    (hshows : response.shows ch) (hdangerous : isRenderDangerous ch) : ch = '\n' := by
  unfold Response.shows at hshows
  split at hshows
  next text htext =>
    exact Template.Clean.eq_newline (h text htext) (List.contains_iff_mem.mp hshows) hdangerous
  next => cases hshows

@[simp] theorem clean_errorResponse (id : JsonValue) (code : Int) (message : String) :
    (errorResponse id code message).Clean := by simp [Response.Clean, errorResponse]

@[simp] theorem clean_toolTextResult {id : JsonValue} {text : Text} :
    (toolTextResult id text).Clean ↔ Template.Clean isRenderDangerous text := by
  simp [Response.Clean, toolTextResult]

theorem renderSafe_labelFor (graph : Graph) (nid : NodeId) : RenderSafe (labelFor graph nid) := by
  apply renderSafe_labelOr
  intro nid
  rw [renderSafe_append, renderSafe_append]
  exact ⟨⟨by decide, renderSafe_toString _⟩, by decide⟩

section Clean

variable {toLowercase : String → String} {tables : UnicodeTables} {graph : Graph} {id : JsonValue}

theorem clean_toolExplain (args : JsonValue) : (toolExplain toLowercase graph id args).Clean := by
  unfold toolExplain
  split
  next => simp
  next => split <;> simp [clean_explain]

theorem clean_toolPath (htables : tables.HidesFormat) (args : JsonValue) :
    (toolPath tables graph id args).Clean := by
  unfold toolPath
  split
  next =>
    split
    next path _ =>
      have hjoin : Template.Clean isRenderDangerous
          (join " -> " (path.map fun nid => [.argument (labelFor graph nid)])) := by
        apply clean_join (by decide)
        rw [List.forall_mem_map]
        intro nid _
        exact clean_argument_iff.mpr ⟨renderSafe_labelFor graph nid, clean_nil⟩
      simp +decide only [clean_toolTextResult, clean_append, clean_literal_cons,
        clean_argument_iff, clean_nil, renderSafe_toString, hjoin, and_self]
    next =>
      simp +decide only [clean_toolTextResult, clean_literal_cons, clean_argument_iff, clean_nil,
        renderSafe_strDebug htables, and_self]
  next => exact clean_errorResponse _ _ _

theorem clean_toolHealth_iff : (toolHealth graph id).Clean ↔ RenderSafe graph.schema := by
  simp +decide only [toolHealth, clean_toolTextResult, clean_literal_cons, clean_argument_iff,
    clean_nil, renderSafe_toString, true_and, and_true]

theorem clean_queryHeader (htables : tables.HidesFormat) (total : Nat) (needle : String) :
    Template.Clean isRenderDangerous (queryHeader tables total needle) := by
  simp +decide only [queryHeader, clean_literal_cons, clean_argument_iff, clean_nil,
    renderSafe_toString, renderSafe_strDebug htables, and_self]

theorem clean_moreNote (total : Nat) : Template.Clean isRenderDangerous (moreNote total) := by
  simp +decide only [moreNote, clean_literal_cons, clean_argument_iff, clean_nil,
    renderSafe_toString, and_self]

theorem clean_queryLine_iff {node : Node} :
    Template.Clean isRenderDangerous (queryLine node) ↔ RenderSafe node.sourceFile := by
  simp +decide only [queryLine, clean_literal_cons, clean_argument_iff, clean_nil,
    renderSafe_displaySafe, renderSafe_toString, true_and, and_true]

/-- The lines of a query are clean when the file names in them are. -/
theorem clean_queryLines_iff {nodes : List Node} {count : Nat} {shows : Nat → Prop} :
    (∀ k line, ((nodes.take count).map queryLine)[k]? = some line → shows k →
        Template.Clean isRenderDangerous line) ↔
      ∀ k node, nodes[k]? = some node → k < count ∧ shows k → RenderSafe node.sourceFile := by
  apply forall_congr'
  intro k
  rw [List.getElem?_map, List.getElem?_take]
  by_cases hk : k < count <;> simp [hk, clean_queryLine_iff]

end Clean

section Condition

variable (toLowercase : String → String) (tables : UnicodeTables) (graph : Graph)

/-- The match at place `k` is listed, and its line fits if there is a budget. -/
def LineShown (needle : String) (maxTokens : Option Nat) (k : Nat) : Prop :=
  let found := findByLabel toLowercase graph needle
  k < maxQueryResults ∧ ∀ budget, maxTokens = some budget →
    LineFits (queryHeader tables found.length needle) ((found.take maxQueryResults).map queryLine)
      budget k

/-- The file names of the matches shown are safe. -/
def QueryFilesSafe (args : JsonValue) : Prop :=
  ∀ needle, (args.get "query").bind JsonValue.asStr = some needle →
    needle.utf8ByteSize ≤ maxQueryLen →
      ∀ k node, (findByLabel toLowercase graph needle)[k]? = some node →
        LineShown toLowercase tables graph needle ((args.get "max_tokens").bind JsonValue.asU64) k →
          RenderSafe node.sourceFile

/-- What the call shows of file names and of the schema is safe. -/
def CallSafe (params : Option JsonValue) : Prop :=
  ∀ call, params = some call →
    (toolName call = "graph_query" →
      QueryFilesSafe toLowercase tables graph (toolArguments call)) ∧
    (toolName call = "graph_health" → RenderSafe graph.schema)

variable {toLowercase tables graph}

theorem clean_toolQuery_iff (htables : tables.HidesFormat) {id args : JsonValue} :
    (toolQuery toLowercase tables graph id args).Clean ↔
      QueryFilesSafe toLowercase tables graph args := by
  unfold toolQuery QueryFilesSafe LineShown
  cases hneedle : (args.get "query").bind JsonValue.asStr with
  | none => simp
  | some needle =>
      simp only [Option.some.injEq, forall_eq']
      have hheader := clean_queryHeader htables (findByLabel toLowercase graph needle).length needle
      split
      next hlong => simp [Nat.not_le.mpr hlong]
      next hshort =>
        rw [not_lt] at hshort
        split
        next hempty =>
          have htext : Template.Clean isRenderDangerous
              [.literal "no nodes match ", .argument (strDebug tables needle)] := by
            simp +decide only [clean_literal_cons, clean_argument_iff, clean_nil,
              renderSafe_strDebug htables, and_self]
          simp [List.isEmpty_iff.mp hempty, htext]
        next hfound =>
          simp only [hshort, forall_const, ← clean_queryLines_iff]
          cases (args.get "max_tokens").bind JsonValue.asU64 with
          | some budget => simp [clean_pack_iff, hheader]
          | none =>
              rw [clean_toolTextResult, clean_append, clean_append, clean_flatten_iff_getElem?]
              simp [hheader, clean_moreNote]

/-- The reply to a call is safe to show exactly when the file names and the schema
that it shows are. The graph, the call and its parameters are arbitrary; the tables hide
control and format characters. -/
theorem toolsCall_clean_iff (htables : tables.HidesFormat) (id : JsonValue)
    (params : Option JsonValue) :
    (toolsCall toLowercase tables graph id params).Clean ↔
      CallSafe toLowercase tables graph params := by
  cases params with
  | none => simp [toolsCall, CallSafe]
  | some call =>
      simp only [toolsCall, CallSafe, Option.some.injEq, forall_eq']
      split
      next hname => simp [hname, clean_toolQuery_iff htables]
      next hname => simp [hname, clean_toolPath htables]
      next hname => simp [hname, clean_toolHealth_iff]
      next hname => simp [hname, clean_toolExplain]
      next hquery _ hhealth _ =>
        simp only [clean_errorResponse, true_iff]
        exact ⟨fun hname => (hquery hname).elim, fun hname => (hhealth hname).elim⟩

end Condition

/-- A function in one file. -/
def sourceGraph (file : String) : Graph := { Graph.new with
  nodes := [⟨⟨1⟩, "main", file, ⟨0, 10, 1, 2⟩⟩] }

/-- A call of `graph_query` without a number of tokens. -/
def queryCall (needle : String) : JsonValue :=
  .object [("name", .string "graph_query"), ("arguments", .object [("query", .string needle)])]

theorem toolsCall_clean_iff_queryCall :
    (toolsCall id asciiTables (sourceGraph "a.rs") .null (some (queryCall "main"))).Clean ↔
      CallSafe id asciiTables (sourceGraph "a.rs") (some (queryCall "main")) :=
  toolsCall_clean_iff hidesFormat_asciiTables .null (some (queryCall "main"))

/-- A query shows the bidi override in a file name, and the statistics show the
one in a schema. -/
theorem toolsCall_shows_override :
    isRenderDangerous '\u202E' ∧
    (toolsCall id asciiTables (sourceGraph "a\u202E.rs") .null
      (some (queryCall "main"))).shows '\u202E' ∧
    (toolsCall id asciiTables { Graph.new with schema := "\u202E" } .null
      (some (.object [("name", .string "graph_health")]))).shows '\u202E' ∧
    ¬ ∀ graph params, (toolsCall id asciiTables graph .null params).Clean := by
  have hquery : (toolsCall id asciiTables (sourceGraph "a\u202E.rs") .null
      (some (queryCall "main"))).shows '\u202E' := by decide +kernel
  refine ⟨by decide, hquery, by decide +kernel, fun h => ?_⟩
  have hclean := h (sourceGraph "a\u202E.rs") (some (queryCall "main"))
  exact absurd (hclean.eq_newline hquery (by decide)) (by decide)

end HabitatGraph
