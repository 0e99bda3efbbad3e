import HabitatGraph.Serve.Generation
import HabitatGraph.Serve.Mcp
import HabitatGraph.Serve.Resources

/-! # JSON-RPC requests

One line of input is one request and gets one line in reply, none when it is a
notification. A reply is an object that carries the id of its request, and `null` where
the line is not JSON.
-/

namespace HabitatGraph

open Template

def mcpProtocolVersion : String := "2024-11-05"

def serverName : String := "habitat-graph"

/-- The version of the package. -/
def pkgVersion : String := "0.0.0"

def parseError : Int := -32700

/-- The message for a line that is not JSON. -/
def parseErrorMessage : String := "parse error: request was not valid JSON"

def methodNotFound : Int := -32601

/-- An integer as JSON. -/
def jsonInt : Int → JsonValue
  | .ofNat n => .number (.integer n)
  | .negSucc n => .number (.negative (n + 1))

/-- The JSON library with the compact forms: the text a value displays as, and the one
it is written as. -/
structure SerdeLine extends SerdeJson where
  display : JsonValue → String
  toStr : JsonValue → Except String String

/-- The libraries a server answers with. -/
structure Server where
  serde : SerdeLine
  toLowercase : String → String
  tables : UnicodeTables
  blake3Hex : Bytes → String

/-- A success response. -/
def okResponse (id result : JsonValue) : JsonValue :=
  .object [("jsonrpc", .string "2.0"), ("id", id), ("result", result)]

/-- An error response. -/
def errorObject (id : JsonValue) (error : RpcError) : JsonValue :=
  .object [("jsonrpc", .string "2.0"), ("id", id),
    ("error", .object [("code", jsonInt error.code), ("message", .string error.message)])]

/-- The response to a tool call. -/
def Response.toJson (response : Response) : JsonValue :=
  match response.outcome with
  | .ok text =>
      okResponse response.id (.object
        [("content", .array
          [.object [("type", .string "text"), ("text", .string (render text))]]),
        ("isError", .bool false)])
  | .error error => errorObject response.id error

/-- A tool as it is advertised: its name, what it does and its input. -/
def toolDescriptor (name description : String) (inputSchema : List (String × JsonValue)) :
    JsonValue :=
  .object [("name", .string name), ("description", .string description),
    ("inputSchema", .object (("type", .string "object") :: inputSchema))]

/-- A property of the input of a tool. -/
def property (name type description : String) : String × JsonValue :=
  (name, .object [("type", .string type), ("description", .string description)])

def toolDescriptors : JsonValue :=
  .array
    [toolDescriptor "graph_query"
      "Search graph nodes whose label contains a substring (case-insensitive)."
      [("properties", .object
        [property "query" "string" "substring to match against node labels",
        property "max_tokens" "integer" ("optional token budget; packs the most relevant " ++
          "matches within it (top match never dropped)")]),
      ("required", .array [.string "query"])],
    toolDescriptor "graph_path" "Find the shortest undirected path between two node labels."
      [("properties", .object
        [property "from" "string" "source node label (exact match)",
        property "to" "string" "target node label (exact match)"]),
      ("required", .array [.string "from", .string "to"])],
    toolDescriptor "graph_health" "Report graph statistics: node, edge, and community counts."
      [("properties", .object [])],
    toolDescriptor "graph_explain" ("Explain a concept: summarise nodes matching it and their " ++
        "graph neighbourhood (local-first, no LLM).")
      [("properties", .object [property "concept" "string" "concept/label substring to explain"]),
      ("required", .array [.string "concept"])]]

def initializeResponse (blake3Hex : Bytes → String) (graph : Graph) (id : JsonValue) : JsonValue :=
  okResponse id (.object
    [("protocolVersion", .string mcpProtocolVersion),
    ("capabilities", .object [("tools", .object []), ("resources", .object [])]),
    ("serverInfo", .object [("name", .string serverName), ("version", .string pkgVersion)]),
    ("generation", .string (generationId blake3Hex graph))])

def toolsListResponse (id : JsonValue) : JsonValue :=
  okResponse id (.object [("tools", toolDescriptors)])

namespace Server

variable (server : Server) (graph : Graph)

def resourcesReadResponse (id : JsonValue) (params : Option JsonValue) : JsonValue :=
  match (params.bind (·.get "uri")).bind JsonValue.asStr with
  | none =>
      errorObject id ⟨invalidParams, "invalid params: resources/read requires a string `uri`"⟩
  | some uri =>
      match Resources.resourcesRead server.serde.toStr server.toLowercase server.tables graph
        uri with
      | .ok result => okResponse id result
      | .error msg => errorObject id ⟨invalidParams, "invalid params: " ++ msg⟩

/-- The response of the method that a request names. -/
def dispatch (id request : JsonValue) : JsonValue :=
  match ((request.get "method").bind JsonValue.asStr).getD "" with
  | "initialize" => initializeResponse server.blake3Hex graph id
  | "tools/list" => toolsListResponse id
  | "tools/call" =>
      (toolsCall server.toLowercase server.tables graph id (request.get "params")).toJson
  | "resources/list" => okResponse id (Resources.resourcesList graph)
  | "resources/read" => server.resourcesReadResponse graph id (request.get "params")
  | other => errorObject id ⟨methodNotFound, "method not found: " ++ other⟩

/-- The response to a line, none to a notification. -/
def respond (line : String) : Option JsonValue :=
  match server.serde.fromStr line with
  | .error _ =>
      some (errorObject .null ⟨parseError, parseErrorMessage⟩)
  | .ok value => (value.get "id").map fun id => server.dispatch graph id value

/-- The text in reply to a line, empty for a notification. -/
def handleJsonrpc (line : String) : String :=
  match server.respond graph line with
  | none => ""
  | some response => server.serde.display response

end Server

/-! ## What a response carries -/

/-- A reply that carries an id, with invalid parameters as its only error. -/
def Response.AnswersTo (response : Response) (id : JsonValue) : Prop :=
  response.id = id ∧ ∀ error, response.outcome = .error error → error.code = invalidParams

theorem answersTo_toolTextResult (id : JsonValue) (text : Text) :
    (toolTextResult id text).AnswersTo id := ⟨rfl, fun _ herror => nomatch herror⟩

theorem answersTo_errorResponse (id : JsonValue) (message : String) :
    (errorResponse id invalidParams message).AnswersTo id := by
  refine ⟨rfl, fun error herror => ?_⟩
  cases herror
  rfl

section Tools

variable (toLowercase : String → String) (tables : UnicodeTables) (graph : Graph)
  (id args : JsonValue)

theorem answersTo_toolQuery : (toolQuery toLowercase tables graph id args).AnswersTo id := by
  unfold toolQuery
  split
  next => exact answersTo_errorResponse _ _
  next =>
    split
    next => exact answersTo_errorResponse _ _
    next =>
      dsimp only
      split
      next => exact answersTo_toolTextResult _ _
      next => split <;> exact answersTo_toolTextResult _ _

theorem answersTo_toolExplain : (toolExplain toLowercase graph id args).AnswersTo id := by
  unfold toolExplain
  split
  next => exact answersTo_errorResponse _ _
  next =>
    split
    next => exact answersTo_errorResponse _ _
    next => exact answersTo_toolTextResult _ _

theorem answersTo_toolPath : (toolPath tables graph id args).AnswersTo id := by
  unfold toolPath
  split
  next => split <;> exact answersTo_toolTextResult _ _
  next => exact answersTo_errorResponse _ _

theorem answersTo_toolsCall (params : Option JsonValue) :
    (toolsCall toLowercase tables graph id params).AnswersTo id := by
  unfold toolsCall
  split
  next => exact answersTo_errorResponse _ _
  next =>
    split
    next => exact answersTo_toolQuery _ _ _ _ _
    next => exact answersTo_toolPath _ _ _ _
    next => exact answersTo_toolTextResult _ _
    next => exact answersTo_toolExplain _ _ _ _
    next => exact answersTo_errorResponse _ _

end Tools

/-- The code and the message of an error response. -/
def JsonValue.errorCode (value : JsonValue) : Option JsonValue :=
  (value.get "error").bind (·.get "code")

def JsonValue.errorMessage (value : JsonValue) : Option JsonValue :=
  (value.get "error").bind (·.get "message")

/-- An object that carries an id, and the one message of a parse error if it is one. -/
structure Answers (response id : JsonValue) : Prop where
  isObject : ∃ fields, response = .object fields
  hasId : response.get "id" = some id
  parseErrors : response.errorCode = some (jsonInt parseError) →
    response.errorMessage = some (.string parseErrorMessage)

theorem answers_okResponse (id result : JsonValue) : Answers (okResponse id result) id where
  isObject := ⟨_, rfl⟩
  hasId := rfl
  parseErrors := nofun

theorem jsonInt_injective : Function.Injective jsonInt := by
  intro m n heq
  cases m with
  | ofNat m =>
      cases n with
      | ofNat n => cases heq; rfl
      | negSucc n => cases heq
  | negSucc m =>
      cases n with
      | ofNat n => cases heq
      | negSucc n => cases heq; rfl

theorem answers_errorObject (id : JsonValue) {error : RpcError} (hcode : error.code ≠ parseError) :
    Answers (errorObject id error) id where
  isObject := ⟨_, rfl⟩
  hasId := rfl
  parseErrors := fun heq => absurd (jsonInt_injective (Option.some.inj heq)) hcode

theorem answers_toJson {response : Response} {id : JsonValue} (h : response.AnswersTo id) :
    Answers response.toJson id := by
  obtain ⟨rfl, hcode⟩ := h
  unfold Response.toJson
  split
  next => exact answers_okResponse _ _
  next error herror =>
    apply answers_errorObject
    rw [hcode error herror]
    decide

namespace Server

variable (server : Server) (graph : Graph)

theorem answers_dispatch (id request : JsonValue) :
    Answers (server.dispatch graph id request) id := by
  unfold dispatch
  split
  next => exact answers_okResponse _ _
  next => exact answers_okResponse _ _
  next => exact answers_toJson (answersTo_toolsCall _ _ _ _ _)
  next => exact answers_okResponse _ _
  next =>
    unfold resourcesReadResponse
    split
    next => exact answers_errorObject _ (show invalidParams ≠ parseError by decide)
    next =>
      split
      next => exact answers_okResponse _ _
      next => exact answers_errorObject _ (show invalidParams ≠ parseError by decide)
  next => exact answers_errorObject _ (show methodNotFound ≠ parseError by decide)

/-- The id a response to a line carries, none when the line is a notification. -/
def responseId (line : String) : Option JsonValue :=
  match server.serde.fromStr line with
  | .error _ => some .null
  | .ok value => value.get "id"

theorem respond_of_notification {line : String} (hid : server.responseId line = none) :
    server.respond graph line = none := by
  unfold responseId at hid
  unfold respond
  split at hid
  next => cases hid
  next => rw [hid, Option.map_none]

/-- A line that is not a notification gets an object with its id in response. -/
theorem respond_of_request {line : String} {id : JsonValue}
    (hid : server.responseId line = some id) :
    ∃ response, server.respond graph line = some response ∧ Answers response id := by
  unfold responseId at hid
  unfold respond
  split at hid
  next =>
    cases hid
    exact ⟨_, rfl, ⟨_, rfl⟩, rfl, fun _ => rfl⟩
  next value _ =>
    rw [hid, Option.map_some]
    exact ⟨_, rfl, server.answers_dispatch graph id value⟩

end Server

end HabitatGraph
