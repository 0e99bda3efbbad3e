import HabitatGraph.Export.Json

/-! # Function calls of other models

A model that does not speak the protocol calls a function with its arguments as a JSON
object or as the text of one. The bridge turns both forms into the parameters of one
tool call, and degrades to an empty object where there is nothing to read.
-/

namespace HabitatGraph

def JsonValue.isObject : JsonValue → Bool
  | .object _ => true
  | _ => false

/-- The arguments of a call: an object as it is, a text as the value it denotes. -/
def callArguments (serde : SerdeJson) : JsonValue → JsonValue
  | .string s =>
      -- whatever value the text denotes is taken, an object or not
      match serde.fromStr s with
      | .ok value => value
      | .error _ => .object []
  | .object fields => .object fields
  | _ => .object []

/-- The parameters of a tool call from a function call. -/
def openaiFunctionCallToMcp (serde : SerdeJson) (name : String) (arguments : JsonValue) :
    JsonValue :=
  .object [("name", .string name), ("arguments", callArguments serde arguments)]

/-- The text of a JSON value that this library reads. -/
def SerdeJson.Denotes (serde : SerdeJson) (v value : JsonValue) : Prop :=
  ∃ s, v = .string s ∧ serde.fromStr s = .ok value

variable {serde : SerdeJson}

theorem callArguments_of_isObject {v : JsonValue} (hobject : v.isObject) :
    callArguments serde v = v := by
  cases v with
  | object fields => rfl
  | null | bool | number | string | array => cases hobject

theorem callArguments_of_denotes {v value : JsonValue} (hdenotes : serde.Denotes v value) :
    callArguments serde v = value := by
  obtain ⟨s, rfl, hvalue⟩ := hdenotes
  rw [callArguments, hvalue]

theorem callArguments_otherwise {v : JsonValue} (hobject : ¬ v.isObject)
    (hdenotes : ∀ value, ¬ serde.Denotes v value) : callArguments serde v = .object [] := by
  cases v with
  | object fields => exact absurd rfl hobject
  | string s =>
      cases hread : serde.fromStr s with
      | error e => rw [callArguments, hread]
      | ok value => exact absurd ⟨s, rfl, hread⟩ (hdenotes value)
  | null | bool | number | array => rfl

/-- Only the text of a value that is no object leaves arguments that are none. -/
theorem callArguments_isObject_iff {v : JsonValue} :
    (callArguments serde v).isObject ↔ ∀ value, serde.Denotes v value → value.isObject := by
  constructor
  · intro hobject value hdenotes
    rwa [callArguments_of_denotes hdenotes] at hobject
  · intro hvalues
    by_cases hobject : v.isObject
    · rwa [callArguments_of_isObject hobject]
    · by_cases hdenotes : ∃ value, serde.Denotes v value
      · obtain ⟨value, hvalue⟩ := hdenotes
        rw [callArguments_of_denotes hvalue]
        exact hvalues value hvalue
      · rw [callArguments_otherwise hobject (not_exists.mp hdenotes)]
        rfl

/-- The arguments of the call are the object given, the value a given text denotes, and
empty in every other case; so they are an object unless that value is none, and both
encodings of one call have the same parameters. -/
theorem openaiFunctionCallToMcp_spec (serde : SerdeJson) (name : String) (v : JsonValue) :
    ∃ args,
      openaiFunctionCallToMcp serde name v =
        .object [("name", .string name), ("arguments", args)] ∧
      (v.isObject → args = v) ∧
      (∀ value, serde.Denotes v value → args = value) ∧
      (∀ value, serde.Denotes v value → value.isObject →
        openaiFunctionCallToMcp serde name v = openaiFunctionCallToMcp serde name value) ∧
      (¬ v.isObject → (∀ value, ¬ serde.Denotes v value) → args = .object []) ∧
      (args.isObject ↔ ∀ value, serde.Denotes v value → value.isObject) := by
  refine ⟨callArguments serde v, rfl, callArguments_of_isObject,
    fun value => callArguments_of_denotes, fun value hdenotes hobject => ?_,
    callArguments_otherwise, callArguments_isObject_iff⟩
  rw [openaiFunctionCallToMcp, openaiFunctionCallToMcp, callArguments_of_denotes hdenotes,
    callArguments_of_isObject hobject]

/-- A library on the text of an array. -/
def arraySerde : SerdeJson where
  toStringPretty := fun _ => .error "unsupported"
  fromStr := fun text =>
    if text = "[1,2]" then .ok (.array [.number (.integer 1), .number (.integer 2)])
    else .error "expected value at line 1 column 1"

/-- The text of an array leaves an array as the arguments. -/
theorem openaiFunctionCallToMcp_arrayText :
    openaiFunctionCallToMcp arraySerde "t" (.string "[1,2]") =
      .object [("name", .string "t"),
        ("arguments", .array [.number (.integer 1), .number (.integer 2)])] ∧
    ((openaiFunctionCallToMcp arraySerde "t" (.string "[1,2]")).get "arguments").map
      JsonValue.isObject = some false :=
  ⟨rfl, rfl⟩

end HabitatGraph
