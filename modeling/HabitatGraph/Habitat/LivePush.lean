import HabitatGraph.Foundation.Program
import HabitatGraph.Habitat.ArcTelemetry
import HabitatGraph.Serve.Jsonrpc
import Mathlib.Data.List.DropRight

/-! # Live push

A change of arcs is posted to two services. Each is told by one request, whose answer is
only logged; a change without arcs is not posted. The second service is a store of texts,
and gets the text that holds the change inside of a text of its own.
-/

namespace HabitatGraph

open Program

/-- What `HttpTransport` is asked for: `post_json` without further headers. -/
inductive PushOp
  | post (url body : String)
deriving DecidableEq, Repr

/-- The response, or why there is none. -/
abbrev PushAns (_ : PushOp) : Type := Except GraphError String

/-- Where the changes are posted to. -/
structure DeltaPusher where
  pv2Url : String
  povmUrl : String

def defaultPv2Url : String := "http://localhost:8132"

def defaultPovmUrl : String := "http://localhost:8125"

namespace DeltaPusher

def new : DeltaPusher := ⟨defaultPv2Url, defaultPovmUrl⟩

def withPv2Url (pusher : DeltaPusher) (url : String) : DeltaPusher := { pusher with pv2Url := url }

def withPovmUrl (pusher : DeltaPusher) (url : String) : DeltaPusher :=
  { pusher with povmUrl := url }

end DeltaPusher

/-- The url without slashes at its end. -/
def trimSlashes (url : String) : String := String.ofList (url.toList.rdropWhile (· == '/'))

def arcToJson (arc : Arc) : JsonValue :=
  .object [("producer", .string arc.producer), ("consumer", .string arc.consumer),
    ("relation", .string arc.relation)]

section Push

variable {F : Type} (number : F → JsonValue) (toStr : JsonValue → Except String String)

/-- A change of arcs as JSON. -/
def deltaPayload (delta : ArcDelta F) : JsonValue :=
  .object [("newly_severed", .array (delta.newlySevered.map arcToJson)),
    ("newly_healed", .array (delta.newlyHealed.map arcToJson)),
    ("coherence_delta", number delta.coherenceDelta)]

/-- The entry of the store, with the text of a change as its value. -/
def povmPayload (value : String) : JsonValue :=
  .object [("namespace", .string "habitat_graph"), ("key", .string "arc_delta"),
    ("value", .string value)]

/-- The text of a value, or an error that says what was to be printed. -/
def serialise {Op : Type} {Ans : Op → Type} (what : String) (value : JsonValue) :
    Program Op Ans GraphError String :=
  ofExcept ((toStr value).mapError fun e =>
    .io ("DeltaPusher: " ++ what ++ " serialisation failed: " ++ e))

/-- Post a body. An error is logged and passed over. -/
def post (url body : String) : Program PushOp PushAns GraphError Unit :=
  .call (.post url body) fun _ => .pure ()

namespace DeltaPusher

variable (pusher : DeltaPusher)

def pv2Endpoint : String := trimSlashes pusher.pv2Url ++ "/arc-delta"

def povmEndpoint : String := trimSlashes pusher.povmUrl ++ "/memory/store"

/-- Post a change to both services, if it has arcs. -/
def pushDelta (delta : ArcDelta F) : Program PushOp PushAns GraphError Unit :=
  if delta.newlySevered.isEmpty && delta.newlyHealed.isEmpty then .pure ()
  else do
    let pv2Body ← serialise toStr "PV2 body" (deltaPayload number delta)
    post pusher.pv2Endpoint pv2Body
    let deltaValueStr ← serialise toStr "POVM value" (deltaPayload number delta)
    let povmBody ← serialise toStr "POVM body" (povmPayload deltaValueStr)
    post pusher.povmEndpoint povmBody

end DeltaPusher

variable {number toStr}

/-! ## What is posted -/

/-- A text that a change is printed as, and one for the store. -/
structure PrintsDelta (number : F → JsonValue) (toStr : JsonValue → Except String String)
    (delta : ArcDelta F) (value body : String) : Prop where
  value_eq : toStr (deltaPayload number delta) = .ok value
  body_eq : toStr (povmPayload value) = .ok body

theorem serialise_eq {Op : Type} {Ans : Op → Type} {what text : String} {value : JsonValue}
    (h : toStr value = .ok text) :
    serialise toStr what value = (.pure text : Program Op Ans GraphError String) := by
  rw [serialise, h]
  rfl

/-- A change without arcs is not posted. -/
theorem pushDelta_of_empty (pusher : DeltaPusher) {delta : ArcDelta F}
    (hsevered : delta.newlySevered = []) (hhealed : delta.newlyHealed = []) :
    pusher.pushDelta number toStr delta = .pure () := by
  rw [DeltaPusher.pushDelta, hsevered, hhealed]
  rfl

/-- A change with arcs is posted to both services in turn, whatever they answer, and this
does not fail. -/
theorem traces_pushDelta_iff {pusher : DeltaPusher} {delta : ArcDelta F} {value body : String}
    (hprints : PrintsDelta number toStr delta value body)
    (hdelta : delta.newlySevered ≠ [] ∨ delta.newlyHealed ≠ [])
    {trace : List (Event PushAns)} {result : Except GraphError Unit} :
    Traces (pusher.pushDelta number toStr delta) trace result ↔ result = .ok () ∧
      ∃ answer answer', trace = [⟨.post pusher.pv2Endpoint value, answer⟩,
        ⟨.post pusher.povmEndpoint body, answer'⟩] := by
  have hguard : (delta.newlySevered.isEmpty && delta.newlyHealed.isEmpty) = false := by
    rw [Bool.and_eq_false_iff, List.isEmpty_eq_false_iff, List.isEmpty_eq_false_iff]
    exact hdelta
  have hprogram : pusher.pushDelta number toStr delta =
      .call (.post pusher.pv2Endpoint value) fun _ =>
        .call (.post pusher.povmEndpoint body) fun _ => .pure () := by
    rw [DeltaPusher.pushDelta, hguard, serialise_eq hprints.value_eq,
      serialise_eq hprints.value_eq]
    change (post pusher.pv2Endpoint value >>= fun _ =>
      serialise toStr "POVM body" (povmPayload value) >>= fun povmBody =>
        post pusher.povmEndpoint povmBody) = _
    rw [serialise_eq hprints.body_eq]
    rfl
  rw [hprogram, traces_call_iff]
  constructor
  · rintro ⟨answer, rest, rfl, hrest⟩
    obtain ⟨answer', rest', rfl, hrest'⟩ := traces_call_iff.mp hrest
    obtain ⟨rfl, rfl⟩ := traces_pure_iff.mp hrest'
    exact ⟨rfl, answer, answer', rfl⟩
  · rintro ⟨rfl, answer, answer', rfl⟩
    exact ⟨answer, _, rfl, .call (.pure ())⟩

end Push

/-- The two services are never told apart by a slash: their endpoints differ. -/
theorem DeltaPusher.endpoint_ne (pusher : DeltaPusher) :
    pusher.pv2Endpoint ≠ pusher.povmEndpoint := by
  intro heq
  have hlast := congrArg (fun url : String => url.toList.getLast?) heq
  have hpv2 : "/arc-delta".toList.getLast? = some 'a' := rfl
  have hpovm : "/memory/store".toList.getLast? = some 'e' := rfl
  simp only [pv2Endpoint, povmEndpoint, String.toList_append, List.getLast?_append, hpv2, hpovm,
    Option.some_or] at hlast
  exact absurd hlast (by decide)

/-! ## What is read of it -/

/-- The arc of a JSON value. -/
def arcOfJson (value : JsonValue) : Option Arc := do
  let producer ← (value.get "producer").bind JsonValue.asStr
  let consumer ← (value.get "consumer").bind JsonValue.asStr
  let relation ← (value.get "relation").bind JsonValue.asStr
  pure ⟨producer, consumer, relation⟩

theorem arcOfJson_arcToJson (arc : Arc) : arcOfJson (arcToJson arc) = some arc := rfl

/-- The arcs under a key. -/
def arcsOf (key : String) (value : JsonValue) : Option (List Arc) := do
  let values ← (value.get key).bind JsonValue.asArray
  values.mapM arcOfJson

/-- The severed and the healed arcs of a text that was posted to PV2. -/
def readPv2 (fromStr : String → Except String JsonValue) (body : String) :
    Option (List Arc × List Arc) := do
  let value ← (fromStr body).toOption
  let severed ← arcsOf "newly_severed" value
  let healed ← arcsOf "newly_healed" value
  pure (severed, healed)

/-- The same of a text that was posted to POVM. -/
def readPovm (fromStr : String → Except String JsonValue) (body : String) :
    Option (List Arc × List Arc) := do
  let entry ← (fromStr body).toOption
  let value ← (entry.get "value").bind JsonValue.asStr
  readPv2 fromStr value

theorem mapM_arcOfJson (arcs : List Arc) : (arcs.map arcToJson).mapM arcOfJson = some arcs := by
  induction arcs with
  | nil => rfl
  | cons arc arcs ih =>
      rw [List.map_cons, List.mapM_cons, arcOfJson_arcToJson, ih]
      rfl

variable {F : Type} {number : F → JsonValue} {fromStr : String → Except String JsonValue}

theorem readPv2_payload {delta : ArcDelta F} {text : String}
    (h : fromStr text = .ok (deltaPayload number delta)) :
    readPv2 fromStr text = some (delta.newlySevered, delta.newlyHealed) := by
  have hsevered : arcsOf "newly_severed" (deltaPayload number delta) = some delta.newlySevered :=
    mapM_arcOfJson delta.newlySevered
  have hhealed : arcsOf "newly_healed" (deltaPayload number delta) = some delta.newlyHealed :=
    mapM_arcOfJson delta.newlyHealed
  rw [readPv2, h]
  change (arcsOf "newly_severed" (deltaPayload number delta)).bind _ = _
  rw [hsevered]
  change (arcsOf "newly_healed" (deltaPayload number delta)).bind _ = _
  rw [hhealed]
  rfl

theorem readPovm_payload {text body : String} (hbody : fromStr body = .ok (povmPayload text)) :
    readPovm fromStr body = readPv2 fromStr text := by
  rw [readPovm, hbody]
  rfl

end HabitatGraph
