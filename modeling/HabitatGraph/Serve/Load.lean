import HabitatGraph.Core.StrDebug
import HabitatGraph.Export.Json
import HabitatGraph.Foundation.SortedList

/-! # Loading a graph

`graph.json` is parsed back into a graph. Nodes and links are read one by one
and the first that is malformed is reported by its place. Communities are
regrouped from the field of their members, and what is returned is sorted.
-/

namespace HabitatGraph

open StableSort

/-! ## Fields -/

/-- A value, or an error of the schema. -/
def okOrSchema {α : Type} (message : String) : Option α → Except GraphError α
  | some a => .ok a
  | none => .error (.schema message)

/-- The array under a key of the document. -/
def readArray (key : String) (root : JsonValue) : Except GraphError (List JsonValue) := do
  let value ← okOrSchema ("missing '" ++ key ++ "' key") (root.get key)
  okOrSchema ("'" ++ key ++ "' must be an array") value.asArray

/-- How messages name an entry of an array. -/
def place (entry : String) (i : Nat) : String := entry ++ "[" ++ toString i ++ "]: "

/-- A required field of an entry. -/
def readField {α : Type} (entry : String) (i : Nat) (key : String) (read : JsonValue → Option α)
    (v : JsonValue) : Except GraphError α :=
  okOrSchema (place entry i ++ "missing or invalid '" ++ key ++ "'") ((v.get key).bind read)

/-- A number that must fit into 32 bits. -/
def toU32 (entry : String) (i : Nat) (key : String) (raw : Nat) : Except GraphError UInt32 :=
  if raw < 2 ^ 32 then .ok (UInt32.ofNat raw)
  else
    .error (.schema (place entry i ++ "'" ++ key ++ "' " ++ toString raw ++ " exceeds u32 range"))

/-- A required field that holds an id. -/
def readU32 (entry : String) (i : Nat) (key : String) (v : JsonValue) :
    Except GraphError UInt32 := do
  let raw ← readField entry i key JsonValue.asU64 v
  toU32 entry i key raw

/-- The characters after a leading plus sign. -/
def dropPlus : List Char → List Char
  | '+' :: rest => rest
  | chars => chars

/-- Parse a decimal number of 32 bits, with or without a plus sign. -/
def parseU32 (s : String) : Option UInt32 :=
  let digits := dropPlus s.toList
  if digits ≠ [] ∧ digits.all Char.isDigit ∧ Nat.ofDigitChars 10 digits 0 < 2 ^ 32 then
    some (UInt32.ofNat (Nat.ofDigitChars 10 digits 0))
  else none

/-- The text after its first character, when that is `ch`. -/
def stripPrefix (ch : Char) (s : String) : Option String :=
  match s.toList with
  | c :: rest => if c = ch then some (String.ofList rest) else none
  | [] => none

/-- The line of a location such as "L7"; 1 when it cannot be read. -/
def lineOf (location : String) : UInt32 :=
  (parseU32 ((stripPrefix 'L' location).getD location)).getD 1

/-! ## Entries -/

/-- The community of a node: absent, `null`, or an id. -/
def readCommunity (i : Nat) (v : JsonValue) : Except GraphError (Option UInt32) :=
  match v.get "community" with
  | none => .ok none
  | some .null => .ok none
  | some cidVal => do
      let raw ← okOrSchema (place "node" i ++ "'community' must be a u32 integer or null")
        cidVal.asU64
      let cid ← toU32 "node" i "community" raw
      .ok (some cid)

/-- A node with its community; of its span only the line is known. -/
def parseNode (i : Nat) (v : JsonValue) : Except GraphError (Node × Option UInt32) := do
  let id ← readU32 "node" i "id" v
  let label ← readField "node" i "label" JsonValue.asStr v
  let sourceFile ← readField "node" i "source_file" JsonValue.asStr v
  let location ← readField "node" i "source_location" JsonValue.asStr v
  let line := lineOf location
  let community ← readCommunity i v
  .ok (⟨⟨id⟩, label, sourceFile, ⟨0, 0, line, line⟩⟩, community)

/-- The confidence written as `s`. -/
def parseConfidence (tables : UnicodeTables) (i : Nat) (s : String) :
    Except GraphError Confidence :=
  match s with
  | "EXTRACTED" => .ok .extracted
  | "INFERRED" => .ok .inferred
  | "AMBIGUOUS" => .ok .ambiguous
  | other => .error (.schema (place "link" i ++ "unknown confidence " ++ strDebug tables other ++
      "; expected EXTRACTED | INFERRED | AMBIGUOUS"))

/-- An edge. Its weight is not read. -/
def parseEdge (tables : UnicodeTables) (i : Nat) (v : JsonValue) : Except GraphError Edge := do
  let source ← readU32 "link" i "source" v
  let target ← readU32 "link" i "target" v
  let relation ← readField "link" i "relation" JsonValue.asStr v
  let written ← readField "link" i "confidence" JsonValue.asStr v
  let confidence ← parseConfidence tables i written
  .ok ⟨⟨source⟩, ⟨target⟩, relation, confidence⟩

/-! ## The document -/

/-- The label given to a community. -/
def communityLabel (cid : CommunityId) : String := "community-" ++ toString cid.get.toNat

/-- The members of each community among the nodes read, in their order. -/
def memberEntries (parsed : List (Node × Option UInt32)) : List (CommunityId × NodeId) :=
  parsed.filterMap fun p => p.2.map fun cid => (⟨cid⟩, p.1.id)

/-- A community with its members in ascending order. -/
def loadedCommunity (communityMap : PartialMap CommunityId (List NodeId)) (cid : CommunityId) :
    Community where
  id := cid
  label := communityLabel cid
  members := sortByKey (fun m => m) ((communityMap cid).getD [])

/-- The communities of a list of members, by ascending id. -/
def groupCommunities (entries : List (CommunityId × NodeId)) : List Community :=
  (SortedList.sortDedup (entries.map Prod.fst)).map
    (loadedCommunity (PartialMap.grouped entries))

/-- Parse the text of a `graph.json`. -/
def fromNodeLink (serde : SerdeJson) (tables : UnicodeTables) (json : String) :
    Except GraphError Graph := do
  let root ← (serde.fromStr json).mapError fun e => GraphError.schema ("invalid JSON: " ++ e)
  let nodesArr ← readArray "nodes" root
  let linksArr ← readArray "links" root
  let parsed ← nodesArr.zipIdx.mapM fun entry => parseNode entry.2 entry.1
  let edges ← linksArr.zipIdx.mapM fun entry => parseEdge tables entry.2 entry.1
  .ok {
    schema := schemaVersion
    nodes := sortByKey Node.id (parsed.map Prod.fst)
    edges := sortByKey Edge.key edges
    communities := groupCommunities (memberEntries parsed)
    manifest := Manifest.default }

end HabitatGraph
