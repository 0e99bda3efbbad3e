import HabitatGraph.Core.Sanitize
import HabitatGraph.Core.Schema
import HabitatGraph.Foundation.PartialMap

/-! # Node-link export

`graph.json` is a node-link envelope around the nodes and edges of a graph. A
node carries the community it is a member of; communities and the manifest do
not appear otherwise, so graphs that differ in their manifest export alike.
-/

namespace HabitatGraph

/-- A JSON number: an integer, a float given in tenths, a negative integer by its
magnitude, or another float by its digits. -/
inductive JsonNumber
  | integer (value : Nat)
  | tenths (value : Nat)
  | negative (magnitude : Nat)
  | float (digits : String)
deriving DecidableEq, Repr

/-- A JSON value, objects as fields in the order they were built. -/
inductive JsonValue
  | null
  | bool (value : Bool)
  | number (value : JsonNumber)
  | string (value : String)
  | array (values : List JsonValue)
  | object (fields : List (String × JsonValue))
deriving Repr

mutual

/-- The text of a value without blanks, the fields of an object by key, for strings that
need no escapes. -/
def JsonValue.compact : JsonValue → List Char
  | .null => "null".toList
  | .bool value => (toString value).toList
  | .number (.integer value) => Nat.toDigits 10 value
  | .number (.tenths value) => Nat.toDigits 10 (value / 10) ++ '.' :: Nat.toDigits 10 (value % 10)
  | .number (.negative magnitude) => '-' :: Nat.toDigits 10 magnitude
  | .number (.float digits) => digits.toList
  | .string value => '"' :: value.toList ++ ['"']
  | .array values => '[' :: [','].intercalate (JsonValue.compactItems values) ++ [']']
  | .object fields =>
      '\x7b' :: [','].intercalate ((StableSort.sortByKey Prod.fst
        (JsonValue.compactFields fields)).map Prod.snd) ++ ['\x7d']

def JsonValue.compactItems : List JsonValue → List (List Char)
  | [] => []
  | value :: values => value.compact :: JsonValue.compactItems values

def JsonValue.compactFields : List (String × JsonValue) → List (String × List Char)
  | [] => []
  | (key, value) :: fields =>
      (key, '"' :: key.toList ++ '"' :: ':' :: value.compact) :: JsonValue.compactFields fields

end

mutual

/-- The text of a value on indented lines, the fields of an object by key, for
strings that need no escapes. -/
def JsonValue.pretty (indent : List Char) : JsonValue → List Char
  | .null => "null".toList
  | .bool value => (toString value).toList
  | .number (.integer value) => Nat.toDigits 10 value
  | .number (.tenths value) => Nat.toDigits 10 (value / 10) ++ '.' :: Nat.toDigits 10 (value % 10)
  | .number (.negative magnitude) => '-' :: Nat.toDigits 10 magnitude
  | .number (.float digits) => digits.toList
  | .string value => '"' :: value.toList ++ ['"']
  | .array [] => ['[', ']']
  | .array values =>
      '[' :: [','].intercalate (JsonValue.prettyItems (' ' :: ' ' :: indent) values) ++
        '\n' :: indent ++ [']']
  | .object [] => ['\x7b', '\x7d']
  | .object fields =>
      '\x7b' :: [','].intercalate ((StableSort.sortByKey Prod.fst
        (JsonValue.prettyFields (' ' :: ' ' :: indent) fields)).map Prod.snd) ++
        '\n' :: indent ++ ['\x7d']

def JsonValue.prettyItems (indent : List Char) : List JsonValue → List (List Char)
  | [] => []
  | value :: values =>
      ('\n' :: indent ++ value.pretty indent) :: JsonValue.prettyItems indent values

def JsonValue.prettyFields (indent : List Char) :
    List (String × JsonValue) → List (String × List Char)
  | [] => []
  | (key, value) :: fields =>
      (key, '\n' :: indent ++ '"' :: key.toList ++ '"' :: ':' :: ' ' :: value.pretty indent) ::
        JsonValue.prettyFields indent fields

end

/-! ## Reading a value -/

/-- The value under a key of an object. -/
def JsonValue.get (key : String) : JsonValue → Option JsonValue
  | .object fields => fields.lookup key
  | _ => none

def JsonValue.asArray : JsonValue → Option (List JsonValue)
  | .array values => some values
  | _ => none

def JsonValue.asStr : JsonValue → Option String
  | .string value => some value
  | _ => none

/-- An integer that fits into 64 bits. -/
def JsonValue.asU64 : JsonValue → Option Nat
  | .number (.integer value) => if value < 2 ^ 64 then some value else none
  | _ => none

/-! ## The export -/

/-- The community of each member; of several communities the last one counts. -/
def communityMap (communities : List Community) : PartialMap NodeId UInt32 :=
  PartialMap.ofEntries (communities.flatMap fun c => c.members.map fun id => (id, c.id.get))

/-- The entry of a node. -/
def nodeEntry (community : Option UInt32) (node : Node) : JsonValue :=
  .object
    [("id", .number (.integer node.id.get.toNat)),
      ("label", .string (displaySafe (sanitizeLabel node.label))),
      ("source_file", .string (displaySafe node.sourceFile)),
      ("source_location", .string ("L" ++ toString node.sourceLocation.startLine.toNat)),
      ("community", match community with
        | some id => .number (.integer id.toNat)
        | none => .null)]

/-- The entry of an edge: weight 1.0 when trusted, 0.8 otherwise. -/
def linkEntry (edge : Edge) : JsonValue :=
  .object
    [("source", .number (.integer edge.source.get.toNat)),
      ("target", .number (.integer edge.target.get.toNat)),
      ("relation", .string (displaySafe (sanitizeLabel edge.relation))),
      ("confidence", .string edge.confidence.asStr),
      ("weight", .number (.tenths (if edge.confidence.isTrusted then 10 else 8)))]

/-- The envelope of a graph. -/
def nodeLinkEnvelope (g : Graph) : JsonValue :=
  .object
    [("directed", .bool true),
      ("multigraph", .bool false),
      ("graph", .object [("schema_version", .string schemaVersion)]),
      ("nodes", .array (g.nodes.map fun node =>
        nodeEntry (communityMap g.communities node.id) node)),
      ("links", .array (g.edges.map linkEntry))]

/-- The JSON library: printing on indented lines, and parsing. The order of the
fields of an object is immaterial to it. -/
structure SerdeJson where
  toStringPretty : JsonValue → Except String String
  fromStr : String → Except String JsonValue

namespace SerdeJson

variable (serde : SerdeJson)

/-- The value is printed, and its text parsed back. -/
def RoundTrips (value : JsonValue) : Prop :=
  ∃ text, serde.toStringPretty value = .ok text ∧ serde.fromStr text = .ok value

/-- The text of `graph.json`. -/
def toNodeLink (g : Graph) : Except GraphError String :=
  (serde.toStringPretty (nodeLinkEnvelope g)).mapError GraphError.schema

end SerdeJson

/-! ## The last community counts -/

theorem communityMap_concat (cs : List Community) (c : Community) (id : NodeId) :
    communityMap (cs ++ [c]) id = if id ∈ c.members then some c.id.get else communityMap cs id := by
  have hentries : communityMap (cs ++ [c]) =
      (communityMap cs).insertAll (c.members.map fun member => (member, c.id.get)) := by
    simp only [communityMap, PartialMap.ofEntries, PartialMap.insertAll, List.flatMap_append,
      List.flatMap_singleton, List.foldl_append]
  have hkeys : (c.members.map fun member => (member, c.id.get)).map Prod.fst = c.members := by
    simp only [List.map_map, Function.comp_def, List.map_id']
  rw [hentries]
  split
  next hmem =>
    apply PartialMap.insertAll_eq_of_forall
    · rwa [hkeys]
    · intro entry hentry
      obtain ⟨member, -, rfl⟩ := List.mem_map.mp hentry
      rfl
  next hnot => exact PartialMap.insertAll_of_notMem _ (hkeys.symm ▸ hnot)

theorem communityMap_eq_getLast? (cs : List Community) (id : NodeId) :
    communityMap cs id =
      ((cs.filter fun c => id ∈ c.members).getLast?).map fun c => c.id.get := by
  induction cs using List.reverseRecOn with
  | nil => rfl
  | append_singleton cs c ih =>
      rw [communityMap_concat, List.filter_append]
      by_cases hmem : id ∈ c.members
      · simp [hmem]
      · simp [hmem, ih]

/-- The manifest does not show in the export. -/
theorem nodeLinkEnvelope_manifest (g : Graph) (manifest : Manifest) :
    nodeLinkEnvelope { g with manifest := manifest } = nodeLinkEnvelope g := rfl

end HabitatGraph
