import HabitatGraph.Core.StrDebug
import HabitatGraph.Core.Text
import HabitatGraph.Export.Json
import HabitatGraph.Extract.Paths
import HabitatGraph.Foundation.Files

/-! # Registering the MCP server

Two commands put an entry into a JSON config that other programs own. One finds the
config by itself and renames a sidecar over it once the sidecar is written, the
other writes the config in place. Whatever is in the config besides the entry stays,
and the first command keeps it even when it is cut in the middle.
-/

namespace HabitatGraph

open Program Files Utf8Lines

/-! ## Paths -/

/-- A path that ends in a file name. -/
structure ConfigPath where
  dir : String
  name : String
deriving DecidableEq, Repr

/-- A name below a directory. -/
def joinDir (dir name : String) : String :=
  if dir.isEmpty || dir.toList.getLast? == some '/' then dir ++ name else dir ++ "/" ++ name

namespace ConfigPath

def display (path : ConfigPath) : String := joinDir path.dir path.name

/-- The path with the extension `bak` in place of its own. -/
def bak (path : ConfigPath) : ConfigPath where
  dir := path.dir
  name := String.ofList ((fileStem path.name.toList).getD path.name.toList ++ ".bak".toList)

/-- The path is not the sidecar of any. -/
def IsTarget (path : ConfigPath) : Prop := ∀ other : ConfigPath, other.bak ≠ path

theorem isTarget_of_not_suffix {path : ConfigPath}
    (h : ¬ ".bak".toList <:+ path.name.toList) : path.IsTarget := by
  rintro other rfl
  exact h ⟨_, (String.toList_ofList).symm⟩

end ConfigPath

/-- What the commands take from their surroundings. -/
structure InstallEnv where
  claudeConfigDir : Option String
  home : Option String
  currentExe : Option String
deriving DecidableEq, Repr

/-- The home directory, unless it is unset or empty. -/
def homeDir (env : InstallEnv) : Option String := env.home.filter fun h => !h.isEmpty

/-- The places of a config, by priority. -/
def candidatePaths (env : InstallEnv) : List ConfigPath :=
  ((env.claudeConfigDir.filter fun dir => !dir.isEmpty).map fun dir => ⟨dir, "mcp.json"⟩).toList ++
    match homeDir env with
    | some home => [⟨joinDir (joinDir home ".config") "claude", "mcp.json"⟩,
        ⟨joinDir home ".claude", "mcp.json"⟩]
    | none => []

def binaryPath (env : InstallEnv) : String := env.currentExe.getD "habitat-graph"

/-! ## The config as a value -/

/-- Insert into an object, in place of a field of the same name. The fields of an object are
in the order of their names. -/
def putField (key : String) (value : JsonValue) :
    List (String × JsonValue) → List (String × JsonValue)
  | [] => [(key, value)]
  | (k, v) :: fields =>
      if k = key then (k, value) :: fields
      else if key < k then (key, value) :: (k, v) :: fields
      else (k, v) :: putField key value fields

/-- The fields of an object; any other value has none. -/
def fieldsOf : JsonValue → List (String × JsonValue)
  | .object fields => fields
  | _ => []

/-- Put `entry` under `mcpServers.<name>`. What is no object is replaced by one. -/
def mergeEntry (existing : JsonValue) (name : String) (entry : JsonValue) : JsonValue :=
  let root := fieldsOf existing
  let servers := fieldsOf ((root.lookup "mcpServers").getD (.object []))
  .object (putField "mcpServers" (.object (putField name entry servers)) root)

/-- How the server is started. -/
def buildEntry (binary graph : String) : JsonValue :=
  .object [("args", .array [.string "mcp", .string "--graph", .string graph]),
    ("command", .string binary)]

/-- The server registered under a name. -/
def serverOf (config : JsonValue) (name : String) : Option JsonValue :=
  (config.get "mcpServers").bind (JsonValue.get name)

/-! ## The commands -/

abbrev InstallProgram := Program (Op ConfigPath) Op.Answer GraphError

/-- The text of a file; it has to be UTF-8. -/
def readText (ans : Except String (List UInt8)) : Except String String :=
  ans.bind fun bytes =>
    match decode? bytes with
    | some text => .ok text
    | none => .error "stream did not contain valid UTF-8"

theorem readText_eq_ok_iff {ans : Except String (List UInt8)} {text : String} :
    readText ans = .ok text ↔ ans = .ok (encode text.toList) := by
  cases ans with
  | error e => simp [readText, Except.bind]
  | ok bytes =>
      have hdecode : readText (.ok bytes) = .ok text ↔ decode? bytes = some text := by
        simp only [readText, Except.bind]
        cases decode? bytes <;> simp
      rw [hdecode, decode?_eq_some_iff, Except.ok.injEq]

/-- A request for a change, its error told with what was attempted. -/
def change {Path : Type} (op : Op Path) (answer : op.Answer → Except String Unit) (what : String) :
    Program (Op Path) Op.Answer GraphError Unit :=
  request op fun ans => (answer ans).mapError fun e => .io (what ++ ": " ++ e)

section Commands

variable (serde : SerdeJson) (tables : UnicodeTables)

/-- The first candidate that exists, or the fallback. -/
def firstFound (fallback : ConfigPath) : List ConfigPath → InstallProgram ConfigPath
  | [] => .pure fallback
  | c :: candidates => .call (.found c) fun (found : Bool) =>
      if found then .pure c else firstFound fallback candidates

def resolveConfigPath (env : InstallEnv) : Option ConfigPath → InstallProgram ConfigPath
  | some path => .pure path
  | none =>
      match candidatePaths env with
      | [] => .fail (.io
          "cannot determine Claude config path: $HOME is unset and $CLAUDE_CONFIG_DIR is unset")
      | first :: rest => firstFound first (first :: rest)

/-- The config as a value; a text of blanks is an empty one. -/
def parseConfig (path : ConfigPath) (text : String) : Except GraphError JsonValue :=
  if (trim text).isEmpty then .ok (.object [])
  else (serde.fromStr text).mapError fun e => .parse path.display e

/-- Read the config; an absent one is empty. -/
def readConfig (path : ConfigPath) : InstallProgram JsonValue :=
  .call (.found path) fun (found : Bool) =>
    if !found then .pure (.object [])
    else request (.read path) fun ans =>
      ((readText ans).mapError fun e => GraphError.io ("read " ++ path.display ++ ": " ++ e)).bind
        (parseConfig serde path)

def toPretty (value : JsonValue) : InstallProgram String :=
  ofExcept ((serde.toStringPretty value).mapError .schema)

/-- Create the directory of a path that has one. -/
def ensureParent (path : ConfigPath) : InstallProgram Unit :=
  if path.dir.isEmpty then .pure ()
  else change (.createDirAll path.dir) id ("create dirs " ++ path.dir)

/-- Write the sidecar, rename it over the config and read the config back. -/
def atomicWriteAndVerify (path : ConfigPath) (config : JsonValue) (name : String) :
    InstallProgram Unit := do
  ensureParent path
  let text ← toPretty serde config
  change (.write path.bak (encode text.toList)) id ("write bak " ++ path.bak.display)
  change (.rename path.bak path) id ("rename " ++ path.bak.display ++ "->" ++ path.display)
  let readback ← readConfig serde path
  if (serverOf readback name).isSome then .pure ()
  else .fail (.guard ("readback failed: server " ++ strDebug tables name ++ " not found in " ++
    path.display))

/-- What a registration reports. -/
def registeredMessage (name : String) (path : ConfigPath) : String :=
  "registered MCP server " ++ strDebug tables name ++ " in " ++ path.display

namespace Install

/-- The name of the server in the config. -/
def mcpServerName : String := "habitat-graph"

/-- `install`: find the config, merge, and write it unless the run is dry. -/
def runInner (env : InstallEnv) (graph : String) (configPath : Option ConfigPath)
    (dryRun : Bool) : InstallProgram String := do
  let resolved ← resolveConfigPath env configPath
  let existing ← readConfig serde resolved
  let merged := mergeEntry existing mcpServerName (buildEntry (binaryPath env) graph)
  if dryRun then
    let preview ← toPretty serde merged
    .pure ("[dry-run] would write to " ++ resolved.display ++ ":\n" ++ preview)
  else
    atomicWriteAndVerify serde tables resolved merged mcpServerName
    .pure (registeredMessage tables mcpServerName resolved)

end Install

namespace InstallMcp

/-- `install-mcp`: print the block to paste, or write the merged config in place. -/
def runInner (env : InstallEnv) (graph name : String) (write : Option ConfigPath) :
    InstallProgram String := do
  let entry := buildEntry (binaryPath env) graph
  match write with
  | none =>
      let block ← toPretty serde (.object [("mcpServers", .object [(name, entry)])])
      .pure (block ++ "\n# add the above to your Claude Code MCP config (e.g. .mcp.json)")
  | some path =>
      let existing ← readConfig serde path
      let text ← toPretty serde (mergeEntry existing name entry)
      change (.write path (encode text.toList)) id ("write " ++ path.display)
      .pure (registeredMessage tables name path)

end InstallMcp

/-- Either command. -/
inductive InstallCommand
  | install (env : InstallEnv) (graph : String) (configPath : Option ConfigPath) (dryRun : Bool)
  | installMcp (env : InstallEnv) (graph name : String) (write : Option ConfigPath)
deriving DecidableEq, Repr

def InstallCommand.program : InstallCommand → InstallProgram String
  | .install env graph configPath dryRun =>
      Install.runInner serde tables env graph configPath dryRun
  | .installMcp env graph name write => InstallMcp.runInner serde tables env graph name write

end Commands

namespace InstallCommand

/-- The name that a command registers. -/
def name : InstallCommand → String
  | .install _ _ _ _ => Install.mcpServerName
  | .installMcp _ _ name _ => name

/-- The entry that a command registers. -/
def entry : InstallCommand → JsonValue
  | .install env graph _ _ => buildEntry (binaryPath env) graph
  | .installMcp env graph _ _ => buildEntry (binaryPath env) graph

/-- The command is to change a config, not to show one. -/
def registers : InstallCommand → Bool
  | .install _ _ _ dryRun => !dryRun
  | .installMcp _ _ _ write => write.isSome

/-- The configs that a command may read and write. -/
def configs : InstallCommand → List ConfigPath
  | .install env _ none _ => candidatePaths env
  | .install _ _ (some path) _ => [path]
  | .installMcp _ _ _ write => write.toList

/-- The command writes the file itself, without a sidecar. -/
def WritesInPlace (path : ConfigPath) : InstallCommand → Prop
  | .install _ _ _ _ => False
  | .installMcp _ _ _ write => write = some path

end InstallCommand

end HabitatGraph
