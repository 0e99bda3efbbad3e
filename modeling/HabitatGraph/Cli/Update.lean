import HabitatGraph.Analyze.ConfidenceGate
import HabitatGraph.Build.Merge
import HabitatGraph.Cli.InputDiff
import HabitatGraph.Cli.Prune
import HabitatGraph.Export.Json
import HabitatGraph.Foundation.Program

/-! # The update command

`update` rebuilds the artifacts of a source directory. It keeps the whole graph
in a sidecar and, from the second run on, extracts only the files whose hash
differs from the recorded one. The command is a program over the file system
operations it makes; parsers, hashing, clustering and text formats are
parameters.
-/

namespace HabitatGraph

/-! ## The calls to the file system -/

/-- The two passes over source files: for their symbols and for their hash. -/
inductive Pass
  | extract
  | hash
deriving DecidableEq, Repr

/-- The files written to the output directory: `graph.json`, `GRAPH_REPORT.md`,
`graph.html` and `.habitat-graph-state.json`. -/
inductive Artifact
  | graphJson
  | report
  | html
  | sidecar
deriving DecidableEq, Repr

/-- What the command asks of its environment. -/
inductive Operation (PathBuf : Type)
  | detect
  | sidecarExists
  | readSidecar
  | schedule (files : List PathBuf)
  | readFile (pass : Pass) (path : PathBuf)
  | createDirAll
  | write (artifact : Artifact) (text : String)

/-- The answers: a parallel loop is answered with the order of its tasks, and
what the operating system can refuse with an error message. -/
@[reducible] def Operation.Answer {PathBuf : Type} : Operation PathBuf → Type
  | .detect => Except String (List PathBuf)
  | .sidecarExists => Bool
  | .readSidecar => Except String String
  | .schedule files => { order : List PathBuf // order.Perm files }
  | .readFile _ _ => Except String Bytes
  | .createDirAll => Except String Unit
  | .write _ _ => Except String Unit

/-- A part of the command. -/
abbrev Update (PathBuf : Type) := Program (Operation PathBuf) Operation.Answer GraphError

/-! ## The command -/

/-- What the command is built with. Paths are those that decode without loss.
`extractor` is the registered one for the extension of a path. -/
structure Toolchain (PathBuf : Type) where
  toStringLossy : PathBuf ↪ String
  extractor : PathBuf → Option (Bytes → Except GraphError Extraction)
  contentId : String → UInt32
  hash : Bytes → String
  detectCommunities : Graph → List Community
  toJson : Graph → Except GraphError String
  fromJson : String → Except GraphError Graph
  toStringPretty : JsonValue → Except GraphError String
  renderReport : Graph → String
  renderHtml : Graph → Except GraphError String

namespace Toolchain

variable {PathBuf : Type} [DecidableEq PathBuf] (T : Toolchain PathBuf)

/-- The text of `graph.json`. -/
def toNodeLink (g : Graph) : Except GraphError String := T.toStringPretty (nodeLinkEnvelope g)

/-- The manifest of a list of inputs, by this version of the tool. -/
def manifest (inputs : List (PathBuf × Bytes)) : Manifest :=
  buildManifest T.toStringLossy T.hash inputs cargoPkgVersion

/-- The graph with its communities detected again, in canonical order. -/
def clustered (g : Graph) : Graph :=
  { g with communities := T.detectCommunities (trustedSubgraph g) }.sorted

/-- All source files, in ascending order. -/
def detect : Update PathBuf (List PathBuf) :=
  .request .detect fun (answer : Except String (List PathBuf)) => answer.mapError GraphError.io

/-- The bytes of a file, of any size. -/
def readLocal (pass : Pass) (path : PathBuf) : Update PathBuf Bytes :=
  .request (.readFile pass path) fun (answer : Except String Bytes) =>
    answer.mapError fun e => GraphError.io (T.toStringLossy path ++ ": " ++ e)

/-- The task of one file: read it and extract it, or skip it when no extractor
takes it. -/
def extractFile (path : PathBuf) : Update PathBuf (Option (PathBuf × Extraction)) :=
  match T.extractor path with
  | none => pure none
  | some extract => do
      let bytes ← T.readLocal .extract path
      let extraction ← Program.ofExcept (extract bytes)
      pure (some (path, extraction))

/-- Extract the files in parallel; the results are in the order of the files. -/
def extractFiles (files : List PathBuf) : Update PathBuf (List Extraction) := do
  let order ← Program.call (.schedule files) Program.pure
  let extracted ← Program.mapAll T.extractFile order.val
  pure (files.filterMap (PartialMap.ofEntries extracted.reduceOption))

/-- Read every file for its hash. -/
def readInputs (files : List PathBuf) : Update PathBuf (List (PathBuf × Bytes)) :=
  Program.mapAll
    (fun path => do
      let bytes ← T.readLocal .hash path
      pure (path, bytes))
    files

/-- The graph of a sidecar, unless it is corrupted or of another schema. -/
def parseSidecar (text : String) : Option Graph :=
  match T.fromJson text with
  -- both failures are warnings only and force a full build
  | .ok graph => if graph.schema = schemaVersion then some graph else none
  | .error _ => none

/-- The graph of the prior build, if it left a usable sidecar. -/
def tryLoadPrior : Update PathBuf (Option Graph) := do
  let found ← Program.call .sidecarExists Program.pure
  match found with
  | false => pure none
  | true => do
      let text ← Program.request .readSidecar fun (answer : Except String String) =>
        answer.mapError fun e => GraphError.io ("sidecar read: " ++ e)
      pure (T.parseSidecar text)

/-- Write one file of the output directory. -/
def write (artifact : Artifact) (text : String) : Update PathBuf Unit :=
  .request (.write artifact text) fun (answer : Except String Unit) => answer.mapError GraphError.io

def createDirAll : Update PathBuf Unit :=
  .request .createDirAll fun (answer : Except String Unit) => answer.mapError GraphError.io

/-- Write the artifacts one after the other, the sidecar last. -/
def writeArtifacts (graph : Graph) (currentManifest : Manifest) : Update PathBuf Unit := do
  createDirAll
  let json ← Program.ofExcept (T.toNodeLink graph)
  write .graphJson json
  write .report (T.renderReport graph)
  let html ← Program.ofExcept (T.renderHtml graph)
  write .html html
  let sidecarJson ← Program.ofExcept (T.toJson { graph with manifest := currentManifest })
  write .sidecar sidecarJson

/-- The summary line of a build. -/
def buildSummary (changed n : Nat) : String :=
  "update: " ++ toString changed ++ " changed, " ++ toString n ++
    " nodes (analyze re-run globally)"

/-- The summary line when there was nothing to do. -/
def noopSummary (n : Nat) : String :=
  "update: 0 changed, " ++ toString n ++ " nodes (no-op; analyze not re-run)"

/-- Extract every file, and read every file again for the manifest. -/
def doFullBuild (files : List PathBuf) : Update PathBuf String := do
  let extractions ← T.extractFiles files
  let assembled ← Program.ofOption (assemble T.contentId extractions)
  -- the manifest hashes what this second pass reads, not what was extracted
  let graph := T.clustered assembled
  let inputs ← T.readInputs files
  T.writeArtifacts graph (T.manifest inputs)
  pure (buildSummary files.length graph.nodes.length)

/-- Bring the graph of the prior build up to date. -/
def updatePrior (files : List PathBuf) (priorGraph : Graph) : Update PathBuf String := do
  let currentInputs ← T.readInputs files
  let currentManifest := T.manifest currentInputs
  let diff := diffInputs priorGraph.manifest currentManifest
  if diff.IsEmpty then
    -- the artifacts are not looked at
    pure (noopSummary priorGraph.nodes.length)
  else do
    let newExtractions ←
      T.extractFiles (files.filter fun path => T.toStringLossy path ∈ diff.toExtractSet)
    let newPartial ← Program.ofOption (assemble T.contentId newExtractions)
    let prunedPrior := pruneGraph priorGraph diff.staleSet
    let merged ← Program.ofOption (merge T.contentId newPartial prunedPrior)
    let combined := T.clustered merged
    T.writeArtifacts combined currentManifest
    pure (buildSummary diff.needReextract combined.nodes.length)

/-- One run of the command, up to the summary line it prints. -/
def runInner : Update PathBuf String := do
  let files ← detect
  let prior ← T.tryLoadPrior
  match prior with
  | none => T.doFullBuild files
  | some priorGraph => T.updatePrior files priorGraph

end Toolchain

end HabitatGraph
