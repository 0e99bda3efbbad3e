import HabitatGraph.Build.MergeAlgebra
import HabitatGraph.Cli.UpdateTraces

/-! # Updates in a file system

The environment of the update command is a source tree and an output directory.
Any call can be refused, a write either happens or leaves its file alone, and
the tree may be edited before every call. A run in a tree that nobody edits
meanwhile amounts to one of three outcomes, or to a failure that leaves the
sidecar alone.
-/

namespace HabitatGraph

open Program KeyedList

/-- The source files in ascending order, and what they hold. -/
@[ext] structure SourceTree (PathBuf : Type) [LinearOrder PathBuf] where
  files : List PathBuf
  sorted : files.Pairwise (fun p q => p < q)
  content : PathBuf → Bytes

/-- A source tree and the files of an output directory. -/
@[ext] structure World (PathBuf : Type) [LinearOrder PathBuf] where
  tree : SourceTree PathBuf
  disk : PartialMap Artifact String

variable {PathBuf : Type} [LinearOrder PathBuf]

theorem SourceTree.nodup_files (tree : SourceTree PathBuf) : tree.files.Nodup :=
  tree.sorted.imp ne_of_lt

/-- What every file holds. -/
def SourceTree.inputs (tree : SourceTree PathBuf) : List (PathBuf × Bytes) :=
  tree.files.map fun path => (path, tree.content path)

theorem SourceTree.nodup_inputs (tree : SourceTree PathBuf) :
    (tree.inputs.map Prod.fst).Nodup := by
  rw [SourceTree.inputs, List.map_map]
  exact tree.nodup_files.map fun _ _ h => h

/-! ## Steps of the environment -/

/-- The answers that a world can give: an error, or what the world holds. -/
def World.Allows (w : World PathBuf) : UpdateEvent PathBuf → Prop
  | ⟨.detect, ans⟩ => ∀ files, ans = .ok files → files = w.tree.files
  | ⟨.sidecarExists, found⟩ => found = (w.disk .sidecar).isSome
  | ⟨.readSidecar, ans⟩ => ∀ text, ans = .ok text → w.disk .sidecar = some text
  | ⟨.readFile _ path, ans⟩ => ∀ bytes, ans = .ok bytes → bytes = w.tree.content path
  | _ => True

/-- The tree is edited as `edits` allows, then the call is answered; a file that
was written holds the text it was written with. -/
structure UpdateStep (edits : SourceTree PathBuf → SourceTree PathBuf → Prop) (w : World PathBuf)
    (event : UpdateEvent PathBuf) (w' : World PathBuf) : Prop where
  edited : edits w.tree w'.tree
  allowed : World.Allows { w with tree := w'.tree } event
  disk_eq : w'.disk = w.disk.insertAll (written event).toList

variable {edits : SourceTree PathBuf → SourceTree PathBuf → Prop} {w w' : World PathBuf}
  {trace : List (UpdateEvent PathBuf)}

/-- The directory holds the last version of every file written. -/
theorem disk_of_steps (h : Steps (UpdateStep edits) w trace w') :
    w'.disk = w.disk.insertAll (trace.filterMap written) := by
  induction h with
  | nil w => rfl
  | @cons w₀ w₁ w₂ event rest head tail ih =>
      rw [ih, head.disk_eq, List.filterMap_cons]
      cases written event <;> rfl

/-- Edits that keep the set of files keep it for a whole run. -/
theorem files_of_steps (hedits : ∀ tree tree', edits tree tree' → tree'.files = tree.files)
    (h : Steps (UpdateStep edits) w trace w') : w'.tree.files = w.tree.files := by
  apply h.preserves fun v => v.tree.files = w.tree.files
  · intro v event _ v' hstep hv
    exact (hedits _ _ hstep.edited).trans hv
  · rfl

/-! ## Successful runs -/

section Load

variable (hedits : ∀ tree tree', edits tree tree' → tree'.files = tree.files)
include hedits

theorem files_of_detect {files : List PathBuf} (h : UpdateStep edits w (detectEvent files) w') :
    files = w.tree.files := (h.allowed files rfl).trans (hedits _ _ h.edited)

/-- Without a sidecar the run knows the files only. -/
theorem load_none {files : List PathBuf}
    (h : Steps (UpdateStep edits) w [detectEvent files, sidecarExistsEvent false] w') :
    files = w.tree.files ∧ w.disk .sidecar = none := by
  obtain ⟨w₁, hdetect, h₁⟩ := steps_cons_iff.mp h
  obtain ⟨w₂, hexists, -⟩ := steps_cons_iff.mp h₁
  have hfound : false = (w₁.disk .sidecar).isSome := hexists.allowed
  rw [hdetect.disk_eq] at hfound
  have hnone : w.disk .sidecar = none := by
    simpa [written, detectEvent] using hfound
  exact ⟨files_of_detect hedits hdetect, hnone⟩

/-- With a sidecar it knows its text as well. -/
theorem load_some {files : List PathBuf} {text : String}
    (h : Steps (UpdateStep edits) w
      [detectEvent files, sidecarExistsEvent true, readSidecarEvent text] w') :
    files = w.tree.files ∧ w.disk .sidecar = some text := by
  obtain ⟨w₁, hdetect, h₁⟩ := steps_cons_iff.mp h
  obtain ⟨w₂, hexists, h₂⟩ := steps_cons_iff.mp h₁
  obtain ⟨w₃, hread, -⟩ := steps_cons_iff.mp h₂
  have htext : w₂.disk .sidecar = some text := hread.allowed text rfl
  rw [hexists.disk_eq, hdetect.disk_eq] at htext
  exact ⟨files_of_detect hedits hdetect, htext⟩

end Load

/-- The graph of the prior build that an output directory holds. -/
def Toolchain.prior (T : Toolchain PathBuf) (disk : PartialMap Artifact String) : Option Graph :=
  (disk .sidecar).bind T.parseSidecar

/-- A successful run first finds the files and the prior graph, and goes on from
there. -/
theorem cases_of_run (hedits : ∀ tree tree', edits tree tree' → tree'.files = tree.files)
    {T : Toolchain PathBuf} {line : String}
    (h : Run (UpdateStep edits) T.runInner w trace (.ok line) w') :
    ∃ load rest, trace = load ++ rest ∧ load.filterMap written = [] ∧
      (∀ pass, load.filterMap (readIn pass) = []) ∧
        (T.prior w.disk = none ∧ T.FullBuild w.tree.files rest ∨
          ∃ priorGraph, T.prior w.disk = some priorGraph ∧
            (T.Noop w.tree.files priorGraph rest ∨
              T.Incremental w.tree.files priorGraph rest)) := by
  obtain ⟨files, rest, hcases⟩ := Toolchain.traces_runInner_ok h.traces
  have hsteps := h.steps
  rcases hcases with ⟨rfl, hfull⟩ | ⟨text, rfl, hcases⟩
  · obtain ⟨w₁, hload, -⟩ := steps_append_iff.mp hsteps
    obtain ⟨rfl, hnone⟩ := load_none hedits hload
    refine ⟨_, rest, rfl, rfl, fun _ => rfl, Or.inl ⟨?_, hfull⟩⟩
    rw [Toolchain.prior, hnone, Option.bind_none]
  · obtain ⟨w₁, hload, -⟩ := steps_append_iff.mp hsteps
    obtain ⟨rfl, htext⟩ := load_some hedits hload
    have hprior : T.prior w.disk = T.parseSidecar text := by
      rw [Toolchain.prior, htext, Option.bind_some]
    refine ⟨_, rest, rfl, rfl, fun _ => rfl, ?_⟩
    rw [hprior]
    exact hcases

/-! ## Runs in a tree at rest -/

/-- The tree stays as it is, so every read yields what it holds. -/
theorem reads_of_steps (h : Steps (UpdateStep Eq) w trace w') :
    w'.tree = w.tree ∧
      ∀ pass read, readEvent pass read ∈ trace → read.2 = w.tree.content read.1 := by
  induction h with
  | nil w => exact ⟨rfl, nofun⟩
  | @cons w₀ w₁ w₂ event rest head tail ih =>
      obtain ⟨htree, hreads⟩ := ih
      refine ⟨htree.trans head.edited.symm, fun pass read hmem => ?_⟩
      rcases List.mem_cons.mp hmem with rfl | hmem
      · exact (head.allowed read.2 rfl).trans (by rw [head.edited])
      · exact (hreads pass read hmem).trans (by rw [head.edited])

namespace Toolchain

variable {T : Toolchain PathBuf}

/-- What a tree holds about a file: its extraction, when an extractor takes it. -/
def extraction (T : Toolchain PathBuf) (tree : SourceTree PathBuf) (path : PathBuf) :
    Option Extraction :=
  (T.extractor path).bind fun extract => (extract (tree.content path)).toOption

/-- No extractor rejects the file. -/
def Parses (T : Toolchain PathBuf) (tree : SourceTree PathBuf) (path : PathBuf) : Prop :=
  ∀ extract, T.extractor path = some extract → ∃ x, extract (tree.content path) = .ok x

/-- The manifest of a tree. -/
def manifestOf (T : Toolchain PathBuf) (tree : SourceTree PathBuf) : Manifest :=
  T.manifest tree.inputs

omit [LinearOrder PathBuf] in
theorem nodup_manifest_paths {inputs : List (PathBuf × Bytes)}
    (hnodup : (inputs.map Prod.fst).Nodup) :
    ((T.manifest inputs).inputs.map InputRecord.path).Nodup := nodup_buildManifest_paths hnodup

omit [LinearOrder PathBuf] in
/-- A manifest records the hash of what was read of each file. -/
theorem hashes_manifest_eq_some_iff {inputs : List (PathBuf × Bytes)}
    (hnodup : (inputs.map Prod.fst).Nodup) {path : PathBuf} {h : String} :
    (T.manifest inputs).hashes (T.toStringLossy path) = some h ↔
      ∃ bytes, (path, bytes) ∈ inputs ∧ T.hash bytes = h := by
  rw [Manifest.hashes_eq_some_iff (nodup_manifest_paths hnodup), manifest,
    mem_buildManifest_inputs]
  constructor
  · intro ⟨⟨path', bytes⟩, hinput, heq⟩
    obtain ⟨hname, rfl⟩ := InputRecord.mk.inj heq
    obtain rfl := T.toStringLossy.injective hname
    exact ⟨bytes, hinput, rfl⟩
  · rintro ⟨bytes, hinput, rfl⟩
    exact ⟨(path, bytes), hinput, rfl⟩

theorem nodup_manifestOf_paths (tree : SourceTree PathBuf) :
    ((T.manifestOf tree).inputs.map InputRecord.path).Nodup :=
  nodup_manifest_paths tree.nodup_inputs

theorem hashes_manifestOf_eq_some_iff {tree : SourceTree PathBuf} {path : PathBuf} {h : String} :
    (T.manifestOf tree).hashes (T.toStringLossy path) = some h ↔
      path ∈ tree.files ∧ T.hash (tree.content path) = h := by
  rw [manifestOf, hashes_manifest_eq_some_iff tree.nodup_inputs]
  simp [SourceTree.inputs, List.mem_map]

/-- Trees that compare as equal have the same manifest. -/
theorem manifestOf_eq_of_isEmpty {tree tree' : SourceTree PathBuf}
    (h : (diffInputs (T.manifestOf tree) (T.manifestOf tree')).IsEmpty) :
    T.manifestOf tree = T.manifestOf tree' := by
  have hinputs : (T.manifestOf tree).inputs = (T.manifestOf tree').inputs :=
    Manifest.inputs_eq_of_hashes_eq (nodup_manifestOf_paths tree) (nodup_manifestOf_paths tree')
      (StableSort.pairwise_sortByKey _) (StableSort.pairwise_sortByKey _)
      fun p => (isEmpty_diffInputs_iff.mp h p).symm
  exact congrArg (fun inputs => (⟨inputs, cargoPkgVersion, none⟩ : Manifest)) hinputs

/-- What changed in a tree since a manifest was made. -/
def diffOf (T : Toolchain PathBuf) (priorGraph : Graph) (tree : SourceTree PathBuf) : InputDiff :=
  diffInputs priorGraph.manifest (T.manifestOf tree)

/-- The files that an incremental build extracts again. -/
def freshFiles (T : Toolchain PathBuf) (priorGraph : Graph) (tree : SourceTree PathBuf) :
    List PathBuf :=
  tree.files.filter fun path => T.toStringLossy path ∈ (T.diffOf priorGraph tree).toExtractSet

/-- The directory after the artifacts of `graph` were written. -/
def Published (T : Toolchain PathBuf) (graph : Graph) (currentManifest : Manifest)
    (disk disk' : PartialMap Artifact String) : Prop :=
  ∃ json html sidecarJson, T.toNodeLink graph = .ok json ∧ T.renderHtml graph = .ok html ∧
    T.toJson { graph with manifest := currentManifest } = .ok sidecarJson ∧
      disk' = disk.insertAll [(.graphJson, json), (.report, T.renderReport graph), (.html, html),
        (.sidecar, sidecarJson)]

/-- A graph reads back from its JSON. -/
def RoundTrips (T : Toolchain PathBuf) : Prop :=
  ∀ graph text, T.toJson graph = .ok text → T.fromJson text = .ok graph

omit [LinearOrder PathBuf] in
/-- The next run goes on from the graph just published. -/
theorem prior_of_published (hroundTrips : T.RoundTrips) {graph : Graph}
    {currentManifest : Manifest} {disk disk' : PartialMap Artifact String}
    (h : T.Published graph currentManifest disk disk') (hschema : graph.schema = schemaVersion) :
    T.prior disk' = some { graph with manifest := currentManifest } := by
  obtain ⟨json, html, sidecarJson, -, -, hsidecar, rfl⟩ := h
  change T.parseSidecar sidecarJson = _
  rw [parseSidecar, hroundTrips _ _ hsidecar]
  exact if_pos hschema

/-- The outcome of a successful update of `disk` from a tree at rest. -/
inductive Outcome (T : Toolchain PathBuf) (tree : SourceTree PathBuf)
    (disk : PartialMap Artifact String) : PartialMap Artifact String → Prop
  | full {assembled : Graph} {disk' : PartialMap Artifact String} (hprior : T.prior disk = none)
      (hparses : ∀ path ∈ tree.files, T.Parses tree path)
      (hassemble : assemble T.contentId (tree.files.filterMap (T.extraction tree)) = some assembled)
      (hpublished : T.Published (T.clustered assembled) (T.manifestOf tree) disk disk') :
      Outcome T tree disk disk'
  | noop {priorGraph : Graph} (hprior : T.prior disk = some priorGraph)
      (hempty : (T.diffOf priorGraph tree).IsEmpty) : Outcome T tree disk disk
  | incremental {priorGraph newPartial merged : Graph} {disk' : PartialMap Artifact String}
      (hprior : T.prior disk = some priorGraph) (hempty : ¬ (T.diffOf priorGraph tree).IsEmpty)
      (hparses : ∀ path ∈ T.freshFiles priorGraph tree, T.Parses tree path)
      (hassemble : assemble T.contentId
        ((T.freshFiles priorGraph tree).filterMap (T.extraction tree)) = some newPartial)
      (hmerge : merge T.contentId newPartial
        (pruneGraph priorGraph (T.diffOf priorGraph tree).staleSet) = some merged)
      (hpublished : T.Published (T.clustered merged) (T.manifestOf tree) disk disk') :
      Outcome T tree disk disk'

theorem inputs_eq_of_reads {tree : SourceTree PathBuf} {inputs : List (PathBuf × Bytes)}
    (hfiles : inputs.map Prod.fst = tree.files)
    (hreads : ∀ input ∈ inputs, input.2 = tree.content input.1) : inputs = tree.inputs := by
  have hself : inputs = inputs.map fun input => (input.1, tree.content input.1) := by
    conv_lhs => rw [← List.map_id inputs]
    apply List.map_congr_left
    intro input hinput
    exact Prod.ext rfl (hreads input hinput)
  rw [hself, SourceTree.inputs, ← hfiles, List.map_map]
  rfl

/-- An extraction pass over a tree at rest extracts what the tree holds. -/
theorem extractions_eq_of_reads {tree : SourceTree PathBuf} {files : List PathBuf}
    {extractions : List Extraction} (h : T.Extracts files extractions trace)
    (hreads : ∀ pass read, readEvent pass read ∈ trace → read.2 = tree.content read.1) :
    extractions = files.filterMap (T.extraction tree) ∧ ∀ path ∈ files, T.Parses tree path := by
  obtain ⟨order, reads, extracted, rfl, hpaths, hkeys, hextracted, rfl⟩ := h
  have hresult : ∀ result ∈ extracted,
      ∃ extract, T.extractor result.1 = some extract ∧
        extract (tree.content result.1) = .ok result.2 := by
    intro result hmem
    obtain ⟨bytes, extract, hread, hextract, hok⟩ := hextracted result hmem
    have hbytes : bytes = tree.content result.1 :=
      hreads .extract (result.1, bytes) (List.mem_cons_of_mem _ (List.mem_map_of_mem hread))
    exact ⟨extract, hextract, hbytes ▸ hok⟩
  have hmem : ∀ path ∈ files, path ∈ extracted.map Prod.fst ↔ (T.extractor path).isSome := by
    intro path hpath
    rw [hkeys, hpaths, List.mem_filter, order.property.mem_iff]
    exact and_iff_right hpath
  constructor
  · apply List.filterMap_congr
    intro path hpath
    cases hentry : PartialMap.ofEntries extracted path with
    | some x =>
        obtain ⟨extract, hextract, hok⟩ :=
          hresult (path, x) (PartialMap.mem_of_ofEntries_eq_some hentry)
        simp [extraction, hextract, hok, Except.toOption]
    | none =>
        have hnone : ¬ (T.extractor path).isSome :=
          mt (hmem path hpath).mpr (PartialMap.ofEntries_eq_none_iff.mp hentry)
        simp [extraction, Option.not_isSome_iff_eq_none.mp hnone]
  · intro path hpath extract hextract
    obtain ⟨⟨path', x⟩, hresult', rfl⟩ :=
      List.mem_map.mp ((hmem path hpath).mpr (by rw [hextract]; rfl))
    obtain ⟨extract', hextract', hok⟩ := hresult (path', x) hresult'
    obtain rfl := Option.some.inj (hextract.symm.trans hextract')
    exact ⟨x, hok⟩

omit [LinearOrder PathBuf] in
/-- Writing the artifacts publishes the graph. -/
theorem published_of_writes {graph : Graph} {currentManifest : Manifest}
    (h : T.Writes graph currentManifest trace) (disk : PartialMap Artifact String) :
    T.Published graph currentManifest disk (disk.insertAll (trace.filterMap written)) := by
  obtain ⟨json, html, sidecarJson, hjson, hhtml, hsidecar, rfl⟩ := h
  exact ⟨json, html, sidecarJson, hjson, hhtml, hsidecar, rfl⟩

/-- A successful update of a tree at rest has one of the three outcomes. -/
theorem outcome_of_run {line : String}
    (h : Run (UpdateStep Eq) T.runInner w trace (.ok line) w') :
    T.Outcome w.tree w.disk w'.disk := by
  obtain ⟨-, hreads⟩ := reads_of_steps h.steps
  obtain ⟨load, rest, rfl, hload, -, hcases⟩ := cases_of_run (by rintro _ _ rfl; rfl) h
  have hdisk : w'.disk = w.disk.insertAll (rest.filterMap written) := by
    rw [disk_of_steps h.steps, List.filterMap_append, hload, List.nil_append]
  have hinputs : ∀ inputs : List (PathBuf × Bytes), inputs.map Prod.fst = w.tree.files →
      (∀ input ∈ inputs, readEvent .hash input ∈ rest) → inputs = w.tree.inputs := by
    intro inputs hfiles hmem
    apply inputs_eq_of_reads hfiles
    intro input hinput
    exact hreads .hash input (List.mem_append_right load (hmem input hinput))
  rcases hcases with ⟨hprior, hfull⟩ | ⟨priorGraph, hprior, hnoop | hincremental⟩
  · -- nobody edits the tree, so the two passes over the files read the same bytes
    obtain ⟨extractions, assembled, inputs, extracting, writing, rfl, hextracts, hassemble, hfiles,
      hwrites⟩ := hfull
    obtain rfl := hinputs inputs hfiles fun input hinput => by
      simp [List.mem_map_of_mem hinput]
    obtain ⟨rfl, hparses⟩ := extractions_eq_of_reads hextracts fun pass read hmem =>
      hreads pass read (by simp [hmem])
    refine Outcome.full hprior hparses hassemble ?_
    rw [hdisk, (events_of_build hextracts hwrites (Or.inl rfl)).1]
    exact published_of_writes hwrites w.disk
  · obtain ⟨inputs, rfl, hfiles, hempty⟩ := hnoop
    obtain rfl := hinputs inputs hfiles fun input hinput => List.mem_map_of_mem hinput
    rw [hdisk, filterMap_written_reads]
    exact Outcome.noop hprior hempty
  · obtain ⟨inputs, extractions, newPartial, merged, extracting, writing, rfl, hfiles, hempty,
      hextracts, hassemble, hmerge, hwrites⟩ := hincremental
    obtain rfl := hinputs inputs hfiles fun input hinput => by
      simp [List.mem_map_of_mem hinput]
    obtain ⟨rfl, hparses⟩ := extractions_eq_of_reads hextracts fun pass read hmem =>
      hreads pass read (by simp [hmem])
    refine Outcome.incremental hprior hempty hparses hassemble hmerge ?_
    rw [hdisk, (events_of_build hextracts hwrites (Or.inr rfl)).1]
    exact published_of_writes hwrites w.disk

/-! ## Failing runs -/

/-- A failed update leaves the sidecar alone. -/
theorem sidecar_of_failed_run {e : GraphError}
    (h : Run (UpdateStep edits) T.runInner w trace (.error e) w') :
    w'.disk .sidecar = w.disk .sidecar := by
  rw [disk_of_steps h.steps]
  apply PartialMap.insertAll_of_notMem
  intro hmem
  obtain ⟨⟨artifact, text⟩, hwritten, rfl⟩ := List.mem_map.mp hmem
  obtain ⟨event, hevent, hsome⟩ := List.mem_filterMap.mp hwritten
  exact onFailure_runInner trace e h.traces event hevent text (eq_writeEvent_of_written hsome)

end Toolchain

/-! ## Histories -/

/-- One run of a history. -/
structure RunRecord (PathBuf : Type) [LinearOrder PathBuf] where
  start : World PathBuf
  trace : List (UpdateEvent PathBuf)
  result : Except GraphError String
  stop : World PathBuf

/-- The tree is replaced by any other one, then the command runs. -/
structure UpdateRun (T : Toolchain PathBuf)
    (edits : SourceTree PathBuf → SourceTree PathBuf → Prop) (w : World PathBuf)
    (r : RunRecord PathBuf) (w' : World PathBuf) : Prop where
  start_eq : r.start.disk = w.disk
  run : Run (UpdateStep edits) T.runInner r.start r.trace r.result r.stop
  stop_eq : w' = r.stop

/-- A sequence of runs from a world, over arbitrary successive source trees. -/
abbrev History (T : Toolchain PathBuf)
    (edits : SourceTree PathBuf → SourceTree PathBuf → Prop) (w : World PathBuf)
    (records : List (RunRecord PathBuf)) (w' : World PathBuf) : Prop :=
  Steps (UpdateRun T edits) w records w'

/-- A way to tell that all successful runs of a history are `Good`: one is good
exactly under a `condition` on it and on the mark that the last good run left. The
mark says what the sidecar holds. -/
structure HistoryRule {Mark : Type*} (T : Toolchain PathBuf)
    (edits : SourceTree PathBuf → SourceTree PathBuf → Prop) (Good : World PathBuf → Prop)
    (Left : Mark → PartialMap Artifact String → Prop)
    (condition : Mark → RunRecord PathBuf → Prop) (mark : RunRecord PathBuf → Mark)
    (conditions : Mark → List (RunRecord PathBuf) → Prop) : Prop where
  nil : ∀ m, conditions m []
  error : ∀ m r records e, r.result = .error e →
    (conditions m (r :: records) ↔ conditions m records)
  ok : ∀ m r records line, r.result = .ok line →
    (conditions m (r :: records) ↔ condition m r ∧ conditions (mark r) records)
  sidecar : ∀ m disk disk', Left m disk → disk' .sidecar = disk .sidecar → Left m disk'
  good : ∀ m r line, Left m r.start.disk →
    Run (UpdateStep edits) T.runInner r.start r.trace (.ok line) r.stop →
      (Good r.stop ↔ condition m r) ∧ (Good r.stop → Left (mark r) r.stop.disk)

/-- By induction on the history: what holds of the sidecar before a run holds of
it before the next one. -/
theorem HistoryRule.forall_good_iff {Mark : Type*} {T : Toolchain PathBuf}
    {Good : World PathBuf → Prop} {Left : Mark → PartialMap Artifact String → Prop}
    {condition : Mark → RunRecord PathBuf → Prop} {mark : RunRecord PathBuf → Mark}
    {conditions : Mark → List (RunRecord PathBuf) → Prop}
    (rule : HistoryRule T edits Good Left condition mark conditions)
    {records : List (RunRecord PathBuf)} (h : History T edits w records w') {m : Mark}
    (hleft : Left m w.disk) :
    (∀ r ∈ records, r.result.isOk → Good r.stop) ↔ conditions m records := by
  induction h generalizing m with
  | nil w => exact iff_of_true (fun _ => nofun) (rule.nil m)
  | @cons w w₁ w₂ r records hrun _ ih =>
      rw [← hrun.start_eq] at hleft
      have hstop := hrun.run
      rw [List.forall_mem_cons]
      cases hresult : r.result with
      | error e =>
          -- the next run finds the sidecar that this one found
          rw [hresult] at hstop
          rw [rule.error m r records e hresult, ← ih (rule.sidecar m _ _ hleft ?_)]
          · exact and_iff_right nofun
          · rw [hrun.stop_eq, Toolchain.sidecar_of_failed_run hstop]
      | ok line =>
          rw [hresult] at hstop
          obtain ⟨hiff, hnext⟩ := rule.good m r line hleft hstop
          rw [← hrun.stop_eq] at hiff hnext ⊢
          rw [rule.ok m r records line hresult, ← hiff]
          constructor
          · intro ⟨hhere, hrest⟩
            exact ⟨hhere rfl, (ih (hnext (hhere rfl))).mp hrest⟩
          · intro ⟨hhere, hrest⟩
            exact ⟨fun _ => hhere, (ih (hnext hhere)).mpr hrest⟩

/-! ## Playing a history -/

/-- The answer to a call, and the error it is refused with if it is. -/
def World.answer (w : World PathBuf) (fault : Option String) : (op : Operation PathBuf) → op.Answer
  | .detect => fault.elim (.ok w.tree.files) .error
  | .sidecarExists => (w.disk .sidecar).isSome
  | .readSidecar => fault.elim ((w.disk .sidecar).elim (.error "not found") .ok) .error
  | .schedule files => ⟨files, .refl files⟩
  | .readFile _ path => fault.elim (.ok (w.tree.content path)) .error
  | .createDirAll => fault.elim (.ok ()) .error
  | .write _ _ => fault.elim (.ok ()) .error

/-- Answer a call after an edit of the content of the files. -/
def World.respond (w : World PathBuf) (op : Operation PathBuf)
    (choice : Option (PathBuf → Bytes) × Option String) : op.Answer × World PathBuf :=
  let tree := { w.tree with content := choice.1.getD w.tree.content }
  let ans := World.answer { w with tree := tree } choice.2 op
  (ans, ⟨tree, w.disk.insertAll (written ⟨op, ans⟩).toList⟩)

theorem World.allows_answer (w : World PathBuf) (fault : Option String)
    (op : Operation PathBuf) : w.Allows ⟨op, w.answer fault op⟩ := by
  cases op with
  | detect =>
      intro files h
      cases fault with
      | none => exact (Except.ok.inj h).symm
      | some e => cases h
  | readFile pass path =>
      intro bytes h
      cases fault with
      | none => exact (Except.ok.inj h).symm
      | some e => cases h
  | readSidecar =>
      intro text h
      cases fault with
      | some e => cases h
      | none =>
          cases hdisk : w.disk .sidecar with
          | none => simp [World.answer, hdisk] at h
          | some text' => simpa [World.answer, hdisk] using h
  | sidecarExists => rfl
  | schedule files => trivial
  | createDirAll => trivial
  | write artifact text => trivial

/-- The tree after an edit of existing files. -/
def SameFiles (tree tree' : SourceTree PathBuf) : Prop := tree'.files = tree.files

theorem respond_sameFiles (w : World PathBuf) (op : Operation PathBuf)
    (choice : Option (PathBuf → Bytes) × Option String) :
    UpdateStep SameFiles w ⟨op, (w.respond op choice).1⟩ (w.respond op choice).2 :=
  ⟨rfl, World.allows_answer _ choice.2 op, rfl⟩

/-- Play runs one after the other, each from its own tree and with a choice for
every call. -/
def play {Choice : Type} (T : Toolchain PathBuf)
    (respond : World PathBuf → (op : Operation PathBuf) → Choice → op.Answer × World PathBuf) :
    World PathBuf → List (SourceTree PathBuf × List Choice) →
      Option (List (RunRecord PathBuf) × World PathBuf)
  | w, [] => some ([], w)
  | w, (tree, choices) :: script =>
      (interpret respond T.runInner { w with tree := tree } choices).bind fun run =>
        (play T respond run.2.2 script).map fun rest =>
          (⟨{ w with tree := tree }, run.1, run.2.1, run.2.2⟩ :: rest.1, rest.2)

/-- Answer a call while the tree is at rest. -/
def World.respondAtRest (w : World PathBuf) (op : Operation PathBuf) (fault : Option String) :
    op.Answer × World PathBuf := w.respond op (none, fault)

theorem respondAtRest_eq (w : World PathBuf) (op : Operation PathBuf) (fault : Option String) :
    UpdateStep Eq w ⟨op, (w.respondAtRest op fault).1⟩ (w.respondAtRest op fault).2 :=
  ⟨rfl, World.allows_answer _ fault op, rfl⟩

/-- What was played is a history. -/
theorem history_of_play {Choice : Type} {T : Toolchain PathBuf}
    {respond : World PathBuf → (op : Operation PathBuf) → Choice → op.Answer × World PathBuf}
    (hrespond : ∀ w op choice,
      UpdateStep edits w ⟨op, (respond w op choice).1⟩ (respond w op choice).2)
    {script : List (SourceTree PathBuf × List Choice)} {records : List (RunRecord PathBuf)}
    (h : play T respond w script = some (records, w')) : History T edits w records w' := by
  induction script generalizing w records with
  | nil =>
      obtain ⟨rfl, rfl⟩ := Prod.mk.inj (Option.some.inj h)
      exact Steps.nil w
  | cons entry script ih =>
      obtain ⟨⟨trace, result, w₁⟩, hrun, hrest⟩ := Option.bind_eq_some_iff.mp h
      obtain ⟨⟨rest, w₂⟩, hplay, heq⟩ := Option.map_eq_some_iff.mp hrest
      obtain ⟨rfl, rfl⟩ := Prod.mk.inj heq
      exact Steps.cons ⟨rfl, run_of_interpret hrespond hrun, rfl⟩ (ih hplay)

/-! ## A small toolchain -/

namespace Toolchain

/-- A toolchain over a few named graphs. No trusted edges are expected, so every
node is its own community. -/
def sample (extract : String → Bytes → Extraction) (saved : List (String × Graph)) :
    Toolchain String where
  toStringLossy := Function.Embedding.refl String
  extractor := fun path => some fun bytes => .ok (extract path bytes)
  contentId := lengthId
  hash := fun bytes => String.ofList (bytes.map Char.ofUInt8)
  detectCommunities := fun g => g.nodes.zipIdx.map fun (n, i) =>
    ⟨⟨UInt32.ofNat i⟩, "community-" ++ toString i, [n.id]⟩
  toJson := fun g =>
    match saved.find? fun entry => entry.2 = g with
    | some entry => .ok entry.1
    | none => .error (.schema "unnamed graph")
  fromJson := fun text =>
    match saved.find? fun entry => entry.1 = text with
    | some entry => .ok entry.2
    | none => .error (.schema "no such graph")
  toStringPretty := fun value => .ok (String.ofList value.compact)
  renderReport := fun _ => "report"
  renderHtml := fun _ => .ok "html"

/-- The bytes of an ASCII text. -/
def source (text : String) : Bytes := text.toList.map fun ch => UInt8.ofNat ch.toNat

/-- One source file with the given text. -/
def singleFile (text : String) : SourceTree String where
  files := ["a.rs"]
  sorted := List.pairwise_singleton _ _
  content := fun _ => source text

/-- An output directory before the first run. -/
def emptyWorld : World String := ⟨singleFile "", PartialMap.empty⟩

/-- A function named `a` or `b` is found. -/
def extractFunction (path : String) (bytes : Bytes) : Extraction :=
  if bytes = source "fn a() \x7b\x7d" then ⟨[⟨"a", path, ⟨0, 9, 1, 1⟩⟩], []⟩
  else if bytes = source "fn b() \x7b\x7d" then ⟨[⟨"b", path, ⟨0, 9, 1, 1⟩⟩], []⟩
  else ⟨[], []⟩

/-- The graph of the function `a`, with what is recorded as the hash of its file. -/
def savedGraph (contentHash : String) : Graph where
  schema := schemaVersion
  nodes := [⟨⟨1⟩, "a", "a.rs", ⟨0, 9, 1, 1⟩⟩]
  edges := []
  communities := [⟨⟨0⟩, "community-0", [⟨1⟩]⟩]
  manifest := ⟨[⟨"a.rs", contentHash⟩], cargoPkgVersion, none⟩

variable {extract : String → Bytes → Extraction} {saved : List (String × Graph)}

theorem sample_roundTrips (hnames : (saved.map Prod.fst).Nodup) :
    (sample extract saved).RoundTrips := by
  intro graph text h
  unfold sample at h ⊢
  dsimp only at h ⊢
  split at h
  next entry hentry =>
    obtain rfl := Except.ok.inj h
    have hgraph : entry.2 = graph := by simpa using List.find?_some hentry
    rw [(find?_key_eq_some_iff hnames).mpr ⟨List.mem_of_find?_eq_some hentry, rfl⟩]
    exact congrArg Except.ok hgraph
  next => cases h

theorem sample_hash_injective : Function.Injective (sample extract saved).hash := by
  intro bytes bytes' h
  refine List.map_injective_iff.mpr ?_ (String.ofList_injective h)
  intro a b hab
  exact UInt8.toUInt32_inj.mp (congrArg Char.val hab)

end Toolchain

end HabitatGraph
