import HabitatGraph.Cli.Update
import Mathlib.Data.List.ReduceOption

/-! # What an update asks and does

The traces of a successful update, read off the command once: which files it
reads in which pass, what it computes from their bytes, and what it writes. A
failed update has not written the sidecar.
-/

namespace HabitatGraph

open Program

/-- A call of the command with its answer. -/
abbrev UpdateEvent (PathBuf : Type) := Event (@Operation.Answer PathBuf)

section Events

variable {PathBuf : Type}

/-- A file is read. -/
def readEvent (pass : Pass) (read : PathBuf × Bytes) : UpdateEvent PathBuf :=
  ⟨.readFile pass read.1, (.ok read.2 : Except String Bytes)⟩

/-- A file is written. -/
def writeEvent (artifact : Artifact) (text : String) : UpdateEvent PathBuf :=
  ⟨.write artifact text, (.ok () : Except String Unit)⟩

/-- The files and their sorted paths are known. -/
def detectEvent (files : List PathBuf) : UpdateEvent PathBuf :=
  ⟨.detect, (.ok files : Except String (List PathBuf))⟩

/-- The sidecar is looked for. -/
def sidecarExistsEvent (found : Bool) : UpdateEvent PathBuf := ⟨.sidecarExists, found⟩

/-- The sidecar is read. -/
def readSidecarEvent (text : String) : UpdateEvent PathBuf :=
  ⟨.readSidecar, (.ok text : Except String String)⟩

/-- The tasks of a parallel loop are put in an order. -/
def scheduleEvent (files : List PathBuf) (order : { order : List PathBuf // order.Perm files }) :
    UpdateEvent PathBuf := ⟨.schedule files, order⟩

/-- The output directory is there. -/
def createDirAllEvent : UpdateEvent PathBuf := ⟨.createDirAll, (.ok () : Except String Unit)⟩

/-- The file that an event wrote. -/
def written : UpdateEvent PathBuf → Option (Artifact × String)
  | ⟨.write artifact text, ans⟩ =>
      match (ans : Except String Unit) with
      | .ok _ => some (artifact, text)
      | .error _ => none
  | _ => none

/-- What an event read in a pass. -/
def readIn (pass : Pass) : UpdateEvent PathBuf → Option (PathBuf × Bytes)
  | ⟨.readFile pass' path, ans⟩ =>
      match (ans : Except String Bytes) with
      | .ok bytes => if pass' = pass then some (path, bytes) else none
      | .error _ => none
  | _ => none

@[simp] theorem written_readEvent (pass : Pass) (read : PathBuf × Bytes) :
    written (readEvent pass read) = none := rfl

@[simp] theorem readIn_readEvent (pass pass' : Pass) (read : PathBuf × Bytes) :
    readIn pass (readEvent pass' read) = if pass' = pass then some read else none := rfl

theorem filterMap_written_reads (pass : Pass) (reads : List (PathBuf × Bytes)) :
    (reads.map (readEvent pass)).filterMap written = [] := by
  simp

theorem filterMap_readIn_reads (pass : Pass) (reads : List (PathBuf × Bytes)) :
    (reads.map (readEvent pass)).filterMap (readIn pass) = reads := by
  simp [Function.comp_def]

theorem filterMap_readIn_of_ne {pass pass' : Pass} (hne : pass' ≠ pass)
    (reads : List (PathBuf × Bytes)) :
    (reads.map (readEvent pass')).filterMap (readIn pass) = [] := by
  simp [hne]

theorem eq_writeEvent_of_written {event : UpdateEvent PathBuf} {artifact : Artifact}
    {text : String} (h : written event = some (artifact, text)) :
    event = writeEvent artifact text := by
  unfold written at h
  split at h
  next artifact' text' ans =>
    split at h
    next => cases h; rfl
    next => cases h
  next => cases h

end Events

namespace Toolchain

variable {PathBuf : Type} {T : Toolchain PathBuf} {trace : List (UpdateEvent PathBuf)}

/-! ## Single calls -/

theorem traces_detect_ok_iff {files : List PathBuf} :
    Traces detect trace (.ok files) ↔ trace = [detectEvent files] :=
  traces_request_ok_iff_of_unique fun _ => mapError_eq_ok_iff

theorem traces_readLocal_ok_iff {pass : Pass} {path : PathBuf} {bytes : Bytes} :
    Traces (T.readLocal pass path) trace (.ok bytes) ↔ trace = [readEvent pass (path, bytes)] :=
  traces_request_ok_iff_of_unique fun _ => mapError_eq_ok_iff

theorem traces_write_ok_iff {artifact : Artifact} {text : String} {result : Unit} :
    Traces (write artifact text : Update PathBuf Unit) trace (.ok result) ↔
      trace = [writeEvent artifact text] :=
  traces_request_ok_iff_of_unique fun _ => mapError_eq_ok_iff

theorem traces_createDirAll_ok_iff {result : Unit} :
    Traces (createDirAll : Update PathBuf Unit) trace (.ok result) ↔
      trace = [createDirAllEvent] :=
  traces_request_ok_iff_of_unique fun _ => mapError_eq_ok_iff

/-! ## The passes over the files -/

/-- The hashing pass reads every file once, in order. -/
theorem traces_readInputs_ok_iff {files : List PathBuf} {inputs : List (PathBuf × Bytes)} :
    Traces (T.readInputs files) trace (.ok inputs) ↔
      inputs.map Prod.fst = files ∧ trace = inputs.map (readEvent .hash) := by
  unfold readInputs
  induction files generalizing trace inputs with
  | nil =>
      rw [traces_mapAll_nil_ok_iff, List.map_eq_nil_iff]
      constructor
      · rintro ⟨rfl, rfl⟩
        exact ⟨rfl, rfl⟩
      · rintro ⟨rfl, rfl⟩
        exact ⟨rfl, rfl⟩
  | cons path files ih =>
      rw [traces_mapAll_cons_ok_iff]
      constructor
      · rintro ⟨input, rest, before, after, rfl, rfl, hread, hrest⟩
        obtain ⟨bytes, before, last, rfl, hlocal, hlast⟩ := traces_bind_ok_iff.mp hread
        obtain ⟨rfl, hok⟩ := traces_pure_iff.mp hlast
        cases hok
        obtain rfl := traces_readLocal_ok_iff.mp hlocal
        obtain ⟨rfl, rfl⟩ := ih.mp hrest
        exact ⟨rfl, rfl⟩
      · rintro ⟨hfiles, rfl⟩
        obtain ⟨input, rest, rfl, rfl, rfl⟩ := List.map_eq_cons_iff.mp hfiles
        refine ⟨input, rest, [readEvent .hash input], _, rfl, rfl, ?_, ih.mpr ⟨rfl, rfl⟩⟩
        exact traces_bind_ok_iff.mpr ⟨input.2, [readEvent .hash input], [], rfl,
          traces_readLocal_ok_iff.mpr rfl, Traces.pure _⟩

/-- The result of one task: a file is extracted from what was read of it. -/
def IsExtracted (T : Toolchain PathBuf) (reads : List (PathBuf × Bytes))
    (result : PathBuf × Extraction) : Prop :=
  ∃ bytes extract, (result.1, bytes) ∈ reads ∧ T.extractor result.1 = some extract ∧
    extract bytes = .ok result.2

theorem IsExtracted.mono {reads reads' : List (PathBuf × Bytes)} (hsubset : reads ⊆ reads')
    {result : PathBuf × Extraction} (h : T.IsExtracted reads result) :
    T.IsExtracted reads' result := by
  obtain ⟨bytes, extract, hread, hextract⟩ := h
  exact ⟨bytes, extract, hsubset hread, hextract⟩

/-- The tasks of the extraction pass: each file with an extractor is read once
and extracted from what was read. -/
theorem exists_reads_of_traces_mapAll {order : List PathBuf}
    {results : List (Option (PathBuf × Extraction))}
    (h : Traces (mapAll T.extractFile order) trace (.ok results)) :
    ∃ reads, trace = reads.map (readEvent .extract) ∧
      reads.map Prod.fst = order.filter (fun path => (T.extractor path).isSome) ∧
        results.reduceOption.map Prod.fst = reads.map Prod.fst ∧
          ∀ result ∈ results.reduceOption, T.IsExtracted reads result := by
  induction order generalizing trace results with
  | nil =>
      obtain ⟨rfl, rfl⟩ := traces_mapAll_nil_ok_iff.mp h
      exact ⟨[], rfl, rfl, rfl, nofun⟩
  | cons path order ih =>
      obtain ⟨result, rest, before, after, rfl, rfl, hfile, hrest⟩ :=
        traces_mapAll_cons_ok_iff.mp h
      obtain ⟨reads, rfl, hpaths, hresults, hextracted⟩ := ih hrest
      unfold extractFile at hfile
      split at hfile
      next hextractor =>
        -- no extractor takes the file, so it is not even read
        obtain ⟨rfl, hok⟩ := traces_pure_iff.mp hfile
        cases hok
        refine ⟨reads, rfl, ?_, hresults, hextracted⟩
        rw [hpaths, List.filter_cons_of_neg (by simp [hextractor])]
      next extract hextractor =>
        obtain ⟨bytes, before, last, rfl, hread, hlast⟩ := traces_bind_ok_iff.mp hfile
        obtain ⟨extraction, before', last', rfl, houtcome, hpure⟩ := traces_bind_ok_iff.mp hlast
        obtain ⟨rfl, hextract⟩ := traces_ofExcept_ok_iff.mp houtcome
        obtain ⟨rfl, hok⟩ := traces_pure_iff.mp hpure
        cases hok
        obtain rfl := traces_readLocal_ok_iff.mp hread
        refine ⟨(path, bytes) :: reads, rfl, ?_, ?_, ?_⟩
        · rw [List.map_cons, hpaths, List.filter_cons_of_pos (by simp [hextractor])]
        · rw [List.reduceOption_cons_of_some, List.map_cons, List.map_cons, hresults]
        · intro result hresult
          rw [List.reduceOption_cons_of_some] at hresult
          rcases List.mem_cons.mp hresult with rfl | hresult
          · exact ⟨bytes, extract, List.mem_cons_self, hextractor, hextract⟩
          · exact (hextracted result hresult).mono (List.subset_cons_self _ reads)

/-! ## Loading and writing -/

theorem traces_tryLoadPrior_ok {prior : Option Graph}
    (h : Traces T.tryLoadPrior trace (.ok prior)) :
    (trace = [sidecarExistsEvent false] ∧ prior = none) ∨
      ∃ text, trace = [sidecarExistsEvent true, readSidecarEvent text] ∧
        prior = T.parseSidecar text := by
  obtain ⟨found, before, after, rfl, hfound, hrest⟩ := traces_bind_ok_iff.mp h
  obtain ⟨ans, rest, rfl, hpure⟩ := traces_call_iff.mp hfound
  obtain ⟨rfl, hok⟩ := traces_pure_iff.mp hpure
  cases hok
  cases found with
  | false =>
      obtain ⟨rfl, hok⟩ := traces_pure_iff.mp hrest
      cases hok
      exact Or.inl ⟨rfl, rfl⟩
  | true =>
      obtain ⟨text, before, last, rfl, hread, hlast⟩ := traces_bind_ok_iff.mp hrest
      obtain ⟨rfl, hok⟩ := traces_pure_iff.mp hlast
      cases hok
      obtain rfl := (traces_request_ok_iff_of_unique fun _ => mapError_eq_ok_iff).mp hread
      exact Or.inr ⟨text, rfl, rfl⟩

/-- The artifacts of a graph are written, each over the last version of itself. -/
def Writes (T : Toolchain PathBuf) (graph : Graph) (currentManifest : Manifest)
    (trace : List (UpdateEvent PathBuf)) : Prop :=
  ∃ json html sidecarJson, T.toNodeLink graph = .ok json ∧ T.renderHtml graph = .ok html ∧
    T.toJson { graph with manifest := currentManifest } = .ok sidecarJson ∧
      trace = [createDirAllEvent, writeEvent .graphJson json,
        writeEvent .report (T.renderReport graph), writeEvent .html html,
        writeEvent .sidecar sidecarJson]

theorem writes_of_traces {graph : Graph} {currentManifest : Manifest} {result : Unit}
    (h : Traces (T.writeArtifacts graph currentManifest) trace (.ok result)) :
    T.Writes graph currentManifest trace := by
  obtain ⟨_, _, _, rfl, hdir, h₁⟩ := traces_bind_ok_iff.mp h
  obtain ⟨json, _, _, rfl, hjsonTrace, h₂⟩ := traces_bind_ok_iff.mp h₁
  obtain ⟨_, _, _, rfl, hwriteJson, h₃⟩ := traces_bind_ok_iff.mp h₂
  obtain ⟨_, _, _, rfl, hwriteReport, h₄⟩ := traces_bind_ok_iff.mp h₃
  obtain ⟨html, _, _, rfl, hhtmlTrace, h₅⟩ := traces_bind_ok_iff.mp h₄
  obtain ⟨_, _, _, rfl, hwriteHtml, h₆⟩ := traces_bind_ok_iff.mp h₅
  obtain ⟨sidecarJson, _, _, rfl, hsidecarTrace, hwriteSidecar⟩ := traces_bind_ok_iff.mp h₆
  obtain rfl := traces_createDirAll_ok_iff.mp hdir
  obtain ⟨rfl, hjson⟩ := traces_ofExcept_ok_iff.mp hjsonTrace
  obtain rfl := traces_write_ok_iff.mp hwriteJson
  obtain rfl := traces_write_ok_iff.mp hwriteReport
  obtain ⟨rfl, hhtml⟩ := traces_ofExcept_ok_iff.mp hhtmlTrace
  obtain rfl := traces_write_ok_iff.mp hwriteHtml
  obtain ⟨rfl, hsidecar⟩ := traces_ofExcept_ok_iff.mp hsidecarTrace
  obtain rfl := traces_write_ok_iff.mp hwriteSidecar
  exact ⟨json, html, sidecarJson, hjson, hhtml, hsidecar, rfl⟩

theorem filterMap_readIn_of_writes {pass : Pass} {graph : Graph} {currentManifest : Manifest}
    (h : T.Writes graph currentManifest trace) : trace.filterMap (readIn pass) = [] := by
  obtain ⟨json, html, sidecarJson, -, -, -, rfl⟩ := h
  rfl

/-! ## Successful runs -/

variable [DecidableEq PathBuf]

/-- An extraction pass over `files` that ends with `extractions`. -/
def Extracts (T : Toolchain PathBuf) (files : List PathBuf) (extractions : List Extraction)
    (trace : List (UpdateEvent PathBuf)) : Prop :=
  ∃ order reads extracted, trace = scheduleEvent files order :: reads.map (readEvent .extract) ∧
    reads.map Prod.fst = order.val.filter (fun path => (T.extractor path).isSome) ∧
      extracted.map Prod.fst = reads.map Prod.fst ∧
        (∀ result ∈ extracted, T.IsExtracted reads result) ∧
          extractions = files.filterMap (PartialMap.ofEntries extracted)

theorem extracts_of_traces {files : List PathBuf} {extractions : List Extraction}
    (h : Traces (T.extractFiles files) trace (.ok extractions)) :
    T.Extracts files extractions trace := by
  obtain ⟨order, before, after, rfl, hschedule, hrest⟩ := traces_bind_ok_iff.mp h
  obtain ⟨ans, rest, rfl, hpure⟩ := traces_call_iff.mp hschedule
  obtain ⟨rfl, hok⟩ := traces_pure_iff.mp hpure
  cases hok
  obtain ⟨results, before, last, rfl, hresults, hlast⟩ := traces_bind_ok_iff.mp hrest
  obtain ⟨rfl, hok⟩ := traces_pure_iff.mp hlast
  cases hok
  obtain ⟨reads, rfl, hpaths, hextracted, hreads⟩ := exists_reads_of_traces_mapAll hresults
  exact ⟨order, reads, results.reduceOption, by simp [scheduleEvent], hpaths, hextracted, hreads,
    rfl⟩

theorem filterMap_written_of_extracts {files : List PathBuf} {extractions : List Extraction}
    (h : T.Extracts files extractions trace) : trace.filterMap written = [] := by
  obtain ⟨order, reads, extracted, rfl, -⟩ := h
  exact filterMap_written_reads .extract reads

theorem reads_of_extracts {files : List PathBuf} {extractions : List Extraction}
    (h : T.Extracts files extractions trace) :
    trace.filterMap (readIn .hash) = [] ∧
      ((trace.filterMap (readIn .extract)).map Prod.fst).Perm
        (files.filter fun path => (T.extractor path).isSome) := by
  obtain ⟨order, reads, extracted, rfl, hpaths, -⟩ := h
  constructor
  · exact filterMap_readIn_of_ne (by decide) reads
  · change ((reads.map (readEvent .extract)).filterMap (readIn .extract)).map Prod.fst |>.Perm _
    rw [filterMap_readIn_reads, hpaths]
    exact order.property.filter _

/-- What a build reads and writes, whichever of its two passes comes first. -/
theorem events_of_build {files : List PathBuf} {extractions : List Extraction} {graph : Graph}
    {currentManifest : Manifest} {extracting writing : List (UpdateEvent PathBuf)}
    (hextracts : T.Extracts files extractions extracting)
    (hwrites : T.Writes graph currentManifest writing) {inputs : List (PathBuf × Bytes)}
    (htrace : trace = extracting ++ (inputs.map (readEvent .hash) ++ writing) ∨
      trace = inputs.map (readEvent .hash) ++ (extracting ++ writing)) :
    trace.filterMap written = writing.filterMap written ∧
      trace.filterMap (readIn .extract) = extracting.filterMap (readIn .extract) ∧
        trace.filterMap (readIn .hash) = inputs := by
  rcases htrace with rfl | rfl
  · simp [filterMap_written_of_extracts hextracts, (reads_of_extracts hextracts).1,
      filterMap_readIn_of_writes hwrites, Function.comp_def]
  · simp [filterMap_written_of_extracts hextracts, (reads_of_extracts hextracts).1,
      filterMap_readIn_of_writes hwrites, Function.comp_def]

/-- A full build: the files are read for their symbols first, then for their
hash. -/
def FullBuild (T : Toolchain PathBuf) (files : List PathBuf)
    (trace : List (UpdateEvent PathBuf)) : Prop :=
  ∃ extractions assembled inputs extracting writing,
    trace = extracting ++ (inputs.map (readEvent .hash) ++ writing) ∧
      T.Extracts files extractions extracting ∧
        assemble T.contentId extractions = some assembled ∧ inputs.map Prod.fst = files ∧
          T.Writes (T.clustered assembled) (T.manifest inputs) writing

/-- A run that finds nothing to do after it has read the files for their hash. -/
def Noop (T : Toolchain PathBuf) (files : List PathBuf) (priorGraph : Graph)
    (trace : List (UpdateEvent PathBuf)) : Prop :=
  ∃ inputs, trace = inputs.map (readEvent .hash) ∧ inputs.map Prod.fst = files ∧
    (diffInputs priorGraph.manifest (T.manifest inputs)).IsEmpty

/-- An incremental build: all files are read for their hash first, then the
added and changed ones for their symbols. -/
def Incremental (T : Toolchain PathBuf) (files : List PathBuf) (priorGraph : Graph)
    (trace : List (UpdateEvent PathBuf)) : Prop :=
  ∃ inputs extractions newPartial merged extracting writing,
    trace = inputs.map (readEvent .hash) ++ (extracting ++ writing) ∧
      inputs.map Prod.fst = files ∧
        ¬ (diffInputs priorGraph.manifest (T.manifest inputs)).IsEmpty ∧
          T.Extracts (files.filter fun path => T.toStringLossy path ∈
            (diffInputs priorGraph.manifest (T.manifest inputs)).toExtractSet)
              extractions extracting ∧
            assemble T.contentId extractions = some newPartial ∧
              merge T.contentId newPartial (pruneGraph priorGraph
                (diffInputs priorGraph.manifest (T.manifest inputs)).staleSet) = some merged ∧
                T.Writes (T.clustered merged) (T.manifest inputs) writing

theorem fullBuild_of_traces {files : List PathBuf} {line : String}
    (h : Traces (T.doFullBuild files) trace (.ok line)) : T.FullBuild files trace := by
  obtain ⟨extractions, extracting, _, rfl, hextract, h₁⟩ := traces_bind_ok_iff.mp h
  obtain ⟨assembled, _, _, rfl, hassembleTrace, h₂⟩ := traces_bind_ok_iff.mp h₁
  obtain ⟨inputs, _, _, rfl, hinputs, h₃⟩ := traces_bind_ok_iff.mp h₂
  obtain ⟨_, writing, _, rfl, hwrite, hsummary⟩ := traces_bind_ok_iff.mp h₃
  obtain ⟨rfl, hassemble⟩ := traces_ofOption_ok_iff.mp hassembleTrace
  obtain ⟨hfiles, rfl⟩ := traces_readInputs_ok_iff.mp hinputs
  obtain ⟨rfl, -⟩ := traces_pure_iff.mp hsummary
  refine ⟨extractions, assembled, inputs, extracting, writing, ?_, extracts_of_traces hextract,
    hassemble, hfiles, writes_of_traces hwrite⟩
  rw [List.nil_append, List.append_nil]

theorem noop_or_incremental_of_traces {files : List PathBuf} {priorGraph : Graph} {line : String}
    (h : Traces (T.updatePrior files priorGraph) trace (.ok line)) :
    T.Noop files priorGraph trace ∨ T.Incremental files priorGraph trace := by
  obtain ⟨inputs, _, _, rfl, hinputs, h₁⟩ := traces_bind_ok_iff.mp h
  obtain ⟨hfiles, rfl⟩ := traces_readInputs_ok_iff.mp hinputs
  dsimp only at h₁
  split at h₁
  next hempty =>
    obtain ⟨rfl, -⟩ := traces_pure_iff.mp h₁
    exact Or.inl ⟨inputs, List.append_nil _, hfiles, hempty⟩
  next hempty =>
    obtain ⟨extractions, extracting, _, rfl, hextract, h₂⟩ := traces_bind_ok_iff.mp h₁
    obtain ⟨newPartial, _, _, rfl, hassembleTrace, h₃⟩ := traces_bind_ok_iff.mp h₂
    obtain ⟨merged, _, _, rfl, hmergeTrace, h₄⟩ := traces_bind_ok_iff.mp h₃
    obtain ⟨_, writing, _, rfl, hwrite, hsummary⟩ := traces_bind_ok_iff.mp h₄
    obtain ⟨rfl, hassemble⟩ := traces_ofOption_ok_iff.mp hassembleTrace
    obtain ⟨rfl, hmerge⟩ := traces_ofOption_ok_iff.mp hmergeTrace
    obtain ⟨rfl, -⟩ := traces_pure_iff.mp hsummary
    refine Or.inr ⟨inputs, extractions, newPartial, merged, extracting, writing, ?_, hfiles, hempty,
      extracts_of_traces hextract, hassemble, hmerge, writes_of_traces hwrite⟩
    rw [List.nil_append, List.nil_append, List.append_nil]

/-- A successful run is a full build for want of a usable sidecar, or it goes on
from the graph of the sidecar and finds nothing to do or builds incrementally. -/
theorem traces_runInner_ok {line : String} (h : Traces T.runInner trace (.ok line)) :
    ∃ files rest, (trace = [detectEvent files, sidecarExistsEvent false] ++ rest ∧
        T.FullBuild files rest) ∨
      ∃ text, trace = [detectEvent files, sidecarExistsEvent true, readSidecarEvent text] ++ rest ∧
        (T.parseSidecar text = none ∧ T.FullBuild files rest ∨
          ∃ priorGraph, T.parseSidecar text = some priorGraph ∧
            (T.Noop files priorGraph rest ∨ T.Incremental files priorGraph rest)) := by
  obtain ⟨files, _, _, rfl, hdetect, h₁⟩ := traces_bind_ok_iff.mp h
  obtain ⟨prior, _, rest, rfl, hload, h₂⟩ := traces_bind_ok_iff.mp h₁
  obtain rfl := traces_detect_ok_iff.mp hdetect
  refine ⟨files, rest, ?_⟩
  rcases traces_tryLoadPrior_ok hload with ⟨rfl, rfl⟩ | ⟨text, rfl, rfl⟩
  · exact Or.inl ⟨rfl, fullBuild_of_traces h₂⟩
  · refine Or.inr ⟨text, rfl, ?_⟩
    split at h₂
    next hnone => exact Or.inl ⟨hnone, fullBuild_of_traces h₂⟩
    next priorGraph hsome =>
      exact Or.inr ⟨priorGraph, hsome, noop_or_incremental_of_traces h₂⟩

/-! ## Failing runs -/

/-- The event is not the sidecar being written. -/
def KeepsSidecar (event : UpdateEvent PathBuf) : Prop :=
  ∀ text, event ≠ writeEvent .sidecar text

omit [DecidableEq PathBuf] in
theorem keepsSidecar_of_op {op : Operation PathBuf} (h : ∀ text, op ≠ .write .sidecar text)
    (ans : op.Answer) : KeepsSidecar (⟨op, ans⟩ : UpdateEvent PathBuf) :=
  fun text heq => h text (congrArg Sigma.fst heq)

theorem always_extractFiles (files : List PathBuf) :
    Always KeepsSidecar (T.extractFiles files) := by
  refine always_bind (always_call (keepsSidecar_of_op fun _ => nofun) always_pure) fun order => ?_
  refine always_bind (always_mapAll _ fun path => ?_) fun extracted => always_pure _
  unfold extractFile
  split
  · exact always_pure none
  · refine always_bind (always_request (keepsSidecar_of_op fun _ => nofun)) fun bytes => ?_
    exact always_bind (always_ofExcept _) fun extraction => always_pure _

omit [DecidableEq PathBuf] in
theorem always_readInputs (files : List PathBuf) : Always KeepsSidecar (T.readInputs files) := by
  refine always_mapAll _ fun path => ?_
  exact always_bind (always_request (keepsSidecar_of_op fun _ => nofun)) fun bytes => always_pure _

omit [DecidableEq PathBuf] in
theorem always_tryLoadPrior : Always KeepsSidecar T.tryLoadPrior := by
  refine always_bind (always_call (keepsSidecar_of_op fun _ => nofun) always_pure) fun found => ?_
  cases found with
  | false => exact always_pure none
  | true =>
      exact always_bind (always_request (keepsSidecar_of_op fun _ => nofun)) fun text =>
        always_pure _

omit [DecidableEq PathBuf] in
theorem always_write {artifact : Artifact} (h : artifact ≠ .sidecar) (text : String) :
    Always KeepsSidecar (write artifact text : Update PathBuf Unit) := by
  refine always_request (keepsSidecar_of_op fun _ heq => h ?_)
  exact (Operation.write.inj heq).1

omit [DecidableEq PathBuf] in
/-- The sidecar is written last, so nothing fails after it. -/
theorem onFailure_writeArtifacts (graph : Graph) (currentManifest : Manifest) :
    OnFailure KeepsSidecar (T.writeArtifacts graph currentManifest : Update PathBuf Unit) := by
  refine onFailure_bind (always_request (keepsSidecar_of_op fun _ => nofun)) fun _ => ?_
  refine onFailure_bind (always_ofExcept _) fun json => ?_
  refine onFailure_bind (always_write (by decide) json) fun _ => ?_
  refine onFailure_bind (always_write (by decide) _) fun _ => ?_
  refine onFailure_bind (always_ofExcept _) fun html => ?_
  refine onFailure_bind (always_write (by decide) html) fun _ => ?_
  refine onFailure_bind (always_ofExcept _) fun sidecarJson => onFailure_request ?_
  intro ans e hans text heq
  -- a refused write is not a write
  cases heq
  cases hans

/-- A failed update leaves the sidecar as it was. -/
theorem onFailure_runInner : OnFailure KeepsSidecar T.runInner := by
  refine onFailure_bind (always_request (keepsSidecar_of_op fun _ => nofun)) fun files => ?_
  refine onFailure_bind always_tryLoadPrior fun prior => ?_
  cases prior with
  | none =>
      refine onFailure_bind (always_extractFiles files) fun extractions => ?_
      refine onFailure_bind (always_ofOption _) fun assembled => ?_
      refine onFailure_bind (always_readInputs files) fun inputs => ?_
      exact onFailure_bind_pure (onFailure_writeArtifacts _ _)
  | some priorGraph =>
      refine onFailure_bind (always_readInputs files) fun inputs => ?_
      dsimp only
      split
      · exact (always_pure _).onFailure
      · refine onFailure_bind (always_extractFiles _) fun extractions => ?_
        refine onFailure_bind (always_ofOption _) fun newPartial => ?_
        refine onFailure_bind (always_ofOption _) fun merged => ?_
        exact onFailure_bind_pure (onFailure_writeArtifacts _ _)

end Toolchain

end HabitatGraph
