import HabitatGraph.Cli.UpdateWorld

/-! # Edits during an update

A run reads a file twice, once to extract it and once for its hash, and the file
may be edited in between. An edit is lost when the sidecar records a hash of
bytes that were not the ones extracted. Over histories of successful runs no
edit is ever lost exactly when the two reads of every file agree in every run.
-/

namespace HabitatGraph

open Program

namespace Toolchain

variable {PathBuf : Type} [LinearOrder PathBuf] {T : Toolchain PathBuf} {w w' : World PathBuf}
  {edits : SourceTree PathBuf → SourceTree PathBuf → Prop} {trace : List (UpdateEvent PathBuf)}

/-- The hash that the sidecar records for a file. -/
def recordedHash (T : Toolchain PathBuf) (disk : PartialMap Artifact String) (path : PathBuf) :
    Option String :=
  (T.prior disk).bind fun graph => graph.manifest.hashes (T.toStringLossy path)

/-- The bytes that each file was last extracted from. -/
def extractedAfter (extracted : PartialMap PathBuf Bytes) (trace : List (UpdateEvent PathBuf)) :
    PartialMap PathBuf Bytes := extracted.insertAll (trace.filterMap (readIn .extract))

/-- A file that changed since it was extracted is recorded with a hash other
than that of its present bytes. -/
def NeverLost (T : Toolchain PathBuf) (extracted : PartialMap PathBuf Bytes)
    (w : World PathBuf) : Prop :=
  ∀ path ∈ w.tree.files, ∀ bytes, extracted path = some bytes → bytes ≠ w.tree.content path →
    ∀ h, T.recordedHash w.disk path = some h → h ≠ T.hash (w.tree.content path)

/-- No edit is lost after any of the runs, whatever edits of existing files
follow it; `extracted` is what was extracted before the first run. -/
def EditsSurvive (T : Toolchain PathBuf) :
    PartialMap PathBuf Bytes → List (RunRecord PathBuf) → Prop
  | _, [] => True
  | extracted, r :: records =>
      (∀ tree, SameFiles r.stop.tree tree →
        T.NeverLost (extractedAfter extracted r.trace) { r.stop with tree := tree }) ∧
        EditsSurvive T (extractedAfter extracted r.trace) records

/-- The two reads of every file that is read twice yield the same bytes. -/
def ReadsAgree (trace : List (UpdateEvent PathBuf)) : Prop :=
  ∀ path bytes bytes', (path, bytes) ∈ trace.filterMap (readIn .extract) →
    (path, bytes') ∈ trace.filterMap (readIn .hash) → bytes = bytes'

/-! ## The reads of a successful run -/

/-- What a run that wrote the artifacts read and recorded: every file is hashed,
and a file that is not extracted is recorded with the hash it had. -/
structure Rebuilt (T : Toolchain PathBuf) (files : List PathBuf)
    (disk disk' : PartialMap Artifact String) (extractReads hashReads : List (PathBuf × Bytes)) :
    Prop where
  hashed : hashReads.map Prod.fst = files
  extracted_nodup : (extractReads.map Prod.fst).Nodup
  extracted_mem : ∀ path ∈ extractReads.map Prod.fst,
    path ∈ files ∧ (T.extractor path).isSome
  recorded : ∀ path, T.recordedHash disk' path =
    (T.manifest hashReads).hashes (T.toStringLossy path)
  kept : ∀ path ∈ files, (T.extractor path).isSome → path ∉ extractReads.map Prod.fst →
    T.recordedHash disk path = T.recordedHash disk' path

omit [LinearOrder PathBuf] in
theorem recordedHash_of_published (hroundTrips : T.RoundTrips) {graph : Graph}
    {currentManifest : Manifest} {disk disk' : PartialMap Artifact String}
    (hschema : graph.schema = schemaVersion) (h : T.Published graph currentManifest disk disk')
    (path : PathBuf) :
    T.recordedHash disk' path = currentManifest.hashes (T.toStringLossy path) := by
  rw [recordedHash, prior_of_published hroundTrips h hschema]
  rfl

/-- A run that hashed all files and extracted `files'` of them has rebuilt, when
the other files kept their hash. -/
theorem rebuilt_of_published (hroundTrips : T.RoundTrips) {files files' : List PathBuf}
    (hnodup : files.Nodup) (hsublist : files'.Sublist files) {inputs : List (PathBuf × Bytes)}
    (hfiles : inputs.map Prod.fst = files) {extractions : List Extraction}
    (hextracts : T.Extracts files' extractions trace) {graph : Graph}
    {disk disk' : PartialMap Artifact String}
    (hpublished : T.Published graph (T.manifest inputs) disk disk')
    (hschema : graph.schema = schemaVersion)
    (hkept : ∀ path ∈ files, path ∉ files' → T.recordedHash disk path =
      (T.manifest inputs).hashes (T.toStringLossy path)) :
    T.Rebuilt files disk disk' (trace.filterMap (readIn .extract)) inputs := by
  obtain ⟨-, hperm⟩ := reads_of_extracts hextracts
  have hrecorded := recordedHash_of_published hroundTrips hschema hpublished
  refine ⟨hfiles, ?_, ?_, hrecorded, ?_⟩
  · exact hperm.nodup_iff.mpr ((hnodup.sublist hsublist).filter _)
  · intro path hpath
    obtain ⟨hmem, hsome⟩ := List.mem_filter.mp (hperm.mem_iff.mp hpath)
    exact ⟨hsublist.subset hmem, hsome⟩
  · intro path hpath hsome hnot
    have hfiles' : path ∉ files' := fun hmem =>
      hnot (hperm.mem_iff.mpr (List.mem_filter.mpr ⟨hmem, hsome⟩))
    rw [hrecorded, hkept path hpath hfiles']

/-- A successful run finds nothing to do, or rebuilds. -/
theorem noop_or_rebuilt (hroundTrips : T.RoundTrips)
    (hedits : ∀ tree tree', edits tree tree' → tree'.files = tree.files) {line : String}
    (h : Run (UpdateStep edits) T.runInner w trace (.ok line) w') :
    (trace.filterMap (readIn .extract) = [] ∧ w'.disk = w.disk) ∨
      T.Rebuilt w.tree.files w.disk w'.disk (trace.filterMap (readIn .extract))
        (trace.filterMap (readIn .hash)) := by
  obtain ⟨load, rest, rfl, hload, hloadReads, hcases⟩ := cases_of_run hedits h
  have hdisk : w'.disk = w.disk.insertAll (rest.filterMap written) := by
    rw [disk_of_steps h.steps, List.filterMap_append, hload, List.nil_append]
  have hreads : ∀ pass, (load ++ rest).filterMap (readIn pass) = rest.filterMap (readIn pass) :=
    fun pass => by rw [List.filterMap_append, hloadReads, List.nil_append]
  rw [hreads, hreads]
  rcases hcases with ⟨hprior, hfull⟩ | ⟨priorGraph, hprior, hnoop | hincremental⟩
  · obtain ⟨extractions, assembled, inputs, extracting, writing, rfl, hextracts, hassemble, hfiles,
      hwrites⟩ := hfull
    have hpublished := published_of_writes hwrites w.disk
    obtain ⟨hwritten, hextracted, hhashed⟩ := events_of_build hextracts hwrites (Or.inl rfl)
    rw [← hwritten, ← hdisk] at hpublished
    rw [hextracted, hhashed]
    right
    exact rebuilt_of_published hroundTrips w.tree.nodup_files (List.Sublist.refl _) hfiles hextracts
      hpublished (assemble_fields hassemble).1 fun path hpath hnot => absurd hpath hnot
  · obtain ⟨inputs, rfl, hfiles, hempty⟩ := hnoop
    refine Or.inl ⟨filterMap_readIn_of_ne (by decide) inputs, ?_⟩
    rw [hdisk, filterMap_written_reads]
    rfl
  · obtain ⟨inputs, extractions, newPartial, merged, extracting, writing, rfl, hfiles, hempty,
      hextracts, hassemble, hmerge, hwrites⟩ := hincremental
    have hpublished := published_of_writes hwrites w.disk
    obtain ⟨hwritten, hextracted, hhashed⟩ := events_of_build hextracts hwrites (Or.inr rfl)
    rw [← hwritten, ← hdisk] at hpublished
    rw [hextracted, hhashed]
    right
    refine rebuilt_of_published hroundTrips w.tree.nodup_files List.filter_sublist hfiles hextracts
      hpublished ((merge_schema hmerge).trans (assemble_fields hassemble).1) ?_
    intro path hpath hnot
    -- a file that is not extracted again has the hash it had
    have hsame : ¬ T.toStringLossy path ∈
        (diffInputs priorGraph.manifest (T.manifest inputs)).toExtractSet := fun hmem =>
      hnot (List.mem_filter.mpr ⟨hpath, decide_eq_true hmem⟩)
    rw [mem_toExtractSet_iff, not_and, not_not] at hsame
    rw [recordedHash, hprior, Option.bind_some]
    refine (hsame ?_).symm
    rw [← hfiles] at hpath
    obtain ⟨input, hinput, rfl⟩ := List.mem_map.mp hpath
    rw [Manifest.mem_paths_iff]
    exact List.mem_map.mpr ⟨_, mem_buildManifest_inputs.mpr ⟨input, hinput, rfl⟩, rfl⟩

/-! ## One run -/

/-- Files were extracted by an extractor, and what the sidecar records of them is
the hash of what was extracted. -/
structure Faithful (T : Toolchain PathBuf) (extracted : PartialMap PathBuf Bytes)
    (disk : PartialMap Artifact String) : Prop where
  extractor_isSome : ∀ path, (extracted path).isSome → (T.extractor path).isSome
  recorded : ∀ path bytes h, extracted path = some bytes → T.recordedHash disk path = some h →
    h = T.hash bytes

/-- Nothing is lost while the recorded hashes are those of the extracted bytes. -/
theorem Faithful.neverLost (hinj : Function.Injective T.hash)
    {extracted : PartialMap PathBuf Bytes} (h : T.Faithful extracted w.disk) :
    T.NeverLost extracted w := by
  intro path _ bytes hbytes hne recorded hrecorded heq
  have hhash : T.hash bytes = T.hash (w.tree.content path) :=
    (h.recorded path bytes recorded hbytes hrecorded).symm.trans heq
  exact hne (hinj hhash)

/-- A run whose two reads of each file agree keeps the records faithful. -/
theorem Faithful.of_rebuilt {extracted : PartialMap PathBuf Bytes} {files : List PathBuf}
    {disk disk' : PartialMap Artifact String} (hnodup : files.Nodup)
    (hfaithful : T.Faithful extracted disk)
    (hagree : ReadsAgree trace) (h : T.Rebuilt files disk disk' (trace.filterMap (readIn .extract))
      (trace.filterMap (readIn .hash))) :
    T.Faithful (extractedAfter extracted trace) disk' := by
  have hhashed : ((trace.filterMap (readIn .hash)).map Prod.fst).Nodup := h.hashed ▸ hnodup
  constructor
  · intro path hsome
    obtain ⟨bytes, hbytes⟩ := Option.isSome_iff_exists.mp hsome
    rcases PartialMap.insertAll_eq_some hbytes with hread | hold
    · exact (h.extracted_mem path (List.mem_map_of_mem hread)).2
    · exact hfaithful.extractor_isSome path (by rw [hold]; rfl)
  · intro path bytes recorded hbytes hrecorded
    obtain ⟨bytes', hread', rfl⟩ :=
      (hashes_manifest_eq_some_iff hhashed).mp ((h.recorded path).symm.trans hrecorded)
    by_cases hread : path ∈ (trace.filterMap (readIn .extract)).map Prod.fst
    · -- extracted in this run, from the bytes that were hashed
      obtain ⟨⟨path', bytes''⟩, hmem, rfl⟩ := List.mem_map.mp hread
      have hlast := PartialMap.insertAll_of_mem extracted h.extracted_nodup hmem
      obtain rfl := Option.some.inj (hlast.symm.trans hbytes)
      rw [hagree path' bytes'' bytes' hmem hread']
    · -- extracted in an earlier run, and recorded with the same hash since
      have hold : extracted path = some bytes :=
        (PartialMap.insertAll_of_notMem extracted hread).symm.trans hbytes
      have hfile : path ∈ files := h.hashed ▸ List.mem_map_of_mem hread'
      have hsome : (T.extractor path).isSome :=
        hfaithful.extractor_isSome path (by rw [hold]; rfl)
      exact hfaithful.recorded path bytes _ hold ((h.kept path hfile hsome hread).trans hrecorded)

/-- A run after which no edit can be lost has read every file consistently. -/
theorem readsAgree_of_neverLost {extracted : PartialMap PathBuf Bytes} {files : List PathBuf}
    {disk : PartialMap Artifact String} (hfiles : w'.tree.files = files)
    (h : T.Rebuilt files disk w'.disk (trace.filterMap (readIn .extract))
      (trace.filterMap (readIn .hash)))
    (hnever : ∀ tree, SameFiles w'.tree tree →
      T.NeverLost (extractedAfter extracted trace) { w' with tree := tree }) :
    ReadsAgree trace := by
  intro path bytes bytes' hextract hhash
  by_contra hne
  have hpath : path ∈ files := h.hashed ▸ List.mem_map_of_mem hhash
  have hextracted : extractedAfter extracted trace path = some bytes :=
    PartialMap.insertAll_of_mem extracted h.extracted_nodup hextract
  have hhashed : ((trace.filterMap (readIn .hash)).map Prod.fst).Nodup := by
    rw [h.hashed, ← hfiles]
    exact w'.tree.nodup_files
  have hrecorded : T.recordedHash w'.disk path = some (T.hash bytes') :=
    (h.recorded path).trans ((hashes_manifest_eq_some_iff hhashed).mpr ⟨bytes', hhash, rfl⟩)
  -- put the hashed bytes back: the sidecar takes the file for unchanged
  exact hnever { w'.tree with content := fun _ => bytes' } rfl path (hfiles ▸ hpath) bytes
    hextracted hne (T.hash bytes') hrecorded rfl

theorem faithful_of_readsAgree (hroundTrips : T.RoundTrips)
    {extracted : PartialMap PathBuf Bytes} (hfaithful : T.Faithful extracted w.disk) {line : String}
    (h : Run (UpdateStep SameFiles) T.runInner w trace (.ok line) w') (hagree : ReadsAgree trace) :
    T.Faithful (extractedAfter extracted trace) w'.disk := by
  rcases noop_or_rebuilt hroundTrips (fun _ _ h => h) h with ⟨hreads, hdisk⟩ | hrebuilt
  · rw [hdisk, extractedAfter, hreads]
    exact hfaithful
  · exact hfaithful.of_rebuilt w.tree.nodup_files hagree hrebuilt

/-- After a run nothing can be lost exactly when its reads agree. -/
theorem neverLost_iff_readsAgree (hroundTrips : T.RoundTrips) (hinj : Function.Injective T.hash)
    {extracted : PartialMap PathBuf Bytes} (hfaithful : T.Faithful extracted w.disk) {line : String}
    (h : Run (UpdateStep SameFiles) T.runInner w trace (.ok line) w') :
    (∀ tree, SameFiles w'.tree tree →
      T.NeverLost (extractedAfter extracted trace) { w' with tree := tree }) ↔
      ReadsAgree trace := by
  constructor
  · intro hnever
    rcases noop_or_rebuilt hroundTrips (fun _ _ h => h) h with ⟨hreads, -⟩ | hrebuilt
    · intro path bytes bytes' hextract
      rw [hreads] at hextract
      cases hextract
    · exact readsAgree_of_neverLost (files_of_steps (fun _ _ h => h) h.steps) hrebuilt hnever
  · intro hagree tree _
    have hfaithful' := faithful_of_readsAgree hroundTrips hfaithful h hagree
    exact @Faithful.neverLost _ _ T { w' with tree := tree } hinj _ hfaithful'

/-! ## Histories -/

/-- Over every history of successful runs no edit is lost exactly when the two
reads of every file agree in every run. Files may be edited before every single call,
but none is made or removed; the directory may hold any sidecar at first. -/
theorem editsSurvive_iff_readsAgree (hroundTrips : T.RoundTrips)
    (hinj : Function.Injective T.hash) {records : List (RunRecord PathBuf)}
    (hok : ∀ r ∈ records, r.result.isOk)
    (h : History T SameFiles w records w') :
    T.EditsSurvive PartialMap.empty records ↔ ∀ r ∈ records, ReadsAgree r.trace := by
  suffices hgeneral : ∀ extracted, T.Faithful extracted w.disk →
      (T.EditsSurvive extracted records ↔ ∀ r ∈ records, ReadsAgree r.trace) from
    hgeneral PartialMap.empty ⟨nofun, nofun⟩
  induction h with
  | nil w =>
      intro extracted _
      exact ⟨fun _ => nofun, fun _ => trivial⟩
  | @cons w w₁ w₂ r records hrun _ ih =>
      intro extracted hfaithful
      obtain ⟨hr, hok⟩ := List.forall_mem_cons.mp hok
      rw [← hrun.start_eq] at hfaithful
      obtain ⟨line, hline⟩ : ∃ line, r.result = .ok line := by
        cases hresult : r.result with
        | ok line => exact ⟨line, rfl⟩
        | error e => simp [hresult, Except.isOk, Except.toBool] at hr
      have hrun' := hrun.run
      rw [hline] at hrun'
      rw [List.forall_mem_cons, EditsSurvive,
        neverLost_iff_readsAgree hroundTrips hinj hfaithful hrun']
      apply and_congr_right
      intro hagree
      apply ih hok
      rw [hrun.stop_eq]
      exact faithful_of_readsAgree hroundTrips hfaithful hrun' hagree

/-! ## An edit between the two reads -/

instance (extracted : PartialMap PathBuf Bytes) (w : World PathBuf) :
    Decidable (T.NeverLost extracted w) :=
  inferInstanceAs (Decidable (∀ path ∈ w.tree.files, ∀ bytes ∈ extracted path,
    bytes ≠ w.tree.content path → ∀ h ∈ T.recordedHash w.disk path,
      h ≠ T.hash (w.tree.content path)))

omit [LinearOrder PathBuf] in
theorem readsAgree_iff_pairs : ReadsAgree trace ↔
    ∀ read ∈ trace.filterMap (readIn .extract), ∀ read' ∈ trace.filterMap (readIn .hash),
      read.1 = read'.1 → read.2 = read'.2 := by
  constructor
  · rintro h ⟨path, bytes⟩ hread ⟨path', bytes'⟩ hread' rfl
    exact h path bytes bytes' hread hread'
  · intro h path bytes bytes' hread hread'
    exact h (path, bytes) hread (path, bytes') hread' rfl

instance (trace : List (UpdateEvent PathBuf)) : Decidable (ReadsAgree trace) :=
  decidable_of_iff' _ readsAgree_iff_pairs

/-- A full build of a file with `a`, in which the file becomes one with `b` right
before call number `n`. -/
def editBefore (n : Nat) :
    List (SourceTree String × List (Option (String → Bytes) × Option String)) :=
  [(singleFile "fn a() \x7b\x7d", List.replicate n (none, none) ++
    (some fun _ => source "fn b() \x7b\x7d", none) :: List.replicate (9 - n) (none, none))]

/-- What such a build saves when the file is hashed as `text`. -/
def racingToolchain (text : String) : Toolchain String :=
  sample extractFunction [("saved", savedGraph text)]

theorem exists_loss_of_edit :
    ∃ played ∈ play (racingToolchain "fn b() \x7b\x7d") World.respond emptyWorld (editBefore 4),
      (∀ r ∈ played.1, r.result.isOk) ∧ ∃ r ∈ played.1,
        ¬ (racingToolchain "fn b() \x7b\x7d").NeverLost (extractedAfter PartialMap.empty r.trace)
          r.stop := by
  decide +kernel

/-- A full build during which a file is edited after it was extracted and before
it is hashed: the edit is lost. -/
theorem edit_is_lost :
    ∃ (T : Toolchain String) (w w' : World String) (records : List (RunRecord String)),
      T.RoundTrips ∧ Function.Injective T.hash ∧ w.disk .sidecar = none ∧
        History T SameFiles w records w' ∧ (∀ r ∈ records, r.result.isOk) ∧
          ∃ r ∈ records, ¬ T.NeverLost (extractedAfter PartialMap.empty r.trace) r.stop := by
  obtain ⟨⟨records, w'⟩, hplay, hok, hlost⟩ := exists_loss_of_edit
  exact ⟨_, emptyWorld, w', records, sample_roundTrips (by decide), sample_hash_injective, rfl,
    history_of_play respond_sameFiles hplay, hok, hlost⟩

theorem exists_agreement_of_edit :
    ∃ played ∈ play (racingToolchain "fn a() \x7b\x7d") World.respond emptyWorld (editBefore 5),
      (∀ r ∈ played.1, r.result.isOk) ∧ ∀ r ∈ played.1, ReadsAgree r.trace := by
  decide +kernel

/-- An edit right after the two reads is not lost. -/
theorem late_edit_survives :
    ∃ played ∈ play (racingToolchain "fn a() \x7b\x7d") World.respond emptyWorld (editBefore 5),
      (racingToolchain "fn a() \x7b\x7d").EditsSurvive PartialMap.empty played.1 := by
  obtain ⟨played, hplay, hok, hagree⟩ := exists_agreement_of_edit
  refine ⟨played, hplay, ?_⟩
  exact (editsSurvive_iff_readsAgree (sample_roundTrips (by decide)) sample_hash_injective hok
    (history_of_play respond_sameFiles hplay)).mpr hagree

end Toolchain

end HabitatGraph
