import HabitatGraph.Cli.HookInstall

/-! # Hook installations that may be cut

What a repository's files hold outlives every sequence of hook installations: each
file only grows at its end. Where writes are not torn it grows once at most, by what
is to be added, and a file that says that it was extended is left alone. A file that is
not found although it is there counts as an empty one, so nothing is said of it.
-/

namespace HabitatGraph

open Program Files Utf8Lines

namespace HookCommand

/-- A file is absent, or reads as a text. -/
def ReadsAs (content : Option (List UInt8)) (text : String) : Prop :=
  content = none ∧ text = "" ∨ content = some (encode text.toList)

theorem ReadsAs.getD {content : Option (List UInt8)} {text : String} (h : ReadsAs content text) :
    content.getD [] = encode text.toList := by
  rcases h with ⟨rfl, rfl⟩ | rfl <;> rfl

theorem ReadsAs.unique {content : Option (List UInt8)} {s t : String} (hs : ReadsAs content s)
    (ht : ReadsAs content t) : s = t := encode_inj (hs.getD.symm.trans ht.getD)

/-- A text of a file says that it was extended. -/
def Present (file : RepoFile) (content : Option (List UInt8)) : Prop :=
  ∃ text, content = some (encode text.toList) ∧ present file text = true

/-- Some of `text` may have been put after what a file holds; all or none of it where writes
are not torn. -/
def Extended (faults : Faults RepoFile) (file : RepoFile) (text : String)
    (d d' : Disk RepoFile) : Prop :=
  (∀ other ≠ file, d' other = d other) ∧ (¬ faults.hidden file → d' file = d file ∨
    ∃ part, part <+: encode text.toList ∧
      (¬ faults.torn file → part = [] ∨ part = encode text.toList) ∧
      d' file = some ((d file).getD [] ++ part))

/-- The file is as it was, or was extended by some of its addition. -/
def Grown (faults : Faults RepoFile) (file : RepoFile) (d d' : Disk RepoFile) : Prop :=
  d' file = d file ∨ ∃ text part, ReadsAs (d file) text ∧ present file text = false ∧
    part <+: encode (addition file text).toList ∧
    (¬ faults.torn file → part = [] ∨ part = encode (addition file text).toList) ∧
    d' file = some (encode text.toList ++ part)

section Programs

variable {faults : Faults RepoFile} {d d' : Disk RepoFile}

theorem Extended.of_eq {file : RepoFile} {text : String} (h : d' = d) :
    Extended faults file text d d' := ⟨fun _ _ => h ▸ rfl, fun _ => .inl (h ▸ rfl)⟩

/-- What is appended to a file that reads as a text makes it grow. -/
theorem Extended.grown {file : RepoFile} {text : String} (hreads : ReadsAs (d file) text)
    (hpresent : present file text = false) (hvisible : ¬ faults.hidden file)
    (h : Extended faults file (addition file text) d d') : Grown faults file d d' := by
  refine (h.2 hvisible).imp id ?_
  rintro ⟨part, hprefix, hwhole, hpart⟩
  exact ⟨text, part, hreads, hpresent, hprefix, hwhole, hreads.getD ▸ hpart⟩

theorem triple_readOrEmpty (root : String) (file : RepoFile) :
    Triple (Step faults) (· = d) (readOrEmpty root file)
      (fun result d' => d' = d ∧ ∀ text, result = .ok text →
        ¬ faults.hidden file → ReadsAs (d file) text) (· = d) := by
  refine triple_found rfl fun found hfound => ?_
  cases found with
  | false =>
      refine Triple.pure (fun s hs => ⟨hs, ?_⟩) fun _ hs => hs
      rintro text ⟨⟩ hvisible
      have hnone := hfound.resolve_right fun h => hvisible h.1
      exact .inl ⟨Option.isNone_iff_eq_none.mp (Option.isSome_eq_false_iff.mp hnone.symm), rfl⟩
  | true =>
      refine triple_read.mono ?_ fun _ hs => hs
      rintro result d' ⟨rfl, ans, hans, rfl⟩
      refine ⟨rfl, fun text htext _ => .inr ?_⟩
      exact hans _ (readText_eq_ok_iff.mp (mapError_eq_ok_iff.mp htext))

theorem triple_setExecutable (root : String) (file : RepoFile) :
    Triple (Step faults) (· = d) (setExecutable root file) (fun _ d' => d' = d) (· = d) := by
  refine Triple.request (fun _ hs => hs) ?_
  rintro s ans d' rfl hstep
  exact ⟨hstep, hstep⟩

/-- A file that is opened to append is created if it is absent. -/
theorem triple_openAppend (file : RepoFile) (what : String) :
    Triple (Step faults) (· = d) (change (.openAppend file) id what)
      (fun result d' => (∀ other ≠ file, d' other = d other) ∧
        (d' file = d file ∨ d' file = some ((d file).getD [])) ∧
        (result = .ok () → d' file = some ((d file).getD [])))
      (fun d' => (∀ other ≠ file, d' other = d other) ∧
        (d' file = d file ∨ d' file = some ((d file).getD []))) := by
  refine Triple.request (fun s hs => hs ▸ ⟨fun _ _ => rfl, .inl rfl⟩) ?_
  rintro s ans d' rfl hstep
  have hframe : ∀ other ≠ file, d' other = s other := fun other hother =>
    hstep.frame (by simpa [Op.touched] using hother)
  cases ans with
  | ok u =>
      have hfile : d' file = some ((s file).getD []) := by
        rw [hstep]
        exact PartialMap.insert_self _ _ _
      exact ⟨⟨hframe, .inr hfile, fun _ => hfile⟩, hframe, .inr hfile⟩
  | error e =>
      have hsame : d' file = s file := congrFun hstep file
      exact ⟨⟨hframe, .inl hsame, fun h => absurd h error_ne_ok⟩, hframe, .inl hsame⟩

theorem Extended.of_created {file : RepoFile} (text : String)
    (hframe : ∀ other ≠ file, d' other = d other)
    (hfile : d' file = d file ∨ d' file = some ((d file).getD [])) :
    Extended faults file text d d' := by
  refine ⟨hframe, fun _ => hfile.imp id fun hfile =>
    ⟨[], List.nil_prefix, fun _ => .inl rfl, ?_⟩⟩
  rw [hfile, List.append_nil]

/-- The file is opened, then the text is appended or a part of it. -/
theorem triple_appendToFile (root : String) (file : RepoFile) (text : String) :
    Triple (Step faults) (· = d) (appendToFile root file text)
      (fun result d' => Extended faults file text d d' ∧ (result = .ok () →
        ¬ faults.hidden file → d' file = some ((d file).getD [] ++ encode text.toList)))
      (Extended faults file text d) := by
  refine Triple.bind ((triple_openAppend file _).crash_mono
      fun d' hs => Extended.of_created text hs.1 hs.2) (fun _ => ?_)
    fun e d' hs => ⟨Extended.of_created text hs.1 hs.2.1, fun h => absurd h error_ne_ok⟩
  refine Triple.request (fun d' hs => Extended.of_created text hs.1 hs.2.1) ?_
  rintro s ans d' ⟨hframe, -, hfile⟩ hstep
  have hfile := hfile rfl
  have hothers : ∀ other ≠ file, d' other = d other := fun other hother =>
    (hstep.frame (by simpa [Op.touched] using hother)).trans (hframe other hother)
  cases ans with
  | ok u =>
      have hall : d' file = some ((d file).getD [] ++ encode text.toList) := by
        rw [hstep, PartialMap.insert_self, hfile]
        rfl
      have hextended : Extended faults file text d d' :=
        ⟨hothers, fun _ => .inr ⟨_, List.prefix_rfl, fun _ => .inr rfl, hall⟩⟩
      exact ⟨⟨hextended, fun _ _ => hall⟩, hextended⟩
  | error e =>
      have hextended : Extended faults file text d d' := by
        rcases hstep with rfl | ⟨htorn, part, hprefix, rfl⟩
        · exact Extended.of_created text hothers (.inr hfile)
        · refine ⟨hothers, fun _ => .inr ⟨part, hprefix, fun hnot => absurd htorn hnot, ?_⟩⟩
          rw [PartialMap.insert_self, hfile]
          rfl
      exact ⟨⟨hextended, fun h => absurd h error_ne_ok⟩, hextended⟩

/-- A file without content is written like one that is extended. -/
theorem triple_writeScript {file : RepoFile}
    (hempty : ¬ faults.hidden file → (d file).getD [] = []) (text what : String) :
    Triple (Step faults) (· = d) (change (.write file (encode text.toList)) id what)
      (fun result d' => Extended faults file text d d' ∧ (result = .ok () →
        ¬ faults.hidden file → d' file = some ((d file).getD [] ++ encode text.toList)))
      (Extended faults file text d) := by
  refine Triple.request (fun s hs => Extended.of_eq hs) ?_
  rintro s ans d' rfl hstep
  have hframe : ∀ other ≠ file, d' other = s other := fun other hother =>
    hstep.frame (by simpa [Op.touched] using hother)
  cases ans with
  | ok u =>
      have hall : ¬ faults.hidden file →
          d' file = some ((s file).getD [] ++ encode text.toList) := fun hvisible => by
        rw [hempty hvisible, hstep]
        exact PartialMap.insert_self _ _ _
      have hextended : Extended faults file text s d' :=
        ⟨hframe, fun hvisible => .inr ⟨_, List.prefix_rfl, fun _ => .inr rfl, hall hvisible⟩⟩
      exact ⟨⟨hextended, fun _ => hall⟩, hextended⟩
  | error e =>
      have hextended : Extended faults file text s d' := by
        refine ⟨hframe, fun hvisible => ?_⟩
        rcases hstep with rfl | ⟨htorn, part, hprefix, rfl⟩
        · exact .inl rfl
        · refine .inr ⟨part, hprefix, fun hnot => absurd htorn hnot, ?_⟩
          rw [PartialMap.insert_self, hempty hvisible]
          rfl
      exact ⟨⟨hextended, fun h => absurd h error_ne_ok⟩, hextended⟩

/-! ## One file -/

/-- A file has grown and the others are as they were. -/
structure Alone (faults : Faults RepoFile) (file : RepoFile) (d d' : Disk RepoFile) : Prop where
  frame : ∀ other ≠ file, d' other = d other
  grown : ¬ faults.hidden file → Grown faults file d d'

theorem Alone.of_eq {file : RepoFile} (h : d' = d) : Alone faults file d d' :=
  ⟨fun _ _ => h ▸ rfl, fun _ => .inl (h ▸ rfl)⟩

/-- A file that reads as an extended text is there. -/
theorem present_of_readsAs {file : RepoFile} {content : Option (List UInt8)} {text : String}
    (hreads : ReadsAs content text) (hpresent : present file text = true) :
    Present file content := by
  rcases hreads with ⟨-, rfl⟩ | hcontent
  · rw [present_empty] at hpresent
    cases hpresent
  · exact ⟨text, hcontent, hpresent⟩

theorem present_of_extended {file : RepoFile} {text : String} (hreads : ReadsAs (d file) text)
    (h : d' file = some ((d file).getD [] ++ encode (addition file text).toList)) :
    Present file (d' file) := by
  refine ⟨text ++ addition file text, ?_, present_addition file text⟩
  rw [h, hreads.getD, String.toList_append, encode_append]

variable (faults) in
/-- Unless it is hidden, the file says that it was extended. -/
def Shown (file : RepoFile) (d : Disk RepoFile) : Prop :=
  ¬ faults.hidden file → Present file (d file)

/-- Only one file has grown, and after a success it says that it was extended. -/
def Installed (faults : Faults RepoFile) (file : RepoFile) (d : Disk RepoFile)
    (result : Except GraphError Bool) (d' : Disk RepoFile) : Prop :=
  Alone faults file d d' ∧ ∀ added, result = .ok added → Shown faults file d'

theorem installed_error {file : RepoFile} {e : GraphError} (h : Alone faults file d d') :
    Installed faults file d (.error e) d' :=
  ⟨h, fun _ h => absurd h error_ne_ok⟩

/-- An addition, and what follows it. -/
theorem triple_added {file : RepoFile} {existing text : String} {p : HookProgram Unit}
    {rest : HookProgram Bool} (hreads : ¬ faults.hidden file → ReadsAs (d file) existing)
    (habsent : present file existing = false) (htext : addition file existing = text)
    (hp : Triple (Step faults) (· = d) p
      (fun result d' => Extended faults file text d d' ∧ (result = .ok () →
        ¬ faults.hidden file → d' file = some ((d file).getD [] ++ encode text.toList)))
      (Extended faults file text d))
    (hrest : ∀ s, Alone faults file d s → Shown faults file s →
      Triple (Step faults) (· = s) rest (Installed faults file d) (Alone faults file d)) :
    Triple (Step faults) (· = d) (do p; rest) (Installed faults file d) (Alone faults file d) := by
  subst htext
  have halone : ∀ d', Extended faults file (addition file existing) d d' →
      Alone faults file d d' := fun d' h =>
    ⟨h.1, fun hvisible => h.grown (hreads hvisible) habsent hvisible⟩
  refine Triple.bind (hp.crash_mono halone) (fun _ => Triple.of_forall fun s hs => ?_)
    fun e d' hs => installed_error (halone d' hs.1)
  exact hrest s (halone s hs.1) fun hvisible =>
    present_of_extended (hreads hvisible) (hs.2 rfl hvisible)

/-- The mode is set when the text is there. -/
theorem triple_executable (root : String) {file : RepoFile} (added : Bool) {s : Disk RepoFile}
    (halone : Alone faults file d s) (hshown : Shown faults file s) :
    Triple (Step faults) (· = s) (do setExecutable root file; .pure added)
      (Installed faults file d) (Alone faults file d) := by
  refine Triple.bind ((triple_setExecutable root file).crash_mono fun d' hs => hs ▸ halone)
    (fun _ => ?_) fun e d' hs => installed_error (hs ▸ halone)
  exact Triple.pure (fun d' hs => ⟨hs ▸ halone, fun _ _ => hs ▸ hshown⟩) fun d' hs => hs ▸ halone

theorem triple_createHooksDir (root : String) :
    Triple (Step faults) (· = d)
      (change (.createDirAll (joinDir (joinDir root ".git") "hooks")) id "create hooks dir")
      (fun _ d' => d' = d) (· = d) := by
  refine Triple.request (fun _ hs => hs) ?_
  rintro s ans d' rfl hstep
  exact ⟨hstep, hstep⟩

theorem triple_installPostCommit (root : String) :
    Triple (Step faults) (· = d) (installPostCommit root)
      (Installed faults .postCommit d) (Alone faults .postCommit d) := by
  have hsame : ∀ d', d' = d → Alone faults .postCommit d d' := fun d' => Alone.of_eq
  refine Triple.bind ((triple_createHooksDir root).crash_mono hsame) (fun _ => ?_)
    fun e d' hs => installed_error (hsame d' hs)
  refine Triple.bind ((triple_readOrEmpty root .postCommit).crash_mono hsame)
    (fun existing => Triple.of_forall ?_) fun e d' hs => installed_error (hsame d' hs.1)
  rintro d₀ ⟨rfl, hexisting⟩
  have hreads := hexisting existing rfl
  by_cases hpresent : strContains existing hookMarker = true
  · rw [if_pos hpresent]
    exact triple_executable root false (hsame d₀ rfl) fun hvisible =>
      present_of_readsAs (hreads hvisible) hpresent
  · rw [if_neg hpresent]
    have habsent : present .postCommit existing = false := Bool.eq_false_iff.mpr hpresent
    have hrest : ∀ s, Alone faults .postCommit d₀ s → Shown faults .postCommit s →
        Triple (Step faults) (· = s) (do setExecutable root .postCommit; .pure true)
          (Installed faults .postCommit d₀) (Alone faults .postCommit d₀) :=
      fun s => triple_executable root true
    -- a script without a line is written, another one is extended
    split
    next hempty =>
      have htext : existing = "" := String.isEmpty_iff.mp hempty
      exact triple_added hreads habsent (if_pos hempty)
        (triple_writeScript (fun hvisible => by rw [(hreads hvisible).getD, htext]; rfl) _ _) hrest
    next hempty =>
      exact triple_added hreads habsent (if_neg hempty)
        (triple_appendToFile root .postCommit _) hrest

/-- The two files of the merge driver. -/
theorem triple_appendUnlessPresent (root : String) {file : RepoFile} {line text : String}
    (hline : ∀ t, present file t = linePresent t line)
    (htext : ∀ t, addition file t = lineSeparator t ++ text) :
    Triple (Step faults) (· = d) (appendUnlessPresent root file line text)
      (Installed faults file d) (Alone faults file d) := by
  have hsame : ∀ d', d' = d → Alone faults file d d' := fun d' => Alone.of_eq
  refine Triple.bind ((triple_readOrEmpty root file).crash_mono hsame)
    (fun existing => Triple.of_forall ?_) fun e d' hs => installed_error (hsame d' hs.1)
  rintro d₀ ⟨rfl, hexisting⟩
  have hreads := hexisting existing rfl
  rw [← hline existing]
  split
  next hpresent =>
    refine Triple.pure (fun d' hs => ?_) fun d' => hsame d'
    subst hs
    exact ⟨hsame d' rfl, fun _ _ hvisible => present_of_readsAs (hreads hvisible) hpresent⟩
  next hpresent =>
    refine triple_added hreads (Bool.eq_false_iff.mpr hpresent) (htext existing)
      (triple_appendToFile root file _) fun s halone hshown => ?_
    exact Triple.pure (fun d' hs => ⟨hs ▸ halone, fun _ _ => hs ▸ hshown⟩)
      fun d' hs => hs ▸ halone

/-! ## The commands -/

theorem Grown.of_alone {file : RepoFile} (h : Alone faults file d d') (other : RepoFile)
    (hvisible : ¬ faults.hidden other) : Grown faults other d d' := by
  by_cases heq : other = file
  · subst heq
    exact h.grown hvisible
  · exact .inl (h.frame other heq)

/-- What an action leaves: every file has grown, and after a success those of the action say
that they were extended. -/
def Left (faults : Faults RepoFile) (action : Action) (d : Disk RepoFile)
    (result : Except GraphError String) (d' : Disk RepoFile) : Prop :=
  (∀ file, ¬ faults.hidden file → Grown faults file d d') ∧
    ∀ message, result = .ok message → ∀ file ∈ action.files, Shown faults file d'

theorem triple_runInstallInner (root : String) :
    Triple (Step faults) (· = d) (runInstallInner root) (Left faults .install d)
      (fun d' => ∀ file, ¬ faults.hidden file → Grown faults file d d') := by
  refine Triple.bind ((triple_installPostCommit root).crash_mono
    fun d' hs => Grown.of_alone hs) (fun added => ?_)
    fun e d' hs => ⟨Grown.of_alone hs.1, fun _ h => absurd h error_ne_ok⟩
  refine Triple.pure (fun d' hs => ⟨Grown.of_alone hs.1, fun _ _ file hfile => ?_⟩)
    fun d' hs => Grown.of_alone hs.1
  rw [Action.files, List.mem_singleton] at hfile
  exact hfile ▸ hs.2 added rfl

theorem triple_runInstallMergeDriverInner (root : String) :
    Triple (Step faults) (· = d) (runInstallMergeDriverInner root)
      (Left faults .installMergeDriver d)
      (fun d' => ∀ file, ¬ faults.hidden file → Grown faults file d d') := by
  have hconfig : Triple (Step faults) (· = d) (installGitConfig root) _ _ :=
    triple_appendUnlessPresent root (fun _ => rfl) fun _ => rfl
  refine Triple.bind (hconfig.crash_mono fun d' hs => Grown.of_alone hs)
    (fun cfgAdded => Triple.of_forall ?_)
    fun e d' hs => ⟨Grown.of_alone hs.1, fun _ h => absurd h error_ne_ok⟩
  rintro d₁ ⟨halone, hcfg⟩
  have hattributes : Triple (Step faults) (· = d₁) (installGitattributes root) _ _ :=
    triple_appendUnlessPresent root (fun _ => rfl) fun _ => rfl
  -- the second step leaves the configuration alone, the first one the rest
  have hgrown : ∀ d', Alone faults .gitAttributes d₁ d' →
      ∀ file, ¬ faults.hidden file → Grown faults file d d' := by
    intro d' hs file hvisible
    by_cases hfile : file = .gitAttributes
    · subst hfile
      have hframe : d₁ .gitAttributes = d .gitAttributes := halone.frame _ (by decide)
      have hgrown := hs.grown hvisible
      unfold Grown at hgrown ⊢
      rwa [hframe] at hgrown
    · have hgrown := Grown.of_alone halone file hvisible
      unfold Grown at hgrown ⊢
      rwa [hs.frame file hfile]
  refine Triple.bind (hattributes.crash_mono hgrown)
    (fun attrAdded => ?_) fun e d' hs => ⟨hgrown d' hs.1, fun _ h => absurd h error_ne_ok⟩
  refine Triple.pure (fun d' hs => ⟨hgrown d' hs.1, fun _ _ file hfile => ?_⟩)
    fun d' hs => hgrown d' hs.1
  rcases List.mem_pair.mp hfile with rfl | rfl
  · exact fun hvisible => (hs.1.frame .gitConfig (by decide)).symm ▸ hcfg cfgAdded rfl hvisible
  · exact hs.2 attrAdded rfl

theorem triple_program (hasGit : List String → Bool) (c : Invocation) :
    Triple (Step faults) (· = d) (c.program hasGit) (Left faults c.action d)
      (fun d' => ∀ file, ¬ faults.hidden file → Grown faults file d d') := by
  unfold Invocation.program
  split
  next root _ =>
    unfold Action.program
    split
    next haction => exact haction ▸ triple_runInstallInner (displayDir root)
    next haction => exact haction ▸ triple_runInstallMergeDriverInner (displayDir root)
  next =>
    exact Triple.fail (fun d' hs => ⟨fun _ _ => .inl (hs ▸ rfl), fun _ h => absurd h error_ne_ok⟩)
      fun d' hs file _ => .inl (hs ▸ rfl)

end Programs

/-! ## Sessions -/

/-- What a session of installations makes of a file. -/
structure Outlives (faults : Faults RepoFile) (file : RepoFile)
    (content content' : Option (List UInt8)) : Prop where
  grows : content.getD [] <+: content'.getD []
  kept : content.isSome → content'.isSome
  whole : ¬ faults.torn file → content' = content ∨ content = none ∧ content' = some [] ∨
    ∃ text, ReadsAs content text ∧ present file text = false ∧
      content' = some (encode (text ++ addition file text).toList)
  settled : Present file content → content' = content
  unreadable : (∀ text, ¬ ReadsAs content text) → content' = content

theorem Outlives.refl (faults : Faults RepoFile) (file : RepoFile)
    (content : Option (List UInt8)) : Outlives faults file content content :=
  ⟨List.prefix_rfl, id, fun _ => .inl rfl, fun _ => rfl, fun _ => rfl⟩

theorem not_readsAs_of_present {file : RepoFile} {content : Option (List UInt8)} {text : String}
    (h : Present file content) (hreads : ReadsAs content text) : present file text = true := by
  obtain ⟨text', hcontent, hpresent⟩ := h
  exact hreads.unique (.inr hcontent) ▸ hpresent

/-- A file that was extended once without being torn does not grow any more. -/
theorem whole_of_grown {faults : Faults RepoFile} {file : RepoFile}
    {content : Option (List UInt8)} {d d' : Disk RepoFile} (hnot : ¬ faults.torn file)
    (h : d file = content ∨ content = none ∧ d file = some [] ∨
      ∃ text, ReadsAs content text ∧ present file text = false ∧
        d file = some (encode (text ++ addition file text).toList))
    (hgrown : Grown faults file d d') :
    d' file = content ∨ content = none ∧ d' file = some [] ∨
      ∃ text, ReadsAs content text ∧ present file text = false ∧
        d' file = some (encode (text ++ addition file text).toList) := by
  rcases hgrown with hsame | ⟨text, part, hreads, hpresent, -, hwhole, hfile⟩
  · rw [hsame]
    exact h
  have hall : ∀ {t : String}, part = encode (addition file t).toList → text = t →
      d' file = some (encode (t ++ addition file t).toList) := by
    rintro t hpart rfl
    rw [hfile, hpart, String.toList_append, encode_append]
  rcases h with hsame | ⟨hnone, hempty⟩ | ⟨text', -, -, hdone⟩
  · rw [hsame] at hreads
    rcases hwhole hnot with rfl | hpart
    · rw [List.append_nil] at hfile
      rcases hreads with ⟨hnone, rfl⟩ | hcontent
      · exact .inr (.inl ⟨hnone, hfile⟩)
      · exact .inl (hfile.trans hcontent.symm)
    · exact .inr (.inr ⟨text, hreads, hpresent, hall hpart rfl⟩)
  · have htext : text = "" := hreads.unique (.inr hempty)
    rcases hwhole hnot with rfl | hpart
    · rw [List.append_nil, htext] at hfile
      exact .inr (.inl ⟨hnone, hfile⟩)
    · exact .inr (.inr ⟨text, .inl ⟨hnone, htext⟩, hpresent, hall hpart rfl⟩)
  · -- the text that is there says that it was extended
    have htext := not_readsAs_of_present ⟨_, hdone, present_addition file text'⟩ hreads
    rw [hpresent] at htext
    cases htext

theorem Outlives.grown {faults : Faults RepoFile} {file : RepoFile}
    {content : Option (List UInt8)} {d d' : Disk RepoFile}
    (h : Outlives faults file content (d file)) (hgrown : Grown faults file d d') :
    Outlives faults file content (d' file) where
  grows := by
    rcases hgrown with hsame | ⟨text, part, hreads, -, -, -, hfile⟩
    · exact hsame ▸ h.grows
    · rw [hfile, Option.getD_some, ← hreads.getD]
      exact h.grows.trans (List.prefix_append _ _)
  kept hsome := by
    rcases hgrown with hsame | ⟨text, part, -, -, -, -, hfile⟩
    · exact hsame ▸ h.kept hsome
    · rw [hfile]
      rfl
  whole hnot := whole_of_grown hnot (h.whole hnot) hgrown
  settled hpresent := by
    have hcontent := h.settled hpresent
    rcases hgrown with hsame | ⟨text, part, hreads, habsent, -⟩
    · exact hsame.trans hcontent
    · rw [hcontent] at hreads
      rw [not_readsAs_of_present hpresent hreads] at habsent
      cases habsent
  unreadable hnone := by
    have hcontent := h.unreadable hnone
    rcases hgrown with hsame | ⟨text, part, hreads, -⟩
    · exact hsame.trans hcontent
    · exact absurd (hcontent ▸ hreads) (hnone text)

section Runs

variable {faults : Faults RepoFile} {hasGit : List String → Bool} {d d' : Disk RepoFile}
  {runs : List (Invocation × Option (Except GraphError String))}

/-- In every session of hook installations in one repository, cut or not, each file that is
found where it is outlives the session, and a success is not reported before all files of the
command are extended. Any call may fail, and any write may be torn in the middle. -/
theorem hook_of_session (h : Session (Step faults) (Invocation.program hasGit) d runs d') :
    (∀ file, ¬ faults.hidden file → Outlives faults file (d file) (d' file)) ∧
    (∀ c message, runs.getLast? = some (c, some (.ok message)) →
      ∀ file ∈ c.action.files, ¬ faults.hidden file → Present file (d' file)) := by
  constructor
  · intro file hvisible
    refine h.preserves (fun s => Outlives faults file (d file) (s file)) ?_ (Outlives.refl _ _ _)
    intro s run _ s' hstep hs
    have hgrown := Triple.of_sessionStep hstep
      ((triple_program hasGit run.1).mono (fun _ _ hs => hs.1) fun _ hs => hs) rfl
    exact hs.grown (hgrown file hvisible)
  · intro c message hlast
    obtain ⟨front, rfl⟩ := List.getLast?_eq_some_iff.mp hlast
    obtain ⟨s, -, hstep⟩ := steps_append_iff.mp h
    obtain ⟨s', ⟨trace, hrun⟩, htail⟩ := steps_cons_iff.mp hstep
    cases htail
    exact ((triple_program hasGit c).ends rfl hrun).2 message rfl

end Runs

/-! ## A hook that is there already -/

theorem perform_readOrEmpty (room : Option Nat) (root : String) {file : RepoFile} {text : String}
    {d : Disk RepoFile} (hfile : d file = some (encode text.toList)) :
    perform (respond room) (readOrEmpty root file) d = some (.ok text, d) := by
  have hread : readText (.ok (encode text.toList)) = .ok text := readText_eq_ok_iff.mpr rfl
  simp [readOrEmpty, perform, respond, hfile, request, hread, Except.mapError]

theorem perform_appendToFile (root : String) (file : RepoFile) (text : String)
    (d : Disk RepoFile) : ∃ d', perform (respond none) (appendToFile root file text) d =
      some (.ok (), d') ∧ d' file = some ((d file).getD [] ++ encode text.toList) :=
  ⟨_, rfl, by simp [respond]⟩

/-- On a full device a part of the text is appended. -/
theorem perform_appendToFile_full (n : Nat) (root : String) (file : RepoFile) (text : String)
    (d : Disk RepoFile) : ∃ e d', perform (respond (some n)) (appendToFile root file text) d =
      some (.error e, d') ∧ d' file = some ((d file).getD [] ++ (encode text.toList).take n) :=
  ⟨_, _, rfl, by simp [respond]⟩

/-- An install that finds a hook without the marker appends to it, as far as there is room. -/
theorem perform_runInstallInner (room : Option Nat) (root : String) {text : String}
    {d : Disk RepoFile} (hfile : d .postCommit = some (encode text.toList))
    (hmarker : strContains text hookMarker = false) (hne : text.isEmpty = false) :
    ∃ result d', perform (respond room) (runInstallInner root) d = some (result, d') ∧
      match room with
      | none => (∃ message, result = .ok message) ∧
          d' .postCommit = some (encode (text ++ ("\n" ++ hookBody)).toList)
      | some n => (∃ e, result = .error e) ∧ d' .postCommit =
          some (encode text.toList ++ (encode ("\n" ++ hookBody).toList).take n) := by
  have hcreated : perform (respond room)
      (change (.createDirAll (joinDir (joinDir root ".git") "hooks")) id "create hooks dir") d =
      some (.ok (), d) := rfl
  cases room with
  | none =>
      obtain ⟨d', happended, hcontent⟩ :=
        perform_appendToFile root .postCommit ("\n" ++ hookBody) d
      have hinstalled : perform (respond none) (installPostCommit root) d =
          some (.ok true, d') := by
        rw [installPostCommit, perform_bind hcreated, perform_bind (perform_readOrEmpty _ _ hfile),
          hmarker, hne]
        exact (perform_bind happended).trans rfl
      refine ⟨_, d', (perform_bind hinstalled).trans rfl, ⟨_, rfl⟩, ?_⟩
      rw [hcontent, hfile, Option.getD_some, ← encode_append, ← String.toList_append]
  | some n =>
      obtain ⟨e, d', happended, hcontent⟩ :=
        perform_appendToFile_full n root .postCommit ("\n" ++ hookBody) d
      have hinstalled : perform (respond (some n)) (installPostCommit root) d =
          some (.error e, d') := by
        rw [installPostCommit, perform_bind hcreated, perform_bind (perform_readOrEmpty _ _ hfile),
          hmarker, hne]
        exact perform_bind_error happended
      refine ⟨_, d', perform_bind_error hinstalled, ⟨e, rfl⟩, ?_⟩
      rw [hcontent, hfile, Option.getD_some]

namespace TornHook

/-- The repository `/r`, entered at `/r/src`. -/
def hasGit (dir : List String) : Bool := dir == ["r"]

def invocation : Invocation := ⟨.install, "/r/src", some ["src", "r"]⟩

/-- A hook of someone else. -/
def script : String := "#!/bin/sh\nmake\n"

def disk : Disk RepoFile := PartialMap.empty.insert .postCommit (encode script.toList)

/-- A run that finds room for five bytes, and one that finds enough. -/
theorem hook_of_session_torn : ∃ e message d',
    Session (Step Faults.tearing) (Invocation.program hasGit) disk
      [(invocation, some (.error e)), (invocation, some (.ok message))] d' ∧
    d' .postCommit =
      some (encode (script ++ "\n# ha" ++ ("\n" ++ hookBody)).toList) ∧
    Outlives Faults.tearing .postCommit (disk .postCommit) (d' .postCommit) ∧
    Present .postCommit (d' .postCommit) := by
  have hprogram : invocation.program hasGit = runInstallInner (displayDir ["r"]) := rfl
  have hscript : disk .postCommit = some (encode script.toList) := PartialMap.insert_self _ _ _
  obtain ⟨result, d₁, hperform, ⟨e, rfl⟩, hcontent⟩ :=
    perform_runInstallInner (some 5) (displayDir ["r"]) hscript (by decide) (by decide)
  have htorn : d₁ .postCommit = some (encode (script ++ "\n# ha").toList) := hcontent.trans rfl
  obtain ⟨result, d', hperform', ⟨message, rfl⟩, hcontent'⟩ :=
    perform_runInstallInner none (displayDir ["r"]) htorn (by decide) (by decide)
  rw [← hprogram] at hperform hperform'
  obtain ⟨trace, hrun⟩ := exists_run_of_perform (step_respond (some 5)) hperform
  obtain ⟨trace', hrun'⟩ := exists_run_of_perform (step_respond none) hperform'
  have hsession : Session (Step Faults.tearing) (Invocation.program hasGit) disk
      [(invocation, some (.error e)), (invocation, some (.ok message))] d' :=
    .cons ⟨trace, hrun⟩ (.cons ⟨trace', hrun'⟩ (.nil _))
  obtain ⟨houtlives, hpresent⟩ := hook_of_session hsession
  exact ⟨e, message, d', hsession, hcontent', houtlives .postCommit (fun h => h),
    hpresent invocation message rfl .postCommit List.mem_cons_self (fun h => h)⟩

end TornHook

end HookCommand

end HabitatGraph
