import HabitatGraph.Cli.HookInstall

/-! # Two installations of one line

`install-merge-driver` reads the attributes file, extends what it read and writes the
whole file anew; `hook install-merge-driver` appends to it. They agree on every file
that reads as text, as long as there is room for what they write. A file that does not
read as text is refused by the second command and counts as empty for the first, which
replaces it. A write that is cut leaves a part of the text.
-/

namespace HabitatGraph

open Program Files Utf8Lines DelimitedChunks HookCommand

namespace MergeDriver

/-- `install-merge-driver`: write the extended text. A file that cannot be read is
taken for an empty one. -/
def installGitattributes (root : String) : HookProgram Bool :=
  .call (.read .gitAttributes) fun (ans : Except String (List UInt8)) =>
    let existing := (readText ans).toOption.getD ""
    if (textLines existing.toList).any fun l => trim (String.ofList l) == gitattributesLine then
      .pure false
    else do
      let content := if !existing.isEmpty && existing.toList.getLast? != some '\n' then
        existing ++ "\n" else existing
      change (.write .gitAttributes (encode (content ++ gitattributesLine ++ "\n").toList)) id
        ("write " ++ filePath root .gitAttributes)
      .pure true

end MergeDriver

/-- Either command. -/
inductive Installer
  | mergeDriver
  | hook
deriving DecidableEq, Repr

def Installer.program (root : String) : Installer → HookProgram Bool
  | .mergeDriver => MergeDriver.installGitattributes root
  | .hook => HookCommand.installGitattributes root

/-! ## What an installation should do -/

/-- A failed installation leaves the bytes, a successful one leaves them with the line. -/
def Added (content : Option (List UInt8)) (result : Except GraphError Bool)
    (content' : Option (List UInt8)) : Prop :=
  match result with
  | .error _ => content' = content
  | .ok _ => content' = some (withLine (content.getD []))

section NeverDamaged

variable (refusals : RepoFile → Refusals) (root : String)

/-- Both commands end, neither damages the file, a second run of either changes nothing, and
where both succeed they leave the same bytes. -/
structure NeverDamaged (d : Disk RepoFile) : Prop where
  ends : ∀ installer : Installer, ∃ result d',
    Ends (RefusedStep refusals) (installer.program root) d result d'
  added : ∀ (installer : Installer) result d',
    Ends (RefusedStep refusals) (installer.program root) d result d' →
      Added (d .gitAttributes) result (d' .gitAttributes)
  settled : ∀ (first second : Installer) result d' result' d'',
    Ends (RefusedStep refusals) (first.program root) d result d' →
      Ends (RefusedStep refusals) (second.program root) d' result' d'' → d'' = d'
  agree : ∀ added d' added' d'',
    Ends (RefusedStep refusals) (Installer.mergeDriver.program root) d (.ok added) d' →
      Ends (RefusedStep refusals) (Installer.hook.program root) d (.ok added') d'' →
        d' .gitAttributes = d'' .gitAttributes

end NeverDamaged

/-! ## How the calls end -/

section Calls

variable {refusals : RepoFile → Refusals} {root : String} {d d' : Disk RepoFile}

theorem ends_readOrEmpty_iff {file : RepoFile} {result : Except GraphError String} :
    Ends (RefusedStep refusals) (readOrEmpty root file) d result d' ↔ d' = d ∧
      result = if (refusals file).found || (d file).isNone then .ok "" else
        (readText ((refusals file).readAnswer (d file))).mapError fun e =>
          .io ("read " ++ filePath root file ++ ": " ++ e) := by
  refine ends_call_iff.trans ?_
  have hcond : (!(!(refusals file).found && (d file).isSome)) =
      ((refusals file).found || (d file).isNone) := by simp
  constructor
  · rintro ⟨ans, t, ⟨rfl, rfl⟩, h⟩
    rw [hcond] at h
    split at h
    next hnone =>
      obtain ⟨rfl, rfl⟩ := ends_pure_iff.mp h
      exact ⟨rfl, (if_pos hnone).symm⟩
    next hsome =>
      obtain ⟨ans, ⟨rfl, rfl⟩, rfl⟩ := ends_request_iff.mp h
      exact ⟨rfl, (if_neg hsome).symm⟩
  · rintro ⟨rfl, rfl⟩
    refine ⟨_, d', ⟨rfl, rfl⟩, ?_⟩
    rw [hcond]
    split
    next => exact ends_pure_iff.mpr ⟨rfl, rfl⟩
    next => exact ends_request_iff.mpr ⟨_, ⟨rfl, rfl⟩, rfl⟩

/-- What a command that puts `text` after `front` may end with. -/
def Puts (refusals : RepoFile → Refusals) (root opening : String) (front text : List UInt8)
    (d : Disk RepoFile) (result : Except GraphError Unit) (d' : Disk RepoFile) : Prop :=
  match (refusals .gitAttributes).openWrite with
  | some e => result = .error (.io (opening ++ ": " ++ e)) ∧ d' = d
  | none => result = .ok () ∧ d' = d.insert .gitAttributes (front ++ text) ∨
      ∃ e ∈ (refusals .gitAttributes).room,
        result = .error (.io ("write " ++ filePath root .gitAttributes ++ ": " ++ e)) ∧
          ∃ part, part <+: text ∧ d' = d.insert .gitAttributes (front ++ part)

theorem ends_write_iff {bytes : List UInt8} {result : Except GraphError Unit} :
    Ends (RefusedStep refusals) (change (.write .gitAttributes bytes) id
        ("write " ++ filePath root .gitAttributes)) d result d' ↔
      Puts refusals root ("write " ++ filePath root .gitAttributes) [] bytes d result d' := by
  refine ends_request_iff.trans ?_
  unfold Puts
  cases hopen : (refusals .gitAttributes).openWrite with
  | some e =>
      constructor
      · rintro ⟨ans, hstep, rfl⟩
        obtain ⟨rfl, rfl⟩ := (refusedStep_write_iff_of_some hopen).mp hstep
        exact ⟨rfl, rfl⟩
      · rintro ⟨rfl, rfl⟩
        exact ⟨.error e, (refusedStep_write_iff_of_some hopen).mpr ⟨rfl, rfl⟩, rfl⟩
  | none =>
      constructor
      · rintro ⟨ans, hstep, rfl⟩
        rcases (refusedStep_write_iff_of_none hopen).mp hstep with
          ⟨rfl, rfl⟩ | ⟨e, he, rfl, part, hpart, rfl⟩
        · exact .inl ⟨rfl, rfl⟩
        · exact .inr ⟨e, he, rfl, part, hpart, rfl⟩
      · rintro (⟨rfl, rfl⟩ | ⟨e, he, rfl, part, hpart, rfl⟩)
        · exact ⟨.ok (), (refusedStep_write_iff_of_none hopen).mpr (.inl ⟨rfl, rfl⟩), rfl⟩
        · exact ⟨.error e, (refusedStep_write_iff_of_none hopen).mpr
            (.inr ⟨e, he, rfl, part, hpart, rfl⟩), rfl⟩

theorem ends_openAppend_iff {what : String} {result : Except GraphError Unit} :
    Ends (RefusedStep refusals) (change (.openAppend .gitAttributes) id what) d result d' ↔
      match (refusals .gitAttributes).openWrite with
      | some e => result = .error (.io (what ++ ": " ++ e)) ∧ d' = d
      | none => result = .ok () ∧ d' = d.insert .gitAttributes ((d .gitAttributes).getD []) := by
  refine ends_request_iff.trans ?_
  cases hopen : (refusals .gitAttributes).openWrite with
  | some e =>
      constructor
      · rintro ⟨ans, hstep, rfl⟩
        obtain ⟨rfl, rfl⟩ := (refusedStep_openAppend_iff_of_some hopen).mp hstep
        exact ⟨rfl, rfl⟩
      · rintro ⟨rfl, rfl⟩
        exact ⟨_, (refusedStep_openAppend_iff_of_some hopen).mpr ⟨rfl, rfl⟩, rfl⟩
  | none =>
      constructor
      · rintro ⟨ans, hstep, rfl⟩
        obtain ⟨rfl, rfl⟩ := (refusedStep_openAppend_iff_of_none hopen).mp hstep
        exact ⟨rfl, rfl⟩
      · rintro ⟨rfl, rfl⟩
        exact ⟨_, (refusedStep_openAppend_iff_of_none hopen).mpr ⟨rfl, rfl⟩, rfl⟩

theorem ends_append_iff {bytes : List UInt8} {what : String} {result : Except GraphError Unit} :
    Ends (RefusedStep refusals) (change (.append .gitAttributes bytes) id what) d result d' ↔
      result = .ok () ∧ d' = d.insert .gitAttributes ((d .gitAttributes).getD [] ++ bytes) ∨
      ∃ e ∈ (refusals .gitAttributes).room, result = .error (.io (what ++ ": " ++ e)) ∧
        ∃ part, part <+: bytes ∧
          d' = d.insert .gitAttributes ((d .gitAttributes).getD [] ++ part) := by
  refine ends_request_iff.trans ?_
  constructor
  · rintro ⟨ans, ⟨rfl, rfl⟩ | ⟨e, he, rfl, part, hpart, rfl⟩, rfl⟩
    · exact .inl ⟨rfl, rfl⟩
    · exact .inr ⟨e, he, rfl, part, hpart, rfl⟩
  · rintro (⟨rfl, rfl⟩ | ⟨e, he, rfl, part, hpart, rfl⟩)
    · exact ⟨.ok (), .inl ⟨rfl, rfl⟩, rfl⟩
    · exact ⟨.error e, .inr ⟨e, he, rfl, part, hpart, rfl⟩, rfl⟩

theorem ends_appendToFile_iff {text : String} {result : Except GraphError Unit} :
    Ends (RefusedStep refusals) (appendToFile root .gitAttributes text) d result d' ↔
      Puts refusals root ("open " ++ filePath root .gitAttributes)
        ((d .gitAttributes).getD []) (encode text.toList) d result d' := by
  refine ends_bind_iff.trans ?_
  simp only [ends_openAppend_iff, ends_append_iff, Puts]
  cases (refusals .gitAttributes).openWrite with
  | some e =>
      constructor
      · rintro (⟨_, _, ⟨hok, -⟩, -⟩ | ⟨e', ⟨herror, rfl⟩, rfl⟩)
        · cases hok
        · exact ⟨herror, rfl⟩
      · rintro ⟨rfl, rfl⟩
        exact .inr ⟨_, ⟨rfl, rfl⟩, rfl⟩
  | none =>
      have hcreated : (d.insert .gitAttributes ((d .gitAttributes).getD [])) .gitAttributes =
          some ((d .gitAttributes).getD []) := PartialMap.insert_self _ _ _
      constructor
      · rintro (⟨_, _, ⟨-, rfl⟩, happended⟩ | ⟨e', ⟨herror, -⟩, -⟩)
        · simpa only [hcreated, Option.getD_some, PartialMap.insert_insert] using happended
        · cases herror
      · intro hputs
        refine .inl ⟨(), _, ⟨trivial, rfl⟩, ?_⟩
        simpa only [hcreated, Option.getD_some, PartialMap.insert_insert] using hputs

/-- The text that a command takes the file to hold. -/
def Installer.existing (refusals : RepoFile → Refusals) (root : String) (d : Disk RepoFile) :
    Installer → Except GraphError String
  | .mergeDriver =>
      .ok ((readText ((refusals .gitAttributes).readAnswer (d .gitAttributes))).toOption.getD "")
  | .hook =>
      if (refusals .gitAttributes).found || (d .gitAttributes).isNone then .ok "" else
        (readText ((refusals .gitAttributes).readAnswer (d .gitAttributes))).mapError fun e =>
          .io ("read " ++ filePath root .gitAttributes ++ ": " ++ e)

/-- How a command puts the line behind a text. -/
def Installer.Installs (refusals : RepoFile → Refusals) (root : String) (existing : String)
    (d : Disk RepoFile) (result : Except GraphError Unit) (d' : Disk RepoFile) :
    Installer → Prop
  | .mergeDriver => Puts refusals root ("write " ++ filePath root .gitAttributes) []
      (encode (existing ++ lineSeparator existing ++ gitattributesLine ++ "\n").toList) d result d'
  | .hook => Puts refusals root ("open " ++ filePath root .gitAttributes)
      ((d .gitAttributes).getD [])
      (encode (lineSeparator existing ++ (gitattributesLine ++ "\n")).toList) d result d'

/-- A line that is there ends a command, another one is put there. -/
theorem ends_unlessPresent_iff {existing : String} {p : HookProgram Unit}
    {P : Except GraphError Unit → Prop} {result : Except GraphError Bool}
    (hp : ∀ outcome, Ends (RefusedStep refusals) p d outcome d' ↔ P outcome) :
    Ends (RefusedStep refusals) (if linePresent existing gitattributesLine then .pure false
        else do p; .pure true) d result d' ↔
      if linePresent existing gitattributesLine then result = .ok false ∧ d' = d
      else ∃ outcome, P outcome ∧ result = outcome.map fun _ => true := by
  split
  · exact ends_pure_iff
  · simp only [← hp]
    exact ends_bind_pure_iff

theorem ends_write_separated_iff {existing : String} {outcome : Except GraphError Unit} :
    Ends (RefusedStep refusals) (change (.write .gitAttributes (encode
        ((if !existing.isEmpty && existing.toList.getLast? != some '\n' then
          existing ++ "\n" else existing) ++ gitattributesLine ++ "\n").toList)) id
        ("write " ++ filePath root .gitAttributes)) d outcome d' ↔
      Installer.mergeDriver.Installs refusals root existing d outcome d' := by
  rw [separated_eq]
  exact ends_write_iff

/-- A command fails to read the file, finds the line, or puts it there. -/
theorem ends_installer_iff {installer : Installer} {result : Except GraphError Bool} :
    Ends (RefusedStep refusals) (installer.program root) d result d' ↔
      match installer.existing refusals root d with
      | .error e => result = .error e ∧ d' = d
      | .ok existing =>
          if linePresent existing gitattributesLine then result = .ok false ∧ d' = d
          else ∃ outcome, installer.Installs refusals root existing d outcome d' ∧
            result = outcome.map fun _ => true := by
  cases installer with
  | mergeDriver =>
      refine ends_call_iff.trans ?_
      constructor
      · rintro ⟨ans, t, ⟨rfl, rfl⟩, hends⟩
        exact (ends_unlessPresent_iff fun _ => ends_write_separated_iff).mp hends
      · intro hends
        exact ⟨_, d, ⟨rfl, rfl⟩,
          (ends_unlessPresent_iff fun _ => ends_write_separated_iff).mpr hends⟩
  | hook =>
      refine ends_bind_iff.trans ?_
      simp only [ends_readOrEmpty_iff]
      constructor
      · rintro (⟨existing, t, ⟨rfl, hread⟩, hends⟩ | ⟨e, ⟨rfl, hread⟩, rfl⟩)
        · simp only [Installer.existing, ← hread]
          exact (ends_unlessPresent_iff fun _ => ends_appendToFile_iff).mp hends
        · simp only [Installer.existing, ← hread]
          trivial
      · intro hends
        simp only [Installer.existing] at hends
        split at hends
        next e hread =>
          obtain ⟨rfl, rfl⟩ := hends
          exact .inr ⟨e, ⟨rfl, hread.symm⟩, rfl⟩
        next existing hread =>
          exact .inl ⟨existing, d, ⟨rfl, hread.symm⟩,
            (ends_unlessPresent_iff fun _ => ends_appendToFile_iff).mpr hends⟩

/-! ## What the commands take the file for -/

/-- The file is absent, or it may be read and is the text. -/
def ReadsText (refusals : RepoFile → Refusals) (d : Disk RepoFile) (text : String) : Prop :=
  d .gitAttributes = none ∧ text = "" ∨
    (refusals .gitAttributes).read = none ∧ d .gitAttributes = some (encode text.toList)

theorem readText_readAnswer_eq_ok_iff {text : String} :
    readText ((refusals .gitAttributes).readAnswer (d .gitAttributes)) = .ok text ↔
      (refusals .gitAttributes).read = none ∧ d .gitAttributes = some (encode text.toList) := by
  rw [readText_eq_ok_iff, Refusals.readAnswer_eq_ok_iff]

variable (root) in
theorem existing_of_readsText {text : String} (hreads : ReadsText refusals d text)
    (hfound : (refusals .gitAttributes).found = false) (installer : Installer) :
    installer.existing refusals root d = .ok text := by
  rcases hreads with ⟨hnone, rfl⟩ | hreads
  · cases installer with
    | mergeDriver =>
        cases hread : readText ((refusals .gitAttributes).readAnswer (d .gitAttributes)) with
        | error e =>
            rw [Installer.existing, hread]
            rfl
        | ok text =>
            have hsome := (readText_readAnswer_eq_ok_iff.mp hread).2
            rw [hnone] at hsome
            cases hsome
    | hook => exact if_pos (by rw [hnone, hfound]; rfl)
  · have hread := readText_readAnswer_eq_ok_iff.mpr hreads
    cases installer with
    | mergeDriver =>
        rw [Installer.existing, hread]
        rfl
    | hook =>
        rw [Installer.existing, if_neg (by rw [hreads.2, hfound]; exact Bool.false_ne_true), hread]
        rfl

section Unreadable

variable (hunreadable : ¬ ∃ text, ReadsText refusals d text)

include hunreadable

theorem exists_readText_eq_error :
    ∃ e, readText ((refusals .gitAttributes).readAnswer (d .gitAttributes)) = .error e := by
  cases hread : readText ((refusals .gitAttributes).readAnswer (d .gitAttributes)) with
  | error e => exact ⟨e, rfl⟩
  | ok text => exact absurd ⟨text, .inr (readText_readAnswer_eq_ok_iff.mp hread)⟩ hunreadable

variable (root) in
/-- The command that writes the whole file takes it for an empty one. -/
theorem existing_mergeDriver_of_unreadable :
    Installer.mergeDriver.existing refusals root d = .ok "" := by
  obtain ⟨e, hread⟩ := exists_readText_eq_error hunreadable
  rw [Installer.existing, hread]
  rfl

variable (root) in
/-- The command that appends refuses it. -/
theorem existing_hook_of_unreadable (hfound : (refusals .gitAttributes).found = false) :
    ∃ e, Installer.hook.existing refusals root d = .error e := by
  obtain ⟨e, hread⟩ := exists_readText_eq_error hunreadable
  have hsome : (d .gitAttributes).isNone = false := by
    cases hcontent : d .gitAttributes with
    | none => exact absurd ⟨"", .inl ⟨hcontent, rfl⟩⟩ hunreadable
    | some bytes => rfl
  rw [Installer.existing, if_neg (by rw [hfound, hsome]; decide), hread]
  exact ⟨_, rfl⟩

end Unreadable

/-- A text with something in it was read from the file. -/
theorem eq_encode_of_existing {installer : Installer} {text : String}
    (hexisting : installer.existing refusals root d = .ok text) (hne : text ≠ "") :
    d .gitAttributes = some (encode text.toList) := by
  cases installer with
  | mergeDriver =>
      cases hread : readText ((refusals .gitAttributes).readAnswer (d .gitAttributes)) with
      | error e =>
          rw [Installer.existing, hread] at hexisting
          exact absurd (Except.ok.inj hexisting).symm hne
      | ok text' =>
          rw [Installer.existing, hread] at hexisting
          obtain rfl : text' = text := Except.ok.inj hexisting
          exact (readText_readAnswer_eq_ok_iff.mp hread).2
  | hook =>
      rw [Installer.existing] at hexisting
      split at hexisting
      next => exact absurd (Except.ok.inj hexisting).symm hne
      next => exact (readText_readAnswer_eq_ok_iff.mp (mapError_eq_ok_iff.mp hexisting)).2

theorem withLine_of_present {text : String} (hpresent : linePresent text gitattributesLine) :
    withLine (encode text.toList) = encode text.toList := by
  rw [withLine, fromUtf8Lossy_encode, String.ofList_toList, if_pos hpresent]

/-- The text with the line put behind it. -/
def extended (text : String) : List UInt8 :=
  encode (text ++ lineSeparator text ++ gitattributesLine ++ "\n").toList

theorem withLine_of_absent {text : String} (habsent : ¬ linePresent text gitattributesLine) :
    withLine (encode text.toList) = extended text := by
  rw [withLine, fromUtf8Lossy_encode, String.ofList_toList, if_neg habsent, ← encode_append,
    extended]
  simp only [String.toList_append, List.append_assoc]

/-! ## Files that are left alone -/

variable (refusals root) in
/-- Every run of either command leaves the disk as it is, and what it reports is true. -/
def LeavesSame (d : Disk RepoFile) : Prop :=
  ∀ (installer : Installer) result d',
    Ends (RefusedStep refusals) (installer.program root) d result d' →
      d' = d ∧ Added (d .gitAttributes) result (d .gitAttributes)

theorem exists_ends (installer : Installer) : ∃ result d',
    Ends (RefusedStep refusals) (installer.program root) d result d' := by
  have hputs : ∀ opening front text, ∃ outcome d',
      Puts refusals root opening front text d outcome d' := by
    intro opening front text
    unfold Puts
    cases (refusals .gitAttributes).openWrite with
    | some e => exact ⟨_, d, rfl, rfl⟩
    | none => exact ⟨.ok (), _, .inl ⟨rfl, rfl⟩⟩
  simp only [ends_installer_iff]
  split
  next e _ => exact ⟨.error e, d, rfl, rfl⟩
  next existing _ =>
    split
    · exact ⟨.ok false, d, rfl, rfl⟩
    · cases installer with
      | mergeDriver =>
          obtain ⟨outcome, d', h⟩ := hputs _ _ _
          exact ⟨_, d', outcome, h, rfl⟩
      | hook =>
          obtain ⟨outcome, d', h⟩ := hputs _ _ _
          exact ⟨_, d', outcome, h, rfl⟩

theorem LeavesSame.neverDamaged (h : LeavesSame refusals root d) :
    NeverDamaged refusals root d where
  ends := exists_ends
  added installer result d' hends := by
    obtain ⟨rfl, hadded⟩ := h installer result d' hends
    exact hadded
  settled first second result d' result' d'' hfirst hsecond := by
    obtain ⟨rfl, -⟩ := h first result d' hfirst
    exact (h second result' d'' hsecond).1
  agree added d' added' d'' hmerge hhook := by
    rw [(h _ _ _ hmerge).1, (h _ _ _ hhook).1]

/-- A line that is found was read. -/
theorem added_of_present {installer : Installer} {text : String}
    (hexisting : installer.existing refusals root d = .ok text)
    (hpresent : linePresent text gitattributesLine) (added : Bool) :
    Added (d .gitAttributes) (.ok added) (d .gitAttributes) := by
  have hne : text ≠ "" := by
    rintro rfl
    exact absurd hpresent (by decide)
  have hcontent := eq_encode_of_existing hexisting hne
  rw [Added, hcontent, Option.getD_some, withLine_of_present hpresent]

/-- Where the file may not be opened to write. -/
theorem leaves_of_refused (hrefused : (refusals .gitAttributes).openWrite.isSome) :
    LeavesSame refusals root d := by
  obtain ⟨e, hrefused⟩ := Option.isSome_iff_exists.mp hrefused
  intro installer result d' hends
  rw [ends_installer_iff] at hends
  split at hends
  next =>
    obtain ⟨rfl, rfl⟩ := hends
    exact ⟨rfl, rfl⟩
  next existing hexisting =>
    split at hends
    next hpresent =>
      obtain ⟨rfl, rfl⟩ := hends
      exact ⟨rfl, added_of_present hexisting hpresent false⟩
    next =>
      obtain ⟨outcome, hinstalls, rfl⟩ := hends
      cases installer with
      | mergeDriver =>
          simp only [Installer.Installs, Puts, hrefused] at hinstalls
          obtain ⟨rfl, rfl⟩ := hinstalls
          exact ⟨rfl, rfl⟩
      | hook =>
          simp only [Installer.Installs, Puts, hrefused] at hinstalls
          obtain ⟨rfl, rfl⟩ := hinstalls
          exact ⟨rfl, rfl⟩

/-- Where the line is there. -/
theorem leaves_of_present (hfound : (refusals .gitAttributes).found = false) {text : String}
    (hreads : ReadsText refusals d text) (hpresent : linePresent text gitattributesLine) :
    LeavesSame refusals root d := by
  intro installer result d' hends
  have hexisting := existing_of_readsText root hreads hfound installer
  rw [ends_installer_iff, hexisting] at hends
  simp only [if_pos hpresent] at hends
  obtain ⟨rfl, rfl⟩ := hends
  exact ⟨rfl, added_of_present hexisting hpresent false⟩

/-! ## Files that are extended -/

section Opened

variable (hopen : (refusals .gitAttributes).openWrite = none)

include hopen

variable (root) in
/-- What is put behind a text that was read, or in the place of a whole file. -/
theorem installs_of_readsText {text : String} (hreads : ReadsText refusals d text)
    (installer : Installer) : installer.Installs refusals root text d (.ok ())
      (d.insert .gitAttributes (extended text)) := by
  have hcontent : (d .gitAttributes).getD [] = encode text.toList := by
    rcases hreads with ⟨hnone, rfl⟩ | ⟨-, hsome⟩
    · rw [hnone]
      rfl
    · rw [hsome, Option.getD_some]
  cases installer with
  | mergeDriver =>
      simp only [Installer.Installs, Puts, hopen]
      exact .inl ⟨trivial, rfl⟩
  | hook =>
      simp only [Installer.Installs, Puts, hopen, hcontent, ← encode_append]
      refine .inl ⟨trivial, ?_⟩
      rw [extended]
      simp only [String.toList_append, List.append_assoc]

/-- Where there is room nothing else is put there. -/
theorem eq_of_installs (hroom : (refusals .gitAttributes).room = none) {installer : Installer}
    {text : String} {t t' : Disk RepoFile} {outcome outcome' : Except GraphError Unit}
    (h : installer.Installs refusals root text d outcome t)
    (h' : installer.Installs refusals root text d outcome' t') : outcome = outcome' ∧ t = t' := by
  cases installer with
  | mergeDriver =>
      simp only [Installer.Installs, Puts, hopen, hroom] at h h'
      simp_all
  | hook =>
      simp only [Installer.Installs, Puts, hopen, hroom] at h h'
      simp_all

/-- A run on a file that reads as text and lacks the line. -/
theorem ends_iff_of_absent (hroom : (refusals .gitAttributes).room = none)
    (hfound : (refusals .gitAttributes).found = false) {text : String}
    (hreads : ReadsText refusals d text) (habsent : ¬ linePresent text gitattributesLine)
    {installer : Installer} {result : Except GraphError Bool} :
    Ends (RefusedStep refusals) (installer.program root) d result d' ↔
      result = .ok true ∧ d' = d.insert .gitAttributes (extended text) := by
  have hinstalls := installs_of_readsText root hopen hreads installer
  rw [ends_installer_iff, existing_of_readsText root hreads hfound]
  simp only [if_neg habsent]
  constructor
  · rintro ⟨outcome, houtcome, rfl⟩
    obtain ⟨rfl, rfl⟩ := eq_of_installs hopen hroom houtcome hinstalls
    exact ⟨rfl, rfl⟩
  · rintro ⟨rfl, rfl⟩
    exact ⟨.ok (), hinstalls, rfl⟩

/-- A file that holds the line and nothing else stays as it is: a command finds the line, or it
cannot read the file and writes the same bytes. -/
theorem leaves_of_line (hroom : (refusals .gitAttributes).room = none)
    (hfound : (refusals .gitAttributes).found = false)
    (hcontent : d .gitAttributes = some (extended "")) : LeavesSame refusals root d := by
  have hline : linePresent (gitattributesLine ++ "\n") gitattributesLine := linePresent_added ""
  by_cases hreads : ∃ text, ReadsText refusals d text
  · obtain ⟨text, hreads⟩ := hreads
    refine leaves_of_present hfound hreads ?_
    rcases hreads with ⟨hnone, -⟩ | ⟨-, hsome⟩
    · rw [hcontent] at hnone
      cases hnone
    · rw [hcontent] at hsome
      exact encode_inj (Option.some.inj hsome) ▸ hline
  · intro installer result d' hends
    rw [ends_installer_iff] at hends
    cases installer with
    | hook =>
        obtain ⟨e, hexisting⟩ := existing_hook_of_unreadable root hreads hfound
        rw [hexisting] at hends
        obtain ⟨rfl, rfl⟩ := hends
        exact ⟨rfl, rfl⟩
    | mergeDriver =>
        rw [existing_mergeDriver_of_unreadable root hreads] at hends
        obtain ⟨outcome, hinstalls, rfl⟩ := hends
        simp only [Installer.Installs, Puts, hopen, hroom] at hinstalls
        rcases hinstalls with ⟨rfl, rfl⟩ | ⟨e, he, -⟩
        · have hsame : d.insert .gitAttributes (extended "") = d :=
            PartialMap.insert_eq_self hcontent
          have hwith : withLine (extended "") = extended "" := withLine_of_present hline
          refine ⟨hsame, ?_⟩
          change d .gitAttributes = some (withLine ((d .gitAttributes).getD []))
          rw [hcontent, Option.getD_some, hwith]
        · cases he

/-- A file that reads as text and lacks the line is extended once. -/
theorem neverDamaged_of_absent (hroom : (refusals .gitAttributes).room = none)
    (hfound : (refusals .gitAttributes).found = false) {text : String}
    (hreads : ReadsText refusals d text) (habsent : ¬ linePresent text gitattributesLine) :
    NeverDamaged refusals root d where
  ends := exists_ends
  added installer result d' hends := by
    obtain ⟨rfl, rfl⟩ := (ends_iff_of_absent hopen hroom hfound hreads habsent).mp hends
    rw [Added, PartialMap.insert_self]
    rcases hreads with ⟨hnone, rfl⟩ | ⟨-, hsome⟩
    · rw [hnone, ← withLine_of_absent habsent]
      rfl
    · rw [hsome, Option.getD_some, withLine_of_absent habsent]
  settled first second result d' result' d'' hfirst hsecond := by
    obtain ⟨-, rfl⟩ := (ends_iff_of_absent hopen hroom hfound hreads habsent).mp hfirst
    have hholds : d.insert .gitAttributes (extended text) .gitAttributes = some (extended text) :=
      PartialMap.insert_self _ _ _
    rcases hreads with ⟨-, rfl⟩ | ⟨hread, -⟩
    · exact ((leaves_of_line hopen hroom hfound hholds) second result' d'' hsecond).1
    · have hpresent := linePresent_added text
      exact (leaves_of_present hfound (.inr ⟨hread, hholds⟩) hpresent second result' d''
        hsecond).1
  agree added d' added' d'' hmerge hhook := by
    rw [((ends_iff_of_absent hopen hroom hfound hreads habsent).mp hmerge).2,
      ((ends_iff_of_absent hopen hroom hfound hreads habsent).mp hhook).2]

end Opened

/-! ## Files that are damaged -/

section Damaged

variable (hopen : (refusals .gitAttributes).openWrite = none)
  (hnever : NeverDamaged refusals root d)

include hopen hnever

/-- The command that appends does so again to a file that is not found. -/
theorem found_of_neverDamaged : (refusals .gitAttributes).found = false := by
  by_contra hhidden
  rw [Bool.not_eq_false] at hhidden
  have hrun : ∀ t : Disk RepoFile, Ends (RefusedStep refusals) (Installer.hook.program root) t
      (.ok true) (t.insert .gitAttributes ((t .gitAttributes).getD [] ++
        encode (lineSeparator "" ++ (gitattributesLine ++ "\n")).toList)) := by
    intro t
    have hexisting : Installer.hook.existing refusals root t = .ok "" :=
      if_pos (by rw [hhidden, Bool.true_or])
    rw [ends_installer_iff, hexisting]
    refine ⟨.ok (), ?_, rfl⟩
    simp only [Installer.Installs, Puts, hopen]
    exact .inl ⟨trivial, trivial⟩
  have hsettled := congrFun (hnever.settled .hook .hook _ _ _ _ (hrun d) (hrun _)) .gitAttributes
  rw [PartialMap.insert_self, PartialMap.insert_self, Option.getD_some, Option.some.injEq]
    at hsettled
  exact absurd (List.append_right_eq_self.mp hsettled) (by decide)

/-- A write that is cut leaves nothing, or all without success. -/
theorem room_of_neverDamaged {text : String}
    (hexisting : Installer.mergeDriver.existing refusals root d = .ok text)
    (habsent : ¬ linePresent text gitattributesLine) :
    (refusals .gitAttributes).room = none := by
  by_contra hcut
  obtain ⟨e, hroom⟩ := Option.ne_none_iff_exists'.mp hcut
  have hrun : ∀ part, part <+: extended text → d .gitAttributes = some part := by
    intro part hpart
    have hends : Ends (RefusedStep refusals) (Installer.mergeDriver.program root) d
        (.error (.io ("write " ++ filePath root .gitAttributes ++ ": " ++ e)))
        (d.insert .gitAttributes part) := by
      rw [ends_installer_iff, hexisting]
      simp only [if_neg habsent, Installer.Installs, Puts, hopen]
      exact ⟨_, .inr ⟨e, hroom, rfl, part, hpart, rfl⟩, rfl⟩
    have hadded := hnever.added .mergeDriver _ _ hends
    rw [PartialMap.insert_self] at hadded
    exact (show some part = d .gitAttributes from hadded).symm
  have hall := (hrun [] List.nil_prefix).symm.trans (hrun _ List.prefix_rfl)
  have hlength := congrArg List.length (Option.some.inj hall)
  have hline : (encode ("\n" : String).toList).length = 1 := by decide
  rw [extended, String.toList_append, encode_append, List.length_append, List.length_nil] at hlength
  omega

/-- The command that appends leaves a file that does not read as text, the other one then
replaces it. -/
theorem eq_line_of_neverDamaged (hfound : (refusals .gitAttributes).found = false)
    (hunreadable : ¬ ∃ text, ReadsText refusals d text) :
    d .gitAttributes = some (extended "") := by
  obtain ⟨e, hexisting⟩ := existing_hook_of_unreadable root hunreadable hfound
  have hhook : Ends (RefusedStep refusals) (Installer.hook.program root) d (.error e) d := by
    rw [ends_installer_iff, hexisting]
    exact ⟨rfl, rfl⟩
  have hmerge : Ends (RefusedStep refusals) (Installer.mergeDriver.program root) d (.ok true)
      (d.insert .gitAttributes (extended "")) := by
    rw [ends_installer_iff, existing_mergeDriver_of_unreadable root hunreadable]
    refine ⟨.ok (), ?_, rfl⟩
    simp only [Installer.Installs, Puts, hopen]
    exact .inl ⟨trivial, rfl⟩
  have hsettled := congrFun (hnever.settled .hook .mergeDriver _ _ _ _ hhook hmerge) .gitAttributes
  rw [PartialMap.insert_self] at hsettled
  exact hsettled.symm

end Damaged

/-! ## The condition -/

variable (refusals root d) in
/-- The attributes file is never damaged exactly when it may not be opened to write; or it is
found if it is there and its text has the routing line, or every write finds room and it is
absent, reads as text, or holds the routing line and nothing else. The refusals are arbitrary
and stay what they are. -/
theorem neverDamaged_iff : NeverDamaged refusals root d ↔
    (refusals .gitAttributes).openWrite.isSome ∨ (refusals .gitAttributes).found = false ∧
      ((∃ text, ReadsText refusals d text ∧ linePresent text gitattributesLine) ∨
        (refusals .gitAttributes).room = none ∧ ((∃ text, ReadsText refusals d text) ∨
          d .gitAttributes = some (encode (gitattributesLine ++ "\n").toList))) := by
  constructor
  · intro hnever
    by_cases hopen : (refusals .gitAttributes).openWrite.isSome
    · exact .inl hopen
    · rw [Option.not_isSome_iff_eq_none] at hopen
      have hfound := found_of_neverDamaged hopen hnever
      refine .inr ⟨hfound, ?_⟩
      by_cases hreads : ∃ text, ReadsText refusals d text
      · obtain ⟨text, hreads⟩ := hreads
        by_cases hpresent : linePresent text gitattributesLine
        · exact .inl ⟨text, hreads, hpresent⟩
        · have hexisting := existing_of_readsText root hreads hfound .mergeDriver
          exact .inr ⟨room_of_neverDamaged hopen hnever hexisting hpresent, .inl ⟨text, hreads⟩⟩
      · have hexisting := existing_mergeDriver_of_unreadable root hreads
        exact .inr ⟨room_of_neverDamaged hopen hnever hexisting (by decide),
          .inr (eq_line_of_neverDamaged hopen hnever hfound hreads)⟩
  · rintro (hrefused | ⟨hfound, ⟨text, hreads, hpresent⟩ | ⟨hroom, ⟨text, hreads⟩ | hcontent⟩⟩)
    · exact (leaves_of_refused hrefused).neverDamaged
    · exact (leaves_of_present hfound hreads hpresent).neverDamaged
    · by_cases hopen : (refusals .gitAttributes).openWrite = none
      · by_cases hpresent : linePresent text gitattributesLine
        · exact (leaves_of_present hfound hreads hpresent).neverDamaged
        · exact neverDamaged_of_absent hopen hroom hfound hreads hpresent
      · exact (leaves_of_refused (Option.isSome_iff_ne_none.mpr hopen)).neverDamaged
    · by_cases hopen : (refusals .gitAttributes).openWrite = none
      · exact (leaves_of_line hopen hroom hfound hcontent).neverDamaged
      · exact (leaves_of_refused (Option.isSome_iff_ne_none.mpr hopen)).neverDamaged

end Calls

/-- A file of one byte that is not UTF-8. -/
def invalidDisk : Disk RepoFile := PartialMap.empty.insert .gitAttributes [0xFF]

/-- It is replaced by the routing line, though nothing is refused. -/
theorem not_neverDamaged_invalid :
    Ends (RefusedStep fun _ => Refusals.none) (MergeDriver.installGitattributes "r") invalidDisk
      (.ok true) (invalidDisk.insert .gitAttributes
        (encode (gitattributesLine ++ "\n").toList)) ∧
    ¬ NeverDamaged (fun _ => Refusals.none) "r" invalidDisk := by
  have hdecode : decode? [0xFF] = none := by decide +kernel
  have hunreadable : ¬ ∃ text, ReadsText (fun _ => Refusals.none) invalidDisk text := by
    rintro ⟨text, ⟨hcontent, -⟩ | ⟨-, hcontent⟩⟩
    · cases hcontent
    · have hbytes : some [0xFF] = some (encode text.toList) := hcontent
      rw [Option.some.injEq, ← decode?_eq_some_iff, hdecode] at hbytes
      cases hbytes
  constructor
  · refine (@ends_installer_iff _ _ _ _ .mergeDriver _).mpr ?_
    rw [existing_mergeDriver_of_unreadable "r" hunreadable]
    exact ⟨.ok (), .inl ⟨rfl, rfl⟩, rfl⟩
  · intro hnever
    have hline : some [0xFF] = some (extended "") :=
      eq_line_of_neverDamaged rfl hnever rfl hunreadable
    have hhead := congrArg List.head? (Option.some.inj hline)
    exact absurd hhead (by decide)

end HabitatGraph
