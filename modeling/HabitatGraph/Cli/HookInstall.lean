import HabitatGraph.Cli.GitAttributes
import HabitatGraph.Cli.Install
import HabitatGraph.Serve.LabelIndex

/-! # Installing the hooks of a repository

One command adds the regeneration commands to the post-commit hook, the other adds
the merge driver to the configuration of git and the routing line to the attributes.
All three files belong to someone else: they are only ever extended, at most once,
and whatever a run that was cut left in them.
-/

namespace HabitatGraph

open Program Files Utf8Lines DelimitedChunks

/-- The files that the commands extend. -/
inductive RepoFile
  | postCommit
  | gitConfig
  | gitAttributes
deriving DecidableEq, Repr

namespace HookCommand

def shebang : String := "#!/bin/sh\n"

/-- The mark of an installed hook. -/
def hookMarker : String := "# habitat-graph post-commit hook"

def hookBody : String := "# habitat-graph post-commit hook\nhabitat-graph update\n"

def mergeDriverSection : String := "[merge \"habitat-graph\"]"

def mergeDriverValue : String :=
  "\tdriver = habitat-graph merge-driver %O %A %B\n" ++
    "\tname = habitat-graph deterministic graph.json merge\n"

/-! ## Finding the repository -/

/-- The nearest directory that has a `.git`, among a directory and those above it. A directory
is given by its components from the last one up. -/
def discoverRepoRoot (hasGit : List String → Bool) : List String → Option (List String)
  | [] => if hasGit [] then some [] else none
  | name :: parent =>
      if hasGit (name :: parent) then some (name :: parent) else discoverRepoRoot hasGit parent

theorem discoverRepoRoot_eq_some_iff {hasGit : List String → Bool} {start root : List String} :
    discoverRepoRoot hasGit start = some root ↔ root <:+ start ∧ hasGit root = true ∧
      ∀ dir, dir <:+ start → root.length < dir.length → hasGit dir = false := by
  induction start with
  | nil =>
      unfold discoverRepoRoot
      constructor
      · intro h
        split at h
        next hgit =>
          cases h
          exact ⟨List.suffix_rfl, hgit, fun dir hdir hlt => by simp_all⟩
        next => cases h
      · rintro ⟨hroot, hgit, -⟩
        obtain rfl := List.suffix_nil.mp hroot
        exact if_pos hgit
  | cons name parent ih =>
      unfold discoverRepoRoot
      constructor
      · intro h
        split at h
        next hgit =>
          cases h
          refine ⟨List.suffix_rfl, hgit, fun dir hdir hlt => ?_⟩
          exact absurd hdir.length_le (Nat.not_le.mpr hlt)
        next hgit =>
          obtain ⟨hroot, hrootGit, hdeeper⟩ := ih.mp h
          refine ⟨hroot.trans (List.suffix_cons _ _), hrootGit, fun dir hdir hlt => ?_⟩
          rcases List.suffix_cons_iff.mp hdir with rfl | hdir
          · exact Bool.eq_false_iff.mpr hgit
          · exact hdeeper dir hdir hlt
      · rintro ⟨hroot, hrootGit, hdeeper⟩
        rcases List.suffix_cons_iff.mp hroot with rfl | hroot
        · exact if_pos hrootGit
        · have hlt : root.length < (name :: parent).length :=
            Nat.lt_succ_of_le hroot.length_le
          rw [if_neg (Bool.eq_false_iff.mp (hdeeper _ List.suffix_rfl hlt))]
          exact ih.mpr ⟨hroot, hrootGit, fun dir hdir =>
            hdeeper dir (hdir.trans (List.suffix_cons _ _))⟩

/-! ## The commands -/

abbrev HookProgram := Program (Op RepoFile) Op.Answer GraphError

section Commands

variable (root : String)

/-- The path of a file below the root. -/
def filePath : RepoFile → String
  | .postCommit => joinDir (joinDir (joinDir root ".git") "hooks") "post-commit"
  | .gitConfig => joinDir (joinDir root ".git") "config"
  | .gitAttributes => joinDir root ".gitattributes"

/-- The text of a file, or of none. -/
def readOrEmpty (file : RepoFile) : HookProgram String :=
  .call (.found file) fun (found : Bool) =>
    if !found then .pure ""
    else request (.read file) fun ans =>
      (readText ans).mapError fun e => .io ("read " ++ filePath root file ++ ": " ++ e)

/-- Put text after what a file holds. -/
def appendToFile (file : RepoFile) (text : String) : HookProgram Unit := do
  change (.openAppend file) id ("open " ++ filePath root file)
  change (.append file (encode text.toList)) id ("write " ++ filePath root file)

/-- Make a file executable. -/
def setExecutable (file : RepoFile) : HookProgram Unit :=
  change (.setPermissions file) id ("chmod " ++ filePath root file)

/-- Install the post-commit hook: a new script, or some lines more of the one there is. -/
def installPostCommit : HookProgram Bool := do
  change (.createDirAll (joinDir (joinDir root ".git") "hooks")) id "create hooks dir"
  let existing ← readOrEmpty root .postCommit
  if strContains existing hookMarker then do
    setExecutable root .postCommit
    .pure false
  else if existing.isEmpty then do
    change (.write .postCommit (encode (shebang ++ "\n" ++ hookBody).toList)) id
      ("write " ++ filePath root .postCommit)
    setExecutable root .postCommit
    .pure true
  else do
    appendToFile root .postCommit ("\n" ++ hookBody)
    setExecutable root .postCommit
    .pure true

/-- Append some text to a file unless a line of it is there. -/
def appendUnlessPresent (file : RepoFile) (line text : String) : HookProgram Bool := do
  let existing ← readOrEmpty root file
  if linePresent existing line then .pure false
  else do
    appendToFile root file (lineSeparator existing ++ text)
    .pure true

/-- Append the routing line. -/
def installGitattributes : HookProgram Bool :=
  appendUnlessPresent root .gitAttributes gitattributesLine (gitattributesLine ++ "\n")

/-- Append the section of the merge driver. -/
def installGitConfig : HookProgram Bool :=
  appendUnlessPresent root .gitConfig mergeDriverSection
    (mergeDriverSection ++ "\n" ++ mergeDriverValue)

/-- `hook install`, in the repository that was found. -/
def runInstallInner : HookProgram String := do
  let added ← installPostCommit root
  let status := if added then "post-commit hook installed"
    else "post-commit hook already present (no-op)"
  .pure (status ++ " in " ++ joinDir (joinDir root ".git") "hooks")

/-- `hook install-merge-driver`, in the repository that was found. -/
def runInstallMergeDriverInner : HookProgram String := do
  let cfgAdded ← installGitConfig root
  let attrAdded ← installGitattributes root
  let status := fun (added : Bool) => if added then "added" else "already present"
  .pure (".git/config merge driver: " ++ status cfgAdded ++ "; .gitattributes: " ++
    status attrAdded)

end Commands

/-- Either command. -/
inductive Action
  | install
  | installMergeDriver
deriving DecidableEq, Repr

def Action.program (root : String) : Action → HookProgram String
  | .install => runInstallInner root
  | .installMergeDriver => runInstallMergeDriverInner root

/-- The text of an absolute path. -/
def displayDir (dir : List String) : String := "/" ++ "/".intercalate dir.reverse

/-- A command, run from a directory; its absolute path is missing where it cannot be found. -/
structure Invocation where
  action : Action
  startDir : String
  start : Option (List String)
deriving DecidableEq, Repr

def Invocation.root (hasGit : List String → Bool) (c : Invocation) : Option (List String) :=
  c.start.bind (discoverRepoRoot hasGit)

def Invocation.program (hasGit : List String → Bool) (c : Invocation) : HookProgram String :=
  match c.root hasGit with
  | some root => c.action.program (displayDir root)
  | none => .fail (.io ("no git repository found above " ++ c.startDir))

/-! ## What is added -/

/-- The files that an action extends. -/
def Action.files : Action → List RepoFile
  | .install => [.postCommit]
  | .installMergeDriver => [.gitConfig, .gitAttributes]

/-- The text says that the file was extended. -/
def present (file : RepoFile) (text : String) : Bool :=
  match file with
  | .postCommit => strContains text hookMarker
  | .gitConfig => linePresent text mergeDriverSection
  | .gitAttributes => linePresent text gitattributesLine

/-- What is put after a text. -/
def addition (file : RepoFile) (text : String) : String :=
  match file with
  | .postCommit => if text.isEmpty then shebang ++ "\n" ++ hookBody else "\n" ++ hookBody
  | .gitConfig => lineSeparator text ++ (mergeDriverSection ++ "\n" ++ mergeDriverValue)
  | .gitAttributes => lineSeparator text ++ (gitattributesLine ++ "\n")

/-- A line that was added is found in the whole. -/
theorem linePresent_append (existing : String) {line : String} (hline : '\n' ∉ line.toList)
    (htrim : (trim (String.ofList (stripLast '\r' line.toList)) == line) = true) (rest : String) :
    linePresent (existing ++ (lineSeparator existing ++ (line ++ "\n" ++ rest))) line = true := by
  have hchars : (existing ++ (lineSeparator existing ++ (line ++ "\n" ++ rest))).toList =
      (existing ++ lineSeparator existing).toList ++ (line.toList ++ '\n' :: rest.toList) := by
    simp [String.toList_append]
  rw [linePresent, hchars, textLines, cut_append, cut_snd_lineSeparator, List.nil_append,
    cut_append_cons hline]
  simp only [List.map_append, List.any_append, List.map_cons, List.any_cons, Bool.or_eq_true]
  exact .inl (.inr (.inl htrim))

/-- A text is not extended again. -/
theorem present_addition (file : RepoFile) (text : String) :
    present file (text ++ addition file text) = true := by
  cases file with
  | postCommit =>
      have hbody : hookBody = hookMarker ++ "\nhabitat-graph update\n" := by decide
      have hadded : ∃ before, addition .postCommit text = before ++ hookBody := by
        unfold addition
        dsimp only
        split
        · exact ⟨shebang ++ "\n", rfl⟩
        · exact ⟨"\n", rfl⟩
      obtain ⟨before, hadded⟩ := hadded
      rw [present, hadded, hbody, strContains, decide_eq_true_eq]
      refine ⟨(text ++ before).toList, "\nhabitat-graph update\n".toList, ?_⟩
      simp [String.toList_append]
  | gitConfig => exact linePresent_append text (by decide) (by decide) mergeDriverValue
  | gitAttributes =>
      have hfound := @linePresent_append text gitattributesLine (by decide) (by decide) ""
      rwa [String.append_empty] at hfound

theorem encode_inj {s t : String} (h : encode s.toList = encode t.toList) : s = t := by
  have hdecode := congrArg decode? h
  rwa [decode?_encode, decode?_encode, String.ofList_toList, String.ofList_toList,
    Option.some.injEq] at hdecode

theorem present_empty (file : RepoFile) : present file "" = false := by
  cases file <;> decide

end HookCommand

end HabitatGraph
