import HabitatGraph.Core.Schema
import HabitatGraph.Core.Text
import HabitatGraph.Foundation.LexicalPath

/-! # Lexical confinement of paths

A candidate path is joined to a root, both are normalized by their text, and the result is
accepted when it begins with the root. Normalizing a relative path drops every `..` that
would climb above where the path starts, so that only an absolute root, or a path that
never climbs so far, is confined.
-/

namespace HabitatGraph

open DelimitedChunks LexicalPath Utf8Lines

/-! ## Paths of the standard library -/

def separator : UInt8 := 0x2F

def dot : UInt8 := 0x2E

/-- A name of a file: not empty, without a separator, and not `.` or `..`. -/
def IsFileName (bytes : List UInt8) : Prop :=
  bytes ≠ [] ∧ separator ∉ bytes ∧ bytes ≠ [dot] ∧ bytes ≠ [dot, dot]

instance (bytes : List UInt8) : Decidable (IsFileName bytes) :=
  inferInstanceAs (Decidable (_ ∧ _ ∧ _ ∧ _))

abbrev FileName := { bytes : List UInt8 // IsFileName bytes }

/-- A path as it is compared, extended and shortened: by its components. -/
abbrev PathBuf := List (Component FileName)

/-- The component that a piece between separators is. Only the first piece of a path can
be a current directory. -/
def pieceComponent (first : Bool) (piece : List UInt8) : Option (Component FileName) :=
  if piece = [dot] then if first then some .curDir else none
  else if piece = [dot, dot] then some .parentDir
  else if h : IsFileName piece then some (.normal ⟨piece, h⟩)
  else none

def isAbsolute (path : List UInt8) : Bool := path.head? == some separator

/-- The pieces of a path between separators. -/
def pieces (path : List UInt8) : List (List UInt8) :=
  (cut separator path).1 ++ [(cut separator path).2]

/-- The components of the text of a path. -/
def components (path : List UInt8) : PathBuf :=
  if isAbsolute path then .rootDir :: (pieces path).filterMap (pieceComponent false)
  else
    match pieces path with
    | [] => []
    | first :: rest =>
        (pieceComponent true first).toList ++ rest.filterMap (pieceComponent false)

/-- Append a component; a root replaces the path. -/
def PathBuf.push (path : PathBuf) : Component FileName → PathBuf
  | .rootDir => [.rootDir]
  | component => path ++ [component]

/-- Remove the last component; a root stays. -/
def PathBuf.pop (path : PathBuf) : PathBuf :=
  match path.getLast? with
  | none => path
  | some .rootDir => path
  | some _ => path.dropLast

/-- Append a path; an absolute one replaces the path. -/
def PathBuf.join (path : PathBuf) (other : List UInt8) : PathBuf :=
  if isAbsolute other then components other
  else if path.isEmpty then components other
  else path ++ (components other).dropWhile fun component => component == .curDir

/-! ## The guard -/

/-- What normalizing does with one component. -/
def normalizeStep (out : PathBuf) : Component FileName → PathBuf
  | .curDir => out
  | .parentDir => out.pop
  | other => out.push other

/-- Resolve `.` and `..` by the text. -/
def lexicalNormalize (path : PathBuf) : PathBuf := path.foldl normalizeStep []

/-- Confine a path to a root. -/
def confineTo (root candidate : List UInt8) : Except GraphError PathBuf :=
  let rootN := lexicalNormalize (components root)
  let resolved := lexicalNormalize (rootN.join candidate)
  if rootN.isPrefixOf resolved then .ok resolved
  else .error (.guard ("path escapes confinement root: " ++ fromUtf8Lossy candidate))

/-- Against any current directory the path lies inside the root, where the candidate joined
to the root lies. -/
def Confines (root candidate : List UInt8) (confined : PathBuf) : Prop :=
  ∀ cwd, resolve cwd (components root) <+: resolve cwd confined ∧
    resolve cwd confined = resolve cwd ((components root).join candidate)

/-! ## Components and locations -/

theorem rootDir_notMem_pieces (first : Bool) (pieces : List (List UInt8)) :
    .rootDir ∉ pieces.filterMap (pieceComponent first) := by
  intro hmem
  obtain ⟨piece, _, hpiece⟩ := List.mem_filterMap.mp hmem
  unfold pieceComponent at hpiece
  split_ifs at hpiece <;> cases hpiece

/-- A path whose only root, if it has one, stands in front. -/
inductive Rooted : Bool → PathBuf → Prop
  | relative {path : PathBuf} (h : .rootDir ∉ path) : Rooted false path
  | absolute {path : PathBuf} (h : .rootDir ∉ path) : Rooted true (.rootDir :: path)

theorem rooted_components (path : List UInt8) : Rooted (isAbsolute path) (components path) := by
  rw [components]
  cases isAbsolute path with
  | true => exact Rooted.absolute (rootDir_notMem_pieces false _)
  | false =>
      apply Rooted.relative
      rw [if_neg Bool.false_ne_true]
      cases pieces path with
      | nil => exact List.not_mem_nil
      | cons first rest =>
          have hfirst := rootDir_notMem_pieces true [first]
          rw [List.filterMap_cons, List.filterMap_nil] at hfirst
          rw [List.mem_append, not_or]
          refine ⟨?_, rootDir_notMem_pieces false rest⟩
          intro hmem
          rw [Option.mem_toList] at hmem
          rw [hmem] at hfirst
          exact hfirst List.mem_cons_self

theorem Rooted.append {absolute : Bool} {path rest : PathBuf} (h : Rooted absolute path)
    (hrest : .rootDir ∉ rest) : Rooted absolute (path ++ rest) := by
  cases h with
  | relative hpath =>
      apply Rooted.relative
      rw [List.mem_append, not_or]
      exact ⟨hpath, hrest⟩
  | absolute hpath =>
      rw [List.cons_append]
      apply Rooted.absolute
      rw [List.mem_append, not_or]
      exact ⟨hpath, hrest⟩

/-- Joining a relative path keeps the root. -/
theorem Rooted.join {absolute : Bool} {path : PathBuf} (h : Rooted absolute path)
    {other : List UInt8} (hother : isAbsolute other = false) :
    Rooted absolute (path.join other) := by
  have hrooted := rooted_components other
  rw [hother] at hrooted
  cases hrooted with
  | relative hcomponents =>
      rw [PathBuf.join, if_neg (Bool.eq_false_iff.mp hother)]
      split
      next hempty =>
        rw [List.isEmpty_iff.mp hempty] at h
        cases h
        exact Rooted.relative hcomponents
      next =>
        exact h.append fun hmem => hcomponents ((List.dropWhile_sublist _).subset hmem)

theorem resolve_dropWhile_curDir (cwd : List FileName) (path : PathBuf) :
    resolve cwd (path.dropWhile fun component => component == .curDir) = resolve cwd path := by
  induction path with
  | nil => rfl
  | cons component path ih =>
      rw [List.dropWhile_cons]
      split
      next hcurDir =>
        rw [ih, beq_iff_eq.mp hcurDir]
        rfl
      next => rfl

/-- A joined path is followed from where the first one leads. -/
theorem resolve_join {path : PathBuf} {other : List UInt8} (h : isAbsolute other = false)
    (cwd : List FileName) :
    resolve cwd (path.join other) = resolve (resolve cwd path) (components other) := by
  rw [PathBuf.join, if_neg (Bool.eq_false_iff.mp h)]
  split
  next hempty =>
    rw [List.isEmpty_iff.mp hempty]
    rfl
  next => rw [resolve_append, resolve_dropWhile_curDir]

/-! ## What normalizing does -/

/-- A root, if any, and names below it. -/
def normalForm (absolute : Bool) (names : List FileName) : PathBuf :=
  (if absolute then [.rootDir] else []) ++ names.map .normal

theorem pop_normalForm (absolute : Bool) (names : List FileName) :
    (normalForm absolute names).pop = normalForm absolute names.dropLast := by
  rcases List.eq_nil_or_concat names with rfl | ⟨names, name, rfl⟩
  · cases absolute with
    | true => rfl
    | false => rfl
  · rw [List.concat_eq_append, List.dropLast_concat]
    unfold normalForm PathBuf.pop
    rw [List.map_append, List.map_singleton, ← List.append_assoc, List.getLast?_concat]
    exact List.dropLast_concat

theorem push_normalForm (absolute : Bool) (names : List FileName) (name : FileName) :
    (normalForm absolute names).push (.normal name) = normalForm absolute (names ++ [name]) := by
  rw [normalForm, normalForm, List.map_append, ← List.append_assoc]
  rfl

/-- After the root, normalizing follows the path, with nothing above where it starts. -/
theorem foldl_normalizeStep (absolute : Bool) {path : PathBuf} (h : .rootDir ∉ path)
    (names : List FileName) :
    path.foldl normalizeStep (normalForm absolute names) =
      normalForm absolute (resolve names path) := by
  induction path generalizing names with
  | nil => rfl
  | cons component path ih =>
      rw [List.mem_cons, not_or] at h
      rw [List.foldl_cons, resolve_cons]
      cases component with
      | rootDir => exact absurd rfl h.1
      | curDir => exact ih h.2 names
      | parentDir =>
          rw [normalizeStep, pop_normalForm]
          exact ih h.2 _
      | normal name =>
          rw [normalizeStep, push_normalForm]
          · exact ih h.2 _
          · exact nofun
          · exact nofun

theorem lexicalNormalize_eq {absolute : Bool} {path : PathBuf} (h : Rooted absolute path) :
    lexicalNormalize path = normalForm absolute (resolve [] path) := by
  cases h with
  | relative hpath => exact foldl_normalizeStep false hpath []
  | absolute hpath => exact foldl_normalizeStep true hpath []

theorem rooted_normalForm (absolute : Bool) (names : List FileName) :
    Rooted absolute (normalForm absolute names) := by
  have hnames : .rootDir ∉ names.map Component.normal := by simp
  cases absolute with
  | true => exact Rooted.absolute hnames
  | false => exact Rooted.relative hnames

/-- A normal form denotes its names, below the current directory when it is relative. -/
theorem resolve_normalForm (cwd : List FileName) (absolute : Bool) (names : List FileName) :
    resolve cwd (normalForm absolute names) = (if absolute then [] else cwd) ++ names := by
  cases absolute with
  | true => exact resolve_map_normal [] names
  | false => exact resolve_map_normal cwd names

theorem normalForm_prefix_iff {absolute : Bool} {names names' : List FileName} :
    normalForm absolute names <+: normalForm absolute names' ↔ names <+: names' := by
  have hnames : ∀ names : List FileName,
      (names.map Component.normal).filterMap Component.name? = names := by
    intro names
    rw [List.filterMap_map]
    exact List.filterMap_some
  rw [normalForm, normalForm, List.prefix_append_right_inj]
  apply Iff.intro
  · intro h
    have hfilter := h.filterMap Component.name?
    rwa [hnames, hnames] at hfilter
  · exact fun h => h.map Component.normal

/-! ## When the guard confines -/

/-- What is accepted, for a candidate that does not replace the root. -/
theorem confineTo_relative {root candidate : List UInt8} {confined : PathBuf}
    (h : confineTo root candidate = .ok confined) (hcandidate : isAbsolute candidate = false) :
    confined = normalForm (isAbsolute root)
        (resolve (resolve [] (components root)) (components candidate)) ∧
      resolve [] (components root) <+:
        resolve (resolve [] (components root)) (components candidate) := by
  have hjoin := (rooted_normalForm (isAbsolute root) (resolve [] (components root))).join hcandidate
  have hresolve : resolve [] (normalForm (isAbsolute root) (resolve [] (components root))) =
      resolve [] (components root) := by
    rw [resolve_normalForm, ite_self, List.nil_append]
  unfold confineTo at h
  rw [lexicalNormalize_eq (rooted_components root)] at h
  dsimp only at h
  rw [lexicalNormalize_eq hjoin, resolve_join hcandidate, hresolve] at h
  split at h
  next hwithin =>
    cases h
    exact ⟨rfl, normalForm_prefix_iff.mp (List.isPrefixOf_iff_prefix.mp hwithin)⟩
  next => cases h

/-- What is accepted, for a candidate that replaces the root. -/
theorem confineTo_absolute {root candidate : List UInt8} {confined : PathBuf}
    (h : confineTo root candidate = .ok confined) (hcandidate : isAbsolute candidate) :
    confined = normalForm true (resolve [] (components candidate)) ∧
      normalForm (isAbsolute root) (resolve [] (components root)) <+: confined := by
  have hrooted := rooted_components candidate
  rw [hcandidate] at hrooted
  unfold confineTo at h
  rw [lexicalNormalize_eq (rooted_components root)] at h
  dsimp only at h
  rw [PathBuf.join, if_pos hcandidate, lexicalNormalize_eq hrooted] at h
  split at h
  next hwithin =>
    cases h
    exact ⟨rfl, List.isPrefixOf_iff_prefix.mp hwithin⟩
  next => cases h

/-- The current directory does not matter to an absolute path. -/
theorem resolve_absolute {path : List UInt8} (h : isAbsolute path) (cwd : List FileName) :
    resolve cwd (components path) = resolve [] (components path) := by
  have hrooted := rooted_components path
  rw [h] at hrooted
  cases hpath : components path with
  | nil =>
      rw [hpath] at hrooted
      cases hrooted
  | cons component rest =>
      rw [hpath] at hrooted
      cases hrooted
      rfl

instance : Infinite FileName := by
  have hname : ∀ n : Nat, IsFileName (List.replicate (n + 1) 0x61) := by
    intro n
    have hmem : ∀ byte ∈ List.replicate (n + 1) (0x61 : UInt8), byte = 0x61 :=
      fun _ => List.eq_of_mem_replicate
    refine ⟨List.cons_ne_nil _ _, ?_, ?_, ?_⟩
    · intro hslash
      exact absurd (hmem _ hslash) (by decide)
    · intro heq
      exact absurd (hmem dot (heq ▸ List.mem_cons_self)) (by decide)
    · intro heq
      exact absurd (hmem dot (heq ▸ List.mem_cons_self)) (by decide)
  refine Infinite.of_injective (fun n => (⟨_, hname n⟩ : FileName)) fun m n heq => ?_
  have hlength := congrArg (fun name : FileName => name.1.length) heq
  simp only [List.length_replicate] at hlength
  omega

/-- A root and a candidate that, followed one after the other, climb above where they
start are confined to nothing. -/
theorem not_confines_of_climbs {root candidate : List UInt8} {confined : PathBuf}
    (h : confineTo root candidate = .ok confined) (hroot : isAbsolute root = false)
    (hstays : stays 0 (components root ++ components candidate) = false) :
    ¬ Confines root candidate confined := by
  intro hconfines
  obtain ⟨name, hname⟩ := exists_fresh (components root ++ components candidate)
  cases hcandidate : isAbsolute candidate with
  | false =>
      obtain ⟨heq, _⟩ := confineTo_relative h hcandidate
      have hlocation := (hconfines [name]).2
      rw [resolve_join hcandidate, ← resolve_append, heq, hroot, resolve_normalForm] at hlocation
      have hmem : name ∈ resolve [name] (components root ++ components candidate) := by
        rw [← hlocation]
        exact List.mem_cons_self
      exact @notMem_resolve _ _ [] _ hstays List.not_mem_nil hname hmem
  | true =>
      -- a root deep enough in the current directory keeps a name of it
      obtain ⟨heq, _⟩ := confineTo_absolute h hcandidate
      have hrooted := rooted_components root
      rw [hroot] at hrooted
      cases hrooted with
      | relative hrootDir =>
          have hdepth : stays (List.replicate (components root).length name).length
              (components root) := by
            rw [List.length_replicate]
            exact stays_of_length_le hrootDir (Nat.le_refl _)
          have hinside :=
            (hconfines ([name] ++ List.replicate (components root).length name)).1
          rw [resolve_of_stays hdepth, heq, resolve_normalForm, if_pos rfl, List.nil_append]
            at hinside
          have hmem : name ∈ resolve [] (components candidate) :=
            hinside.subset List.mem_cons_self
          rcases mem_resolve hmem with hnil | hnormal
          · exact absurd hnil List.not_mem_nil
          · exact hname (List.mem_append_right _ hnormal)

theorem confines_of_absolute {root candidate : List UInt8} {confined : PathBuf}
    (h : confineTo root candidate = .ok confined) (hroot : isAbsolute root) :
    Confines root candidate confined := by
  intro cwd
  rw [resolve_absolute hroot]
  cases hcandidate : isAbsolute candidate with
  | false =>
      obtain ⟨heq, hwithin⟩ := confineTo_relative h hcandidate
      rw [heq, hroot, resolve_normalForm, if_pos rfl, List.nil_append, resolve_join hcandidate,
        resolve_absolute hroot cwd]
      exact ⟨hwithin, rfl⟩
  | true =>
      obtain ⟨heq, hwithin⟩ := confineTo_absolute h hcandidate
      rw [heq, hroot, normalForm_prefix_iff] at hwithin
      rw [heq, resolve_normalForm, if_pos rfl, List.nil_append, PathBuf.join, if_pos hcandidate,
        resolve_absolute hcandidate cwd]
      exact ⟨hwithin, rfl⟩

theorem confines_of_stays {root candidate : List UInt8} {confined : PathBuf}
    (h : confineTo root candidate = .ok confined) (hroot : isAbsolute root = false)
    (hstays : stays 0 (components root ++ components candidate)) :
    Confines root candidate confined := by
  have hcandidate : isAbsolute candidate = false := by
    cases hcandidate : isAbsolute candidate with
    | false => rfl
    | true =>
        have hrooted := rooted_components candidate
        rw [hcandidate] at hrooted
        have hmem : .rootDir ∈ components candidate := by
          cases hpath : components candidate with
          | nil =>
              rw [hpath] at hrooted
              cases hrooted
          | cons component rest =>
              rw [hpath] at hrooted
              cases hrooted
              exact List.mem_cons_self
        rw [stays_of_rootDir_mem (List.mem_append_right _ hmem)] at hstays
        cases hstays
  obtain ⟨heq, hwithin⟩ := confineTo_relative h hcandidate
  have hlocation : ∀ cwd, resolve cwd (components root) = cwd ++ resolve [] (components root) := by
    intro cwd
    have hbelow := @resolve_of_stays _ (components root) [] (stays_of_append hstays) cwd
    rwa [List.append_nil] at hbelow
  have hjoined : ∀ cwd, resolve cwd (components root ++ components candidate) =
      cwd ++ resolve [] (components root ++ components candidate) := by
    intro cwd
    have hbelow := @resolve_of_stays _ _ [] hstays cwd
    rwa [List.append_nil] at hbelow
  intro cwd
  rw [resolve_join hcandidate, ← resolve_append, hjoined, heq, hroot, resolve_normalForm,
    if_neg Bool.false_ne_true, hlocation, ← resolve_append]
  rw [← resolve_append] at hwithin
  exact ⟨(List.prefix_append_right_inj cwd).mpr hwithin, rfl⟩

/-- An accepted path is confined exactly when the root is absolute, or the root and the
candidate have no root and never climb above where they start. Both are arbitrary bytes,
and the paths are read from every current directory. -/
theorem confineTo_confines_iff {root candidate : List UInt8} {confined : PathBuf}
    (h : confineTo root candidate = .ok confined) :
    Confines root candidate confined ↔
      isAbsolute root ∨ stays 0 (components root ++ components candidate) := by
  cases hroot : isAbsolute root with
  | true => exact iff_of_true (confines_of_absolute h hroot) (Or.inl rfl)
  | false =>
      cases hstays : stays 0 (components root ++ components candidate) with
      | true => exact iff_of_true (confines_of_stays h hroot hstays) (Or.inr rfl)
      | false => exact iff_of_false (not_confines_of_climbs h hroot hstays) (by simp)

theorem confineTo_confines_iff_relative :
    ∃ confined, confineTo (encode "out".toList) (encode "a/../b".toList) = .ok confined ∧
      (Confines (encode "out".toList) (encode "a/../b".toList) confined ↔
        isAbsolute (encode "out".toList) ∨
          stays 0 (components (encode "out".toList) ++ components (encode "a/../b".toList))) := by
  have haccepted : ∃ confined, confineTo (encode "out".toList) (encode "a/../b".toList) =
      .ok confined := ⟨_, rfl⟩
  obtain ⟨confined, hconfined⟩ := haccepted
  exact ⟨confined, hconfined, confineTo_confines_iff hconfined⟩

/-- The candidate is accepted and is not confined. -/
def Escapes (root candidate : String) : Prop :=
  ∃ confined, confineTo (encode root.toList) (encode candidate.toList) = .ok confined ∧
    ¬ Confines (encode root.toList) (encode candidate.toList) confined

/-- An absolute candidate, one that climbs out of the current directory, one that comes
back by another way, and a root above the current directory. -/
theorem confineTo_escapes :
    Escapes "." "/etc/passwd" ∧ Escapes "" "../x" ∧ Escapes "a" "../../a/x" ∧
      Escapes "../a" "b" :=
  ⟨⟨_, rfl, not_confines_of_climbs rfl rfl rfl⟩, ⟨_, rfl, not_confines_of_climbs rfl rfl rfl⟩,
    ⟨_, rfl, not_confines_of_climbs rfl rfl rfl⟩, ⟨_, rfl, not_confines_of_climbs rfl rfl rfl⟩⟩

end HabitatGraph
