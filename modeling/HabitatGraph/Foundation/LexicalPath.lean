import Mathlib.Data.Fintype.EquivFin

/-! # Paths resolved by their text

A path is a list of components and a location a list of names, from the root of the file
system down. Resolving `.` and `..` by the text alone, from a current directory, gives the
location that a path denotes. A path that never climbs above where it starts denotes the
same location below any current directory; one that does leaves every directory that its
names do not mention.
-/

namespace LexicalPath

/-- A component of a path. -/
inductive Component (α : Type*)
  | rootDir
  | curDir
  | parentDir
  | normal (name : α)
deriving DecidableEq, Repr

variable {α : Type*}

def Component.name? : Component α → Option α
  | .normal name => some name
  | _ => none

/-- Go one component further; the root is its own parent. -/
def follow (location : List α) : Component α → List α
  | .rootDir => []
  | .curDir => location
  | .parentDir => location.dropLast
  | .normal name => location ++ [name]

/-- The location that a path denotes from a current directory. -/
def resolve (cwd : List α) (path : List (Component α)) : List α := path.foldl follow cwd

/-- The path has no root and never climbs above where it starts, given how deep below
that it is. -/
def stays : Nat → List (Component α) → Bool
  | _, [] => true
  | _, .rootDir :: _ => false
  | depth, .curDir :: path => stays depth path
  | 0, .parentDir :: _ => false
  | depth + 1, .parentDir :: path => stays depth path
  | depth, .normal _ :: path => stays (depth + 1) path

theorem resolve_append (cwd : List α) (path rest : List (Component α)) :
    resolve cwd (path ++ rest) = resolve (resolve cwd path) rest := List.foldl_append

theorem resolve_cons (cwd : List α) (component : Component α) (path : List (Component α)) :
    resolve cwd (component :: path) = resolve (follow cwd component) path := rfl

/-- Names lead down. -/
theorem resolve_map_normal (cwd names : List α) :
    resolve cwd (names.map .normal) = cwd ++ names := by
  induction names generalizing cwd with
  | nil => exact (List.append_nil cwd).symm
  | cons name names ih =>
      rw [List.map_cons, resolve_cons, ih, follow, List.append_assoc, List.singleton_append]

/-- What is above the current directory does not matter to a path that stays below. -/
theorem resolve_of_stays {path : List (Component α)} {below : List α}
    (h : stays below.length path) (above : List α) :
    resolve (above ++ below) path = above ++ resolve below path := by
  induction path generalizing below with
  | nil => rfl
  | cons component path ih =>
      rw [resolve_cons, resolve_cons]
      cases component with
      | rootDir => cases h
      | curDir => exact ih h
      | normal name =>
          have hlength : (below ++ [name]).length = below.length + 1 := List.length_append
          rw [follow, follow, List.append_assoc]
          apply ih
          rw [hlength]
          exact h
      | parentDir =>
          cases below with
          | nil => cases h
          | cons first below =>
              have hne : first :: below ≠ [] := List.cons_ne_nil first below
              have hlength : (first :: below).dropLast.length = below.length :=
                List.length_dropLast
              rw [follow, follow, List.dropLast_append_of_ne_nil hne]
              apply ih
              rw [hlength]
              exact h

/-- A path leads to names of the current directory and its own. -/
theorem mem_resolve {path : List (Component α)} {cwd : List α} {name : α}
    (h : name ∈ resolve cwd path) : name ∈ cwd ∨ .normal name ∈ path := by
  induction path generalizing cwd with
  | nil => exact Or.inl h
  | cons component path ih =>
      rw [resolve_cons] at h
      rcases ih h with hfollow | hpath
      · cases component with
        | rootDir => exact absurd hfollow List.not_mem_nil
        | curDir => exact Or.inl hfollow
        | parentDir => exact Or.inl (List.mem_of_mem_dropLast hfollow)
        | normal other =>
            rcases List.mem_append.mp hfollow with hcwd | hother
            · exact Or.inl hcwd
            · rw [List.mem_singleton.mp hother]
              exact Or.inr List.mem_cons_self
      · exact Or.inr (List.mem_cons_of_mem _ hpath)

/-- A name that the path does not mention is not below the root. -/
theorem notMem_resolve_nil {path : List (Component α)} {name : α} (hpath : .normal name ∉ path) :
    name ∉ resolve [] path := by
  intro hmem
  rcases mem_resolve hmem with hnil | hrest
  · exact absurd hnil List.not_mem_nil
  · exact hpath hrest

/-- A path that does not stay leaves the directory it starts in. -/
theorem notMem_resolve {path : List (Component α)} {below : List α} {name : α}
    (h : stays below.length path = false) (hbelow : name ∉ below) (hpath : .normal name ∉ path) :
    name ∉ resolve (name :: below) path := by
  induction path generalizing below with
  | nil => cases h
  | cons component path ih =>
      rw [List.mem_cons, not_or] at hpath
      rw [resolve_cons]
      cases component with
      | rootDir => exact notMem_resolve_nil hpath.2
      | curDir => exact ih h hbelow hpath.2
      | normal other =>
          have hlength : (below ++ [other]).length = below.length + 1 := List.length_append
          have hother : name ∉ below ++ [other] := by
            intro hmem
            rcases List.mem_append.mp hmem with hmem | hmem
            · exact hbelow hmem
            · rw [List.mem_singleton.mp hmem] at hpath
              exact hpath.1 rfl
          apply ih _ hother hpath.2
          rw [hlength]
          exact h
      | parentDir =>
          cases below with
          | nil => exact notMem_resolve_nil hpath.2
          | cons first below =>
              have hlength : (first :: below).dropLast.length = below.length :=
                List.length_dropLast
              have hdrop : name ∉ (first :: below).dropLast := fun hmem =>
                hbelow (List.mem_of_mem_dropLast hmem)
              rw [follow, List.dropLast_cons_of_ne_nil (List.cons_ne_nil first below)]
              apply ih _ hdrop hpath.2
              rw [hlength]
              exact h

theorem stays_of_append {path rest : List (Component α)} {depth : Nat}
    (h : stays depth (path ++ rest)) : stays depth path := by
  induction path generalizing depth with
  | nil => rfl
  | cons component path ih =>
      cases component with
      | rootDir => cases h
      | curDir => exact ih h
      | normal name => exact ih h
      | parentDir =>
          cases depth with
          | zero => cases h
          | succ depth => exact ih h

theorem stays_of_rootDir_mem {path : List (Component α)} (h : .rootDir ∈ path) (depth : Nat) :
    stays depth path = false := by
  induction path generalizing depth with
  | nil => exact absurd h List.not_mem_nil
  | cons component path ih =>
      cases component with
      | rootDir => rfl
      | curDir => exact ih (by simpa using h) depth
      | normal name => exact ih (by simpa using h) (depth + 1)
      | parentDir =>
          cases depth with
          | zero => rfl
          | succ depth => exact ih (by simpa using h) depth

/-- A path without a root stays below any directory that is deep enough. -/
theorem stays_of_length_le {path : List (Component α)} (hroot : .rootDir ∉ path) {depth : Nat}
    (hdepth : path.length ≤ depth) : stays depth path := by
  induction path generalizing depth with
  | nil => rfl
  | cons component path ih =>
      rw [List.mem_cons, not_or] at hroot
      rw [List.length_cons] at hdepth
      cases component with
      | rootDir => exact absurd rfl hroot.1
      | curDir => exact ih hroot.2 (by omega)
      | normal name => exact ih hroot.2 (by omega)
      | parentDir =>
          cases depth with
          | zero => omega
          | succ depth => exact ih hroot.2 (by omega)

/-- Some name is not among those of a path. -/
theorem exists_fresh [Infinite α] (path : List (Component α)) : ∃ name, .normal name ∉ path := by
  classical
  obtain ⟨name, hname⟩ := Infinite.exists_notMem_finset (path.filterMap Component.name?).toFinset
  refine ⟨name, fun h => hname ?_⟩
  rw [List.mem_toFinset, List.mem_filterMap]
  exact ⟨.normal name, h, rfl⟩

end LexicalPath
