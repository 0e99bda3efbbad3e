import HabitatGraph.Foundation.Splitting

/-! # Names of files

The last component of a path, and its parts before and after the last dot. A name that
begins with its only dot has no extension.
-/

namespace HabitatGraph

open Splitting

/-- The last component, unless it is the root, `.` or `..`. -/
def fileName (path : List Char) : Option (List Char) :=
  match ((path.splitOn '/').filter fun name => name ≠ [] ∧ name ≠ ['.']).getLast? with
  | some ['.', '.'] => none
  | name => name

/-- The name without its extension. -/
def fileStem (path : List Char) : Option (List Char) :=
  (fileName path).map fun name =>
    match splitLast? '.' name with
    | some (before, _) => if before.isEmpty then name else before
    | none => name

/-- What follows the last dot of the name. -/
def fileExtension (path : List Char) : Option (List Char) :=
  (fileName path).bind fun name =>
    (splitLast? '.' name).bind fun parts => if parts.1.isEmpty then none else some parts.2

end HabitatGraph
