import Erasure.Text.Basic

/-!
Paths as they are written: names with a slash between them.
-/

namespace Erasure.Path

/-- A path from its end on, without the slashes and the names `.` at its end. -/
def trimReversed : List Char → List Char
  | '/' :: cs => trimReversed cs
  | '.' :: '/' :: cs => trimReversed cs
  | cs => cs

/-- A path without slashes and names `.` at its end. -/
def trimEnd (path : List Char) : List Char := (trimReversed path.reverse).reverse

/-- The last name of a path and what stands before it. -/
def splitLast (path : List Char) : List Char × List Char :=
  let reversed := path.reverse
  ((reversed.dropWhile (· != '/')).reverse, (reversed.takeWhile (· != '/')).reverse)

/-- The directory that a path lies in, empty for a single name. -/
def parent (path : String) : String :=
  String.ofList (trimEnd (splitLast (trimEnd path.toList)).1)

/-- A name before and after its last dot, if something stands before the dot. -/
def splitExtension? (name : List Char) : Option (List Char × List Char) :=
  let reversed := name.reverse
  match reversed.dropWhile (· != '.') with
  | _ :: (c :: stem) =>
      if name = ['.', '.'] then none
      else some ((c :: stem).reverse, (reversed.takeWhile (· != '.')).reverse)
  | _ => none

/-- A path with one extension in place of another, if it has that one. -/
def replaceExtension? (path old new : String) : Option String := do
  let (directory, name) := splitLast (trimEnd path.toList)
  let (stem, extension) ← splitExtension? name
  guard (extension = old.toList)
  return String.ofList (directory ++ stem) ++ "." ++ new

/-- The names of a path in order, also empty ones. -/
def names (path : String) : List String := (Text.splitOn '/' path.toList).map String.ofList

end Erasure.Path
