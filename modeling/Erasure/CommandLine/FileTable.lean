import Erasure.CommandLine.Path

/-!
A working directory with its files and directories as a value.
-/

namespace Erasure.CommandLine

/-- Files and directories by their names from the working directory on. -/
structure FileTable where
  files : List (List String × String) := []
  directories : List (List String) := []

/-- A directory: one below the working directory, or some other, of which the table knows
nothing. -/
inductive Place where
  | inside (names : List String)
  | outside

namespace FileTable

def isDirectory (t : FileTable) (names : List String) : Bool :=
  names.isEmpty || t.directories.contains names ||
    t.files.any fun (file, _) => names.isPrefixOf file && names != file

def isFile (t : FileTable) (names : List String) : Bool :=
  t.files.any fun (file, _) => file == names

/-- Whether a name leads to a directory whatever the table holds. -/
def isStep (name : String) : Bool := name = "" || name = "." || name = ".."

/-- Go along a name that leads to a directory whatever the table holds. -/
def Place.along : Place → String → Place
  | .inside [], ".." => .outside
  | .inside names, ".." => .inside names.dropLast
  | place, _ => place

/-- Where a path starts. -/
def origin (path : String) : Place := if path.startsWith "/" then .outside else .inside []

/-- Go to the directory of the given names. -/
def goTo (t : FileTable) : Place → List String → Option Place
  | place, [] => some place
  | .outside, _ => some .outside
  | .inside here, name :: names =>
      if isStep name then t.goTo (Place.along (.inside here) name) names
      else if t.isDirectory (here ++ [name]) then t.goTo (.inside (here ++ [name])) names
      else none

/-- Go to the directory of the given names and create what is missing on the way. -/
def create (t : FileTable) : Place → List String → Option FileTable
  | _, [] | .outside, _ => some t
  | .inside here, name :: names =>
      if isStep name then t.create (Place.along (.inside here) name) names
      else
        let next := here ++ [name]
        if t.isFile next then none
        else if t.isDirectory next then t.create (.inside next) names
        else { t with directories := next :: t.directories }.create (.inside next) names

/-- Where the file of a path lies, if its directory exists and the path does not name a
directory. -/
def locate? (t : FileTable) (path : String) : Option (Place × String) := do
  let names := Path.names path
  let name ← names.getLast?
  let place ← t.goTo (origin path) names.dropLast
  guard (!isStep name)
  return (place, name)

/-- The text of a file. -/
def read? (t : FileTable) (path : String) : Option String :=
  match t.locate? path with
  | some (.inside here, name) => (t.files.find? fun (file, _) => file == here ++ [name]).map (·.2)
  | _ => none

/-- Create a directory and those that it lies in. -/
def createDirectory? (t : FileTable) (path : String) : Option FileTable :=
  t.create (origin path) (Path.names path)

/-- Write a file. What is written outside is not kept. -/
def write? (t : FileTable) (path text : String) : Option FileTable :=
  match t.locate? path with
  | some (.inside here, name) =>
      let names := here ++ [name]
      if t.isDirectory names then none
      else some { t with files := t.files.filter (·.1 != names) ++ [(names, text)] }
  | some (.outside, _) => some t
  | none => none

/-- A table of files given by their paths. -/
def ofList (files : List (String × String)) : FileTable :=
  { files := files.map fun (path, text) =>
      ((Path.names path).filter fun name => name != "" && name != ".", text) }

/-- The files by their paths. -/
def toList (t : FileTable) : List (String × String) :=
  t.files.map fun (names, text) => ("/".intercalate names, text)

end FileTable
end Erasure.CommandLine
