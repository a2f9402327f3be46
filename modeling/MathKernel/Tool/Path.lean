/-!
# File paths

Paths are texts with parts divided by slashes. Empty parts and `.` stand for the place they are
at, `..` for the one above.

## Main definitions

* `Path.fileName?`, `Path.join`, `Path.ancestors`.
* `Path.unitName`: the name of the unit that a dump file holds.
-/

namespace MathKernel

namespace Path

/-- The parts of a path, empty ones included. -/
def parts (path : String) : List String :=
  path.splitOn "/"

/-- Whether a path starts at the root. -/
def isAbsolute (path : String) : Bool :=
  path.startsWith "/"

/-- The parts that name something. -/
def names (path : String) : List String :=
  (parts path).filter fun p => p != "" && p != "."

/-- The last name of a path, unless the path ends above something. -/
def fileName? (path : String) : Option String :=
  (names path).getLast?.filter (· != "..")

/-- A file in a directory. -/
def join (dir name : String) : String :=
  if dir.isEmpty || dir.endsWith "/" then dir ++ name else dir ++ "/" ++ name

/-- The absolute path with the given names. -/
def ofNames (names : List String) : String :=
  "/" ++ "/".intercalate names

/-- An absolute directory and the ones above it, up to the root. -/
def ancestors (dir : String) : List String :=
  let names := names dir
  (List.range (names.length + 1)).map fun n => ofNames (names.take (names.length - n))

/-- The path of the directory that holds the last name of a path, the directory that holds that
one, and so on; of a relative path, only those that have a name. -/
def parents (path : String) : List String :=
  let names := names path
  let ofPrefix (n : Nat) : String :=
    if isAbsolute path then ofNames (names.take n) else "/".intercalate (names.take n)
  ((List.range names.length).reverse.filter fun n => isAbsolute path || 0 < n).map ofPrefix

/-- A text without a given ending, if it has it. -/
def dropEnding (ending text : String) : String :=
  if text.endsWith ending then String.ofList (text.toList.take (text.length - ending.length))
  else text

/-- The name of the unit in a dump file: the file's name without `.json` and then `.ast` at its
end. -/
def unitName (path : String) : String :=
  dropEnding ".ast" (dropEnding ".json" ((fileName? path).getD ""))

end Path

end MathKernel
