import MathKernel.Data.NameMap
import MathKernel.Tool.Path

/-!
# What the tool asks of its surroundings

Commands read and write files through a `Host`, in any monad. A `Disk` is a host that lives in
memory, so a whole run is a plain function on it.

## Main definitions

* `Host`: the operations.
* `Disk`, `Disk.host`: files in memory.
-/

namespace MathKernel

/-- Why a file operation failed. -/
structure HostError where
  /-- What the system says. -/
  text : String
  /-- Whether there is no file under the path. -/
  absent : Bool

/-- The operations that commands use. -/
structure Host (m : Type → Type) where
  read : String → m (Except HostError String)
  /-- Write a file, over one that was there. -/
  write : String → String → m (Except HostError Unit)
  /-- Make a directory and those above it that are missing. -/
  createDirs : String → m (Except HostError Unit)
  /-- A clock in milliseconds. -/
  clock : m Nat

/-! ### Files in memory -/

/-- The failures of a disk. -/
inductive DiskError where
  | notFound
  | occupied
  | notADirectory
  | isADirectory
  deriving DecidableEq, Repr

/-- The system's number for a failure. -/
def DiskError.code : DiskError → Nat
  | notFound => 2
  | occupied => 17
  | notADirectory => 20
  | isADirectory => 21

/-- What is found under a path. -/
inductive DiskEntry where
  | file (text : String)
  | dir
  deriving DecidableEq, Repr

/-- Files and directories by absolute path; the root is always there. -/
abbrev Disk := NameMap DiskEntry

namespace Disk

/-- What is found at a place, given by its names from the root. -/
def entry? (d : Disk) (place : List String) : Option DiskEntry :=
  if place = [] then some .dir else d.get? (Path.ofNames place)

/-- Put a file or directory at a place. -/
def put (d : Disk) (place : List String) (entry : DiskEntry) : Disk :=
  d.insert (Path.ofNames place) entry

/-- Check that a place is a directory. -/
def checkDir (d : Disk) (place : List String) : Except DiskError Unit :=
  match d.entry? place with
  | some .dir => .ok ()
  | some (.file _) => .error .notADirectory
  | none => .error .notFound

/-- Follow the parts of a path from a place. Every place that is left must be a directory; the
last one need not be there. -/
def follow (d : Disk) : List String → List String → Except DiskError (List String)
  | place, [] => .ok place
  | place, part :: rest => do
    d.checkDir place
    if part = "" ∨ part = "." then d.follow place rest
    else if part = ".." then d.follow place.dropLast rest
    else d.follow (place ++ [part]) rest

/-- Where a path starts, for a working directory. -/
def start (cwd : List String) (path : String) : List String :=
  if Path.isAbsolute path then [] else cwd

/-- The place of a path. -/
def locate (d : Disk) (cwd : List String) (path : String) : Except DiskError (List String) :=
  if path.isEmpty then .error .notFound
  else d.follow (start cwd path) (Path.parts path)

/-- Read a file. -/
def read (d : Disk) (cwd : List String) (path : String) : Except DiskError String := do
  let place ← d.locate cwd path
  match d.entry? place with
  | some (.file text) => .ok text
  | some .dir => .error .isADirectory
  | none => .error .notFound

/-- Write a file. A path that ends in no name means a directory. -/
def write (d : Disk) (cwd : List String) (path text : String) : Except DiskError Disk := do
  if path.isEmpty then .error .notFound
  else
    let parts := Path.parts path
    let place ← d.follow (start cwd path) parts.dropLast
    d.checkDir place
    let name := parts.getLast?.getD ""
    if name = "" ∨ name = "." ∨ name = ".." then .error .isADirectory
    else
      match d.entry? (place ++ [name]) with
      | some .dir => .error .isADirectory
      | _ => .ok (d.put (place ++ [name]) (.file text))

/-- Whether a path leads to a directory. -/
def isDir (d : Disk) (cwd : List String) (path : String) : Bool :=
  match d.locate cwd path with
  | .ok place => d.entry? place = some .dir
  | .error _ => false

/-- Make one directory. Slashes at the end of its path say nothing, but a path that ends in no
name is taken by what is there. -/
def makeDir (d : Disk) (cwd : List String) (path : String) : Except DiskError Disk := do
  let parts := ((Path.parts path).reverse.dropWhile (· == "")).reverse
  let place ← d.follow (start cwd path) parts.dropLast
  d.checkDir place
  let name := parts.getLast?.getD ""
  if name = "" ∨ name = "." ∨ name = ".." then .error .occupied
  else
    match d.entry? (place ++ [name]) with
    | some _ => .error .occupied
    | none => .ok (d.put (place ++ [name]) .dir)

/-- Make a directory, and if something above it is missing, first the directories above it. What
is a directory already is left alone. Directories that were made stay if a later one fails. -/
def makeDirs (cwd : List String) : String → List String → Disk → Except DiskError Unit × Disk
  | path, above, d =>
    let settle (e : DiskError) (d : Disk) : Except DiskError Unit × Disk :=
      (if d.isDir cwd path then .ok () else .error e, d)
    match d.makeDir cwd path, above with
    | .ok d', _ => (.ok (), d')
    | .error .notFound, parent :: rest =>
      match makeDirs cwd parent rest d with
      | (.error e, d) => (.error e, d)
      | (.ok (), d) =>
        match d.makeDir cwd path with
        | .ok d' => (.ok (), d')
        | .error e => settle e d
    | .error e, _ => settle e d

/-- Make a directory and those above it that are missing. -/
def createDirs (cwd : List String) (path : String) (d : Disk) : Except DiskError Unit × Disk :=
  makeDirs cwd path (Path.parents path) d

/-- The files by path. -/
def files (d : Disk) : List (String × String) :=
  d.entries.filterMap fun
    | (path, .file text) => some (path, text)
    | (_, .dir) => none

/-- A disk with the given files, and the directories they are in. -/
def ofFiles (files : List (String × String)) : Except DiskError Disk :=
  files.foldlM
    (fun d (path, text) =>
      match createDirs [] (Path.ofNames (Path.names path).dropLast) d with
      | (.ok (), d) => d.write [] path text
      | (.error e, _) => .error e)
    NameMap.empty

/-- The disk as a host with a working directory. Its clock stands still. -/
def host (cwd : List String) (describe : DiskError → String) : Host (StateM Disk) :=
  let failure (e : DiskError) : HostError := ⟨describe e, e ≠ .occupied⟩
  { read := fun path d => ((d.read cwd path).mapError failure, d)
    write := fun path text d => match d.write cwd path text with
      | .ok d' => (.ok (), d')
      | .error e => (.error (failure e), d)
    createDirs := fun path d =>
      let (result, d') := createDirs cwd path d
      (result.mapError failure, d')
    clock := pure 0 }

end Disk

end MathKernel
