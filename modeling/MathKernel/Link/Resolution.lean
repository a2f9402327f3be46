import MathKernel.Link.Linker

/-!
# What an entry point needs

The functions that an entry point calls, directly or through others, breadth first, and the
constants and variables that they refer to. A name is listed once; one that was met as a
function, constant or variable is not listed again as another kind.

## Main definitions

* `Resolution`, `LinkError`.
* `Linker.resolve`: the resolution of an entry point.
-/

namespace MathKernel

/-- The names that an entry point needs, in the order in which they are met. -/
structure Resolution where
  functions : List String
  constants : List String
  vars : List String
  deriving DecidableEq, Repr

namespace Resolution

/-- No names. -/
def empty : Resolution := ⟨[], [], []⟩

/-- All names. -/
def names (r : Resolution) : List String :=
  r.functions ++ r.constants ++ r.vars

end Resolution

/-- Why an entry point cannot be linked. -/
inductive LinkError where
  | unknownEntry (name : String)
  | missingFunction (name requiredBy : String)
  | missingConstant (name requiredBy : String)
  | missingVariable (name requiredBy : String)
  /-- The target's family has no code for the entry point. -/
  | missingCode (name : String) (target : Target)
  deriving DecidableEq, Repr

namespace LinkError

/-- The text on a name that is not registered. -/
def missingText (kind name requiredBy : String) : String :=
  kind ++ " '" ++ name ++ "' required by '" ++ requiredBy ++ "' is not registered"

/-- What the error says. -/
def message : LinkError → String
  | unknownEntry name => "entry point '" ++ name ++ "' is not a registered function"
  | missingFunction name requiredBy => missingText "function" name requiredBy
  | missingConstant name requiredBy => missingText "constant" name requiredBy
  | missingVariable name requiredBy => missingText "variable" name requiredBy
  | missingCode name target => "function '" ++ name ++ "' has no " ++ target.name ++ " code"

end LinkError

namespace Linker

/-- Check that all that a function refers to is registered: functions first, then constants,
then variables. -/
def checkDeps (l : Linker) (f : FunctionKernel) (name : String) : Except LinkError Unit :=
  match f.deps.functions.toList.find? (!l.functions.contains ·) with
  | some missing => .error (.missingFunction missing name)
  | none =>
    match f.deps.constants.toList.find? (!l.constants.contains ·) with
    | some missing => .error (.missingConstant missing name)
    | none =>
      match f.deps.vars.toList.find? (!l.vars.contains ·) with
      | some missing => .error (.missingVariable missing name)
      | none => .ok ()

/-- A resolution under way. -/
structure Progress where
  /-- The names met so far, of any kind. -/
  seen : List String
  /-- The functions that are met and not yet visited. -/
  queue : List String
  found : Resolution

/-- Visit a function: note what it refers to and was not met before. -/
def Progress.visit (p : Progress) (name : String) (f : FunctionKernel) : Progress :=
  let functions := f.deps.functions.toList.filter (!p.seen.contains ·)
  let seen := p.seen ++ functions
  let constants := f.deps.constants.toList.filter (!seen.contains ·)
  let seen := seen ++ constants
  let vars := f.deps.vars.toList.filter (!seen.contains ·)
  { seen := seen ++ vars
    queue := p.queue ++ functions
    found :=
      { functions := p.found.functions ++ [name]
        constants := p.found.constants ++ constants
        vars := p.found.vars ++ vars } }

/-- Visit the functions of the queue. None enters the queue twice, so as many steps as there are
functions suffice. -/
def resolveSteps (l : Linker) : Nat → Progress → Except LinkError Resolution
  | 0, p => .ok p.found
  | n + 1, p =>
    match p.queue with
    | [] => .ok p.found
    | name :: rest =>
      match l.function? name with
      | none => l.resolveSteps n { p with queue := rest }
      | some f => do
        l.checkDeps f name
        l.resolveSteps n (Progress.visit { p with queue := rest } name f)

/-- What an entry point needs. -/
def resolve (l : Linker) (entry : String) : Except LinkError Resolution :=
  if l.functions.contains entry then
    l.resolveSteps l.functions.size { seen := [entry], queue := [entry], found := .empty }
  else .error (.unknownEntry entry)

end Linker

end MathKernel
