import MathKernel.Data.Closure
import MathKernel.Kernel.Emission
import MathKernel.Kernel.Dependencies
import MathKernel.Kernel.Folding

/-!
# Kernels of a unit

File-level variables on a given list, and those without an initializer, are variables; every
other one is a constant and must fold to numbers. Functions are emitted for both families.
Prototypes and declarations of what is defined elsewhere give no kernel.

## Main definitions

* `ExtractConfig`, `ExtractError`.
* `retainReachable`: the kernels that a list of exports leads to.
* `SourceUnit.extract`: the kernels of a unit, in order.
-/

namespace MathKernel

/-- What to take from a unit. -/
structure ExtractConfig where
  /-- Variables that change, though they are initialized. -/
  vars : List String := ["sgngamf"]
  /-- If given, the names whose kernels are kept, with all they lead to. -/
  exports : Option (List String) := none

/-- Why a unit has no kernels. -/
inductive ExtractError where
  | value (name : String) (cause : FoldError)
  | code (cause : EmitError)
  deriving DecidableEq, Repr

/-- What the error says. -/
def ExtractError.message : ExtractError → String
  | value name .notConstant => "initializer of '" ++ name ++ "' is not a constant expression"
  | value name .unsizedArray =>
    "'" ++ name ++ "' cannot be exported: array without a size or initializer"
  | value name .infinite => "'" ++ name ++ "' cannot be exported: initializer is infinite"
  | code cause => cause.message

/-! ### Reduction to exports -/

/-- What the kernel of a name refers to among the names of the kernels. Of two kernels of one
name the last counts. -/
def kernelSuccessors (kernels : List Kernel) (name : String) : List String :=
  match kernels.reverse.find? (·.name == name) with
  | some k => k.references.filter fun n => kernels.any (·.name == n)
  | none => []

/-- The names that exports lead to. -/
def reachableNames (exports : List String) (kernels : List Kernel) : List String :=
  closure (kernelSuccessors kernels) kernels.length
    (exports.filter fun n => kernels.any (·.name == n))

/-- The kernels that exports lead to. -/
def retainReachable (exports : List String) (kernels : List Kernel) : List Kernel :=
  let kept := reachableNames exports kernels
  kernels.filter fun k => kept.contains k.name

/-! ### Extraction -/

/-- The variable that an item declares. -/
def Item.global? : Item → Option Decl
  | .decl d => if d.isFunction then none else some d
  | .func _ => none

/-- The file-level variables of a unit, without functions. -/
def SourceUnit.globals (u : SourceUnit) : List Decl :=
  u.items.filterMap Item.global?

/-- Whether a declaration makes its name a variable. -/
def Decl.isVariable (listed : List String) (d : Decl) : Bool :=
  (d.name.map listed.contains).getD false || (d.init.isNone && !d.isExternal)

/-- The names at file level; a name is a variable if one of its declarations says so. -/
def SourceUnit.globalNames (listed : List String) (u : SourceUnit) : GlobalNames where
  constants := (u.globals.filter fun d => !d.isVariable listed).filterMap Decl.name
  vars := (u.globals.filter (Decl.isVariable listed)).filterMap Decl.name

/-- The record of a parameter. -/
def Decl.toArg (index : Nat) (p : Decl) : KernelArg where
  name := p.argName index
  type := p.scalar
  index := index
  arrayLen := p.arrayLen?

/-- The record of a function. -/
def FuncDef.toKernel (globals : GlobalNames) (f : FuncDef) : Except EmitError FunctionKernel := do
  let shader ← f.emit .shader
  let scalar ← f.emit .scalar
  return { name := f.name, args := f.params.mapIdx Decl.toArg, returnType := f.returnType,
           deps := f.dependencies globals, shader := some shader, scalar := some scalar }

/-- The kernels of items in order, with the constants met so far. -/
def extractItems (globals : GlobalNames) :
    KnownConstants Binary64 → List Item → Except ExtractError (List Kernel)
  | _, [] => .ok []
  | known, .func f :: rest => do
    let kernel ← (f.toKernel globals).mapError .code
    let kernels ← extractItems globals known rest
    return .function kernel :: kernels
  | known, .decl d :: rest =>
    if d.isFunction || d.isExternal then extractItems globals known rest
    else
      match d.name with
      | none => extractItems globals known rest
      | some name => do
        let value ← (d.foldValue known name).mapError (.value name)
        if globals.vars.contains name then
          let kernels ← extractItems globals known rest
          return .var value :: kernels
        else
          let kernels ← extractItems globals ((name, value.value) :: known) rest
          return .constant value :: kernels

/-- The kernels of a normalized unit. -/
def SourceUnit.extract (config : ExtractConfig) (u : SourceUnit) :
    Except ExtractError (List Kernel) := do
  let kernels ← extractItems (u.globalNames config.vars) [] u.items
  return match config.exports with
    | some exports => retainReachable exports kernels
    | none => kernels

end MathKernel
