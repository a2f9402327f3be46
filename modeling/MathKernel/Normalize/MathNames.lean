import MathKernel.Normalize.ErrorCalls

/-!
# Generic names of math functions

The single- and double-precision names of a math function are two aliases of one generic
function. Calls go to the generic name, a definition of such a function shrinks to its
prototype, and of the prototypes of one generic function the first is kept.
-/

namespace MathKernel

/-- The names of math functions, each with the generic function it stands for. -/
def mathAliases : List (String × String) :=
  [("sinf", "sin"), ("sin", "sin"), ("cosf", "cos"), ("cos", "cos"), ("tanf", "tan"),
    ("tan", "tan"), ("asinf", "asin"), ("asin", "asin"), ("acosf", "acos"), ("acos", "acos"),
    ("atanf", "atan"), ("atan", "atan"), ("atan2f", "atan"), ("atan2", "atan"), ("expf", "exp"),
    ("exp", "exp"), ("logf", "log"), ("log", "log"), ("sqrtf", "sqrt"), ("sqrt", "sqrt"),
    ("powf", "pow"), ("pow", "pow"), ("fabsf", "abs"), ("fabs", "abs"), ("floorf", "floor"),
    ("floor", "floor"), ("ceilf", "ceil"), ("ceil", "ceil"), ("fminf", "min"), ("fmin", "min"),
    ("fmaxf", "max"), ("fmax", "max"), ("abs", "abs"), ("min", "min"), ("max", "max")]

/-- The generic function that a name stands for. -/
def genericMath? (name : String) : Option String :=
  mathAliases.lookup name

/-- Turn an item with a math function's name into a prototype under the generic name; a variable
of that name stays. -/
def Item.toGenericMath (item : Item) : Item × Tally :=
  match item.name?.bind genericMath? with
  | none => (item, .zero)
  | some generic =>
    let (d, removed) := match item with
      | .decl d => (d, 0)
      | .func f => (f.prototype, 1)
    if d.isFunction && d.name != some generic then
      (.decl (d.rename generic), ⟨1, 0, removed⟩)
    else (.decl d, ⟨0, 0, removed⟩)

/-- The generic math function that an item declares. -/
def Item.genericPrototype? : Item → Option String
  | .decl d =>
    if d.isFunction then d.name.filter fun name => genericMath? name == some name else none
  | .func _ => none

/-- Keep the first prototype of each generic math function. -/
def keepFirstPrototypes (seen : List String) : List Item → List Item
  | [] => []
  | item :: rest =>
    match item.genericPrototype? with
    | none => item :: keepFirstPrototypes seen rest
    | some name =>
      if seen.contains name then keepFirstPrototypes seen rest
      else item :: keepFirstPrototypes (name :: seen) rest

/-- A call of a math function under its generic name, if it has another one. -/
def Expr.toGenericCall? : Expr → Option Expr
  | .call callee args c =>
    match genericMath? callee with
    | some generic => if callee = generic then none else some (.call generic args c)
    | none => none
  | _ => none

/-- Send the calls of a body to the generic functions. -/
def Block.toGenericCalls (b : Block) : Block × Tally :=
  let result := b.bottomUpM (Counted.replace Expr.toGenericCall?)
  (result.value, .ofChanged result.count)

/-- Add up tallies. -/
def Tally.sum (tallies : List Tally) : Tally :=
  tallies.foldl (· + ·) .zero

/-- Give every math function of a unit its generic name. -/
def SourceUnit.genericMathNames (u : SourceUnit) : SourceUnit × Tally :=
  let renamed := u.items.map Item.toGenericMath
  let items := renamed.map Prod.fst
  let kept := keepFirstPrototypes [] items
  let (final, calls) := mapBodies Block.toGenericCalls kept
  ({ u with items := final },
    Tally.sum (renamed.map Prod.snd) + ⟨0, 0, items.length - kept.length⟩ + calls)

end MathKernel
