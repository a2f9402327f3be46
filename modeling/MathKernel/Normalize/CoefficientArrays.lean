import MathKernel.Syntax.Traversal
import MathKernel.Normalize.Tally

/-!
# Fixed-size polynomial helpers

Shader functions cannot take arrays of unknown length. A call of a polynomial helper goes to the
variant for the length of the array it passes, and each variant that is called gets a prototype
at the front of the unit. The unit's own general helpers are dropped.

## Main definitions

* `variantName`: the name of a variant.
* `SourceUnit.specializeHelpers`: the pass.
-/

namespace MathKernel

/-- The helpers that take a coefficient array as their second argument. -/
def arrayHelpers : List String := ["polevlf", "p1evlf", "chbevlf"]

/-- The variant of a helper for arrays of length `n`. -/
def variantName (helper : String) (n : Nat) : String :=
  helper ++ "_" ++ toString n

/-- Lengths of arrays by name; an array of unknown length has an entry without one. -/
abbrev ArrayLengths := List (String × Option Nat)

/-- The arrays that a unit declares at file level. -/
def SourceUnit.arrays (u : SourceUnit) : List Decl :=
  (u.items.filterMap Item.decl?).filter Decl.isArray

/-- The arrays that a function declares as parameters and by statements. -/
def FuncDef.arrays (f : FuncDef) : List Decl :=
  (f.params ++ f.body.stmts.filterMap Stmt.decl?).filter Decl.isArray

/-- The length of a declared array, under its name. -/
def Decl.namedLength? (d : Decl) : Option (String × Option Nat) :=
  d.name.map (·, d.arrayLen?)

/-- The lengths of the arrays declared at file level. -/
def SourceUnit.globalArrays (u : SourceUnit) : ArrayLengths :=
  u.arrays.filterMap Decl.namedLength?

/-- The lengths of the arrays declared in a function. -/
def FuncDef.localArrays (f : FuncDef) : ArrayLengths :=
  f.arrays.filterMap Decl.namedLength?

/-- The length of an array of known length; the last entry for a name counts. -/
def ArrayLengths.known? (lengths : ArrayLengths) (name : String) : Option Nat :=
  (lengths.reverse.lookup name).join

/-- A helper and an array length. -/
structure Variant where
  helper : String
  length : Nat
  deriving DecidableEq, Repr

/-- The called name of a variant. -/
def Variant.name (v : Variant) : String :=
  variantName v.helper v.length

/-- The place of a helper among the helpers. -/
def Variant.rank (v : Variant) : Nat :=
  arrayHelpers.idxOf v.helper

/-- Order by helper and then by length. -/
def Variant.before (v w : Variant) : Bool :=
  v.rank < w.rank || (v.rank == w.rank && v.length < w.length)

/-- Put a variant into an ordered list that may already hold it. -/
def Variant.insert (v : Variant) : List Variant → List Variant
  | [] => [v]
  | w :: rest =>
    if v = w then w :: rest
    else if v.before w then v :: w :: rest
    else w :: Variant.insert v rest

/-- Choosing variants records the chosen ones, last first, and may fail. -/
abbrev Choosing := StateT (List Variant) (Except NormalizeError)

/-- The variant that a call needs; only calls of helpers need one. -/
def Expr.helperCall? : Expr → Option (String × List Expr × Coord)
  | .call callee args c => if arrayHelpers.contains callee then some (callee, args, c) else none
  | _ => none

/-- Send a helper call to the variant for the array it passes. -/
def Expr.specialize (lengths : ArrayLengths) (function : String) (e : Expr) : Choosing Expr :=
  match e.helperCall? with
  | none => pure e
  | some (helper, args, c) =>
    match (args[1]?.bind Expr.idName?).bind lengths.known? with
    | none => throw <| .unsupported "static-arrays" <|
        "call to '" ++ helper ++ "' in '" ++ function ++
          "' does not pass an array of known size"
    | some length => do
      let variant : Variant := ⟨helper, length⟩
      modify (variant :: ·)
      pure (.call variant.name args c)

/-- Specialize the helper calls of an item; the general helpers themselves stay as they are. -/
def Item.specializeHelpers (globals : ArrayLengths) : Item → Choosing Item
  | .decl d => pure (.decl d)
  | .func f =>
    if arrayHelpers.contains f.name then pure (.func f)
    else do
      let lengths := globals ++ f.localArrays
      let body ← f.body.bottomUpM (Expr.specialize lengths f.name)
      pure (.func { f with body })

/-- The prototype `float name(float x, float coef[n], int n)`. -/
def Variant.prototype (v : Variant) : Decl :=
  Decl.prototype v.name .float
    [Decl.ofScalar "x" .float none, Decl.ofArray "coef" .float (some v.length) none,
      Decl.ofScalar "n" .int none]

/-- Specialize the helper calls of a unit. -/
def SourceUnit.specializeHelpers (u : SourceUnit) :
    Except NormalizeError (SourceUnit × Tally) := do
  let (changed, chosen) ← (u.mapItemsM (Item.specializeHelpers u.globalArrays)).run []
  let kept := changed.items.filter fun item => !item.name?.any arrayHelpers.contains
  let existing := kept.filterMap Item.name?
  let variants := (chosen.foldl (fun found v => v.insert found) []).filter fun v =>
    !existing.contains v.name
  let prototypes := variants.map fun v => Item.decl v.prototype
  return ({ u with items := prototypes ++ kept },
    ⟨chosen.length, prototypes.length, u.items.length - kept.length⟩)

end MathKernel
