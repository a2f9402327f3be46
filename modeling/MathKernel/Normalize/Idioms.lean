import MathKernel.Normalize.Scope
import MathKernel.Normalize.ErrorCalls

/-!
# Idioms folded into calls

`x < 0 ? -x : x` and its mirrored forms are the absolute value of `x`; `x & 1` says whether `x`
is odd.
-/

namespace MathKernel

namespace Expr

/-- Whether an expression is a literal zero. -/
def isZeroLiteral : Expr → Bool
  | literal value _ => value.floatValue?.any Binary64.isZero
  | _ => false

/-- Whether an expression is the negation of another, up to positions. -/
def isNegationOf (x : Expr) : Expr → Bool
  | unary .neg operand _ => operand.same x
  | _ => false

/-- The operand of an absolute value spelled as a conditional. It is evaluated once instead of
twice, so it must have no side effects. -/
def absOperand? : Expr → Option Expr
  | ternary (binary op x zero _) onTrue onFalse _ =>
    if !zero.isZeroLiteral || x.hasSideEffects then none
    else
      let matched := match op with
        | .lt | .le => isNegationOf x onTrue && onFalse.same x
        | .gt | .ge => onTrue.same x && isNegationOf x onFalse
        | _ => false
      if matched then some x else none
  | _ => none

/-- The operand of a test of the lowest bit. -/
def oddOperand? : Expr → Option Expr
  | binary .bitAnd left right _ =>
    if right.intLiteral? = some 1 then some left
    else if left.intLiteral? = some 1 then some right
    else none
  | _ => none

/-- The call of `callee` on the operand that an idiom has. -/
def foldIdiom? (operand? : Expr → Option Expr) (callee : String) (e : Expr) : Option Expr :=
  (operand? e).map fun x => call callee [x] e.coord

end Expr

/-- Fold an idiom in every function body. -/
def SourceUnit.foldIdiom (operand? : Expr → Option Expr) (callee : String) (u : SourceUnit) :
    SourceUnit × Tally :=
  let fold (b : Block) : Block × Tally :=
    let result := b.bottomUpM (Counted.replace (Expr.foldIdiom? operand? callee))
    (result.value, .ofChanged result.count)
  let (items, tally) := mapBodies fold u.items
  ({ u with items }, tally)

/-- Fold absolute values. -/
def SourceUnit.foldAbs (u : SourceUnit) : SourceUnit × Tally :=
  u.foldIdiom Expr.absOperand? "abs"

/-- Fold tests of the lowest bit. -/
def SourceUnit.foldIsOdd (u : SourceUnit) : SourceUnit × Tally :=
  u.foldIdiom Expr.oddOperand? "is_odd"

end MathKernel
