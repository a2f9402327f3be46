import MathKernel.Syntax.Traversal
import MathKernel.Normalize.Tally

/-!
# Casts as calls

A cast to a type becomes a call of the coercion function named like the type; a cast to `void`
disappears.
-/

namespace MathKernel

/-- The call that a cast becomes. -/
def Expr.castCall? : Expr → Option Expr
  | .cast .void operand _ => some operand
  | .cast type operand c => some (.call type.cName [operand] c)
  | _ => none

/-- Turn every cast of a unit into a call. -/
def SourceUnit.castsToCalls (u : SourceUnit) : SourceUnit × Tally :=
  let result := u.mapItemsM (Item.mapExprsM (Expr.bottomUpM (Counted.replace Expr.castCall?)))
  (result.value, .ofChanged result.count)

end MathKernel
