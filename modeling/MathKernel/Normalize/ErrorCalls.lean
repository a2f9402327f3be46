import MathKernel.Syntax.Traversal
import MathKernel.Normalize.Tally

/-!
# Removal of error reports

Kernels report domain errors by calling `mtherr` with the function's name and an error code. The
routine has no place in generated code: its declarations and the calls that stand alone in a
block are dropped, and any other call becomes its code.
-/

namespace MathKernel

/-- The routine that reports errors. -/
def errorRoutine : String := "mtherr"

/-- Whether a statement only declares or calls the error routine. -/
def Stmt.isErrorReport : Stmt → Bool
  | .expr (.call callee _ _) _ => callee == errorRoutine
  | .decl d _ => d.name == some errorRoutine
  | _ => false

/-- What a call of the error routine stands for: its second argument, or zero. -/
def Expr.errorCode? : Expr → Option Expr
  | .call callee args _ =>
    if callee = errorRoutine then
      match args with
      | _ :: code :: _ => some code
      | _ => some (.int 0 none)
    else none
  | _ => none

/-- Drop the error reports among a block's items. -/
def Block.dropErrorReports (b : Block) : Counted Block :=
  let kept := b.items.filter fun s => !s.isErrorReport
  ⟨{ b with items := kept }, b.items.length - kept.length⟩

/-- Remove the error reports of a body. -/
def Block.removeErrorCalls (b : Block) : Block × Tally :=
  let dropped := b.mapBlocksM Block.dropErrorReports
  let replaced := dropped.value.bottomUpM (Counted.replace Expr.errorCode?)
  (replaced.value, ⟨replaced.count, 0, dropped.count⟩)

/-- Apply a change of function bodies to items, adding up what it reports. -/
def mapBodies (f : Block → Block × Tally) : List Item → List Item × Tally
  | [] => ([], .zero)
  | .decl d :: rest =>
    let (rest, tally) := mapBodies f rest
    (.decl d :: rest, tally)
  | .func g :: rest =>
    let (body, here) := f g.body
    let (rest, tally) := mapBodies f rest
    (.func { g with body } :: rest, here + tally)

/-- Remove the error routine and its calls from a unit. -/
def SourceUnit.removeErrorCalls (u : SourceUnit) : SourceUnit × Tally :=
  let kept := u.items.filter fun item => item.name? != some errorRoutine
  let (items, tally) := mapBodies Block.removeErrorCalls kept
  ({ u with items }, tally + ⟨0, 0, u.items.length - kept.length⟩)

end MathKernel
