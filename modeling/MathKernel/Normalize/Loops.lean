import MathKernel.Syntax.Traversal
import MathKernel.Normalize.NamePool

/-!
# Bounded loops

Shaders need a constant trip count, so `while (c) body` becomes a `for` loop that counts to a
fixed cap and leaves when the condition fails. The test stands first in the new body, for
`do … while` last. Counters come from a pool, outer loops first.
-/

namespace MathKernel

/-- The number of iterations after which a bounded loop stops. -/
def iterationCap : Int := 1000

namespace Stmt

/-- The statements of a loop body, without the braces of a block. -/
def bodyItems : Stmt → List Stmt
  | block items _ _ => items
  | empty _ => []
  | s => [s]

/-- Leave the loop if the condition fails. -/
def exitUnless (cond : Expr) : Stmt :=
  ifThen (.unary .not cond none) (brk none) none

/-- The loop in which `counter` counts to the cap. -/
def countedLoop (counter : String) (items : List Stmt) (coord : Coord) : Stmt :=
  forLoop (some (.decls [Decl.ofScalar counter .int (some (.int 0 none))]))
    (some (.binary .lt (.id counter none) (.int iterationCap none) none))
    (some (.unary .postInc (.id counter none) none))
    (block items none none) coord

/-- Naming loops takes names from a pool and may fail. -/
abbrev Naming := StateT NamePool (Except NormalizeError)

/-- Take the next name. -/
def takeName : Naming String := do
  let (name, pool) ← liftM (← get).fresh
  set pool
  pure name

mutual

/-- Bound the loops of a statement. -/
def boundLoops : Stmt → Naming Stmt
  | decl d c => pure (decl d c)
  | block items b c => do
    let items ← boundLoopsList items
    pure (block items b c)
  | expr e c => pure (expr e c)
  | ifThen p t c => do
    let t ← t.boundLoops
    pure (ifThen p t c)
  | ifElse p t e c => do
    let t ← t.boundLoops
    let e ← e.boundLoops
    pure (ifElse p t e c)
  | forLoop init cond next body c => do
    let body ← body.boundLoops
    pure (forLoop init cond next body c)
  | whileLoop p body c => do
    let counter ← takeName
    let body ← body.boundLoops
    pure (countedLoop counter (exitUnless p :: body.bodyItems) c)
  | doWhile p body c => do
    let counter ← takeName
    let body ← body.boundLoops
    pure (countedLoop counter (body.bodyItems ++ [exitUnless p]) c)
  | ret v c => pure (ret v c)
  | brk c => pure (brk c)
  | cont c => pure (cont c)
  | goto l c => pure (goto l c)
  | label n s c => do
    let s ← s.boundLoops
    pure (label n s c)
  | empty c => pure (empty c)

/-- Bound the loops of statements in order. -/
def boundLoopsList : List Stmt → Naming (List Stmt)
  | [] => pure []
  | s :: rest => do
    let s ← s.boundLoops
    let rest ← boundLoopsList rest
    pure (s :: rest)

end

end Stmt

/-- Bound the loops of an item. -/
def Item.boundLoops : Item → Stmt.Naming Item :=
  Item.mapBodyM fun b => do
    let items ← Stmt.boundLoopsList b.items
    pure { b with items }

/-- Bound the loops of a unit with counters from a pool. -/
def SourceUnit.boundLoops (pool : NamePool) (u : SourceUnit) :
    Except NormalizeError (SourceUnit × Tally × NamePool) := do
  let (u, last) ← (u.mapItemsM Item.boundLoops).run pool
  let loops := last.next - pool.next
  return (u, ⟨loops, loops, 0⟩, last)

end MathKernel
