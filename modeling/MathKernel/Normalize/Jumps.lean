import MathKernel.Syntax.Traversal
import MathKernel.Normalize.Tally

/-!
# Elimination of jumps

Every `goto` is replaced by a copy of the code that follows its label: the statements from the
labelled one through the first return of the same block. Jumps inside a copy are replaced in
turn, so a label reached again from its own code is a cycle and fails the unit. Then the labels
are dropped and what stands after a return in the same block is removed.

## Main definitions

* `Block.captures`: the code that each label stands for.
* `expandGoto`: the block that replaces a jump.
* `FuncDef.eliminateJumps`, `SourceUnit.eliminateJumps`: the pass.
-/

namespace MathKernel

namespace Stmt

/-- Whether the statement jumps or is labelled. -/
def isJump : Stmt → Bool
  | goto .. | label .. => true
  | _ => false

/-- Whether the statement is labelled. -/
def isLabelled : Stmt → Bool
  | label .. => true
  | _ => false

/-- The labels that stand in a row before a statement. -/
def labels : Stmt → List String
  | label n s _ => n :: s.labels
  | _ => []

/-- The statement under its labels. -/
def unlabelled : Stmt → Stmt
  | label _ s _ => s.unlabelled
  | s => s

/-- The statements through the first return, which may be labelled. -/
def takeThroughReturn : List Stmt → List Stmt
  | [] => []
  | s :: rest => if s.unlabelled.isReturn then [s] else s :: takeThroughReturn rest

/-- What the labels of a block's items stand for. -/
def itemCaptures : List Stmt → List (String × List Stmt)
  | [] => []
  | s :: rest => s.labels.map (·, takeThroughReturn (s :: rest)) ++ itemCaptures rest

mutual

/-- What the labels in a statement stand for. A label that is no item of a block stands for its
statement alone. -/
def captures : Stmt → List (String × List Stmt)
  | block items _ _ => itemCaptures items ++ capturesList items
  | ifThen _ t _ => t.captures
  | ifElse _ t e _ => t.captures ++ e.captures
  | forLoop _ _ _ body _ => body.captures
  | whileLoop _ body _ => body.captures
  | doWhile _ body _ => body.captures
  | label n s _ => (n, [s]) :: s.captures
  | decl .. | expr .. | ret .. | brk _ | cont _ | goto .. | empty _ => []

/-- What the labels in statements stand for. -/
def capturesList : List Stmt → List (String × List Stmt)
  | [] => []
  | s :: rest => s.captures ++ capturesList rest

end

mutual

/-- Put each labelled statement in place of its label. -/
def dropLabels : Stmt → Stmt
  | decl d c => decl d c
  | block items b c => block (dropLabelsList items) b c
  | expr e c => expr e c
  | ifThen p t c => ifThen p t.dropLabels c
  | ifElse p t e c => ifElse p t.dropLabels e.dropLabels c
  | forLoop init cond next body c => forLoop init cond next body.dropLabels c
  | whileLoop p body c => whileLoop p body.dropLabels c
  | doWhile p body c => doWhile p body.dropLabels c
  | ret v c => ret v c
  | brk c => brk c
  | cont c => cont c
  | goto l c => goto l c
  | label _ s _ => s.dropLabels
  | empty c => empty c

/-- Drop the labels of statements. -/
def dropLabelsList : List Stmt → List Stmt
  | [] => []
  | s :: rest => s.dropLabels :: dropLabelsList rest

end

section Maps

variable {m : Type → Type} [Monad m]

mutual

/-- Replace each jump by the statement that `f` gives for its label and position. -/
def mapGotosM (f : String → Coord → m Stmt) : Stmt → m Stmt
  | decl d c => pure (decl d c)
  | block items b c => do
    let items ← mapGotosListM f items
    pure (block items b c)
  | expr e c => pure (expr e c)
  | ifThen p t c => do
    let t ← t.mapGotosM f
    pure (ifThen p t c)
  | ifElse p t e c => do
    let t ← t.mapGotosM f
    let e ← e.mapGotosM f
    pure (ifElse p t e c)
  | forLoop init cond next body c => do
    let body ← body.mapGotosM f
    pure (forLoop init cond next body c)
  | whileLoop p body c => do
    let body ← body.mapGotosM f
    pure (whileLoop p body c)
  | doWhile p body c => do
    let body ← body.mapGotosM f
    pure (doWhile p body c)
  | ret v c => pure (ret v c)
  | brk c => pure (brk c)
  | cont c => pure (cont c)
  | goto l c => f l c
  | label n s c => do
    let s ← s.mapGotosM f
    pure (label n s c)
  | empty c => pure (empty c)

/-- Replace the jumps of statements in order. -/
def mapGotosListM (f : String → Coord → m Stmt) : List Stmt → m (List Stmt)
  | [] => pure []
  | s :: rest => do
    let s ← s.mapGotosM f
    let rest ← mapGotosListM f rest
    pure (s :: rest)

end

end Maps

end Stmt

namespace Block

/-- The code that each label of a body stands for, its own labels dropped. The first entry for a
label counts: those of outer blocks come before those of inner ones. -/
def captures (b : Block) : List (String × List Stmt) :=
  (Stmt.itemCaptures b.items ++ Stmt.capturesList b.items).map fun (name, items) =>
    (name, Stmt.dropLabelsList items)

/-- The number of labels in a body. -/
def labelCount (b : Block) : Nat :=
  (b.stmts.filter Stmt.isLabelled).length

/-- Cut a block off after its first return. -/
def cutAfterReturn (b : Block) : Counted Block :=
  let kept := b.items.takeWhile fun s => !s.isReturn
  let items := b.items.take (kept.length + 1)
  ⟨{ b with items }, b.items.length - items.length⟩

end Block

/-- Replacing jumps counts the replaced ones and may fail. -/
abbrev Expansion := StateT Nat (Except NormalizeError)

/-- The block that replaces a jump to a label while the labels in `active` are being replaced.
No label is active twice, so one step more than there are captured labels suffices. -/
def expandGoto (captures : List (String × List Stmt)) (function : String) :
    Nat → List String → String → Coord → Expansion Stmt
  | 0, _, label, _ => throw (.cyclicGoto label function)
  | fuel + 1, active, label, coord =>
    if active.contains label then throw (.cyclicGoto label function)
    else match captures.lookup label with
      | none => throw (.unknownLabel label function)
      | some items => do
        let items ← Stmt.mapGotosListM (expandGoto captures function fuel (label :: active)) items
        modify (· + 1)
        pure (.block items none coord)

/-- Replace the jumps of a function that has any jump or label. -/
def FuncDef.eliminateJumps (f : FuncDef) : Except NormalizeError (FuncDef × Tally) :=
  if f.body.stmts.any Stmt.isJump then do
    let captures := f.body.captures
    let unlabelled := Stmt.dropLabelsList f.body.items
    let expand := expandGoto captures f.name (captures.length + 1) []
    let (items, replaced) ← (Stmt.mapGotosListM expand unlabelled).run 0
    let cut := ({ f.body with items } : Block).mapBlocksM Block.cutAfterReturn
    return ({ f with body := cut.value }, ⟨replaced, 0, f.body.labelCount + cut.count⟩)
  else return (f, .zero)

/-- Eliminate the jumps of function items in order. -/
def eliminateJumpsInItems : List Item → Except NormalizeError (List Item × Tally)
  | [] => .ok ([], .zero)
  | .decl d :: rest => do
    let (rest, tally) ← eliminateJumpsInItems rest
    return (.decl d :: rest, tally)
  | .func f :: rest => do
    let (f, here) ← f.eliminateJumps
    let (rest, tally) ← eliminateJumpsInItems rest
    return (.func f :: rest, here + tally)

/-- Eliminate the jumps of a unit. -/
def SourceUnit.eliminateJumps (u : SourceUnit) : Except NormalizeError (SourceUnit × Tally) := do
  let (items, tally) ← eliminateJumpsInItems u.items
  return ({ u with items }, tally)

end MathKernel
