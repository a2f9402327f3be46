import MathKernel.Normalize.NamePool
import MathKernel.Normalize.Scope

/-!
# Promotion of static variables

A static variable becomes a global named after the unit: file-level ones are renamed in place,
those of a function move to file level before it. As a global it would keep a written value
between calls, so a write to one is an error. Static functions only lose the keyword.

## Main definitions

* `promotedName`: the name of a promoted variable.
* `SourceUnit.promoteStatics`: the pass.
-/

namespace MathKernel

namespace Decl

/-- Without the static storage class. -/
def dropStatic (d : Decl) : Decl :=
  { d with storage := d.storage.filter (· != .static) }

/-- Whether a static variable is declared. -/
def isStaticVariable (d : Decl) : Bool :=
  d.isStatic && !d.isFunction

/-- The global that a static variable becomes. -/
def promote (d : Decl) (name : String) : Decl :=
  (d.rename name).dropStatic

end Decl

/-- The name of a promoted variable: the unit's name and its own, with the function's name
between them if that is taken, and a number if that is taken too. -/
def promotedName (taken : List String) (unit : String) (function : Option String)
    (name : String) : String :=
  let plain := unit ++ "_" ++ name
  let stem := match function with
    | some f => if taken.contains plain then unit ++ "_" ++ f ++ "_" ++ name else plain
    | none => plain
  freshName "_" taken stem

/-- Names in use and what has been promoted so far. -/
structure Promotion where
  /-- Names that a promoted variable must avoid. -/
  taken : List String
  /-- New names of file-level statics by old ones. -/
  renames : Renames
  /-- Old names of all promoted variables by new ones. -/
  promoted : List (String × String)

/-- Rename a file-level static, or drop the keyword from a static function. -/
def Item.promoteGlobal (unit : String) (p : Promotion) : Item → Item × Promotion × Nat
  | .decl d =>
    if d.isStaticVariable then
      match d.name with
      | none => (.decl d, p, 0)
      | some old =>
        let new := promotedName p.taken unit none old
        (.decl (d.promote new),
          ⟨new :: p.taken, (old, new) :: p.renames, (new, old) :: p.promoted⟩, 1)
    else if d.isStatic then (.decl d.dropStatic, p, 1)
    else (.decl d, p, 0)
  | .func f =>
    if f.decl.isStatic then (.func { f with decl := f.decl.dropStatic }, p, 1)
    else (.func f, p, 0)

/-- Rename the file-level statics in order, counting the changed items. -/
def promoteGlobals (unit : String) (p : Promotion) : List Item → List Item × Promotion × Nat
  | [] => ([], p, 0)
  | item :: rest =>
    let (item, p, here) := item.promoteGlobal unit p
    let (rest, p, count) := promoteGlobals unit p rest
    (item :: rest, p, here + count)

/-- The static variable that a statement declares. -/
def Stmt.staticVariable? : Stmt → Option Decl
  | .decl d _ => if d.isStaticVariable then some d else none
  | _ => none

/-- Take the static variables out of a block, adding them to those already found. -/
def Block.takeStatics (b : Block) : StateM (List Decl) Block := do
  modify (· ++ b.items.filterMap Stmt.staticVariable?)
  pure { b with items := b.items.filter fun s => s.staticVariable?.isNone }

theorem Block.takeStatics_run (b : Block) (found : List Decl) :
    b.takeStatics.run found =
      ({ b with items := b.items.filter fun s => s.staticVariable?.isNone },
        found ++ b.items.filterMap Stmt.staticVariable?) :=
  rfl

/-- Promote the static variables found in a function. Each sees the new names of those before
it. -/
def hoistStatics (unit function : String) (p : Promotion) :
    List Decl → List Decl × Promotion × Tally
  | [] => ([], p, .zero)
  | d :: rest =>
    match d.name with
    | none => hoistStatics unit function p rest
    | some old =>
      let new := promotedName p.taken unit (some function) old
      let renamed := d.renameIds p.renames
      let next : Promotion :=
        ⟨new :: p.taken, (old, new) :: p.renames, (new, old) :: p.promoted⟩
      let (hoisted, last, tally) := hoistStatics unit function next rest
      (renamed.value.promote new :: hoisted, last, ⟨renamed.count, 1, 0⟩ + tally)

/-- The old name of the first promoted variable that a body writes to. -/
def Block.writtenStatic? (b : Block) (promoted : List (String × String)) : Option String :=
  b.exprs.findSome? fun e =>
    (e.writeTarget?.bind Expr.lvalueRoot?).bind fun root => promoted.lookup root

/-- Promote the statics of a function and use the new names in its body. -/
def FuncDef.promoteStatics (unit : String) (p : Promotion) (f : FuncDef) :
    Except NormalizeError (List Item × Promotion × Tally) :=
  let (body, statics) := (f.body.mapBlocksM Block.takeStatics).run []
  let (hoisted, last, tally) := hoistStatics unit f.name p statics
  let renamed := body.renameIds last.renames f.paramNames
  match renamed.value.writtenStatic? last.promoted with
  | some name => .error (.staticReassigned name f.name)
  | none =>
    .ok (hoisted.map Item.decl ++ [.func { f with body := renamed.value }],
      { last with renames := p.renames }, tally + .ofChanged renamed.count)

/-- Promote the statics of functions and use the new names, item by item. -/
def promoteInItems (unit : String) (p : Promotion) :
    List Item → Except NormalizeError (List Item × Tally)
  | [] => .ok ([], .zero)
  | .decl d :: rest => do
    let renamed := d.renameIds p.renames
    let (rest, tally) ← promoteInItems unit p rest
    return (.decl renamed.value :: rest, .ofChanged renamed.count + tally)
  | .func f :: rest => do
    let (items, p, here) ← f.promoteStatics unit p
    let (rest, tally) ← promoteInItems unit p rest
    return (items ++ rest, here + tally)

/-- Promote every static variable of a unit with the given base name. -/
def SourceUnit.promoteStatics (unit : String) (u : SourceUnit) :
    Except NormalizeError (SourceUnit × Tally) := do
  let (items, p, count) := promoteGlobals unit ⟨u.itemNames, [], []⟩ u.items
  let (items, tally) ← promoteInItems unit p items
  return ({ u with items }, .ofChanged count + tally)

end MathKernel
