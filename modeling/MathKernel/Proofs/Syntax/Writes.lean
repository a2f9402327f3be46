import MathKernel.Proofs.Syntax.Occurrences
import MathKernel.Proofs.Syntax.Subexpressions

/-!
# Writes

An assignment or an increment writes to the variable at the root of its target, through any number
of indexings. Each write of some code is listed under the name of the variable, with the
declarations of the code that are in scope there; the last of these that has the name is the one
written to.

## Main definitions

* `Expr.writtenNames` — the names of the variables that an expression writes to
* `Write`, `Stmt.writes` — the writes of a statement, each with the declarations around it

## Main results

* `Stmt.map_snd_writes` — the writes of a statement are those of all its expressions
-/

namespace MathKernel

open Placed

/-! ### Expressions -/

namespace Expr

/-- The name of the variable that a node writes to. -/
def written? (e : Expr) : Option String :=
  e.writeTarget?.bind lvalueRoot?

/-- The names of the variables that an expression writes to. -/
def writtenNames (e : Expr) : List String :=
  e.subexprs.filterMap written?

theorem writtenNames_eq (e : Expr) :
    e.writtenNames = e.written?.toList ++ e.parts.flatMap writtenNames := by
  rw [writtenNames, subexprs_eq, List.filterMap_cons, List.filterMap_flatMap]
  cases e.written? <;> rfl

end Expr

/-! ### Statements -/

/-- The name of a written variable, with the declarations of some code that are in scope at the
write, outer ones first. -/
abbrev Write := List Decl × String

namespace Write

/-- Writes in code that stands behind further declarations. -/
def under (ds : List Decl) (found : List Write) : List Write :=
  found.map fun w => (ds ++ w.1, w.2)

/-- The writes of expressions that see no declaration of the code. -/
def plain (es : List Expr) : List Write :=
  (es.flatMap Expr.writtenNames).map ([], ·)

variable {ds : List Decl} {es : List Expr} {found : List Write}

@[simp] theorem map_snd_under : (under ds found).map Prod.snd = found.map Prod.snd := by
  simp [under]

@[simp] theorem map_snd_plain : (plain es).map Prod.snd = es.flatMap Expr.writtenNames := by
  simp [plain, Function.comp_def]

end Write

namespace Placed

/-- The writes of an occurrence. -/
def writes : Placed → List Write
  | (ds, .expr e) => e.writtenNames.map (ds, ·)
  | (_, .jump _) => []

variable {ds : List Decl} {found : List Placed} {es : List Expr}

@[simp] theorem flatMap_writes_under :
    (under ds found).flatMap writes = Write.under ds (found.flatMap writes) := by
  rw [under, List.flatMap_map, Write.under, List.map_flatMap]
  refine List.flatMap_congr fun p _ => ?_
  obtain ⟨es, e | l⟩ := p
  · simp [writes]
  · rfl

@[simp] theorem flatMap_writes_plain : (plain es).flatMap writes = Write.plain es := by
  rw [plain, List.flatMap_map, Write.plain, List.map_flatMap]
  rfl

end Placed

namespace Decl

/-- The writes in a declaration. -/
def writes (d : Decl) : List Write :=
  d.occurrences.flatMap Placed.writes

/-- The writes in declarations one after the other. -/
def writesList (ds : List Decl) : List Write :=
  (occurrencesList ds).flatMap Placed.writes

@[simp] theorem writes_eq (d : Decl) :
    d.writes = Write.plain d.size?.toList ++ Write.under [d] (Write.plain d.init.toList) := by
  simp [writes, occurrences]

@[simp] theorem writesList_cons (d : Decl) (rest : List Decl) :
    writesList (d :: rest) = d.writes ++ Write.under [d] (writesList rest) := by
  simp [writesList, writes, occurrencesList]

end Decl

namespace Stmt

/-- The writes in a statement. -/
def writes (s : Stmt) : List Write :=
  s.occurrences.flatMap Placed.writes

/-- The writes in the items of a block. -/
def writesList (items : List Stmt) : List Write :=
  (occurrencesList items).flatMap Placed.writes

section Writes

variable (p : Expr) (s t e body : Stmt) (items rest : List Stmt) (cond next : Option Expr)
  (b c : Coord)

@[simp] theorem writesList_cons :
    writesList (s :: rest) = s.writes ++ Write.under s.declared?.toList (writesList rest) := by
  simp [writesList, writes, occurrencesList]

@[simp] theorem writes_decl (d : Decl) : (decl d c).writes = d.writes := rfl

@[simp] theorem writes_block : (block items b c).writes = writesList items := rfl

@[simp] theorem writes_expr : (expr p c).writes = Write.plain [p] := by
  simp [writes, occurrences]

@[simp] theorem writes_ifThen : (ifThen p t c).writes = Write.plain [p] ++ t.writes := by
  simp [writes, occurrences]

@[simp] theorem writes_ifElse :
    (ifElse p t e c).writes = Write.plain [p] ++ t.writes ++ e.writes := by
  simp [writes, occurrences]

@[simp] theorem writes_forLoop_none :
    (forLoop none cond next body c).writes =
      Write.plain (cond.toList ++ next.toList) ++ body.writes := by
  simp [writes, occurrences]

@[simp] theorem writes_forLoop_decls (ds : List Decl) :
    (forLoop (some (.decls ds)) cond next body c).writes =
      Decl.writesList ds ++
        Write.under ds (Write.plain (cond.toList ++ next.toList) ++ body.writes) := by
  simp [writes, occurrences, Decl.writesList]

@[simp] theorem writes_forLoop_expr :
    (forLoop (some (.expr p)) cond next body c).writes =
      Write.plain [p] ++ Write.plain (cond.toList ++ next.toList) ++ body.writes := by
  simp [writes, occurrences]

@[simp] theorem writes_whileLoop :
    (whileLoop p body c).writes = Write.plain [p] ++ body.writes := by
  simp [writes, occurrences]

@[simp] theorem writes_doWhile : (doWhile p body c).writes = Write.plain [p] ++ body.writes := by
  simp [writes, occurrences]

@[simp] theorem writes_ret (value : Option Expr) :
    (ret value c).writes = Write.plain value.toList := by
  simp [writes, occurrences]

@[simp] theorem writes_label (n : String) : (label n s c).writes = s.writes := rfl

end Writes

end Stmt

/-! ### The names of written variables -/

theorem Decl.map_snd_writes (d : Decl) :
    d.writes.map Prod.snd = d.rootExprs.flatMap Expr.writtenNames := by
  simp [rootExprs]

theorem Decl.map_snd_writesList (ds : List Decl) :
    (writesList ds).map Prod.snd = (ds.flatMap rootExprs).flatMap Expr.writtenNames := by
  induction ds with
  | nil => rfl
  | cons d rest ih =>
    rw [writesList_cons, List.map_append, map_snd_writes, Write.map_snd_under, ih,
      List.flatMap_cons, List.flatMap_append]

namespace Stmt

mutual

/-- The writes of a statement are those of its own expressions and of the statements inside. -/
theorem map_snd_writes (s : Stmt) :
    s.writes.map Prod.snd = s.substmts.flatMap fun t => t.ownExprs.flatMap Expr.writtenNames := by
  cases s with
  | decl d c => simp only [writes_decl, Decl.map_snd_writes, substmts, ownExprs,
      List.flatMap_singleton]
  | block items b c => simp [substmts, ownExprs, map_snd_writesList items]
  | ifThen p t c => simp [substmts, ownExprs, map_snd_writes t]
  | ifElse p t e c => simp [substmts, ownExprs, map_snd_writes t, map_snd_writes e]
  | forLoop init cond next body c =>
    rcases init with _ | ds | e
    · simp [substmts, ownExprs, map_snd_writes body]
    · simp [substmts, ownExprs, map_snd_writes body, ForInit.rootExprs, Decl.map_snd_writesList]
    · simp [substmts, ownExprs, map_snd_writes body, ForInit.rootExprs]
  | whileLoop p body c | doWhile p body c => simp [substmts, ownExprs, map_snd_writes body]
  | expr | ret => simp [substmts, ownExprs]
  | label n s c => simp [substmts, ownExprs, map_snd_writes s]
  | brk | cont | goto | empty => rfl

theorem map_snd_writesList (items : List Stmt) :
    (writesList items).map Prod.snd =
      (substmtsList items).flatMap fun t => t.ownExprs.flatMap Expr.writtenNames := by
  cases items with
  | nil => rfl
  | cons s rest => simp [substmtsList, map_snd_writes s, map_snd_writesList rest]

end

end Stmt

/-- The nodes of a body that write are its writes. -/
theorem Block.filterMap_written? (b : Block) :
    b.exprs.filterMap Expr.written? = (Stmt.writesList b.items).map Prod.snd := by
  rw [Stmt.map_snd_writesList, exprs, List.filterMap_flatMap]
  refine List.flatMap_congr fun t _ => ?_
  rw [List.filterMap_flatMap]
  rfl

end MathKernel
