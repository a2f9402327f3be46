import Mathlib.Data.List.Perm.Basic
import MathKernel.Proofs.Syntax.FreeNames
import MathKernel.Proofs.Syntax.Recordings

/-!
# Reading and rewriting meet the same expressions

The expressions of a body are listed with parents before their children, and a walk that rewrites
them meets children before their parents. Both reach every statement and every position in it alike:
a step that leaves each expression as it is meets the listed expressions in another order, and
renaming the identifiers of a body renames those in the list, one by one.

## Main definitions

* `Expr.innerFirst`, `Block.exprsInnerFirst` — the expressions with children before their parents
* `NotingMonad.performing` — an action performed on several things in order
* `Expr.actThen` — a step that performs an action on each node
* `Expr.mapId` — a step that renames identifiers
* `Block.ids` — the identifiers in a body

## Main results

* `Block.bottomUpM_performs` — what a walk with an action does, in order
* `Block.rewriting_meets_exprs` — the two views agree
-/

namespace MathKernel

namespace Expr

/-! ### The order in which a walk meets expressions -/

mutual

/-- The expression and all below it, children before their parents. -/
def innerFirst : Expr → List Expr
  | id n c => [id n c]
  | literal v c => [literal v c]
  | binary op l r c => l.innerFirst ++ r.innerFirst ++ [binary op l r c]
  | unary op e c => e.innerFirst ++ [unary op e c]
  | assign op t v c => t.innerFirst ++ v.innerFirst ++ [assign op t v c]
  | ternary p t e c => p.innerFirst ++ t.innerFirst ++ e.innerFirst ++ [ternary p t e c]
  | call f args c => innerFirstList args ++ [call f args c]
  | cast type e c => e.innerFirst ++ [cast type e c]
  | index a i c => a.innerFirst ++ i.innerFirst ++ [index a i c]
  | initList items c => innerFirstList items ++ [initList items c]
  | comma items c => innerFirstList items ++ [comma items c]

/-- The expressions of a list and all below them, children before their parents. -/
def innerFirstList : List Expr → List Expr
  | [] => []
  | e :: rest => e.innerFirst ++ innerFirstList rest

end

theorem innerFirstList_eq (items : List Expr) :
    innerFirstList items = items.flatMap innerFirst := by
  induction items with
  | nil => rfl
  | cons e rest ih => rw [innerFirstList, List.flatMap_cons, ih]

theorem innerFirst_eq (e : Expr) : e.innerFirst = e.parts.flatMap innerFirst ++ [e] := by
  cases e <;> simp [innerFirst, parts, innerFirstList_eq]

/-- Both orders list the same expressions. -/
theorem innerFirst_perm (e : Expr) : e.innerFirst.Perm e.subexprs := by
  induction e using parts_induction with
  | h e ih =>
    have hparts : (e.parts.flatMap innerFirst).Perm (e.parts.flatMap subexprs) :=
      List.Perm.flatMap_left e.parts ih
    rw [innerFirst_eq, subexprs_eq]
    exact (List.perm_append_singleton e _).trans (hparts.cons e)

/-- What a walk meets in place of a node: the parts are rebuilt already. -/
def met (g : Expr → Expr) (e : Expr) : Expr :=
  e.withParts (e.parts.map (rebuild g))

theorem met_id (e : Expr) : e.met (fun x => x) = e := by
  have hparts : e.parts.map (rebuild fun x => x) = e.parts :=
    (List.map_congr_left fun part _ => part.rebuild_id).trans (List.map_id _)
  rw [met, hparts, withParts_parts]

end Expr

/-! ### Walks with an action -/

/-- Noting things by performing an action on each, in order. -/
@[reducible] def NotingMonad.performing {m : Type → Type} [Monad m] [LawfulMonad m] {ι : Type}
    (act : ι → m Unit) : NotingMonad m ι where
  Records x a items := x = do items.forM act; pure a
  records_pure a := by simp
  records_bind := by
    rintro α β x a f b first second rfl hf
    simp [hf]

section Performing

variable {m : Type → Type} [Monad m]

/-- A step that performs an action on a node before it rebuilds it. -/
def Expr.actThen (act : Expr → m Unit) (g : Expr → Expr) (e : Expr) : m Expr := do
  act e
  pure (g e)

variable [LawfulMonad m] (act : Expr → m Unit) (g : Expr → Expr)

/-- A walk over an expression performs its action on every node, children before their parents. -/
theorem Expr.bottomUpM_performs (e : Expr) :
    e.bottomUpM (actThen act g) =
      (do (e.innerFirst.map (met g)).forM act; pure (e.rebuild g)) := by
  let _ := NotingMonad.performing act
  induction e using parts_induction with
  | h e ih =>
    have hnode : Records (actThen act g (e.met g)) (g (e.met g)) [e.met g] := by
      change _ = _
      simp [actThen]
    rw [bottomUpM_eq, rebuild_eq, innerFirst_eq, List.map_append, List.map_flatMap]
    exact records_bind (f := fun parts => actThen act g (e.withParts parts))
      (records_mapM e.parts ih) hnode

namespace Block

/-- The expressions of a block, children before their parents. -/
def exprsInnerFirst (b : Block) : List Expr :=
  b.stmts.flatMap fun s => s.ownExprs.flatMap Expr.innerFirst

theorem exprsInnerFirst_perm (b : Block) : b.exprsInnerFirst.Perm b.exprs :=
  List.Perm.flatMap_left b.stmts fun s _ =>
    List.Perm.flatMap_left s.ownExprs fun e _ => e.innerFirst_perm

/-- A walk over a body performs its action on every expression of it, children before their
parents. -/
theorem bottomUpM_performs (b : Block) :
    b.bottomUpM (Expr.actThen act g) =
      (do (b.exprsInnerFirst.map (Expr.met g)).forM act; pure (b.rebuild g)) := by
  let _ := NotingMonad.performing act
  have hroot (e : Expr) : Records (e.bottomUpM (Expr.actThen act g)) (e.rebuild g)
      (e.innerFirst.map (Expr.met g)) :=
    Expr.bottomUpM_performs act g e
  refine records_eq ?_ (b.mapExprsM_records hroot)
  simp only [exprsInnerFirst, List.map_flatMap]

/-- A walk with an action that leaves every expression as it is. -/
theorem bottomUpM_performs_id (b : Block) :
    b.bottomUpM (Expr.actThen act fun e => e) = (do b.exprsInnerFirst.forM act; pure b) := by
  have hmet : b.exprsInnerFirst.map (Expr.met fun e => e) = b.exprsInnerFirst :=
    (List.map_congr_left fun e _ => e.met_id).trans (List.map_id _)
  have hbody : b.rebuild (fun e => e) = b := bottomUpM_eq_pure (m := Id) fun _ _ => rfl
  rw [bottomUpM_performs, hmet, hbody]

end Block

end Performing

/-- Note an expression behind those noted before. -/
def Expr.note (e : Expr) : StateM (List Expr) Unit :=
  modify (· ++ [e])

theorem forM_note_run (items noted : List Expr) :
    (items.forM Expr.note).run noted = ((), noted ++ items) := by
  induction items generalizing noted with
  | nil => simp; rfl
  | cons e rest ih =>
    have hrest := ih (noted ++ [e])
    rwa [List.append_assoc] at hrest

/-! ### Identifiers -/

namespace Expr

/-- Give an identifier a new name and a new position. -/
def mapId (rename : String → String) (place : Coord → Coord) : Expr → Expr
  | id x c => id (rename x) (place c)
  | e => e

variable (rename : String → String) (place : Coord → Coord) (e : Expr)

theorem parts_mapId : (e.mapId rename place).parts = e.parts := by
  cases e <;> rfl

theorem idName?_mapId : (e.mapId rename place).idName? = e.idName?.map rename := by
  cases e <;> rfl

theorem idName?_rebuild_mapId :
    (e.rebuild (mapId rename place)).idName? = e.idName?.map rename := by
  have hnode := isHeadProperty_idName? (· = e.idName?) e
    (e.parts.map (rebuild (mapId rename place))) rfl
  rw [rebuild_eq, idName?_mapId, hnode]

end Expr

namespace Block

/-- The identifiers in a body, in the order of its expressions. -/
def ids (b : Block) : List String :=
  b.exprs.filterMap Expr.idName?

theorem ids_rebuild_mapId (rename : String → String) (place : Coord → Coord) (b : Block) :
    (b.rebuild (Expr.mapId rename place)).ids = b.ids.map rename := by
  rw [ids, exprs_rebuild (Expr.parts_mapId rename place), List.filterMap_map, ids,
    List.map_filterMap]
  exact List.filterMap_congr fun e _ => e.idName?_rebuild_mapId rename place

/-- A walk that leaves every expression as it is leaves the body as it is, and it meets the listed
expressions in another order, children before their parents. After a walk that renames the
identifiers, whatever it does to their positions, the list shows the new names in the order of the
old ones. -/
theorem rewriting_meets_exprs (b : Block) :
    (b.bottomUpM (Expr.actThen Expr.note fun e => e)).run [] = (b, b.exprsInnerFirst) ∧
    b.exprsInnerFirst.Perm b.exprs ∧
    ∀ (rename : String → String) (place : Coord → Coord),
      (b.rebuild (Expr.mapId rename place)).ids = b.ids.map rename := by
  refine ⟨?_, b.exprsInnerFirst_perm, fun rename place => ids_rebuild_mapId rename place b⟩
  rw [bottomUpM_performs_id, StateM.run_bind_eq, forM_note_run]
  rfl

/-- The two orders for `a[i] = -x`. -/
example :
    let a := Expr.id "a" none
    let i := Expr.id "i" none
    let x := Expr.id "x" none
    let element := Expr.index a i none
    let negated := Expr.unary .neg x none
    let assignment := Expr.assign .assign element negated none
    let b : Block := ⟨[.expr assignment none], none⟩
    b.exprs = [assignment, element, a, i, negated, x] ∧
      b.exprsInnerFirst = [a, i, element, x, negated, assignment] :=
  ⟨rfl, rfl⟩

end Block

end MathKernel
