import MathKernel.Normalize.Scope

/-!
# Properties of all parts of an expression

## Main definitions

* `Expr.parts` — the expressions directly below an expression
* `Expr.Everywhere` — a property of an expression and all below it

## Main results

* `Expr.everywhere_iff` — the property at a node and below each of its parts
* `Expr.everywhere_writeTarget?` — the expressions without side effects
-/

namespace MathKernel

namespace Expr

/-- The expressions directly below an expression. -/
def parts : Expr → List Expr
  | id .. | literal .. => []
  | unary _ e _ | cast _ e _ => [e]
  | binary _ l r _ => [l, r]
  | assign _ t v _ => [t, v]
  | index a i _ => [a, i]
  | ternary p t e _ => [p, t, e]
  | call _ args _ => args
  | initList items _ | comma items _ => items

theorem subexprsList_eq (items : List Expr) : subexprsList items = items.flatMap subexprs := by
  induction items with
  | nil => rfl
  | cons e rest ih => rw [subexprsList, List.flatMap_cons, ih]

theorem subexprs_eq (e : Expr) : e.subexprs = e :: e.parts.flatMap subexprs := by
  cases e <;> simp [subexprs, parts, subexprsList_eq]

/-- The property holds of the expression and of all below it. -/
def Everywhere (p : Expr → Prop) (e : Expr) : Prop :=
  ∀ s ∈ e.subexprs, p s

variable {p q : Expr → Prop}

theorem Everywhere.imp {e : Expr} (h : e.Everywhere p) (hpq : ∀ s, p s → q s) : e.Everywhere q :=
  fun s hs => hpq s (h s hs)

/-- A property holds everywhere if it holds of the node and everywhere in its parts. -/
theorem everywhere_iff {e : Expr} :
    e.Everywhere p ↔ p e ∧ ∀ part ∈ e.parts, part.Everywhere p := by
  simp only [Everywhere]
  rw [subexprs_eq, List.forall_mem_cons]
  refine and_congr_right fun _ => ?_
  simp only [List.mem_flatMap, forall_exists_index, and_imp]
  exact ⟨fun h part hpart s hs => h s part hpart hs, fun h s part hpart hs => h part hpart s hs⟩

theorem everywhere_of_part {e part : Expr} (h : e.parts = [part]) :
    e.Everywhere p ↔ p e ∧ part.Everywhere p := by
  rw [everywhere_iff, h, List.forall_mem_singleton]

theorem everywhere_of_two_parts {e l r : Expr} (h : e.parts = [l, r]) :
    e.Everywhere p ↔ p e ∧ l.Everywhere p ∧ r.Everywhere p := by
  rw [everywhere_iff, h, List.forall_mem_cons, List.forall_mem_singleton]

@[simp] theorem everywhere_id {n : String} {c : Coord} :
    (id n c).Everywhere p ↔ p (id n c) :=
  everywhere_iff.trans (and_iff_left (List.forall_mem_nil _))

@[simp] theorem everywhere_literal {v : Literal} {c : Coord} :
    (literal v c).Everywhere p ↔ p (literal v c) :=
  everywhere_iff.trans (and_iff_left (List.forall_mem_nil _))

@[simp] theorem everywhere_binary {op : BinaryOp} {l r : Expr} {c : Coord} :
    (binary op l r c).Everywhere p ↔ p (binary op l r c) ∧ l.Everywhere p ∧ r.Everywhere p :=
  everywhere_of_two_parts rfl

@[simp] theorem everywhere_unary {op : UnaryOp} {e : Expr} {c : Coord} :
    (unary op e c).Everywhere p ↔ p (unary op e c) ∧ e.Everywhere p :=
  everywhere_of_part rfl

@[simp] theorem everywhere_assign {op : AssignOp} {t v : Expr} {c : Coord} :
    (assign op t v c).Everywhere p ↔ p (assign op t v c) ∧ t.Everywhere p ∧ v.Everywhere p :=
  everywhere_of_two_parts rfl

@[simp] theorem everywhere_ternary {a t e : Expr} {c : Coord} :
    (ternary a t e c).Everywhere p ↔
      p (ternary a t e c) ∧ a.Everywhere p ∧ t.Everywhere p ∧ e.Everywhere p := by
  rw [everywhere_iff]
  change (_ ∧ ∀ part ∈ [a, t, e], part.Everywhere p) ↔ _
  rw [List.forall_mem_cons, List.forall_mem_cons, List.forall_mem_singleton]

@[simp] theorem everywhere_call {f : String} {args : List Expr} {c : Coord} :
    (call f args c).Everywhere p ↔ p (call f args c) ∧ ∀ e ∈ args, e.Everywhere p :=
  everywhere_iff

@[simp] theorem everywhere_cast {t : ScalarType} {e : Expr} {c : Coord} :
    (cast t e c).Everywhere p ↔ p (cast t e c) ∧ e.Everywhere p :=
  everywhere_of_part rfl

@[simp] theorem everywhere_index {a i : Expr} {c : Coord} :
    (index a i c).Everywhere p ↔ p (index a i c) ∧ a.Everywhere p ∧ i.Everywhere p :=
  everywhere_of_two_parts rfl

@[simp] theorem everywhere_initList {items : List Expr} {c : Coord} :
    (initList items c).Everywhere p ↔ p (initList items c) ∧ ∀ e ∈ items, e.Everywhere p :=
  everywhere_iff

@[simp] theorem everywhere_comma {items : List Expr} {c : Coord} :
    (comma items c).Everywhere p ↔ p (comma items c) ∧ ∀ e ∈ items, e.Everywhere p :=
  everywhere_iff

/-- An expression has no side effects if none of its parts writes. -/
theorem everywhere_writeTarget? {e : Expr} :
    e.Everywhere (·.writeTarget? = none) ↔ e.hasSideEffects = false := by
  simp [Everywhere, hasSideEffects]

theorem hasSideEffects_eq (e : Expr) :
    e.hasSideEffects = (e.writeTarget?.isSome || e.parts.any hasSideEffects) := by
  rw [hasSideEffects, subexprs_eq, List.any_cons, List.any_flatMap]
  rfl

/-- Expressions have side effects alike if they write alike and their parts do. -/
theorem hasSideEffects_congr {e e' : Expr}
    (hwrites : e.writeTarget?.isSome = e'.writeTarget?.isSome)
    (hparts : e.parts.any hasSideEffects = e'.parts.any hasSideEffects) :
    e.hasSideEffects = e'.hasSideEffects := by
  rw [hasSideEffects_eq e, hasSideEffects_eq e', hwrites, hparts]

end Expr

end MathKernel
