import MathKernel.Proofs.Semantics.Evaluation
import MathKernel.Proofs.Syntax.Positions

/-!
# Evaluation without positions

Neither the type of an expression nor its value depends on where it stands in a file, so that
expressions that are equal up to positions have one type and one value.

## Main results

* `Expr.erase_eq_of_same` — expressions that are equal up to positions
* `Expr.ctype_erase`, `Expr.eval_erase` — types and values without positions
-/

namespace MathKernel

namespace Expr

variable (rules : Rules) (calls : Calls) (ctx : Context)

mutual

theorem erase_eq_of_same (e e' : Expr) (h : e.same e') : e.erase = e'.erase := by
  -- Only equal constructors have parts to compare.
  cases e <;> cases e' <;>
    first
    | cases h
    | simp only [same, Bool.and_eq_true, beq_iff_eq] at h
  case id => rw [erase, erase, h]
  case literal => rw [erase, erase, h]
  case binary op l r _ op' l' r' _ =>
    rw [erase, erase, h.1.1, erase_eq_of_same l l' h.1.2, erase_eq_of_same r r' h.2]
  case unary op e _ op' e' _ => rw [erase, erase, h.1, erase_eq_of_same e e' h.2]
  case assign op t v _ op' t' v' _ =>
    rw [erase, erase, h.1.1, erase_eq_of_same t t' h.1.2, erase_eq_of_same v v' h.2]
  case ternary p t e _ p' t' e' _ =>
    rw [erase, erase, erase_eq_of_same p p' h.1.1, erase_eq_of_same t t' h.1.2,
      erase_eq_of_same e e' h.2]
  case call f args _ f' args' _ => rw [erase, erase, h.1, eraseList_eq_of_sameList args args' h.2]
  case cast t e _ t' e' _ => rw [erase, erase, h.1, erase_eq_of_same e e' h.2]
  case index a i _ a' i' _ =>
    rw [erase, erase, erase_eq_of_same a a' h.1, erase_eq_of_same i i' h.2]
  case initList items _ items' _ => rw [erase, erase, eraseList_eq_of_sameList items items' h]
  case comma items _ items' _ => rw [erase, erase, eraseList_eq_of_sameList items items' h]

theorem eraseList_eq_of_sameList (items items' : List Expr) (h : sameList items items') :
    eraseList items = eraseList items' := by
  cases items with
  | nil =>
    cases items' with
    | nil => rfl
    | cons => cases h
  | cons e rest =>
    cases items' with
    | nil => cases h
    | cons e' rest' =>
      rw [sameList, Bool.and_eq_true] at h
      rw [eraseList, eraseList, erase_eq_of_same e e' h.1, eraseList_eq_of_sameList rest rest' h.2]

end

mutual

@[simp] theorem ctype_erase (e : Expr) : e.erase.ctype ctx = e.ctype ctx := by
  cases e with
  | id | literal | call | cast | initList => rfl
  | binary op l r c => rw [erase, ctype, ctype, ctype_erase l, ctype_erase r]
  | unary op e c => rw [erase, ctype, ctype, ctype_erase e]
  | assign op t v c => rw [erase, ctype, ctype, ctype_erase t]
  | ternary p t e c => rw [erase, ctype, ctype, ctype_erase t, ctype_erase e]
  | index a i c => rw [erase, ctype, ctype, ctype_erase a]
  | comma items c => rw [erase, ctype, ctype, lastCtype_eraseList items]

theorem lastCtype_eraseList (items : List Expr) :
    lastCtype ctx (eraseList items) = lastCtype ctx items := by
  match items with
  | [] => rfl
  | [e] => exact ctype_erase e
  | e :: e' :: rest => exact lastCtype_eraseList (e' :: rest)

end

@[simp] theorem array?_erase (e : Expr) : ctx.array? e.erase = ctx.array? e := by
  cases e <;> rfl

@[simp] theorem text?_erase (e : Expr) : e.erase.text? = e.text? := by
  cases e with
  | literal v c => obtain ⟨kind, text⟩ := v; cases kind <;> rfl
  | _ => rfl

theorem element_erase (a i : Expr) (evalA evalI : Action Scalar) :
    ctx.element rules a.erase i.erase evalA evalI = ctx.element rules a i evalA evalI := by
  rw [Context.element, Context.element, array?_erase, array?_erase]

theorem argument_erase (param : Option ScalarType) (e : Expr) (evalE : Action Scalar) :
    ctx.argument rules param e.erase evalE = ctx.argument rules param e evalE := by
  rw [Context.argument, Context.argument, array?_erase, text?_erase]

mutual

@[simp] theorem eval_erase (e : Expr) :
    e.erase.eval rules calls ctx = e.eval rules calls ctx := by
  cases e with
  | id | literal | initList => simp only [erase, eval]
  | binary op l r c => rw [erase, eval, eval, eval_erase l, eval_erase r]
  | unary op e c => rw [erase, eval, eval, eval_erase e, evalCell_erase e]
  | assign op t v c => rw [erase, eval, eval, eval_erase v, evalCell_erase t]
  | ternary p t e c =>
    rw [erase, eval, eval, eval_erase p, eval_erase t, eval_erase e, ctype_erase, ctype_erase]
  | call f args c => rw [erase, eval, eval, evalArgs_eraseList _ _ args]
  | cast type e c => rw [erase, eval, eval, eval_erase e]
  | index a i c => rw [erase, eval, eval, eval_erase a, eval_erase i, element_erase]
  | comma items c => rw [erase, eval, eval, evalLast_eraseList items]

theorem evalCell_erase (e : Expr) :
    e.erase.evalCell rules calls ctx = e.evalCell rules calls ctx := by
  cases e with
  | index a i c => rw [erase, evalCell, evalCell, eval_erase a, eval_erase i, element_erase]
  | _ => rfl

theorem evalArgs_eraseList (signature : Option Signature) (i : Nat) (args : List Expr) :
    evalArgs rules calls ctx signature i (eraseList args) =
      evalArgs rules calls ctx signature i args := by
  cases args with
  | nil => rfl
  | cons e rest =>
    rw [eraseList, evalArgs, evalArgs, eval_erase e, argument_erase,
      evalArgs_eraseList signature (i + 1) rest]

theorem evalLast_eraseList (items : List Expr) :
    evalLast rules calls ctx (eraseList items) = evalLast rules calls ctx items := by
  match items with
  | [] => rfl
  | [e] => exact eval_erase e
  | e :: e' :: rest =>
    rw [eraseList, evalLast, evalLast, eval_erase e, evalLast_eraseList (e' :: rest)]
    · simp
    · simp [eraseList]

end

end Expr

end MathKernel
