import MathKernel.Proofs.Normalize.CoercedValues

/-!
# Truth values as integers

Under the rules of this file true is the integer one and false the integer zero, and there are no
other conversions. So an operator or an assignment does the same with a truth value as with the
integer in its place, and expressions whose parts are alike up to this are alike.

## Main definitions

* `Scalar.number` — a value, with an integer in the place of a truth value
* `Rules.identified` — the rules without conversions that do not tell the two apart
* `Action.Alike`, `Expr.Alike` — the same effects, and the same values up to truth values

## Main results

* `Action.Alike.bind_eq` — what does not tell the two apart, after computations that are alike
* `Expr.EvalAlike.binary` and the lemmas after it — expressions with parts that are alike
-/

namespace MathKernel

/-! ### Values -/

namespace Scalar

/-- The value, with the integer that stands for it in the place of a truth value. -/
def number : Scalar → Scalar
  | bool b => int (bit b)
  | v => v

@[simp] theorem number_number (v : Scalar) : v.number.number = v.number := by
  cases v <;> rfl

@[simp] theorem convert_number (v : Scalar) (t : ScalarType) :
    v.number.convert t = v.convert t := by
  cases v with
  | bool b => cases t <;> cases b <;> rfl
  | _ => rfl

/-- The value is true, false or an integer that stands for one of them, or no value. -/
def IsTruth (v : Scalar) : Prop :=
  (v.convert .bool).number = v.number

theorem isTruth_of_type {v : Scalar} (h : v.type = .bool) : v.IsTruth := by
  obtain ⟨b, rfl⟩ := exists_bool h
  rfl

theorem isTruth_convert (v : Scalar) : (v.convert .bool).IsTruth := by
  cases v <;> rfl

theorem IsTruth.of_number {v w : Scalar} (h : w.IsTruth) (heq : v.number = w.number) :
    v.IsTruth := by
  have hconvert : v.convert .bool = w.convert .bool := by
    rw [← convert_number v, heq, convert_number]
  rw [IsTruth, hconvert, heq]
  exact h

theorem IsTruth.number_convert_int {v : Scalar} (h : v.IsTruth) :
    (v.convert .int).number = v.number := by
  cases v with
  | float q => cases h
  | _ => rfl

end Scalar

namespace Rules

open Scalar

/-- The rules without conversions, where true and false are the integers one and zero. -/
def identified : Rules where
  adapt t v :=
    match t, v.number with
    | .bool, .int 0 => .bool false
    | .bool, .int 1 => .bool true
    | _, w => w
  promote := number
  balance v w := (v.number, w.number)
  join _ _ v := v
  truth b := .bool b
  quotient a b := .float (a / b)
  remainder _ _ := none

variable (v w : Scalar)

theorem adapt_number (t : ScalarType) : identified.adapt t v.number = identified.adapt t v := by
  cases v <;> rfl

@[simp] theorem expect?_number (t : ScalarType) :
    identified.expect? t v.number = identified.expect? t v := by
  rw [expect?, expect?, adapt_number]

@[simp] theorem condition?_number : identified.condition? v.number = identified.condition? v := by
  rw [condition?, condition?, adapt_number]

@[simp] theorem argument?_number (param : Option ScalarType) :
    identified.argument? param v.number = identified.argument? param v := by
  cases param with
  | none => exact congrArg some (number_number v)
  | some t => exact expect?_number v t

@[simp] theorem binary_number_left (op : BinaryOp) :
    identified.binary op v.number w = identified.binary op v w := by
  simp only [binary, identified, number_number]

@[simp] theorem binary_number_right (op : BinaryOp) :
    identified.binary op v w.number = identified.binary op v w := by
  simp only [binary, identified, number_number]

@[simp] theorem unary_number (op : UnaryOp) :
    identified.unary op v.number = identified.unary op v := by
  have hpromote : identified.promote v.number = identified.promote v := number_number v
  simp only [unary, hpromote, condition?_number]

end Rules

/-! ### Computations -/

namespace Action

open Scalar

variable {α : Type} {x y z : Action Scalar}

/-- The computations have the same effects and the same results, up to truth values. -/
def Alike (x y : Action Scalar) : Prop :=
  (x >>= fun v => pure v.number) = y >>= fun v => pure v.number

theorem Alike.refl (x : Action Scalar) : x.Alike x := rfl

theorem Alike.of_eq (h : x = y) : x.Alike y :=
  h ▸ .refl x

theorem Alike.trans (h : x.Alike y) (h' : y.Alike z) : x.Alike z :=
  Eq.trans h h'

theorem Alike.symm (h : x.Alike y) : y.Alike x :=
  Eq.symm h

theorem bind_number (x : Action Scalar) {f : Scalar → Action α} (hf : ∀ v, f v.number = f v) :
    (x >>= fun v => pure v.number) >>= f = x >>= f := by
  rw [bind_assoc]
  exact bind_congr fun v => by rw [pure_bind, hf]

/-- What does not tell truth values from integers does the same after computations that are
alike. -/
theorem Alike.bind_eq (h : x.Alike y) {f g : Scalar → Action α} (hf : ∀ v, f v.number = f v)
    (hfg : ∀ v, f v = g v) : x >>= f = y >>= g := by
  rw [← bind_congr hfg, ← bind_number x hf, ← bind_number y hf, h]

theorem Alike.bind (h : x.Alike y) {f g : Scalar → Action Scalar} (hf : ∀ v, f v.number = f v)
    (hfg : ∀ v, (f v).Alike (g v)) : (x >>= f).Alike (y >>= g) := by
  unfold Alike
  rw [bind_assoc, bind_assoc]
  exact h.bind_eq (fun v => by rw [hf]) hfg

theorem alike_bind (a : Action α) {f g : α → Action Scalar} (hfg : ∀ b, (f b).Alike (g b)) :
    (a >>= f).Alike (a >>= g) := by
  unfold Alike
  rw [bind_assoc, bind_assoc]
  exact bind_congr hfg

/-- Storing does not tell truth values from integers. -/
theorem store_number (c : Cell) (v : Scalar) :
    store .identified c v.number = store .identified c v := by
  rw [store, store, Rules.expect?_number]

end Action

/-! ### Expressions -/

open MathKernel.Action Scalar

/-- A subscript is not told from the integer in its place. -/
theorem Binding.element_number (b : Binding) (v : Scalar) :
    b.element .identified v.number = b.element .identified v := by
  rw [Binding.element, Binding.element, Rules.expect?_number]

namespace Expr

variable {calls : Calls} {ctx : Context}

/-- Evaluating the expressions has the same effects and gives the same values up to truth values. -/
abbrev EvalAlike (calls : Calls) (ctx : Context) (e e' : Expr) : Prop :=
  (e.eval .identified calls ctx).Alike (e'.eval .identified calls ctx)

/-- The expressions evaluate alike, and name the same array or text if they name one. -/
structure Alike (calls : Calls) (ctx : Context) (e e' : Expr) : Prop where
  array : ctx.array? e = ctx.array? e'
  text : e.text? = e'.text?
  eval : EvalAlike calls ctx e e'

/-- The expressions are alike, and name the same cell if they name one. -/
structure StandsFor (calls : Calls) (ctx : Context) (e e' : Expr) : Prop where
  alike : e.Alike calls ctx e'
  cell : e.evalCell .identified calls ctx = e'.evalCell .identified calls ctx

theorem StandsFor.refl (e : Expr) : e.StandsFor calls ctx e :=
  ⟨⟨rfl, rfl, .refl _⟩, rfl⟩

theorem array?_of_isPlace {e : Expr} (h : e.isPlace = false) : ctx.array? e = none := by
  cases e with
  | id name c => cases h
  | _ => rfl

theorem evalCell_of_isPlace {e : Expr} (h : e.isPlace = false) (rules : Rules) :
    e.evalCell rules calls ctx = .stuck := by
  cases e with
  | id | index => cases h
  | _ => rfl

theorem EvalAlike.alike {e e' : Expr} (h : EvalAlike calls ctx e e') (hvalue : e.IsValue ctx)
    (hvalue' : e'.IsValue ctx) : e.Alike calls ctx e' :=
  ⟨hvalue.array.trans hvalue'.array.symm, hvalue.text.trans hvalue'.text.symm, h⟩

/-- Only variables and elements of arrays name arrays and cells. -/
theorem EvalAlike.standsFor {e e' : Expr} (h : EvalAlike calls ctx e e')
    (hplace : e.isPlace = false) (hplace' : e'.isPlace = false) (htext : e.text? = e'.text?) :
    e.StandsFor calls ctx e' where
  alike := ⟨(array?_of_isPlace hplace).trans (array?_of_isPlace hplace').symm, htext, h⟩
  cell := (evalCell_of_isPlace hplace _).trans (evalCell_of_isPlace hplace' _).symm

section Parts

variable {l l' r r' p p' : Expr} (c c' : Coord)

theorem EvalAlike.binary (hl : EvalAlike calls ctx l l') (hr : EvalAlike calls ctx r r')
    (op : BinaryOp) : EvalAlike calls ctx (binary op l r c) (binary op l' r' c') := by
  refine .of_eq ?_
  rw [Expr.eval, Expr.eval]
  refine hl.bind_eq (fun v => by simp) fun v => ?_
  split
  · refine bind_congr fun b => ?_
    split
    · rfl
    · exact hr.bind_eq (fun w => by simp) fun w => rfl
  · exact hr.bind_eq (fun w => by simp) fun w => rfl

theorem EvalAlike.unary {op : UnaryOp} (h : EvalAlike calls ctx l l')
    (hcell : op.isMutating →
      l.evalCell .identified calls ctx = l'.evalCell .identified calls ctx) :
    EvalAlike calls ctx (unary op l c) (unary op l' c') := by
  refine .of_eq ?_
  rw [Expr.eval, Expr.eval]
  split
  · next hop => rw [hcell hop]
  · exact h.bind_eq (fun v => by simp) fun v => rfl

theorem EvalAlike.assign
    (hcell : l.evalCell .identified calls ctx = l'.evalCell .identified calls ctx)
    (hr : EvalAlike calls ctx r r') (op : AssignOp) :
    EvalAlike calls ctx (assign op l r c) (assign op l' r' c') := by
  refine .of_eq ?_
  rw [Expr.eval, Expr.eval, hcell]
  refine bind_congr fun cell => ?_
  split
  · exact hr.bind_eq (store_number cell) fun v => rfl
  · exact bind_congr fun old => hr.bind_eq (fun v => by simp) fun v => rfl

theorem EvalAlike.ternary (hp : EvalAlike calls ctx p p') (hl : EvalAlike calls ctx l l')
    (hr : EvalAlike calls ctx r r') :
    EvalAlike calls ctx (ternary p l r c) (ternary p' l' r' c') := by
  unfold EvalAlike
  rw [Expr.eval, Expr.eval]
  refine hp.bind (fun v => by simp) fun v => alike_bind _ fun b => ?_
  -- The value of a branch is kept as it is.
  cases b with
  | false =>
    change (r.eval .identified calls ctx >>= pure).Alike (r'.eval .identified calls ctx >>= pure)
    rwa [bind_pure, bind_pure]
  | true =>
    change (l.eval .identified calls ctx >>= pure).Alike (l'.eval .identified calls ctx >>= pure)
    rwa [bind_pure, bind_pure]

theorem EvalAlike.cast (h : EvalAlike calls ctx l l') (t : ScalarType) :
    EvalAlike calls ctx (cast t l c) (cast t l' c') := by
  refine .of_eq ?_
  rw [Expr.eval, Expr.eval]
  exact h.bind_eq (fun v => by simp) fun v => rfl

/-- Of two parts of a subscripted expression one is the array, the other is evaluated. -/
theorem Alike.index (hl : l.Alike calls ctx l') (hr : r.Alike calls ctx r') :
    (index l r c).StandsFor calls ctx (index l' r' c') := by
  have helement : ctx.element .identified l r (l.eval .identified calls ctx)
        (r.eval .identified calls ctx) =
      ctx.element .identified l' r' (l'.eval .identified calls ctx)
        (r'.eval .identified calls ctx) := by
    rw [Context.element, Context.element, hl.array, hr.array]
    split
    · exact hr.eval.bind_eq (Binding.element_number _) fun v => rfl
    · exact hl.eval.bind_eq (Binding.element_number _) fun v => rfl
    · rfl
  refine ⟨⟨rfl, rfl, .of_eq ?_⟩, helement⟩
  rw [Expr.eval, Expr.eval, helement]

theorem Alike.argument (h : l.Alike calls ctx l') (param : Option ScalarType) :
    ctx.argument .identified param l (l.eval .identified calls ctx) =
      ctx.argument .identified param l' (l'.eval .identified calls ctx) := by
  rw [Context.argument, Context.argument, h.array, h.text]
  split
  · rfl
  · rfl
  · exact h.eval.bind_eq (fun v => by simp) fun v => rfl

section Lists

variable {items items' : List Expr}

theorem evalArgs_alike (h : List.Forall₂ (Alike calls ctx) items items')
    (signature : Option Signature) (i : Nat) :
    evalArgs .identified calls ctx signature i items =
      evalArgs .identified calls ctx signature i items' := by
  induction h generalizing i with
  | nil => rfl
  | cons h _ ih => rw [evalArgs, evalArgs, h.argument, ih]

theorem Alike.call (h : List.Forall₂ (Alike calls ctx) items items') (f : String) :
    EvalAlike calls ctx (call f items c) (call f items' c') := by
  refine .of_eq ?_
  rw [Expr.eval, Expr.eval, evalArgs_alike h]

theorem evalLast_alike (h : List.Forall₂ (EvalAlike calls ctx) items items') :
    (evalLast .identified calls ctx items).Alike (evalLast .identified calls ctx items') := by
  induction h with
  | nil => exact .refl _
  | cons h hrest ih =>
    cases hrest with
    | nil => exact h
    | cons => exact h.bind (fun _ => rfl) fun _ => ih

theorem EvalAlike.comma (h : List.Forall₂ (EvalAlike calls ctx) items items') :
    EvalAlike calls ctx (comma items c) (comma items' c') := by
  unfold EvalAlike
  rw [Expr.eval, Expr.eval]
  exact evalLast_alike h

end Lists

end Parts

end Expr

end MathKernel
