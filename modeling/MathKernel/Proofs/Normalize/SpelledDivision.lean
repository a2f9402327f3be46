import MathKernel.Proofs.Normalize.TypedExpressions

/-!
# Division and remainder of integers are spelled out

What a quotient of integers is depends on who reads it: a fraction to one dialect, truncated to
the other. So in a converted body each of them stands directly below a truncation, and remainders of
integers are calls. A compound assignment to an integer is written out unless that would evaluate
effects of its target twice.

## Main definitions

* `Expr.IsIntQuotient` — a quotient of integers
* `Expr.SpellsDivisionAt`, `Expr.SpellsDivision` — what is left at a node, and in an expression

## Main results

* `Expr.spellsDivision_of_count` — an expression in which a conversion changes nothing
* `SourceUnit.spellsDivision_coerced` — converted units
-/

namespace MathKernel

namespace Expr

/-- A quotient whose operands are found to be integers. -/
def IsIntQuotient (env : TypeEnv) : Expr → Prop
  | binary op l r _ => op = .div ∧ l.typeIn env = .int ∧ r.typeIn env = .int
  | _ => False

instance (env : TypeEnv) : (e : Expr) → Decidable (e.IsIntQuotient env)
  | binary .. => inferInstanceAs (Decidable (_ ∧ _ ∧ _))
  | id .. | literal .. | unary .. | assign .. | ternary .. | call .. | cast .. | index ..
  | initList .. | comma .. => inferInstanceAs (Decidable False)

/-- The expression is the call of a truncation. -/
def isTruncation : Expr → Bool
  | call callee _ _ => callee == ScalarType.int.cName
  | _ => false

/-- The node is no remainder of integers, and assigns no quotient or remainder to an integer in
place unless the target has effects. -/
def KeepsDivisionAt (env : TypeEnv) : Expr → Prop
  | binary op l r _ => op = .mod → l.typeIn env = .int → r.typeIn env ≠ .int
  | assign op target value _ =>
    op = .div ∨ op = .mod ∧ value.typeIn env = .int →
      target.typeIn env = .int → target.hasSideEffects = true
  | _ => True

instance (env : TypeEnv) : (e : Expr) → Decidable (e.KeepsDivisionAt env)
  | binary .. => inferInstanceAs (Decidable (_ → _ → _ ≠ _))
  | assign .. => inferInstanceAs (Decidable (_ → _ → _ = _))
  | id .. | literal .. | unary .. | ternary .. | call .. | cast .. | index .. | initList ..
  | comma .. => inferInstanceAs (Decidable True)

/-- No division of integers is left implicit at a node: of its parts only the first argument of a
truncation is a quotient of integers. -/
def SpellsDivisionAt (env : TypeEnv) (e : Expr) : Prop :=
  e.KeepsDivisionAt env ∧
    ∀ part ∈ e.parts.zipIdx, part.1.IsIntQuotient env → e.isTruncation = true ∧ part.2 = 0

instance (env : TypeEnv) (e : Expr) : Decidable (e.SpellsDivisionAt env) :=
  inferInstanceAs (Decidable (_ ∧ ∀ part ∈ _, _ → _ ∧ _))

/-- No division of integers is left implicit in an expression, which is a quotient of integers
itself only if it is the argument of a truncation. -/
def SpellsDivision (env : TypeEnv) (truncated : Bool) (e : Expr) : Prop :=
  e.Everywhere (SpellsDivisionAt env) ∧ (e.IsIntQuotient env → truncated = true)

variable {env : TypeEnv} {again : Expr → Counted Expr}

/-! ### Nodes -/

/-- Below a node that is no call, every part spells out its divisions. -/
theorem spellsDivision_of_parts {e : Expr} (h : e.KeepsDivisionAt env)
    (hparts : ∀ part ∈ e.parts, part.SpellsDivision env false) {truncated : Bool}
    (hself : e.IsIntQuotient env → truncated = true) : e.SpellsDivision env truncated := by
  refine ⟨everywhere_iff.2 ⟨⟨h, fun part hpart hquotient => ?_⟩, ?_⟩, hself⟩
  · cases (hparts part.1 (List.fst_mem_of_mem_zipIdx hpart)).2 hquotient
  · exact fun part hpart => (hparts part hpart).1

/-- Integers are divided without a truncation only below one, and have no remainder. -/
theorem count_applyBinary_int {op : BinaryOp} {truncated : Bool} {l r : Expr} {c : Coord}
    (h : (applyBinary op .int truncated l r c).count = 0) :
    op ≠ .mod ∧ (op = .div → truncated = true) := by
  constructor
  · rintro rfl
    cases h
  · rintro rfl
    cases truncated with
    | false => cases h
    | true => rfl

/-- The types of the operands are integers, and so is the common type of a quotient or remainder. -/
theorem operandType_int {op : BinaryOp} {s t : ScalarType} (hop : op = .div ∨ op = .mod)
    (hs : s = .int) (ht : t = .int) : operandType op s t = .int := by
  subst hs ht
  obtain rfl | rfl := hop <;> rfl

theorem spellsDivision_binary {op : BinaryOp} {l r l' r' : Expr} {c : Coord} {truncated : Bool}
    (hl : l.SpellsDivision env false) (hr : r.SpellsDivision env false)
    (h : (applyBinary op (operandType op (l.typeIn env) (r.typeIn env)) truncated l' r' c).count =
      0) : (binary op l r c).SpellsDivision env truncated := by
  refine spellsDivision_of_parts ?_ ?_ ?_
  · intro hop hlint hrint
    rw [operandType_int (.inr hop) hlint hrint] at h
    exact (count_applyBinary_int h).1 hop
  · exact List.forall_mem_cons.2 ⟨hl, List.forall_mem_singleton.2 hr⟩
  · rintro ⟨hop, hlint, hrint⟩
    rw [operandType_int (.inl hop) hlint hrint] at h
    exact (count_applyBinary_int h).2 hop

/-- Conversions of its parts give no target effects, so one that is not written out for its effects
had them before. -/
theorem keepsDivisionAt_assign (again : Expr → Counted Expr) {op : AssignOp} {t v : Expr}
    {c : Coord}
    (h : ∀ b ∈ op.binary?, isWrittenOut b (t.typeIn env) (v.typeIn env)
      (t.coercedWith again env false).value = false) :
    (assign op t v c).KeepsDivisionAt env := by
  rintro hop htarget
  by_contra heffects
  rw [Bool.not_eq_true] at heffects
  have hout : (t.coercedWith again env false).value.hasSideEffects = false :=
    (hasSideEffects_coercedWith false t).trans heffects
  obtain rfl | ⟨rfl, -⟩ := hop
  · simpa [isWrittenOut, htarget, hout] using h .div rfl
  · simpa [isWrittenOut, htarget, hout] using h .mod rfl

mutual

/-- In an expression in which a conversion changes nothing, divisions of integers are spelled
out. -/
theorem spellsDivision_of_count (truncated : Bool) (e : Expr)
    (h : (e.coercedWith again env truncated).count = 0) : e.SpellsDivision env truncated := by
  cases e with
  | id n c | literal v c =>
    refine spellsDivision_of_parts (by trivial) ?_ nofun
    exact List.forall_mem_nil _
  | binary op l r c =>
    simp only [coercedWith, Counted.count_bind, Nat.add_eq_zero_iff] at h
    obtain ⟨hl, hr, -, -, happly⟩ := h
    exact spellsDivision_binary (spellsDivision_of_count false l hl)
      (spellsDivision_of_count false r hr) happly
  | unary op e c =>
    simp only [coercedWith, Counted.count_bind, Nat.add_eq_zero_iff] at h
    refine spellsDivision_of_parts (by trivial) ?_ nofun
    exact List.forall_mem_singleton.2 (spellsDivision_of_count false e h.1)
  | assign op t v c =>
    simp only [coercedWith, Counted.count_bind, Nat.add_eq_zero_iff] at h
    obtain ⟨ht, hv, hvalue⟩ := h
    refine spellsDivision_of_parts (keepsDivisionAt_assign again ?_) ?_ nofun
    · rintro b hb
      rw [Option.mem_def.1 hb] at hvalue
      by_contra hout
      rw [Bool.not_eq_false] at hout
      -- An assignment that is written out is itself counted.
      simp only [hout, if_true, Counted.count_bind, Nat.add_eq_zero_iff,
        Counted.count_change] at hvalue
      cases hvalue.2.2
    · exact List.forall_mem_cons.2 ⟨spellsDivision_of_count false t ht,
        List.forall_mem_singleton.2 (spellsDivision_of_count false v hv)⟩
  | ternary p t e c =>
    simp only [coercedWith, Counted.count_bind, Nat.add_eq_zero_iff] at h
    obtain ⟨hp, -, ht, he, -⟩ := h
    refine spellsDivision_of_parts (by trivial) ?_ nofun
    exact List.forall_mem_cons.2 ⟨spellsDivision_of_count false p hp, List.forall_mem_cons.2
      ⟨spellsDivision_of_count false t ht,
        List.forall_mem_singleton.2 (spellsDivision_of_count false e he)⟩⟩
  | call f args c =>
    simp only [coercedWith, Counted.count_bind, Nat.add_eq_zero_iff] at h
    obtain ⟨hquotients, hargs⟩ := spellsDivision_of_count_args _ _ 0 args h.1
    exact ⟨everywhere_call.2 ⟨⟨trivial, hquotients⟩, hargs⟩, nofun⟩
  | cast type e c =>
    simp only [coercedWith, Counted.count_bind, Nat.add_eq_zero_iff] at h
    refine spellsDivision_of_parts (by trivial) ?_ nofun
    exact List.forall_mem_singleton.2 (spellsDivision_of_count false e h.1)
  | index a i c =>
    simp only [coercedWith, Counted.count_bind, Nat.add_eq_zero_iff] at h
    refine spellsDivision_of_parts (by trivial) ?_ nofun
    exact List.forall_mem_cons.2 ⟨spellsDivision_of_count false a h.1,
      List.forall_mem_singleton.2 (spellsDivision_of_count false i h.2.1)⟩
  | initList items c | comma items c =>
    simp only [coercedWith, Counted.count_bind, Nat.add_eq_zero_iff] at h
    refine spellsDivision_of_parts (by trivial) ?_ nofun
    exact spellsDivision_of_count_list items h.1

theorem spellsDivision_of_count_args (truncates : Bool) (signature : Option Signature) (i : Nat)
    (args : List Expr) (h : (coercedArgs again env truncates signature i args).count = 0) :
    (∀ arg ∈ args.zipIdx i, arg.1.IsIntQuotient env → truncates = true ∧ arg.2 = 0) ∧
      ∀ e ∈ args, e.Everywhere (SpellsDivisionAt env) := by
  cases args with
  | nil => exact ⟨List.forall_mem_nil _, List.forall_mem_nil _⟩
  | cons e rest =>
    simp only [coercedArgs, Counted.count_bind, Nat.add_eq_zero_iff] at h
    obtain ⟨heverywhere, hquotient⟩ := spellsDivision_of_count _ e h.1
    obtain ⟨hquotients, hrest⟩ :=
      spellsDivision_of_count_args truncates signature (i + 1) rest h.2.2.1
    rw [List.zipIdx_cons]
    refine ⟨List.forall_mem_cons.2 ⟨fun h => ?_, hquotients⟩,
      List.forall_mem_cons.2 ⟨heverywhere, hrest⟩⟩
    simpa using hquotient h

theorem spellsDivision_of_count_list (items : List Expr)
    (h : (coercedList again env items).count = 0) : ∀ e ∈ items, e.SpellsDivision env false := by
  cases items with
  | nil => exact List.forall_mem_nil _
  | cons e rest =>
    simp only [coercedList, Counted.count_bind, Nat.add_eq_zero_iff] at h
    exact List.forall_mem_cons.2
      ⟨spellsDivision_of_count false e h.1, spellsDivision_of_count_list rest h.2.1⟩

end

end Expr

/-! ### Units -/

/-- In the bodies of a converted unit that declares no function named like a conversion, with types
that are found again, divisions of integers are spelled out. -/
theorem SourceUnit.spellsDivision_coerced {u : SourceUnit} (h : u.keepsConversions) :
    ∀ f ∈ u.coerced.1.funcs, ∀ x ∈ f.typedExprs (TypeEnv.ofUnit u.coerced.1),
      x.2.SpellsDivision x.1 false := by
  intro f hf x hx
  have hcount := SourceUnit.count_typedExprs_coerced h f hf x hx
  obtain ⟨again, -, heq⟩ := Expr.coerced_eq x.1 x.2
  rw [heq] at hcount
  exact Expr.spellsDivision_of_count false x.2 hcount

/-- `int f(int n, float x) { n /= 2; n %= 7; return (int) (n / 3 * x) + n % 5; }` -/
def dividedUnit : SourceUnit :=
  ⟨[intFunction [.ofScalar "n" .int none, .ofScalar "x" .float none] [
    .expr (.assign .div (.id "n" none) (.int 2 none) none) none,
    .expr (.assign .mod (.id "n" none) (.int 7 none) none) none,
    .ret (some (.binary .add
      (.cast .int (.binary .mul (.binary .div (.id "n" none) (.int 3 none) none) (.id "x" none)
        none) none)
      (.binary .mod (.id "n" none) (.int 5 none) none) none)) none]], none⟩

theorem spellsDivision_coerced_divided :
    dividedUnit.keepsConversions ∧ dividedUnit.coerced.2.isNoop = false ∧
      ∀ f ∈ dividedUnit.coerced.1.funcs,
        ∀ x ∈ f.typedExprs (TypeEnv.ofUnit dividedUnit.coerced.1),
          x.2.SpellsDivision x.1 false := by
  have hnames : dividedUnit.keepsConversions := by decide
  exact ⟨hnames, by decide +kernel, SourceUnit.spellsDivision_coerced hnames⟩

/-! ### What is left

A target with effects is evaluated once, the sizes of arrays are not converted, and nothing is
truncated again below a truncation, also if it has more arguments. -/

/-- `int f(int n, int a[2]) { float b[n / 2]; a[n++] /= 2; a[n++] %= 2; return int(n / 2, n); }` -/
def dividedInPlace : SourceUnit :=
  ⟨[intFunction [.ofScalar "n" .int none, .ofArray "a" .int (some 2) none] [
    .decl { Decl.ofArray "b" .float none none with
      type := .array (.element (.ofScalar (some "b") .float))
        (some (.binary .div (.id "n" none) (.int 2 none) none)) none } none,
    .expr (.assign .div (.index (.id "a" none) (.unary .postInc (.id "n" none) none) none)
      (.int 2 none) none) none,
    .expr (.assign .mod (.index (.id "a" none) (.unary .postInc (.id "n" none) none) none)
      (.int 2 none) none) none,
    .ret (some (.call "int" [.binary .div (.id "n" none) (.int 2 none) none, .id "n" none] none))
      none]], none⟩

/-- The node assigns to an integer what an operation on it and another integer gives. -/
def Expr.AssignsIntInPlace (env : TypeEnv) (op : AssignOp) : Expr → Prop
  | assign op' target value _ => op' = op ∧ target.typeIn env = .int ∧ value.typeIn env = .int
  | _ => False

instance (env : TypeEnv) (op : AssignOp) : (e : Expr) → Decidable (e.AssignsIntInPlace env op)
  | .assign .. => inferInstanceAs (Decidable (_ ∧ _ ∧ _))
  | .id .. | .literal .. | .binary .. | .unary .. | .ternary .. | .call .. | .cast .. | .index ..
  | .initList .. | .comma .. => inferInstanceAs (Decidable False)

theorem divides_coerced_dividedInPlace :
    dividedInPlace.keepsConversions ∧ ∃ f ∈ dividedInPlace.coerced.1.funcs,
      (∃ d ∈ f.body.decls, ∃ size ∈ d.size?.toList,
        size.IsIntQuotient (f.bodyEnv (TypeEnv.ofUnit dividedInPlace))) ∧
      (∃ e ∈ f.body.exprs,
        e.AssignsIntInPlace (f.bodyEnv (TypeEnv.ofUnit dividedInPlace)) .div) ∧
      (∃ e ∈ f.body.exprs,
        e.AssignsIntInPlace (f.bodyEnv (TypeEnv.ofUnit dividedInPlace)) .mod) ∧
      ∃ e ∈ f.body.exprs, e.parts.length ≠ 1 ∧ ∃ part ∈ e.parts,
        part.IsIntQuotient (f.bodyEnv (TypeEnv.ofUnit dividedInPlace)) := by
  decide +kernel

end MathKernel
