import MathKernel.Proofs.Normalize.CoercedExpressions
import MathKernel.Proofs.Normalize.FoldedIdioms
import MathKernel.Proofs.Normalize.Positions
import MathKernel.Proofs.Semantics.Erasure

/-!
# Types of folded absolute values

A conditional that spells an absolute value is folded into a call of a function of floating numbers.
So where the conditional is an integer, its type is raised to `float`, and with it the types of
what is computed from it. Sums, products and comparisons of integers are the same when these are
taken for floating numbers; quotients, remainders and bits are not.

## Main definitions

* `Expr.folded` — an expression with its absolute values folded
* `ScalarType.RaisedTo` — a type, or `float` in the place of an integer
* `Expr.isFoldable` — what a node must be like for its value to be kept

## Main results

* `Rules.explicit_binary_raised`, `Rules.explicit_unary_raised` — operators on raised operands
* `Expr.exists_of_spelled` — how an absolute value is spelled
* `Expr.raisedTo_folded` — the type of a folded expression
-/

namespace MathKernel

open MathKernel.Action Scalar

/-! ### Folding -/

namespace Expr

/-- The absolute value that a node spells out, or else the node. -/
def foldNode (e : Expr) : Expr :=
  (foldIdiom? absOperand? "abs" e).getD e

/-- The expression with the absolute values folded that it spells out. -/
def folded (e : Expr) : Expr :=
  e.rebuild foldNode

theorem folded_eq (e : Expr) : e.folded = foldNode (e.withParts (e.parts.map folded)) :=
  rebuild_eq foldNode e

variable {c : Coord}

@[simp] theorem folded_id (name : String) : (id name c).folded = id name c := rfl

@[simp] theorem folded_literal (value : Literal) : (literal value c).folded = literal value c := rfl

@[simp] theorem folded_binary (op : BinaryOp) (l r : Expr) :
    (binary op l r c).folded = binary op l.folded r.folded c := rfl

@[simp] theorem folded_unary (op : UnaryOp) (e : Expr) :
    (unary op e c).folded = unary op e.folded c := rfl

@[simp] theorem folded_assign (op : AssignOp) (t v : Expr) :
    (assign op t v c).folded = assign op t.folded v.folded c := rfl

theorem folded_ternary (p t e : Expr) :
    (ternary p t e c).folded = foldNode (ternary p.folded t.folded e.folded c) := rfl

@[simp] theorem folded_call (f : String) (args : List Expr) :
    (call f args c).folded = call f (args.map folded) c :=
  folded_eq (call f args c)

@[simp] theorem folded_cast (type : ScalarType) (e : Expr) :
    (cast type e c).folded = cast type e.folded c := rfl

@[simp] theorem folded_index (a i : Expr) :
    (index a i c).folded = index a.folded i.folded c := rfl

@[simp] theorem folded_initList (items : List Expr) :
    (initList items c).folded = initList (items.map folded) c :=
  folded_eq (initList items c)

@[simp] theorem folded_comma (items : List Expr) :
    (comma items c).folded = comma (items.map folded) c :=
  folded_eq (comma items c)

end Expr

/-! ### Raised types -/

/-- A type stays, or `float` takes the place of an integer. -/
def ScalarType.RaisedTo (t t' : ScalarType) : Prop :=
  t' = t ∨ (t = .int ∧ t' = .float)

namespace ScalarType.RaisedTo

variable {s s' t t' : ScalarType}

theorem refl (t : ScalarType) : t.RaisedTo t :=
  .inl rfl

theorem ne_void (h : t.RaisedTo t') (ht : t ≠ .void) : t' ≠ .void := by
  rcases h with rfl | ⟨-, rfl⟩
  · exact ht
  · simp

theorem eq_float (h : t.RaisedTo t') (ht : t = .float) : t' = .float := by
  rcases h with rfl | ⟨rfl, -⟩
  · exact ht
  · cases ht

theorem unify (h : s.RaisedTo s') (h' : t.RaisedTo t') : (unify s t).RaisedTo (.unify s' t') := by
  rcases h with rfl | ⟨rfl, rfl⟩ <;> rcases h' with rfl | ⟨rfl, rfl⟩
  · exact refl _
  · cases s' <;> first | exact .inl rfl | exact .inr ⟨rfl, rfl⟩
  · cases t' <;> first | exact .inl rfl | exact .inr ⟨rfl, rfl⟩
  · exact .inr ⟨rfl, rfl⟩

theorem operandType (op : BinaryOp) (h : s.RaisedTo s') (h' : t.RaisedTo t') :
    (Expr.operandType op s t).RaisedTo (Expr.operandType op s' t') := by
  rcases h with rfl | ⟨rfl, rfl⟩ <;> rcases h' with rfl | ⟨rfl, rfl⟩
  · exact refl _
  · cases op <;> cases s' <;> first | exact .inl rfl | exact .inr ⟨rfl, rfl⟩
  · cases op <;> cases t' <;> first | exact .inl rfl | exact .inr ⟨rfl, rfl⟩
  · cases op <;> first | exact .inl rfl | exact .inr ⟨rfl, rfl⟩

theorem resultType (op : BinaryOp) (h : s.RaisedTo s') (h' : t.RaisedTo t') :
    (op.resultType s t).RaisedTo (op.resultType s' t') := by
  rcases h with rfl | ⟨rfl, rfl⟩ <;> rcases h' with rfl | ⟨rfl, rfl⟩
  · exact refl _
  · cases op <;> cases s' <;> first | exact .inl rfl | exact .inr ⟨rfl, rfl⟩
  · cases op <;> cases t' <;> first | exact .inl rfl | exact .inr ⟨rfl, rfl⟩
  · cases op <;> first | exact .inl rfl | exact .inr ⟨rfl, rfl⟩

theorem unary (op : UnaryOp) (h : t.RaisedTo t') :
    (op.resultType t).RaisedTo (op.resultType t') := by
  rcases h with rfl | ⟨rfl, rfl⟩
  · exact refl _
  · cases op <;> first | exact .inl rfl | exact .inr ⟨rfl, rfl⟩

end ScalarType.RaisedTo

/-- A raised value is converted as the value is. -/
theorem Scalar.Fits.convert_raised {s s' : ScalarType} {v : Scalar} (hv : v.Fits s)
    (h : s.RaisedTo s') (t : ScalarType) : (v.convert s').convert t = v.convert t := by
  rcases h with rfl | ⟨rfl, rfl⟩
  · rw [← hv.seenAs_eq, hv.convert_seenAs]
  · obtain ⟨n, rfl⟩ := exists_int (hv.type_eq (by simp))
    cases t with
    | bool => exact congrArg bool (by simp [bne])
    | _ => simp [convert]

/-- A number that is no floating number is converted to one through the integers. -/
theorem Scalar.Fits.convert_int_float {s : ScalarType} {v : Scalar} (hv : v.Fits s)
    (hs : s ≠ .float) : (v.convert .int).convert .float = v.convert .float := by
  cases v with
  | float q => exact absurd (hv.type_eq_float_iff.1 rfl) hs
  | int | bool | void => rfl

/-- The type of a result is found from the type that the operands are converted to. -/
theorem BinaryOp.resultType_eq (op : BinaryOp) (s t : ScalarType) :
    op.resultType s t =
      if op.isBitwise then .int else if op.isComparison then .bool
      else Expr.operandType op s t := by
  cases op <;> rfl

namespace Rules

variable {s s' t t' : ScalarType} {v w : Scalar}

/-- An operator on integers is the operator on these as floating numbers, other than for quotients,
remainders and bits. -/
theorem explicit_onFloats_intCast {op : BinaryOp} (hlogical : op.isLogical = false)
    (hbits : op.isBitwise = false) (hdiv : op ≠ .div) (hmod : op ≠ .mod) (m n : Int) :
    explicit.onFloats op m n =
      (implicit.onInts op m n).map (convert (op.resultType .float .float)) := by
  cases op with
  | add | sub | mul =>
    change some (Scalar.float _) = some (Scalar.float _)
    push_cast
    rfl
  | lt | le | gt | ge | eq | ne =>
    simp [onFloats, onInts, BinaryOp.compare?, implicit, explicit, BinaryOp.resultType,
      BinaryOp.isLogical, BinaryOp.isBitwise, BinaryOp.isComparison]
  | div => exact absurd rfl hdiv
  | mod => exact absurd rfl hmod
  | and | or => cases hlogical
  | bitAnd | bitOr | bitXor | shl | shr => cases hbits

section Raised

variable (hv : v.Fits s) (hw : w.Fits t) (hs : s ≠ .void) (ht : t ≠ .void) (hs' : s.RaisedTo s')
  (ht' : t.RaisedTo t')
include hv hw hs ht hs' ht'

/-- An operator on operands of raised types gives the raised result. -/
theorem explicit_binary_raised {op : BinaryOp} (hlogical : op.isLogical = false)
    (hbits : op.isBitwise → s ≠ .float ∧ t ≠ .float)
    (hkeeps : op = .div ∨ op = .mod → Expr.operandType op s' t' = Expr.operandType op s t)
    (hdiv : ¬(op = .div ∧ Expr.operandType op s t = .int))
    (hmod : ¬(op = .mod ∧ Expr.operandType op s t = .int)) :
    explicit.binary op (v.convert (Expr.operandType op s' t'))
        (w.convert (Expr.operandType op s' t')) =
      (implicit.binary op v w).map (convert (op.resultType s' t')) := by
  by_cases hsame : Expr.operandType op s' t' = Expr.operandType op s t
  · have hresult : op.resultType s' t' = op.resultType s t := by
      rw [BinaryOp.resultType_eq, BinaryOp.resultType_eq, hsame]
    rw [hsame, hresult, explicit_binary hv hw hs ht hlogical hbits hdiv hmod]
    exact Option.map_congr fun r hr => (fits_binary hv hw hs ht hr).seenAs_eq
  · -- Integers are taken for floating numbers, whose sums, products and comparisons are the same.
    obtain ⟨hint, hfloat⟩ := (hs'.operandType op ht').resolve_left hsame
    have hbitwise : op.isBitwise = false := by
      cases op <;> first | rfl | cases hfloat
    have harith : ScalarType.arithmetic s t = .int := by
      cases op <;> cases s <;> cases t <;> first | contradiction | rfl
    obtain ⟨m, n, hm, hn, heq⟩ := implicit_binary_int hv hw hs ht op harith
    have hfits : s ≠ .float ∧ t ≠ .float := by
      rw [ScalarType.arithmetic_eq hs ht] at harith
      simpa using harith
    have hresult : op.resultType s' t' = op.resultType .float .float := by
      rw [BinaryOp.resultType_eq, BinaryOp.resultType_eq, hfloat]
      cases op <;> first | rfl | cases hlogical
    rw [hfloat, ← hv.convert_int_float hfits.1, ← hw.convert_int_float hfits.2, hm, hn, heq,
      hresult]
    exact explicit_onFloats_intCast hlogical hbitwise (fun h => hsame (hkeeps (.inl h)))
      (fun h => hsame (hkeeps (.inr h))) m n

end Raised

/-- The quotient of integers that are taken for floating numbers, truncated. -/
theorem explicit_div_float (hv : v.Fits s) (hw : w.Fits t) (hs : s ≠ .void) (ht : t ≠ .void)
    (hint : ScalarType.arithmetic s t = .int) :
    (explicit.binary .div (v.convert .float) (w.convert .float)).map (convert .int) =
      implicit.binary .div v w := by
  obtain ⟨m, n, hm, hn, heq⟩ := implicit_binary_int hv hw hs ht .div hint
  have hfits : s ≠ .float ∧ t ≠ .float := by
    rw [ScalarType.arithmetic_eq hs ht] at hint
    simpa using hint
  rw [← hv.convert_int_float hfits.1, ← hw.convert_int_float hfits.2, hm, hn, heq]
  change (if (n : Rat) = 0 then none else some (.float ((m : Rat) / n))).map (convert .int) =
    if n = 0 then none else some (.int (m.tdiv n))
  by_cases hzero : n = 0
  · simp [hzero]
  · rw [if_neg hzero, if_neg (by exact_mod_cast hzero)]
    exact congrArg (fun q => some (Scalar.int q)) (truncate_div m hzero)

/-- A unary operator on an operand of a raised type gives the raised result. -/
theorem explicit_unary_raised {op : UnaryOp} (hv : v.Fits s) (hs' : s.RaisedTo s')
    (hbits : op = .bitNot → s ≠ .float) (hop : op.isMutating = false) :
    explicit.unary op (v.convert (op.operandType s')) =
      (implicit.unary op v).map (convert (op.resultType s')) := by
  rcases hs' with rfl | ⟨rfl, rfl⟩
  · rw [explicit_unary hv hbits hop]
    exact Option.map_congr fun r hr => (fits_unary hv hr).seenAs_eq
  · obtain ⟨n, rfl⟩ := exists_int (hv.type_eq (by simp))
    cases op with
    | neg | plus =>
      change some (Scalar.float _) = some (Scalar.float _)
      push_cast
      rfl
    | bitNot => rfl
    | not =>
      have hnot : explicit.unary .not ((int n).convert .bool) =
          (implicit.unary .not (int n)).map (seenAs .bool) := explicit_unary hv (by simp) rfl
      exact hnot
    | preInc | preDec | postInc | postDec => cases hop

end Rules

/-! ### Absolute values -/

namespace Expr

/-- The condition, operand and branches of a spelled absolute value. -/
theorem exists_of_absOperand? {e x : Expr} (h : e.absOperand? = some x) :
    ∃ op zero onTrue onFalse c c', e = ternary (binary op x zero c') onTrue onFalse c ∧
      zero.isZeroLiteral ∧ x.hasSideEffects = false ∧
      ∃ y z c'', y.same x ∧ z.same x ∧
        ((op = .lt ∨ op = .le) ∧ onTrue = unary .neg y c'' ∧ onFalse = z ∨
          (op = .gt ∨ op = .ge) ∧ onTrue = z ∧ onFalse = unary .neg y c'') := by
  have hneg {e : Expr} (h : isNegationOf x e) : ∃ y c, e = unary .neg y c ∧ y.same x := by
    unfold isNegationOf at h
    split at h
    · exact ⟨_, _, rfl, h⟩
    · cases h
  unfold absOperand? at h
  split at h
  · next op x' zero c' onTrue onFalse c =>
    simp only [Option.ite_none_left_eq_some, Option.ite_none_right_eq_some, Option.some.injEq,
      Bool.or_eq_true, Bool.not_eq_true', not_or, Bool.not_eq_false, Bool.not_eq_true] at h
    obtain ⟨⟨hzero, heffects⟩, hmatched, rfl⟩ := h
    refine ⟨op, zero, onTrue, onFalse, c, c', rfl, hzero, heffects, ?_⟩
    cases op with
    | lt | le =>
      simp only [Bool.and_eq_true] at hmatched
      obtain ⟨y, c'', rfl, hy⟩ := hneg hmatched.1
      exact ⟨y, onFalse, c'', hy, hmatched.2, .inl ⟨by simp, rfl, rfl⟩⟩
    | gt | ge =>
      simp only [Bool.and_eq_true] at hmatched
      obtain ⟨y, c'', rfl, hy⟩ := hneg hmatched.2
      exact ⟨y, onTrue, c'', hy, hmatched.1, .inr ⟨by simp, rfl, rfl⟩⟩
    | _ => cases hmatched
  · cases h

theorem foldNode_of_none {e : Expr} (h : e.absOperand? = none) : foldNode e = e := by
  rw [foldNode, foldIdiom?, h]
  rfl

theorem foldNode_of_some {e x : Expr} (h : e.absOperand? = some x) :
    foldNode e = call "abs" [x] e.coord := by
  rw [foldNode, foldIdiom?, h]
  rfl

/-- A folded expression that is no call has the form of the expression. -/
theorem folded_ternary_cases (p t e : Expr) (c : Coord) :
    (ternary p t e c).folded = ternary p.folded t.folded e.folded c ∨
      ∃ x, (ternary p t e c).folded = call "abs" [x] c := by
  rw [folded_ternary]
  cases h : (ternary p.folded t.folded e.folded c).absOperand? with
  | none => exact .inl (foldNode_of_none h)
  | some x => exact .inr ⟨x, foldNode_of_some h⟩

theorem exists_of_folded_eq_binary {e : Expr} {op : BinaryOp} {l' r' : Expr} {c : Coord}
    (h : e.folded = binary op l' r' c) :
    ∃ l r, e = binary op l r c ∧ l' = l.folded ∧ r' = r.folded := by
  cases e with
  | binary op l r c =>
    simp only [folded_binary, binary.injEq] at h
    obtain ⟨rfl, rfl, rfl, rfl⟩ := h
    exact ⟨l, r, rfl, rfl, rfl⟩
  | ternary p t e c =>
    rcases folded_ternary_cases p t e c with heq | ⟨x, heq⟩ <;> rw [heq] at h <;> cases h
  | _ => simp at h

theorem exists_of_folded_eq_unary {e : Expr} {op : UnaryOp} {e' : Expr} {c : Coord}
    (h : e.folded = unary op e' c) : ∃ x, e = unary op x c ∧ e' = x.folded := by
  cases e with
  | unary op x c =>
    simp only [folded_unary, unary.injEq] at h
    obtain ⟨rfl, rfl, rfl⟩ := h
    exact ⟨x, rfl, rfl⟩
  | ternary p t e c =>
    rcases folded_ternary_cases p t e c with heq | ⟨x, heq⟩ <;> rw [heq] at h <;> cases h
  | _ => simp at h

theorem eq_of_folded_isZeroLiteral {e : Expr} (h : e.folded.isZeroLiteral) :
    e.folded = e ∧ ∃ value c, e = literal value c := by
  cases e with
  | literal value c => exact ⟨rfl, value, c, rfl⟩
  | ternary p t e c =>
    rcases folded_ternary_cases p t e c with heq | ⟨x, heq⟩ <;> rw [heq] at h <;> cases h
  | _ => simp [isZeroLiteral] at h

/-- An absolute value is spelled by the folded forms of its operand. -/
theorem exists_of_spelled {p t e x' : Expr} {c : Coord}
    (h : (ternary p.folded t.folded e.folded c).absOperand? = some x') :
    ∃ op x zero c', p = binary op x zero c' ∧ x' = x.folded ∧ zero.isZeroLiteral ∧
      x.folded.hasSideEffects = false ∧
      ∃ y z c'', y.folded.same x.folded ∧ z.folded.same x.folded ∧
        ((op = .lt ∨ op = .le) ∧ t = unary .neg y c'' ∧ e = z ∨
          (op = .gt ∨ op = .ge) ∧ t = z ∧ e = unary .neg y c'') := by
  obtain ⟨op, zero', t', e', c₁, c', heq, hzero, heffects, y', z', c'', hy, hz, hbranches⟩ :=
    exists_of_absOperand? h
  simp only [ternary.injEq] at heq
  obtain ⟨hp, ht, he, rfl⟩ := heq
  obtain ⟨x, zero, rfl, rfl, rfl⟩ := exists_of_folded_eq_binary hp
  obtain ⟨hliteral, -⟩ := eq_of_folded_isZeroLiteral hzero
  rw [hliteral] at hzero
  refine ⟨op, x, zero, c', rfl, rfl, hzero, heffects, ?_⟩
  rcases hbranches with ⟨hop, rfl, rfl⟩ | ⟨hop, rfl, rfl⟩
  · obtain ⟨y, rfl, rfl⟩ := exists_of_folded_eq_unary ht
    subst he
    exact ⟨y, e, c'', hy, hz, .inl ⟨hop, rfl, rfl⟩⟩
  · obtain ⟨y, rfl, rfl⟩ := exists_of_folded_eq_unary he
    subst ht
    exact ⟨y, t, c'', hy, hz, .inr ⟨hop, rfl, rfl⟩⟩

end Expr

/-! ### What folding relies on -/

namespace Expr

/-- Whether the expression has the value zero if it is a literal that is taken for zero. -/
def hasExactZero : Expr → Bool
  | literal value c =>
    !(literal value c).isZeroLiteral || value.scalar? == some (.zero value.kind.scalar)
  | _ => true

/-- Whether the operands of a quotient or remainder keep their common type when they are folded. -/
def keepsQuotient (env : TypeEnv) : Expr → Bool
  | binary op l r _ =>
    !(op == .div || op == .mod) ||
      operandType op (l.folded.typeIn env) (r.folded.typeIn env) ==
        operandType op (l.typeIn env) (r.typeIn env)
  | assign .mod _ v _ => v.folded.typeIn env == v.typeIn env
  | _ => true

/-- Whether a node calls nothing and can be folded: a literal that is taken for zero is zero, and
the operands of a quotient or remainder keep their common type. -/
def isFoldable (env : TypeEnv) (e : Expr) : Bool :=
  e.callee?.isNone && e.hasExactZero && e.keepsQuotient env

variable {ctx : Context} {quiet : List String}

theorem typeIn_absCall (habs : ctx.signature? "abs" = some ⟨.float, .uniform .float⟩)
    (args : List Expr) (c : Coord) : (call "abs" args c).typeIn ctx.typeEnv = .float := by
  rw [typeIn, TypeEnv.resultType, Context.signature?_typeEnv, habs]
  rfl

/-- A negation and a value are unified to a number. -/
theorem unify_neg {s t : ScalarType} (hs : s ≠ .void) (ht : t ≠ .void) :
    (ScalarType.unify (UnaryOp.neg.resultType s) t).RaisedTo .float ∧
      (ScalarType.unify t (UnaryOp.neg.resultType s)).RaisedTo .float := by
  cases s <;> cases t <;>
    first
    | contradiction
    | exact ⟨.inl rfl, .inl rfl⟩
    | exact ⟨.inr ⟨rfl, rfl⟩, .inr ⟨rfl, rfl⟩⟩

/-- The branches of a well-typed conditional have values. -/
theorem branches_ne_void (hconv : ctx.Converts) {p t e : Expr} {c : Coord}
    (h : (ternary p t e c).wellTyped quiet ctx) :
    t.typeIn ctx.typeEnv ≠ .void ∧ e.typeIn ctx.typeEnv ≠ .void := by
  simp only [wellTyped, Bool.and_eq_true, bne_iff_ne] at h
  obtain ⟨⟨⟨⟨-, ht⟩, htvoid⟩, he⟩, hevoid⟩ := h
  exact ⟨typeIn_ne_void hconv ht htvoid, typeIn_ne_void hconv he hevoid⟩

/-- An absolute value is a number. -/
theorem raisedTo_of_spelled (hconv : ctx.Converts) {p t e x' : Expr} {c : Coord}
    (h : (ternary p t e c).wellTyped quiet ctx)
    (hspelled : (ternary p.folded t.folded e.folded c).absOperand? = some x') :
    ((ternary p t e c).typeIn ctx.typeEnv).RaisedTo .float := by
  obtain ⟨ht, he⟩ := branches_ne_void hconv h
  obtain ⟨op, x, zero, c', -, -, -, -, y, z, c'', -, -, hbranches⟩ := exists_of_spelled hspelled
  have hneg {y : Expr} (hy : (unary .neg y c'').typeIn ctx.typeEnv ≠ .void) :
      y.typeIn ctx.typeEnv ≠ .void := by
    intro hvoid
    rw [typeIn, hvoid] at hy
    exact hy rfl
  rcases hbranches with ⟨-, rfl, rfl⟩ | ⟨-, rfl, rfl⟩
  · exact (unify_neg (hneg ht) he).1
  · exact (unify_neg (hneg he) ht).2

mutual

/-- Folding keeps the type of an expression, or makes an integer a floating number. -/
theorem raisedTo_folded (hconv : ctx.Converts)
    (habs : ctx.signature? "abs" = some ⟨.float, .uniform .float⟩) (e : Expr)
    (h : e.wellTyped quiet ctx) :
    (e.typeIn ctx.typeEnv).RaisedTo (e.folded.typeIn ctx.typeEnv) := by
  cases e with
  | id | literal => exact .refl _
  | binary op l r c =>
    simp only [wellTyped, Bool.and_eq_true] at h
    exact (raisedTo_folded hconv habs l h.1.1).resultType op (raisedTo_folded hconv habs r h.1.2)
  | unary op e c =>
    simp only [wellTyped, Bool.and_eq_true] at h
    exact (raisedTo_folded hconv habs e h.1.1).unary op
  | assign op t v c =>
    simp only [wellTyped, Bool.and_eq_true] at h
    exact raisedTo_folded hconv habs t h.1.1.1.1.1
  | ternary p t e c =>
    -- Only a conditional can be folded itself; elsewhere the type is that of folded parts.
    cases hspelled : (ternary p.folded t.folded e.folded c).absOperand? with
    | none =>
      rw [folded_ternary, foldNode_of_none hspelled]
      simp only [wellTyped, Bool.and_eq_true] at h
      exact (raisedTo_folded hconv habs t h.1.1.1.2).unify (raisedTo_folded hconv habs e h.1.2)
    | some x =>
      rw [folded_ternary, foldNode_of_some hspelled, typeIn_absCall habs]
      exact raisedTo_of_spelled hconv h hspelled
  | call f args c =>
    rw [folded_call]
    exact .refl _
  | cast => exact .refl _
  | index a i c =>
    simp only [wellTyped, Bool.and_eq_true] at h
    obtain ⟨b, hb⟩ := Option.isSome_iff_exists.1 h.1.1.1
    obtain ⟨name, c', rfl, -⟩ := Context.exists_id_of_array? hb
    exact .refl _
  | initList items c =>
    rw [folded_initList]
    exact .refl _
  | comma items c =>
    simp only [wellTyped, Bool.and_eq_true] at h
    rw [folded_comma]
    exact raisedTo_map_folded hconv habs items h.2

theorem raisedTo_map_folded (hconv : ctx.Converts)
    (habs : ctx.signature? "abs" = some ⟨.float, .uniform .float⟩) (items : List Expr)
    (h : wellTypedList quiet ctx items) :
    (lastTypeIn ctx.typeEnv items).RaisedTo (lastTypeIn ctx.typeEnv (items.map folded)) := by
  match items with
  | [] => exact .refl _
  | [e] =>
    simp only [wellTypedList, Bool.and_eq_true] at h
    exact raisedTo_folded hconv habs e h.1.1
  | e :: e' :: rest =>
    rw [wellTypedList, Bool.and_eq_true] at h
    exact raisedTo_map_folded hconv habs (e' :: rest) h.2

end

/-- A target is left in its form by folding, and so is its type. -/
theorem typeIn_folded_of_isPlace {e : Expr} (h : e.wellTyped quiet ctx) (hplace : e.isPlace) :
    e.folded.isPlace ∧ e.folded.typeIn ctx.typeEnv = e.typeIn ctx.typeEnv := by
  cases e with
  | id name c => exact ⟨rfl, rfl⟩
  | index a i c =>
    simp only [wellTyped, Bool.and_eq_true] at h
    obtain ⟨b, hb⟩ := Option.isSome_iff_exists.1 h.1.1.1
    obtain ⟨name, c', rfl, -⟩ := Context.exists_id_of_array? hb
    exact ⟨rfl, rfl⟩
  | _ => cases hplace

/-- Folding makes no array, text or braced list of an expression that is none of them. -/
theorem isValue_folded {e : Expr} (h : e.IsValue ctx) : e.folded.IsValue ctx := by
  cases e with
  | id | literal => exact h
  | ternary p t e c =>
    rcases folded_ternary_cases p t e c with heq | ⟨x, heq⟩ <;> rw [heq] <;> exact ⟨rfl, rfl, rfl⟩
  | initList items c => cases h.braced
  | call f args c =>
    rw [folded_call]
    exact ⟨rfl, rfl, rfl⟩
  | comma items c =>
    rw [folded_comma]
    exact ⟨rfl, rfl, rfl⟩
  | _ => exact ⟨rfl, rfl, rfl⟩

theorem operandBelow_absOperand? : OperandBelow absOperand? := by
  intro e x h s hs
  obtain ⟨op, zero, onTrue, onFalse, c, c', rfl, -⟩ := exists_of_absOperand? h
  refine List.mem_flatMap.2 ⟨binary op x zero c', by simp [parts], ?_⟩
  rw [subexprs_eq]
  exact List.mem_cons_of_mem _ (List.mem_flatMap.2 ⟨x, by simp [parts], hs⟩)

/-- Folding adds no side effects. -/
theorem hasSideEffects_folded {e : Expr} (h : e.hasSideEffects = false) :
    e.folded.hasSideEffects = false := by
  rw [← everywhere_writeTarget?] at h ⊢
  exact everywhere_idioms operandBelow_absOperand? (fun _ _ => rfl)
    (fun e => isHeadProperty_writeTarget? e _) h

/-- Folding adds no names. -/
theorem ids_folded {e : Expr} {name : String} (h : name ∈ e.folded.ids) : name ∈ e.ids :=
  ids_idioms operandBelow_absOperand? h

end Expr

end MathKernel
