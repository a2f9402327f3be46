import MathKernel.Proofs.Semantics.Typing
import MathKernel.Proofs.Syntax.Subexpressions

/-!
# Converted expressions

Converting the parts of an expression keeps its type, and a converted expression is left alone by
a second conversion. So a compound assignment that is written out may have its parts converted
again: only the operation that joins them is.

## Main definitions

* `Expr.Stable` — a conversion leaves the expression alone
* `Expr.applied` — an operation on converted operands
* `Expr.Combines` — what the second conversion of a written-out assignment does
* `TypeEnv.Converts` — the conversions and the remainder have their own meanings

## Main results

* `Expr.coerced_eq` — the conversion of an expression, with a second conversion that combines
* `Expr.kept_coercedWith` — converted expressions keep their types and are stable
* `Expr.hasSideEffects_coercedWith` — conversions keep side effects
-/

namespace MathKernel

namespace Expr

/-- A conversion leaves the expression alone, as the argument of a truncation or elsewhere. -/
def StableAt (env : TypeEnv) (truncated : Bool) (e : Expr) : Prop :=
  ∀ again, (e.coercedWith again env truncated).value = e

/-- A conversion leaves the expression alone. -/
def Stable (env : TypeEnv) (e : Expr) : Prop :=
  ∀ truncated, e.StableAt env truncated

/-- An operation on operands that are converted to their common type. -/
def applied (env : TypeEnv) (op : BinaryOp) (truncated : Bool) (l r : Expr) (c : Coord) : Expr :=
  let common := operandType op (l.typeIn env) (r.typeIn env)
  (applyBinary op common truncated (l.coerce (l.typeIn env) common).value
    (r.coerce (r.typeIn env) common).value c).value

/-- Only quotients and remainders of integers are written in another way. -/
theorem value_applyBinary {op : BinaryOp} {common : ScalarType}
    (hdiv : ¬(op = .div ∧ common = .int)) (hmod : ¬(op = .mod ∧ common = .int)) (truncated : Bool)
    (l r : Expr) (c : Coord) : (applyBinary op common truncated l r c).value = binary op l r c := by
  unfold applyBinary
  split
  · exact absurd ⟨rfl, rfl⟩ hdiv
  · exact absurd ⟨rfl, rfl⟩ hmod
  · rfl

/-- A second conversion of an operation on stable operands converts these to their common type. -/
def Combines (env : TypeEnv) (again : Expr → Counted Expr) : Prop :=
  ∀ op l r c, l.Stable env → r.Stable env →
    (again (binary op l r c)).value = applied env op false l r c

variable {env : TypeEnv} {again : Expr → Counted Expr}

theorem value_coercedWith_binary (truncated : Bool) {op : BinaryOp} {l r : Expr} {c : Coord}
    (hl : l.StableAt env false) (hr : r.StableAt env false) :
    ((binary op l r c).coercedWith again env truncated).value = applied env op truncated l r c := by
  simp only [coercedWith, Counted.value_bind, hl again, hr again]
  rfl

theorem combines_coercedTo (env : TypeEnv) (depth : Nat) : Combines env (coercedTo env depth) := by
  intro op l r c hl hr
  cases depth with
  | zero => exact value_coercedWith_binary false (hl false) (hr false)
  | succ depth => exact value_coercedWith_binary false (hl false) (hr false)

/-! ### Expressions without compound assignments -/

/-- No compound assignment is inside the expression. -/
def IsPlain (e : Expr) : Prop :=
  e.Everywhere (·.isCompoundAssign = false)

theorem isPlain_of_compoundAssigns {e : Expr} (h : e.compoundAssigns = 0) : e.IsPlain := by
  intro s hs
  have hnil := List.eq_nil_of_length_eq_zero h
  simpa using List.filter_eq_nil_iff.1 hnil s hs

mutual

/-- Only compound assignments are converted a second time. -/
theorem IsPlain.coercedWith_eq (again again' : Expr → Counted Expr) (env : TypeEnv)
    (truncated : Bool) (e : Expr) (h : e.IsPlain) :
    e.coercedWith again env truncated = e.coercedWith again' env truncated := by
  cases e with
  | id n c | literal v c => rfl
  | binary op l r c =>
    obtain ⟨-, hl, hr⟩ := everywhere_binary.1 h
    simp only [coercedWith, IsPlain.coercedWith_eq again again' env _ l hl,
      IsPlain.coercedWith_eq again again' env _ r hr]
  | unary op e c =>
    obtain ⟨-, he⟩ := everywhere_unary.1 h
    simp only [coercedWith, IsPlain.coercedWith_eq again again' env _ e he]
  | assign op t v c =>
    obtain ⟨hassign, ht, hv⟩ := everywhere_assign.1 h
    have hop : op.binary? = none := by simpa [isCompoundAssign] using hassign
    simp only [coercedWith, IsPlain.coercedWith_eq again again' env _ t ht,
      IsPlain.coercedWith_eq again again' env _ v hv, hop]
  | ternary p t e c =>
    obtain ⟨-, hp, ht, he⟩ := everywhere_ternary.1 h
    simp only [coercedWith, IsPlain.coercedWith_eq again again' env _ p hp,
      IsPlain.coercedWith_eq again again' env _ t ht,
      IsPlain.coercedWith_eq again again' env _ e he]
  | call f args c =>
    obtain ⟨-, hargs⟩ := everywhere_call.1 h
    simp only [coercedWith, coercedArgs_eq_of_isPlain again again' env _ _ _ args hargs]
  | cast type e c =>
    obtain ⟨-, he⟩ := everywhere_cast.1 h
    simp only [coercedWith, IsPlain.coercedWith_eq again again' env _ e he]
  | index a i c =>
    obtain ⟨-, ha, hi⟩ := everywhere_index.1 h
    simp only [coercedWith, IsPlain.coercedWith_eq again again' env _ a ha,
      IsPlain.coercedWith_eq again again' env _ i hi]
  | initList items c =>
    obtain ⟨-, hitems⟩ := everywhere_initList.1 h
    simp only [coercedWith, coercedList_eq_of_isPlain again again' env items hitems]
  | comma items c =>
    obtain ⟨-, hitems⟩ := everywhere_comma.1 h
    simp only [coercedWith, coercedList_eq_of_isPlain again again' env items hitems]

theorem coercedArgs_eq_of_isPlain (again again' : Expr → Counted Expr) (env : TypeEnv)
    (truncates : Bool) (signature : Option Signature) (i : Nat) (args : List Expr)
    (h : ∀ e ∈ args, e.IsPlain) :
    coercedArgs again env truncates signature i args =
      coercedArgs again' env truncates signature i args := by
  cases args with
  | nil => rfl
  | cons e rest =>
    obtain ⟨he, hrest⟩ := List.forall_mem_cons.1 h
    simp only [coercedArgs, IsPlain.coercedWith_eq again again' env _ e he,
      coercedArgs_eq_of_isPlain again again' env truncates signature (i + 1) rest hrest]

theorem coercedList_eq_of_isPlain (again again' : Expr → Counted Expr) (env : TypeEnv)
    (items : List Expr) (h : ∀ e ∈ items, e.IsPlain) :
    coercedList again env items = coercedList again' env items := by
  cases items with
  | nil => rfl
  | cons e rest =>
    obtain ⟨he, hrest⟩ := List.forall_mem_cons.1 h
    simp only [coercedList, IsPlain.coercedWith_eq again again' env _ e he,
      coercedList_eq_of_isPlain again again' env rest hrest]

end

/-- The conversion of an expression, with a second conversion that combines. -/
theorem coerced_eq (env : TypeEnv) (e : Expr) :
    ∃ again, Combines env again ∧ e.coerced env = e.coercedWith again env false := by
  cases h : e.compoundAssigns with
  | zero =>
    refine ⟨_, combines_coercedTo env 0, ?_⟩
    rw [coerced, h]
    exact (isPlain_of_compoundAssigns h).coercedWith_eq _ _ env false
  | succ depth =>
    refine ⟨_, combines_coercedTo env depth, ?_⟩
    rw [coerced, h]
    rfl

/-! ### Types of converted operands -/

end Expr

/-- The type of a value of one type that is converted to another. Nothing is done for `void`. -/
def ScalarType.convertedTo (s t : ScalarType) : ScalarType :=
  if s = .void ∨ t = .void then s else t

theorem Expr.coerce_convertedTo (e : Expr) (s t : ScalarType) :
    e.coerce (s.convertedTo t) t = pure e := by
  unfold coerce ScalarType.convertedTo
  split_ifs <;> first | rfl | grind

/-- Converted operands are of their common type already, and the result keeps its type. -/
theorem Expr.operandType_convertedTo (op : BinaryOp) (s t : ScalarType) :
    operandType op (s.convertedTo (operandType op s t)) (t.convertedTo (operandType op s t)) =
        operandType op s t ∧
      op.resultType (s.convertedTo (operandType op s t)) (t.convertedTo (operandType op s t)) =
        op.resultType s t := by
  cases op <;> cases s <;> cases t <;> decide

theorem UnaryOp.operandType_convertedTo (op : UnaryOp) (s : ScalarType) :
    op.operandType (s.convertedTo (op.operandType s)) = op.operandType s ∧
      op.resultType (s.convertedTo (op.operandType s)) = op.resultType s := by
  cases op <;> cases s <;> decide

theorem ScalarType.unify_convertedTo (s t : ScalarType) :
    unify (s.convertedTo (unify s t)) (t.convertedTo (unify s t)) = unify s t := by
  cases s <;> cases t <;> decide

/-- The conversions and the remainder have their own meanings in an environment. -/
structure TypeEnv.Converts (env : TypeEnv) : Prop where
  conversion : ∀ t, t ≠ .void → env.signature? t.cName = some ⟨t, .unchecked⟩
  remainder : env.signature? remainderFunction = some ⟨.int, .fixed [some .int, some .int]⟩

theorem TypeEnv.functions_declare (env : TypeEnv) (d : Decl) :
    (env.declare d).functions = env.functions := by
  unfold declare
  split <;> rfl

theorem Context.Converts.typeEnv {ctx : Context} (h : ctx.Converts) : ctx.typeEnv.Converts :=
  ⟨h.conversion, h.remainder⟩

/-! ### Stable expressions -/

namespace Expr

variable {env : TypeEnv} {again : Expr → Counted Expr}

theorem typeIn_conversion {t : ScalarType} (h : env.signature? t.cName = some ⟨t, .unchecked⟩)
    (args : List Expr) (c : Coord) : (call t.cName args c).typeIn env = t := by
  rw [typeIn, TypeEnv.resultType, h]
  rfl

/-- Below a written conversion only the parts of its argument are converted. -/
theorem value_coercedWith_conversion {t : ScalarType}
    (h : env.signature? t.cName = some ⟨t, .unchecked⟩) (truncated : Bool) (e : Expr) (c : Coord) :
    ((call t.cName [e] c).coercedWith again env truncated).value =
      call t.cName [(e.coercedWith again env (t.cName == ScalarType.int.cName)).value] c := by
  simp only [coercedWith, coercedArgs, Counted.value_bind, Counted.value_pure, h, BEq.rfl,
    Bool.and_true]
  rfl

theorem stable_conversion (hconv : env.Converts) (t : ScalarType) (ht : t ≠ .void) {e : Expr}
    (h : e.StableAt env (t.cName == ScalarType.int.cName)) (c : Coord) :
    (call t.cName [e] c).Stable env := by
  intro truncated again
  rw [value_coercedWith_conversion (hconv.conversion t ht), h again]

/-- The floating literal for an integer literal is a stable expression of type `float`. -/
theorem stable_of_toFloatLiteral? {e e' : Expr} (h : e.toFloatLiteral? = some e') :
    e'.typeIn env = .float ∧ e'.Stable env := by
  fun_induction toFloatLiteral? e generalizing e' with
  | case1 text c =>
    obtain ⟨n, -, rfl⟩ := Option.map_eq_some_iff.1 h
    exact ⟨rfl, fun _ _ => rfl⟩
  | case2 operand c ih =>
    obtain ⟨operand', hoperand, rfl⟩ := Option.map_eq_some_iff.1 h
    obtain ⟨htype, hstable⟩ := ih hoperand
    refine ⟨by simp [typeIn, UnaryOp.resultType, htype], fun _ again => ?_⟩
    simp [coercedWith, hstable false again, coerceOperand, htype]
  | case3 => cases h

/-- A coerced expression has the type it is coerced to, and stays stable. -/
theorem stable_coerce (hconv : env.Converts) {s : ScalarType} (t : ScalarType) {e : Expr}
    (htype : e.typeIn env = s) (h : e.Stable env) :
    (e.coerce s t).value.typeIn env = s.convertedTo t ∧ (e.coerce s t).value.Stable env := by
  unfold coerce ScalarType.convertedTo
  by_cases hvoid : s = .void ∨ t = .void
  · rw [if_pos (.inr hvoid), if_pos hvoid]
    exact ⟨htype, h⟩
  by_cases heq : s = t
  · rw [if_pos (.inl heq), if_neg hvoid, ← heq]
    exact ⟨htype, h⟩
  rw [if_neg (not_or_intro heq hvoid), if_neg hvoid]
  have ht : t ≠ .void := fun ht => hvoid (.inr ht)
  have hcall : (call t.cName [e] e.coord).typeIn env = t ∧
      (call t.cName [e] e.coord).Stable env :=
    ⟨typeIn_conversion (hconv.conversion t ht) _ _, stable_conversion hconv t ht (h _) _⟩
  split
  · next hfloat =>
    cases hliteral : e.toFloatLiteral? with
    | none => exact hcall
    | some literal =>
      subst hfloat
      exact stable_of_toFloatLiteral? hliteral
  · exact hcall

theorem applied_eq_of_convertedTo {op : BinaryOp} {l r : Expr} {s t common : ScalarType}
    (hl : l.typeIn env = s.convertedTo common) (hr : r.typeIn env = t.convertedTo common)
    (hcommon : operandType op (s.convertedTo common) (t.convertedTo common) = common)
    (truncated : Bool) (c : Coord) :
    applied env op truncated l r c = (applyBinary op common truncated l r c).value := by
  simp only [applied, hl, hr, hcommon, coerce_convertedTo, Counted.value_pure]

theorem stable_remainder (hconv : env.Converts) {l r : Expr} (hl : l.Stable env)
    (hr : r.Stable env) {s t : ScalarType} (hltype : l.typeIn env = s.convertedTo .int)
    (hrtype : r.typeIn env = t.convertedTo .int) (c : Coord) :
    (call remainderFunction [l, r] c).typeIn env = .int ∧
      (call remainderFunction [l, r] c).Stable env := by
  constructor
  · rw [typeIn, TypeEnv.resultType, hconv.remainder]
    rfl
  · intro truncated again
    have hname : (remainderFunction == ScalarType.int.cName) = false := by decide
    simp [coercedWith, coercedArgs, hconv.remainder, hname, hl false again, hr false again,
      Signature.param?, coerceArg, hltype, hrtype, coerce_convertedTo]

/-- What a conversion makes of an expression: one of the same type that a second conversion
leaves alone. -/
structure Kept (env : TypeEnv) (truncated : Bool) (e e' : Expr) : Prop where
  type : e'.typeIn env = e.typeIn env
  inTruncation : e'.StableAt env true
  elsewhere : truncated = false → e'.StableAt env false

theorem Kept.stable {e e' : Expr} (h : Kept env false e e') : e'.Stable env := by
  intro truncated
  cases truncated with
  | false => exact h.elsewhere rfl
  | true => exact h.inTruncation

theorem Kept.stableAt {truncated : Bool} {e e' : Expr} (h : Kept env truncated e e') :
    e'.StableAt env truncated := by
  cases truncated with
  | false => exact h.elsewhere rfl
  | true => exact h.inTruncation

theorem Kept.of_stable {e e' : Expr} (htype : e'.typeIn env = e.typeIn env) (h : e'.Stable env)
    (truncated : Bool) : Kept env truncated e e' :=
  ⟨htype, h true, fun _ => h false⟩

/-- An operation on stable operands is kept by converting these to their common type. -/
theorem kept_applied (hconv : env.Converts) (op : BinaryOp) (truncated : Bool) {l r : Expr}
    (hl : l.Stable env) (hr : r.Stable env) (c : Coord) :
    Kept env truncated (binary op l r c) (applied env op truncated l r c) := by
  obtain ⟨hself, hresult⟩ := operandType_convertedTo op (l.typeIn env) (r.typeIn env)
  have hl' := stable_coerce hconv (operandType op (l.typeIn env) (r.typeIn env)) rfl hl
  have hr' := stable_coerce hconv (operandType op (l.typeIn env) (r.typeIn env)) rfl hr
  have hquotient : op = .div ∨ op = .mod →
      op.resultType (l.typeIn env) (r.typeIn env) =
        operandType op (l.typeIn env) (r.typeIn env) := by
    rintro (rfl | rfl) <;> rfl
  rw [applied]
  -- From here on only that the operands are stable and of the common type matters.
  revert hl' hr' hself hresult hquotient
  generalize operandType op (l.typeIn env) (r.typeIn env) = common
  generalize (l.coerce (l.typeIn env) common).value = l'
  generalize (r.coerce (r.typeIn env) common).value = r'
  intro hself hresult hl' hr' hquotient
  have hbinary (t : Bool) (again : Expr → Counted Expr) :
      ((binary op l' r' c).coercedWith again env t).value =
        (applyBinary op common t l' r' c).value := by
    rw [value_coercedWith_binary t (hl'.2 false) (hr'.2 false),
      applied_eq_of_convertedTo hl'.1 hr'.1 hself]
  have htype : (binary op l' r' c).typeIn env = (binary op l r c).typeIn env := by
    rw [typeIn, typeIn, hl'.1, hr'.1, hresult]
  by_cases hdiv : op = .div ∧ common = .int
  · obtain ⟨rfl, rfl⟩ := hdiv
    have hstable : (binary .div l' r' c).StableAt env true := hbinary true
    cases truncated with
    | true => exact ⟨htype, hstable, fun h => by cases h⟩
    | false =>
      have hcall : (call ScalarType.int.cName [binary .div l' r' c] c).Stable env :=
        stable_conversion hconv .int (by simp) hstable c
      refine Kept.of_stable ?_ hcall false
      rw [typeIn, hquotient (.inl rfl)]
      exact typeIn_conversion (hconv.conversion .int (by simp)) _ _
  · by_cases hmod : op = .mod ∧ common = .int
    · obtain ⟨rfl, rfl⟩ := hmod
      obtain ⟨hcall, hstable⟩ := stable_remainder hconv hl'.2 hr'.2 hl'.1 hr'.1 c
      refine Kept.of_stable ?_ hstable truncated
      rw [typeIn, hquotient (.inr rfl)]
      exact hcall
    · rw [value_applyBinary hdiv hmod]
      refine Kept.of_stable htype (fun t again => ?_) truncated
      rw [hbinary, value_applyBinary hdiv hmod]

/-- A compound assignment whose value was converted to the type of its target is not written out,
unless it was before. -/
theorem isWrittenOut_of_convertedTo {op : BinaryOp} {s t : ScalarType} {target : Expr}
    (h : isWrittenOut op t (s.convertedTo t) target) : isWrittenOut op t s target := by
  simp only [isWrittenOut, Bool.and_eq_true, Bool.or_eq_true, beq_iff_eq] at h ⊢
  obtain ⟨⟨rfl, (hfloat | hdiv) | hmod⟩, hquiet⟩ := h
  · cases s <;> cases hfloat
  · exact ⟨⟨rfl, .inl (.inr hdiv)⟩, hquiet⟩
  · exact ⟨⟨rfl, .inr hmod⟩, hquiet⟩

theorem Kept.of_typeIn_eq {truncated : Bool} {e₁ e₂ e' : Expr} (h : Kept env truncated e₁ e')
    (htype : e₁.typeIn env = e₂.typeIn env) : Kept env truncated e₂ e' :=
  ⟨h.type.trans htype, h.inTruncation, h.elsewhere⟩

/-- An assignment of kept parts is kept. One that is written out is a plain assignment of the
combined value, which is of the type of its target. -/
theorem kept_assign (hconv : env.Converts) (hagain : Combines env again) (op : AssignOp)
    {t v : Expr} (ht : Kept env false t (t.coercedWith again env false).value)
    (hv : Kept env false v (v.coercedWith again env false).value) (truncated : Bool) (c : Coord) :
    Kept env truncated (assign op t v c)
      ((assign op t v c).coercedWith again env truncated).value := by
  obtain ⟨htype, hstable⟩ := stable_coerce hconv (t.typeIn env) hv.type hv.stable
  cases hop : op.binary? with
  | none =>
    refine Kept.of_stable ?_ (fun _ again' => ?_) truncated
    · simpa only [coercedWith, Counted.value_bind, Counted.value_pure, hop, typeIn] using ht.type
    · simp only [coercedWith, Counted.value_bind, Counted.value_pure, hop,
        ht.stable false again', hstable false again', ht.type, htype, coerce_convertedTo]
  | some b =>
    by_cases hout : isWrittenOut b (t.typeIn env) (v.typeIn env)
        (t.coercedWith again env false).value
    · have hint : t.typeIn env = .int := by
        simp only [isWrittenOut, Bool.and_eq_true, beq_iff_eq] at hout
        exact hout.1.1
      have hcombined := kept_applied hconv b false ht.stable hv.stable none
      rw [← hagain b _ _ none ht.stable hv.stable] at hcombined
      obtain ⟨hwtype, hw⟩ := stable_coerce hconv .int hcombined.type hcombined.stable
      have hassign : AssignOp.assign.binary? = none := rfl
      refine Kept.of_stable ?_ (fun _ again' => ?_) truncated
      · simpa only [coercedWith, Counted.value_bind, hop, hout, if_true, Counted.change,
          typeIn] using ht.type
      · simp only [coercedWith, Counted.value_bind, hop, hout, if_true, Counted.change]
        simp only [Counted.value_bind, Counted.value_pure, hassign, ht.stable false again',
          hw false again', hwtype, ht.type, hint, coerce_convertedTo]
    · -- The converted value has the type of the target, so it is not written out later either.
      have hself : isWrittenOut b (t.typeIn env) ((v.typeIn env).convertedTo (t.typeIn env))
          (t.coercedWith again env false).value ≠ true := mt isWrittenOut_of_convertedTo hout
      refine Kept.of_stable ?_ (fun _ again' => ?_) truncated
      · simpa only [coercedWith, Counted.value_bind, Counted.value_pure, hop, if_neg hout,
          typeIn] using ht.type
      · simp only [coercedWith, Counted.value_bind, Counted.value_pure, hop, if_neg hout,
          ht.stable false again', hstable false again', ht.type, htype, if_neg hself,
          coerce_convertedTo]

theorem kept_ternary (hconv : env.Converts) {p t e : Expr}
    (hp : Kept env false p (p.coercedWith again env false).value)
    (ht : Kept env false t (t.coercedWith again env false).value)
    (he : Kept env false e (e.coercedWith again env false).value) (truncated : Bool) (c : Coord) :
    Kept env truncated (ternary p t e c)
      ((ternary p t e c).coercedWith again env truncated).value := by
  have hunify := ScalarType.unify_convertedTo (t.typeIn env) (e.typeIn env)
  obtain ⟨hptype, hp'⟩ := stable_coerce hconv .bool hp.type hp.stable
  obtain ⟨httype, ht'⟩ :=
    stable_coerce hconv (.unify (t.typeIn env) (e.typeIn env)) ht.type ht.stable
  obtain ⟨hetype, he'⟩ :=
    stable_coerce hconv (.unify (t.typeIn env) (e.typeIn env)) he.type he.stable
  refine Kept.of_stable ?_ (fun _ again' => ?_) truncated
  · simp only [coercedWith, Counted.value_bind, Counted.value_pure, typeIn, httype, hetype, hunify]
  · simp only [coercedWith, Counted.value_bind, Counted.value_pure, hp' false again',
      ht' false again', he' false again', hptype, httype, hetype, hunify, coerce_convertedTo]

mutual

/-- Converted expressions keep their types, and a second conversion leaves them alone. -/
theorem kept_coercedWith (hconv : env.Converts) (hagain : Combines env again)
    (truncated : Bool) (e : Expr) :
    Kept env truncated e (e.coercedWith again env truncated).value := by
  cases e with
  | id n c | literal v c => exact Kept.of_stable rfl (fun _ _ => rfl) truncated
  | binary op l r c =>
    have hl' := kept_coercedWith hconv hagain false l
    have hr' := kept_coercedWith hconv hagain false r
    have hkept := kept_applied hconv op truncated hl'.stable hr'.stable c
    rw [applied, hl'.type, hr'.type] at hkept
    exact hkept.of_typeIn_eq (by rw [typeIn, typeIn, hl'.type, hr'.type])
  | unary op e c =>
    have he' := kept_coercedWith hconv hagain false e
    obtain ⟨hself, hresult⟩ := op.operandType_convertedTo (e.typeIn env)
    obtain ⟨htype, hstable⟩ :=
      stable_coerce hconv (op.operandType (e.typeIn env)) he'.type he'.stable
    refine Kept.of_stable ?_ (fun t again' => ?_) truncated
    · simp only [coercedWith, Counted.value_bind, Counted.value_pure, coerceOperand_eq, typeIn,
        htype, hresult]
    · simp only [coercedWith, Counted.value_bind, Counted.value_pure, coerceOperand_eq,
        hstable false again', htype, hself, coerce_convertedTo]
  | assign op t v c =>
    exact kept_assign hconv hagain op (kept_coercedWith hconv hagain false t)
      (kept_coercedWith hconv hagain false v) truncated c
  | ternary p t e c =>
    exact kept_ternary hconv (kept_coercedWith hconv hagain false p)
      (kept_coercedWith hconv hagain false t) (kept_coercedWith hconv hagain false e) truncated c
  | call f args c =>
    -- The argument of a truncation has no declared type.
    have htruncates : (f == ScalarType.int.cName) = true →
        ∀ i, ((env.signature? f).bind (·.param? i)) = none := by
      intro hname i
      rw [beq_iff_eq.1 hname, hconv.conversion .int (by simp)]
      rfl
    have hargs := coercedArgs_coercedArgs hconv hagain htruncates 0 args
    refine Kept.of_stable ?_ (fun _ again' => ?_) truncated
    · simp only [coercedWith, Counted.value_bind, Counted.value_pure, typeIn]
    · simp only [coercedWith, Counted.value_bind, Counted.value_pure, hargs again']
  | cast type e c =>
    have he' := kept_coercedWith hconv hagain false e
    refine Kept.of_stable ?_ (fun _ again' => ?_) truncated
    · simp only [coercedWith, Counted.value_bind, Counted.value_pure, typeIn]
    · simp only [coercedWith, Counted.value_bind, Counted.value_pure, he'.stable false again']
  | index a i c =>
    have ha' := kept_coercedWith hconv hagain false a
    have hi' := kept_coercedWith hconv hagain false i
    obtain ⟨hitype, hi''⟩ := stable_coerce hconv .int hi'.type hi'.stable
    refine Kept.of_stable ?_ (fun _ again' => ?_) truncated
    · simp only [coercedWith, Counted.value_bind, Counted.value_pure, typeIn, ha'.type]
    · simp only [coercedWith, Counted.value_bind, Counted.value_pure, ha'.stable false again',
        hi'' false again', hitype, coerce_convertedTo]
  | initList items c =>
    obtain ⟨hitems, -⟩ := coercedList_coercedList hconv hagain items
    refine Kept.of_stable ?_ (fun _ again' => ?_) truncated
    · simp only [coercedWith, Counted.value_bind, Counted.value_pure, typeIn]
    · simp only [coercedWith, Counted.value_bind, Counted.value_pure, hitems again']
  | comma items c =>
    obtain ⟨hitems, htype⟩ := coercedList_coercedList hconv hagain items
    refine Kept.of_stable ?_ (fun _ again' => ?_) truncated
    · simpa only [coercedWith, Counted.value_bind, Counted.value_pure, typeIn] using htype
    · simp only [coercedWith, Counted.value_bind, Counted.value_pure, hitems again']

theorem coercedArgs_coercedArgs (hconv : env.Converts) (hagain : Combines env again)
    {truncates : Bool} {signature : Option Signature}
    (htruncates : truncates = true → ∀ i, signature.bind (·.param? i) = none) (i : Nat)
    (args : List Expr) (again' : Expr → Counted Expr) :
    (coercedArgs again' env truncates signature i
        (coercedArgs again env truncates signature i args).value).value =
      (coercedArgs again env truncates signature i args).value := by
  cases args with
  | nil => rfl
  | cons e rest =>
    have hrest := coercedArgs_coercedArgs hconv hagain htruncates (i + 1) rest again'
    have he' := kept_coercedWith hconv hagain (truncates && i == 0) e
    simp only [coercedArgs, Counted.value_bind, Counted.value_pure, hrest]
    congr 1
    cases ht : signature.bind (·.param? i) with
    | none => simp only [coerceArg, he'.stableAt again', Counted.value_pure]
    | some t =>
      have hfalse : truncates = false := by
        cases truncates with
        | false => rfl
        | true =>
          rw [htruncates rfl i] at ht
          cases ht
      rw [hfalse, Bool.false_and] at he' ⊢
      obtain ⟨htype, hstable⟩ := stable_coerce hconv t he'.type he'.stable
      simp only [coerceArg, hstable false again', htype, coerce_convertedTo, Counted.value_pure]

theorem coercedList_coercedList (hconv : env.Converts) (hagain : Combines env again)
    (items : List Expr) :
    (∀ again', (coercedList again' env (coercedList again env items).value).value =
        (coercedList again env items).value) ∧
      lastTypeIn env (coercedList again env items).value = lastTypeIn env items := by
  cases items with
  | nil => exact ⟨fun _ => rfl, rfl⟩
  | cons e rest =>
    have he' := kept_coercedWith hconv hagain false e
    obtain ⟨hrest, htype⟩ := coercedList_coercedList hconv hagain rest
    refine ⟨fun again' => ?_, ?_⟩
    · simp only [coercedList, Counted.value_bind, Counted.value_pure, he'.stable false again',
        hrest again']
    · cases rest with
      | nil => exact he'.type
      | cons e' rest => exact htype

end

/-! ### Types that are not `void` -/

theorem typeIn_binary_ne_void (op : BinaryOp) {l r : Expr} (hl : l.typeIn env ≠ .void)
    (hr : r.typeIn env ≠ .void) (c : Coord) : (binary op l r c).typeIn env ≠ .void := by
  rw [typeIn, BinaryOp.resultType, ScalarType.arithmetic_eq hl hr]
  split_ifs <;> simp

theorem typeIn_ne_void {ctx : Context} {quiet : List String} (hconv : ctx.Converts) {e : Expr}
    (h : e.wellTyped quiet ctx) (hvoid : e.ctype ctx ≠ .void) : e.typeIn ctx.typeEnv ≠ .void :=
  mt (typeIn_refines hconv e h).eq_void_iff.1 hvoid

/-! ### Nodes of converted expressions -/

/-- The property is one of identifiers, of operators that write and of called names, and holds of
the calls that a conversion makes; all other nodes have it. -/
structure IsNodeProperty (p : Expr → Prop) : Prop where
  literal : ∀ v c, p (literal v c)
  binary : ∀ op l r c, p (binary op l r c)
  unary : ∀ op e e' c, p (unary op e c) → p (unary op e' c)
  neg : ∀ e c, p (Expr.unary .neg e c)
  assign : ∀ op op' t t' v v' c, p (assign op t v c) → p (assign op' t' v' c)
  ternary : ∀ a t e c, p (ternary a t e c)
  call : ∀ f args args' c, p (call f args c) → p (call f args' c)
  conversion : ∀ (t : ScalarType) args c, p (Expr.call t.cName args c)
  remainder : ∀ args c, p (Expr.call remainderFunction args c)
  cast : ∀ t e c, p (cast t e c)
  index : ∀ a i c, p (index a i c)
  initList : ∀ items c, p (initList items c)
  comma : ∀ items c, p (comma items c)

section Nodes

variable {p : Expr → Prop}

theorem IsNodeProperty.toFloatLiteral? (hp : IsNodeProperty p) {e e' : Expr}
    (h : e.toFloatLiteral? = some e') : e'.Everywhere p := by
  fun_induction Expr.toFloatLiteral? e generalizing e' with
  | case1 text c =>
    obtain ⟨n, -, rfl⟩ := Option.map_eq_some_iff.1 h
    exact everywhere_literal.2 (hp.literal _ _)
  | case2 operand c ih =>
    obtain ⟨operand', hoperand, rfl⟩ := Option.map_eq_some_iff.1 h
    exact everywhere_unary.2 ⟨hp.neg _ _, ih hoperand⟩
  | case3 => cases h

theorem IsNodeProperty.coerce (hp : IsNodeProperty p) {e : Expr} (h : e.Everywhere p)
    (s t : ScalarType) : (e.coerce s t).value.Everywhere p := by
  have hcall : (Expr.call t.cName [e] e.coord).Everywhere p :=
    everywhere_call.2 ⟨hp.conversion t _ _, by simpa using h⟩
  unfold Expr.coerce
  split_ifs
  · exact h
  · cases hliteral : e.toFloatLiteral? with
    | none => exact hcall
    | some literal => exact hp.toFloatLiteral? hliteral
  · exact hcall

theorem IsNodeProperty.coerceArg (hp : IsNodeProperty p) {e : Expr} (h : e.Everywhere p)
    (s : ScalarType) (t : Option ScalarType) : (e.coerceArg s t).value.Everywhere p := by
  cases t with
  | none => exact h
  | some t => exact hp.coerce h s t

theorem IsNodeProperty.applyBinary (hp : IsNodeProperty p) {l r : Expr} (hl : l.Everywhere p)
    (hr : r.Everywhere p) (op : BinaryOp) (common : ScalarType) (truncated : Bool) (c : Coord) :
    (applyBinary op common truncated l r c).value.Everywhere p := by
  have hbinary (op : BinaryOp) : (Expr.binary op l r c).Everywhere p :=
    everywhere_binary.2 ⟨hp.binary _ _ _ _, hl, hr⟩
  unfold Expr.applyBinary
  split
  · cases truncated with
    | true => exact hbinary _
    | false => exact everywhere_call.2 ⟨hp.conversion .int _ _, by simpa using hbinary .div⟩
  · exact everywhere_call.2 ⟨hp.remainder _ _, by simpa using ⟨hl, hr⟩⟩
  · exact hbinary _

mutual

/-- Converting an expression adds no identifiers and no writes. -/
theorem IsNodeProperty.coercedWith (hp : IsNodeProperty p)
    (hagain : ∀ e, e.Everywhere p → (again e).value.Everywhere p) (truncated : Bool) (e : Expr)
    (h : e.Everywhere p) : (e.coercedWith again env truncated).value.Everywhere p := by
  cases e with
  | id n c | literal v c => exact h
  | binary op l r c =>
    obtain ⟨-, hl, hr⟩ := everywhere_binary.1 h
    have hl' := hp.coerce (hp.coercedWith hagain false l hl) (l.typeIn env)
      (operandType op (l.typeIn env) (r.typeIn env))
    have hr' := hp.coerce (hp.coercedWith hagain false r hr) (r.typeIn env)
      (operandType op (l.typeIn env) (r.typeIn env))
    exact hp.applyBinary hl' hr' op _ truncated c
  | unary op e c =>
    obtain ⟨hop, he⟩ := everywhere_unary.1 h
    have he' := hp.coerce (hp.coercedWith hagain false e he) (e.typeIn env)
      (op.operandType (e.typeIn env))
    rw [← coerceOperand_eq] at he'
    exact everywhere_unary.2 ⟨hp.unary _ _ _ _ hop, he'⟩
  | assign op t v c =>
    obtain ⟨hop, ht, hv⟩ := everywhere_assign.1 h
    have ht' := hp.coercedWith hagain false t ht
    have hv' := hp.coercedWith hagain false v hv
    simp only [Expr.coercedWith, Counted.value_bind]
    split
    · next b hb =>
      split_ifs
      · have hcombined := hagain _ (everywhere_binary.2 ⟨hp.binary b _ _ none, ht', hv'⟩)
        exact everywhere_assign.2 ⟨hp.assign _ _ _ _ _ _ _ hop, ht', hp.coerce hcombined _ _⟩
      · exact everywhere_assign.2 ⟨hp.assign _ _ _ _ _ _ _ hop, ht', hp.coerce hv' _ _⟩
    · exact everywhere_assign.2 ⟨hp.assign _ _ _ _ _ _ _ hop, ht', hp.coerce hv' _ _⟩
  | ternary a t e c =>
    obtain ⟨-, ha, ht, he⟩ := everywhere_ternary.1 h
    have ha' := hp.coercedWith hagain false a ha
    have ht' := hp.coercedWith hagain false t ht
    have he' := hp.coercedWith hagain false e he
    exact everywhere_ternary.2 ⟨hp.ternary _ _ _ _, hp.coerce ha' _ _, hp.coerce ht' _ _,
      hp.coerce he' _ _⟩
  | call f args c =>
    obtain ⟨hcall, hargs⟩ := everywhere_call.1 h
    exact everywhere_call.2 ⟨hp.call _ _ _ _ hcall, hp.coercedArgs hagain _ _ 0 args hargs⟩
  | cast type e c =>
    obtain ⟨-, he⟩ := everywhere_cast.1 h
    exact everywhere_cast.2 ⟨hp.cast _ _ _, hp.coercedWith hagain false e he⟩
  | index a i c =>
    obtain ⟨-, ha, hi⟩ := everywhere_index.1 h
    have ha' := hp.coercedWith hagain false a ha
    have hi' := hp.coercedWith hagain false i hi
    exact everywhere_index.2 ⟨hp.index _ _ _, ha', hp.coerce hi' _ _⟩
  | initList items c =>
    obtain ⟨-, hitems⟩ := everywhere_initList.1 h
    exact everywhere_initList.2 ⟨hp.initList _ _, hp.coercedList hagain items hitems⟩
  | comma items c =>
    obtain ⟨-, hitems⟩ := everywhere_comma.1 h
    exact everywhere_comma.2 ⟨hp.comma _ _, hp.coercedList hagain items hitems⟩

theorem IsNodeProperty.coercedArgs (hp : IsNodeProperty p)
    (hagain : ∀ e, e.Everywhere p → (again e).value.Everywhere p) (truncates : Bool)
    (signature : Option Signature) (i : Nat) (args : List Expr) (h : ∀ e ∈ args, e.Everywhere p) :
    ∀ e ∈ (coercedArgs again env truncates signature i args).value, e.Everywhere p := by
  cases args with
  | nil => exact h
  | cons e rest =>
    obtain ⟨he, hrest⟩ := List.forall_mem_cons.1 h
    exact List.forall_mem_cons.2 ⟨hp.coerceArg (hp.coercedWith hagain _ e he) _ _,
      hp.coercedArgs hagain truncates signature (i + 1) rest hrest⟩

theorem IsNodeProperty.coercedList (hp : IsNodeProperty p)
    (hagain : ∀ e, e.Everywhere p → (again e).value.Everywhere p) (items : List Expr)
    (h : ∀ e ∈ items, e.Everywhere p) :
    ∀ e ∈ (coercedList again env items).value, e.Everywhere p := by
  cases items with
  | nil => exact h
  | cons e rest =>
    obtain ⟨he, hrest⟩ := List.forall_mem_cons.1 h
    exact List.forall_mem_cons.2 ⟨hp.coercedWith hagain false e he,
      hp.coercedList hagain rest hrest⟩

end

theorem IsNodeProperty.coercedTo (hp : IsNodeProperty p) (depth : Nat) {e : Expr}
    (h : e.Everywhere p) : (e.coercedTo env depth).value.Everywhere p := by
  induction depth generalizing e with
  | zero => exact hp.coercedWith (fun _ he => he) false e h
  | succ depth ih => exact hp.coercedWith (fun _ he => ih he) false e h

end Nodes

/-! ### Side effects of converted expressions -/

theorem hasSideEffects_of_toFloatLiteral? {e e' : Expr} (h : e.toFloatLiteral? = some e') :
    e'.hasSideEffects = false ∧ e.hasSideEffects = false := by
  fun_induction toFloatLiteral? e generalizing e' with
  | case1 text c =>
    obtain ⟨n, -, rfl⟩ := Option.map_eq_some_iff.1 h
    exact ⟨rfl, rfl⟩
  | case2 operand c ih =>
    obtain ⟨operand', hoperand, rfl⟩ := Option.map_eq_some_iff.1 h
    obtain ⟨hliteral, hsource⟩ := ih hoperand
    constructor <;> rw [hasSideEffects_eq] <;>
      simp [parts, writeTarget?, UnaryOp.isMutating, hliteral, hsource]
  | case3 => cases h

theorem hasSideEffects_call (f : String) (args : List Expr) (c : Coord) :
    (call f args c).hasSideEffects = args.any hasSideEffects :=
  (hasSideEffects_eq _).trans (Bool.false_or _)

theorem hasSideEffects_coerce (s t : ScalarType) (e : Expr) :
    (e.coerce s t).value.hasSideEffects = e.hasSideEffects := by
  have hcall : (call t.cName [e] e.coord).hasSideEffects = e.hasSideEffects := by
    simp [hasSideEffects_call]
  unfold coerce
  split_ifs
  · rfl
  · cases hliteral : e.toFloatLiteral? with
    | none => exact hcall
    | some literal =>
      obtain ⟨hfloat, hint⟩ := hasSideEffects_of_toFloatLiteral? hliteral
      exact hfloat.trans hint.symm
  · exact hcall

theorem hasSideEffects_applyBinary (op : BinaryOp) (common : ScalarType) (truncated : Bool)
    (l r : Expr) (c : Coord) :
    (applyBinary op common truncated l r c).value.hasSideEffects =
      (binary op l r c).hasSideEffects := by
  have hbinary (op' : BinaryOp) :
      (binary op' l r c).hasSideEffects = (binary op l r c).hasSideEffects :=
    hasSideEffects_congr rfl rfl
  unfold applyBinary
  split
  · split_ifs
    · rfl
    · change (call ScalarType.int.cName [binary .div l r c] c).hasSideEffects = _
      simp [hasSideEffects_call]
  · exact hasSideEffects_congr rfl rfl
  · rfl

mutual

/-- A converted expression has side effects where the expression has. -/
theorem hasSideEffects_coercedWith (truncated : Bool) (e : Expr) :
    (e.coercedWith again env truncated).value.hasSideEffects = e.hasSideEffects := by
  cases e with
  | id n c | literal v c => rfl
  | binary op l r c =>
    simp only [coercedWith, Counted.value_bind, hasSideEffects_applyBinary]
    exact hasSideEffects_congr rfl (by simp [parts, hasSideEffects_coerce,
      hasSideEffects_coercedWith false l, hasSideEffects_coercedWith false r])
  | unary op e c =>
    simp only [coercedWith, Counted.value_bind, Counted.value_pure, coerceOperand_eq]
    refine hasSideEffects_congr ?_ (by simp [parts, hasSideEffects_coerce,
      hasSideEffects_coercedWith false e])
    cases op <;> rfl
  | assign op t v c =>
    -- Assignments have side effects, whatever is assigned.
    have hwrites (op' : AssignOp) (t' v' : Expr) :
        (assign op' t' v' c).hasSideEffects = (assign op t v c).hasSideEffects := by
      rw [hasSideEffects_eq, hasSideEffects_eq]
      rfl
    simp only [coercedWith, Counted.value_bind]
    split
    · split_ifs <;> exact hwrites _ _ _
    · exact hwrites _ _ _
  | ternary p t e c =>
    exact hasSideEffects_congr rfl (by simp [coercedWith, parts, hasSideEffects_coerce,
      hasSideEffects_coercedWith false p, hasSideEffects_coercedWith false t,
      hasSideEffects_coercedWith false e])
  | call f args c => exact hasSideEffects_congr rfl (any_hasSideEffects_coercedArgs _ _ 0 args)
  | cast type e c =>
    exact hasSideEffects_congr rfl (by simp [coercedWith, parts,
      hasSideEffects_coercedWith false e])
  | index a i c =>
    exact hasSideEffects_congr rfl (by simp [coercedWith, parts, hasSideEffects_coerce,
      hasSideEffects_coercedWith false a, hasSideEffects_coercedWith false i])
  | initList items c | comma items c =>
    exact hasSideEffects_congr rfl (any_hasSideEffects_coercedList items)

theorem any_hasSideEffects_coercedArgs (truncates : Bool) (signature : Option Signature) (i : Nat)
    (args : List Expr) :
    (coercedArgs again env truncates signature i args).value.any hasSideEffects =
      args.any hasSideEffects := by
  cases args with
  | nil => rfl
  | cons e rest =>
    have hcoerce (e' : Expr) (t : Option ScalarType) :
        (e'.coerceArg (e.typeIn env) t).value.hasSideEffects = e'.hasSideEffects := by
      cases t with
      | none => rfl
      | some t => exact hasSideEffects_coerce _ t e'
    simp only [coercedArgs, Counted.value_bind, Counted.value_pure, List.any_cons, hcoerce,
      hasSideEffects_coercedWith _ e, any_hasSideEffects_coercedArgs truncates signature _ rest]

theorem any_hasSideEffects_coercedList (items : List Expr) :
    (coercedList again env items).value.any hasSideEffects = items.any hasSideEffects := by
  cases items with
  | nil => rfl
  | cons e rest =>
    simp only [coercedList, Counted.value_bind, Counted.value_pure, List.any_cons,
      hasSideEffects_coercedWith false e, any_hasSideEffects_coercedList rest]

end

end Expr

end MathKernel
