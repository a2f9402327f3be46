import MathKernel.Proofs.Normalize.ParityTests

/-!
# Conversion of folded tests of the lowest bit

A folded test of the lowest bit has the type of truth values and not that of integers, so that
conversions are made where the test needs none, and left out where it needs some. The converted
form of an expression with folded tests evaluates all the same as the converted form of the
expression does, where true and false are identified with one and zero.

## Main definitions

* `Expr.Matches` — a converted operand before and after folding

## Main results

* `Expr.Matches.evalAlike_coerce` — conversions to the types that operators ask for
* `Expr.standsFor_coercedWith` — converted expressions
* `Expr.alike_coercedAs` — expressions in their places
-/

namespace MathKernel

open MathKernel.Action Scalar

/-- Computations that are alike give truth values together. -/
theorem Action.Alike.returns_isTruth {x y : Action Scalar} (h : x.Alike y)
    (hx : Returns IsTruth x) : Returns IsTruth y := by
  intro m w m' hw
  have hnumber : (x >>= fun v => pure v.number) m = some (w.number, m') := by
    rw [h]
    exact bind_eq_some.2 ⟨w, m', hw, rfl⟩
  obtain ⟨v, m'', hv, heq⟩ := bind_eq_some.1 hnumber
  exact (hx m v m'' hv).of_number (Prod.mk.inj (Option.some.inj heq)).1.symm

namespace Expr

variable {calls : Calls} {ctx : Context} {env : TypeEnv}

/-! ### Conversions -/

/-- An array or a text cannot be converted. -/
theorem eval_conversion_of_not_value {e : Expr} (h : (ctx.array? e).isSome ∨ e.text?.isSome)
    (t : ScalarType) (c : Coord) : (call t.cName [e] c).eval .identified calls ctx = .stuck := by
  simp only [eval, evalArgs, Context.argument, Context.apply, ScalarType.ofCName?_cName]
  split
  · rfl
  · rfl
  · next harray htext => simp [harray, htext] at h

section Conversions

variable (hconv : ctx.Converts)
include hconv

theorem eval_conversion_identified {t : ScalarType} (ht : t ≠ .void) {e : Expr}
    (harray : ctx.array? e = none) (htext : e.text? = none) (c : Coord) :
    (call t.cName [e] c).eval .identified calls ctx =
      e.eval .identified calls ctx >>= fun v => pure (v.convert t) := by
  cases hbraced : e.isBraced with
  | false =>
    rw [eval_conversion hconv ht ⟨harray, htext, hbraced⟩]
    exact bind_congr fun v => congrArg pure (convert_number v t)
  | true =>
    -- A braced list has no value.
    cases e with
    | initList items c' => rfl
    | _ => cases hbraced

/-- A conversion, also one into a floating literal, is evaluated as a call. -/
theorem eval_coerce {s t : ScalarType} (h : ¬(s = t ∨ s = .void ∨ t = .void)) (e : Expr)
    (c : Coord) : (e.coerce s t).value.eval .identified calls ctx =
      (call t.cName [e] c).eval .identified calls ctx := by
  have ht : t ≠ .void := fun ht => h (.inr (.inr ht))
  unfold coerce
  rw [if_neg h]
  split
  · next hfloat =>
    cases hliteral : e.toFloatLiteral? with
    | none => rfl
    | some literal =>
      have hpromote (v : Scalar) (hv : v.type ≠ .bool) : Rules.identified.promote v = v := by
        cases v with
        | bool b => exact absurd rfl hv
        | _ => rfl
      obtain ⟨n, hn, hn'⟩ := eval_toFloatLiteral? .identified calls ctx hpromote hliteral
      have hvalue : e.IsValue ctx := (isValue_of_toFloatLiteral? hliteral).1
      rw [eval_conversion_identified hconv ht hvalue.array hvalue.text, hn, hfloat]
      exact hn'
  · rfl

/-- Expressions that are alike are alike in another type. -/
theorem Alike.coerce {e e' : Expr} (h : e.Alike calls ctx e') (s t : ScalarType) :
    (e.coerce s t).value.Alike calls ctx (e'.coerce s t).value := by
  by_cases hkeeps : s = t ∨ s = .void ∨ t = .void
  · unfold Expr.coerce
    rwa [if_pos hkeeps, if_pos hkeeps]
  · have heval : EvalAlike calls ctx (e.coerce s t).value (e'.coerce s t).value := by
      unfold EvalAlike
      rw [eval_coerce hconv hkeeps e none, eval_coerce hconv hkeeps e' none]
      exact Alike.call none none (.cons h .nil) t.cName
    exact heval.alike (isValue_coerce_of_ne hkeeps e) (isValue_coerce_of_ne hkeeps e')

/-- Truth values are kept by conversions between truth values and integers. -/
theorem evalAlike_coerce_of_isTruth {e : Expr}
    (h : Returns IsTruth (e.eval .identified calls ctx)) (s : ScalarType) {t : ScalarType}
    (ht : t = .int ∨ t = .bool) : EvalAlike calls ctx (e.coerce s t).value e := by
  by_cases hkeeps : s = t ∨ s = .void ∨ t = .void
  · unfold coerce
    rw [if_pos hkeeps]
    exact .refl _
  · unfold EvalAlike
    rw [eval_coerce hconv hkeeps e none]
    by_cases hvalue : (ctx.array? e).isSome ∨ e.text?.isSome
    · rw [eval_conversion_of_not_value hvalue, eval_of_not_value hvalue]
      exact .refl _
    · rw [not_or, Option.not_isSome_iff_eq_none, Option.not_isSome_iff_eq_none] at hvalue
      have hvoid : t ≠ .void := fun hvoid => hkeeps (.inr (.inr hvoid))
      rw [eval_conversion_identified hconv hvoid hvalue.1 hvalue.2]
      unfold Action.Alike
      rw [bind_assoc]
      refine h.bind_congr fun v hv => ?_
      rw [pure_bind]
      refine congrArg pure ?_
      rcases ht with rfl | rfl
      · exact hv.number_convert_int
      · exact hv

end Conversions

/-- A converted operand before and after folding: its types, and its converted forms. -/
structure Matches (calls : Calls) (ctx : Context) (t t' : ScalarType) (e e' : Expr) : Prop where
  alike : e'.Alike calls ctx e
  lowered : t.LoweredTo t'
  truth : t' = .bool → Returns IsTruth (e'.eval .identified calls ctx)
  value : t' ≠ t → ctx.array? e' = none ∧ e'.text? = none

namespace Matches

variable {t t' : ScalarType} {e e' : Expr}

/-- A conversion to the type of a place gives the same. If the place asks for other types, both are
those of truth values or integers. -/
theorem evalAlike_coerce (hconv : ctx.Converts) (h : Matches calls ctx t t' e e')
    {s s' : ScalarType} (hs : s' = s ∨ s = .int ∧ s' = .bool ∧ t' = .bool) :
    EvalAlike calls ctx (e'.coerce t' s').value (e.coerce t s).value := by
  by_cases htruth : t' = .bool ∧ (s = .int ∨ s = .bool)
  · obtain ⟨hbool, hs₁⟩ := htruth
    have hs₂ : s' = .int ∨ s' = .bool := by
      rcases hs with rfl | ⟨-, hs, -⟩
      · exact hs₁
      · exact .inr hs
    have he' := h.truth hbool
    have he := h.alike.eval.returns_isTruth he'
    exact (evalAlike_coerce_of_isTruth hconv he' t' hs₂).trans
      (h.alike.eval.trans (evalAlike_coerce_of_isTruth hconv he t hs₁).symm)
  · obtain rfl : s' = s := hs.resolve_right fun hs => htruth ⟨hs.2.2, .inl hs.1⟩
    rcases h.lowered with rfl | ⟨rfl, rfl⟩
    · exact (h.alike.coerce hconv t' s').eval
    · -- A truth value and an integer become the same floating number.
      by_cases hvoid : s' = .void
      · subst hvoid
        exact h.alike.eval
      · have hint : s' ≠ .int := fun hs => htruth ⟨rfl, .inl hs⟩
        have hbool : s' ≠ .bool := fun hs => htruth ⟨rfl, .inr hs⟩
        unfold EvalAlike
        rw [eval_coerce hconv (by simp [hvoid, hbool.symm]) e' none,
          eval_coerce hconv (by simp [hvoid, hint.symm]) e none]
        exact Alike.call none none (.cons h.alike .nil) s'.cName

/-- A conversion to one type gives the same, or passes the same array or text. -/
theorem coerce (hconv : ctx.Converts) (h : Matches calls ctx t t' e e') (s : ScalarType) :
    (e'.coerce t' s).value.Alike calls ctx (e.coerce t s).value := by
  by_cases hsame : t' = t
  · subst hsame
    exact h.alike.coerce hconv t' s
  · obtain ⟨harray', htext'⟩ := h.value hsame
    obtain ⟨harray, htext⟩ := names_coerce (h.alike.array.symm.trans harray') t s
    have htext := htext (h.alike.text.symm.trans htext')
    obtain ⟨harray', hnone⟩ := names_coerce harray' t' s
    exact ⟨harray'.trans harray.symm, (hnone htext').trans htext.symm,
      h.evalAlike_coerce hconv (.inl rfl)⟩

end Matches

/-! ### Operators -/

section Operators

variable {l l' r r' : Expr} (c c' : Coord)

theorem Alike.applyBinary (hl : l'.Alike calls ctx l) (hr : r'.Alike calls ctx r) (op : BinaryOp)
    (common : ScalarType) (truncated : Bool) :
    EvalAlike calls ctx (applyBinary op common truncated l' r' c').value
      (applyBinary op common truncated l r c).value := by
  have hbinary (op : BinaryOp) : EvalAlike calls ctx (binary op l' r' c') (binary op l r c) :=
    hl.eval.binary c' c hr.eval op
  by_cases hdiv : op = .div ∧ common = .int
  · obtain ⟨rfl, rfl⟩ := hdiv
    cases truncated with
    | true => exact hbinary .div
    | false =>
      have hquotient := (hbinary .div).standsFor rfl rfl rfl
      exact Alike.call c' c (.cons hquotient.alike .nil) ScalarType.int.cName
  · by_cases hmod : op = .mod ∧ common = .int
    · obtain ⟨rfl, rfl⟩ := hmod
      exact Alike.call c' c (.cons hl (.cons hr .nil)) remainderFunction
    · rw [value_applyBinary hdiv hmod, value_applyBinary hdiv hmod]
      exact hbinary op

/-- An operation on operands that are converted to their common type. -/
theorem Matches.applyBinary (hconv : ctx.Converts) {s s' t t' : ScalarType}
    (hl : Matches calls ctx s s' l l') (hr : Matches calls ctx t t' r r') (op : BinaryOp)
    (truncated : Bool) :
    EvalAlike calls ctx
      (applyBinary op (operandType op s' t') truncated (l'.coerce s' (operandType op s' t')).value
        (r'.coerce t' (operandType op s' t')).value c').value
      (applyBinary op (operandType op s t) truncated (l.coerce s (operandType op s t)).value
        (r.coerce t (operandType op s t)).value c).value := by
  rcases hl.lowered.operandType op hr.lowered with heq | ⟨hcompare, hint, hbool, hs, ht⟩
  · rw [heq]
    exact Alike.applyBinary c c' (hl.coerce hconv _) (hr.coerce hconv _) op _ truncated
  · have hl' := hl.evalAlike_coerce hconv (.inr ⟨hint, hbool, hs⟩)
    have hr' := hr.evalAlike_coerce hconv (.inr ⟨hint, hbool, ht⟩)
    have hdiv : op ≠ .div := by
      rintro rfl
      cases hcompare
    have hmod : op ≠ .mod := by
      rintro rfl
      cases hcompare
    rw [value_applyBinary (fun h => hdiv h.1) fun h => hmod h.1,
      value_applyBinary (fun h => hdiv h.1) fun h => hmod h.1]
    exact hl'.binary c' c hr' op

/-- A unary operator on a converted operand. -/
theorem Matches.unary (hconv : ctx.Converts) {t t' : ScalarType} (h : Matches calls ctx t t' l l')
    (hcell : l'.evalCell .identified calls ctx = l.evalCell .identified calls ctx) (op : UnaryOp) :
    EvalAlike calls ctx (unary op (l'.coerce t' (op.operandType t')).value c')
      (unary op (l.coerce t (op.operandType t)).value c) := by
  refine (h.evalAlike_coerce hconv (h.lowered.unary op).2).unary c' c fun hop => ?_
  rw [(types_of_isMutating hop t).1, (types_of_isMutating hop t').1, coerce_self, coerce_self]
  exact hcell

end Operators

/-! ### Parts of folded expressions -/

section Parts

variable {again again' : Expr → Counted Expr} {truncated : Bool} {e : Expr}

theorem everywhere_arrayFirst_foldedOdd (h : e.Everywhere (·.arrayFirst ctx)) :
    e.foldedOdd.Everywhere (·.arrayFirst ctx) := by
  refine everywhere_idioms operandBelow_oddOperand? (fun _ _ => rfl) (fun e he => ?_) h
  cases e with
  | index a i c => exact (congrArg Option.isNone (array?_foldedOdd i)).trans he
  | _ => rfl

/-- An array keeps its type. -/
theorem array?_of_typeIn_ne (h : e.foldedOdd.typeIn env ≠ e.typeIn env) :
    ctx.array? e = none ∧ e.text? = none := by
  cases e with
  | id | literal => exact absurd rfl h
  | _ => exact ⟨rfl, rfl⟩

/-- Converted expressions of which one stands for the other match as operands. -/
theorem StandsFor.matches (hodd : FoldsParity calls env ctx)
    (hfirst : e.Everywhere (·.arrayFirst ctx))
    (h : (e.foldedOdd.coercedWith again env truncated).value.StandsFor calls ctx
      (e.coercedWith again' env truncated).value) :
    Matches calls ctx (e.typeIn env) (e.foldedOdd.typeIn env)
      (e.coercedWith again' env truncated).value
      (e.foldedOdd.coercedWith again env truncated).value where
  alike := h.alike
  lowered := loweredTo_foldedOdd hodd.resultType e
  truth htype := returns_isTruth_coercedWith again hodd.toIsPartOf hodd.converts_context truncated
    e.foldedOdd htype (everywhere_arrayFirst_foldedOdd hfirst)
  value hne := by
    rw [array?_coercedWith, array?_foldedOdd, text?_coercedWith, text?_foldedOdd]
    exact array?_of_typeIn_ne hne

/-- A node that is no variable and no element of an array only has to evaluate alike. -/
theorem EvalAlike.standsFor_coercedWith (hplace : e.isPlace = false)
    (h : EvalAlike calls ctx (e.foldedOdd.coercedWith again env truncated).value
      (e.coercedWith again' env truncated).value) :
    (e.foldedOdd.coercedWith again env truncated).value.StandsFor calls ctx
      (e.coercedWith again' env truncated).value := by
  refine h.standsFor ?_ ?_ ?_
  · rw [isPlace_coercedWith, isPlace_foldedOdd, hplace]
  · rw [isPlace_coercedWith, hplace]
  · rw [text?_coercedWith, text?_coercedWith, text?_foldedOdd]

end Parts

/-! ### Assignments -/

section Assignments

variable {again again' : Expr → Counted Expr} {t v : Expr}

/-- A converted assignment is one to the converted target. -/
theorem exists_coercedWith_assign (again : Expr → Counted Expr) (env : TypeEnv) (truncated : Bool)
    (op : AssignOp) (t v : Expr) (c : Coord) :
    ∃ op' v', ((assign op t v c).coercedWith again env truncated).value =
      assign op' (t.coercedWith again env false).value v' c := by
  simp only [coercedWith, Counted.value_bind]
  split
  · split_ifs
    · exact ⟨_, _, rfl⟩
    · exact ⟨_, _, rfl⟩
  · exact ⟨_, _, rfl⟩

/-- What has another type when it is folded names no cell. -/
theorem evalCell_of_typeIn_ne (calls : Calls) (again : Expr → Counted Expr)
    (h : t.foldedOdd.typeIn env ≠ t.typeIn env) (hfirst : t.arrayFirst ctx) :
    (t.coercedWith again env false).value.evalCell .identified calls ctx = .stuck := by
  cases hplace : t.isPlace with
  | false => exact evalCell_of_isPlace ((isPlace_coercedWith again false t).trans hplace) _
  | true =>
    cases t with
    | id n c => exact absurd rfl h
    | index a i c =>
      have ha : ctx.array? a = none := (array?_of_typeIn_ne (e := a) h).1
      have hi : ctx.array? ((i.coercedWith again env false).value.coerce
          (i.typeIn env) .int).value = none :=
        (names_coerce ((array?_coercedWith again false i).trans
          (Option.isNone_iff_eq_none.1 hfirst)) _ _).1
      simp only [coercedWith, Counted.value_bind, Counted.value_pure, evalCell, Context.element, hi,
        array?_coercedWith, ha]
    | _ => cases hplace

/-- Whether an assignment is written out does not depend on folding. -/
theorem isWrittenOut_foldedOdd (hodd : env.resultType "is_odd" = .bool) (b : BinaryOp)
    (htype : t.foldedOdd.typeIn env = t.typeIn env) :
    isWrittenOut b (t.foldedOdd.typeIn env) (v.foldedOdd.typeIn env)
        (t.foldedOdd.coercedWith again env false).value =
      isWrittenOut b (t.typeIn env) (v.typeIn env) (t.coercedWith again' env false).value := by
  have hfloat : (v.foldedOdd.typeIn env == .float) = (v.typeIn env == .float) := by
    rcases loweredTo_foldedOdd hodd v with h | ⟨h, h'⟩
    · rw [h]
    · rw [h, h']
      rfl
  unfold isWrittenOut
  rw [htype, hfloat, hasSideEffects_coercedWith, hasSideEffects_coercedWith,
    hasSideEffects_foldedOdd]

/-- The value of an assignment that is written out. -/
theorem Matches.written (hconv : ctx.Converts) (hagain : Combines env again)
    (hagain' : Combines env again') {t' v' l l' r r' : Expr}
    (hl : Kept env false t l) (hl' : Kept env false t' l') (hr : Kept env false v r)
    (hr' : Kept env false v' r') (ht : Matches calls ctx (t.typeIn env) (t'.typeIn env) l l')
    (hv : Matches calls ctx (v.typeIn env) (v'.typeIn env) r r') (b : BinaryOp) :
    EvalAlike calls ctx
      ((again (binary b l' r' none)).value.coerce ((binary b l' r' none).typeIn env) .int).value
      ((again' (binary b l r none)).value.coerce ((binary b l r none).typeIn env) .int).value := by
  have happlied := (ht.applyBinary none none hconv hv b false).alike
    (isValue_applyBinary b _ _ _ _ none) (isValue_applyBinary b _ _ _ _ none)
  rw [hagain b l' r' none hl'.stable hr'.stable, hagain' b l r none hl.stable hr.stable, applied,
    applied, typeIn, typeIn, hl'.type, hr'.type, hl.type, hr.type,
    ht.lowered.resultType b hv.lowered]
  exact (happlied.coerce hconv _ _).eval

end Assignments

/-! ### Folded expressions -/

section Folded

variable {again again' : Expr → Counted Expr}

/-- An assignment of a folded value to a folded target. One to a target that has another type when
it is folded gets stuck. -/
theorem evalAlike_assign (hodd : FoldsParity calls env ctx)
    (hagain : Combines env again) (hagain' : Combines env again') {t v : Expr}
    (hfirst : t.arrayFirst ctx)
    (ht : (t.foldedOdd.coercedWith again env false).value.StandsFor calls ctx
      (t.coercedWith again' env false).value)
    (htmatches : Matches calls ctx (t.typeIn env) (t.foldedOdd.typeIn env)
      (t.coercedWith again' env false).value (t.foldedOdd.coercedWith again env false).value)
    (hv : Matches calls ctx (v.typeIn env) (v.foldedOdd.typeIn env)
      (v.coercedWith again' env false).value (v.foldedOdd.coercedWith again env false).value)
    (op : AssignOp) (truncated : Bool) (c : Coord) :
    EvalAlike calls ctx
      ((assign op t.foldedOdd v.foldedOdd c).coercedWith again env truncated).value
      ((assign op t v c).coercedWith again' env truncated).value := by
  by_cases htype : t.foldedOdd.typeIn env = t.typeIn env
  · have hvalue : EvalAlike calls ctx
        ((v.foldedOdd.coercedWith again env false).value.coerce (v.foldedOdd.typeIn env)
          (t.foldedOdd.typeIn env)).value
        ((v.coercedWith again' env false).value.coerce (v.typeIn env) (t.typeIn env)).value := by
      rw [htype]
      exact hv.evalAlike_coerce hodd.converts_context (.inl rfl)
    simp only [coercedWith, Counted.value_bind]
    cases hop : op.binary? with
    | none => exact EvalAlike.assign c c ht.cell hvalue op
    | some b =>
      have hout : isWrittenOut b (t.foldedOdd.typeIn env) (v.foldedOdd.typeIn env)
          (t.foldedOdd.coercedWith again env false).value =
          isWrittenOut b (t.typeIn env) (v.typeIn env) (t.coercedWith again' env false).value :=
        isWrittenOut_foldedOdd hodd.resultType b htype
      simp only [hout]
      by_cases hwritten : isWrittenOut b (t.typeIn env) (v.typeIn env)
          (t.coercedWith again' env false).value
      · simp only [hwritten, if_true]
        have hcombined := htmatches.written hodd.converts_context hagain hagain'
          (kept_coercedWith hodd.converts hagain' false t)
          (kept_coercedWith hodd.converts hagain false t.foldedOdd)
          (kept_coercedWith hodd.converts hagain' false v)
          (kept_coercedWith hodd.converts hagain false v.foldedOdd) hv b
        exact EvalAlike.assign c c ht.cell hcombined .assign
      · simp only [if_neg hwritten]
        exact EvalAlike.assign c c ht.cell hvalue op
  · -- A target whose type changes is a test and no place: both assignments get stuck.
    have hstuck := evalCell_of_typeIn_ne calls again' htype hfirst
    obtain ⟨op₁, v₁, heq₁⟩ := exists_coercedWith_assign again' env truncated op t v c
    obtain ⟨op₂, v₂, heq₂⟩ :=
      exists_coercedWith_assign again env truncated op t.foldedOdd v.foldedOdd c
    rw [heq₁, heq₂]
    refine .of_eq ?_
    rw [eval, eval, ht.cell, hstuck]
    rfl

/-- The argument of the folded call is converted to an integer. -/
theorem value_coercedWith_isOdd (hodd : FoldsParity calls env ctx) (truncated : Bool) (e : Expr)
    (c : Coord) : ((call "is_odd" [e] c).coercedWith again env truncated).value =
      call "is_odd" [((e.coercedWith again env false).value.coerce (e.typeIn env)
        .int).value] c := by
  have hname : ("is_odd" == ScalarType.int.cName) = false := by decide
  simp only [coercedWith, coercedArgs, Counted.value_bind, Counted.value_pure,
    hodd.signature, hname, Bool.false_and]
  rfl

/-- The folded call of a converted operand does what the converted test does. -/
theorem Matches.evalAlike_test (hodd : FoldsParity calls env ctx) {t t' : ScalarType}
    {e e' : Expr} (h : Matches calls ctx t t' e e') {value : Literal}
    (hvalue : value.scalar? = some (.int 1)) (hint : value.kind.scalar = .int) (c c' c'' : Coord) :
    EvalAlike calls ctx (call "is_odd" [(e'.coerce t' .int).value] c')
        (binary .bitAnd (e.coerce t .int).value
          ((literal value c).coerce value.kind.scalar .int).value c'') ∧
      EvalAlike calls ctx (call "is_odd" [(e'.coerce t' .int).value] c')
        (binary .bitAnd ((literal value c).coerce value.kind.scalar .int).value
          (e.coerce t .int).value c'') := by
  rw [hint, coerce_self]
  exact Expr.evalAlike_test hodd.knowsParity (h.coerce hodd.converts_context .int)
    (eval_literal hvalue _ c) c' c''

mutual

/-- The converted form of an expression with folded tests can stand for that of the expression. -/
theorem standsFor_coercedWith (hodd : FoldsParity calls env ctx)
    (hagain : Combines env again) (hagain' : Combines env again') (truncated : Bool) (e : Expr)
    (hfirst : e.Everywhere (·.arrayFirst ctx)) :
    (e.foldedOdd.coercedWith again env truncated).value.StandsFor calls ctx
      (e.coercedWith again' env truncated).value := by
  cases e with
  | id n c | literal v c => exact .refl _
  | binary op l r c =>
    obtain ⟨-, hl, hr⟩ := everywhere_binary.1 hfirst
    have hl' := (standsFor_coercedWith hodd hagain hagain' false l hl).matches hodd hl
    have hr' := (standsFor_coercedWith hodd hagain hagain' false r hr).matches hodd hr
    refine EvalAlike.standsFor_coercedWith rfl ?_
    -- The operation stays, or it is a test of its left or of its right operand.
    rcases foldedOdd_binary_cases op l r c with heq | ⟨value, c', rfl, rfl, hvalue, hint, heq⟩ |
      ⟨value, c', rfl, rfl, hvalue, hint, heq⟩
    · rw [heq]
      exact hl'.applyBinary c c hodd.converts_context hr' op truncated
    · rw [heq, value_coercedWith_isOdd hodd]
      exact (hl'.evalAlike_test hodd hvalue hint c' c c).1
    · rw [heq, value_coercedWith_isOdd hodd]
      exact (hr'.evalAlike_test hodd hvalue hint c' c c).2
  | unary op e c =>
    obtain ⟨-, he⟩ := everywhere_unary.1 hfirst
    have he' := standsFor_coercedWith hodd hagain hagain' false e he
    refine EvalAlike.standsFor_coercedWith rfl ?_
    simp only [foldedOdd_unary, coercedWith, Counted.value_bind, Counted.value_pure,
      coerceOperand_eq]
    exact (he'.matches hodd he).unary c c hodd.converts_context he'.cell op
  | assign op t v c =>
    obtain ⟨-, ht, hv⟩ := everywhere_assign.1 hfirst
    have ht' := standsFor_coercedWith hodd hagain hagain' false t ht
    have hv' := standsFor_coercedWith hodd hagain hagain' false v hv
    refine EvalAlike.standsFor_coercedWith rfl ?_
    exact evalAlike_assign hodd hagain hagain' (everywhere_iff.1 ht).1 ht'
      (ht'.matches hodd ht) (hv'.matches hodd hv) op truncated c
  | ternary p t e c =>
    obtain ⟨-, hp, ht, he⟩ := everywhere_ternary.1 hfirst
    have hp' := (standsFor_coercedWith hodd hagain hagain' false p hp).matches hodd hp
    have ht' := (standsFor_coercedWith hodd hagain hagain' false t ht).matches hodd ht
    have he' := (standsFor_coercedWith hodd hagain hagain' false e he).matches hodd he
    refine EvalAlike.standsFor_coercedWith rfl ?_
    simp only [foldedOdd_ternary, coercedWith, Counted.value_bind, Counted.value_pure]
    have hunify := ht'.lowered.unify he'.lowered
    have hconv := hodd.converts_context
    refine (hp'.evalAlike_coerce hconv (.inl rfl)).ternary c c
      (ht'.evalAlike_coerce hconv ?_) (he'.evalAlike_coerce hconv ?_)
    · exact hunify.imp_right fun h => ⟨h.1, h.2.1, h.2.2.1⟩
    · exact hunify.imp_right fun h => ⟨h.1, h.2.1, h.2.2.2⟩
  | call f args c =>
    refine EvalAlike.standsFor_coercedWith rfl ?_
    rw [foldedOdd_call]
    exact Alike.call c c (forall₂_alike_coercedArgs hodd hagain hagain' _ _ 0 args
      (everywhere_call.1 hfirst).2) f
  | cast type e c =>
    obtain ⟨-, he⟩ := everywhere_cast.1 hfirst
    have he' := standsFor_coercedWith hodd hagain hagain' false e he
    exact EvalAlike.standsFor_coercedWith rfl (he'.alike.eval.cast c c type)
  | index a i c =>
    obtain ⟨-, ha, hi⟩ := everywhere_index.1 hfirst
    have ha' := standsFor_coercedWith hodd hagain hagain' false a ha
    have hi' := (standsFor_coercedWith hodd hagain hagain' false i hi).matches hodd hi
    -- An element is a place too, so it has to be the same cell.
    exact ha'.alike.index c c (hi'.coerce hodd.converts_context .int)
  | initList items c =>
    refine EvalAlike.standsFor_coercedWith rfl ?_
    rw [foldedOdd_initList]
    exact .of_eq rfl
  | comma items c =>
    refine EvalAlike.standsFor_coercedWith rfl ?_
    rw [foldedOdd_comma]
    exact EvalAlike.comma c c (forall₂_evalAlike_coercedList hodd hagain hagain' items
      (everywhere_comma.1 hfirst).2)

theorem forall₂_alike_coercedArgs (hodd : FoldsParity calls env ctx)
    (hagain : Combines env again) (hagain' : Combines env again') (truncates : Bool)
    (signature : Option Signature) (i : Nat) (args : List Expr)
    (hfirst : ∀ e ∈ args, e.Everywhere (·.arrayFirst ctx)) :
    List.Forall₂ (Alike calls ctx)
      (coercedArgs again env truncates signature i (args.map foldedOdd)).value
      (coercedArgs again' env truncates signature i args).value := by
  cases args with
  | nil => exact .nil
  | cons e rest =>
    obtain ⟨he, hrest⟩ := List.forall_mem_cons.1 hfirst
    have he' := (standsFor_coercedWith hodd hagain hagain' (truncates && i == 0) e
      he).matches hodd he
    have hrest' := forall₂_alike_coercedArgs hodd hagain hagain' truncates signature
      (i + 1) rest hrest
    simp only [List.map_cons, coercedArgs, Counted.value_bind, Counted.value_pure]
    refine .cons ?_ hrest'
    cases signature.bind (·.param? i) with
    | none => exact he'.alike
    | some t => exact he'.coerce hodd.converts_context t

theorem forall₂_evalAlike_coercedList (hodd : FoldsParity calls env ctx)
    (hagain : Combines env again) (hagain' : Combines env again') (items : List Expr)
    (hfirst : ∀ e ∈ items, e.Everywhere (·.arrayFirst ctx)) :
    List.Forall₂ (EvalAlike calls ctx)
      (coercedList again env (items.map foldedOdd)).value
      (coercedList again' env items).value := by
  cases items with
  | nil => exact .nil
  | cons e rest =>
    obtain ⟨he, hrest⟩ := List.forall_mem_cons.1 hfirst
    have he' := standsFor_coercedWith hodd hagain hagain' false e he
    exact .cons he'.alike.eval
      (forall₂_evalAlike_coercedList hodd hagain hagain' rest hrest)

end

end Folded

/-! ### Expressions in their places -/

section Places

variable (hodd : FoldsParity calls env ctx) {e : Expr}
  (hfirst : e.Everywhere (·.arrayFirst ctx))
include hodd hfirst

/-- A converted expression with folded tests can stand for the converted expression. -/
theorem standsFor_coerced :
    (e.foldedOdd.coerced env).value.StandsFor calls ctx (e.coerced env).value := by
  obtain ⟨again, hagain, heq⟩ := coerced_eq env e.foldedOdd
  obtain ⟨again', hagain', heq'⟩ := coerced_eq env e
  rw [heq, heq']
  exact standsFor_coercedWith hodd hagain hagain' false e hfirst

/-- An expression with folded tests, converted to the type of its place. -/
theorem alike_coercedAs (t : ScalarType) :
    (e.foldedOdd.coercedAs env t).value.Alike calls ctx
      (e.coercedAs env t).value := by
  obtain ⟨again, hagain, heq⟩ := coerced_eq env e.foldedOdd
  obtain ⟨again', hagain', heq'⟩ := coerced_eq env e
  have hmatches := (standsFor_coercedWith hodd hagain hagain' false e hfirst).matches hodd hfirst
  simp only [coercedAs, Counted.value_bind, heq, heq']
  exact hmatches.coerce hodd.converts_context t

end Places

end Expr

end MathKernel
