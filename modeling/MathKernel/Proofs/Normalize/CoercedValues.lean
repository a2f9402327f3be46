import MathKernel.Proofs.Normalize.Coercion
import MathKernel.Proofs.Semantics.Agreement
import MathKernel.Proofs.Semantics.Effects

/-!
# Values of converted expressions

Evaluating a converted expression by the explicit rules does what evaluating the expression by
the implicit rules does: it gets stuck in the same memories, makes the same changes, and gives the
same value in the type that was found for the expression. Here this is shown of each kind of node
whose parts evaluate so.

## Main definitions

* `Action.Follows` — one computation gives what is seen of the results of another
* `Expr.Evaluates` — the values of an expression and of its converted form

## Main results

* `Expr.follows_coerce` — one conversion
* `Expr.evaluates_applied` — an operation on converted operands
* `Expr.follows_compound`, `Expr.follows_writtenOut` — compound assignments
-/

namespace MathKernel

open Scalar

namespace Action

variable {α : Type} {s t : ScalarType} {see see' : Scalar → Scalar} {x c : Action Scalar}

/-- A computation gives what is seen of the results of another one, which have the given type. -/
structure Follows (s : ScalarType) (see : Scalar → Scalar) (x c : Action Scalar) : Prop where
  eq : x = c >>= fun v => pure (see v)
  fits : Returns (Fits s) c

theorem Follows.bind_eq (h : Follows s see x c) {f g : Scalar → Action α}
    (hfg : ∀ v, v.Fits s → f (see v) = g v) : x >>= f = c >>= g := by
  rw [h.eq, bind_assoc]
  refine h.fits.bind_congr fun v hv => ?_
  rw [pure_bind]
  exact hfg v hv

theorem Follows.bind (h : Follows s see x c) {f g : Scalar → Action Scalar}
    (hfg : ∀ v, v.Fits s → Follows t see' (f (see v)) (g v)) :
    Follows t see' (x >>= f) (c >>= g) := by
  constructor
  · rw [bind_assoc]
    exact h.bind_eq fun v hv => (hfg v hv).eq
  · exact h.fits.bind fun v hv => (hfg v hv).fits

theorem Returns.follows_bind {P : α → Prop} {y : Action α} (h : Returns P y)
    {f g : α → Action Scalar} (hfg : ∀ a, P a → Follows t see (f a) (g a)) :
    Follows t see (y >>= f) (y >>= g) := by
  constructor
  · rw [bind_assoc]
    exact h.bind_congr fun a ha => (hfg a ha).eq
  · exact h.bind fun a ha => (hfg a ha).fits

theorem follows_pure (see : Scalar → Scalar) {v : Scalar} (h : v.Fits t) :
    Follows t see (pure (see v)) (pure v) :=
  ⟨by rw [pure_bind], returns_pure h⟩

theorem ofOption_some (a : α) : ofOption (some a) = pure a := rfl

theorem ofOption_bind_pure (o : Option Scalar) (see : Scalar → Scalar) :
    (ofOption o >>= fun v => pure (see v)) = ofOption (o.map see) := by
  cases o <;> rfl

theorem follows_ofOption {o o' : Option Scalar} (heq : o' = o.map see)
    (hfits : ∀ v, o = some v → v.Fits t) : Follows t see (ofOption o') (ofOption o) :=
  ⟨by rw [heq, ofOption_bind_pure], returns_ofOption hfits⟩

/-- Values of their own types are seen as they are. -/
theorem Follows.of_type (h : Returns (·.type = t) c) : Follows t (seenAs t) c c := by
  refine ⟨?_, h.imp fun v hv => .of_type hv⟩
  conv_lhs => rw [← bind_pure c]
  exact h.bind_congr fun v hv => by rw [seenAs_of_type hv]

/-- What is seen may be changed where it agrees. -/
theorem Follows.congr (h : Follows s see x c) (hsee : ∀ v, v.Fits s → see v = see' v) :
    Follows s see' x c := by
  refine ⟨?_, h.fits⟩
  rw [h.eq]
  exact h.fits.bind_congr fun v hv => by rw [hsee v hv]

end Action

namespace Expr

open MathKernel.Action

variable {calls : Calls} {ctx : Context}

/-- Whether the expression is a braced list. -/
def isBraced : Expr → Bool
  | initList .. => true
  | _ => false

/-- The expression is not an array, a text or a braced list. -/
structure IsValue (ctx : Context) (e : Expr) : Prop where
  array : ctx.array? e = none
  text : e.text? = none
  braced : e.isBraced = false

theorem isValue_of_wellTyped {quiet : List String} {e : Expr} (h : e.wellTyped quiet ctx) :
    e.IsValue ctx := by
  cases e with
  | id n c =>
    obtain ⟨cell, hcell⟩ := Option.isSome_iff_exists.1 h
    obtain ⟨b, hb, harray, -⟩ := Context.binding?_of_cell? hcell
    exact ⟨by simp [Context.array?, hb, harray], rfl, rfl⟩
  | literal v c =>
    refine ⟨rfl, ?_, rfl⟩
    obtain ⟨kind, text⟩ := v
    cases kind with
    | string => cases h
    | _ => rfl
  | initList items c => cases h
  | _ => exact ⟨rfl, rfl, rfl⟩

theorem argument_eq {e : Expr} (h : e.IsValue ctx) (rules : Rules) (param : Option ScalarType)
    (x : Action Scalar) :
    ctx.argument rules param e x =
      x >>= fun v => ofOption (rules.argument? param v) >>= fun w => pure (.scalar w) := by
  rw [Context.argument, h.array, h.text]

theorem eval_conversion (hconv : ctx.Converts) {t : ScalarType} (ht : t ≠ .void) {e : Expr}
    (h : e.IsValue ctx) (rules : Rules) (c : Coord) :
    (call t.cName [e] c).eval rules calls ctx =
      e.eval rules calls ctx >>= fun v => pure ((rules.promote v).convert t) := by
  have hsignature := hconv.conversion t ht
  simp only [eval, evalArgs, argument_eq h, hsignature, bind_assoc, pure_bind]
  refine bind_congr fun v => ?_
  simp only [Option.bind_some, Signature.param?, Rules.argument?, Context.apply,
    ScalarType.ofCName?_cName]
  rfl

theorem convert_promote (v : Scalar) (t : ScalarType) :
    (Rules.implicit.promote v).convert t = v.convert t := by
  cases v with
  | bool b => cases t <;> cases b <;> rfl
  | _ => rfl

/-- An integer literal and its floating form have one number as their value. -/
theorem eval_toFloatLiteral? (rules : Rules) (calls : Calls) (ctx : Context)
    (hpromote : ∀ v, v.type ≠ .bool → rules.promote v = v) {e e' : Expr}
    (h : e.toFloatLiteral? = some e') :
    ∃ n : Int, e.eval rules calls ctx = pure (.int n) ∧
      e'.eval rules calls ctx = pure (.float n) := by
  fun_induction toFloatLiteral? e generalizing e' with
  | case1 text c =>
    obtain ⟨n, hn, rfl⟩ := Option.map_eq_some_iff.1 h
    refine ⟨n, ?_, ?_⟩
    · simp only [eval, Literal.scalar?, Literal.integer?_of_readInt? hn]
      rfl
    · simp only [eval, Expr.float, Literal.scalar?, Literal.rational?_toString]
      rfl
  | case2 operand c ih =>
    obtain ⟨operand', hoperand, rfl⟩ := Option.map_eq_some_iff.1 h
    obtain ⟨n, hn, hn'⟩ := ih hoperand
    have hint := hpromote (.int n) (by simp [type])
    have hfloat := hpromote (.float n) (by simp [type])
    refine ⟨-n, ?_, ?_⟩
    · simp only [eval, UnaryOp.isMutating, Bool.false_eq_true, if_false, hn, pure_bind,
        Rules.unary, hint]
      rfl
    · simp only [eval, UnaryOp.isMutating, Bool.false_eq_true, if_false, hn', pure_bind,
        Rules.unary, hfloat]
      push_cast
      rfl
  | case3 => cases h

theorem isValue_of_toFloatLiteral? {e e' : Expr} (h : e.toFloatLiteral? = some e') :
    e.IsValue ctx ∧ e'.IsValue ctx := by
  unfold toFloatLiteral? at h
  split at h
  · obtain ⟨n, -, rfl⟩ := Option.map_eq_some_iff.1 h
    exact ⟨⟨rfl, rfl, rfl⟩, rfl, rfl, rfl⟩
  · obtain ⟨operand, -, rfl⟩ := Option.map_eq_some_iff.1 h
    exact ⟨⟨rfl, rfl, rfl⟩, rfl, rfl, rfl⟩
  · cases h

theorem isValue_coerce_of_ne {s t : ScalarType} (h : ¬(s = t ∨ s = .void ∨ t = .void)) (e : Expr) :
    (e.coerce s t).value.IsValue ctx := by
  unfold coerce
  rw [if_neg h]
  split
  · cases hliteral : e.toFloatLiteral? with
    | none => exact ⟨rfl, rfl, rfl⟩
    | some literal => exact (isValue_of_toFloatLiteral? hliteral).2
  · exact ⟨rfl, rfl, rfl⟩

/-- A conversion leaves the expression as it is, or makes a value of it. -/
theorem coerce_eq_or_isValue (ctx : Context) (s t : ScalarType) (e : Expr) :
    (e.coerce s t).value = e ∨ (e.coerce s t).value.IsValue ctx := by
  by_cases hkeeps : s = t ∨ s = .void ∨ t = .void
  · unfold coerce
    rw [if_pos hkeeps]
    exact .inl rfl
  · exact .inr (isValue_coerce_of_ne hkeeps e)

theorem isValue_coerce {e : Expr} (h : e.IsValue ctx) (s t : ScalarType) :
    (e.coerce s t).value.IsValue ctx := by
  rcases coerce_eq_or_isValue ctx s t e with heq | hvalue
  · rwa [heq]
  · exact hvalue

/-- One conversion gives the converted value. -/
theorem follows_coerce (hconv : ctx.Converts) {s t : ScalarType} (hs : s ≠ .void) (ht : t ≠ .void)
    {e : Expr} {c : Action Scalar} (hvalue : e.IsValue ctx)
    (h : Follows s (seenAs s) (e.eval .explicit calls ctx) c) :
    Follows s (convert t) ((e.coerce s t).value.eval .explicit calls ctx) c := by
  by_cases heq : s = t
  · subst heq
    rw [coerce_self]
    exact h.congr fun v hv => hv.seenAs_eq
  · -- Both forms of a conversion convert the value of the expression.
    have hconverted : (e.coerce s t).value.eval .explicit calls ctx =
        e.eval .explicit calls ctx >>= fun v => pure (v.convert t) := by
      simp only [coerce, heq, hs, ht, or_self, if_false]
      split
      · next hfloat =>
        cases hliteral : e.toFloatLiteral? with
        | none => exact eval_conversion hconv ht hvalue .explicit _
        | some literal =>
          obtain ⟨n, hn, hn'⟩ :=
            eval_toFloatLiteral? .explicit calls ctx (fun _ _ => rfl) hliteral
          subst hfloat
          change literal.eval .explicit calls ctx = _
          rw [hn, hn', pure_bind]
          rfl
      · exact eval_conversion hconv ht hvalue .explicit _
    refine ⟨?_, h.fits⟩
    rw [hconverted]
    exact h.bind_eq fun v hv => by rw [hv.convert_seenAs]

/-! ### Operators -/

theorem eval_binary {op : BinaryOp} (hop : op.isLogical = false) (l r : Expr) (c : Coord)
    (rules : Rules) :
    (binary op l r c).eval rules calls ctx =
      l.eval rules calls ctx >>= fun v => r.eval rules calls ctx >>= fun w =>
        ofOption (rules.binary op v w) := by
  simp only [eval, hop, Bool.false_eq_true, if_false]

section Operands

variable {s t : ScalarType} {l r : Expr} {cl cr : Action Scalar}

/-- The remainder of operands that are converted to integers. -/
theorem eval_remainder (hconv : ctx.Converts) (hlvalue : l.IsValue ctx) (hrvalue : r.IsValue ctx)
    (hl : Follows s (convert .int) (l.eval .explicit calls ctx) cl)
    (hr : Follows t (convert .int) (r.eval .explicit calls ctx) cr) (hs : s ≠ .void)
    (ht : t ≠ .void) (c : Coord) :
    (call remainderFunction [l, r] c).eval .explicit calls ctx =
      cl >>= fun v => cr >>= fun w =>
        ofOption (remainderOf? [.scalar (v.convert .int), .scalar (w.convert .int)]) := by
  have hname : ScalarType.ofCName? remainderFunction = none := by decide
  have hargument {u : ScalarType} {v : Scalar} (hv : v.Fits u) (hu : u ≠ .void) :
      Rules.explicit.argument? (some .int) (v.convert .int) = some (v.convert .int) :=
    Rules.explicit_expect? (hv.type_convert hu .int)
  simp only [eval, evalArgs, argument_eq hlvalue, argument_eq hrvalue, hconv.remainder,
    bind_assoc, pure_bind, Option.bind_some]
  refine hl.bind_eq fun v hv => ?_
  change ofOption (Rules.explicit.argument? (some .int) (v.convert .int)) >>= _ = _
  rw [hargument hv hs, ofOption_some, pure_bind]
  refine hr.bind_eq fun w hw => ?_
  change ofOption (Rules.explicit.argument? (some .int) (w.convert .int)) >>= _ = _
  rw [hargument hw ht, ofOption_some, pure_bind]
  simp only [Context.apply, hname, if_true]

end Operands

/-- The values of an expression and of its converted form. As the argument of a truncation, a
quotient of integers may be exact. -/
structure Evaluates (calls : Calls) (ctx : Context) (truncated : Bool) (e e' : Expr) : Prop where
  value : e'.IsValue ctx
  fits : Returns (Fits (e.typeIn ctx.typeEnv)) (e.eval .implicit calls ctx)
  follows : truncated = false → Follows (e.typeIn ctx.typeEnv) (seenAs (e.typeIn ctx.typeEnv))
    (e'.eval .explicit calls ctx) (e.eval .implicit calls ctx)
  truncates : (e'.eval .explicit calls ctx >>= fun v => pure (v.convert .int)) =
    e.eval .implicit calls ctx >>= fun v => pure (v.convert .int)

theorem Evaluates.of_follows {e e' : Expr} (hvalue : e'.IsValue ctx)
    (h : Follows (e.typeIn ctx.typeEnv) (seenAs (e.typeIn ctx.typeEnv))
      (e'.eval .explicit calls ctx) (e.eval .implicit calls ctx)) (truncated : Bool) :
    Evaluates calls ctx truncated e e' :=
  ⟨hvalue, h.fits, fun _ => h, h.bind_eq fun v hv => by rw [hv.convert_seenAs]⟩

theorem Evaluates.follows_coerce {e e' : Expr} (hconv : ctx.Converts)
    (h : Evaluates calls ctx false e e') (hvoid : e.typeIn ctx.typeEnv ≠ .void) {t : ScalarType}
    (ht : t ≠ .void) :
    Follows (e.typeIn ctx.typeEnv) (convert t)
      ((e'.coerce (e.typeIn ctx.typeEnv) t).value.eval .explicit calls ctx)
      (e.eval .implicit calls ctx) :=
  Expr.follows_coerce hconv hvoid ht h.value (h.follows rfl)

section Operation

variable {op : BinaryOp} {l r l' r' : Expr} {common : ScalarType}
  (hl : Follows (l.typeIn ctx.typeEnv) (convert common) (l'.eval .explicit calls ctx)
    (l.eval .implicit calls ctx))
  (hr : Follows (r.typeIn ctx.typeEnv) (convert common) (r'.eval .explicit calls ctx)
    (r.eval .implicit calls ctx))
include hl hr

/-- A connective of converted operands. -/
theorem follows_connective (hop : op.isLogical) (hcommon : common = .bool) (c c' : Coord) :
    Follows .bool (seenAs .bool) ((binary op l' r' c').eval .explicit calls ctx)
      ((binary op l r c).eval .implicit calls ctx) := by
  subst hcommon
  have htruth (b : Bool) : Follows .bool (seenAs .bool) (pure (Rules.explicit.truth b))
      (pure (Rules.implicit.truth b)) := by
    have h := follows_pure (seenAs .bool) (fits_bit b)
    rwa [seenAs_bool, convert_bool_bit] at h
  simp only [eval, hop, if_true]
  refine hl.bind fun v hv => ?_
  rw [Rules.explicit_condition?_convert]
  refine (returns_ofOption (P := fun _ => True) fun _ _ => trivial).follows_bind fun b _ => ?_
  split
  · exact htruth b
  · refine hr.bind fun w hw => ?_
    rw [Rules.explicit_condition?_convert]
    exact (returns_ofOption (P := fun _ => True) fun _ _ => trivial).follows_bind
      fun b _ => htruth b

variable (hltype : l.typeIn ctx.typeEnv ≠ .void) (hrtype : r.typeIn ctx.typeEnv ≠ .void)
include hltype hrtype

/-- An operation on converted operands. -/
theorem follows_binary (hop : op.isLogical = false)
    (hbits : op.isBitwise → l.typeIn ctx.typeEnv ≠ .float ∧ r.typeIn ctx.typeEnv ≠ .float)
    (hcommon : common = operandType op (l.typeIn ctx.typeEnv) (r.typeIn ctx.typeEnv))
    (hdiv : ¬(op = .div ∧ common = .int)) (hmod : ¬(op = .mod ∧ common = .int)) (c c' : Coord) :
    Follows ((binary op l r c).typeIn ctx.typeEnv)
      (seenAs ((binary op l r c).typeIn ctx.typeEnv))
      ((binary op l' r' c').eval .explicit calls ctx)
      ((binary op l r c).eval .implicit calls ctx) := by
  rw [eval_binary hop, eval_binary hop, typeIn]
  refine hl.bind fun v hv => hr.bind fun w hw => ?_
  subst hcommon
  exact follows_ofOption (Rules.explicit_binary hv hw hltype hrtype hop hbits hdiv hmod)
    fun result => Rules.fits_binary hv hw hltype hrtype

/-- Truncating a quotient of converted operands. -/
theorem eval_div (hcommon : common = .int)
    (hint : ScalarType.arithmetic (l.typeIn ctx.typeEnv) (r.typeIn ctx.typeEnv) = .int)
    (c c' : Coord) :
    ((binary .div l' r' c').eval .explicit calls ctx >>= fun v => pure (v.convert .int)) =
      (binary .div l r c).eval .implicit calls ctx := by
  subst hcommon
  rw [eval_binary rfl, eval_binary rfl, bind_assoc]
  refine hl.bind_eq fun v hv => ?_
  rw [bind_assoc]
  refine hr.bind_eq fun w hw => ?_
  rw [ofOption_bind_pure, Rules.explicit_div hv hw hltype hrtype hint]

/-- The remainder of converted operands. -/
theorem eval_mod (hconv : ctx.Converts) (hl' : l'.IsValue ctx) (hr' : r'.IsValue ctx)
    (hcommon : common = .int)
    (hint : ScalarType.arithmetic (l.typeIn ctx.typeEnv) (r.typeIn ctx.typeEnv) = .int)
    (c c' : Coord) :
    (call remainderFunction [l', r'] c').eval .explicit calls ctx =
      (binary .mod l r c).eval .implicit calls ctx := by
  subst hcommon
  rw [eval_remainder hconv hl' hr' hl hr hltype hrtype, eval_binary rfl]
  refine hl.fits.bind_congr fun v hv => hr.fits.bind_congr fun w hw => ?_
  rw [Rules.remainderOf?_eq hv hw hltype hrtype hint]

end Operation

/-- The values of an operation on integers. -/
theorem returns_int {op : BinaryOp} {s t : ScalarType} {l r : Expr}
    (hl : Returns (Fits s) (l.eval .implicit calls ctx))
    (hr : Returns (Fits t) (r.eval .implicit calls ctx)) (hs : s ≠ .void) (ht : t ≠ .void)
    (hop : op.isLogical = false) (hint : op.resultType s t = .int) (c : Coord) :
    Returns (·.type = .int) ((binary op l r c).eval .implicit calls ctx) := by
  rw [eval_binary hop]
  refine hl.bind fun v hv => hr.bind fun w hw => returns_ofOption fun result hresult => ?_
  have hfits := Rules.fits_binary hv hw hs ht hresult
  rw [hint] at hfits
  exact hfits.type_eq (by simp)

/-- An operation on operands that are converted to their common type. -/
theorem evaluates_applied (hconv : ctx.Converts) {op : BinaryOp} (truncated : Bool)
    {l r l' r' : Expr} (hl : Evaluates calls ctx false l l') (hr : Evaluates calls ctx false r r')
    (hltype : l'.typeIn ctx.typeEnv = l.typeIn ctx.typeEnv)
    (hrtype : r'.typeIn ctx.typeEnv = r.typeIn ctx.typeEnv)
    (htakes : op.takes (l.typeIn ctx.typeEnv) (r.typeIn ctx.typeEnv)) (c c' : Coord) :
    Evaluates calls ctx truncated (binary op l r c)
      (applied ctx.typeEnv op truncated l' r' c') := by
  obtain ⟨hlvoid, hrvoid, hints⟩ := BinaryOp.takes_iff.1 htakes
  obtain ⟨hvoid, -, -⟩ := operandType_self op hlvoid hrvoid
  have hl'' := hl.follows_coerce hconv hlvoid hvoid
  have hr'' := hr.follows_coerce hconv hrvoid hvoid
  have hlvalue := isValue_coerce hl.value (l.typeIn ctx.typeEnv)
    (operandType op (l.typeIn ctx.typeEnv) (r.typeIn ctx.typeEnv))
  have hrvalue := isValue_coerce hr.value (r.typeIn ctx.typeEnv)
    (operandType op (l.typeIn ctx.typeEnv) (r.typeIn ctx.typeEnv))
  rw [applied, hltype, hrtype]
  by_cases hlogical : op.isLogical
  · have hcommon : operandType op (l.typeIn ctx.typeEnv) (r.typeIn ctx.typeEnv) = .bool :=
      if_pos hlogical
    rw [hcommon] at hl'' hr'' ⊢
    rw [value_applyBinary (by simp) (by simp)]
    refine Evaluates.of_follows ⟨rfl, rfl, rfl⟩ ?_ truncated
    rw [typeIn, BinaryOp.resultType, if_pos hlogical]
    exact follows_connective hl'' hr'' hlogical rfl c c'
  · rw [Bool.not_eq_true] at hlogical
    by_cases hdiv : op = .div ∧ operandType op (l.typeIn ctx.typeEnv) (r.typeIn ctx.typeEnv) = .int
    · obtain ⟨rfl, hint⟩ := hdiv
      rw [hint] at hl'' hr'' hlvalue hrvalue ⊢
      have hdiv := eval_div hl'' hr'' hlvoid hrvoid rfl hint c c'
      have htype : (binary .div l r c).typeIn ctx.typeEnv = .int := hint
      have hreturns := returns_int hl''.fits hr''.fits hlvoid hrvoid rfl hint c
      cases truncated with
      | true =>
        refine ⟨⟨rfl, rfl, rfl⟩, ?_, fun h => Bool.noConfusion h, hdiv.trans ?_⟩
        · rw [htype]
          exact hreturns.imp fun v hv => .of_type hv
        -- The results are integers, which a truncation leaves alone.
        conv_lhs => rw [← bind_pure (eval _ _ _ _)]
        exact hreturns.bind_congr fun v hv => by rw [convert_of_type hv]
      | false =>
        refine Evaluates.of_follows ⟨rfl, rfl, rfl⟩ ?_ false
        have hcall := (eval_conversion hconv (by simp) ⟨rfl, rfl, rfl⟩ .explicit c').trans hdiv
        rw [htype]
        change Follows _ _ ((call ScalarType.int.cName _ c').eval .explicit calls ctx) _
        rw [hcall]
        exact Follows.of_type hreturns
    · by_cases hmod :
          op = .mod ∧ operandType op (l.typeIn ctx.typeEnv) (r.typeIn ctx.typeEnv) = .int
      · obtain ⟨rfl, hint⟩ := hmod
        rw [hint] at hl'' hr'' hlvalue hrvalue ⊢
        refine Evaluates.of_follows ⟨rfl, rfl, rfl⟩ ?_ truncated
        have hcall := eval_mod hl'' hr'' hlvoid hrvoid hconv hlvalue hrvalue rfl hint c c'
        have htype : (binary .mod l r c).typeIn ctx.typeEnv = .int := hint
        rw [htype]
        change Follows _ _ ((call remainderFunction _ c').eval .explicit calls ctx) _
        rw [hcall]
        exact Follows.of_type (returns_int hl''.fits hr''.fits hlvoid hrvoid rfl hint c)
      · rw [value_applyBinary hdiv hmod]
        refine Evaluates.of_follows ⟨rfl, rfl, rfl⟩ ?_ truncated
        exact follows_binary hl'' hr'' hlvoid hrvoid hlogical (fun h => hints (.inl h)) rfl hdiv
          hmod c c'

/-- A unary operator that writes nothing, on a converted operand. -/
theorem follows_unary (hconv : ctx.Converts) {op : UnaryOp} {e e' : Expr}
    (he : Evaluates calls ctx false e e') (hvoid : e.typeIn ctx.typeEnv ≠ .void)
    (hbits : op = .bitNot → e.typeIn ctx.typeEnv ≠ .float) (hop : op.isMutating = false)
    (c c' : Coord) :
    Follows (op.resultType (e.typeIn ctx.typeEnv)) (seenAs (op.resultType (e.typeIn ctx.typeEnv)))
      ((unary op (e'.coerce (e.typeIn ctx.typeEnv) (op.operandType (e.typeIn ctx.typeEnv))).value
        c').eval .explicit calls ctx)
      ((unary op e c).eval .implicit calls ctx) := by
  obtain ⟨hvoid', -, -⟩ := op.operandType_self hvoid
  simp only [eval, hop, Bool.false_eq_true, if_false]
  refine (he.follows_coerce hconv hvoid hvoid').bind fun v hv => ?_
  exact follows_ofOption (Rules.explicit_unary hv hbits hop) fun result => Rules.fits_unary hv

/-! ### Cells -/

theorem isLogical_of_compound {op : AssignOp} {b : BinaryOp} (hop : op.binary? = some b) :
    b.isLogical = false := by
  cases op <;> cases hop <;> rfl

/-- The types of a compound assignment that is not written out. -/
theorem operandType_of_compound {op : AssignOp} {b : BinaryOp} (hop : op.binary? = some b)
    {s t : ScalarType} (hs : s ≠ .void) (ht : t ≠ .void) (hbool : t ≠ .bool)
    (htakes : b.takes t s) (hplace : ¬(t = .int ∧ (s = .float ∨ b = .div ∨ b = .mod))) :
    operandType b t s = t ∧ b.resultType t s = t := by
  cases op <;> cases hop <;> cases t <;> cases s <;>
    first | contradiction | exact ⟨rfl, rfl⟩

theorem store_convert {s t : ScalarType} {cell : Cell} {v : Scalar} (hcell : cell.type = t)
    (hv : v.Fits s) (hs : s ≠ .void) :
    store .explicit cell (v.convert t) = store .implicit cell v := by
  subst hcell
  simp only [store, Rules.explicit_expect?_convert hv hs]

theorem store_of_type {cell : Cell} {v : Scalar} (h : v.type = cell.type) :
    store .explicit cell v = store .implicit cell v := by
  have himplicit : Rules.implicit.expect? cell.type v = some v := by
    change (if (v.convert cell.type).type = cell.type then some (v.convert cell.type) else none) = _
    rw [convert_of_type h, if_pos h]
  simp only [store, himplicit, Rules.explicit_expect? h]

theorem returns_store (rules : Rules) (cell : Cell) (v : Scalar) :
    Returns (·.type = cell.type) (store rules cell v) := by
  have hexpect : Returns (·.type = cell.type) (ofOption (rules.expect? cell.type v)) := by
    refine returns_ofOption fun w hw => ?_
    unfold Rules.expect? at hw
    split at hw
    · next htype =>
      cases hw
      exact htype
    · cases hw
  refine hexpect.bind fun w hw => ?_
  exact returns_bind fun _ => returns_pure hw

/-- Converted and unconverted forms of an expression name the same cells, of the given type. -/
structure SameCell (calls : Calls) (ctx : Context) (t : ScalarType) (e e' : Expr) : Prop where
  eq : e'.evalCell .explicit calls ctx = e.evalCell .implicit calls ctx
  type : Returns (·.type = t) (e.evalCell .implicit calls ctx)

section Cells

variable {s t : ScalarType} {target target' e e' : Expr}

/-- The element of an array at a converted subscript. -/
theorem sameCell_index {array : Expr} {b : Binding} (harray : ctx.array? array = some b)
    (he : Follows s (convert .int) (e'.eval .explicit calls ctx) (e.eval .implicit calls ctx))
    (hs : s ≠ .void) (c c' : Coord) :
    SameCell calls ctx b.type (index array e c) (index array e' c') := by
  constructor
  · simp only [evalCell, Context.element, harray]
    refine he.bind_eq fun v hv => ?_
    simp only [Binding.element, Rules.explicit_expect?_convert hv hs]
  · simp only [evalCell, Context.element, harray]
    exact he.fits.bind fun v _ => (b.returns_element .implicit v).imp fun _ hcell => hcell.2

/-- Counting the number in a cell up or down. -/
theorem follows_step {op : UnaryOp} (h : SameCell calls ctx t target target') (ht : t ≠ .bool)
    (hop : op.isMutating) (c c' : Coord) :
    Follows t (seenAs t) ((unary op target' c').eval .explicit calls ctx)
      ((unary op target c).eval .implicit calls ctx) := by
  simp only [eval, hop, if_true, h.eq]
  refine h.type.follows_bind fun cell hcell => ?_
  refine (returns_read cell).follows_bind fun old hold => ?_
  rw [hcell] at hold
  have hbool : old.type ≠ .bool := by rwa [hold]
  obtain ⟨hstep, htype⟩ := Rules.explicit_step op hbool
  rw [hstep]
  refine (returns_ofOption htype).follows_bind fun new hnew => ?_
  rw [store_of_type (hnew.trans (hold.trans hcell.symm))]
  refine (returns_store .implicit cell new).follows_bind fun stored hstored => ?_
  refine Follows.of_type (returns_pure ?_)
  split
  · exact hold
  · exact hstored.trans hcell

/-- Storing a converted value. -/
theorem follows_assign {op op' : AssignOp} (hop : op.binary? = none) (hop' : op'.binary? = none)
    (h : SameCell calls ctx t target target')
    (he : Follows s (convert t) (e'.eval .explicit calls ctx) (e.eval .implicit calls ctx))
    (hs : s ≠ .void) (c c' : Coord) :
    Follows t (seenAs t) ((assign op' target' e' c').eval .explicit calls ctx)
      ((assign op target e c).eval .implicit calls ctx) := by
  simp only [eval, hop, hop', h.eq]
  refine h.type.follows_bind fun cell hcell => he.bind fun v hv => ?_
  rw [store_convert hcell hv hs]
  refine Follows.of_type ?_
  rw [← hcell]
  exact returns_store .implicit cell v

/-- A compound assignment whose operation yields the type of its target in place. -/
theorem follows_compound {op : AssignOp} {b : BinaryOp} (hop : op.binary? = some b)
    (h : SameCell calls ctx t target target')
    (he : Follows s (convert t) (e'.eval .explicit calls ctx) (e.eval .implicit calls ctx))
    (hs : s ≠ .void) (ht : t ≠ .void) (hbool : t ≠ .bool) (htakes : b.takes t s)
    (hplace : ¬(t = .int ∧ (s = .float ∨ b = .div ∨ b = .mod))) (c c' : Coord) :
    Follows t (seenAs t) ((assign op target' e' c').eval .explicit calls ctx)
      ((assign op target e c).eval .implicit calls ctx) := by
  obtain ⟨hcommon, hresult⟩ := operandType_of_compound hop hs ht hbool htakes hplace
  have hlogical := isLogical_of_compound hop
  -- The operation yields the type of the target, so that storing its value converts nothing.
  have hbinary {old v : Scalar} (hold : old.type = t) (hv : v.Fits s) :
      Rules.explicit.binary b old (v.convert t) = Rules.implicit.binary b old v ∧
        ∀ new, Rules.implicit.binary b old v = some new → new.type = t := by
    have htype (new : Scalar) (hnew : Rules.implicit.binary b old v = some new) :
        new.type = t := by
      have hfits := Rules.fits_binary (.of_type hold) hv ht hs hnew
      rw [hresult] at hfits
      exact hfits.type_eq hbool
    refine ⟨?_, htype⟩
    have heq := Rules.explicit_binary (.of_type hold) hv ht hs hlogical
      (fun hbits => (BinaryOp.takes_iff.1 htakes).2.2 (.inl hbits))
      (fun hdiv => hplace ⟨hcommon.symm.trans hdiv.2, .inr (.inl hdiv.1)⟩)
      (fun hmod => hplace ⟨hcommon.symm.trans hmod.2, .inr (.inr hmod.1)⟩)
    rw [hcommon, hresult, convert_of_type hold] at heq
    rw [heq]
    cases hnew : Rules.implicit.binary b old v with
    | none => rfl
    | some new => exact congrArg some (seenAs_of_type (htype new hnew))
  simp only [eval, hop, h.eq]
  refine h.type.follows_bind fun cell hcell => ?_
  refine (returns_read cell).follows_bind fun old hold => he.bind fun v hv => ?_
  obtain ⟨heq, htype⟩ := hbinary (hold.trans hcell) hv
  rw [heq]
  refine (returns_ofOption htype).follows_bind fun new hnew => ?_
  rw [store_of_type (hnew.trans hcell.symm)]
  refine Follows.of_type ?_
  rw [← hcell]
  exact returns_store .implicit cell new

/-- A compound assignment that is written out finds its target twice. -/
theorem follows_writtenOut {op : AssignOp} {b : BinaryOp} (hop : op.binary? = some b)
    (hplace : target.isPlace) (hquiet : (target.evalCell .implicit calls ctx).Quiet)
    (h : SameCell calls ctx .int target target') {value : Expr}
    (hvalue : Follows s (convert .int) (value.eval .explicit calls ctx)
      ((binary b target e none).eval .implicit calls ctx)) (hs : s ≠ .void) (c c' : Coord) :
    Follows .int (seenAs .int) ((assign .assign target' value c').eval .explicit calls ctx)
      ((assign op target e c).eval .implicit calls ctx) := by
  have htarget : target.eval .implicit calls ctx =
      target.evalCell .implicit calls ctx >>= read := by
    cases target with
    | id | index => rfl
    | _ => cases hplace
  have hlogical := isLogical_of_compound hop
  have heq : (assign .assign target' value c').eval .explicit calls ctx =
      (assign op target e c).eval .implicit calls ctx := by
    have hstore : (assign .assign target' value c').eval .explicit calls ctx =
        target.evalCell .implicit calls ctx >>= fun cell =>
          (binary b target e none).eval .implicit calls ctx >>= store .implicit cell := by
      have hassign : (assign .assign target' value c').eval .explicit calls ctx =
          target'.evalCell .explicit calls ctx >>= fun cell =>
            value.eval .explicit calls ctx >>= store .explicit cell := by
        rw [eval]
        rfl
      rw [hassign, h.eq]
      refine h.type.bind_congr fun cell hcell => ?_
      exact hvalue.bind_eq fun v hv => store_convert hcell hv hs
    rw [hstore, eval_binary hlogical, htarget]
    simp only [eval, hop, bind_assoc]
    -- Finding the target changes nothing, so finding it twice finds one cell.
    exact hquiet.bind_twice fun cell cell' => read cell' >>= fun old =>
      e.eval .implicit calls ctx >>= fun v => ofOption (Rules.implicit.binary b old v) >>=
        store .implicit cell
  rw [heq]
  refine Follows.of_type ?_
  simp only [eval, hop]
  refine h.type.bind fun cell hcell => ?_
  rw [← hcell]
  exact returns_bind fun old => returns_bind fun v => returns_bind fun new =>
    returns_store .implicit cell new

end Cells

end Expr

end MathKernel
