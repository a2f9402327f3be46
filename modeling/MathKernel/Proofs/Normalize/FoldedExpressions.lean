import MathKernel.Proofs.Normalize.AbsoluteValues

/-!
# Operators on folded operands

The converted form of a folded expression is compared, by the explicit rules, with the expression
itself by the implicit rules: it gives the same values in the raised type. Here an operator or an
assignment is seen to keep this, once its operands do.

## Main definitions

* `Expr.KeepsValue` — the converted form of the folded expression gives the values of the
  expression
* `Expr.FollowsFolded` — an expression that keeps its value, and may have its type raised

## Main results

* `Expr.follows_applied`, `Expr.follows_unary_folded` — operators
* `Expr.sameCell_folded` — targets
* `Expr.follows_assign_folded`, `Expr.follows_compound_folded` — assignments
-/

namespace MathKernel

open MathKernel.Action Scalar

namespace Expr

variable {calls : Calls} {ctx : Context} {quiet : List String} {again : Expr → Counted Expr}

/-- One conversion of a value of a raised type. -/
theorem follows_coerce_raised (hconv : ctx.Converts) {s s' t : ScalarType} (hs : s ≠ .void)
    (hs' : s.RaisedTo s') (ht : t ≠ .void) {e : Expr} {x : Action Scalar} (hvalue : e.IsValue ctx)
    (h : Follows s (convert s') (e.eval .explicit calls ctx) x) :
    Follows s (convert t) ((e.coerce s' t).value.eval .explicit calls ctx) x := by
  have hraised : Follows s' (seenAs s') (e.eval .explicit calls ctx)
      (x >>= fun v => pure (v.convert s')) := by
    rw [h.eq]
    exact .of_type (h.fits.bind fun v hv => returns_pure (hv.type_convert hs s'))
  have hcoerced := follows_coerce hconv (hs'.ne_void hs) ht hvalue hraised
  refine ⟨?_, h.fits⟩
  rw [hcoerced.eq, bind_assoc]
  refine h.fits.bind_congr fun v hv => ?_
  rw [pure_bind, hv.convert_raised hs' t]

/-- The converted form of the folded expression gives the values of the expression, in the type of
the folded one. -/
abbrev KeepsValue (calls : Calls) (ctx : Context) (again : Expr → Counted Expr) (e : Expr) : Prop :=
  Follows (e.typeIn ctx.typeEnv) (convert (e.folded.typeIn ctx.typeEnv))
    ((e.folded.coercedWith again ctx.typeEnv false).value.eval .explicit calls ctx)
    (e.eval .implicit calls ctx)

/-- Folding keeps the value of an expression and may raise its type. -/
structure FollowsFolded (calls : Calls) (ctx : Context) (again : Expr → Counted Expr) (e : Expr) :
    Prop where
  value : e.IsValue ctx
  raised : (e.typeIn ctx.typeEnv).RaisedTo (e.folded.typeIn ctx.typeEnv)
  follows : KeepsValue calls ctx again e

theorem FollowsFolded.coerce (hconv : ctx.Converts) {e : Expr}
    (h : FollowsFolded calls ctx again e) (hvoid : e.typeIn ctx.typeEnv ≠ .void) {t : ScalarType}
    (ht : t ≠ .void) :
    Follows (e.typeIn ctx.typeEnv) (convert t)
      (((e.folded.coercedWith again ctx.typeEnv false).value.coerce
        (e.folded.typeIn ctx.typeEnv) t).value.eval .explicit calls ctx)
      (e.eval .implicit calls ctx) :=
  follows_coerce_raised hconv hvoid h.raised ht
    (isValue_coercedWith (isValue_folded h.value) again _ false) h.follows

/-! ### Operators -/

section Operators

variable {l r : Expr} (hl : FollowsFolded calls ctx again l) (hr : FollowsFolded calls ctx again r)
include hl hr

/-- An operation on folded operands, of which a quotient or remainder keeps its type. -/
theorem follows_applied (hconv : ctx.Converts) (hagain : Combines ctx.typeEnv again)
    {op : BinaryOp} (htakes : op.takes (l.typeIn ctx.typeEnv) (r.typeIn ctx.typeEnv))
    (hkeeps : op = .div ∨ op = .mod →
      operandType op (l.folded.typeIn ctx.typeEnv) (r.folded.typeIn ctx.typeEnv) =
        operandType op (l.typeIn ctx.typeEnv) (r.typeIn ctx.typeEnv)) (c c' : Coord) :
    Follows ((binary op l r c).typeIn ctx.typeEnv)
      (convert (op.resultType (l.folded.typeIn ctx.typeEnv) (r.folded.typeIn ctx.typeEnv)))
      ((applied ctx.typeEnv op false (l.folded.coercedWith again ctx.typeEnv false).value
        (r.folded.coercedWith again ctx.typeEnv false).value c').eval .explicit calls ctx)
      ((binary op l r c).eval .implicit calls ctx) := by
  obtain ⟨hlvoid, hrvoid, hints⟩ := BinaryOp.takes_iff.1 htakes
  obtain ⟨hvoid, -, -⟩ :=
    operandType_self op (hl.raised.ne_void hlvoid) (hr.raised.ne_void hrvoid)
  have hl' := hl.coerce hconv hlvoid hvoid
  have hr' := hr.coerce hconv hrvoid hvoid
  have hlvalue := isValue_coerce
    (isValue_coercedWith (isValue_folded hl.value) again ctx.typeEnv false)
    (l.folded.typeIn ctx.typeEnv)
    (operandType op (l.folded.typeIn ctx.typeEnv) (r.folded.typeIn ctx.typeEnv))
  have hrvalue := isValue_coerce
    (isValue_coercedWith (isValue_folded hr.value) again ctx.typeEnv false)
    (r.folded.typeIn ctx.typeEnv)
    (operandType op (l.folded.typeIn ctx.typeEnv) (r.folded.typeIn ctx.typeEnv))
  rw [applied, (kept_coercedWith hconv.typeEnv hagain false l.folded).type,
    (kept_coercedWith hconv.typeEnv hagain false r.folded).type]
  -- A connective takes truth values, a quotient or remainder of integers becomes a call, and any
  -- other operation stays one.
  by_cases hlogical : op.isLogical
  · have hcommon :
        operandType op (l.folded.typeIn ctx.typeEnv) (r.folded.typeIn ctx.typeEnv) = .bool :=
      if_pos hlogical
    rw [hcommon] at hl' hr' ⊢
    rw [value_applyBinary (by simp) (by simp), typeIn, BinaryOp.resultType, if_pos hlogical,
      BinaryOp.resultType, if_pos hlogical]
    exact follows_connective hl' hr' hlogical rfl c c'
  · rw [Bool.not_eq_true] at hlogical
    by_cases hint : (op = .div ∨ op = .mod) ∧
        operandType op (l.folded.typeIn ctx.typeEnv) (r.folded.typeIn ctx.typeEnv) = .int
    · -- The operands are integers before and after.
      obtain ⟨hop, hint'⟩ := hint
      have hint : operandType op (l.typeIn ctx.typeEnv) (r.typeIn ctx.typeEnv) = .int :=
        (hkeeps hop).symm.trans hint'
      rw [hint'] at hl' hr' hlvalue hrvalue ⊢
      have hreturns (htype : op.resultType (l.typeIn ctx.typeEnv) (r.typeIn ctx.typeEnv) = .int) :
          Follows .int (convert .int) ((binary op l r c).eval .implicit calls ctx)
            ((binary op l r c).eval .implicit calls ctx) :=
        (Follows.of_type (returns_int hl'.fits hr'.fits hlvoid hrvoid hlogical htype c)).congr
          fun v hv => hv.seenAs_eq
      rcases hop with rfl | rfl
      · have htype : BinaryOp.div.resultType (l.folded.typeIn ctx.typeEnv)
            (r.folded.typeIn ctx.typeEnv) = .int := hint'
        have hcall := (eval_conversion hconv (by simp) ⟨rfl, rfl, rfl⟩ .explicit c').trans
          (eval_div hl' hr' hlvoid hrvoid rfl hint c c')
        rw [typeIn, htype, show BinaryOp.div.resultType (l.typeIn ctx.typeEnv)
          (r.typeIn ctx.typeEnv) = .int from hint]
        change Follows _ _ ((call ScalarType.int.cName _ c').eval .explicit calls ctx) _
        rw [hcall]
        exact hreturns hint
      · have htype : BinaryOp.mod.resultType (l.folded.typeIn ctx.typeEnv)
            (r.folded.typeIn ctx.typeEnv) = .int := hint'
        have hcall := eval_mod hl' hr' hlvoid hrvoid hconv hlvalue hrvalue rfl hint c c'
        rw [typeIn, htype, show BinaryOp.mod.resultType (l.typeIn ctx.typeEnv)
          (r.typeIn ctx.typeEnv) = .int from hint]
        change Follows _ _ ((call remainderFunction _ c').eval .explicit calls ctx) _
        rw [hcall]
        exact hreturns hint
    · have hdiv : ¬(op = .div ∧
          operandType op (l.folded.typeIn ctx.typeEnv) (r.folded.typeIn ctx.typeEnv) = .int) :=
        fun h => hint ⟨.inl h.1, h.2⟩
      have hmod : ¬(op = .mod ∧
          operandType op (l.folded.typeIn ctx.typeEnv) (r.folded.typeIn ctx.typeEnv) = .int) :=
        fun h => hint ⟨.inr h.1, h.2⟩
      rw [value_applyBinary hdiv hmod, eval_binary hlogical, eval_binary hlogical, typeIn]
      refine hl'.bind fun v hv => hr'.bind fun w hw => follows_ofOption ?_ fun result =>
        Rules.fits_binary hv hw hlvoid hrvoid
      refine Rules.explicit_binary_raised hv hw hlvoid hrvoid hl.raised hr.raised hlogical
        (fun h => hints (.inl h)) hkeeps (fun h => hdiv ⟨h.1, ?_⟩) fun h => hmod ⟨h.1, ?_⟩
      · exact (hkeeps (.inl h.1)).trans h.2
      · exact (hkeeps (.inr h.1)).trans h.2

end Operators

/-- A unary operator that writes nothing, on a folded operand. -/
theorem follows_unary_folded (hconv : ctx.Converts) {op : UnaryOp} {e : Expr}
    (he : FollowsFolded calls ctx again e) (hvoid : e.typeIn ctx.typeEnv ≠ .void)
    (hbits : op = .bitNot → e.typeIn ctx.typeEnv ≠ .float) (hop : op.isMutating = false)
    (c : Coord) :
    KeepsValue calls ctx again (unary op e c) := by
  obtain ⟨hvoid', -, -⟩ := op.operandType_self (he.raised.ne_void hvoid)
  unfold KeepsValue
  simp only [folded_unary, coercedWith, Counted.value_bind, Counted.value_pure, coerceOperand_eq,
    typeIn, eval, hop, Bool.false_eq_true, if_false]
  refine (he.coerce hconv hvoid hvoid').bind fun v hv => ?_
  exact follows_ofOption (Rules.explicit_unary_raised hv he.raised hbits hop)
    fun result => Rules.fits_unary hv

/-! ### Targets -/

/-- The element of an array at a folded subscript. -/
theorem sameCell_folded (hconv : ctx.Converts) {e : Expr} (h : e.wellTyped quiet ctx)
    (hplace : e.isPlace) (hparts : ∀ part ∈ e.parts, part.wellTyped quiet ctx →
      FollowsFolded calls ctx again part) :
    SameCell calls ctx (e.typeIn ctx.typeEnv) e
      (e.folded.coercedWith again ctx.typeEnv false).value := by
  cases e with
  | id n c =>
    obtain ⟨cell, hcell⟩ := Option.isSome_iff_exists.1 h
    obtain ⟨b, hb, -, rfl⟩ := Context.binding?_of_cell? hcell
    refine ⟨rfl, ?_⟩
    rw [evalCell, hcell, typeIn, Context.variableType_eq hb]
    exact returns_pure rfl
  | index a i c =>
    simp only [wellTyped, Bool.and_eq_true, bne_iff_ne] at h
    obtain ⟨⟨⟨harray, hwell⟩, hivoid⟩, -⟩ := h
    obtain ⟨b, hb⟩ := Option.isSome_iff_exists.1 harray
    obtain ⟨name, c', rfl, hname⟩ := Context.exists_id_of_array? hb
    have hivoid := typeIn_ne_void hconv hwell hivoid
    have hi := (hparts i (by simp [parts]) hwell).coerce hconv hivoid (t := .int) (by simp)
    rw [typeIn, typeIn, Context.variableType_eq hname]
    exact sameCell_index hb hi hivoid c c
  | _ => cases hplace

/-- A value in a target is seen in the type of the target, which folding keeps. -/
theorem Follows.of_isPlace {e : Expr} (h : e.wellTyped quiet ctx) (hplace : e.isPlace)
    {x y : Action Scalar}
    (hfollows : Follows (e.typeIn ctx.typeEnv) (seenAs (e.typeIn ctx.typeEnv)) x y) :
    Follows (e.typeIn ctx.typeEnv) (convert (e.folded.typeIn ctx.typeEnv)) x y := by
  rw [(typeIn_folded_of_isPlace h hplace).2]
  exact hfollows.congr fun v hv => hv.seenAs_eq

/-! ### Assignments -/

section Assignments

variable {op : AssignOp} {b : BinaryOp} {t v : Expr}

/-- Truncating an exact quotient of integers. -/
theorem eval_div_float {l r l' r' : Expr}
    (hl : Follows (l.typeIn ctx.typeEnv) (convert .float) (l'.eval .explicit calls ctx)
      (l.eval .implicit calls ctx))
    (hr : Follows (r.typeIn ctx.typeEnv) (convert .float) (r'.eval .explicit calls ctx)
      (r.eval .implicit calls ctx))
    (hltype : l.typeIn ctx.typeEnv ≠ .void) (hrtype : r.typeIn ctx.typeEnv ≠ .void)
    (hint : ScalarType.arithmetic (l.typeIn ctx.typeEnv) (r.typeIn ctx.typeEnv) = .int)
    (c c' : Coord) :
    ((binary .div l' r' c').eval .explicit calls ctx >>= fun v => pure (v.convert .int)) =
      (binary .div l r c).eval .implicit calls ctx := by
  rw [eval_binary rfl, eval_binary rfl, bind_assoc]
  refine hl.bind_eq fun v hv => ?_
  rw [bind_assoc]
  refine hr.bind_eq fun w hw => ?_
  rw [ofOption_bind_pure, Rules.explicit_div_float hv hw hltype hrtype hint]

/-- The value that a compound assignment to an integer stores when it is written out. -/
theorem follows_combined (hconv : ctx.Converts) (hagain : Combines ctx.typeEnv again)
    (ht : FollowsFolded calls ctx again t) (hv : FollowsFolded calls ctx again v)
    (htakes : b.takes (t.typeIn ctx.typeEnv) (v.typeIn ctx.typeEnv))
    (hmod : b = .mod → v.folded.typeIn ctx.typeEnv = v.typeIn ctx.typeEnv)
    (htype : t.folded.typeIn ctx.typeEnv = t.typeIn ctx.typeEnv) :
    Follows ((binary b t v none).typeIn ctx.typeEnv) (convert .int)
      (((applied ctx.typeEnv b false (t.folded.coercedWith again ctx.typeEnv false).value
        (v.folded.coercedWith again ctx.typeEnv false).value none).coerce
          (b.resultType (t.folded.typeIn ctx.typeEnv) (v.folded.typeIn ctx.typeEnv))
            .int).value.eval .explicit calls ctx)
      ((binary b t v none).eval .implicit calls ctx) := by
  obtain ⟨htvoid, hvvoid, -⟩ := BinaryOp.takes_iff.1 htakes
  by_cases hkeeps : b = .div ∨ b = .mod →
      operandType b (t.folded.typeIn ctx.typeEnv) (v.folded.typeIn ctx.typeEnv) =
        operandType b (t.typeIn ctx.typeEnv) (v.typeIn ctx.typeEnv)
  · have happlied := follows_applied ht hv hconv hagain htakes hkeeps none none
    exact follows_coerce_raised hconv (typeIn_binary_ne_void b htvoid hvvoid none)
      (ht.raised.resultType b hv.raised) (by simp) (isValue_applyBinary b _ _ _ _ none) happlied
  · obtain ⟨rfl | rfl, hraised⟩ := Classical.not_imp.1 hkeeps
    · -- The quotient is exact in between, and truncated when it is stored.
      obtain ⟨hint, hfloat⟩ := (ht.raised.operandType .div hv.raised).resolve_left hraised
      have ht' := ht.coerce hconv htvoid (t := .float) (by simp)
      have hv' := hv.coerce hconv hvvoid (t := .float) (by simp)
      have hreturns := returns_int ht'.fits hv'.fits htvoid hvvoid rfl hint none
      have htype : (binary .div t v none).typeIn ctx.typeEnv = .int := hint
      have htype' : BinaryOp.div.resultType (t.folded.typeIn ctx.typeEnv)
          (v.folded.typeIn ctx.typeEnv) = .float := hfloat
      rw [htype, htype', applied, (kept_coercedWith hconv.typeEnv hagain false t.folded).type,
        (kept_coercedWith hconv.typeEnv hagain false v.folded).type, hfloat,
        value_applyBinary (by simp) (by simp)]
      have heq := (eval_conversion hconv (t := .int) (by simp) ⟨rfl, rfl, rfl⟩ .explicit none).trans
        (eval_div_float ht' hv' htvoid hvvoid hint none none)
      change Follows _ _ ((call ScalarType.int.cName _ none).eval .explicit calls ctx) _
      rw [heq]
      exact (Follows.of_type hreturns).congr fun v hv => hv.seenAs_eq
    · exact absurd (by rw [htype, hmod rfl]) hraised

/-- Storing a folded value. -/
theorem follows_assign_folded (hconv : ctx.Converts) (hop : op.binary? = none)
    (ht : t.wellTyped quiet ctx) (hplace : t.isPlace) (htvoid : t.typeIn ctx.typeEnv ≠ .void)
    (hcell : SameCell calls ctx (t.typeIn ctx.typeEnv) t
      (t.folded.coercedWith again ctx.typeEnv false).value)
    (hv : FollowsFolded calls ctx again v) (hvvoid : v.typeIn ctx.typeEnv ≠ .void) (c : Coord) :
    KeepsValue calls ctx again (assign op t v c) := by
  have htype := (typeIn_folded_of_isPlace ht hplace).2
  have hstored := hv.coerce hconv hvvoid htvoid
  unfold KeepsValue
  simp only [folded_assign, coercedWith, Counted.value_bind, Counted.value_pure, hop, typeIn, htype]
  exact (follows_assign hop hop hcell hstored hvvoid c c).congr fun v hv => hv.seenAs_eq

/-- A compound assignment of a folded value. -/
theorem follows_compound_folded (hconv : ctx.Converts) (hagain : Combines ctx.typeEnv again)
    (hcalls : calls.QuietOn quiet) (hop : op.binary? = some b) (ht : t.wellTyped quiet ctx)
    (hplace : t.isPlace) (htarget : t.isCompoundTarget quiet ctx b (v.ctype ctx))
    (hv : v.wellTyped quiet ctx) (hmod : b = .mod → v.folded.typeIn ctx.typeEnv =
      v.typeIn ctx.typeEnv)
    (hcell : SameCell calls ctx (t.typeIn ctx.typeEnv) t
      (t.folded.coercedWith again ctx.typeEnv false).value)
    (ht' : FollowsFolded calls ctx again t) (hv' : FollowsFolded calls ctx again v) (c : Coord) :
    KeepsValue calls ctx again (assign op t v c) := by
  simp only [isCompoundTarget, Bool.and_eq_true, bne_iff_ne, Bool.not_eq_true'] at htarget
  obtain ⟨⟨⟨hbool, htakes⟩, hwrites⟩, hnames⟩ := htarget
  rw [← typeIn_of_isPlace ht hplace] at hbool
  rw [← BinaryOp.takes_refines (typeIn_refines hconv t ht) (typeIn_refines hconv v hv)] at htakes
  obtain ⟨htvoid, hvvoid, -⟩ := BinaryOp.takes_iff.1 htakes
  have htype := (typeIn_folded_of_isPlace ht hplace).2
  have htkept := kept_coercedWith hconv.typeEnv hagain false t.folded
  have hvkept := kept_coercedWith hconv.typeEnv hagain false v.folded
  have hwrites' : (t.folded.coercedWith again ctx.typeEnv false).value.hasSideEffects = false :=
    (hasSideEffects_coercedWith false t.folded).trans (hasSideEffects_folded hwrites)
  -- Folding can make the value a floating number, so an assignment may be written out that was not.
  have hout : isWrittenOut b (t.folded.typeIn ctx.typeEnv) (v.folded.typeIn ctx.typeEnv)
      (t.folded.coercedWith again ctx.typeEnv false).value ↔ t.typeIn ctx.typeEnv = .int ∧
        (v.folded.typeIn ctx.typeEnv = .float ∨ b = .div ∨ b = .mod) := by
    simp only [isWrittenOut, hwrites', htype, Bool.not_false, Bool.and_true, Bool.and_eq_true,
      Bool.or_eq_true, beq_iff_eq, or_assoc]
  by_cases hwritten : isWrittenOut b (t.folded.typeIn ctx.typeEnv) (v.folded.typeIn ctx.typeEnv)
      (t.folded.coercedWith again ctx.typeEnv false).value
  · have hint := (hout.1 hwritten).1
    have hvalue := follows_combined hconv hagain ht' hv' htakes hmod htype
    have hvoid := typeIn_binary_ne_void b htvoid hvvoid none
    have hquiet : (t.evalCell .implicit calls ctx).Quiet :=
      evalCell_quiet hcalls .implicit ctx (isQuiet_iff.2 ⟨hwrites, hnames⟩)
    rw [← hagain b _ _ none htkept.stable hvkept.stable] at hvalue
    have hcombined : (binary b (t.folded.coercedWith again ctx.typeEnv false).value
        (v.folded.coercedWith again ctx.typeEnv false).value none).typeIn ctx.typeEnv =
          b.resultType (t.folded.typeIn ctx.typeEnv) (v.folded.typeIn ctx.typeEnv) := by
      rw [typeIn, htkept.type, hvkept.type]
    unfold KeepsValue
    simp only [folded_assign, coercedWith, Counted.value_bind, hop, hwritten, if_true,
      Counted.change]
    rw [hint] at hcell
    change Follows (t.typeIn ctx.typeEnv) (convert (t.folded.typeIn ctx.typeEnv)) _ _
    rw [htype, hint, hcombined]
    exact (follows_writtenOut hop hplace hquiet hcell hvalue hvoid c c).congr
      fun v hv => hv.seenAs_eq
  · have hstored := hv'.coerce hconv hvvoid htvoid
    unfold KeepsValue
    simp only [folded_assign, coercedWith, Counted.value_bind, Counted.value_pure, hop, hwritten,
      Bool.false_eq_true, if_false]
    change Follows (t.typeIn ctx.typeEnv) (convert (t.folded.typeIn ctx.typeEnv)) _ _
    rw [htype]
    refine (follows_compound hop hcell hstored hvvoid htvoid hbool htakes ?_ c c).congr
      fun v hv => hv.seenAs_eq
    exact fun h => hwritten (hout.2 ⟨h.1, h.2.imp_left hv'.raised.eq_float⟩)

end Assignments

end Expr

end MathKernel
