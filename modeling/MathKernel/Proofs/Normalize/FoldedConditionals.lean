import MathKernel.Proofs.Normalize.FoldedExpressions

/-!
# Evaluation of folded expressions

A conditional that spells an absolute value has the value of the call that it is folded into: the
comparison with zero decides which of the two branches is taken, and either branch has, as a
floating number, the value of the operand or its negation. By induction over expressions, every
expression that can be folded is followed by its folded form.

## Main definitions

* `absoluteValue` — the function that absolute values are folded into
* `Expr.IsFollowed` — an expression that can be folded is followed by its folded form

## Main results

* `Expr.follows_spelled` — conditionals that spell absolute values
* `Expr.followsFolded` — all expressions
-/

namespace MathKernel

open MathKernel.Action Scalar

/-- The absolute value of a floating number. -/
def absoluteValue : List Argument → Action Scalar
  | [.scalar (.float q)] => pure (.float |q|)
  | _ => .stuck

theorem Action.ofOption_bind_ofOption {α β : Type} (o : Option α) (f : α → Option β) :
    (ofOption o >>= fun a => ofOption (f a)) = ofOption (o.bind f) := by
  cases o <;> rfl

/-- Change the number in a floating value. -/
def Scalar.mapFloat (f : Rat → Rat) : Scalar → Scalar
  | float q => float (f q)
  | v => v

namespace Rules

variable {s t u : ScalarType} {v : Scalar}

/-- The value of a branch is raised as it would be without the other branch. -/
theorem convert_join_raised {r s' t' : ScalarType} (hs : s.Refines s') (ht : t.Refines t')
    (hs' : s ≠ .void) (ht' : t ≠ .void) (hr : r = s ∨ r = t) (hv : v.Fits r)
    (hu : (ScalarType.unify s t).RaisedTo u) :
    (implicit.join s' t' v).convert u = v.convert u := by
  obtain ⟨hfits, hseen⟩ := seenAs_join hs ht hs' ht' hr hv
  rw [← hfits.convert_seenAs, hseen]
  have hvoid : r ≠ .void := by rcases hr with rfl | rfl <;> assumption
  rcases hu with rfl | ⟨hint, rfl⟩
  · exact convert_of_type (hv.type_convert hvoid _)
  · rw [hint]
    refine hv.convert_int_float ?_
    rintro rfl
    rcases hr with rfl | rfl
    · cases t <;> cases hint
    · cases s <;> cases hint

/-- Comparing a number with zero. -/
theorem condition_compare_zero {op : BinaryOp} (hop : op.isComparison) {q : Rat}
    (hv : v.convert .float = float q) (hvoid : v ≠ void) {z : Scalar}
    (hz : z = int 0 ∨ z = float 0) :
    (implicit.binary op v z).bind implicit.condition? = op.compare? q 0 := by
  have htruth (o : Option Bool) : (o.map implicit.truth).bind implicit.condition? = o := by
    rcases o with _ | b
    · rfl
    · cases b <;> rfl
  have hvoid' : v.type ≠ .void := by cases v <;> first | contradiction | simp [type]
  have hzvoid : z.type ≠ .void := by rcases hz with rfl | rfl <;> simp [type]
  have hzero : z.convert .float = float 0 ∧ z.convert .int = int 0 := by
    rcases hz with rfl | rfl <;> simp [convert, truncate]
  -- Integers are compared as they are, other numbers as floating numbers.
  rcases ScalarType.arithmetic_eq_or hvoid' hzvoid with hint | hfloat
  · obtain ⟨m, n, hm, hn, heq⟩ :=
      implicit_binary_int (.of_type rfl) (.of_type rfl) hvoid' hzvoid op hint
    have htype : v.type ≠ .float := by
      rw [ScalarType.arithmetic_eq hvoid' hzvoid] at hint
      intro hfloat
      simp [hfloat] at hint
    rw [← (Fits.of_type rfl).convert_int_float htype, hm] at hv
    obtain rfl : (m : Rat) = q := float.inj hv
    obtain rfl : 0 = n := int.inj (hzero.2.symm.trans hn)
    have hcast : op.compare? (m : Rat) 0 = op.compare? m 0 := by
      cases op <;> simp [BinaryOp.compare?]
    rw [heq, hcast, ← htruth (op.compare? m 0)]
    cases op <;> first | rfl | cases hop
  · obtain ⟨a, b, ha, hb, heq⟩ :=
      implicit_binary_float (.of_type rfl) (.of_type rfl) hvoid' hzvoid op hfloat
    obtain rfl : q = a := float.inj (hv.symm.trans ha)
    obtain rfl : 0 = b := float.inj (hzero.1.symm.trans hb)
    rw [heq, ← htruth (op.compare? q 0)]
    cases op <;> first | rfl | cases hop

/-- The sign of a number decides which of the two is its absolute value. -/
theorem abs_eq_of_compare {op : BinaryOp} {negative : Bool}
    (hop : (op = .lt ∨ op = .le) ∧ negative = true ∨ (op = .gt ∨ op = .ge) ∧ negative = false)
    (q : Rat) :
    ∃ b, op.compare? q 0 = some b ∧ |q| = if b = negative then -q else q := by
  rcases hop with ⟨rfl | rfl, rfl⟩ | ⟨rfl | rfl, rfl⟩
  · refine ⟨_, rfl, ?_⟩
    by_cases h : q < 0
    · simp [h, abs_of_neg]
    · simp [h, abs_of_nonneg (not_lt.1 h)]
  · refine ⟨_, rfl, ?_⟩
    by_cases h : q ≤ 0
    · simp [h, abs_of_nonpos]
    · simp [h, abs_of_pos (not_le.1 h)]
  · refine ⟨_, rfl, ?_⟩
    by_cases h : 0 < q
    · simp [h, abs_of_pos]
    · simp [h, abs_of_nonpos (not_lt.1 h)]
  · refine ⟨_, rfl, ?_⟩
    by_cases h : 0 ≤ q
    · simp [h, abs_of_nonneg]
    · simp [h, abs_of_neg (not_le.1 h)]

theorem unary_neg_float (hv : v ≠ void) :
    ∃ w, implicit.unary .neg v = some w ∧
      w.convert .float = (v.convert .float).mapFloat fun q => -q := by
  cases v with
  | int n => exact ⟨int (-n), rfl, by simp [convert, mapFloat]⟩
  | float q => exact ⟨float (-q), rfl, rfl⟩
  | bool b => exact ⟨int (-bit b), rfl, by simp [convert, mapFloat]⟩
  | void => exact absurd rfl hv

end Rules

namespace Expr

variable {calls : Calls} {ctx : Context} {quiet : List String} {again : Expr → Counted Expr}

theorem hasSideEffects_of_same {e e' : Expr} (h : e.same e') :
    e.hasSideEffects = e'.hasSideEffects := by
  rw [← hasSideEffects_erase, erase_eq_of_same e e' h, hasSideEffects_erase]

/-- Equal expressions without side effects are converted to expressions of one value. -/
theorem eval_coercedWith_of_same {e e' : Expr} (h : e.same e')
    (heffects : e'.hasSideEffects = false) (rules : Rules) (env : TypeEnv) :
    (e.coercedWith again env false).value.eval rules calls ctx =
      (e'.coercedWith again env false).value.eval rules calls ctx := by
  have hplain {e : Expr} (h : e.hasSideEffects = false) : e.IsPlain :=
    (everywhere_writeTarget?.2 h).imp fun s hs => by cases s <;> first | rfl | cases hs
  have herased (e : Expr) : (e.coercedWith pure env false).value.eval rules calls ctx =
      (e.erase.coercedWith pure env false).value.eval rules calls ctx := by
    rw [coercedWith_erase (fun _ => rfl), Counted.value_map, eval_erase]
  rw [(hplain heffects).coercedWith_eq again pure,
    (hplain ((hasSideEffects_of_same h).trans heffects)).coercedWith_eq again pure, herased e,
    herased e', erase_eq_of_same e e' h]

/-- A spelled absolute value has no side effects. -/
theorem hasSideEffects_of_absOperand? {e x : Expr} (h : e.absOperand? = some x) :
    e.hasSideEffects = false := by
  obtain ⟨op, zero, onTrue, onFalse, c, c', rfl, hzero, hx, y, z, c'', hy, hz, hbranches⟩ :=
    exists_of_absOperand? h
  have hy := (hasSideEffects_of_same hy).trans hx
  have hz := (hasSideEffects_of_same hz).trans hx
  have hneg : (unary .neg y c'').hasSideEffects = false := by
    rw [← everywhere_writeTarget?] at hy ⊢
    exact everywhere_unary.2 ⟨rfl, hy⟩
  have hcondition : (binary op x zero c').hasSideEffects = false := by
    rw [← everywhere_writeTarget?] at hx ⊢
    cases zero with
    | literal value c => exact everywhere_binary.2 ⟨rfl, hx, everywhere_literal.2 rfl⟩
    | _ => cases hzero
  rw [← everywhere_writeTarget?] at hcondition hneg hz ⊢
  rcases hbranches with ⟨-, rfl, rfl⟩ | ⟨-, rfl, rfl⟩
  · exact everywhere_ternary.2 ⟨rfl, hcondition, hneg, hz⟩
  · exact everywhere_ternary.2 ⟨rfl, hcondition, hz, hneg⟩

/-- Folding hides no side effects. -/
theorem hasSideEffects_of_folded {e : Expr} (h : e.folded.hasSideEffects = false) :
    e.hasSideEffects = false := by
  induction e using parts_induction with
  | h e ih =>
    have hnode : (e.withParts (e.parts.map folded)).hasSideEffects = false := by
      rw [folded_eq] at h
      cases hspelled : (e.withParts (e.parts.map folded)).absOperand? with
      | none => rwa [foldNode_of_none hspelled] at h
      | some x => exact hasSideEffects_of_absOperand? hspelled
    rw [← everywhere_writeTarget?, everywhere_iff, parts_withParts (List.length_map _)] at hnode
    rw [← everywhere_writeTarget?, everywhere_iff]
    refine ⟨?_, fun part hpart => everywhere_writeTarget?.2 (ih part hpart ?_)⟩
    · have hwrite := hnode.1
      cases e with
      | assign => cases hwrite
      | unary => simpa [withParts, parts, writeTarget?] using hwrite
      | _ => rfl
    · exact everywhere_writeTarget?.1 (hnode.2 _ (List.mem_map_of_mem hpart))

/-- The floating number for the value of an expression is that for its folded form. -/
theorem FollowsFolded.convert_eval {e : Expr} (h : FollowsFolded calls ctx again e) :
    (e.eval .implicit calls ctx >>= fun v => pure (v.convert .float)) =
      (e.folded.coercedWith again ctx.typeEnv false).value.eval .explicit calls ctx >>=
        fun v => pure (v.convert .float) :=
  (h.follows.bind_eq fun v hv => by rw [hv.convert_raised h.raised]).symm

section Spelled

variable {x y z : Expr} (hx : FollowsFolded calls ctx again x)
  (hxvoid : x.typeIn ctx.typeEnv ≠ .void)
include hx

/-- Expressions that are folded alike have one value as a floating number. -/
theorem convert_eval_of_same (hy : FollowsFolded calls ctx again y)
    (hsame : y.folded.same x.folded) (heffects : x.folded.hasSideEffects = false) :
    (y.eval .implicit calls ctx >>= fun v => pure (v.convert .float)) =
      x.eval .implicit calls ctx >>= fun v => pure (v.convert .float) := by
  rw [hx.convert_eval, hy.convert_eval, eval_coercedWith_of_same hsame heffects]

include hxvoid

/-- A folded absolute value. -/
theorem eval_absCall (hconv : ctx.Converts)
    (habs : ctx.signature? "abs" = some ⟨.float, .uniform .float⟩)
    (hcalls : calls "abs" = absoluteValue) (c : Coord) :
    ((call "abs" [x.folded] c).coercedWith again ctx.typeEnv false).value.eval .explicit calls ctx =
      x.eval .implicit calls ctx >>= fun v => pure ((v.convert .float).mapFloat abs) := by
  have hname : ScalarType.ofCName? "abs" = none := by decide
  have hremainder : "abs" ≠ remainderFunction := by decide
  have hflag : ("abs" == ScalarType.int.cName) = false := by decide
  have hvalue := isValue_coerce (isValue_coercedWith (isValue_folded hx.value) again ctx.typeEnv
    false) (x.folded.typeIn ctx.typeEnv) .float
  simp only [coercedWith, coercedArgs, Counted.value_bind, Counted.value_pure, hflag,
    Bool.false_and, Context.signature?_typeEnv, habs, Option.bind_some, Signature.param?, coerceArg,
    eval, evalArgs, argument_eq hvalue, bind_assoc, pure_bind]
  refine (hx.coerce hconv hxvoid (t := .float) (by simp)).bind_eq fun v hv => ?_
  obtain ⟨q, hq⟩ := exists_float (hv.type_convert hxvoid .float)
  rw [hq]
  simp only [Context.apply, hname, hremainder, if_false, habs, hcalls]
  rfl

/-- The absolute value that is spelled by comparing with zero: where the comparison has the given
outcome, the number is negated. -/
theorem eval_spelled {op : BinaryOp} {negative : Bool}
    (hop : (op = .lt ∨ op = .le) ∧ negative = true ∨ (op = .gt ∨ op = .ge) ∧ negative = false)
    {zero : Expr} {value : Scalar} (hzero : zero.eval .implicit calls ctx = pure value)
    (hvalue : value = .int 0 ∨ value = .float 0) (hquiet : (x.eval .implicit calls ctx).Quiet)
    {branch : Bool → Action Scalar}
    (hbranch : ∀ b, (branch b >>= fun v => pure (v.convert .float)) =
      x.eval .implicit calls ctx >>= fun v =>
        pure ((v.convert .float).mapFloat fun q => if b = negative then -q else q)) (c : Coord) :
    ((binary op x zero c).eval .implicit calls ctx >>= fun u =>
      ofOption (Rules.implicit.condition? u) >>= fun b =>
        branch b >>= fun v => pure (v.convert .float)) =
      x.eval .implicit calls ctx >>= fun v => pure ((v.convert .float).mapFloat abs) := by
  have hcomparison : op.isComparison ∧ op.isLogical = false := by
    rcases hop with ⟨rfl | rfl, -⟩ | ⟨rfl | rfl, -⟩ <;> decide
  let outcome (v : Scalar) : Option Bool :=
    (Rules.implicit.binary op v value).bind Rules.implicit.condition?
  have houtcome {v : Scalar} {q : Rat} (hv : v.Fits (x.typeIn ctx.typeEnv))
      (hq : v.convert .float = .float q) : outcome v = op.compare? q 0 :=
    Rules.condition_compare_zero hcomparison.1 hq (hv.ne_void hxvoid) hvalue
  rw [eval_binary hcomparison.2, bind_assoc]
  calc _ = x.eval .implicit calls ctx >>= fun v => x.eval .implicit calls ctx >>= fun w =>
        pure ((w.convert .float).mapFloat fun q =>
          if outcome v = some negative then -q else q) := by
        refine hx.follows.fits.bind_congr fun v hv => ?_
        obtain ⟨q, hq⟩ := exists_float (hv.type_convert hxvoid .float)
        obtain ⟨b, hb, -⟩ := Rules.abs_eq_of_compare hop q
        rw [hzero, pure_bind, ← bind_assoc, ofOption_bind_ofOption]
        change ofOption (outcome v) >>= _ = _
        simp only [houtcome hv hq, hb, ofOption_some, pure_bind, hbranch b, Option.some.injEq]
    _ = x.eval .implicit calls ctx >>= fun v => pure ((v.convert .float).mapFloat fun q =>
          if outcome v = some negative then -q else q) := hquiet.bind_twice _
    _ = x.eval .implicit calls ctx >>= fun v => pure ((v.convert .float).mapFloat abs) := by
        refine hx.follows.fits.bind_congr fun v hv => ?_
        obtain ⟨q, hq⟩ := exists_float (hv.type_convert hxvoid .float)
        obtain ⟨b, hb, habs⟩ := Rules.abs_eq_of_compare hop q
        simp only [hq, mapFloat, houtcome hv hq, hb, habs, Option.some.injEq]

end Spelled

section Branches

variable {x y z : Expr} {s t : ScalarType} {join : Scalar → Scalar}

/-- The branch that is negated. -/
theorem eval_negated (hy : FollowsFolded calls ctx again y) (hyvoid : y.typeIn ctx.typeEnv ≠ .void)
    (hsame : (y.eval .implicit calls ctx >>= fun v => pure (v.convert .float)) =
      x.eval .implicit calls ctx >>= fun v => pure (v.convert .float)) {c : Coord}
    (hjoin : ∀ v, v.Fits ((unary .neg y c).typeIn ctx.typeEnv) →
      (join v).convert .float = v.convert .float) :
    ((unary .neg y c).eval .implicit calls ctx >>= fun w => pure ((join w).convert .float)) =
      x.eval .implicit calls ctx >>= fun v => pure ((v.convert .float).mapFloat fun q => -q) := by
  have hneg : ((unary .neg y c).eval .implicit calls ctx >>= fun w =>
      pure ((join w).convert .float)) =
        (y.eval .implicit calls ctx >>= fun v => pure (v.convert .float)) >>= fun v =>
          pure (v.mapFloat fun q => -q) := by
    simp only [eval, UnaryOp.isMutating, Bool.false_eq_true, if_false, bind_assoc, pure_bind]
    refine hy.follows.fits.bind_congr fun v hv => ?_
    obtain ⟨w, hw, hconvert⟩ := Rules.unary_neg_float (hv.ne_void hyvoid)
    rw [hw, ofOption_some, pure_bind, hjoin w (Rules.fits_unary hv hw), hconvert]
  rw [hneg, hsame, bind_assoc]
  exact bind_congr fun v => pure_bind _ _

/-- The branch that is kept. -/
theorem eval_kept (hz : FollowsFolded calls ctx again z)
    (hsame : (z.eval .implicit calls ctx >>= fun v => pure (v.convert .float)) =
      x.eval .implicit calls ctx >>= fun v => pure (v.convert .float))
    (hjoin : ∀ v, v.Fits (z.typeIn ctx.typeEnv) → (join v).convert .float = v.convert .float) :
    (z.eval .implicit calls ctx >>= fun w => pure ((join w).convert .float)) =
      x.eval .implicit calls ctx >>= fun v => pure ((v.convert .float).mapFloat fun q => q) := by
  have hself : (fun v : Scalar => v.mapFloat fun q => q) = fun v => v := by
    funext v
    cases v <;> rfl
  calc _ = z.eval .implicit calls ctx >>= fun v => pure (v.convert .float) :=
        hz.follows.fits.bind_congr fun v hv => by rw [hjoin v hv]
    _ = _ := by simp only [hsame, congrFun hself]

end Branches

/-! ### Conditionals -/

/-- A well-typed expression that can be folded is followed by its folded form. -/
def IsFollowed (calls : Calls) (ctx : Context) (quiet : List String)
    (again : Expr → Counted Expr) (e : Expr) : Prop :=
  e.wellTyped quiet ctx → e.Everywhere (·.isFoldable ctx.typeEnv) → FollowsFolded calls ctx again e

/-- A literal that is taken for zero evaluates to zero. -/
theorem eval_zero (calls : Calls) (ctx : Context) {e : Expr} (hzero : e.isZeroLiteral)
    (hexact : e.hasExactZero) :
    ∃ value, e.eval .implicit calls ctx = pure value ∧ (value = .int 0 ∨ value = .float 0) := by
  cases e with
  | literal value c =>
    simp only [hasExactZero, hzero, Bool.not_true, Bool.false_or, beq_iff_eq] at hexact
    refine ⟨.zero value.kind.scalar, by rw [eval, hexact, ofOption_some], ?_⟩
    cases value.kind <;> simp [LiteralKind.scalar, Scalar.zero]
  | _ => cases hzero

theorem isQuiet_of_isFoldable {e : Expr} (heffects : e.hasSideEffects = false)
    (h : e.Everywhere (·.isFoldable ctx.typeEnv)) : e.IsQuiet quiet := by
  refine isQuiet_iff.2 ⟨heffects, List.all_eq_true.2 fun s hs => ?_⟩
  have hnode := h s hs
  simp only [isFoldable, Bool.and_eq_true, Option.isNone_iff_eq_none] at hnode
  cases s with
  | call => cases hnode.1.1
  | _ => rfl

section Conditionals

variable (hconv : ctx.Converts) {p t e : Expr} {c : Coord}
  (h : (ternary p t e c).wellTyped quiet ctx)
include hconv h

/-- The value of either branch is raised as it would be without the other one. -/
theorem convert_join_branches {u : ScalarType}
    (hu : ((ternary p t e c).typeIn ctx.typeEnv).RaisedTo u) :
    (∀ v, v.Fits (t.typeIn ctx.typeEnv) →
      (Rules.implicit.join (t.ctype ctx) (e.ctype ctx) v).convert u = v.convert u) ∧
      ∀ v, v.Fits (e.typeIn ctx.typeEnv) →
        (Rules.implicit.join (t.ctype ctx) (e.ctype ctx) v).convert u = v.convert u := by
  obtain ⟨htvoid, hevoid⟩ := branches_ne_void hconv h
  simp only [wellTyped, Bool.and_eq_true] at h
  have ht := typeIn_refines hconv t h.1.1.1.2
  have he := typeIn_refines hconv e h.1.2
  exact ⟨fun v hv => Rules.convert_join_raised ht he htvoid hevoid (.inl rfl) hv hu,
    fun v hv => Rules.convert_join_raised ht he htvoid hevoid (.inr rfl) hv hu⟩

variable (hcalls : calls.QuietOn quiet)
include hcalls

/-- A folded conditional that spells an absolute value. -/
theorem follows_spelled (habs : ctx.signature? "abs" = some ⟨.float, .uniform .float⟩)
    (habsolute : calls "abs" = absoluteValue) (hagain : Combines ctx.typeEnv again)
    (hfold : (ternary p t e c).Everywhere (·.isFoldable ctx.typeEnv))
    (hparts : ∀ part ∈ [p, t, e], part.Everywhere (IsFollowed calls ctx quiet again)) {x' : Expr}
    (hspelled : (ternary p.folded t.folded e.folded c).absOperand? = some x') :
    KeepsValue calls ctx again (ternary p t e c) := by
  have hjoin := convert_join_branches hconv h (raisedTo_of_spelled hconv h hspelled)
  obtain ⟨htvoid, hevoid⟩ := branches_ne_void hconv h
  refine ⟨?_, (evaluates_coercedWith hconv hagain hcalls false _ h).fits⟩
  rw [folded_ternary, foldNode_of_some hspelled, typeIn_absCall habs]
  obtain ⟨op, x, zero, c', rfl, rfl, hzero, heffects, y, z, c'', hy, hz, hbranches⟩ :=
    exists_of_spelled hspelled
  obtain ⟨-, hfoldp, hfoldt, hfolde⟩ := everywhere_ternary.1 hfold
  obtain ⟨-, hfoldx, hfoldzero⟩ := everywhere_binary.1 hfoldp
  simp only [List.forall_mem_cons] at hparts
  obtain ⟨hp, ht, he, -⟩ := hparts
  simp only [wellTyped, Bool.and_eq_true] at h
  obtain ⟨⟨⟨⟨⟨⟨⟨hxwell, -⟩, htakes⟩, -⟩, htwell⟩, -⟩, hewell⟩, -⟩ := h
  have hx := (everywhere_iff.1 (everywhere_binary.1 hp).2.1).1 hxwell hfoldx
  have hxvoid : x.typeIn ctx.typeEnv ≠ .void :=
    typeIn_ne_void hconv hxwell (BinaryOp.takes_iff.1 htakes).1
  have hnode := everywhere_iff.1 hfoldzero
  simp only [isFoldable, Bool.and_eq_true] at hnode
  obtain ⟨value, heval, hvalue⟩ := eval_zero calls ctx hzero hnode.1.1.2
  have hquiet := eval_quiet hcalls .implicit ctx x
    (isQuiet_of_isFoldable (hasSideEffects_of_folded heffects) hfoldx)
  rw [eval_absCall hx hxvoid hconv habs habsolute, eval]
  simp only [bind_assoc]
  have hfollowed {z : Expr} (hz : z.Everywhere (IsFollowed calls ctx quiet again))
      (hwell : z.wellTyped quiet ctx) (hfold : z.Everywhere (·.isFoldable ctx.typeEnv)) :
      FollowsFolded calls ctx again z := (everywhere_iff.1 hz).1 hwell hfold
  have hnegated (hneg : (unary .neg y c'').Everywhere (IsFollowed calls ctx quiet again))
      (hwell : (unary .neg y c'').wellTyped quiet ctx)
      (hfold : (unary .neg y c'').Everywhere (·.isFoldable ctx.typeEnv)) :
      FollowsFolded calls ctx again y ∧ y.typeIn ctx.typeEnv ≠ .void := by
    simp only [wellTyped, Bool.and_eq_true] at hwell
    exact ⟨hfollowed (everywhere_unary.1 hneg).2 hwell.1.1 (everywhere_unary.1 hfold).2,
      typeIn_ne_void hconv hwell.1.1 (by simpa [UnaryOp.takes] using hwell.1.2)⟩
  -- The comparison says which branch is the negated one.
  rcases hbranches with ⟨hop, rfl, rfl⟩ | ⟨hop, rfl, rfl⟩
  · obtain ⟨hy', hyvoid⟩ := hnegated ht htwell hfoldt
    have hz' := hfollowed he hewell hfolde
    have hneg := eval_negated hy' hyvoid (convert_eval_of_same hx hy' hy heffects) hjoin.1
    have hkept := eval_kept hz' (convert_eval_of_same hx hz' hz heffects) hjoin.2
    refine (eval_spelled hx hxvoid (.inl ⟨hop, rfl⟩) heval hvalue hquiet (fun b => ?_) c').symm
    cases b with
    | true => simpa using hneg
    | false => simpa using hkept
  · obtain ⟨hy', hyvoid⟩ := hnegated he hewell hfolde
    have hz' := hfollowed ht htwell hfoldt
    have hneg := eval_negated hy' hyvoid (convert_eval_of_same hx hy' hy heffects) hjoin.2
    have hkept := eval_kept hz' (convert_eval_of_same hx hz' hz heffects) hjoin.1
    refine (eval_spelled hx hxvoid (.inr ⟨hop, rfl⟩) heval hvalue hquiet (fun b => ?_) c').symm
    cases b with
    | true => simpa using hkept
    | false => simpa using hneg

/-- A conditional that stays one when its parts are folded. -/
theorem follows_ternary_folded (hagain : Combines ctx.typeEnv again)
    (hp : FollowsFolded calls ctx again p) (ht : FollowsFolded calls ctx again t)
    (he : FollowsFolded calls ctx again e)
    (hfolded : (ternary p t e c).folded = ternary p.folded t.folded e.folded c) :
    KeepsValue calls ctx again (ternary p t e c) := by
  have hraised : ((ternary p t e c).typeIn ctx.typeEnv).RaisedTo
      (.unify (t.folded.typeIn ctx.typeEnv) (e.folded.typeIn ctx.typeEnv)) :=
    ht.raised.unify he.raised
  have hjoin := convert_join_branches hconv h hraised
  obtain ⟨htvoid, hevoid⟩ := branches_ne_void hconv h
  have hvoid := ScalarType.unify_ne_void (ht.raised.ne_void htvoid) (he.raised.ne_void hevoid)
  have hfits := (evaluates_coercedWith hconv hagain hcalls false _ h).fits
  refine ⟨?_, hfits⟩
  have hpvoid : p.typeIn ctx.typeEnv ≠ .void := by
    simp only [wellTyped, Bool.and_eq_true, bne_iff_ne] at h
    exact typeIn_ne_void hconv h.1.1.1.1.1 h.1.1.1.1.2
  rw [hfolded]
  simp only [coercedWith, Counted.value_bind, Counted.value_pure, eval, typeIn, bind_assoc]
  refine (hp.coerce hconv hpvoid (t := .bool) (by simp)).bind_eq fun v hv => ?_
  rw [Rules.explicit_condition?_convert]
  refine bind_congr fun b => ?_
  cases b with
  | true =>
    rw [if_pos rfl, if_pos rfl, bind_assoc]
    exact (ht.coerce hconv htvoid hvoid).bind_eq fun w hw => congrArg pure (hjoin.1 w hw).symm
  | false =>
    rw [if_neg (by simp), if_neg (by simp), bind_assoc]
    exact (he.coerce hconv hevoid hvoid).bind_eq fun w hw => congrArg pure (hjoin.2 w hw).symm

end Conditionals

/-! ### All expressions -/

/-- The last of folded items gives the value. -/
theorem follows_foldedList (items : List Expr)
    (h : ∀ e ∈ items, FollowsFolded calls ctx again e) (hne : items ≠ []) :
    Follows (lastTypeIn ctx.typeEnv items)
      (convert (lastTypeIn ctx.typeEnv (items.map folded)))
      (evalLast .explicit calls ctx (coercedList again ctx.typeEnv (items.map folded)).value)
      (evalLast .implicit calls ctx items) := by
  match items with
  | [] => exact absurd rfl hne
  | [e] => exact (h e (by simp)).follows
  | e :: e' :: rest =>
    exact (h e (by simp)).follows.bind fun v hv =>
      follows_foldedList (e' :: rest) (fun e he => h e (List.mem_cons_of_mem _ he)) (by simp)

theorem wellTyped_of_mem {items : List Expr} (h : wellTypedList quiet ctx items) :
    ∀ e ∈ items, e.wellTyped quiet ctx := by
  induction items with
  | nil => simp
  | cons e rest ih =>
    simp only [wellTypedList, Bool.and_eq_true] at h
    exact List.forall_mem_cons.2 ⟨h.1.1, ih h.2⟩

section Induction

variable (hconv : ctx.Converts) (habs : ctx.signature? "abs" = some ⟨.float, .uniform .float⟩)
  (habsolute : calls "abs" = absoluteValue) (hcalls : calls.QuietOn quiet)
  (hagain : Combines ctx.typeEnv again)
include hconv habs habsolute hcalls hagain

/-- The folded form of an expression follows it if that holds of the parts and of theirs. -/
theorem isFollowed_of_parts (e : Expr)
    (ih : ∀ part ∈ e.parts, part.Everywhere (IsFollowed calls ctx quiet again)) :
    IsFollowed calls ctx quiet again e := by
  intro h hfold
  have hvalue := isValue_of_wellTyped h
  have hraised := raisedTo_folded hconv habs e h
  obtain ⟨hnode, hfolds⟩ := everywhere_iff.1 hfold
  simp only [isFoldable, Bool.and_eq_true] at hnode
  have hparts : ∀ part ∈ e.parts, part.wellTyped quiet ctx → FollowsFolded calls ctx again part :=
    fun part hpart hwell => (everywhere_iff.1 (ih part hpart)).1 hwell (hfolds part hpart)
  -- The subscript of a target is a part of a part, so the hypothesis is about all of them.
  have hcell {target : Expr} (htarget : target ∈ e.parts) (hwell : target.wellTyped quiet ctx)
      (hplace : target.isPlace) : SameCell calls ctx (target.typeIn ctx.typeEnv) target
        (target.folded.coercedWith again ctx.typeEnv false).value :=
    sameCell_folded hconv hwell hplace fun part hpart hwell =>
      (everywhere_iff.1 ((everywhere_iff.1 (ih target htarget)).2 part hpart)).1 hwell
        ((everywhere_iff.1 (hfolds target htarget)).2 part hpart)
  refine ⟨hvalue, hraised, ?_⟩
  unfold KeepsValue
  cases e with
  | id n c =>
    obtain ⟨cell, hcell⟩ := Option.isSome_iff_exists.1 h
    exact (Follows.of_type (returns_id hcell .implicit c)).congr fun v hv => hv.seenAs_eq
  | literal v c =>
    exact (Follows.of_type (returns_literal v .implicit c)).congr fun v hv => hv.seenAs_eq
  | binary op l r c =>
    simp only [wellTyped, Bool.and_eq_true] at h
    obtain ⟨⟨hl, hr⟩, htakes⟩ := h
    have htakes := (BinaryOp.takes_refines (typeIn_refines hconv l hl)
      (typeIn_refines hconv r hr)).2 htakes
    have hkeeps : op = .div ∨ op = .mod →
        operandType op (l.folded.typeIn ctx.typeEnv) (r.folded.typeIn ctx.typeEnv) =
          operandType op (l.typeIn ctx.typeEnv) (r.typeIn ctx.typeEnv) := by
      rintro (rfl | rfl) <;> simpa [keepsQuotient] using hnode.2
    have hfollows := follows_applied (hparts l (by simp [parts]) hl) (hparts r (by simp [parts]) hr)
      hconv hagain htakes hkeeps c c
    rwa [applied, (kept_coercedWith hconv.typeEnv hagain false l.folded).type,
      (kept_coercedWith hconv.typeEnv hagain false r.folded).type] at hfollows
  | unary op e c =>
    simp only [wellTyped, Bool.and_eq_true] at h
    obtain ⟨⟨he, htakes⟩, hplace⟩ := h
    obtain ⟨hvoid, hbits, hbool⟩ := unary_takes (typeIn_refines hconv e he) htakes
    by_cases hop : op.isMutating
    · have hplace : e.isPlace := by simpa [hop] using hplace
      have htype := typeIn_of_isPlace he hplace
      have hcell := hcell (by simp [parts]) he hplace
      obtain ⟨-, htype'⟩ := typeIn_folded_of_isPlace he hplace
      obtain ⟨hself, hresult⟩ := types_of_isMutating hop (e.typeIn ctx.typeEnv)
      simp only [folded_unary, coercedWith, Counted.value_bind, Counted.value_pure,
        coerceOperand_eq, typeIn, htype', hself, hresult, coerce_self]
      exact (follows_step hcell (by rw [htype]; exact hbool hop) hop c c).congr
        fun v hv => hv.seenAs_eq
    · rw [Bool.not_eq_true] at hop
      exact follows_unary_folded hconv (hparts e (by simp [parts]) he) hvoid hbits hop c
  | assign op t v c =>
    simp only [wellTyped, Bool.and_eq_true, bne_iff_ne] at h
    obtain ⟨⟨⟨⟨⟨ht, hplace⟩, htvoid⟩, hv⟩, hvvoid⟩, htarget⟩ := h
    have ht' := hparts t (by simp [parts]) ht
    have hv' := hparts v (by simp [parts]) hv
    have hcell := hcell (by simp [parts]) ht hplace
    cases hop : op.binary? with
    | none =>
      exact follows_assign_folded hconv hop ht hplace (typeIn_ne_void hconv ht htvoid) hcell hv'
        (typeIn_ne_void hconv hv hvvoid) c
    | some b =>
      rw [hop, Option.all_some] at htarget
      refine follows_compound_folded hconv hagain hcalls hop ht hplace htarget hv ?_ hcell ht' hv' c
      rintro rfl
      obtain rfl : op = .mod := by cases op <;> first | rfl | cases hop
      simpa [keepsQuotient] using hnode.2
  | ternary p t e c =>
    cases hspelled : (ternary p.folded t.folded e.folded c).absOperand? with
    | none =>
      have hwell := h
      simp only [wellTyped, Bool.and_eq_true] at hwell
      exact follows_ternary_folded hconv h hcalls hagain
        (hparts p (by simp [parts]) hwell.1.1.1.1.1) (hparts t (by simp [parts]) hwell.1.1.1.2)
        (hparts e (by simp [parts]) hwell.1.2)
        (foldNode_of_none hspelled)
    | some x =>
      exact follows_spelled hconv h hcalls habs habsolute hagain hfold ih hspelled
  | call => cases hnode.1.1
  | cast type e c =>
    simp only [wellTyped, Bool.and_eq_true, bne_iff_ne] at h
    have he' := hparts e (by simp [parts]) h.1
    simp only [folded_cast, coercedWith, Counted.value_bind, Counted.value_pure, eval, typeIn]
    refine he'.follows.bind fun v hv => ?_
    have htype := hv.type_convert (typeIn_ne_void hconv h.1 h.2) type
    rw [hv.convert_raised he'.raised]
    exact (Follows.of_type (returns_pure htype)).congr fun w hw => hw.seenAs_eq
  | index a i c =>
    have hcell := sameCell_folded hconv h rfl hparts
    simp only [folded_index, coercedWith, Counted.value_bind, Counted.value_pure] at hcell ⊢
    rw [eval_index, eval_index, hcell.eq]
    refine Follows.of_isPlace h rfl (.of_type (hcell.type.bind fun cell htype => ?_))
    rw [← htype]
    exact returns_read cell
  | initList items c => cases h
  | comma items c =>
    simp only [wellTyped, Bool.and_eq_true, Bool.not_eq_true'] at h
    simp only [folded_comma, coercedWith, Counted.value_bind, Counted.value_pure, eval, typeIn]
    exact follows_foldedList items
      (fun e he => hparts e he (wellTyped_of_mem h.2 e he)) (by simpa using h.1)

/-- The converted form of a folded expression evaluates by the explicit rules as the expression
does by the implicit rules, to a value of the raised type. -/
theorem followsFolded {e : Expr} (h : e.wellTyped quiet ctx)
    (hfold : e.Everywhere (·.isFoldable ctx.typeEnv)) : FollowsFolded calls ctx again e := by
  have heverywhere (e : Expr) : e.Everywhere (IsFollowed calls ctx quiet again) := by
    induction e using parts_induction with
    | h e ih =>
      exact everywhere_iff.2
        ⟨isFollowed_of_parts hconv habs habsolute hcalls hagain e ih, ih⟩
  exact (everywhere_iff.1 (heverywhere e)).1 h hfold

end Induction

end Expr

end MathKernel
