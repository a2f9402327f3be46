import MathKernel.Proofs.Normalize.CoercedValues

/-!
# Evaluation of converted expressions

By induction over expressions, a converted expression evaluates by the explicit rules as the
expression does by the implicit rules.

## Main results

* `Expr.evaluates_coercedWith` — the values of converted expressions
* `Expr.evaluates_coerced`, `Expr.follows_coercedAs` — converted expressions and conversions of them
-/

namespace MathKernel

open MathKernel.Action Scalar

/-- The result of a function that is no conversion has the declared type. -/
theorem Context.returns_apply {calls : Calls} {ctx : Context} (hconv : ctx.Converts) {f : String}
    (hname : ScalarType.ofCName? f = none) {s : Signature} (hs : ctx.signature? f = some s)
    (args : List Argument) : Returns (·.type = s.result) (ctx.apply calls f args) := by
  simp only [Context.apply, hname, hs]
  split
  · next hremainder =>
    subst hremainder
    obtain rfl := Option.some.inj (hs.symm.trans hconv.remainder)
    refine returns_ofOption fun v hv => ?_
    unfold remainderOf? at hv
    split at hv
    · split at hv <;> cases hv
      rfl
    · cases hv
  · refine returns_bind fun v => ?_
    split
    · next htype => exact returns_pure htype
    · exact returns_stuck

namespace Expr

variable {calls : Calls} {ctx : Context} {quiet : List String} {again : Expr → Counted Expr}

/-- A variable holds values of its type. -/
theorem returns_id {name : String} {cell : Cell} (h : ctx.cell? name = some cell) (rules : Rules)
    (c : Coord) :
    Returns (·.type = (id name c).typeIn ctx.typeEnv) ((id name c).eval rules calls ctx) := by
  obtain ⟨b, hb, -, rfl⟩ := Context.binding?_of_cell? h
  rw [eval, h, typeIn, Context.variableType_eq hb]
  exact returns_read b.cell

/-- A literal has a value of its type. -/
theorem returns_literal (value : Literal) (rules : Rules) (c : Coord) :
    Returns (·.type = (literal value c).typeIn ctx.typeEnv)
      ((literal value c).eval rules calls ctx) := by
  rw [eval, typeIn]
  exact returns_ofOption fun v hv => Literal.type_of_scalar? hv

/-- The types of a unary operator's operand. -/
theorem unary_takes {op : UnaryOp} {t c : ScalarType} (h : t.Refines c) (htakes : op.takes c) :
    t ≠ .void ∧ (op = .bitNot → t ≠ .float) ∧ (op.isMutating → c ≠ .bool) := by
  rw [ne_eq, h.eq_void_iff, ne_eq, h.eq_float_iff]
  revert htakes
  cases op <;> cases c <;> decide

theorem types_of_isMutating {op : UnaryOp} (h : op.isMutating) (t : ScalarType) :
    op.operandType t = t ∧ op.resultType t = t := by
  cases op <;> first | exact ⟨rfl, rfl⟩ | cases h

/-- A target has its declared type. -/
theorem typeIn_of_isPlace {e : Expr} (h : e.wellTyped quiet ctx) (hplace : e.isPlace) :
    e.typeIn ctx.typeEnv = e.ctype ctx := by
  cases e with
  | id name c =>
    obtain ⟨cell, hcell⟩ := Option.isSome_iff_exists.1 h
    obtain ⟨b, hb, -⟩ := Context.binding?_of_cell? hcell
    rw [typeIn, ctype, Context.variableType_eq hb, hb]
    rfl
  | index a i c =>
    simp only [wellTyped, Bool.and_eq_true] at h
    obtain ⟨b, hb⟩ := Option.isSome_iff_exists.1 h.1.1.1
    obtain ⟨name, c', rfl, hname⟩ := Context.exists_id_of_array? hb
    rw [typeIn, typeIn, ctype, ctype, Context.variableType_eq hname, hname]
    rfl
  | _ => cases hplace

theorem eval_index (rules : Rules) (a i : Expr) (c : Coord) :
    (index a i c).eval rules calls ctx = (index a i c).evalCell rules calls ctx >>= read := by
  rw [eval, evalCell]

/-- An element of an array at a converted subscript. -/
theorem sameCell_of_evaluates (hconv : ctx.Converts) {a i : Expr} {c : Coord}
    (h : (index a i c).wellTyped quiet ctx)
    (hi : Evaluates calls ctx false i (i.coercedWith again ctx.typeEnv false).value) :
    SameCell calls ctx ((index a i c).typeIn ctx.typeEnv) (index a i c)
      ((index a i c).coercedWith again ctx.typeEnv false).value := by
  simp only [wellTyped, Bool.and_eq_true, bne_iff_ne] at h
  obtain ⟨⟨⟨harray, hwell⟩, hivoid⟩, -⟩ := h
  obtain ⟨b, hb⟩ := Option.isSome_iff_exists.1 harray
  obtain ⟨name, c', rfl, hname⟩ := Context.exists_id_of_array? hb
  have hivoid := typeIn_ne_void hconv hwell hivoid
  rw [typeIn, typeIn, Context.variableType_eq hname]
  exact sameCell_index hb (hi.follows_coerce hconv hivoid (by simp)) hivoid c c

/-- A written conversion. -/
theorem follows_conversion (hconv : ctx.Converts) {t : ScalarType} (ht : t ≠ .void) {e : Expr}
    (hwell : e.wellTyped quiet ctx) (hvoid : e.typeIn ctx.typeEnv ≠ .void)
    (he : Evaluates calls ctx (t.cName == ScalarType.int.cName) e
      (e.coercedWith again ctx.typeEnv (t.cName == ScalarType.int.cName)).value)
    (truncated : Bool) (c : Coord) :
    Follows ((call t.cName [e] c).typeIn ctx.typeEnv)
      (seenAs ((call t.cName [e] c).typeIn ctx.typeEnv))
      (((call t.cName [e] c).coercedWith again ctx.typeEnv truncated).value.eval .explicit calls
        ctx)
      ((call t.cName [e] c).eval .implicit calls ctx) := by
  have himplicit : (call t.cName [e] c).eval .implicit calls ctx = _ :=
    eval_conversion hconv ht (isValue_of_wellTyped hwell) .implicit c
  simp only [convert_promote] at himplicit
  -- An exact quotient is truncated by the conversion, any other value is only seen differently.
  have heq : ((e.coercedWith again ctx.typeEnv (t.cName == ScalarType.int.cName)).value.eval
      .explicit calls ctx >>= fun v => pure (v.convert t)) =
        e.eval .implicit calls ctx >>= fun v => pure (v.convert t) := by
    by_cases hint : t = .int
    · subst hint
      exact he.truncates
    · have hflag : (t.cName == ScalarType.int.cName) = false := by
        cases t <;> first | rfl | exact absurd rfl hint
      rw [hflag] at he ⊢
      exact (he.follows rfl).bind_eq fun v hv => by rw [hv.convert_seenAs]
  have hsignature := hconv.typeEnv.conversion t ht
  rw [typeIn_conversion hsignature, value_coercedWith_conversion hsignature,
    eval_conversion hconv ht he.value, himplicit]
  change Follows t (seenAs t) (_ >>= fun v : Scalar => pure (v.convert t)) _
  rw [heq]
  exact .of_type (he.fits.bind fun v hv => returns_pure (hv.type_convert hvoid t))

/-- A compound assignment is written out, or its value is converted to the type of the target. -/
theorem evaluates_compound (hconv : ctx.Converts) (hagain : Combines ctx.typeEnv again)
    (hcalls : calls.QuietOn quiet) {op : AssignOp} {b : BinaryOp} (hop : op.binary? = some b)
    {t v : Expr} (ht : t.wellTyped quiet ctx) (hplace : t.isPlace)
    (htvoid : t.typeIn ctx.typeEnv ≠ .void) (hv : v.wellTyped quiet ctx)
    (hvvoid : v.typeIn ctx.typeEnv ≠ .void)
    (htarget : t.isCompoundTarget quiet ctx b (v.ctype ctx))
    (hcell : SameCell calls ctx (t.typeIn ctx.typeEnv) t
      (t.coercedWith again ctx.typeEnv false).value)
    (ht' : Evaluates calls ctx false t (t.coercedWith again ctx.typeEnv false).value)
    (hv' : Evaluates calls ctx false v (v.coercedWith again ctx.typeEnv false).value)
    (truncated : Bool) (c : Coord) :
    Evaluates calls ctx truncated (assign op t v c)
      ((assign op t v c).coercedWith again ctx.typeEnv truncated).value := by
  simp only [isCompoundTarget, Bool.and_eq_true, bne_iff_ne, Bool.not_eq_true'] at htarget
  obtain ⟨⟨⟨hbool, htakes⟩, hwrites⟩, hnames⟩ := htarget
  rw [← typeIn_of_isPlace ht hplace] at hbool
  rw [← BinaryOp.takes_refines (typeIn_refines hconv t ht) (typeIn_refines hconv v hv)] at htakes
  have htkept := kept_coercedWith hconv.typeEnv hagain false t
  have hvkept := kept_coercedWith hconv.typeEnv hagain false v
  -- Written out are assignments to integers whose operation yields no integer or becomes a call.
  have hout : isWrittenOut b (t.typeIn ctx.typeEnv) (v.typeIn ctx.typeEnv)
      (t.coercedWith again ctx.typeEnv false).value ↔ t.typeIn ctx.typeEnv = .int ∧
        (v.typeIn ctx.typeEnv = .float ∨ b = .div ∨ b = .mod) := by
    simp only [isWrittenOut, hasSideEffects_coercedWith, hwrites, Bool.not_false, Bool.and_true,
      Bool.and_eq_true, Bool.or_eq_true, beq_iff_eq, or_assoc]
  by_cases hwritten : isWrittenOut b (t.typeIn ctx.typeEnv) (v.typeIn ctx.typeEnv)
      (t.coercedWith again ctx.typeEnv false).value
  · have hint := (hout.1 hwritten).1
    have hcombined := evaluates_applied hconv false ht' hv' htkept.type hvkept.type htakes none none
    have hvoid := typeIn_binary_ne_void b htvoid hvvoid none
    have hvalue := hcombined.follows_coerce hconv hvoid (t := .int) (by simp)
    have hquiet : (t.evalCell .implicit calls ctx).Quiet :=
      evalCell_quiet hcalls .implicit ctx (isQuiet_iff.2 ⟨hwrites, hnames⟩)
    rw [← hagain b _ _ none htkept.stable hvkept.stable] at hvalue
    refine .of_follows ?_ ?_ truncated
    · simp only [coercedWith, Counted.value_bind, hop, hwritten, if_true]
      exact ⟨rfl, rfl, rfl⟩
    · simp only [coercedWith, Counted.value_bind, hop, hwritten, if_true, Counted.change]
      have hassign : (assign op t v c).typeIn ctx.typeEnv = .int := by rw [typeIn, hint]
      have hbinary : (binary b (t.coercedWith again ctx.typeEnv false).value
          (v.coercedWith again ctx.typeEnv false).value none).typeIn ctx.typeEnv =
            (binary b t v none).typeIn ctx.typeEnv := by
        rw [typeIn, typeIn, htkept.type, hvkept.type]
      rw [hassign, hbinary]
      rw [hint] at hcell
      exact follows_writtenOut hop hplace hquiet hcell hvalue hvoid c c
  · refine .of_follows ?_ ?_ truncated
    · simp only [coercedWith, Counted.value_bind, Counted.value_pure, hop, if_neg hwritten]
      exact ⟨rfl, rfl, rfl⟩
    · simp only [coercedWith, Counted.value_bind, Counted.value_pure, hop, if_neg hwritten, typeIn]
      exact follows_compound hop hcell (hv'.follows_coerce hconv hvvoid htvoid) hvvoid htvoid hbool
        htakes (mt hout.2 hwritten) c c

/-- A unary operator on a converted operand. A mutating operator needs the cell of its target, any
other one the value of its operand. -/
theorem evaluates_unary (hconv : ctx.Converts) {op : UnaryOp} {e : Expr} {c : Coord}
    (h : (unary op e c).wellTyped quiet ctx)
    (hcell : e.isPlace → SameCell calls ctx (e.typeIn ctx.typeEnv) e
      (e.coercedWith again ctx.typeEnv false).value)
    (he' : Evaluates calls ctx false e (e.coercedWith again ctx.typeEnv false).value)
    (truncated : Bool) :
    Evaluates calls ctx truncated (unary op e c)
      ((unary op e c).coercedWith again ctx.typeEnv truncated).value := by
  simp only [wellTyped, Bool.and_eq_true] at h
  obtain ⟨⟨he, htakes⟩, hplace⟩ := h
  obtain ⟨hvoid, hbits, hbool⟩ := unary_takes (typeIn_refines hconv e he) htakes
  refine .of_follows ⟨rfl, rfl, rfl⟩ ?_ truncated
  simp only [coercedWith, Counted.value_bind, Counted.value_pure, coerceOperand_eq, typeIn]
  by_cases hop : op.isMutating
  · obtain ⟨hself, hresult⟩ := types_of_isMutating hop (e.typeIn ctx.typeEnv)
    have hplace : e.isPlace := by simpa [hop] using hplace
    have htype := typeIn_of_isPlace he hplace
    rw [hself, hresult, coerce_self]
    exact follows_step (hcell hplace) (by rw [htype]; exact hbool hop) hop c c
  · rw [Bool.not_eq_true] at hop
    exact follows_unary hconv he' hvoid hbits hop c c

/-- A conditional on a truth value whose branches are converted to their common type. -/
theorem evaluates_ternary (hconv : ctx.Converts) {p t e : Expr} {c : Coord}
    (h : (ternary p t e c).wellTyped quiet ctx)
    (hp' : Evaluates calls ctx false p (p.coercedWith again ctx.typeEnv false).value)
    (ht' : Evaluates calls ctx false t (t.coercedWith again ctx.typeEnv false).value)
    (he' : Evaluates calls ctx false e (e.coercedWith again ctx.typeEnv false).value)
    (truncated : Bool) :
    Evaluates calls ctx truncated (ternary p t e c)
      ((ternary p t e c).coercedWith again ctx.typeEnv truncated).value := by
  simp only [wellTyped, Bool.and_eq_true, bne_iff_ne] at h
  obtain ⟨⟨⟨⟨⟨hp, hpvoid⟩, ht⟩, htvoid⟩, he⟩, hevoid⟩ := h
  have htrefines := typeIn_refines hconv t ht
  have herefines := typeIn_refines hconv e he
  have hpvoid := typeIn_ne_void hconv hp hpvoid
  have htvoid := typeIn_ne_void hconv ht htvoid
  have hevoid := typeIn_ne_void hconv he hevoid
  have hvoid := ScalarType.unify_ne_void htvoid hevoid
  -- A value of either branch is seen at the common type as the implicit rules join it.
  have hjoin {branch : ScalarType}
      (hbranch : branch = t.typeIn ctx.typeEnv ∨ branch = e.typeIn ctx.typeEnv) {w : Scalar}
      (hw : w.Fits branch) :
      Follows (.unify (t.typeIn ctx.typeEnv) (e.typeIn ctx.typeEnv))
        (seenAs (.unify (t.typeIn ctx.typeEnv) (e.typeIn ctx.typeEnv)))
        (pure (w.convert (.unify (t.typeIn ctx.typeEnv) (e.typeIn ctx.typeEnv))))
        (pure (Rules.implicit.join (t.ctype ctx) (e.ctype ctx) w)) := by
    obtain ⟨hfits, hseen⟩ := Rules.seenAs_join htrefines herefines htvoid hevoid hbranch hw
    have hpure := follows_pure (seenAs (.unify (t.typeIn ctx.typeEnv) (e.typeIn ctx.typeEnv)))
      hfits
    rwa [hseen] at hpure
  refine .of_follows ⟨rfl, rfl, rfl⟩ ?_ truncated
  simp only [coercedWith, Counted.value_bind, Counted.value_pure, eval, typeIn]
  refine (hp'.follows_coerce hconv hpvoid (t := .bool) (by simp)).bind fun v hv => ?_
  rw [Rules.explicit_condition?_convert]
  refine (returns_ofOption (P := fun _ => True) fun _ _ => trivial).follows_bind fun b _ => ?_
  cases b with
  | true => exact (ht'.follows_coerce hconv htvoid hvoid).bind fun w => hjoin (.inl rfl)
  | false => exact (he'.follows_coerce hconv hevoid hvoid).bind fun w => hjoin (.inr rfl)

-- The cell of a target has a subscript to evaluate, so targets, arguments and items go along with
-- the expressions.
mutual

/-- A converted expression evaluates by the explicit rules as the expression does by the implicit
rules. -/
theorem evaluates_coercedWith (hconv : ctx.Converts) (hagain : Combines ctx.typeEnv again)
    (hcalls : calls.QuietOn quiet) (truncated : Bool) (e : Expr) (h : e.wellTyped quiet ctx) :
    Evaluates calls ctx truncated e (e.coercedWith again ctx.typeEnv truncated).value := by
  cases e with
  | id n c =>
    obtain ⟨cell, hcell⟩ := Option.isSome_iff_exists.1 h
    exact .of_follows (isValue_of_wellTyped h) (.of_type (returns_id hcell .implicit c)) truncated
  | literal v c =>
    exact .of_follows (isValue_of_wellTyped h) (.of_type (returns_literal v .implicit c)) truncated
  | binary op l r c =>
    simp only [wellTyped, Bool.and_eq_true] at h
    obtain ⟨⟨hl, hr⟩, htakes⟩ := h
    have hl' := kept_coercedWith hconv.typeEnv hagain false l
    have hr' := kept_coercedWith hconv.typeEnv hagain false r
    have htakes := (BinaryOp.takes_refines (typeIn_refines hconv l hl)
      (typeIn_refines hconv r hr)).2 htakes
    have hevaluates := evaluates_applied hconv truncated
      (evaluates_coercedWith hconv hagain hcalls false l hl)
      (evaluates_coercedWith hconv hagain hcalls false r hr) hl'.type hr'.type htakes c c
    rwa [applied, hl'.type, hr'.type] at hevaluates
  | unary op e c =>
    have he : e.wellTyped quiet ctx := by
      simp only [wellTyped, Bool.and_eq_true] at h
      exact h.1.1
    exact evaluates_unary hconv h (sameCell_coercedWith hconv hagain hcalls e he)
      (evaluates_coercedWith hconv hagain hcalls false e he) truncated
  | assign op t v c =>
    simp only [wellTyped, Bool.and_eq_true, bne_iff_ne] at h
    obtain ⟨⟨⟨⟨⟨ht, hplace⟩, htvoid⟩, hv⟩, hvvoid⟩, htarget⟩ := h
    have ht' := evaluates_coercedWith hconv hagain hcalls false t ht
    have hcell := sameCell_coercedWith hconv hagain hcalls t ht hplace
    have hv' := evaluates_coercedWith hconv hagain hcalls false v hv
    have htvoid' := typeIn_ne_void hconv ht htvoid
    have hvvoid' := typeIn_ne_void hconv hv hvvoid
    have hconverted := hv'.follows_coerce hconv hvvoid' htvoid'
    cases hop : op.binary? with
    | none =>
      refine .of_follows ?_ ?_ truncated
      · simp only [coercedWith, Counted.value_bind, Counted.value_pure, hop]
        exact ⟨rfl, rfl, rfl⟩
      · simp only [coercedWith, Counted.value_bind, Counted.value_pure, hop, typeIn]
        exact follows_assign hop hop hcell hconverted hvvoid' c c
    | some b =>
      rw [hop, Option.all_some] at htarget
      exact evaluates_compound hconv hagain hcalls hop ht hplace htvoid' hv hvvoid' htarget hcell
        ht' hv' truncated c
  | ternary p t e c =>
    have hwell := h
    simp only [wellTyped, Bool.and_eq_true] at hwell
    obtain ⟨⟨⟨⟨⟨hp, -⟩, ht⟩, -⟩, he⟩, -⟩ := hwell
    exact evaluates_ternary hconv h (evaluates_coercedWith hconv hagain hcalls false p hp)
      (evaluates_coercedWith hconv hagain hcalls false t ht)
      (evaluates_coercedWith hconv hagain hcalls false e he) truncated
  | call f args c =>
    rw [wellTyped] at h
    refine .of_follows ⟨rfl, rfl, rfl⟩ ?_ truncated
    -- A conversion takes a value of any type; other calls convert to the declared parameters.
    split at h
    · next t ht =>
      obtain rfl := ScalarType.eq_cName_of_ofCName? ht
      simp only [Bool.and_eq_true, bne_iff_ne, beq_iff_eq] at h
      obtain ⟨⟨htvoid, hlength⟩, hargs⟩ := h
      match args, hlength, hargs with
      | [e], _, hargs =>
        simp only [wellTypedList, Bool.and_eq_true, bne_iff_ne] at hargs
        obtain ⟨⟨he, hvoid⟩, -⟩ := hargs
        have he' := evaluates_coercedWith hconv hagain hcalls (t.cName == ScalarType.int.cName) e he
        exact follows_conversion hconv htvoid he (typeIn_ne_void hconv he hvoid) he' truncated c
    · next hname =>
      split at h
      · next s hs =>
        have hint : (f == ScalarType.int.cName) = false := by
          rw [beq_eq_false_iff_ne]
          rintro rfl
          simp at hname
        have hargs := evalArgs_coercedArgs hconv hagain hcalls s 0 args h
        have htype : (call f args c).typeIn ctx.typeEnv = s.result := by
          rw [typeIn, TypeEnv.resultType, Context.signature?_typeEnv, hs]
          rfl
        rw [htype]
        simp only [coercedWith, Counted.value_bind, Counted.value_pure, hint,
          Context.signature?_typeEnv, hs, eval, hargs]
        exact .of_type (returns_bind fun values => Context.returns_apply hconv hname hs values)
      · cases h
  | cast type e c =>
    simp only [wellTyped, Bool.and_eq_true, bne_iff_ne] at h
    have he' := evaluates_coercedWith hconv hagain hcalls false e h.1
    refine .of_follows ⟨rfl, rfl, rfl⟩ ?_ truncated
    simp only [coercedWith, Counted.value_bind, Counted.value_pure, eval, typeIn]
    refine (he'.follows rfl).bind fun v hv => ?_
    rw [hv.convert_seenAs]
    exact .of_type (returns_pure (hv.type_convert (typeIn_ne_void hconv h.1 h.2) type))
  | index a i c =>
    have hi : i.wellTyped quiet ctx := by
      simp only [wellTyped, Bool.and_eq_true] at h
      exact h.1.1.2
    have hi' := evaluates_coercedWith hconv hagain hcalls false i hi
    have hcell := sameCell_of_evaluates hconv h hi'
    refine .of_follows ⟨rfl, rfl, rfl⟩ ?_ truncated
    simp only [coercedWith, Counted.value_bind, Counted.value_pure] at hcell ⊢
    rw [eval_index, eval_index, hcell.eq]
    refine .of_type (hcell.type.bind fun cell htype => ?_)
    rw [← htype]
    exact returns_read cell
  | initList items c => cases h
  | comma items c =>
    simp only [wellTyped, Bool.and_eq_true, Bool.not_eq_true'] at h
    refine .of_follows ⟨rfl, rfl, rfl⟩ ?_ truncated
    simp only [coercedWith, Counted.value_bind, Counted.value_pure, eval, typeIn]
    exact follows_coercedList hconv hagain hcalls items h.2 (by simpa using h.1)

/-- Converting a target keeps the cell that it names. -/
theorem sameCell_coercedWith (hconv : ctx.Converts) (hagain : Combines ctx.typeEnv again)
    (hcalls : calls.QuietOn quiet) (e : Expr) (h : e.wellTyped quiet ctx) (hplace : e.isPlace) :
    SameCell calls ctx (e.typeIn ctx.typeEnv) e (e.coercedWith again ctx.typeEnv false).value := by
  cases e with
  | id n c =>
    obtain ⟨cell, hcell⟩ := Option.isSome_iff_exists.1 h
    obtain ⟨b, hb, -, rfl⟩ := Context.binding?_of_cell? hcell
    refine ⟨rfl, ?_⟩
    rw [evalCell, hcell, typeIn, Context.variableType_eq hb]
    exact returns_pure rfl
  | index a i c =>
    have hi : i.wellTyped quiet ctx := by
      simp only [wellTyped, Bool.and_eq_true] at h
      exact h.1.1.2
    exact sameCell_of_evaluates hconv h (evaluates_coercedWith hconv hagain hcalls false i hi)
  | _ => cases hplace

theorem evalArgs_coercedArgs (hconv : ctx.Converts) (hagain : Combines ctx.typeEnv again)
    (hcalls : calls.QuietOn quiet) (s : Signature) (i : Nat) (args : List Expr)
    (h : wellTypedArgs quiet ctx s i args) :
    evalArgs .explicit calls ctx (some s) i
        (coercedArgs again ctx.typeEnv false (some s) i args).value =
      evalArgs .implicit calls ctx (some s) i args := by
  cases args with
  | nil => rfl
  | cons e rest =>
    rw [wellTypedArgs, Bool.and_eq_true] at h
    obtain ⟨he, hrest⟩ := h
    have hrest := evalArgs_coercedArgs hconv hagain hcalls s (i + 1) rest hrest
    simp only [coercedArgs, Counted.value_bind, Counted.value_pure, Bool.false_and, evalArgs,
      hrest, Option.bind_some]
    congr 1
    split at he
    · next hleaf =>
      -- Arrays and texts are passed as they are.
      rw [Option.isNone_iff_eq_none] at he
      simp only [he, coerceArg, Counted.value_pure]
      cases e with
      | id n c =>
        obtain ⟨b, hb⟩ : ∃ b, ctx.array? (id n c) = some b := by
          simpa [text?, Option.isSome_iff_exists] using hleaf
        simp only [coercedWith, Counted.value_pure, Context.argument, hb]
      | literal v c =>
        obtain ⟨text, htext⟩ : ∃ text, (literal v c).text? = some text := by
          simpa [Context.array?, Option.isSome_iff_exists] using hleaf
        have harray : ctx.array? (literal v c) = none := rfl
        simp only [coercedWith, Counted.value_pure, Context.argument, harray, htext]
      | _ => cases hleaf
    · simp only [Bool.and_eq_true, bne_iff_ne] at he
      obtain ⟨⟨he, hvoid⟩, htakes⟩ := he
      have he' := evaluates_coercedWith hconv hagain hcalls false e he
      have hvoid := typeIn_ne_void hconv he hvoid
      rcases Signature.takesValue_cases htakes with ⟨t, ht, htvoid⟩ | ⟨hnone, hbool⟩
      · simp only [ht, coerceArg]
        rw [argument_eq (isValue_coerce he'.value _ _), argument_eq (isValue_of_wellTyped he)]
        refine (he'.follows_coerce hconv hvoid htvoid).bind_eq fun v hv => ?_
        simp only [Rules.argument?, Rules.explicit_expect?_convert hv hvoid]
      · simp only [hnone, coerceArg, Counted.value_pure]
        rw [argument_eq he'.value, argument_eq (isValue_of_wellTyped he)]
        refine (he'.follows rfl).bind_eq fun v hv => ?_
        rw [Rules.explicit_argument?_none hv hbool]

theorem follows_coercedList (hconv : ctx.Converts) (hagain : Combines ctx.typeEnv again)
    (hcalls : calls.QuietOn quiet) (items : List Expr) (h : wellTypedList quiet ctx items)
    (hne : items ≠ []) :
    Follows (lastTypeIn ctx.typeEnv items) (seenAs (lastTypeIn ctx.typeEnv items))
      (evalLast .explicit calls ctx (coercedList again ctx.typeEnv items).value)
      (evalLast .implicit calls ctx items) := by
  match items with
  | [] => exact absurd rfl hne
  | [e] =>
    simp only [wellTypedList, Bool.and_eq_true] at h
    exact (evaluates_coercedWith hconv hagain hcalls false e h.1.1).follows rfl
  | e :: e' :: rest =>
    rw [wellTypedList, Bool.and_eq_true, Bool.and_eq_true] at h
    have he' := evaluates_coercedWith hconv hagain hcalls false e h.1.1
    exact (he'.follows rfl).bind fun v hv =>
      follows_coercedList hconv hagain hcalls (e' :: rest) h.2 (by simp)

end

/-- The value of a converted expression. -/
theorem evaluates_coerced (hconv : ctx.Converts) (hcalls : calls.QuietOn quiet) {e : Expr}
    (h : e.wellTyped quiet ctx) :
    Evaluates calls ctx false e (e.coerced ctx.typeEnv).value := by
  obtain ⟨again, hagain, heq⟩ := coerced_eq ctx.typeEnv e
  rw [heq]
  exact evaluates_coercedWith hconv hagain hcalls false e h

/-- The value of an expression that is converted to a type. -/
theorem follows_coercedAs (hconv : ctx.Converts) (hcalls : calls.QuietOn quiet) {e : Expr}
    (h : e.wellTyped quiet ctx) (hvoid : e.ctype ctx ≠ .void) {t : ScalarType} (ht : t ≠ .void) :
    Follows (e.typeIn ctx.typeEnv) (convert t)
      ((e.coercedAs ctx.typeEnv t).value.eval .explicit calls ctx)
      (e.eval .implicit calls ctx) :=
  (evaluates_coerced hconv hcalls h).follows_coerce hconv (typeIn_ne_void hconv h hvoid) ht

theorem isValue_applyBinary (op : BinaryOp) (common : ScalarType) (truncated : Bool) (l r : Expr)
    (c : Coord) : (applyBinary op common truncated l r c).value.IsValue ctx := by
  unfold applyBinary
  split
  · split <;> exact ⟨rfl, rfl, rfl⟩
  · exact ⟨rfl, rfl, rfl⟩
  · exact ⟨rfl, rfl, rfl⟩

/-- Conversions make no array, text or braced list of an expression that is none of them. -/
theorem isValue_coercedWith {e : Expr} (h : e.IsValue ctx) (again : Expr → Counted Expr)
    (env : TypeEnv) (truncated : Bool) : (e.coercedWith again env truncated).value.IsValue ctx := by
  cases e with
  | id | literal => exact h
  | binary op l r c =>
    exact isValue_applyBinary op _ truncated _ _ c
  | assign op t v c =>
    simp only [coercedWith, Counted.value_bind]
    split
    · split <;> exact ⟨rfl, rfl, rfl⟩
    · exact ⟨rfl, rfl, rfl⟩
  | initList items c => cases h.braced
  | _ => exact ⟨rfl, rfl, rfl⟩

theorem isValue_coercedAs {e : Expr} (h : e.IsValue ctx) (env : TypeEnv) (t : ScalarType) :
    (e.coercedAs env t).value.IsValue ctx := by
  obtain ⟨again, -, heq⟩ := coerced_eq env e
  have hvalue := isValue_coercedWith h again env false
  rw [← heq] at hvalue
  exact isValue_coerce hvalue _ t

end Expr

end MathKernel
