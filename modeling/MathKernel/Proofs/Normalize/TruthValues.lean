import MathKernel.Proofs.Normalize.CoercedExpressions
import MathKernel.Proofs.Semantics.Identification

/-!
# Truth values of converted expressions

Where true and false are identified with one and zero, a converted expression that has the type of
truth values gives true, false, or an integer that stands for one of them, if in every subscripted
expression the array stands first. So a conversion between truth values and integers keeps it.

## Main definitions

* `TypeEnv.IsPartOf` — an environment has the types of the names in scope that it knows
* `Expr.arrayFirst` — the array stands first in a subscripted expression

## Main results

* `Expr.shape_coercedWith`, `Expr.array?_coercedWith` — what an expression names is kept by
  conversions
* `Expr.returns_evalCell_coercedWith` — the cells of converted targets have their types
* `Expr.returns_isTruth_coercedWith` — the values of converted expressions
-/

namespace MathKernel

open MathKernel.Action Scalar

/-- The environment has the types of the variables in scope, and those of the functions that it
knows. Functions that are declared in a body are not known to it. -/
structure TypeEnv.IsPartOf (env : TypeEnv) (ctx : Context) : Prop where
  vars : env.vars = ctx.typeEnv.vars
  functions : ∀ name s, env.signature? name = some s → ctx.signature? name = some s

theorem TypeEnv.IsPartOf.variableType_eq {env : TypeEnv} {ctx : Context} (h : env.IsPartOf ctx)
    {name : String} {b : Binding} (hb : ctx.binding? name = some b) :
    env.variableType name = b.type := by
  rw [← Context.variableType_eq hb, variableType, variableType, h.vars]

/-! ### What expressions name -/

namespace Expr

variable {calls : Calls} {ctx : Context} {env : TypeEnv}

section Shapes

variable (again : Expr → Counted Expr) (truncated : Bool)

/-- A converted expression is a place, a text or a braced list where the expression is. -/
theorem shape_coercedWith (e : Expr) :
    (e.coercedWith again env truncated).value.isPlace = e.isPlace ∧
      (e.coercedWith again env truncated).value.text? = e.text? ∧
      (e.coercedWith again env truncated).value.isBraced = e.isBraced := by
  cases e with
  | binary op l r c =>
    simp only [coercedWith, Counted.value_bind, applyBinary]
    split
    · split_ifs <;> exact ⟨rfl, rfl, rfl⟩
    · exact ⟨rfl, rfl, rfl⟩
    · exact ⟨rfl, rfl, rfl⟩
  | assign op t v c =>
    simp only [coercedWith, Counted.value_bind]
    split
    · split_ifs <;> exact ⟨rfl, rfl, rfl⟩
    · exact ⟨rfl, rfl, rfl⟩
  | _ => exact ⟨rfl, rfl, rfl⟩

theorem isPlace_coercedWith (e : Expr) :
    (e.coercedWith again env truncated).value.isPlace = e.isPlace :=
  (shape_coercedWith again truncated e).1

theorem text?_coercedWith (e : Expr) : (e.coercedWith again env truncated).value.text? = e.text? :=
  (shape_coercedWith again truncated e).2.1

theorem isBraced_coercedWith (e : Expr) :
    (e.coercedWith again env truncated).value.isBraced = e.isBraced :=
  (shape_coercedWith again truncated e).2.2

theorem array?_coercedWith (e : Expr) :
    ctx.array? (e.coercedWith again env truncated).value = ctx.array? e := by
  cases h : e.isPlace with
  | false => rw [array?_of_isPlace h, array?_of_isPlace ((isPlace_coercedWith again _ e).trans h)]
  | true =>
    cases e with
    | id | index => rfl
    | _ => cases h

/-- A conversion names no array where the expression names none, and no text likewise. -/
theorem names_coerce {e : Expr} (h : ctx.array? e = none) (s t : ScalarType) :
    ctx.array? (e.coerce s t).value = none ∧
      (e.text? = none → (e.coerce s t).value.text? = none) := by
  rcases coerce_eq_or_isValue ctx s t e with heq | hvalue
  · rw [heq]
    exact ⟨h, fun htext => htext⟩
  · exact ⟨hvalue.array, fun _ => hvalue.text⟩

end Shapes

/-- In a subscripted expression the array stands first. -/
def arrayFirst (ctx : Context) : Expr → Bool
  | index _ i _ => (ctx.array? i).isNone
  | _ => true

/-- The cell that a converted target names has the type of the target. -/
theorem returns_evalCell_coercedWith (hpart : env.IsPartOf ctx) (calls : Calls)
    (again : Expr → Counted Expr) (truncated : Bool) {e : Expr} (hfirst : e.arrayFirst ctx)
    (rules : Rules) :
    Returns (·.type = e.typeIn env)
      ((e.coercedWith again env truncated).value.evalCell rules calls ctx) := by
  cases hplace : e.isPlace with
  | false =>
    rw [evalCell_of_isPlace ((isPlace_coercedWith again _ e).trans hplace)]
    exact returns_stuck
  | true =>
    cases e with
    | id n c =>
      refine returns_ofOption fun cell hcell => ?_
      obtain ⟨b, hb, -, rfl⟩ := Context.binding?_of_cell? hcell
      exact (hpart.variableType_eq hb).symm
    | index a i c =>
      have hsubscript : ctx.array? i = none := Option.isNone_iff_eq_none.1 hfirst
      have hi : ctx.array? ((i.coercedWith again env false).value.coerce
          (i.typeIn env) .int).value = none :=
        (names_coerce ((array?_coercedWith again false i).trans hsubscript) _ _).1
      simp only [coercedWith, Counted.value_bind, Counted.value_pure, evalCell, Context.element, hi,
        array?_coercedWith]
      cases ha : ctx.array? a with
      | none => exact returns_stuck
      | some b =>
        obtain ⟨name, c', rfl, hname⟩ := Context.exists_id_of_array? ha
        have htype : (index (id name c') i c).typeIn env = b.type :=
          hpart.variableType_eq hname
        rw [htype]
        exact returns_bind fun v => (b.returns_element rules v).imp fun _ hcell => hcell.2
    | _ => cases hplace

/-! ### Values of writes -/

section Writes

variable {rules : Rules} {t : ScalarType} {target : Expr}
  (h : Returns (·.type = t) (target.evalCell rules calls ctx))
include h

/-- An assignment gives a value of the type of its target. -/
theorem returns_assign (op : AssignOp) (v : Expr) (c : Coord) :
    Returns (·.type = t) ((assign op target v c).eval rules calls ctx) := by
  rw [eval]
  refine h.bind fun cell hcell => ?_
  subst hcell
  split
  · exact returns_bind fun v => returns_store rules cell v
  · exact returns_bind fun old => returns_bind fun v => returns_bind fun new =>
      returns_store rules cell new

/-- Counting up or down gives a value of the type of what is counted. -/
theorem returns_step {op : UnaryOp} (hop : op.isMutating) (c : Coord) :
    Returns (·.type = t) ((unary op target c).eval rules calls ctx) := by
  rw [eval, if_pos hop]
  refine h.bind fun cell hcell => ?_
  subst hcell
  refine (returns_read cell).bind fun old hold => returns_bind fun new => ?_
  refine (returns_store rules cell new).bind fun stored hstored => ?_
  split
  · exact returns_pure hold
  · exact returns_pure hstored

end Writes

end Expr

/-! ### Truth values -/

/-- A comparison gives a truth value. -/
theorem Rules.exists_of_isComparison (rules : Rules) {op : BinaryOp} (h : op.isComparison)
    (v w : Scalar) : ∃ o, rules.binary op v w = Option.map rules.truth o := by
  unfold Rules.binary
  split
  · next a b _ => exact ⟨op.compare? a b, by cases op <;> first | rfl | cases h⟩
  · next a b _ => exact ⟨op.compare? a b, by cases op <;> first | rfl | cases h⟩
  · next a b _ => exact ⟨op.compare? a b, rfl⟩
  · exact ⟨none, rfl⟩

namespace ScalarType

theorem eq_bool_of_unify {s t : ScalarType} (h : unify s t = .bool) : s = .bool ∧ t = .bool := by
  revert h
  cases s <;> cases t <;> decide

end ScalarType

theorem BinaryOp.cases_of_resultType {op : BinaryOp} {s t : ScalarType}
    (h : op.resultType s t = .bool) :
    op.isLogical ∨ op.isLogical = false ∧ op.isComparison := by
  unfold BinaryOp.resultType at h
  cases hlogical : op.isLogical with
  | true => exact .inl rfl
  | false =>
    refine .inr ⟨rfl, ?_⟩
    rw [hlogical, if_neg (by simp)] at h
    split_ifs at h with hbits hcompare
    · exact hcompare
    · exact absurd h (ScalarType.arithmetic_ne_bool s t)

theorem UnaryOp.cases_of_resultType {op : UnaryOp} {t : ScalarType} (h : op.resultType t = .bool) :
    op = .not ∨ op.isMutating ∧ t = .bool := by
  revert h
  cases op <;> cases t <;> decide

namespace Expr

variable {calls : Calls} {ctx : Context} {env : TypeEnv} (again : Expr → Counted Expr)

theorem returns_isTruth_of_type {x : Action Scalar} (h : Returns (·.type = .bool) x) :
    Returns IsTruth x :=
  h.imp fun _ => isTruth_of_type

theorem returns_ofOption_truth {o : Option Scalar}
    (h : ∃ b : Option Bool, o = b.map Rules.identified.truth) : Returns IsTruth (ofOption o) := by
  obtain ⟨b, rfl⟩ := h
  refine returns_ofOption fun v hv => ?_
  obtain ⟨b, -, rfl⟩ := Option.map_eq_some_iff.1 hv
  rfl

/-- A comparison or a connective gives a truth value. -/
theorem returns_isTruth_binary {op : BinaryOp}
    (hop : op.isLogical ∨ op.isLogical = false ∧ op.isComparison) (l r : Expr) (c : Coord) :
    Returns IsTruth ((binary op l r c).eval .identified calls ctx) := by
  have htruth (b : Bool) : Returns IsTruth (pure (Rules.identified.truth b)) := returns_pure rfl
  rcases hop with hlogical | ⟨hlogical, hcompare⟩
  · simp only [eval, hlogical, if_true]
    refine returns_bind fun v => returns_bind fun b => ?_
    split
    · exact htruth b
    · exact returns_bind fun w => returns_bind fun b => htruth b
  · rw [eval_binary hlogical]
    exact returns_bind fun v => returns_bind fun w =>
      returns_ofOption_truth (Rules.identified.exists_of_isComparison hcompare v w)

/-- A function whose result is a truth value gives one. -/
theorem returns_isTruth_call (hpart : env.IsPartOf ctx) (hconv : ctx.Converts) {f : String}
    (h : env.resultType f = .bool) (args : List Expr) (c : Coord) :
    Returns IsTruth ((call f args c).eval .identified calls ctx) := by
  rw [eval]
  refine returns_bind fun args => ?_
  rw [TypeEnv.resultType] at h
  cases hknown : env.signature? f with
  | none =>
    rw [hknown] at h
    cases h
  | some s =>
    rw [hknown] at h
    have hs := hpart.functions f s hknown
    cases hname : ScalarType.ofCName? f with
    | none => exact returns_isTruth_of_type (h ▸ Context.returns_apply hconv hname hs args)
    | some t =>
      -- A conversion to no value gives no value.
      have ht : t = .void ∨ t = .bool := by
        obtain rfl := ScalarType.eq_cName_of_ofCName? hname
        by_cases hvoid : t = .void
        · exact .inl hvoid
        · obtain rfl := Option.some.inj ((hconv.conversion t hvoid).symm.trans hs)
          exact .inr h
      simp only [Context.apply, hname]
      split
      · refine returns_pure ?_
        rcases ht with rfl | rfl
        · next v => cases v <;> rfl
        · exact isTruth_convert _
      · exact returns_stuck

mutual

/-- A converted expression of the type of truth values gives a truth value, or an integer that
stands for one. -/
theorem returns_isTruth_coercedWith (hpart : env.IsPartOf ctx) (hconv : ctx.Converts)
    (truncated : Bool) (e : Expr) (h : e.typeIn env = .bool)
    (hfirst : e.Everywhere (·.arrayFirst ctx)) :
    Returns IsTruth
      ((e.coercedWith again env truncated).value.eval .identified calls ctx) := by
  cases e with
  | id n c =>
    have hcell := returns_evalCell_coercedWith hpart calls again truncated
      (everywhere_id.1 hfirst) .identified
    rw [h] at hcell
    exact hcell.bind fun cell htype =>
      returns_isTruth_of_type ((returns_read cell).imp fun v hv => hv.trans htype)
  | literal v c => exact returns_isTruth_of_type (h ▸ returns_literal v .identified c)
  | binary op l r c =>
    have hop := BinaryOp.cases_of_resultType h
    have hdiv : op ≠ .div := by
      rintro rfl
      rcases hop with hop | ⟨-, hop⟩ <;> cases hop
    have hmod : op ≠ .mod := by
      rintro rfl
      rcases hop with hop | ⟨-, hop⟩ <;> cases hop
    simp only [coercedWith, Counted.value_bind]
    rw [value_applyBinary (fun h => hdiv h.1) fun h => hmod h.1]
    exact returns_isTruth_binary hop _ _ c
  | unary op e c =>
    obtain ⟨-, he⟩ := everywhere_unary.1 hfirst
    simp only [coercedWith, Counted.value_bind, Counted.value_pure, coerceOperand_eq]
    rcases UnaryOp.cases_of_resultType h with rfl | ⟨hop, htype⟩
    · simp only [eval, UnaryOp.isMutating, Bool.false_eq_true, if_false]
      exact returns_bind fun v => returns_ofOption_truth
        ⟨(Rules.identified.condition? v).map not, (Option.map_map _ _ _).symm⟩
    · obtain ⟨hself, -⟩ := types_of_isMutating hop (e.typeIn env)
      have hcell := returns_evalCell_coercedWith hpart calls again false
        (everywhere_iff.1 he).1 .identified
      rw [htype] at hcell
      rw [hself, coerce_self]
      exact returns_isTruth_of_type (returns_step hcell hop c)
  | assign op t v c =>
    obtain ⟨-, ht, -⟩ := everywhere_assign.1 hfirst
    have htype : t.typeIn env = .bool := h
    have hcell := returns_evalCell_coercedWith hpart calls again false
      (everywhere_iff.1 ht).1 .identified
    rw [htype] at hcell
    -- Only assignments to integers are written out.
    simp only [coercedWith, Counted.value_bind, htype, isWrittenOut]
    split
    · exact returns_isTruth_of_type (returns_assign hcell op _ c)
    · exact returns_isTruth_of_type (returns_assign hcell op _ c)
  | ternary p t e c =>
    obtain ⟨-, -, ht, he⟩ := everywhere_ternary.1 hfirst
    obtain ⟨httype, hetype⟩ := ScalarType.eq_bool_of_unify h
    have ht' := returns_isTruth_coercedWith hpart hconv false t httype ht
    have he' := returns_isTruth_coercedWith hpart hconv false e hetype he
    simp only [coercedWith, Counted.value_bind, Counted.value_pure, httype, hetype,
      ScalarType.unify_self, coerce_self, eval]
    refine returns_bind fun v => returns_bind fun b => ?_
    cases b with
    | true => exact ht'.bind fun w hw => returns_pure hw
    | false => exact he'.bind fun w hw => returns_pure hw
  | call f args c => exact returns_isTruth_call hpart hconv h _ c
  | cast type e c =>
    obtain rfl : type = .bool := h
    simp only [coercedWith, Counted.value_bind, Counted.value_pure, eval]
    exact returns_bind fun v => returns_pure (isTruth_convert v)
  | index a i c =>
    have hcell := returns_evalCell_coercedWith hpart calls again truncated
      (everywhere_iff.1 hfirst).1 .identified
    rw [h] at hcell
    exact hcell.bind fun cell htype =>
      returns_isTruth_of_type ((returns_read cell).imp fun v hv => hv.trans htype)
  | initList items c => cases h
  | comma items c =>
    simp only [coercedWith, Counted.value_bind, Counted.value_pure, eval]
    exact returns_isTruth_coercedList hpart hconv items h (everywhere_comma.1 hfirst).2

theorem returns_isTruth_coercedList (hpart : env.IsPartOf ctx) (hconv : ctx.Converts)
    (items : List Expr)
    (h : lastTypeIn env items = .bool)
    (hfirst : ∀ e ∈ items, e.Everywhere (·.arrayFirst ctx)) :
    Returns IsTruth
      (evalLast .identified calls ctx (coercedList again env items).value) := by
  match items with
  | [] => cases h
  | [e] => exact returns_isTruth_coercedWith hpart hconv false e h (hfirst e (by simp))
  | _ :: e :: rest =>
    exact returns_bind fun _ => returns_isTruth_coercedList hpart hconv (e :: rest) h
      (List.forall_mem_cons.1 hfirst).2

end

end Expr

end MathKernel
