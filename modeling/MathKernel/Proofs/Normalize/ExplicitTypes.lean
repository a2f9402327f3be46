import MathKernel.Proofs.Normalize.CoercionFixed

/-!
# No conversion is left implicit

A body is explicit if the types that are found for it need no conversion: operands agree with each
other and with their operator, and values with the place they are put in. Converted units are
explicit, since a second conversion counts no change. Sizes of arrays are no code and are not
looked at, and nothing is asked where a type is `void`.

## Main definitions

* `ScalarType.Meets` — a value of one type stands where another is wanted
* `Expr.ExplicitAt`, `Expr.IsExplicit` — a node, and an expression with all below it
* `Stmt.IsExplicit`, `Item.IsExplicit` — bodies and file-level items

## Main results

* `Expr.isExplicit_of_count_eq_zero` — an expression in which a conversion changes nothing
* `SourceUnit.isExplicit_coerced` — converted units
-/

namespace MathKernel

/-- A value of one type stands where another is wanted: the types are equal, unless one of them is
`void`. -/
def ScalarType.Meets (s t : ScalarType) : Prop :=
  s ≠ .void → t ≠ .void → s = t

instance (s t : ScalarType) : Decidable (s.Meets t) :=
  inferInstanceAs (Decidable (_ → _ → _))

/-- The types of operands that need no conversion: truth values for connectives, integers for
bits, equal types for comparisons, and two integers or two floating numbers for arithmetic. -/
def BinaryOp.OperandsAgree (op : BinaryOp) (left right : ScalarType) : Prop :=
  if op.isLogical then left = .bool ∧ right = .bool
  else if op.isBitwise then left = .int ∧ right = .int
  else if op.isComparison then left = right
  else left = right ∧ (left = .int ∨ left = .float)

instance (op : BinaryOp) (left right : ScalarType) : Decidable (op.OperandsAgree left right) :=
  inferInstanceAs (Decidable (if op.isLogical then left = .bool ∧ right = .bool
    else if op.isBitwise then left = .int ∧ right = .int
    else if op.isComparison then left = right
    else left = right ∧ (left = .int ∨ left = .float)))

/-- The type of an operand that needs no conversion: `!` takes a truth value and `~` an integer. -/
def UnaryOp.OperandAgrees (op : UnaryOp) (operand : ScalarType) : Prop :=
  match op with
  | .not => operand.Meets .bool
  | .bitNot => operand.Meets .int
  | _ => True

instance (op : UnaryOp) (operand : ScalarType) : Decidable (op.OperandAgrees operand) :=
  match op with
  | .not | .bitNot => inferInstanceAs (Decidable (ScalarType.Meets _ _))
  | .neg | .plus | .preInc | .preDec | .postInc | .postDec => inferInstanceAs (Decidable True)

namespace Expr

/-- The types of the parts of an expression need no conversion at its node. -/
def ExplicitAt (env : TypeEnv) : Expr → Prop
  | binary op l r _ =>
    l.typeIn env ≠ .void → r.typeIn env ≠ .void →
      op.OperandsAgree (l.typeIn env) (r.typeIn env)
  | unary op e _ => op.OperandAgrees (e.typeIn env)
  | assign _ target value _ => (value.typeIn env).Meets (target.typeIn env)
  | ternary p t e _ => (p.typeIn env).Meets .bool ∧ (t.typeIn env).Meets (e.typeIn env)
  | call f args _ =>
    ∀ arg ∈ args.zipIdx, ∀ t ∈ (env.signature? f).bind (·.param? arg.2),
      (arg.1.typeIn env).Meets t
  | index _ i _ => (i.typeIn env).Meets .int
  | _ => True

instance (env : TypeEnv) : (e : Expr) → Decidable (e.ExplicitAt env)
  | binary .. => inferInstanceAs (Decidable (_ → _ → _))
  | unary .. => inferInstanceAs (Decidable (UnaryOp.OperandAgrees _ _))
  | assign .. | index .. => inferInstanceAs (Decidable (ScalarType.Meets _ _))
  | ternary .. => inferInstanceAs (Decidable (_ ∧ _))
  | call .. => inferInstanceAs (Decidable (∀ arg ∈ _, ∀ t ∈ _, _))
  | id .. | literal .. | cast .. | initList .. | comma .. => inferInstanceAs (Decidable True)

/-- No conversion is missing in an expression. -/
def IsExplicit (env : TypeEnv) (e : Expr) : Prop :=
  e.Everywhere (ExplicitAt env)

/-- No conversion is missing in an expression that is to be of the given type. -/
def IsExplicitAs (env : TypeEnv) (target : ScalarType) (e : Expr) : Prop :=
  e.IsExplicit env ∧ (e.typeIn env).Meets target

end Expr

/-- No conversion is missing in an initializer: an item of a list, or the value of what is no
array, is of the declared type. -/
def Decl.IsExplicit (env : TypeEnv) (d : Decl) : Prop :=
  match d.init with
  | none => True
  | some (.initList items _) => ∀ e ∈ items, e.IsExplicitAs env d.scalar
  | some e => if d.isArray then e.IsExplicit env else e.IsExplicitAs env d.scalar

/-- No conversion is missing in declarations, each seeing those before it. -/
def Decl.AreExplicit : TypeEnv → List Decl → Prop
  | _, [] => True
  | env, d :: rest => d.IsExplicit env ∧ Decl.AreExplicit (env.declare d) rest

/-- No conversion is missing in an initializer clause. -/
def ForInit.IsExplicit (env : TypeEnv) : Option ForInit → Prop
  | none => True
  | some (.decls ds) => Decl.AreExplicit env ds
  | some (.expr e) => e.IsExplicit env

/-- The environment after an initializer clause. -/
def ForInit.declared (env : TypeEnv) : Option ForInit → TypeEnv
  | some (.decls ds) => ds.foldl TypeEnv.declare env
  | _ => env

namespace Stmt

/-- The environment after a statement. -/
def declared (env : TypeEnv) : Stmt → TypeEnv
  | decl d _ => env.declare d
  | ifThen _ t _ => t.declared env
  | ifElse _ t e _ => e.declared (t.declared env)
  | whileLoop _ body _ | doWhile _ body _ => body.declared env
  | label _ s _ => s.declared env
  | _ => env

mutual

/-- No conversion is missing in a statement of a function with the given result: conditions are
truth values, and what is returned is of the type of the result. -/
def IsExplicit (result : ScalarType) : TypeEnv → Stmt → Prop
  | env, decl d _ => d.IsExplicit env
  | env, block items _ _ => AreExplicit result env items
  | env, expr e _ => e.IsExplicit env
  | env, ifThen p t _ => p.IsExplicitAs env .bool ∧ t.IsExplicit result env
  | env, ifElse p t e _ =>
    p.IsExplicitAs env .bool ∧ t.IsExplicit result env ∧ e.IsExplicit result (t.declared env)
  | env, forLoop init cond next body _ =>
    let inner := ForInit.declared env init
    ForInit.IsExplicit env init ∧ (∀ e ∈ cond, e.IsExplicitAs inner .bool) ∧
      (∀ e ∈ next, e.IsExplicit inner) ∧ body.IsExplicit result inner
  | env, whileLoop p body _ => p.IsExplicitAs env .bool ∧ body.IsExplicit result env
  | env, doWhile p body _ => p.IsExplicitAs env .bool ∧ body.IsExplicit result env
  | env, ret value _ => ∀ e ∈ value, e.IsExplicitAs env result
  | env, label _ s _ => s.IsExplicit result env
  | _, brk _ | _, cont _ | _, goto .. | _, empty _ => True

/-- No conversion is missing in statements in order. -/
def AreExplicit (result : ScalarType) : TypeEnv → List Stmt → Prop
  | _, [] => True
  | env, s :: rest => s.IsExplicit result env ∧ AreExplicit result (s.declared env) rest

end

end Stmt

/-- No conversion is missing in the initializer of a variable or the body of a function. -/
def Item.IsExplicit (env : TypeEnv) : Item → Prop
  | .decl d => d.isFunction = false → d.IsExplicit env
  | .func f => Stmt.AreExplicit f.returnType (f.bodyEnv env) f.body.items

/-! ### Expressions -/

namespace Expr

variable {env : TypeEnv} {again : Expr → Counted Expr}

/-- A conversion is counted exactly if it is needed. -/
theorem count_coerce_eq_zero {s t : ScalarType} {e : Expr} :
    (e.coerce s t).count = 0 ↔ s.Meets t := by
  unfold coerce ScalarType.Meets
  split_ifs with hnone hfloat
  · simp only [Counted.count_pure, true_iff]
    rintro hs ht
    exact hnone.resolve_right (not_or_intro hs ht)
  all_goals
    simp only [Counted.count_change, one_ne_zero, false_iff]
    intro hmeets
    obtain ⟨hne, hvoid⟩ := not_or.1 hnone
    obtain ⟨hs, ht⟩ := not_or.1 hvoid
    exact hne (hmeets hs ht)

theorem count_coerceArg_eq_zero {s : ScalarType} {target : Option ScalarType} {e : Expr}
    (h : (e.coerceArg s target).count = 0) : ∀ t ∈ target, s.Meets t := by
  rintro t rfl
  exact count_coerce_eq_zero.1 h

/-- Operands that meet their common type agree with the operator. -/
theorem operandsAgree_of_meets {op : BinaryOp} {s t : ScalarType} (hs : s ≠ .void)
    (ht : t ≠ .void) (hleft : s.Meets (operandType op s t))
    (hright : t.Meets (operandType op s t)) : op.OperandsAgree s t := by
  have hcommon := (operandType_self op hs ht).1
  have hleft := hleft hs hcommon
  have hright := hright ht hcommon
  cases op <;> cases s <;> cases t <;> first | contradiction | decide

/-- Two types that meet their common type meet each other. -/
theorem meets_of_unify {s t : ScalarType} (hleft : s.Meets (.unify s t))
    (hright : t.Meets (.unify s t)) : s.Meets t := by
  intro hs ht
  have hcommon := ScalarType.unify_ne_void hs ht
  exact (hleft hs hcommon).trans (hright ht hcommon).symm

mutual

/-- An expression in which a conversion changes nothing is explicit. The types are those of the
expression itself, so only what is counted matters. -/
theorem isExplicit_of_count_eq_zero (truncated : Bool) (e : Expr)
    (h : (e.coercedWith again env truncated).count = 0) : e.IsExplicit env := by
  cases e with
  | id n c => exact everywhere_id.2 trivial
  | literal v c => exact everywhere_literal.2 trivial
  | binary op l r c =>
    simp only [coercedWith, Counted.count_bind, Nat.add_eq_zero_iff] at h
    obtain ⟨hl, hr, hleft, hright, -⟩ := h
    refine everywhere_binary.2 ⟨fun hs ht => ?_, isExplicit_of_count_eq_zero false l hl,
      isExplicit_of_count_eq_zero false r hr⟩
    exact operandsAgree_of_meets hs ht (count_coerce_eq_zero.1 hleft)
      (count_coerce_eq_zero.1 hright)
  | unary op e c =>
    simp only [coercedWith, Counted.count_bind, Nat.add_eq_zero_iff] at h
    obtain ⟨he, hoperand, -⟩ := h
    refine everywhere_unary.2 ⟨?_, isExplicit_of_count_eq_zero false e he⟩
    cases op with
    | not => exact count_coerce_eq_zero.1 hoperand
    | bitNot => exact count_coerce_eq_zero.1 hoperand
    | _ => trivial
  | assign op t v c =>
    simp only [coercedWith, Counted.count_bind, Nat.add_eq_zero_iff] at h
    obtain ⟨ht, hv, hvalue⟩ := h
    have hmeets : (v.typeIn env).Meets (t.typeIn env) := by
      split at hvalue
      · -- An assignment that is written out is itself counted.
        split_ifs at hvalue
        · simp only [Counted.count_bind, Nat.add_eq_zero_iff, Counted.count_change] at hvalue
          cases hvalue.2.2
        · exact count_coerce_eq_zero.1 (Nat.add_eq_zero_iff.1 hvalue).1
      · exact count_coerce_eq_zero.1 (Nat.add_eq_zero_iff.1 hvalue).1
    exact everywhere_assign.2 ⟨hmeets, isExplicit_of_count_eq_zero false t ht,
      isExplicit_of_count_eq_zero false v hv⟩
  | ternary p t e c =>
    simp only [coercedWith, Counted.count_bind, Nat.add_eq_zero_iff] at h
    obtain ⟨hp, hcond, ht, he, htrue, hfalse, -⟩ := h
    refine everywhere_ternary.2 ⟨⟨count_coerce_eq_zero.1 hcond, ?_⟩,
      isExplicit_of_count_eq_zero false p hp, isExplicit_of_count_eq_zero false t ht,
      isExplicit_of_count_eq_zero false e he⟩
    exact meets_of_unify (count_coerce_eq_zero.1 htrue) (count_coerce_eq_zero.1 hfalse)
  | call f args c =>
    simp only [coercedWith, Counted.count_bind, Nat.add_eq_zero_iff] at h
    obtain ⟨hmeets, hargs⟩ := isExplicit_of_count_args _ _ 0 args h.1
    exact everywhere_call.2 ⟨hmeets, hargs⟩
  | cast type e c =>
    simp only [coercedWith, Counted.count_bind, Nat.add_eq_zero_iff] at h
    exact everywhere_cast.2 ⟨trivial, isExplicit_of_count_eq_zero false e h.1⟩
  | index a i c =>
    simp only [coercedWith, Counted.count_bind, Nat.add_eq_zero_iff] at h
    obtain ⟨ha, hi, hindex, -⟩ := h
    exact everywhere_index.2 ⟨count_coerce_eq_zero.1 hindex,
      isExplicit_of_count_eq_zero false a ha, isExplicit_of_count_eq_zero false i hi⟩
  | initList items c =>
    simp only [coercedWith, Counted.count_bind, Nat.add_eq_zero_iff] at h
    exact everywhere_initList.2 ⟨trivial, isExplicit_of_count_list items h.1⟩
  | comma items c =>
    simp only [coercedWith, Counted.count_bind, Nat.add_eq_zero_iff] at h
    exact everywhere_comma.2 ⟨trivial, isExplicit_of_count_list items h.1⟩

theorem isExplicit_of_count_args (truncates : Bool) (signature : Option Signature) (i : Nat)
    (args : List Expr) (h : (coercedArgs again env truncates signature i args).count = 0) :
    (∀ arg ∈ args.zipIdx i, ∀ t ∈ signature.bind (·.param? arg.2),
      (arg.1.typeIn env).Meets t) ∧ ∀ e ∈ args, e.IsExplicit env := by
  cases args with
  | nil => exact ⟨List.forall_mem_nil _, List.forall_mem_nil _⟩
  | cons e rest =>
    simp only [coercedArgs, Counted.count_bind, Nat.add_eq_zero_iff] at h
    obtain ⟨he, harg, hrest, -⟩ := h
    obtain ⟨hmeets, hall⟩ := isExplicit_of_count_args truncates signature (i + 1) rest hrest
    rw [List.zipIdx_cons]
    exact ⟨List.forall_mem_cons.2 ⟨count_coerceArg_eq_zero harg, hmeets⟩,
      List.forall_mem_cons.2 ⟨isExplicit_of_count_eq_zero _ e he, hall⟩⟩

theorem isExplicit_of_count_list (items : List Expr)
    (h : (coercedList again env items).count = 0) : ∀ e ∈ items, e.IsExplicit env := by
  cases items with
  | nil => exact List.forall_mem_nil _
  | cons e rest =>
    simp only [coercedList, Counted.count_bind, Nat.add_eq_zero_iff] at h
    exact List.forall_mem_cons.2
      ⟨isExplicit_of_count_eq_zero false e h.1, isExplicit_of_count_list rest h.2.1⟩

end

theorem isExplicit_of_coerced {e : Expr} (h : (e.coerced env).count = 0) : e.IsExplicit env := by
  obtain ⟨again, -, heq⟩ := coerced_eq env e
  rw [heq] at h
  exact isExplicit_of_count_eq_zero false e h

theorem isExplicitAs_of_coercedAs {target : ScalarType} {e : Expr}
    (h : (e.coercedAs env target).count = 0) : e.IsExplicitAs env target := by
  rw [coercedAs, Counted.count_bind, Nat.add_eq_zero_iff] at h
  exact ⟨isExplicit_of_coerced h.1, count_coerce_eq_zero.1 h.2⟩

theorem isExplicitAs_of_coercedItems {target : ScalarType} {items : List Expr}
    (h : (coercedItems env target items).count = 0) : ∀ e ∈ items, e.IsExplicitAs env target := by
  induction items with
  | nil => exact List.forall_mem_nil _
  | cons e rest ih =>
    simp only [coercedItems, Counted.count_bind, Nat.add_eq_zero_iff] at h
    exact List.forall_mem_cons.2 ⟨isExplicitAs_of_coercedAs h.1, ih h.2.1⟩

end Expr

theorem isExplicitAs_of_mapOptionM {env : TypeEnv} {target : ScalarType} {value : Option Expr}
    (h : (mapOptionM (Expr.coercedAs env target) value).count = 0) :
    ∀ e ∈ value, e.IsExplicitAs env target := by
  rintro e rfl
  exact Expr.isExplicitAs_of_coercedAs (Nat.add_eq_zero_iff.1 h).1

theorem isExplicit_of_mapOptionM {env : TypeEnv} {value : Option Expr}
    (h : (mapOptionM (Expr.coerced env) value).count = 0) : ∀ e ∈ value, e.IsExplicit env := by
  rintro e rfl
  exact Expr.isExplicit_of_coerced (Nat.add_eq_zero_iff.1 h).1

/-! ### Bodies -/

theorem Decl.isExplicit_of_count {env : TypeEnv} {d : Decl} (h : (d.coerced env).count = 0) :
    d.IsExplicit env := by
  replace h : (d.coercedInit env).count = 0 := (Nat.add_eq_zero_iff.1 h).1
  unfold coercedInit at h
  unfold IsExplicit
  split at h
  · next items c hinit =>
    rw [hinit]
    exact Expr.isExplicitAs_of_coercedItems (Nat.add_eq_zero_iff.1 h).1
  · next e hlist hinit =>
    rw [hinit]
    split at h
    · next harray =>
      have he := Expr.isExplicit_of_coerced (Nat.add_eq_zero_iff.1 h).1
      cases e with
      | initList items c => exact absurd rfl (hlist items c)
      | _ => exact (if_pos harray).mpr he
    · next harray =>
      have he := Expr.isExplicitAs_of_coercedAs (Nat.add_eq_zero_iff.1 h).1
      cases e with
      | initList items c => exact absurd rfl (hlist items c)
      | _ => exact (if_neg harray).mpr he
  · next hinit =>
    rw [hinit]
    trivial

theorem Decl.areExplicit_of_count {env : TypeEnv} {ds : List Decl}
    (h : (Decl.coercedList env ds).count = 0) : Decl.AreExplicit env ds := by
  induction ds generalizing env with
  | nil => trivial
  | cons d rest ih =>
    simp only [Decl.coercedList, Counted.count_bind, Nat.add_eq_zero_iff] at h
    exact ⟨Decl.isExplicit_of_count h.1, ih h.2.1⟩

theorem Decl.env_coercedList (env : TypeEnv) (ds : List Decl) :
    (Decl.coercedList env ds).value.2 = ds.foldl TypeEnv.declare env := by
  induction ds generalizing env with
  | nil => rfl
  | cons d rest ih => exact ih (env.declare d)

theorem ForInit.env_coerced (env : TypeEnv) (init : Option ForInit) :
    (ForInit.coerced env init).value.2 = ForInit.declared env init := by
  cases init with
  | none => rfl
  | some init =>
    cases init with
    | decls ds => exact Decl.env_coercedList env ds
    | expr e => rfl

theorem ForInit.isExplicit_of_count {env : TypeEnv} {init : Option ForInit}
    (h : (ForInit.coerced env init).count = 0) : ForInit.IsExplicit env init := by
  cases init with
  | none => trivial
  | some init =>
    cases init with
    | decls ds => exact Decl.areExplicit_of_count (Nat.add_eq_zero_iff.1 h).1
    | expr e => exact Expr.isExplicit_of_coerced (Nat.add_eq_zero_iff.1 h).1

namespace Stmt

theorem env_coerced (result : ScalarType) (env : TypeEnv) (s : Stmt) :
    (Stmt.coerced result env s).value.2 = s.declared env := by
  cases s with
  | ifThen p t c => exact env_coerced result env t
  | ifElse p t e c =>
    change (Stmt.coerced result (Stmt.coerced result env t).value.2 e).value.2 = _
    rw [env_coerced result env t]
    exact env_coerced result (t.declared env) e
  | whileLoop p body c | doWhile p body c => exact env_coerced result env body
  | label n s c => exact env_coerced result env s
  | _ => rfl

mutual

/-- A statement in which a conversion changes nothing is explicit. -/
theorem isExplicit_of_count (result : ScalarType) (env : TypeEnv) (s : Stmt)
    (h : (Stmt.coerced result env s).count = 0) : s.IsExplicit result env := by
  cases s with
  | decl d c => exact Decl.isExplicit_of_count (Nat.add_eq_zero_iff.1 h).1
  | block items b c => exact areExplicit_of_count result env items (Nat.add_eq_zero_iff.1 h).1
  | expr e c => exact Expr.isExplicit_of_coerced (Nat.add_eq_zero_iff.1 h).1
  | ifThen p t c =>
    simp only [Stmt.coerced, Counted.count_bind, Nat.add_eq_zero_iff] at h
    exact ⟨Expr.isExplicitAs_of_coercedAs h.1, isExplicit_of_count result env t h.2.1⟩
  | ifElse p t e c =>
    simp only [Stmt.coerced, Counted.count_bind, Nat.add_eq_zero_iff, env_coerced] at h
    exact ⟨Expr.isExplicitAs_of_coercedAs h.1, isExplicit_of_count result env t h.2.1,
      isExplicit_of_count result _ e h.2.2.1⟩
  | forLoop init cond next body c =>
    simp only [Stmt.coerced, Counted.count_bind, Nat.add_eq_zero_iff, ForInit.env_coerced] at h
    exact ⟨ForInit.isExplicit_of_count h.1, isExplicitAs_of_mapOptionM h.2.1,
      isExplicit_of_mapOptionM h.2.2.1, isExplicit_of_count result _ body h.2.2.2.1⟩
  | whileLoop p body c | doWhile p body c =>
    simp only [Stmt.coerced, Counted.count_bind, Nat.add_eq_zero_iff] at h
    exact ⟨Expr.isExplicitAs_of_coercedAs h.1, isExplicit_of_count result env body h.2.1⟩
  | ret value c => exact isExplicitAs_of_mapOptionM (Nat.add_eq_zero_iff.1 h).1
  | label n s c => exact isExplicit_of_count result env s (Nat.add_eq_zero_iff.1 h).1
  | _ => trivial

theorem areExplicit_of_count (result : ScalarType) (env : TypeEnv) (items : List Stmt)
    (h : (Stmt.coercedList result env items).count = 0) : AreExplicit result env items := by
  cases items with
  | nil => trivial
  | cons s rest =>
    simp only [Stmt.coercedList, Counted.count_bind, Nat.add_eq_zero_iff, env_coerced] at h
    exact ⟨isExplicit_of_count result env s h.1, areExplicit_of_count result _ rest h.2.1⟩

end

end Stmt

/-! ### Units -/

theorem Item.isExplicit_of_count {env : TypeEnv} {item : Item}
    (h : (item.coerced env).count = 0) : item.IsExplicit env := by
  cases item with
  | decl d =>
    intro hfunction
    rw [Item.coerced, if_neg (by rw [hfunction]; decide)] at h
    exact Decl.isExplicit_of_count (Nat.add_eq_zero_iff.1 h).1
  | func f => exact Stmt.areExplicit_of_count _ _ _ (Nat.add_eq_zero_iff.1 h).1

/-- In a converted unit that declares no function named like a conversion, types found again by
what the unit declares, which is what it declared before, leave no conversion missing. -/
theorem SourceUnit.isExplicit_coerced {u : SourceUnit} (h : u.keepsConversions) :
    TypeEnv.ofUnit u.coerced.1 = TypeEnv.ofUnit u ∧
      ∀ item ∈ u.coerced.1.items, item.IsExplicit (TypeEnv.ofUnit u) := by
  refine ⟨TypeEnv.ofUnit_coerced u, fun item hitem => Item.isExplicit_of_count ?_⟩
  have hconv : (TypeEnv.ofUnit u).Converts := by
    rw [← SourceUnit.typeEnv_context]
    exact (SourceUnit.converts_context h).typeEnv
  rw [SourceUnit.items_coerced] at hitem
  obtain ⟨item, -, rfl⟩ := List.mem_map.1 hitem
  rw [Item.coerced_coerced hconv]
  rfl

theorem isExplicit_coerced_scaledSum :
    scaledSumUnit.keepsConversions ∧ scaledSumUnit.coerced.2.isNoop = false ∧
      ∀ item ∈ scaledSumUnit.coerced.1.items, item.IsExplicit (TypeEnv.ofUnit scaledSumUnit) := by
  have hnames : scaledSumUnit.keepsConversions := by decide
  exact ⟨hnames, by decide +kernel, (SourceUnit.isExplicit_coerced hnames).2⟩

/-! ### Outside the conditions

The conversion looks neither at the sizes of arrays nor below a list inside a list, and `void` is
converted to nothing. -/

/-- `int f(int n) { float a[(int) (n * 1.5)]; return n; }` -/
def scaledLength : SourceUnit :=
  ⟨[intFunction [.ofScalar "n" .int none] [
    .decl { Decl.ofArray "a" .float none none with
      type := .array (.element (.ofScalar (some "a") .float)) (some (.cast .int
        (.binary .mul (.id "n" none) (.float "1.5" none) none) none)) none } none,
    .ret (some (.id "n" none)) none]], none⟩

/-- `void f(void) { return 1; }` -/
def valueOfNothing : SourceUnit :=
  ⟨[.func ⟨.prototype "f" .void [], ⟨[.ret (some (.int 1 none)) none], none⟩, none⟩], none⟩

/-- The items of an initializer list. -/
def Expr.listItems : Expr → List Expr
  | initList items _ => items
  | _ => []

theorem not_explicit_coerced_outside :
    (scaledLength.keepsConversions ∧ ∃ f ∈ scaledLength.coerced.1.funcs, ∃ e ∈ f.body.exprs,
      ¬ e.ExplicitAt (f.bodyEnv (TypeEnv.ofUnit scaledLength))) ∧
    (valueOfNothing.keepsConversions ∧ ∃ f ∈ valueOfNothing.coerced.1.funcs,
      ∃ s ∈ f.body.stmts, s.isReturn = true ∧ ∃ e ∈ s.ownExprs,
        e.typeIn (f.bodyEnv (TypeEnv.ofUnit valueOfNothing)) ≠ .void ∧
        e.typeIn (f.bodyEnv (TypeEnv.ofUnit valueOfNothing)) ≠ f.returnType) ∧
    (nestedBraces.keepsConversions ∧ ∃ f ∈ nestedBraces.coerced.1.funcs, ∃ d ∈ f.body.decls,
      ∃ e ∈ d.exprs, ∃ item ∈ e.listItems,
        item.typeIn (f.bodyEnv (TypeEnv.ofUnit nestedBraces)) ≠ d.scalar) := by
  decide +kernel

end MathKernel
