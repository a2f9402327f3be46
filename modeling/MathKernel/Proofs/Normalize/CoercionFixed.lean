import MathKernel.Proofs.Normalize.CoercedRuns
import MathKernel.Proofs.Normalize.Unchanged

/-!
# Conversions are made once

Conversions that are written out are found in place by a second conversion, which changes and
counts nothing. That the value stays follows from the types of converted expressions; that nothing
is counted follows from the value, since whatever is counted makes an expression weigh more.

## Main definitions

* `Expr.weight` — nodes, of which those that conversions make count twice

## Main results

* `Expr.weight_coercedWith` — each counted change adds weight
* `Expr.coerced_coerced`, `Expr.coercedAs_coercedAs` — converted expressions
* `Stmt.coerced_coerced` — converted statements
* `SourceUnit.coerced_coerced` — converted units
-/

namespace MathKernel

namespace Counted

theorem eq_pure {α : Type} {x : Counted α} {a : α} (hvalue : x.value = a) (hcount : x.count = 0) :
    x = pure a := by
  cases x
  cases hvalue
  cases hcount
  rfl

end Counted

/-! ### Weights -/

namespace Expr

/-- Calls and floating literals, which conversions make, weigh more than other nodes. -/
def nodeWeight : Expr → Nat
  | call .. | literal ⟨.float, _⟩ _ => 2
  | _ => 1

/-- The weight of all nodes of an expression. -/
def weight (e : Expr) : Nat :=
  (e.subexprs.map nodeWeight).sum

theorem weight_eq (e : Expr) : e.weight = e.nodeWeight + (e.parts.map weight).sum := by
  rw [weight, subexprs_eq, List.map_cons, List.sum_cons, List.map_flatMap, List.flatMap,
    List.sum_flatten, List.map_map]
  rfl

@[simp] theorem weight_id (n : String) (c : Coord) : (id n c).weight = 1 := rfl

@[simp] theorem weight_binary (op : BinaryOp) (l r : Expr) (c : Coord) :
    (binary op l r c).weight = 1 + (l.weight + r.weight) := by
  rw [weight_eq]
  rfl

@[simp] theorem weight_unary (op : UnaryOp) (e : Expr) (c : Coord) :
    (unary op e c).weight = 1 + e.weight := by
  rw [weight_eq]
  rfl

@[simp] theorem weight_assign (op : AssignOp) (t v : Expr) (c : Coord) :
    (assign op t v c).weight = 1 + (t.weight + v.weight) := by
  rw [weight_eq]
  rfl

@[simp] theorem weight_ternary (p t e : Expr) (c : Coord) :
    (ternary p t e c).weight = 1 + (p.weight + (t.weight + e.weight)) := by
  rw [weight_eq]
  rfl

@[simp] theorem weight_call (f : String) (args : List Expr) (c : Coord) :
    (call f args c).weight = 2 + (args.map weight).sum := by
  rw [weight_eq]
  rfl

@[simp] theorem weight_cast (t : ScalarType) (e : Expr) (c : Coord) :
    (cast t e c).weight = 1 + e.weight := by
  rw [weight_eq]
  rfl

@[simp] theorem weight_index (a i : Expr) (c : Coord) :
    (index a i c).weight = 1 + (a.weight + i.weight) := by
  rw [weight_eq]
  rfl

@[simp] theorem weight_initList (items : List Expr) (c : Coord) :
    (initList items c).weight = 1 + (items.map weight).sum := by
  rw [weight_eq]
  rfl

@[simp] theorem weight_comma (items : List Expr) (c : Coord) :
    (comma items c).weight = 1 + (items.map weight).sum := by
  rw [weight_eq]
  rfl

theorem weight_toFloatLiteral? {e e' : Expr} (h : e.toFloatLiteral? = some e') :
    e'.weight = e.weight + 1 := by
  fun_induction toFloatLiteral? e generalizing e' with
  | case1 text c =>
    obtain ⟨n, -, rfl⟩ := Option.map_eq_some_iff.1 h
    rfl
  | case2 operand c ih =>
    obtain ⟨operand', hoperand, rfl⟩ := Option.map_eq_some_iff.1 h
    rw [weight_unary, weight_unary, ih hoperand]
    omega
  | case3 => cases h

theorem weight_coerce (s t : ScalarType) (e : Expr) :
    e.weight + (e.coerce s t).count ≤ (e.coerce s t).value.weight := by
  have hcall : e.weight + 1 ≤ (call t.cName [e] e.coord).weight := by
    simp only [weight_call, List.map_singleton, List.sum_singleton]
    omega
  unfold coerce
  split_ifs
  · exact le_rfl
  · cases hliteral : e.toFloatLiteral? with
    | none => exact hcall
    | some literal => exact (weight_toFloatLiteral? hliteral).ge
  · exact hcall

theorem weight_coerceArg (s : ScalarType) (t : Option ScalarType) (e : Expr) :
    e.weight + (e.coerceArg s t).count ≤ (e.coerceArg s t).value.weight := by
  cases t with
  | none => exact le_rfl
  | some t => exact weight_coerce s t e

theorem weight_applyBinary (op : BinaryOp) (common : ScalarType) (truncated : Bool) (l r : Expr)
    (c : Coord) :
    1 + (l.weight + r.weight) + (applyBinary op common truncated l r c).count ≤
      (applyBinary op common truncated l r c).value.weight := by
  -- Only a wrapped quotient and a called remainder count a change, each of weight one.
  unfold applyBinary
  split
  · split_ifs
    · simp only [Counted.count_pure, Counted.value_pure, weight_binary, Nat.add_zero, le_refl]
    · simp only [Counted.count_change, Counted.value_change, weight_call, weight_binary,
        List.map_cons, List.map_nil, List.sum_cons, List.sum_nil]
      omega
  · simp only [Counted.count_change, Counted.value_change, weight_call, List.map_cons,
      List.map_nil, List.sum_cons, List.sum_nil]
    omega
  · simp only [Counted.count_pure, Counted.value_pure, weight_binary, Nat.add_zero, le_refl]

variable {env : TypeEnv} {again : Expr → Counted Expr}

/-- A value that is written out weighs more than the target and the value that it is made of. -/
theorem weight_writtenOut (hagain : ∀ e, e.weight + (again e).count ≤ (again e).value.weight)
    (env : TypeEnv) (op : BinaryOp) (t v : Expr) (c : Coord) :
    let combined := binary op t v c
    let converted := (again combined).value.coerce (combined.typeIn env) .int
    1 + (t.weight + v.weight) + (again combined).count + converted.count ≤
      converted.value.weight := by
  intro combined converted
  have hcombined : 1 + (t.weight + v.weight) + (again combined).count ≤
      (again combined).value.weight := weight_binary op t v c ▸ hagain combined
  have hconverted : (again combined).value.weight + converted.count ≤ converted.value.weight :=
    weight_coerce (combined.typeIn env) .int (again combined).value
  omega

mutual

/-- Each counted change adds weight. -/
theorem weight_coercedWith (hagain : ∀ e, e.weight + (again e).count ≤ (again e).value.weight)
    (truncated : Bool) (e : Expr) :
    e.weight + (e.coercedWith again env truncated).count ≤
      (e.coercedWith again env truncated).value.weight := by
  cases e with
  | id n c | literal v c => exact le_rfl
  | binary op l r c =>
    have hl := weight_coercedWith hagain false l
    have hr := weight_coercedWith hagain false r
    have hl' := weight_coerce (l.typeIn env) (operandType op (l.typeIn env) (r.typeIn env))
      (l.coercedWith again env false).value
    have hr' := weight_coerce (r.typeIn env) (operandType op (l.typeIn env) (r.typeIn env))
      (r.coercedWith again env false).value
    have happly := weight_applyBinary op (operandType op (l.typeIn env) (r.typeIn env)) truncated
      ((l.coercedWith again env false).value.coerce (l.typeIn env)
        (operandType op (l.typeIn env) (r.typeIn env))).value
      ((r.coercedWith again env false).value.coerce (r.typeIn env)
        (operandType op (l.typeIn env) (r.typeIn env))).value c
    simp only [coercedWith, Counted.count_bind, Counted.value_bind, weight_binary]
    omega
  | unary op e c =>
    have he := weight_coercedWith hagain false e
    have he' := weight_coerce (e.typeIn env) (op.operandType (e.typeIn env))
      (e.coercedWith again env false).value
    simp only [coercedWith, Counted.count_bind, Counted.value_bind, Counted.count_pure,
      Counted.value_pure, coerceOperand_eq, weight_unary]
    omega
  | assign op t v c =>
    have ht := weight_coercedWith hagain false t
    have hv := weight_coercedWith hagain false v
    have hv' := weight_coerce (v.typeIn env) (t.typeIn env) (v.coercedWith again env false).value
    simp only [coercedWith, Counted.count_bind, Counted.value_bind]
    split
    · next b hb =>
      split_ifs
      · -- What is written out has the target twice, which pays for the change counted here.
        have hout := weight_writtenOut hagain env b (t.coercedWith again env false).value
          (v.coercedWith again env false).value none
        simp only [Counted.count_bind, Counted.value_bind, Counted.count_change,
          Counted.value_change, weight_assign]
        omega
      · simp only [Counted.count_bind, Counted.value_bind, Counted.count_pure, Counted.value_pure,
          weight_assign]
        omega
    · simp only [Counted.count_bind, Counted.value_bind, Counted.count_pure, Counted.value_pure,
        weight_assign]
      omega
  | ternary p t e c =>
    have hp := weight_coercedWith hagain false p
    have ht := weight_coercedWith hagain false t
    have he := weight_coercedWith hagain false e
    have hp' := weight_coerce (p.typeIn env) .bool (p.coercedWith again env false).value
    have ht' := weight_coerce (t.typeIn env) (.unify (t.typeIn env) (e.typeIn env))
      (t.coercedWith again env false).value
    have he' := weight_coerce (e.typeIn env) (.unify (t.typeIn env) (e.typeIn env))
      (e.coercedWith again env false).value
    simp only [coercedWith, Counted.count_bind, Counted.value_bind, Counted.count_pure,
      Counted.value_pure, weight_ternary]
    omega
  | call f args c =>
    have hargs := weight_coercedArgs hagain (f == ScalarType.int.cName) (env.signature? f) 0 args
    simp only [coercedWith, Counted.count_bind, Counted.value_bind, Counted.count_pure,
      Counted.value_pure, weight_call]
    omega
  | cast type e c =>
    have he := weight_coercedWith hagain false e
    simp only [coercedWith, Counted.count_bind, Counted.value_bind, Counted.count_pure,
      Counted.value_pure, weight_cast]
    omega
  | index a i c =>
    have ha := weight_coercedWith hagain false a
    have hi := weight_coercedWith hagain false i
    have hi' := weight_coerce (i.typeIn env) .int (i.coercedWith again env false).value
    simp only [coercedWith, Counted.count_bind, Counted.value_bind, Counted.count_pure,
      Counted.value_pure, weight_index]
    omega
  | initList items c =>
    have hitems := weight_coercedList hagain items
    simp only [coercedWith, Counted.count_bind, Counted.value_bind, Counted.count_pure,
      Counted.value_pure, weight_initList]
    omega
  | comma items c =>
    have hitems := weight_coercedList hagain items
    simp only [coercedWith, Counted.count_bind, Counted.value_bind, Counted.count_pure,
      Counted.value_pure, weight_comma]
    omega

theorem weight_coercedArgs (hagain : ∀ e, e.weight + (again e).count ≤ (again e).value.weight)
    (truncates : Bool) (signature : Option Signature) (i : Nat) (args : List Expr) :
    (args.map weight).sum + (coercedArgs again env truncates signature i args).count ≤
      ((coercedArgs again env truncates signature i args).value.map weight).sum := by
  cases args with
  | nil => exact le_rfl
  | cons e rest =>
    have he := weight_coercedWith hagain (truncates && i == 0) e
    have he' := weight_coerceArg (e.typeIn env) (signature.bind (·.param? i))
      (e.coercedWith again env (truncates && i == 0)).value
    have hrest := weight_coercedArgs hagain truncates signature (i + 1) rest
    simp only [coercedArgs, Counted.count_bind, Counted.value_bind, Counted.count_pure,
      Counted.value_pure, List.map_cons, List.sum_cons]
    omega

theorem weight_coercedList (hagain : ∀ e, e.weight + (again e).count ≤ (again e).value.weight)
    (items : List Expr) :
    (items.map weight).sum + (coercedList again env items).count ≤
      ((coercedList again env items).value.map weight).sum := by
  cases items with
  | nil => exact le_rfl
  | cons e rest =>
    have he := weight_coercedWith hagain false e
    have hrest := weight_coercedList hagain rest
    simp only [coercedList, Counted.count_bind, Counted.value_bind, Counted.count_pure,
      Counted.value_pure, List.map_cons, List.sum_cons]
    omega

end

theorem weight_coercedTo (env : TypeEnv) (depth : Nat) (e : Expr) :
    e.weight + (e.coercedTo env depth).count ≤ (e.coercedTo env depth).value.weight := by
  induction depth generalizing e with
  | zero => exact weight_coercedWith (fun _ => le_rfl) false e
  | succ depth ih => exact weight_coercedWith ih false e

/-! ### Expressions -/

/-- A stable expression is left alone, and no change is counted. -/
theorem Stable.coerced_eq {e : Expr} (h : e.Stable env) : e.coerced env = pure e := by
  obtain ⟨again, -, heq⟩ := Expr.coerced_eq env e
  have hvalue : (e.coerced env).value = e := by
    rw [heq]
    exact h false again
  have hweight := weight_coercedTo env e.compoundAssigns e
  change _ + (e.coerced env).count ≤ (e.coerced env).value.weight at hweight
  rw [hvalue] at hweight
  exact Counted.eq_pure hvalue (by omega)

theorem stable_coerced (hconv : env.Converts) (e : Expr) :
    (e.coerced env).value.typeIn env = e.typeIn env ∧ (e.coerced env).value.Stable env := by
  obtain ⟨again, hagain, heq⟩ := Expr.coerced_eq env e
  have hkept := kept_coercedWith hconv hagain false e
  rw [heq]
  exact ⟨hkept.type, hkept.stable⟩

theorem coerced_coerced (hconv : env.Converts) (e : Expr) :
    (e.coerced env).value.coerced env = pure (e.coerced env).value :=
  (stable_coerced hconv e).2.coerced_eq

theorem coercedAs_coercedAs (hconv : env.Converts) (target : ScalarType) (e : Expr) :
    (e.coercedAs env target).value.coercedAs env target = pure (e.coercedAs env target).value := by
  obtain ⟨htype, hstable⟩ := stable_coerced hconv e
  obtain ⟨htype', hstable'⟩ := stable_coerce hconv target htype hstable
  have hvalue : (e.coercedAs env target).value =
      ((e.coerced env).value.coerce (e.typeIn env) target).value := rfl
  rw [hvalue, coercedAs, hstable'.coerced_eq, pure_bind, htype', coerce_convertedTo]

theorem coercedItems_coercedItems (hconv : env.Converts) (target : ScalarType)
    (items : List Expr) :
    coercedItems env target (coercedItems env target items).value =
      pure (coercedItems env target items).value := by
  induction items with
  | nil => rfl
  | cons e rest ih =>
    simp only [coercedItems, Counted.value_bind, Counted.value_pure,
      coercedAs_coercedAs hconv target e, ih, pure_bind]

/-- Whether the expression is an initializer list. -/
def isInitList : Expr → Bool
  | initList .. => true
  | _ => false

theorem isInitList_toFloatLiteral? {e e' : Expr} (h : e.toFloatLiteral? = some e') :
    e'.isInitList = false := by
  fun_cases toFloatLiteral? e with
  | case1 text c =>
    obtain ⟨n, -, rfl⟩ := Option.map_eq_some_iff.1 h
    rfl
  | case2 operand c =>
    obtain ⟨operand', -, rfl⟩ := Option.map_eq_some_iff.1 h
    rfl
  | case3 => simp_all [toFloatLiteral?]

theorem isInitList_coerce (s t : ScalarType) {e : Expr} (h : e.isInitList = false) :
    (e.coerce s t).value.isInitList = false := by
  unfold coerce
  split_ifs
  · exact h
  · cases hliteral : e.toFloatLiteral? with
    | none => rfl
    | some literal => exact isInitList_toFloatLiteral? hliteral
  · rfl

theorem isInitList_coerced (env : TypeEnv) {e : Expr} (h : e.isInitList = false) :
    (e.coerced env).value.isInitList = false := by
  obtain ⟨again, -, heq⟩ := Expr.coerced_eq env e
  rw [heq]
  cases e with
  | binary op l r c =>
    simp only [coercedWith, Counted.value_bind]
    unfold applyBinary
    split
    · split_ifs <;> rfl
    · rfl
    · rfl
  | assign op t v c =>
    simp only [coercedWith, Counted.value_bind]
    split
    · split_ifs <;> rfl
    · rfl
  | initList items c => cases h
  | _ => rfl

end Expr

/-! ### Declarations -/

variable {env : TypeEnv}

theorem TypeEnv.Converts.declare (h : env.Converts) (d : Decl) : (env.declare d).Converts := by
  unfold TypeEnv.declare
  split
  · exact ⟨h.conversion, h.remainder⟩
  · exact h

theorem TypeEnv.Converts.bodyEnv (h : env.Converts) (f : FuncDef) : (f.bodyEnv env).Converts := by
  unfold FuncDef.bodyEnv
  induction f.params generalizing env with
  | nil => exact h
  | cons d rest ih => exact ih (h.declare d)

/-- An initializer that is no list is converted as an expression. -/
theorem Decl.coercedInit_of_init {d : Decl} {e : Expr} (hinit : d.init = some e)
    (h : e.isInitList = false) :
    d.coercedInit env =
      some <$> if d.isArray then e.coerced env else e.coercedAs env d.scalar := by
  unfold coercedInit
  rw [hinit]
  cases e with
  | initList items c => cases h
  | _ => by_cases harray : d.isArray <;> simp [harray]

theorem Decl.coercedInit_coercedInit (hconv : env.Converts) (d : Decl) :
    Decl.coercedInit env { d with init := (d.coercedInit env).value } =
      pure (d.coercedInit env).value := by
  cases hinit : d.init with
  | none => simp only [coercedInit, hinit, Counted.value_pure]
  | some e =>
    cases hlist : e.isInitList with
    | true =>
      cases e with
      | initList items c =>
        simp only [coercedInit, hinit, Counted.value_bind, Counted.value_pure]
        change (Expr.coercedItems env d.scalar _ >>= _) = _
        rw [Expr.coercedItems_coercedItems hconv, pure_bind]
      | _ => cases hlist
    | false =>
      -- No converted expression is a list, so it is read as an expression again.
      have hcoerced := Expr.isInitList_coerced env hlist
      rw [coercedInit_of_init hinit hlist]
      by_cases harray : d.isArray
      · rw [if_pos harray]
        refine (coercedInit_of_init rfl hcoerced).trans ?_
        change some <$> (if d.isArray then _ else _) = _
        rw [if_pos harray, Expr.coerced_coerced hconv, map_pure]
        rfl
      · rw [if_neg harray]
        refine (coercedInit_of_init rfl (Expr.isInitList_coerce _ _ hcoerced)).trans ?_
        change some <$> (if d.isArray then _ else _) = _
        rw [if_neg harray]
        change some <$> ((e.coercedAs env d.scalar).value.coercedAs env d.scalar) = _
        rw [Expr.coercedAs_coercedAs hconv, map_pure]
        rfl

theorem Decl.coerced_coerced (hconv : env.Converts) (d : Decl) :
    (d.coerced env).value.coerced env = pure (d.coerced env).value := by
  change (Decl.coercedInit env { d with init := (d.coercedInit env).value } >>= _) = _
  rw [coercedInit_coercedInit hconv, pure_bind]
  rfl

/-- A converted declaration declares what it did before. -/
theorem TypeEnv.declare_coerced (env' : TypeEnv) (d : Decl) :
    env'.declare (d.coerced env).value = env'.declare d := rfl

theorem Decl.coercedList_coercedList (hconv : env.Converts) (ds : List Decl) :
    Decl.coercedList env (Decl.coercedList env ds).value.1 =
      pure (Decl.coercedList env ds).value := by
  induction ds generalizing env with
  | nil => rfl
  | cons d rest ih =>
    simp only [Decl.coercedList, Counted.value_bind, Counted.value_pure,
      Decl.coerced_coerced hconv, TypeEnv.declare_coerced, ih (hconv.declare d), pure_bind]

theorem ForInit.coerced_coerced (hconv : env.Converts) (init : Option ForInit) :
    ForInit.coerced env (ForInit.coerced env init).value.1 =
      pure (ForInit.coerced env init).value := by
  cases init with
  | none => rfl
  | some init =>
    cases init with
    | decls ds =>
      simp only [ForInit.coerced, Counted.value_bind, Counted.value_pure,
        Decl.coercedList_coercedList hconv, pure_bind]
    | expr e =>
      simp only [ForInit.coerced, Counted.value_bind, Counted.value_pure,
        Expr.coerced_coerced hconv, pure_bind]

theorem Decl.converts_coercedList (hconv : env.Converts) (ds : List Decl) :
    (Decl.coercedList env ds).value.2.Converts := by
  induction ds generalizing env with
  | nil => exact hconv
  | cons d rest ih => exact ih (hconv.declare d)

theorem ForInit.converts_coerced (hconv : env.Converts) (init : Option ForInit) :
    (ForInit.coerced env init).value.2.Converts := by
  cases init with
  | none => exact hconv
  | some init =>
    cases init with
    | decls ds => exact Decl.converts_coercedList hconv ds
    | expr e => exact hconv

/-! ### Statements -/

theorem mapOptionM_coercedAs (hconv : env.Converts) (target : ScalarType) (e : Option Expr) :
    mapOptionM (Expr.coercedAs env target) (mapOptionM (Expr.coercedAs env target) e).value =
      pure (mapOptionM (Expr.coercedAs env target) e).value := by
  cases e with
  | none => rfl
  | some e =>
    simp only [mapOptionM, Counted.value_bind, Counted.value_pure,
      Expr.coercedAs_coercedAs hconv, pure_bind]

theorem mapOptionM_coerced (hconv : env.Converts) (e : Option Expr) :
    mapOptionM (Expr.coerced env) (mapOptionM (Expr.coerced env) e).value =
      pure (mapOptionM (Expr.coerced env) e).value := by
  cases e with
  | none => rfl
  | some e =>
    simp only [mapOptionM, Counted.value_bind, Counted.value_pure, Expr.coerced_coerced hconv,
      pure_bind]

namespace Stmt

/-- A statement leaves an environment with the same conversions. -/
theorem converts_coerced (result : ScalarType) {env : TypeEnv} (hconv : env.Converts) (s : Stmt) :
    (Stmt.coerced result env s).value.2.Converts := by
  cases s with
  | decl d c => exact hconv.declare d
  | ifThen p t c => exact converts_coerced result hconv t
  | ifElse p t e c => exact converts_coerced result (converts_coerced result hconv t) e
  | whileLoop p body c | doWhile p body c => exact converts_coerced result hconv body
  | label n s c => exact converts_coerced result hconv s
  | _ => exact hconv

mutual

/-- A converted statement is left alone, and leaves the environment that it did before. -/
theorem coerced_coerced (result : ScalarType) (env : TypeEnv) (hconv : env.Converts) (s : Stmt) :
    Stmt.coerced result env (Stmt.coerced result env s).value.1 =
      pure (Stmt.coerced result env s).value := by
  cases s with
  | decl d c =>
    simp only [Stmt.coerced, Counted.value_bind, Counted.value_pure, Decl.coerced_coerced hconv,
      TypeEnv.declare_coerced, pure_bind]
  | block items b c =>
    simp only [Stmt.coerced, Counted.value_bind, Counted.value_pure,
      coercedList_coercedList result env hconv items, pure_bind]
  | expr e c =>
    simp only [Stmt.coerced, Counted.value_bind, Counted.value_pure, Expr.coerced_coerced hconv,
      pure_bind]
  | ifThen p t c =>
    simp only [Stmt.coerced, Counted.value_bind, Counted.value_pure,
      Expr.coercedAs_coercedAs hconv, coerced_coerced result env hconv t, pure_bind]
  | ifElse p t e c =>
    have hbetween := converts_coerced result hconv t
    simp only [Stmt.coerced, Counted.value_bind, Counted.value_pure,
      Expr.coercedAs_coercedAs hconv, coerced_coerced result env hconv t,
      coerced_coerced result _ hbetween e, pure_bind]
  | forLoop init cond next body c =>
    have hinner := ForInit.converts_coerced hconv init
    simp only [Stmt.coerced, Counted.value_bind, Counted.value_pure,
      ForInit.coerced_coerced hconv init, mapOptionM_coercedAs hinner, mapOptionM_coerced hinner,
      coerced_coerced result _ hinner body, pure_bind]
  | whileLoop p body c | doWhile p body c =>
    simp only [Stmt.coerced, Counted.value_bind, Counted.value_pure,
      Expr.coercedAs_coercedAs hconv, coerced_coerced result env hconv body, pure_bind]
  | ret value c =>
    simp only [Stmt.coerced, Counted.value_bind, Counted.value_pure, mapOptionM_coercedAs hconv,
      pure_bind]
  | label n s c =>
    simp only [Stmt.coerced, Counted.value_bind, Counted.value_pure,
      coerced_coerced result env hconv s, pure_bind]
  | _ => rfl

theorem coercedList_coercedList (result : ScalarType) (env : TypeEnv) (hconv : env.Converts)
    (items : List Stmt) :
    coercedList result env (coercedList result env items).value.1 =
      pure (coercedList result env items).value := by
  cases items with
  | nil => rfl
  | cons s rest =>
    have hnext := converts_coerced result hconv s
    simp only [coercedList, Counted.value_bind, Counted.value_pure,
      coerced_coerced result env hconv s, coercedList_coercedList result _ hnext rest, pure_bind]

end

end Stmt

/-! ### Units -/

theorem Item.coerced_coerced (hconv : env.Converts) (item : Item) :
    (item.coerced env).value.coerced env = pure (item.coerced env).value := by
  cases item with
  | decl d =>
    simp only [Item.coerced]
    by_cases hfunction : d.isFunction
    · rw [if_pos hfunction]
      exact if_pos hfunction
    · rw [if_neg hfunction]
      have hfunction' : ¬ (d.coerced env).value.isFunction := hfunction
      simp only [Counted.value_bind, Counted.value_pure, if_neg hfunction',
        Decl.coerced_coerced hconv, pure_bind]
  | func f =>
    have hbody := Stmt.coercedList_coercedList f.returnType _ (hconv.bodyEnv f) f.body.items
    change (Stmt.coercedList f.returnType (f.bodyEnv env) _ >>= _) = _
    rw [hbody, pure_bind]
    rfl

theorem TypeEnv.ofUnit_coerced (u : SourceUnit) :
    TypeEnv.ofUnit u.coerced.1 = TypeEnv.ofUnit u := by
  rw [← SourceUnit.typeEnv_context, SourceUnit.context_coerced, SourceUnit.typeEnv_context]

/-- The conversions of a unit are made once. -/
theorem SourceUnit.coerced_coerced {u : SourceUnit} (h : u.keepsConversions) :
    u.coerced.1.coerced = (u.coerced.1, .zero) := by
  have hconv : (TypeEnv.ofUnit u).Converts := by
    rw [← SourceUnit.typeEnv_context]
    exact (SourceUnit.converts_context h).typeEnv
  have hitems : u.coerced.1.mapItemsM (Item.coerced (TypeEnv.ofUnit u)) = pure u.coerced.1 := by
    refine SourceUnit.mapItemsM_eq_pure fun item hitem => ?_
    rw [SourceUnit.items_coerced] at hitem
    obtain ⟨item, -, rfl⟩ := List.mem_map.1 hitem
    exact Item.coerced_coerced hconv item
  rw [SourceUnit.coerced, TypeEnv.ofUnit_coerced, hitems]
  rfl

end MathKernel
