import MathKernel.Proofs.Normalize.ExplicitTypes

/-!
# The expressions of a body in their typing environments

Conversions read the types of an expression off what is declared before it. These are the
expressions that they look at, each with that environment: everything in a body but the sizes of
arrays, with the items of an initializer list instead of the list.

## Main definitions

* `Stmt.typedExprs`, `FuncDef.typedExprs` — the expressions of a statement and of a body
* `Expr.ConvertedIn` — what a conversion makes of such an expression

## Main results

* `Stmt.typedExprs_coerced` — the expressions of a converted statement
* `Stmt.count_typedExprs` — if a statement needs no conversion, none of its expressions does
* `SourceUnit.count_typedExprs_coerced` — no expression of a converted unit needs one
-/

namespace MathKernel

/-- The initial values in declarations, each in the environment of the declarations before it. -/
def Decl.typedExprsList : TypeEnv → List Decl → List (TypeEnv × Expr)
  | _, [] => []
  | env, d :: rest => d.initExprs.map (env, ·) ++ typedExprsList (env.declare d) rest

/-- The expressions of an initializer clause. -/
def ForInit.typedExprs (env : TypeEnv) : Option ForInit → List (TypeEnv × Expr)
  | none => []
  | some (.decls ds) => Decl.typedExprsList env ds
  | some (.expr e) => [(env, e)]

namespace Stmt

mutual

/-- The expressions of a statement, each with the environment that its types are read off. -/
def typedExprs : TypeEnv → Stmt → List (TypeEnv × Expr)
  | env, decl d _ => d.initExprs.map (env, ·)
  | env, block items _ _ => typedExprsList env items
  | env, expr e _ => [(env, e)]
  | env, ifThen p t _ => (env, p) :: typedExprs env t
  | env, ifElse p t e _ => (env, p) :: (typedExprs env t ++ typedExprs (t.declared env) e)
  | env, forLoop init cond next body _ =>
    let inner := ForInit.declared env init
    ForInit.typedExprs env init ++ (cond.toList ++ next.toList).map (inner, ·) ++
      typedExprs inner body
  | env, whileLoop p body _ => (env, p) :: typedExprs env body
  | env, doWhile p body _ => (env, p) :: typedExprs env body
  | env, ret value _ => value.toList.map (env, ·)
  | env, label _ s _ => typedExprs env s
  | _, brk _ | _, cont _ | _, goto .. | _, empty _ => []

/-- The expressions of statements in order. -/
def typedExprsList : TypeEnv → List Stmt → List (TypeEnv × Expr)
  | _, [] => []
  | env, s :: rest => typedExprs env s ++ typedExprsList (s.declared env) rest

end

end Stmt

/-- The expressions of a function's body, each with the environment that its types are read
off. -/
def FuncDef.typedExprs (env : TypeEnv) (f : FuncDef) : List (TypeEnv × Expr) :=
  Stmt.typedExprsList (f.bodyEnv env) f.body.items

/-! ### All of them are in the body -/

section Bodies

variable {p : Expr → Prop}

theorem Decl.everywhere_initExprs {d : Decl} (h : ∀ e ∈ d.rootExprs, e.Everywhere p) :
    ∀ e ∈ d.initExprs, e.Everywhere p := by
  cases hinit : d.init with
  | none =>
    rw [initExprs, hinit]
    exact List.forall_mem_nil _
  | some e =>
    have he : e.Everywhere p := h e (List.mem_append_right _ (by simp [hinit]))
    cases e with
    | initList items c =>
      rw [initExprs, hinit]
      exact (Expr.everywhere_initList.1 he).2
    | _ =>
      simp only [initExprs, hinit]
      exact List.forall_mem_singleton.2 he

theorem Decl.everywhere_typedExprsList (env : TypeEnv) {ds : List Decl}
    (h : ∀ e ∈ ds.flatMap Decl.rootExprs, e.Everywhere p) :
    ∀ x ∈ Decl.typedExprsList env ds, x.2.Everywhere p := by
  induction ds generalizing env with
  | nil => exact List.forall_mem_nil _
  | cons d rest ih =>
    rw [List.flatMap_cons, List.forall_mem_append] at h
    exact List.forall_mem_append.2
      ⟨List.forall_mem_map.2 (Decl.everywhere_initExprs h.1), ih (env.declare d) h.2⟩

theorem ForInit.everywhere_typedExprs (env : TypeEnv) {init : Option ForInit}
    (h : ∀ e ∈ init.toList.flatMap ForInit.rootExprs, e.Everywhere p) :
    ∀ x ∈ ForInit.typedExprs env init, x.2.Everywhere p := by
  cases init with
  | none => exact List.forall_mem_nil _
  | some init =>
    cases init with
    | decls ds => exact Decl.everywhere_typedExprsList env (by simpa [ForInit.rootExprs] using h)
    | expr e => exact List.forall_mem_singleton.2 (h e (by simp [ForInit.rootExprs]))

namespace Stmt

mutual

/-- What holds in all expressions of a statement holds in the listed ones. -/
theorem everywhere_typedExprs (s : Stmt) (env : TypeEnv)
    (h : ∀ part ∈ s.substmts, ∀ e ∈ part.ownExprs, e.Everywhere p) :
    ∀ x ∈ s.typedExprs env, x.2.Everywhere p := by
  have hself := h s (by cases s <;> simp [substmts])
  cases s with
  | decl d c => exact List.forall_mem_map.2 (Decl.everywhere_initExprs hself)
  | block items b c => exact everywhere_typedExprsList items env (List.forall_mem_cons.1 h).2
  | expr e c => exact List.forall_mem_singleton.2 (List.forall_mem_singleton.1 hself)
  | ifThen p t c =>
    exact List.forall_mem_cons.2 ⟨List.forall_mem_singleton.1 hself,
      everywhere_typedExprs t env (List.forall_mem_cons.1 h).2⟩
  | ifElse p t e c =>
    obtain ⟨ht, he⟩ := List.forall_mem_append.1 (List.forall_mem_cons.1 h).2
    exact List.forall_mem_cons.2 ⟨List.forall_mem_singleton.1 hself, List.forall_mem_append.2
      ⟨everywhere_typedExprs t env ht, everywhere_typedExprs e _ he⟩⟩
  | forLoop init cond next body c =>
    rw [ownExprs, List.append_assoc, List.forall_mem_append] at hself
    refine List.forall_mem_append.2 ⟨List.forall_mem_append.2 ⟨?_, ?_⟩, ?_⟩
    · exact ForInit.everywhere_typedExprs env hself.1
    · exact List.forall_mem_map.2 hself.2
    · exact everywhere_typedExprs body _ (List.forall_mem_cons.1 h).2
  | whileLoop p body c | doWhile p body c =>
    exact List.forall_mem_cons.2 ⟨List.forall_mem_singleton.1 hself,
      everywhere_typedExprs body env (List.forall_mem_cons.1 h).2⟩
  | ret value c => exact List.forall_mem_map.2 hself
  | label n s c => exact everywhere_typedExprs s env (List.forall_mem_cons.1 h).2
  | brk _ | cont _ | goto _ _ | empty _ => exact List.forall_mem_nil _

theorem everywhere_typedExprsList (items : List Stmt) (env : TypeEnv)
    (h : ∀ part ∈ substmtsList items, ∀ e ∈ part.ownExprs, e.Everywhere p) :
    ∀ x ∈ typedExprsList env items, x.2.Everywhere p := by
  cases items with
  | nil => exact List.forall_mem_nil _
  | cons s rest =>
    obtain ⟨hs, hrest⟩ := List.forall_mem_append.1 h
    exact List.forall_mem_append.2
      ⟨everywhere_typedExprs s env hs, everywhere_typedExprsList rest _ hrest⟩

end

end Stmt

/-- What holds of all expressions in a body holds everywhere in the listed ones. -/
theorem FuncDef.everywhere_typedExprs {f : FuncDef} (h : ∀ e ∈ f.body.exprs, p e) (env : TypeEnv) :
    ∀ x ∈ f.typedExprs env, x.2.Everywhere p := by
  refine Stmt.everywhere_typedExprsList f.body.items (f.bodyEnv env) fun part hpart e he s hs => ?_
  exact h s (List.mem_flatMap.2 ⟨part, hpart, List.mem_flatMap.2 ⟨e, he, hs⟩⟩)

end Bodies

/-! ### Environments -/

section Environments

variable {P : TypeEnv → Prop}

/-- What declarations keep holds in the environments that they are read in. -/
theorem Decl.forall_env_typedExprsList (hP : ∀ env d, P env → P (env.declare d))
    (ds : List Decl) {env : TypeEnv} (h : P env) :
    P (ds.foldl TypeEnv.declare env) ∧ ∀ x ∈ Decl.typedExprsList env ds, P x.1 := by
  induction ds generalizing env with
  | nil => exact ⟨h, List.forall_mem_nil _⟩
  | cons d rest ih =>
    obtain ⟨hlast, hrest⟩ := ih (hP env d h)
    exact ⟨hlast, List.forall_mem_append.2 ⟨List.forall_mem_map.2 fun _ _ => h, hrest⟩⟩

theorem ForInit.forall_env_typedExprs (hP : ∀ env d, P env → P (env.declare d))
    (init : Option ForInit) {env : TypeEnv} (h : P env) :
    P (ForInit.declared env init) ∧ ∀ x ∈ ForInit.typedExprs env init, P x.1 := by
  cases init with
  | none => exact ⟨h, List.forall_mem_nil _⟩
  | some init =>
    cases init with
    | decls ds => exact Decl.forall_env_typedExprsList hP ds h
    | expr e => exact ⟨h, List.forall_mem_singleton.2 h⟩

mutual

theorem Stmt.forall_env_typedExprs (hP : ∀ env d, P env → P (env.declare d)) (s : Stmt)
    {env : TypeEnv} (h : P env) :
    P (s.declared env) ∧ ∀ x ∈ s.typedExprs env, P x.1 := by
  cases s with
  | decl d c => exact ⟨hP env d h, List.forall_mem_map.2 fun _ _ => h⟩
  | block items b c => exact ⟨h, Stmt.forall_env_typedExprsList hP items h⟩
  | expr e c => exact ⟨h, List.forall_mem_singleton.2 h⟩
  | ifThen p t c =>
    obtain ⟨ht, hexprs⟩ := Stmt.forall_env_typedExprs hP t h
    exact ⟨ht, List.forall_mem_cons.2 ⟨h, hexprs⟩⟩
  | ifElse p t e c =>
    obtain ⟨ht, htexprs⟩ := Stmt.forall_env_typedExprs hP t h
    obtain ⟨he, heexprs⟩ := Stmt.forall_env_typedExprs hP e ht
    exact ⟨he, List.forall_mem_cons.2 ⟨h, List.forall_mem_append.2 ⟨htexprs, heexprs⟩⟩⟩
  | forLoop init cond next body c =>
    obtain ⟨hinner, hinit⟩ := ForInit.forall_env_typedExprs hP init h
    refine ⟨h, List.forall_mem_append.2 ⟨List.forall_mem_append.2 ⟨hinit, ?_⟩, ?_⟩⟩
    · exact List.forall_mem_map.2 fun _ _ => hinner
    · exact (Stmt.forall_env_typedExprs hP body hinner).2
  | whileLoop p body c | doWhile p body c =>
    obtain ⟨hbody, hexprs⟩ := Stmt.forall_env_typedExprs hP body h
    exact ⟨hbody, List.forall_mem_cons.2 ⟨h, hexprs⟩⟩
  | ret value c => exact ⟨h, List.forall_mem_map.2 fun _ _ => h⟩
  | label n s c => exact Stmt.forall_env_typedExprs hP s h
  | brk _ | cont _ | goto _ _ | empty _ => exact ⟨h, List.forall_mem_nil _⟩

theorem Stmt.forall_env_typedExprsList (hP : ∀ env d, P env → P (env.declare d))
    (items : List Stmt) {env : TypeEnv} (h : P env) :
    ∀ x ∈ Stmt.typedExprsList env items, P x.1 := by
  cases items with
  | nil => exact List.forall_mem_nil _
  | cons s rest =>
    obtain ⟨hs, hexprs⟩ := Stmt.forall_env_typedExprs hP s h
    exact List.forall_mem_append.2 ⟨hexprs, Stmt.forall_env_typedExprsList hP rest hs⟩

end

/-- What declarations keep holds in all environments of a body. -/
theorem FuncDef.forall_env_typedExprs (hP : ∀ env d, P env → P (env.declare d)) {f : FuncDef}
    {env : TypeEnv} (h : P env) : ∀ x ∈ f.typedExprs env, P x.1 := by
  refine Stmt.forall_env_typedExprsList hP f.body.items ?_
  unfold FuncDef.bodyEnv
  induction f.params generalizing env with
  | nil => exact h
  | cons d rest ih => exact ih (hP env d h)

end Environments

/-! ### What conversions make of them -/

/-- The second expression is the first with its conversions made explicit, of its own type or of one
that it is converted to. -/
def Expr.ConvertedIn (x y : TypeEnv × Expr) : Prop :=
  y.1 = x.1 ∧ (y.2 = (x.2.coerced x.1).value ∨ ∃ t, y.2 = (x.2.coercedAs x.1 t).value)

/-- Conversions keep what they keep everywhere in an expression. -/
theorem Expr.ConvertedIn.everywhere {p : Expr → Prop} (hp : IsNodeProperty p)
    {x y : TypeEnv × Expr} (h : ConvertedIn x y) (hx : x.2.Everywhere p) : y.2.Everywhere p := by
  obtain ⟨-, heq | ⟨t, heq⟩⟩ := h
  · rw [heq]
    exact hp.coercedTo _ hx
  · rw [heq]
    exact hp.coerce (hp.coercedTo _ hx) _ _

theorem Expr.forall₂_coercedItems (env : TypeEnv) (target : ScalarType) (items : List Expr) :
    List.Forall₂ ConvertedIn (items.map (env, ·))
      ((coercedItems env target items).value.map (env, ·)) := by
  induction items with
  | nil => exact .nil
  | cons e rest ih => exact .cons ⟨rfl, .inr ⟨target, rfl⟩⟩ ih

theorem Expr.convertedIn_toList (env : TypeEnv) (g : Expr → Counted Expr)
    (hg : ∀ e, ConvertedIn (env, e) (env, (g e).value)) (value : Option Expr) :
    List.Forall₂ ConvertedIn (value.toList.map (env, ·))
      ((mapOptionM g value).value.toList.map (env, ·)) := by
  cases value with
  | none => exact .nil
  | some e => exact .cons (hg e) .nil

theorem Decl.initExprs_coerced (env : TypeEnv) (d : Decl) :
    List.Forall₂ Expr.ConvertedIn (d.initExprs.map (env, ·))
      ((d.coerced env).value.initExprs.map (env, ·)) := by
  have hinit : (d.coerced env).value.init = (d.coercedInit env).value := rfl
  cases h : d.init with
  | none =>
    rw [initExprs, initExprs, hinit, coercedInit, h]
    exact .nil
  | some e =>
    cases hlist : e.isInitList with
    | true =>
      cases e with
      | initList items c =>
        rw [initExprs, initExprs, hinit, coercedInit, h]
        exact Expr.forall₂_coercedItems env d.scalar items
      | _ => cases hlist
    | false =>
      -- The converted expression is no list either, so it is the one initial value.
      have hone {d : Decl} {e : Expr} (h : d.init = some e) (hlist : e.isInitList = false) :
          d.initExprs = [e] := by
        cases e with
        | initList items c => cases hlist
        | _ => simp [initExprs, h]
      have hcoerced := Expr.isInitList_coerced env hlist
      rw [coercedInit_of_init h hlist] at hinit
      rw [hone h hlist]
      split at hinit
      · rw [hone hinit hcoerced]
        exact .cons ⟨rfl, .inl rfl⟩ .nil
      · rw [hone hinit (Expr.isInitList_coerce _ _ hcoerced)]
        exact .cons ⟨rfl, .inr ⟨d.scalar, rfl⟩⟩ .nil

theorem Decl.typedExprsList_coerced (env : TypeEnv) (ds : List Decl) :
    List.Forall₂ Expr.ConvertedIn (Decl.typedExprsList env ds)
        (Decl.typedExprsList env (Decl.coercedList env ds).value.1) ∧
      (Decl.coercedList env ds).value.1.foldl TypeEnv.declare env =
        ds.foldl TypeEnv.declare env := by
  induction ds generalizing env with
  | nil => exact ⟨.nil, rfl⟩
  | cons d rest ih =>
    obtain ⟨hrest, hlast⟩ := ih (env.declare d)
    exact ⟨List.rel_append (Decl.initExprs_coerced env d) hrest, hlast⟩

theorem ForInit.typedExprs_coerced (env : TypeEnv) (init : Option ForInit) :
    List.Forall₂ Expr.ConvertedIn (ForInit.typedExprs env init)
        (ForInit.typedExprs env (ForInit.coerced env init).value.1) ∧
      ForInit.declared env (ForInit.coerced env init).value.1 = ForInit.declared env init := by
  cases init with
  | none => exact ⟨.nil, rfl⟩
  | some init =>
    cases init with
    | decls ds => exact Decl.typedExprsList_coerced env ds
    | expr e => exact ⟨.cons ⟨rfl, .inl rfl⟩ .nil, rfl⟩

namespace Stmt

mutual

/-- The expressions of a converted statement are those of the statement, converted. -/
theorem typedExprs_coerced (result : ScalarType) (env : TypeEnv) (s : Stmt) :
    List.Forall₂ Expr.ConvertedIn (s.typedExprs env)
        ((Stmt.coerced result env s).value.1.typedExprs env) ∧
      (Stmt.coerced result env s).value.1.declared env = s.declared env := by
  cases s with
  | decl d c => exact ⟨Decl.initExprs_coerced env d, rfl⟩
  | block items b c => exact ⟨typedExprsList_coerced result env items, rfl⟩
  | expr e c => exact ⟨.cons ⟨rfl, .inl rfl⟩ .nil, rfl⟩
  | ifThen p t c =>
    obtain ⟨ht, hafter⟩ := typedExprs_coerced result env t
    exact ⟨.cons ⟨rfl, .inr ⟨.bool, rfl⟩⟩ ht, hafter⟩
  | ifElse p t e c =>
    obtain ⟨ht, hbetween⟩ := typedExprs_coerced result env t
    obtain ⟨he, hafter⟩ := typedExprs_coerced result (t.declared env) e
    simp only [Stmt.coerced, Counted.value_bind, Counted.value_pure, env_coerced, typedExprs,
      declared, hbetween]
    exact ⟨.cons ⟨rfl, .inr ⟨.bool, rfl⟩⟩ (List.rel_append ht he), hafter⟩
  | forLoop init cond next body c =>
    obtain ⟨hinit, hinner⟩ := ForInit.typedExprs_coerced env init
    obtain ⟨hbody, -⟩ := typedExprs_coerced result (ForInit.declared env init) body
    have hcond := Expr.convertedIn_toList (ForInit.declared env init)
      (Expr.coercedAs (ForInit.declared env init) .bool) (fun e => ⟨rfl, .inr ⟨.bool, rfl⟩⟩) cond
    have hnext := Expr.convertedIn_toList (ForInit.declared env init)
      (Expr.coerced (ForInit.declared env init)) (fun e => ⟨rfl, .inl rfl⟩) next
    simp only [Stmt.coerced, Counted.value_bind, Counted.value_pure, ForInit.env_coerced,
      typedExprs, declared, hinner, List.map_append]
    exact ⟨List.rel_append (List.rel_append hinit (List.rel_append hcond hnext)) hbody, trivial⟩
  | whileLoop p body c | doWhile p body c =>
    obtain ⟨hbody, hafter⟩ := typedExprs_coerced result env body
    exact ⟨.cons ⟨rfl, .inr ⟨.bool, rfl⟩⟩ hbody, hafter⟩
  | ret value c =>
    have hvalue := Expr.convertedIn_toList env (Expr.coercedAs env result)
      (fun e => ⟨rfl, .inr ⟨result, rfl⟩⟩) value
    exact ⟨hvalue, rfl⟩
  | label n s c => exact typedExprs_coerced result env s
  | brk _ | cont _ | goto _ _ | empty _ => exact ⟨.nil, rfl⟩

theorem typedExprsList_coerced (result : ScalarType) (env : TypeEnv) (items : List Stmt) :
    List.Forall₂ Expr.ConvertedIn (typedExprsList env items)
      (typedExprsList env (Stmt.coercedList result env items).value.1) := by
  cases items with
  | nil => exact .nil
  | cons s rest =>
    obtain ⟨hs, hafter⟩ := typedExprs_coerced result env s
    have hrest := typedExprsList_coerced result (s.declared env) rest
    simp only [Stmt.coercedList, Counted.value_bind, Counted.value_pure, env_coerced,
      typedExprsList, hafter]
    exact List.rel_append hs hrest

end

end Stmt

/-- The expressions of a converted body are those of the body, converted. -/
theorem FuncDef.typedExprs_coerced (env : TypeEnv) (f : FuncDef) :
    List.Forall₂ Expr.ConvertedIn (f.typedExprs env) ((f.coerced env).typedExprs env) :=
  Stmt.typedExprsList_coerced f.returnType (f.bodyEnv env) f.body.items

/-! ### Expressions that need no conversion -/

theorem Expr.count_coerced_of_coercedItems {env : TypeEnv} {target : ScalarType}
    {items : List Expr} (h : (coercedItems env target items).count = 0) :
    ∀ e ∈ items, (e.coerced env).count = 0 := by
  induction items with
  | nil => exact List.forall_mem_nil _
  | cons e rest ih =>
    simp only [coercedItems, coercedAs, Counted.count_bind, Nat.add_eq_zero_iff] at h
    exact List.forall_mem_cons.2 ⟨h.1.1, ih h.2.1⟩

theorem Expr.count_coerced_of_coercedAs {env : TypeEnv} {target : ScalarType} {e : Expr}
    (h : (e.coercedAs env target).count = 0) : (e.coerced env).count = 0 :=
  (Nat.add_eq_zero_iff.1 h).1

/-- If a declaration needs no conversion, no initial value does. -/
theorem Decl.count_initExprs {env : TypeEnv} {d : Decl} (h : (d.coerced env).count = 0) :
    ∀ e ∈ d.initExprs, (e.coerced env).count = 0 := by
  replace h : (d.coercedInit env).count = 0 := (Nat.add_eq_zero_iff.1 h).1
  cases hinit : d.init with
  | none =>
    rw [initExprs, hinit]
    exact List.forall_mem_nil _
  | some e =>
    cases hlist : e.isInitList with
    | true =>
      cases e with
      | initList items c =>
        rw [coercedInit, hinit] at h
        rw [initExprs, hinit]
        exact Expr.count_coerced_of_coercedItems (Nat.add_eq_zero_iff.1 h).1
      | _ => cases hlist
    | false =>
      have hexprs : d.initExprs = [e] := by
        cases e with
        | initList items c => cases hlist
        | _ => simp [initExprs, hinit]
      rw [hexprs, List.forall_mem_singleton]
      rw [coercedInit_of_init hinit hlist, Counted.count_map] at h
      split at h
      · exact h
      · exact Expr.count_coerced_of_coercedAs h

theorem Decl.count_typedExprsList {env : TypeEnv} {ds : List Decl}
    (h : (Decl.coercedList env ds).count = 0) :
    ∀ x ∈ Decl.typedExprsList env ds, (x.2.coerced x.1).count = 0 := by
  induction ds generalizing env with
  | nil => exact List.forall_mem_nil _
  | cons d rest ih =>
    simp only [Decl.coercedList, Counted.count_bind, Nat.add_eq_zero_iff] at h
    refine List.forall_mem_append.2 ⟨?_, ih h.2.1⟩
    exact List.forall_mem_map.2 (Decl.count_initExprs h.1)

theorem ForInit.count_typedExprs {env : TypeEnv} {init : Option ForInit}
    (h : (ForInit.coerced env init).count = 0) :
    ∀ x ∈ ForInit.typedExprs env init, (x.2.coerced x.1).count = 0 := by
  cases init with
  | none => exact List.forall_mem_nil _
  | some init =>
    cases init with
    | decls ds => exact Decl.count_typedExprsList (Nat.add_eq_zero_iff.1 h).1
    | expr e => exact List.forall_mem_singleton.2 (Nat.add_eq_zero_iff.1 h).1

theorem count_toList_of_mapOptionM {g : Expr → Counted Expr} {value : Option Expr}
    (h : (mapOptionM g value).count = 0) : ∀ e ∈ value.toList, (g e).count = 0 := by
  cases value with
  | none => exact List.forall_mem_nil _
  | some e => exact List.forall_mem_singleton.2 (Nat.add_eq_zero_iff.1 h).1

namespace Stmt

mutual

/-- If a statement needs no conversion, none of its expressions does. -/
theorem count_typedExprs (result : ScalarType) (env : TypeEnv) (s : Stmt)
    (h : (Stmt.coerced result env s).count = 0) :
    ∀ x ∈ s.typedExprs env, (x.2.coerced x.1).count = 0 := by
  cases s with
  | decl d c => exact List.forall_mem_map.2 (Decl.count_initExprs (Nat.add_eq_zero_iff.1 h).1)
  | block items b c => exact count_typedExprsList result env items (Nat.add_eq_zero_iff.1 h).1
  | expr e c => exact List.forall_mem_singleton.2 (Nat.add_eq_zero_iff.1 h).1
  | ifThen p t c =>
    simp only [Stmt.coerced, Counted.count_bind, Nat.add_eq_zero_iff] at h
    exact List.forall_mem_cons.2
      ⟨Expr.count_coerced_of_coercedAs h.1, count_typedExprs result env t h.2.1⟩
  | ifElse p t e c =>
    simp only [Stmt.coerced, Counted.count_bind, Nat.add_eq_zero_iff, env_coerced] at h
    refine List.forall_mem_cons.2
      ⟨Expr.count_coerced_of_coercedAs h.1, List.forall_mem_append.2 ⟨?_, ?_⟩⟩
    · exact count_typedExprs result env t h.2.1
    · exact count_typedExprs result _ e h.2.2.1
  | forLoop init cond next body c =>
    simp only [Stmt.coerced, Counted.count_bind, Nat.add_eq_zero_iff, ForInit.env_coerced] at h
    refine List.forall_mem_append.2 ⟨List.forall_mem_append.2 ⟨?_, ?_⟩, ?_⟩
    · exact ForInit.count_typedExprs h.1
    · refine List.forall_mem_map.2 (List.forall_mem_append.2 ⟨fun e he => ?_, ?_⟩)
      · exact Expr.count_coerced_of_coercedAs (count_toList_of_mapOptionM h.2.1 e he)
      · exact count_toList_of_mapOptionM h.2.2.1
    · exact count_typedExprs result _ body h.2.2.2.1
  | whileLoop p body c | doWhile p body c =>
    simp only [Stmt.coerced, Counted.count_bind, Nat.add_eq_zero_iff] at h
    exact List.forall_mem_cons.2
      ⟨Expr.count_coerced_of_coercedAs h.1, count_typedExprs result env body h.2.1⟩
  | ret value c =>
    have hvalue := count_toList_of_mapOptionM (Nat.add_eq_zero_iff.1 h).1
    exact List.forall_mem_map.2 fun e he => Expr.count_coerced_of_coercedAs (hvalue e he)
  | label n s c => exact count_typedExprs result env s (Nat.add_eq_zero_iff.1 h).1
  | _ => exact List.forall_mem_nil _

theorem count_typedExprsList (result : ScalarType) (env : TypeEnv) (items : List Stmt)
    (h : (Stmt.coercedList result env items).count = 0) :
    ∀ x ∈ typedExprsList env items, (x.2.coerced x.1).count = 0 := by
  cases items with
  | nil => exact List.forall_mem_nil _
  | cons s rest =>
    simp only [Stmt.coercedList, Counted.count_bind, Nat.add_eq_zero_iff, env_coerced] at h
    exact List.forall_mem_append.2
      ⟨count_typedExprs result env s h.1, count_typedExprsList result _ rest h.2.1⟩

end

end Stmt

/-- No expression of a converted unit needs a conversion, with types that are read off the unit as
it is now. -/
theorem SourceUnit.count_typedExprs_coerced {u : SourceUnit} (h : u.keepsConversions) :
    ∀ f ∈ u.coerced.1.funcs, ∀ x ∈ f.typedExprs (TypeEnv.ofUnit u.coerced.1),
      (x.2.coerced x.1).count = 0 := by
  have hconv : (TypeEnv.ofUnit u).Converts := by
    rw [← SourceUnit.typeEnv_context]
    exact (SourceUnit.converts_context h).typeEnv
  rw [TypeEnv.ofUnit_coerced, SourceUnit.funcs_coerced]
  refine List.forall_mem_map.2 fun f _ => ?_
  have hbody := Stmt.coercedList_coercedList f.returnType _ (hconv.bodyEnv f) f.body.items
  refine Stmt.count_typedExprsList f.returnType _ _ ?_
  exact congrArg Counted.count hbody

end MathKernel
