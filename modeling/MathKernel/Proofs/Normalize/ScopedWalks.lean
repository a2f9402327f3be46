import MathKernel.Proofs.Normalize.ScopedRenaming

/-!
# The two walks under block scoping

One walk lists the outermost expressions of a body with the names that are hidden there, the other
one maps them. What a declaration hides does not depend on its expressions, so the two go through
the same scopes: the list of a mapped body is the mapped list, the changes are those made to its
entries, and a map of the expressions that undoes each change gives the body back.

## Main definitions

* `Walked` — what the walk of a mapped body lists, compared with the walk of the body
* `Without` — a listing that a name does not appear in

## Main results

* `Stmt.walked_mapScopedM` — the two walks agree on every statement
* `Stmt.mapExprsM_mapScopedM` — changes that are undone expression by expression
* `Stmt.without_scopedExprs` — a name that does not occur is nowhere hidden or used
-/

namespace MathKernel

/-- Listed expressions with the names that are hidden there, and the names hidden after them. -/
abbrev Listing := List (List String × Expr) × List String

/-- The second listing is the first one with its expressions mapped, and the map leaves the same
names hidden and makes the changes that it makes to the listed expressions. -/
structure Walked (f : List String → Expr → Counted Expr) (before after : Listing)
    (hidden : List String) (changes : Nat) : Prop where
  exprs : after.1 = before.1.map fun p => (p.1, (f p.1 p.2).value)
  last : after.2 = before.2
  hidden : hidden = before.2
  changes : changes = (before.1.map fun p => (f p.1 p.2).count).sum

/-- A name that is not hidden at the listed expressions, not used in them and not hidden after
them. -/
structure Without (x : String) (l : Listing) : Prop where
  exprs : ∀ p ∈ l.1, x ∉ p.1 ∧ x ∉ p.2.names
  last : x ∉ l.2

variable {f : List String → Expr → Counted Expr} {g : Expr → Expr} {x : String}

/-- Expressions without a name, listed where the name is not hidden. -/
theorem without_map {hidden : List String} {es : List Expr} (hx : x ∉ hidden)
    (hes : x ∉ es.flatMap Expr.names) :
    ∀ p ∈ es.map (hidden, ·), x ∉ p.1 ∧ x ∉ p.2.names :=
  List.forall_mem_map.2 fun e he => ⟨hx, fun hxe => hes (List.mem_flatMap.2 ⟨e, he, hxe⟩)⟩

theorem count_mapOptionM (g : Expr → Counted Expr) (e : Option Expr) :
    (mapOptionM g e).count = (e.toList.map fun e => (g e).count).sum := by
  cases e <;> simp [mapOptionM]

theorem mapOptionM_mapOptionM {h : Expr → Counted Expr} {e : Option Expr}
    (hg : ∀ s ∈ e.toList, g (h s).value = s) :
    mapOptionM (m := Id) g (mapOptionM h e).value = e := by
  cases e with
  | none => rfl
  | some s => exact congrArg some (hg s List.mem_cons_self)

/-! ### Declarations -/

namespace Decl

theorem rootExprs_mapExprsM (g : Expr → Counted Expr) (d : Decl) :
    (d.mapExprsM g).value.rootExprs = d.rootExprs.map fun e => (g e).value := by
  have hinit : (d.mapExprsM g).value.init.toList = d.init.toList.map fun e => (g e).value :=
    mapOptionM_toList g d.init
  rw [rootExprs, size?_mapExprsM, hinit, rootExprs, List.map_append]

theorem count_mapExprsM (g : Expr → Counted Expr) (d : Decl) :
    (d.mapExprsM g).count = (d.rootExprs.map fun e => (g e).count).sum := by
  have hsize : (d.type.mapSizeM g).count = (d.size?.toList.map fun e => (g e).count).sum := by
    cases htype : d.type with
    | array item size c => simp [Declarator.mapSizeM, count_mapOptionM, size?, htype]
    | element | function => simp [Declarator.mapSizeM, size?, htype]
  simp [mapExprsM, hsize, count_mapOptionM, rootExprs]

theorem declareName_mapExprsM (g : Expr → Counted Expr) (d : Decl) (hidden : List String) :
    declareName (d.mapExprsM g).value hidden = declareName d hidden :=
  rfl

theorem walked_mapScopedListM (ds : List Decl) (hidden : List String) :
    Walked f (scopedExprsList declareName hidden ds)
      (scopedExprsList declareName hidden (mapScopedListM declareName f hidden ds).value.1)
      (mapScopedListM declareName f hidden ds).value.2
      (mapScopedListM declareName f hidden ds).count := by
  induction ds generalizing hidden with
  | nil => exact ⟨rfl, rfl, rfl, rfl⟩
  | cons d rest ih =>
    obtain ⟨hexprs, hlast, hhidden, hchanges⟩ := ih (declareName d hidden)
    constructor <;>
      simp [mapScopedListM, scopedExprsList, declareName_mapExprsM, rootExprs_mapExprsM,
        count_mapExprsM, hexprs, hlast, hhidden, hchanges, Function.comp_def]

/-- A map of the expressions that undoes the changes. -/
theorem mapExprsM_mapExprsM {h : Expr → Counted Expr} {d : Decl}
    (hg : ∀ e ∈ d.rootExprs, g (h e).value = e) :
    Decl.mapExprsM (m := Id) g (d.mapExprsM h).value = d := by
  obtain ⟨name, quals, storage, type, init, c⟩ := d
  have hinit : mapOptionM (m := Id) g (mapOptionM h init).value = init :=
    mapOptionM_mapOptionM fun e he => hg e (List.mem_append_right _ he)
  have htype : Declarator.mapSizeM (m := Id) g (type.mapSizeM h).value = type := by
    cases type with
    | array item size c =>
      have hsize : mapOptionM (m := Id) g (mapOptionM h size).value = size :=
        mapOptionM_mapOptionM fun e he => hg e (List.mem_append_left _ he)
      exact congrArg (Declarator.array item · c) hsize
    | element | function => rfl
  exact congrArg₂ (Decl.mk name quals storage · · c) htype hinit

theorem mapExprsListM_mapScopedListM (ds : List Decl) (hidden : List String)
    (hg : ∀ p ∈ (scopedExprsList declareName hidden ds).1, g (f p.1 p.2).value = p.2) :
    mapExprsListM (m := Id) g (mapScopedListM declareName f hidden ds).value.1 = ds := by
  induction ds generalizing hidden with
  | nil => rfl
  | cons d rest ih =>
    obtain ⟨hd, hrest⟩ := List.forall_mem_append.1 hg
    exact congrArg₂ List.cons (mapExprsM_mapExprsM (List.forall_mem_map.1 hd)) (ih _ hrest)

theorem without_scopedExprsList (ds : List Decl) (hidden : List String) (hx : x ∉ hidden)
    (hnames : ∀ d ∈ ds, x ∉ d.usedNames ∧ d.name ≠ some x) :
    Without x (scopedExprsList declareName hidden ds) := by
  induction ds generalizing hidden with
  | nil => exact ⟨fun _ hp => absurd hp List.not_mem_nil, hx⟩
  | cons d rest ih =>
    obtain ⟨⟨hused, hname⟩, hrest⟩ := List.forall_mem_cons.1 hnames
    have hdeclared : x ∉ declareName d hidden := by
      rw [declareName_eq]
      simpa [hx] using hname
    obtain ⟨hexprs, hlast⟩ := ih _ hdeclared hrest
    exact ⟨List.forall_mem_append.2 ⟨without_map hx hused, hexprs⟩, hlast⟩

end Decl

/-! ### Statements -/

namespace Stmt

mutual

/-- The walks of a statement and of the mapped statement agree. -/
theorem walked_mapScopedM (s : Stmt) (hidden : List String) :
    Walked f (scopedExprs declareName hidden s)
      (scopedExprs declareName hidden (mapScopedM declareName f hidden s).value.1)
      (mapScopedM declareName f hidden s).value.2
      (mapScopedM declareName f hidden s).count := by
  cases s with
  | decl d c =>
    constructor <;>
      simp [mapScopedM, scopedExprs, Decl.declareName_mapExprsM, Decl.rootExprs_mapExprsM,
        Decl.count_mapExprsM, Function.comp_def]
  | block items b c =>
    obtain ⟨hexprs, -, -, hchanges⟩ := walked_mapScopedListM items hidden
    constructor <;> simp [mapScopedM, scopedExprs, hexprs, hchanges]
  | expr e c => constructor <;> simp [mapScopedM, scopedExprs]
  | ifThen p t c =>
    obtain ⟨hexprs, hlast, hhidden, hchanges⟩ := walked_mapScopedM t hidden
    constructor <;> simp [mapScopedM, scopedExprs, hexprs, hlast, hhidden, hchanges]
  | ifElse p t e c =>
    -- A branch that is a lone declaration leaves its name hidden in the other branch.
    obtain ⟨hexprs, hlast, hhidden, hchanges⟩ := walked_mapScopedM t hidden
    obtain ⟨hexprs', hlast', hhidden', hchanges'⟩ :=
      walked_mapScopedM e (scopedExprs declareName hidden t).2
    constructor <;>
      simp [mapScopedM, scopedExprs, hexprs, hlast, hhidden, hchanges, hexprs', hlast', hhidden',
        hchanges']
  | forLoop init cond next body c =>
    rcases init with _ | ds | e
    · obtain ⟨hexprs, hlast, hhidden, hchanges⟩ := walked_mapScopedM body hidden
      constructor <;>
        simp [mapScopedM, scopedExprs, mapOptionM_toList, count_mapOptionM, hexprs, hlast, hhidden,
          hchanges, Function.comp_def]
    · -- The clauses and the body see the declared names, what follows the loop does not.
      obtain ⟨hexprs, hlast, hhidden, hchanges⟩ := Decl.walked_mapScopedListM (f := f) ds hidden
      obtain ⟨hexprs', -, -, hchanges'⟩ :=
        walked_mapScopedM body (Decl.scopedExprsList declareName hidden ds).2
      constructor <;>
        simp [mapScopedM, scopedExprs, mapOptionM_toList, count_mapOptionM, hexprs, hlast, hhidden,
          hchanges, hexprs', hchanges', Function.comp_def]
    · obtain ⟨hexprs, hlast, hhidden, hchanges⟩ := walked_mapScopedM body hidden
      constructor <;>
        simp [mapScopedM, scopedExprs, mapOptionM_toList, count_mapOptionM, hexprs, hlast, hhidden,
          hchanges, Function.comp_def]
  | whileLoop p body c | doWhile p body c =>
    obtain ⟨hexprs, hlast, hhidden, hchanges⟩ := walked_mapScopedM body hidden
    constructor <;> simp [mapScopedM, scopedExprs, hexprs, hlast, hhidden, hchanges]
  | ret value c =>
    constructor <;>
      simp [mapScopedM, scopedExprs, mapOptionM_toList, count_mapOptionM, Function.comp_def]
  | label n s c => exact walked_mapScopedM s hidden
  | brk | cont | goto | empty => exact ⟨rfl, rfl, rfl, rfl⟩

/-- The walks of statements and of the mapped statements agree. -/
theorem walked_mapScopedListM (items : List Stmt) (hidden : List String) :
    Walked f (scopedExprsList declareName hidden items)
      (scopedExprsList declareName hidden (mapScopedListM declareName f hidden items).value.1)
      (mapScopedListM declareName f hidden items).value.2
      (mapScopedListM declareName f hidden items).count := by
  cases items with
  | nil => exact ⟨rfl, rfl, rfl, rfl⟩
  | cons s rest =>
    obtain ⟨hexprs, hlast, hhidden, hchanges⟩ := walked_mapScopedM s hidden
    obtain ⟨hexprs', hlast', hhidden', hchanges'⟩ :=
      walked_mapScopedListM rest (scopedExprs declareName hidden s).2
    constructor <;>
      simp [mapScopedListM, scopedExprsList, hexprs, hlast, hhidden, hchanges, hexprs', hlast',
        hhidden', hchanges']

end

mutual

/-- A map of the expressions that undoes the changes gives the statement back. -/
theorem mapExprsM_mapScopedM (s : Stmt) (hidden : List String)
    (hg : ∀ p ∈ (scopedExprs declareName hidden s).1, g (f p.1 p.2).value = p.2) :
    mapExprsM (m := Id) g (mapScopedM declareName f hidden s).value.1 = s := by
  cases s with
  | decl d c => exact congrArg (decl · c) (Decl.mapExprsM_mapExprsM (List.forall_mem_map.1 hg))
  | block items b c => exact congrArg (block · b c) (mapExprsListM_mapScopedListM items hidden hg)
  | expr e c => exact congrArg (expr · c) (hg _ List.mem_cons_self)
  | ifThen p t c =>
    obtain ⟨hp, ht⟩ := List.forall_mem_cons.1 hg
    exact congrArg₂ (ifThen · · c) hp (mapExprsM_mapScopedM t hidden ht)
  | ifElse p t e c =>
    obtain ⟨hpt, he⟩ := List.forall_mem_append.1 hg
    obtain ⟨hp, ht⟩ := List.forall_mem_cons.1 hpt
    have htrue := mapExprsM_mapScopedM t hidden ht
    have hfalse : mapExprsM (m := Id) g
        (mapScopedM declareName f (mapScopedM declareName f hidden t).value.2 e).value.1 = e := by
      rw [(walked_mapScopedM t hidden).hidden]
      exact mapExprsM_mapScopedM e _ he
    change ifElse _ _ _ c = _
    rw [hp, htrue, hfalse]
  | forLoop init cond next body c =>
    -- What the initializer clause hides is hidden in all of this.
    have hrest (inner : List String)
        (hclauses : ∀ e ∈ cond.toList ++ next.toList, g (f inner e).value = e)
        (hbody : ∀ p ∈ (scopedExprs declareName inner body).1, g (f p.1 p.2).value = p.2) :
        mapOptionM (m := Id) g (mapOptionM (f inner) cond).value = cond ∧
          mapOptionM (m := Id) g (mapOptionM (f inner) next).value = next ∧
          mapExprsM (m := Id) g (mapScopedM declareName f inner body).value.1 = body := by
      obtain ⟨hcond, hnext⟩ := List.forall_mem_append.1 hclauses
      exact ⟨mapOptionM_mapOptionM hcond, mapOptionM_mapOptionM hnext,
        mapExprsM_mapScopedM body inner hbody⟩
    rcases init with _ | ds | e
    · obtain ⟨hclauses, hbody⟩ := List.forall_mem_append.1 hg
      obtain ⟨hcond, hnext, hbody⟩ := hrest hidden (List.forall_mem_map.1 hclauses) hbody
      change forLoop none _ _ _ c = _
      rw [hcond, hnext, hbody]
    · obtain ⟨hclauses, hbody⟩ := List.forall_mem_append.1 hg
      obtain ⟨hdecls, hclauses⟩ := List.forall_mem_append.1 hclauses
      obtain ⟨hcond, hnext, hbody⟩ := hrest (Decl.scopedExprsList declareName hidden ds).2
        (List.forall_mem_map.1 hclauses) hbody
      have hds := Decl.mapExprsListM_mapScopedListM ds hidden hdecls
      rw [← (Decl.walked_mapScopedListM ds hidden).hidden] at hcond hnext hbody
      change forLoop (some (.decls _)) _ _ _ c = _
      rw [hds, hcond, hnext, hbody]
    · obtain ⟨hclauses, hbody⟩ := List.forall_mem_append.1 hg
      obtain ⟨he, hclauses⟩ := List.forall_mem_cons.1 hclauses
      obtain ⟨hcond, hnext, hbody⟩ := hrest hidden (List.forall_mem_map.1 hclauses) hbody
      change forLoop (some (.expr _)) _ _ _ c = _
      rw [he, hcond, hnext, hbody]
  | whileLoop p body c =>
    obtain ⟨hp, hbody⟩ := List.forall_mem_cons.1 hg
    exact congrArg₂ (whileLoop · · c) hp (mapExprsM_mapScopedM body hidden hbody)
  | doWhile p body c =>
    obtain ⟨hp, hbody⟩ := List.forall_mem_cons.1 hg
    exact congrArg₂ (doWhile · · c) hp (mapExprsM_mapScopedM body hidden hbody)
  | ret value c => exact congrArg (ret · c) (mapOptionM_mapOptionM (List.forall_mem_map.1 hg))
  | label n s c => exact congrArg (label n · c) (mapExprsM_mapScopedM s hidden hg)
  | brk | cont | goto | empty => rfl

/-- A map of the expressions that undoes the changes gives the statements back. -/
theorem mapExprsListM_mapScopedListM (items : List Stmt) (hidden : List String)
    (hg : ∀ p ∈ (scopedExprsList declareName hidden items).1, g (f p.1 p.2).value = p.2) :
    mapExprsListM (m := Id) g (mapScopedListM declareName f hidden items).value.1 = items := by
  cases items with
  | nil => rfl
  | cons s rest =>
    obtain ⟨hs, hrest⟩ := List.forall_mem_append.1 hg
    have hhere := mapExprsM_mapScopedM s hidden hs
    have hthere := mapExprsListM_mapScopedListM rest _ hrest
    rw [← (walked_mapScopedM (f := f) s hidden).hidden] at hthere
    exact congrArg₂ List.cons hhere hthere

end

mutual

/-- The walk of a statement that a name does not occur in. -/
theorem without_scopedExprs (s : Stmt) (hidden : List String) (hx : x ∉ hidden)
    (hs : ∀ t ∈ s.substmts, x ∉ t.ownNames) : Without x (scopedExprs declareName hidden s) := by
  have hself : s ∈ s.substmts := by cases s <;> simp [substmts]
  have hown : x ∉ s.ownExprs.flatMap Expr.names := fun h =>
    hs s hself (List.mem_append_left _ h)
  have hdecl (d : Decl) (hd : d ∈ s.ownDecls) : d.name ≠ some x := fun hname =>
    hs s hself (List.mem_append_right _ (List.mem_filterMap.2 ⟨d, hd, hname⟩))
  cases s with
  | decl d c =>
    refine ⟨without_map hx hown, ?_⟩
    simpa [scopedExprs, declareName_eq, hx] using hdecl d List.mem_cons_self
  | block items b c =>
    have hitems := without_scopedExprsList items hidden hx (List.forall_mem_cons.1 hs).2
    exact ⟨hitems.exprs, hx⟩
  | expr e c => exact ⟨without_map hx hown, hx⟩
  | ifThen p t c =>
    obtain ⟨hexprs, hlast⟩ := without_scopedExprs t hidden hx (List.forall_mem_cons.1 hs).2
    exact ⟨List.forall_mem_append.2 ⟨without_map hx hown, hexprs⟩, hlast⟩
  | ifElse p t e c =>
    obtain ⟨ht, he⟩ := List.forall_mem_append.1 (List.forall_mem_cons.1 hs).2
    -- The second branch is walked with what the first one hides, and the name is not hidden.
    obtain ⟨hexprs, hbetween⟩ := without_scopedExprs t hidden hx ht
    obtain ⟨hexprs', hlast⟩ := without_scopedExprs e _ hbetween he
    have hp := without_map hx hown
    exact ⟨List.forall_mem_append.2 ⟨List.forall_mem_append.2 ⟨hp, hexprs⟩, hexprs'⟩, hlast⟩
  | forLoop init cond next body c =>
    have hbody := (List.forall_mem_cons.1 hs).2
    simp only [ownExprs, List.append_assoc, List.flatMap_append, List.mem_append, not_or] at hown
    obtain ⟨hinit, hcond, hnext⟩ := hown
    have hclauses : x ∉ (cond.toList ++ next.toList).flatMap Expr.names := by
      rw [List.flatMap_append, List.mem_append, not_or]
      exact ⟨hcond, hnext⟩
    rcases init with _ | ds | e
    · obtain ⟨hexprs, hlast⟩ := without_scopedExprs body hidden hx hbody
      exact ⟨List.forall_mem_append.2 ⟨without_map hx hclauses, hexprs⟩, hlast⟩
    · have hds (d : Decl) (hd : d ∈ ds) : x ∉ d.usedNames ∧ d.name ≠ some x := by
        refine ⟨fun hxd => hinit ?_, hdecl d (by simpa [ownDecls, ForInit.declList] using hd)⟩
        obtain ⟨e, he, hxe⟩ := List.mem_flatMap.1 hxd
        exact List.mem_flatMap.2 ⟨e, by simpa [ForInit.rootExprs] using ⟨d, hd, he⟩, hxe⟩
      obtain ⟨hdecls, hinner⟩ := Decl.without_scopedExprsList ds hidden hx hds
      obtain ⟨hexprs, -⟩ := without_scopedExprs body _ hinner hbody
      refine ⟨List.forall_mem_append.2 ⟨List.forall_mem_append.2 ⟨hdecls, ?_⟩, hexprs⟩, hx⟩
      exact without_map hinner hclauses
    · obtain ⟨hexprs, hlast⟩ := without_scopedExprs body hidden hx hbody
      refine ⟨List.forall_mem_append.2 ⟨without_map hx fun hxe => ?_, hexprs⟩, hlast⟩
      rcases List.mem_append.1 hxe with hxe | hxe
      · exact hinit (by simpa [ForInit.rootExprs] using hxe)
      · exact hclauses hxe
  | whileLoop p body c | doWhile p body c =>
    obtain ⟨hexprs, hlast⟩ := without_scopedExprs body hidden hx (List.forall_mem_cons.1 hs).2
    exact ⟨List.forall_mem_append.2 ⟨without_map hx hown, hexprs⟩, hlast⟩
  | ret value c => exact ⟨without_map hx hown, hx⟩
  | label n s c => exact without_scopedExprs s hidden hx (List.forall_mem_cons.1 hs).2
  | brk | cont | goto | empty => exact ⟨fun _ hp => absurd hp List.not_mem_nil, hx⟩

/-- The walk of statements that a name does not occur in. -/
theorem without_scopedExprsList (items : List Stmt) (hidden : List String) (hx : x ∉ hidden)
    (hs : ∀ t ∈ substmtsList items, x ∉ t.ownNames) :
    Without x (scopedExprsList declareName hidden items) := by
  cases items with
  | nil => exact ⟨fun _ hp => absurd hp List.not_mem_nil, hx⟩
  | cons s rest =>
    obtain ⟨hhere, hthere⟩ := List.forall_mem_append.1 hs
    obtain ⟨hexprs, hnext⟩ := without_scopedExprs s hidden hx hhere
    obtain ⟨hexprs', hlast⟩ := without_scopedExprsList rest _ hnext hthere
    exact ⟨List.forall_mem_append.2 ⟨hexprs, hexprs'⟩, hlast⟩

end

end Stmt

end MathKernel
