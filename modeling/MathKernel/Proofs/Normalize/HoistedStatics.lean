import Mathlib.Algebra.Order.Group.Multiset
import Mathlib.Tactic.Abel
import MathKernel.Normalize.StaticStorage
import MathKernel.Proofs.Syntax.References
import MathKernel.Proofs.Syntax.Walks

/-!
# Static variables outside their function

The static variables of a body are taken out of the blocks that declare them. If they are declared
outside the function instead, every use refers to what it did, as long as no use of such a name was
free in the body before and none of the variables uses a name of the function.

## Main definitions

* `Stmt.statics`, `Stmt.withoutStatics` — the static variables of a statement, and what is left
* `Scope.AgreeOn` — two scopes are the same but for some names
* `Decl.IsOutside` — a static variable can stand outside

## Main results

* `Block.mapBlocksM_takeStatics` — what taking the static variables out gives
* `Stmt.references_withoutStatics` — what is taken out and what is left have the references
-/

namespace MathKernel

/-! ### Taking the static variables out -/

namespace Stmt

mutual

/-- The static variables in the blocks of a statement, those of inner blocks first. -/
def statics : Stmt → List Decl
  | block items _ _ => staticsList items ++ items.filterMap staticVariable?
  | ifThen _ t _ => t.statics
  | ifElse _ t e _ => t.statics ++ e.statics
  | forLoop _ _ _ body _ => body.statics
  | whileLoop _ body _ => body.statics
  | doWhile _ body _ => body.statics
  | label _ s _ => s.statics
  | decl .. | expr .. | ret .. | brk _ | cont _ | goto .. | empty _ => []

/-- The static variables in the blocks of statements. -/
def staticsList : List Stmt → List Decl
  | [] => []
  | s :: rest => s.statics ++ staticsList rest

end

mutual

/-- The statement without the static variables in its blocks. -/
def withoutStatics : Stmt → Stmt
  | block items b c => block (keptItems items) b c
  | ifThen p t c => ifThen p t.withoutStatics c
  | ifElse p t e c => ifElse p t.withoutStatics e.withoutStatics c
  | forLoop init cond next body c => forLoop init cond next body.withoutStatics c
  | whileLoop p body c => whileLoop p body.withoutStatics c
  | doWhile p body c => doWhile p body.withoutStatics c
  | label n s c => label n s.withoutStatics c
  | decl d c => decl d c
  | expr e c => expr e c
  | ret v c => ret v c
  | brk c => brk c
  | cont c => cont c
  | goto l c => goto l c
  | empty c => empty c

/-- What is left of the items of a block. -/
def keptItems : List Stmt → List Stmt
  | [] => []
  | s :: rest =>
    if s.staticVariable?.isSome then keptItems rest else s.withoutStatics :: keptItems rest

end

theorem staticVariable?_withoutStatics (s : Stmt) :
    s.withoutStatics.staticVariable? = s.staticVariable? := by
  cases s <;> rfl

theorem declared?_withoutStatics (s : Stmt) : s.withoutStatics.declared? = s.declared? := by
  cases s with
  | label n s c => exact declared?_withoutStatics s
  | _ => rfl

theorem keptItems_eq (items : List Stmt) :
    keptItems items = (items.map withoutStatics).filter fun s => s.staticVariable?.isNone := by
  induction items with
  | nil => rfl
  | cons s rest ih =>
    rw [keptItems, List.map_cons, List.filter_cons, staticVariable?_withoutStatics, ih]
    cases s.staticVariable? <;> rfl

theorem filterMap_staticVariable?_map (items : List Stmt) :
    (items.map withoutStatics).filterMap staticVariable? = items.filterMap staticVariable? := by
  rw [List.filterMap_map]
  exact List.filterMap_congr fun s _ => staticVariable?_withoutStatics s

mutual

theorem mapBlocksM_takeStatics (s : Stmt) (found : List Decl) :
    (s.mapBlocksM Block.takeStatics).run found = (s.withoutStatics, found ++ s.statics) := by
  cases s with
  | block items b c =>
    -- Taking from the block itself comes after taking from its items.
    simp only [mapBlocksM, StateM.run_bind_eq, StateM.run_pure_eq, mapBlocksListM_takeStatics items,
      Block.takeStatics_run, withoutStatics, statics, keptItems_eq, filterMap_staticVariable?_map,
      List.append_assoc]
  | ifThen p t c =>
    simp only [mapBlocksM, StateM.run_bind_eq, StateM.run_pure_eq, mapBlocksM_takeStatics t,
      withoutStatics, statics]
  | ifElse p t e c =>
    simp only [mapBlocksM, StateM.run_bind_eq, StateM.run_pure_eq, mapBlocksM_takeStatics t,
      mapBlocksM_takeStatics e, withoutStatics, statics, List.append_assoc]
  | forLoop init cond next body c | whileLoop p body c | doWhile p body c =>
    simp only [mapBlocksM, StateM.run_bind_eq, StateM.run_pure_eq, mapBlocksM_takeStatics body,
      withoutStatics, statics]
  | label n s c =>
    simp only [mapBlocksM, StateM.run_bind_eq, StateM.run_pure_eq, mapBlocksM_takeStatics s,
      withoutStatics, statics]
  | decl | expr | ret | brk | cont | goto | empty =>
    simp only [mapBlocksM, StateM.run_pure_eq, withoutStatics, statics, List.append_nil]

theorem mapBlocksListM_takeStatics (items : List Stmt) (found : List Decl) :
    (mapBlocksListM Block.takeStatics items).run found =
      (items.map withoutStatics, found ++ staticsList items) := by
  cases items with
  | nil =>
    simp only [mapBlocksListM, StateM.run_pure_eq, List.map_nil, staticsList, List.append_nil]
  | cons s rest =>
    simp only [mapBlocksListM, StateM.run_bind_eq, StateM.run_pure_eq, mapBlocksM_takeStatics s,
      mapBlocksListM_takeStatics rest, List.map_cons, staticsList, List.append_assoc]

end

end Stmt

/-- The static variables of a body. -/
def Block.statics (b : Block) : List Decl :=
  Stmt.staticsList b.items ++ b.items.filterMap Stmt.staticVariable?

/-- The body without its static variables. -/
def Block.withoutStatics (b : Block) : Block :=
  { b with items := Stmt.keptItems b.items }

theorem Block.mapBlocksM_takeStatics (b : Block) :
    (b.mapBlocksM Block.takeStatics).run [] = (b.withoutStatics, b.statics) := by
  simp only [Block.mapBlocksM, StateM.run_bind_eq, Stmt.mapBlocksListM_takeStatics, List.nil_append,
    takeStatics_run, withoutStatics, statics, Stmt.keptItems_eq,
    Stmt.filterMap_staticVariable?_map]

namespace Stmt

theorem isDecl_withoutStatics (s : Stmt) : s.withoutStatics.isDecl = s.isDecl := by
  cases s with
  | label n s c => exact isDecl_withoutStatics s
  | _ => rfl

mutual

theorem declsInBlocks_withoutStatics (s : Stmt) (h : s.declsInBlocks) :
    s.withoutStatics.declsInBlocks := by
  cases s with
  | block items b c => exact declsInBlocks_keptItems items h
  | ifThen p t c =>
    simp only [declsInBlocks, withoutStatics, isDecl_withoutStatics, Bool.and_eq_true] at h ⊢
    exact ⟨h.1, declsInBlocks_withoutStatics t h.2⟩
  | ifElse p t e c =>
    simp only [declsInBlocks, withoutStatics, isDecl_withoutStatics, Bool.and_eq_true] at h ⊢
    exact ⟨⟨h.1.1, declsInBlocks_withoutStatics t h.1.2⟩, declsInBlocks_withoutStatics e h.2⟩
  | forLoop init cond next body c =>
    simp only [declsInBlocks, withoutStatics, isDecl_withoutStatics, Bool.and_eq_true] at h ⊢
    exact ⟨h.1, declsInBlocks_withoutStatics body h.2⟩
  | whileLoop p body c | doWhile p body c =>
    simp only [declsInBlocks, withoutStatics, isDecl_withoutStatics, Bool.and_eq_true] at h ⊢
    exact ⟨h.1, declsInBlocks_withoutStatics body h.2⟩
  | label n s c => exact declsInBlocks_withoutStatics s h
  | decl | expr | ret | brk | cont | goto | empty => rfl

theorem declsInBlocks_keptItems (items : List Stmt) (h : declsInBlocksList items) :
    declsInBlocksList (keptItems items) := by
  cases items with
  | nil => rfl
  | cons s rest =>
    simp only [declsInBlocksList, Bool.and_eq_true] at h
    have hrest := declsInBlocks_keptItems rest h.2
    rw [keptItems]
    split
    · exact hrest
    · simp only [declsInBlocksList, Bool.and_eq_true]
      exact ⟨declsInBlocks_withoutStatics s h.1, hrest⟩

end

/-- The statement has the expressions and the declarations of one of the given statements. -/
def IsFrom (t : Stmt) (parts : List Stmt) : Prop :=
  ∃ s ∈ parts, t.ownExprs = s.ownExprs ∧ t.ownDecls = s.ownDecls

theorem IsFrom.mono {t : Stmt} {parts parts' : List Stmt} (h : t.IsFrom parts)
    (hsub : parts ⊆ parts') : t.IsFrom parts' := by
  obtain ⟨s, hs, heq⟩ := h
  exact ⟨s, hsub hs, heq⟩

mutual

/-- What is left of a statement has nothing that was not there. -/
theorem isFrom_of_mem_withoutStatics (s : Stmt) {t : Stmt} (ht : t ∈ s.withoutStatics.substmts) :
    t.IsFrom s.substmts := by
  cases s with
  | block items b c =>
    rcases List.mem_cons.1 ht with rfl | ht
    · exact ⟨_, List.mem_cons_self, rfl, rfl⟩
    · exact (isFrom_of_mem_keptItems items ht).mono (List.subset_cons_self _ _)
  | ifThen p t' c =>
    rcases List.mem_cons.1 ht with rfl | ht
    · exact ⟨_, List.mem_cons_self, rfl, rfl⟩
    · exact (isFrom_of_mem_withoutStatics t' ht).mono (List.subset_cons_self _ _)
  | ifElse p t' e c =>
    rcases List.mem_cons.1 ht with rfl | ht
    · exact ⟨_, List.mem_cons_self, rfl, rfl⟩
    · rcases List.mem_append.1 ht with ht | ht
      · exact (isFrom_of_mem_withoutStatics t' ht).mono
          (List.subset_cons_of_subset _ (List.subset_append_left _ _))
      · exact (isFrom_of_mem_withoutStatics e ht).mono
          (List.subset_cons_of_subset _ (List.subset_append_right _ _))
  | forLoop init cond next body c | whileLoop p body c | doWhile p body c =>
    rcases List.mem_cons.1 ht with rfl | ht
    · exact ⟨_, List.mem_cons_self, rfl, rfl⟩
    · exact (isFrom_of_mem_withoutStatics body ht).mono (List.subset_cons_self _ _)
  | label n s c =>
    rcases List.mem_cons.1 ht with rfl | ht
    · exact ⟨_, List.mem_cons_self, rfl, rfl⟩
    · exact (isFrom_of_mem_withoutStatics s ht).mono (List.subset_cons_self _ _)
  | decl | expr | ret | brk | cont | goto | empty => exact ⟨t, ht, rfl, rfl⟩

theorem isFrom_of_mem_keptItems (items : List Stmt) {t : Stmt}
    (ht : t ∈ substmtsList (keptItems items)) : t.IsFrom (substmtsList items) := by
  cases items with
  | nil => cases ht
  | cons s rest =>
    rw [keptItems] at ht
    split at ht
    · exact (isFrom_of_mem_keptItems rest ht).mono (List.subset_append_right _ _)
    · rcases List.mem_append.1 ht with ht | ht
      · exact (isFrom_of_mem_withoutStatics s ht).mono (List.subset_append_left _ _)
      · exact (isFrom_of_mem_keptItems rest ht).mono (List.subset_append_right _ _)

end

theorem staticVariable?_eq_some {s : Stmt} {d : Decl} (h : s.staticVariable? = some d) :
    d.isStaticVariable = true ∧ ∃ c, s = decl d c := by
  cases s with
  | decl d' c =>
    obtain ⟨hd, rfl⟩ : d'.isStaticVariable = true ∧ d' = d := by simpa [staticVariable?] using h
    exact ⟨hd, c, rfl⟩
  | _ => cases h

/-- A static variable that is declared among the given statements. -/
def DeclaresStatic (parts : List Stmt) (d : Decl) : Prop :=
  d.isStaticVariable = true ∧ ∃ c, decl d c ∈ parts

theorem DeclaresStatic.mono {parts parts' : List Stmt} {d : Decl} (h : DeclaresStatic parts d)
    (hsub : parts ⊆ parts') : DeclaresStatic parts' d := by
  obtain ⟨hd, c, hc⟩ := h
  exact ⟨hd, c, hsub hc⟩

theorem declaresStatic_of_mem_filterMap {items : List Stmt} {d : Decl}
    (hd : d ∈ items.filterMap staticVariable?) : DeclaresStatic (substmtsList items) d := by
  induction items with
  | nil => cases hd
  | cons s rest ih =>
    obtain ⟨t, ht, hvariable⟩ := List.mem_filterMap.1 hd
    obtain ⟨hstatic, c, rfl⟩ := staticVariable?_eq_some hvariable
    rcases List.mem_cons.1 ht with rfl | ht
    · exact ⟨hstatic, c, List.mem_cons_self⟩
    · exact (ih (List.mem_filterMap.2 ⟨_, ht, hvariable⟩)).mono (List.subset_append_right _ _)

mutual

/-- A static variable that is taken out is declared in the statement. -/
theorem declaresStatic_of_mem_statics (s : Stmt) {d : Decl} (hd : d ∈ s.statics) :
    DeclaresStatic s.substmts d := by
  cases s with
  | block items b c =>
    refine DeclaresStatic.mono ?_ (List.subset_cons_self _ _)
    rcases List.mem_append.1 hd with hd | hd
    · exact declaresStatic_of_mem_staticsList items hd
    · exact declaresStatic_of_mem_filterMap hd
  | ifThen p t c => exact (declaresStatic_of_mem_statics t hd).mono (List.subset_cons_self _ _)
  | ifElse p t e c =>
    refine DeclaresStatic.mono ?_ (List.subset_cons_self _ _)
    rcases List.mem_append.1 hd with hd | hd
    · exact (declaresStatic_of_mem_statics t hd).mono (List.subset_append_left _ _)
    · exact (declaresStatic_of_mem_statics e hd).mono (List.subset_append_right _ _)
  | forLoop init cond next body c | whileLoop p body c | doWhile p body c =>
    exact (declaresStatic_of_mem_statics body hd).mono (List.subset_cons_self _ _)
  | label n s c => exact (declaresStatic_of_mem_statics s hd).mono (List.subset_cons_self _ _)
  | decl | expr | ret | brk | cont | goto | empty => cases hd

theorem declaresStatic_of_mem_staticsList (items : List Stmt) {d : Decl}
    (hd : d ∈ staticsList items) : DeclaresStatic (substmtsList items) d := by
  cases items with
  | nil => cases hd
  | cons s rest =>
    rcases List.mem_append.1 hd with hd | hd
    · exact (declaresStatic_of_mem_statics s hd).mono (List.subset_append_left _ _)
    · exact (declaresStatic_of_mem_staticsList rest hd).mono (List.subset_append_right _ _)

end

end Stmt

theorem Block.declaresStatic_of_mem_statics {b : Block} {d : Decl} (hd : d ∈ b.statics) :
    Stmt.DeclaresStatic b.stmts d := by
  rcases List.mem_append.1 hd with hd | hd
  · exact Stmt.declaresStatic_of_mem_staticsList b.items hd
  · exact Stmt.declaresStatic_of_mem_filterMap hd

/-! ### Scopes that agree -/

/-- The scopes are the same but for those of the given names that are not among the free ones. -/
def Scope.AgreeOn (names free : List String) (σ τ : Scope) : Prop :=
  ∀ x, (x ∈ names → x ∈ free) → σ x = τ x

section Agreement

variable {names free : List String} {σ τ : Scope}

namespace Scope.AgreeOn

theorem mono {free' : List String} (h : AgreeOn names free σ τ) (hfree : free' ⊆ free) :
    AgreeOn names free' σ τ :=
  fun x hx => h x fun hmem => hfree (hx hmem)

/-- A declared name is the same in both scopes, so it need not be free before. -/
theorem declare {d : Decl} (h : AgreeOn names free σ τ) {inner : List String}
    (hinner : ∀ x ∈ inner, d.name ≠ some x → x ∈ free) :
    AgreeOn names inner (σ.declare d) (τ.declare d) := by
  intro x hx
  exact declare_congr fun hd => h x fun hmem => hinner x (hx hmem) hd

/-- A declaration that the second scope knows from outside. -/
theorem declareOutside {d : Decl} (h : AgreeOn names free σ τ) {inner : List String}
    (hknown : ∀ x, d.name = some x → τ x = some d.coord)
    (hinner : ∀ x ∈ inner, d.name ≠ some x → x ∈ free) :
    AgreeOn names inner (σ.declare d) τ := by
  intro x hx
  by_cases hd : d.name = some x
  · rw [declare_of_name hd, hknown x hd]
  · rw [declare_of_ne hd]
    exact h x fun hmem => hinner x (hx hmem) hd

theorem eq_of_used (h : AgreeOn names free σ τ) {es : List Expr} {x : String}
    (hfree : es.flatMap Expr.ids ⊆ free) (hcalls : ∀ x ∈ es.flatMap Expr.calls, x ∉ names)
    (hx : x ∈ es.flatMap Expr.names) : σ x = τ x := by
  refine h x fun hmem => ?_
  obtain ⟨e, he, hxe⟩ := List.mem_flatMap.1 hx
  rcases Expr.mem_names.1 hxe with hid | hcall
  · exact hfree (List.mem_flatMap.2 ⟨e, he, hid⟩)
  · exact absurd hmem (hcalls x (List.mem_flatMap.2 ⟨e, he, hcall⟩))

theorem references (h : AgreeOn names free σ τ) {es : List Expr}
    (hfree : es.flatMap Expr.ids ⊆ free) (hcalls : ∀ x ∈ es.flatMap Expr.calls, x ∉ names) :
    Expr.referencesList σ es = Expr.referencesList τ es :=
  Expr.referencesList_congr fun _ hx => h.eq_of_used hfree hcalls hx

theorem reference (h : AgreeOn names free σ τ) {e : Expr} (hfree : e.ids ⊆ free)
    (hcalls : ∀ x ∈ e.calls, x ∉ names) : e.references σ = e.references τ := by
  refine Expr.references_congr fun x hx => h x fun hmem => ?_
  rcases Expr.mem_names.1 hx with hid | hcall
  · exact hfree hid
  · exact absurd hmem (hcalls x hcall)

theorem declReferences (h : AgreeOn names free σ τ) {d : Decl} (hfree : d.ids ⊆ free)
    (hcalls : ∀ x ∈ d.rootExprs.flatMap Expr.calls, x ∉ names) :
    d.references σ = d.references τ :=
  Decl.references_congr fun _ hx => h.eq_of_used hfree hcalls hx

/-- Declarations before code with the given free names. -/
theorem declareAll {ds : List Decl} {inner : List String}
    (h : AgreeOn names (Decl.freeIdsBefore inner ds) σ τ)
    (hcalls : ∀ d ∈ ds, ∀ x ∈ d.rootExprs.flatMap Expr.calls, x ∉ names) :
    Decl.referencesList σ ds = Decl.referencesList τ ds ∧
      AgreeOn names inner (σ.declareAll ds) (τ.declareAll ds) := by
  induction ds generalizing σ τ with
  | nil => exact ⟨rfl, h⟩
  | cons d rest ih =>
    obtain ⟨hd, hrest⟩ := List.forall_mem_cons.1 hcalls
    have hafter : AgreeOn names (Decl.freeIdsBefore inner rest) (σ.declare d) (τ.declare d) := by
      refine h.declare fun x hx hname => List.mem_append_right _ (List.mem_filter.2 ⟨hx, ?_⟩)
      cases hd : d.name with
      | none => rfl
      | some y =>
        have hne : x ≠ y := fun hxy => hname (hxy ▸ hd)
        simpa using hne
    obtain ⟨hreferences, hscopes⟩ := ih hafter hrest
    refine ⟨?_, hscopes⟩
    exact congrArg₂ (· ++ ·) (h.declReferences (List.subset_append_left _ _) hd) hreferences

end Scope.AgreeOn

end Agreement

/-! ### Static variables outside -/

/-- A static variable that is known outside, and that uses no name of the function. -/
structure Decl.IsOutside (outer : Scope) (locals : List String) (d : Decl) : Prop where
  known : ∃ x, d.name = some x ∧ x ∉ locals ∧ outer x = some d.coord
  used : ∀ x ∈ d.usedNames, x ∉ locals

namespace Stmt

variable {names locals : List String} {outer : Scope}

/-- What has to hold of the parts of a statement, and of the declarations that are taken out and of
those that are left. -/
structure Takable (names locals : List String) (outer : Scope) (parts : List Stmt)
    (taken left : List Decl) : Prop where
  calls : ∀ t ∈ parts, ∀ x ∈ t.ownExprs.flatMap Expr.calls, x ∉ names
  taken : ∀ d ∈ taken, d.IsOutside outer locals
  left : ∀ d ∈ left, ∀ x, d.name = some x → x ∈ locals

/-- What holds of a statement holds of a part of it. -/
theorem Takable.mono {parts parts' kept kept' : List Stmt} {taken taken' : List Decl}
    (h : Takable names locals outer parts taken (kept.flatMap ownDecls)) (hparts : parts' ⊆ parts)
    (htaken : taken' ⊆ taken) (hkept : kept' ⊆ kept) :
    Takable names locals outer parts' taken' (kept'.flatMap ownDecls) where
  calls t ht := h.calls t (hparts ht)
  taken d hd := h.taken d (htaken hd)
  left d hd := h.left d (flatMap_subset_of_subset _ hkept hd)

/-- A name that is free after a statement is bound by it or free before. -/
theorem mem_freeIdsList_cons {s : Stmt} {rest : List Stmt} {x : String} (hx : x ∈ freeIdsList rest)
    (hname : ∀ d, s.declared? = some d → d.name ≠ some x) : x ∈ freeIdsList (s :: rest) := by
  refine List.mem_append_right _ (List.mem_filter.2 ⟨hx, ?_⟩)
  rw [binds_eq]
  cases hd : s.declared? with
  | none => simp
  | some d => simpa using hname d hd

/-- The scopes after a statement. -/
theorem agreeOn_rest {s : Stmt} {rest : List Stmt} {σ τ : Scope}
    (h : Scope.AgreeOn names (freeIdsList (s :: rest)) σ τ) :
    Scope.AgreeOn names (freeIdsList rest) (σ.declareAll s.declared?.toList)
      (τ.declareAll s.declared?.toList) := by
  cases hd : s.declared? with
  | none => exact h.mono fun x hx => mem_freeIdsList_cons hx (by simp [hd])
  | some d => exact h.declare fun x hx hname => mem_freeIdsList_cons hx (by simp_all)

/-- Statements leave the names that are not local as they are. -/
theorem declareAll_of_notMem_locals {s : Stmt} {τ : Scope} {x : String}
    (hs : ∀ d ∈ s.decls, ∀ y, d.name = some y → y ∈ locals) (hx : x ∉ locals) :
    τ.declareAll s.declared?.toList x = τ x := by
  refine Scope.declareAll_of_notMem fun hmem => hx ?_
  obtain ⟨d, hd, hname⟩ := List.mem_filterMap.1 hmem
  obtain ⟨t, ht, hdt⟩ := exists_ownDecls_of_declared? (Option.mem_toList.1 hd)
  exact hs d (List.mem_flatMap.2 ⟨t, ht, hdt⟩) x hname

/-- A loop whose body refers to the same things refers to the same things itself. -/
theorem references_forLoop_withoutStatics {init : Option ForInit} {cond next : Option Expr}
    {body : Stmt} {c : Coord} {σ τ : Scope}
    (hcalls : ∀ x ∈ (forLoop init cond next body c).ownExprs.flatMap Expr.calls, x ∉ names)
    (hlocals : ∀ d ∈ (forLoop init cond next body c).ownDecls, ∀ x, d.name = some x → x ∈ locals)
    (hbody : ∀ {σ τ : Scope}, Scope.AgreeOn names body.freeIds σ τ → (∀ x ∉ locals, τ x = outer x) →
      (body.references σ : Multiset Reference) =
        ↑(body.statics.flatMap (Decl.references outer)) + ↑(body.withoutStatics.references τ))
    (hscopes : Scope.AgreeOn names (forLoop init cond next body c).freeIds σ τ)
    (houter : ∀ x ∉ locals, τ x = outer x) :
    ((forLoop init cond next body c).references σ : Multiset Reference) =
      ↑((forLoop init cond next body c).statics.flatMap (Decl.references outer)) +
        ↑((forLoop init cond next body c).withoutStatics.references τ) := by
  -- The clauses and the body see the scope that the initializer clause leaves.
  have hrest {σ τ : Scope} (hscopes : Scope.AgreeOn names
        (Expr.idsOption cond ++ Expr.idsOption next ++ body.freeIds) σ τ)
      (houter : ∀ x ∉ locals, τ x = outer x) :
      (Expr.referencesList σ (cond.toList ++ next.toList) ++ body.references σ :
          Multiset Reference) =
        ↑(body.statics.flatMap (Decl.references outer)) +
          ↑(Expr.referencesList τ (cond.toList ++ next.toList) ++
            body.withoutStatics.references τ) := by
    have hclauses : Expr.referencesList σ (cond.toList ++ next.toList) =
        Expr.referencesList τ (cond.toList ++ next.toList) := by
      refine hscopes.references ?_ fun x hx => hcalls x ?_
      · rw [List.flatMap_append]
        exact List.subset_append_left _ _
      · rw [ownExprs, List.append_assoc]
        exact flatMap_subset_of_subset _ (List.subset_append_right _ _) hx
    have hbody := hbody (hscopes.mono (List.subset_append_right _ _)) houter
    rw [hclauses, ← Multiset.coe_add, ← Multiset.coe_add, hbody]
    abel
  rcases init with _ | ds | e
  · exact hrest hscopes houter
  · have hdeclCalls (d : Decl) (hd : d ∈ ds) (x : String)
        (hx : x ∈ d.rootExprs.flatMap Expr.calls) : x ∉ names := by
      refine hcalls x (flatMap_subset_of_subset _ (fun e he => ?_) hx)
      simp only [ownExprs, Option.toList_some, List.flatMap_singleton, ForInit.rootExprs,
        List.append_assoc]
      exact List.mem_append_left _ (List.mem_flatMap.2 ⟨d, hd, he⟩)
    have hnames (x : String) (hx : x ∈ ds.filterMap Decl.name) : x ∈ locals := by
      obtain ⟨d, hd, hname⟩ := List.mem_filterMap.1 hx
      exact hlocals d (by simpa [ownDecls, ForInit.declList] using hd) x hname
    obtain ⟨hdecls, hinner⟩ := hscopes.declareAll hdeclCalls
    have hloop := hrest hinner fun x hx =>
      (Scope.declareAll_of_notMem fun hmem => hx (hnames x hmem)).trans (houter x hx)
    simp only [references, statics, withoutStatics, ← Multiset.coe_add, add_assoc] at hloop ⊢
    rw [hdecls, hloop]
    abel
  · have he : e.references σ = e.references τ := by
      refine hscopes.reference (List.subset_append_left _ _) fun x hx => hcalls x ?_
      exact List.mem_flatMap.2 ⟨e, by simp [ownExprs, ForInit.rootExprs], hx⟩
    have hloop := hrest (hscopes.mono (List.subset_append_right _ _)) houter
    simp only [references, statics, withoutStatics, ← Multiset.coe_add, add_assoc] at hloop ⊢
    rw [he, hloop]
    abel

mutual

/-- The references of a statement are those of the static variables in it, seen from outside, and
those of what is left. -/
theorem references_withoutStatics (s : Stmt) {σ τ : Scope}
    (hs : Takable names locals outer s.substmts s.statics s.withoutStatics.decls)
    (hscopes : Scope.AgreeOn names s.freeIds σ τ) (houter : ∀ x ∉ locals, τ x = outer x) :
    (s.references σ : Multiset Reference) =
      ↑(s.statics.flatMap (Decl.references outer)) + ↑(s.withoutStatics.references τ) := by
  have hone {e : Expr} (he : e ∈ s.ownExprs) (hfree : e.ids ⊆ s.freeIds) :
      e.references σ = e.references τ := by
    refine hscopes.reference hfree fun x hx => hs.calls s ?_ x (List.mem_flatMap.2 ⟨e, he, hx⟩)
    cases s <;> exact List.mem_cons_self
  -- What is taken is listed first, whichever part it stood in: the order of references changes.
  cases s with
  | decl d c =>
    have hd := hscopes.declReferences (d := d) (List.Subset.refl _)
      (hs.calls _ List.mem_cons_self)
    simp [references, statics, withoutStatics, hd]
  | block items b c =>
    have hparts := hs.mono (List.subset_cons_self _ _) (List.Subset.refl _)
      (List.subset_cons_self _ _)
    exact references_keptItems items hparts hscopes houter
  | expr e c =>
    simp [references, statics, withoutStatics, hone List.mem_cons_self (List.Subset.refl _)]
  | ifThen p t c =>
    have hp := hone (e := p) List.mem_cons_self (List.subset_append_left _ _)
    have ht := references_withoutStatics t
      (hs.mono (List.subset_cons_self _ _) (List.Subset.refl _) (List.subset_cons_self _ _))
      (hscopes.mono (List.subset_append_right _ _)) houter
    simp only [references, statics, withoutStatics, ← Multiset.coe_add, ht, hp]
    abel
  | ifElse p t e c =>
    have hp := hone (e := p) List.mem_cons_self (by
      simp only [freeIds, List.append_assoc]
      exact List.subset_append_left _ _)
    have hparts := hs.mono (List.subset_cons_self _ _) (List.Subset.refl _)
      (List.subset_cons_self _ _)
    have ht := references_withoutStatics t
      (hparts.mono (List.subset_append_left _ _) (List.subset_append_left _ _)
        (List.subset_append_left _ _))
      (hscopes.mono (by
        simp only [freeIds, List.append_assoc]
        exact List.subset_append_of_subset_right _ (List.subset_append_left _ _))) houter
    have he := references_withoutStatics e
      (hparts.mono (List.subset_append_right _ _) (List.subset_append_right _ _)
        (List.subset_append_right _ _))
      (hscopes.mono (List.subset_append_right _ _)) houter
    simp only [references, statics, withoutStatics, List.flatMap_append, ← Multiset.coe_add, ht, he,
      hp]
    abel
  | forLoop init cond next body c =>
    have hparts := hs.mono (List.subset_cons_self _ _) (List.Subset.refl _)
      (List.subset_cons_self _ _)
    refine references_forLoop_withoutStatics (hs.calls _ List.mem_cons_self) (fun d hd => ?_)
      (fun hscopes houter => references_withoutStatics body hparts hscopes houter) hscopes houter
    exact hs.left d (List.mem_flatMap.2 ⟨_, List.mem_cons_self, hd⟩)
  | whileLoop p body c | doWhile p body c =>
    have hp := hone (e := p) List.mem_cons_self (List.subset_append_left _ _)
    have hbody := references_withoutStatics body
      (hs.mono (List.subset_cons_self _ _) (List.Subset.refl _) (List.subset_cons_self _ _))
      (hscopes.mono (List.subset_append_right _ _)) houter
    simp only [references, statics, withoutStatics, ← Multiset.coe_add, hbody, hp]
    abel
  | ret value c =>
    have hvalue : Expr.referencesList σ value.toList = Expr.referencesList τ value.toList :=
      hscopes.references (List.Subset.refl _) (hs.calls _ List.mem_cons_self)
    simp [references, statics, withoutStatics, hvalue]
  | label n s c =>
    exact references_withoutStatics s
      (hs.mono (List.subset_cons_self _ _) (List.Subset.refl _) (List.subset_cons_self _ _))
      hscopes houter
  | brk | cont | goto | empty => rfl

theorem references_keptItems (items : List Stmt) {σ τ : Scope}
    (hs : Takable names locals outer (substmtsList items)
      (staticsList items ++ items.filterMap staticVariable?) (declsList (keptItems items)))
    (hscopes : Scope.AgreeOn names (freeIdsList items) σ τ) (houter : ∀ x ∉ locals, τ x = outer x) :
    (referencesList σ items : Multiset Reference) =
      ↑((staticsList items ++ items.filterMap staticVariable?).flatMap (Decl.references outer)) +
        ↑(referencesList τ (keptItems items)) := by
  cases items with
  | nil => rfl
  | cons s rest =>
    cases hvariable : s.staticVariable? with
    | some d =>
      -- The variable goes: the inner scope has just declared it, and the outer one knows it.
      obtain ⟨-, c, rfl⟩ := staticVariable?_eq_some hvariable
      have hd := hs.taken d (by simp [hvariable])
      obtain ⟨x, hname, hlocal, hknown⟩ := hd.known
      have hkept : keptItems (decl d c :: rest) = keptItems rest := by
        simp [keptItems, hvariable]
      have hhere : d.references σ = d.references outer := by
        refine Decl.references_congr fun y hy => ?_
        have hused := hscopes.eq_of_used (List.subset_append_left _ _)
          (hs.calls _ List.mem_cons_self) hy
        exact hused.trans (houter y (hd.used y hy))
      -- From here on uses of the name refer to the variable in both scopes.
      have hscopes' : Scope.AgreeOn names (freeIdsList rest) (σ.declare d) τ := by
        refine hscopes.declareOutside (fun y hy => ?_) fun y hy hne => mem_freeIdsList_cons hy ?_
        · obtain rfl : x = y := Option.some.inj (hname.symm.trans hy)
          exact (houter x hlocal).trans hknown
        · simpa [declared?] using hne
      have hrest : Takable names locals outer (substmtsList rest)
          (staticsList rest ++ rest.filterMap staticVariable?) (declsList (keptItems rest)) := by
        refine ⟨fun t ht => hs.calls t (List.mem_append_right _ ht), fun d' hd' => hs.taken d' ?_,
          hkept ▸ hs.left⟩
        simp only [staticsList, statics, List.nil_append, List.filterMap_cons, hvariable]
        exact List.perm_middle.symm.subset (List.mem_cons_of_mem _ hd')
      have hthere := references_keptItems rest hrest hscopes' houter
      simp only [referencesList, declared?, Option.toList_some, Scope.declareAll, declareAll,
        List.foldl_cons, List.foldl_nil, references, hkept, staticsList, statics, List.nil_append,
        List.filterMap_cons, hvariable, List.flatMap_append, List.flatMap_cons,
        ← Multiset.coe_add] at hthere ⊢
      rw [hhere, hthere]
      abel
    | none =>
      -- The statement stays, and both scopes gain what it declares.
      have hkept : keptItems (s :: rest) = s.withoutStatics :: keptItems rest := by
        simp [keptItems, hvariable]
      simp only [hkept, List.filterMap_cons, hvariable, staticsList, List.append_assoc] at hs ⊢
      have hhere := references_withoutStatics s
        (hs.mono (List.subset_append_left _ _) (List.subset_append_left _ _)
          (List.subset_append_left _ _))
        (hscopes.mono (List.subset_append_left _ _)) houter
      have houter' (x : String) (hx : x ∉ locals) :
          τ.declareAll s.declared?.toList x = outer x := by
        rw [← declared?_withoutStatics, declareAll_of_notMem_locals (fun d hd => hs.left d ?_) hx]
        · exact houter x hx
        · exact flatMap_subset_of_subset _ (List.subset_append_left _ _) hd
      have hthere := references_keptItems rest
        (hs.mono (List.subset_append_right _ _) (List.subset_append_right _ _)
          (List.subset_append_right _ _))
        (agreeOn_rest hscopes) houter'
      simp only [referencesList, declared?_withoutStatics, List.flatMap_append,
        ← Multiset.coe_add] at hthere ⊢
      rw [hhere, hthere]
      abel

end

end Stmt

end MathKernel
