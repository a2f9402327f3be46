import Mathlib.Data.List.Basic
import MathKernel.Normalize.Recursion
import MathKernel.Proofs.Syntax.FreeNames

/-!
# What names refer to

A use of a name, as an identifier or as the callee of a call, refers to the declaration of the name
that is in scope. The scope of a declared name goes from the end of its declarator to the end of the
block, so that an initializer sees the name and the size of an array does not. Branches and loop
bodies are scopes of their own, and so is a `for` loop with its clauses. At file level a name is
known from its declaration on; the parameters of a function are known in its body, and each in the
sizes of those after it. The parameters of a prototype inside a body are not looked at.

Uses and declarations are told apart by their positions.

## Main definitions

* `Expr.names`, `Stmt.names` — the names that occur in code
* `Scope` — the declarations that names stand for
* `Stmt.references`, `SourceUnit.references` — each use with the declaration it refers to

## Main results

* `Expr.references_congr` — references depend on what is in scope of the names that are used
-/

namespace MathKernel

theorem flatMap_subset_of_subset {α β : Type} (f : α → List β) {as bs : List α} (h : as ⊆ bs) :
    as.flatMap f ⊆ bs.flatMap f := by
  intro b hb
  obtain ⟨a, ha, hb⟩ := List.mem_flatMap.1 hb
  exact List.mem_flatMap.2 ⟨a, h ha, hb⟩

/-! ### Names in code -/

namespace Expr

/-- The name that a node uses, with the position of the use. -/
def use? : Expr → Option (String × Coord)
  | id name c => some (name, c)
  | call callee _ c => some (callee, c)
  | _ => none

/-- The uses of names in an expression. -/
def uses (e : Expr) : List (String × Coord) :=
  e.subexprs.filterMap use?

/-- The names that an expression uses. -/
def names (e : Expr) : List String :=
  e.uses.map Prod.fst

/-- The names that an expression calls. -/
def calls (e : Expr) : List String :=
  e.subexprs.filterMap callee?

theorem mem_names {x : String} {e : Expr} : x ∈ e.names ↔ x ∈ e.ids ∨ x ∈ e.calls := by
  simp only [names, uses, ids, calls, List.mem_map, List.mem_filterMap]
  constructor
  · rintro ⟨⟨y, c⟩, ⟨s, hs, huse⟩, rfl⟩
    cases s with
    | id => exact .inl ⟨_, hs, by simp_all [use?, idName?]⟩
    | call => exact .inr ⟨_, hs, by simp_all [use?, callee?]⟩
    | _ => cases huse
  · rintro (⟨s, hs, hname⟩ | ⟨s, hs, hname⟩)
    · cases s with
      | id y c => exact ⟨(y, c), ⟨_, hs, rfl⟩, by simpa [idName?] using hname⟩
      | _ => cases hname
    · cases s with
      | call y args c => exact ⟨(y, c), ⟨_, hs, rfl⟩, by simpa [callee?] using hname⟩
      | _ => cases hname

end Expr

/-- The names that the size and the initializer of a declaration use. -/
def Decl.usedNames (d : Decl) : List String :=
  d.rootExprs.flatMap Expr.names

namespace Stmt

/-- The declaration that a statement makes, labelled or not. -/
def declared? : Stmt → Option Decl
  | decl d _ => some d
  | label _ s _ => s.declared?
  | _ => none

theorem binds_eq (s : Stmt) : s.binds = (s.declared?.bind Decl.name).toList := by
  fun_induction declared? s with
  | case1 => rfl
  | case2 n s c ih => exact ih
  | case3 s hdecl hlabel =>
    cases s with
    | decl d c => exact absurd rfl (hdecl d c)
    | label n s c => exact absurd rfl (hlabel n s c)
    | _ => rfl

theorem exists_ownDecls_of_declared? {s : Stmt} {d : Decl} (h : s.declared? = some d) :
    ∃ t ∈ s.substmts, d ∈ t.ownDecls := by
  fun_induction declared? s with
  | case1 d' c => exact ⟨_, List.mem_cons_self, by simpa [ownDecls] using h.symm⟩
  | case2 n s c ih =>
    obtain ⟨t, ht, hd⟩ := ih h
    exact ⟨t, List.mem_cons_of_mem _ ht, hd⟩
  | case3 => cases h

/-- The names that belong to a statement itself: those in its expressions and those it declares. -/
def ownNames (s : Stmt) : List String :=
  s.ownExprs.flatMap Expr.names ++ s.ownDecls.filterMap Decl.name

/-- The names that occur in a statement. -/
def names (s : Stmt) : List String :=
  s.substmts.flatMap ownNames

/-- The names that occur in statements. -/
def namesList (items : List Stmt) : List String :=
  (substmtsList items).flatMap ownNames

/-- The names that a statement calls. -/
def calls (s : Stmt) : List String :=
  s.substmts.flatMap fun t => t.ownExprs.flatMap Expr.calls

/-- The names that statements call. -/
def callsList (items : List Stmt) : List String :=
  (substmtsList items).flatMap fun t => t.ownExprs.flatMap Expr.calls

/-- The declarations in a statement. -/
def decls (s : Stmt) : List Decl :=
  s.substmts.flatMap ownDecls

/-- The declarations in statements. -/
def declsList (items : List Stmt) : List Decl :=
  (substmtsList items).flatMap ownDecls

section Names

variable (p : Expr) (s t e body : Stmt) (items rest : List Stmt) (b c : Coord)

@[simp] theorem namesList_cons : namesList (s :: rest) = s.names ++ namesList rest := by
  simp [namesList, names, substmtsList]

@[simp] theorem names_block : (block items b c).names = namesList items := by
  simp [names, namesList, substmts, ownNames, ownExprs, ownDecls]

@[simp] theorem names_ifThen : (ifThen p t c).names = p.names ++ t.names := by
  simp [names, substmts, ownNames, ownExprs, ownDecls]

@[simp] theorem names_ifElse : (ifElse p t e c).names = p.names ++ (t.names ++ e.names) := by
  simp [names, substmts, ownNames, ownExprs, ownDecls]

@[simp] theorem names_forLoop (init : Option ForInit) (cond next : Option Expr) :
    (forLoop init cond next body c).names =
      (forLoop init cond next body c).ownNames ++ body.names := by
  simp [names, substmts]

@[simp] theorem names_whileLoop : (whileLoop p body c).names = p.names ++ body.names := by
  simp [names, substmts, ownNames, ownExprs, ownDecls]

@[simp] theorem names_doWhile : (doWhile p body c).names = p.names ++ body.names := by
  simp [names, substmts, ownNames, ownExprs, ownDecls]

@[simp] theorem names_label (n : String) : (label n s c).names = s.names := by
  simp [names, substmts, ownNames, ownExprs, ownDecls]

end Names

end Stmt

/-! ### Scopes -/

/-- What names stand for: a declaration, given by its position, or nothing that is known. -/
abbrev Scope := String → Option Coord

namespace Scope

/-- The scope in which nothing is known. -/
def empty : Scope :=
  fun _ => none

/-- The scope after a declaration. -/
def declare (σ : Scope) (d : Decl) : Scope :=
  fun x => if d.name = some x then some d.coord else σ x

/-- The scope after declarations. -/
def declareAll (σ : Scope) (ds : List Decl) : Scope :=
  MathKernel.declareAll (fun d τ => τ.declare d) ds σ

variable {σ τ : Scope} {d : Decl} {x : String}

theorem declare_of_name (h : d.name = some x) : σ.declare d x = some d.coord :=
  if_pos h

theorem declare_of_ne (h : d.name ≠ some x) : σ.declare d x = σ x :=
  if_neg h

/-- A declaration leaves scopes that agree on a name so. -/
theorem declare_congr (h : d.name ≠ some x → σ x = τ x) : σ.declare d x = τ.declare d x := by
  by_cases hx : d.name = some x
  · rw [declare_of_name hx, declare_of_name hx]
  · rw [declare_of_ne hx, declare_of_ne hx, h hx]

theorem declareAll_append (σ : Scope) (ds es : List Decl) :
    σ.declareAll (ds ++ es) = (σ.declareAll ds).declareAll es :=
  List.foldl_append

theorem declareAll_of_notMem {ds : List Decl} (h : x ∉ ds.filterMap Decl.name) :
    σ.declareAll ds x = σ x := by
  induction ds generalizing σ with
  | nil => rfl
  | cons d rest ih =>
    have hd : d.name ≠ some x := fun hd => h (List.mem_filterMap.2 ⟨d, List.mem_cons_self, hd⟩)
    have hrest : x ∉ rest.filterMap Decl.name := fun hx =>
      h (((List.sublist_cons_self d rest).filterMap Decl.name).subset hx)
    exact (ih hrest).trans (declare_of_ne hd)

/-- Of names that are declared once, each stands for its declaration. -/
theorem declareAll_of_mem {ds : List Decl} (hnodup : (ds.filterMap Decl.name).Nodup) (hd : d ∈ ds)
    (hx : d.name = some x) : σ.declareAll ds x = some d.coord := by
  induction ds generalizing σ with
  | nil => cases hd
  | cons e rest ih =>
    change (σ.declare e).declareAll rest x = _
    rw [List.filterMap_cons] at hnodup
    rcases List.mem_cons.1 hd with rfl | hd
    · simp only [hx, List.nodup_cons] at hnodup
      rw [declareAll_of_notMem hnodup.1, declare_of_name hx]
    · refine ih ?_ hd
      cases hname : e.name with
      | none => simpa [hname] using hnodup
      | some y =>
        simp only [hname, List.nodup_cons] at hnodup
        exact hnodup.2

theorem declareAll_congr {ds : List Decl} (h : x ∉ ds.filterMap Decl.name → σ x = τ x) :
    σ.declareAll ds x = τ.declareAll ds x := by
  induction ds generalizing σ τ with
  | nil => exact h List.not_mem_nil
  | cons d rest ih =>
    refine ih fun hrest => declare_congr fun hd => h ?_
    rw [List.filterMap_cons]
    cases hname : d.name with
    | none => exact hrest
    | some y =>
      have hxy : x ≠ y := fun hxy => hd (hxy ▸ hname)
      simpa [hxy] using hrest

/-- Declarations of other names can come before or after. -/
theorem declareAll_declare {ds : List Decl}
    (h : ∀ y, d.name = some y → y ∉ ds.filterMap Decl.name) :
    (σ.declare d).declareAll ds = (σ.declareAll ds).declare d := by
  funext y
  by_cases hy : d.name = some y
  · rw [declareAll_of_notMem (h y hy), declare_of_name hy, declare_of_name hy]
  · rw [declare_of_ne hy]
    exact declareAll_congr fun _ => declare_of_ne hy

end Scope

/-! ### References -/

/-- A use, by its position, and the declaration that it refers to. -/
abbrev Reference := Coord × Option Coord

/-- The references of an expression. -/
def Expr.references (σ : Scope) (e : Expr) : List Reference :=
  e.uses.map fun (x, c) => (c, σ x)

/-- The references of expressions that see the same scope. -/
def Expr.referencesList (σ : Scope) (es : List Expr) : List Reference :=
  es.flatMap (Expr.references σ)

theorem Expr.references_congr {σ τ : Scope} {e : Expr} (h : ∀ x ∈ e.names, σ x = τ x) :
    e.references σ = e.references τ := by
  refine List.map_congr_left fun ⟨x, c⟩ hu => congrArg (c, ·) ?_
  exact h x (List.mem_map.2 ⟨(x, c), hu, rfl⟩)

theorem Expr.referencesList_congr {σ τ : Scope} {es : List Expr}
    (h : ∀ x ∈ es.flatMap Expr.names, σ x = τ x) :
    Expr.referencesList σ es = Expr.referencesList τ es :=
  List.flatMap_congr fun e he =>
    Expr.references_congr fun x hx => h x (List.mem_flatMap.2 ⟨e, he, hx⟩)

namespace Decl

/-- The references of a declaration. The initializer sees the declared name. -/
def references (σ : Scope) (d : Decl) : List Reference :=
  Expr.referencesList σ d.size?.toList ++ Expr.referencesList (σ.declare d) d.init.toList

/-- The references of declarations in order. -/
def referencesList (σ : Scope) : List Decl → List Reference
  | [] => []
  | d :: rest => d.references σ ++ referencesList (σ.declare d) rest

theorem references_congr {σ τ : Scope} {d : Decl}
    (h : ∀ x ∈ d.usedNames, σ x = τ x) : d.references σ = d.references τ := by
  simp only [usedNames, rootExprs, List.flatMap_append, List.forall_mem_append] at h
  refine congrArg₂ (· ++ ·) (Expr.referencesList_congr h.1) (Expr.referencesList_congr ?_)
  exact fun x hx => Scope.declare_congr fun _ => h.2 x hx

theorem referencesList_congr {σ τ : Scope} {ds : List Decl}
    (h : ∀ x ∈ ds.flatMap usedNames, σ x = τ x) : referencesList σ ds = referencesList τ ds := by
  induction ds generalizing σ τ with
  | nil => rfl
  | cons d rest ih =>
    rw [List.flatMap_cons, List.forall_mem_append] at h
    exact congrArg₂ (· ++ ·) (references_congr h.1)
      (ih fun x hx => Scope.declare_congr fun _ => h.2 x hx)

end Decl

namespace Stmt

mutual

/-- The references of a statement. -/
def references (σ : Scope) : Stmt → List Reference
  | decl d _ => d.references σ
  | block items _ _ => referencesList σ items
  | expr e _ => e.references σ
  | ifThen p t _ => p.references σ ++ t.references σ
  | ifElse p t e _ => p.references σ ++ t.references σ ++ e.references σ
  | forLoop init cond next body _ =>
    match init with
    | some (.decls ds) =>
      let inner := σ.declareAll ds
      Decl.referencesList σ ds ++ Expr.referencesList inner (cond.toList ++ next.toList) ++
        body.references inner
    | some (.expr e) =>
      e.references σ ++ Expr.referencesList σ (cond.toList ++ next.toList) ++ body.references σ
    | none => Expr.referencesList σ (cond.toList ++ next.toList) ++ body.references σ
  | whileLoop p body _ => p.references σ ++ body.references σ
  | doWhile p body _ => p.references σ ++ body.references σ
  | ret value _ => Expr.referencesList σ value.toList
  | label _ s _ => s.references σ
  | brk _ | cont _ | goto .. | empty _ => []

/-- The references of the items of a block. -/
def referencesList (σ : Scope) : List Stmt → List Reference
  | [] => []
  | s :: rest =>
    s.references σ ++ referencesList (σ.declareAll s.declared?.toList) rest

end

end Stmt

/-- The references of a function whose name is not yet declared. -/
def FuncDef.references (σ : Scope) (f : FuncDef) : List Reference :=
  Decl.referencesList σ f.params ++
    Stmt.referencesList ((σ.declare f.decl).declareAll f.params) f.body.items

namespace Item

/-- The references of an item. -/
def references (σ : Scope) : Item → List Reference
  | decl d => d.references σ ++ Decl.referencesList σ d.params
  | func f => f.references σ

/-- The references of items in order. -/
def referencesList (σ : Scope) : List Item → List Reference
  | [] => []
  | item :: rest => item.references σ ++ referencesList (σ.declare item.toDecl) rest

theorem map_toDecl_map_decl (ds : List Decl) : (ds.map decl).map toDecl = ds := by
  rw [List.map_map]
  exact List.map_id ds

theorem referencesList_append (σ : Scope) (items others : List Item) :
    referencesList σ (items ++ others) =
      referencesList σ items ++ referencesList (σ.declareAll (items.map toDecl)) others := by
  induction items generalizing σ with
  | nil => rfl
  | cons item rest ih =>
    rw [List.cons_append, referencesList, referencesList, ih, List.append_assoc]
    rfl

theorem referencesList_map_decl {ds : List Decl} (h : ∀ d ∈ ds, d.params = []) (σ : Scope) :
    referencesList σ (ds.map decl) = Decl.referencesList σ ds := by
  induction ds generalizing σ with
  | nil => rfl
  | cons d rest ih =>
    obtain ⟨hd, hrest⟩ := List.forall_mem_cons.1 h
    rw [List.map_cons, referencesList, references, hd, toDecl, ih hrest]
    simp [Decl.referencesList]

end Item

/-- The references of a unit. -/
def SourceUnit.references (u : SourceUnit) : List Reference :=
  Item.referencesList .empty u.items

end MathKernel
