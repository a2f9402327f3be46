import Mathlib.Data.List.Basic
import MathKernel.Proofs.Syntax.Walks
import MathKernel.Syntax.Printer

/-!
# Trees without positions

Erasing the position of every node. The lists of nodes of an erased tree are the erased lists,
and a walk that changes nodes without looking at positions commutes with erasing.

## Main definitions

* `Expr.erase`, `Decl.erase`, `Stmt.erase`, `SourceUnit.erase` — the tree without positions

## Main results

* `Block.exprs_erase`, `Block.stmts_erase` — the nodes of an erased body
* `Block.bottomUpM_erase`, `Block.mapBlocksM_erase`, `Stmt.mapScopedListM_erase` — erasing before
  or after a walk
-/

namespace MathKernel

/-! ### Erasing -/

namespace Expr

mutual

/-- The expression without positions. -/
def erase : Expr → Expr
  | id n _ => id n none
  | literal v _ => literal v none
  | binary op l r _ => binary op l.erase r.erase none
  | unary op e _ => unary op e.erase none
  | assign op t v _ => assign op t.erase v.erase none
  | ternary p t e _ => ternary p.erase t.erase e.erase none
  | call f args _ => call f (eraseList args) none
  | cast type e _ => cast type e.erase none
  | index a i _ => index a.erase i.erase none
  | initList items _ => initList (eraseList items) none
  | comma items _ => comma (eraseList items) none

/-- The expressions of a list without positions. -/
def eraseList : List Expr → List Expr
  | [] => []
  | e :: rest => e.erase :: eraseList rest

end

@[simp] theorem eraseList_eq_map (items : List Expr) : eraseList items = items.map erase := by
  induction items with
  | nil => rfl
  | cons e rest ih => rw [eraseList, ih, List.map_cons]

end Expr

theorem UnaryOp.fuses_erase (op : UnaryOp) (e : Expr) : op.fuses e.erase = op.fuses e := by
  cases e <;> rfl

/-- The element type without its position. -/
def ElementType.erase (t : ElementType) : ElementType :=
  { t with coord := none }

mutual

/-- The declaration without positions. -/
def Decl.erase : Decl → Decl
  | ⟨name, quals, storage, type, init, _⟩ =>
    ⟨name, quals, storage, Declarator.erase type, init.map Expr.erase, none⟩

/-- The declarator without positions, those of its parameters included. -/
def Declarator.erase : Declarator Decl → Declarator Decl
  | .element t => .element t.erase
  | .function params result _ =>
    .function (Declarator.eraseParams params) (Declarator.erase result) none
  | .array item size _ => .array (Declarator.erase item) (size.map Expr.erase) none

/-- The parameters without positions. -/
def Declarator.eraseParams : List Decl → List Decl
  | [] => []
  | d :: rest => d.erase :: Declarator.eraseParams rest

end

@[simp] theorem Declarator.eraseParams_eq_map (params : List Decl) :
    Declarator.eraseParams params = params.map Decl.erase := by
  induction params with
  | nil => rfl
  | cons d rest ih => rw [Declarator.eraseParams, ih, List.map_cons]

/-- The initializer clause without positions. -/
def ForInit.erase : ForInit → ForInit
  | decls ds => decls (ds.map Decl.erase)
  | expr e => expr e.erase

namespace Stmt

mutual

/-- The statement without positions. -/
def erase : Stmt → Stmt
  | decl d _ => decl d.erase none
  | block items _ _ => block (eraseList items) none none
  | expr e _ => expr e.erase none
  | ifThen p t _ => ifThen p.erase t.erase none
  | ifElse p t e _ => ifElse p.erase t.erase e.erase none
  | forLoop init cond next body _ =>
    forLoop (init.map ForInit.erase) (cond.map Expr.erase) (next.map Expr.erase) body.erase none
  | whileLoop p body _ => whileLoop p.erase body.erase none
  | doWhile p body _ => doWhile p.erase body.erase none
  | ret value _ => ret (value.map Expr.erase) none
  | brk _ => brk none
  | cont _ => cont none
  | goto l _ => goto l none
  | label n s _ => label n s.erase none
  | empty _ => empty none

/-- The statements of a list without positions. -/
def eraseList : List Stmt → List Stmt
  | [] => []
  | s :: rest => s.erase :: eraseList rest

end

@[simp] theorem eraseList_eq_map (items : List Stmt) : eraseList items = items.map erase := by
  induction items with
  | nil => rfl
  | cons s rest ih => rw [eraseList, ih, List.map_cons]

end Stmt

/-- The block without positions. -/
def Block.erase (b : Block) : Block :=
  ⟨b.items.map Stmt.erase, none⟩

/-- The function without positions. -/
def FuncDef.erase (f : FuncDef) : FuncDef :=
  ⟨f.decl.erase, f.body.erase, none⟩

/-- The item without positions. -/
def Item.erase : Item → Item
  | decl d => decl d.erase
  | func f => func f.erase

/-- The unit without positions. -/
def SourceUnit.erase (u : SourceUnit) : SourceUnit :=
  ⟨u.items.map Item.erase, none⟩

/-! ### What erasing keeps -/

namespace Expr

@[simp] theorem coord_erase (e : Expr) : e.erase.coord = none := by
  cases e <;> rfl

@[simp] theorem idName?_erase (e : Expr) : e.erase.idName? = e.idName? := by
  cases e <;> rfl

@[simp] theorem intLiteral?_erase (e : Expr) : e.erase.intLiteral? = e.intLiteral? := by
  cases e <;> rfl

@[simp] theorem precedence_erase (e : Expr) : e.erase.precedence = e.precedence := by
  cases e <;> rfl

mutual

theorem subexprs_erase (e : Expr) : e.erase.subexprs = e.subexprs.map erase := by
  cases e with
  | id n c | literal v c => rfl
  | binary op l r c => simp [erase, subexprs, subexprs_erase l, subexprs_erase r]
  | unary op e c => simp [erase, subexprs, subexprs_erase e]
  | assign op t v c => simp [erase, subexprs, subexprs_erase t, subexprs_erase v]
  | ternary p t e c =>
    simp [erase, subexprs, subexprs_erase p, subexprs_erase t, subexprs_erase e]
  | call f args c => simp [erase, subexprs, subexprsList_erase args]
  | cast type e c => simp [erase, subexprs, subexprs_erase e]
  | index a i c => simp [erase, subexprs, subexprs_erase a, subexprs_erase i]
  | initList items c => simp [erase, subexprs, subexprsList_erase items]
  | comma items c => simp [erase, subexprs, subexprsList_erase items]

theorem subexprsList_erase (items : List Expr) :
    subexprsList (items.map erase) = (subexprsList items).map erase := by
  cases items with
  | nil => rfl
  | cons e rest => simp [subexprsList, subexprs_erase e, subexprsList_erase rest]

end

end Expr

namespace Declarator

@[simp] theorem elementType_erase (t : Declarator Decl) :
    (Declarator.erase t).elementType = t.elementType.erase := by
  induction t with
  | element t => rfl
  | function params result c ih => simpa [Declarator.erase, elementType] using ih
  | array item size c ih => simpa [Declarator.erase, elementType] using ih

theorem mapElement_erase {g : ElementType → ElementType} (hg : ∀ t, g t.erase = (g t).erase)
    (t : Declarator Decl) :
    (Declarator.erase t).mapElement g = Declarator.erase (t.mapElement g) := by
  induction t with
  | element t => simp [Declarator.erase, mapElement, hg]
  | function params result c ih => simp [Declarator.erase, mapElement, ih]
  | array item size c ih => simp [Declarator.erase, mapElement, ih]

end Declarator

namespace Decl

theorem erase_eq (d : Decl) :
    d.erase =
      ⟨d.name, d.quals, d.storage, Declarator.erase d.type, d.init.map Expr.erase, none⟩ := by
  cases d
  rw [Decl.erase]

variable (d : Decl)

@[simp] theorem name_erase : d.erase.name = d.name := by rw [erase_eq]

@[simp] theorem storage_erase : d.erase.storage = d.storage := by rw [erase_eq]

@[simp] theorem type_erase : d.erase.type = Declarator.erase d.type := by rw [erase_eq]

@[simp] theorem init_erase : d.erase.init = d.init.map Expr.erase := by rw [erase_eq]

@[simp] theorem isStatic_erase : d.erase.isStatic = d.isStatic := by simp [isStatic]

@[simp] theorem isExternal_erase : d.erase.isExternal = d.isExternal := by simp [isExternal]

@[simp] theorem isFunction_erase : d.erase.isFunction = d.isFunction := by
  cases h : d.type <;> simp [isFunction, h, Declarator.erase]

@[simp] theorem isArray_erase : d.erase.isArray = d.isArray := by
  cases h : d.type <;> simp [isArray, h, Declarator.erase]

@[simp] theorem scalar_erase : d.erase.scalar = d.scalar := by
  simp [scalar, ElementType.erase]

@[simp] theorem params_erase : d.erase.params = d.params.map erase := by
  cases h : d.type <;> simp [params, h, Declarator.erase]

@[simp] theorem initLen?_erase : d.erase.initLen? = d.initLen? := by
  unfold initLen?
  rw [init_erase]
  cases d.init with
  | none => rfl
  | some e => cases e <;> simp [Expr.erase]

@[simp] theorem arrayLen?_erase : d.erase.arrayLen? = d.arrayLen? := by
  unfold arrayLen?
  rw [type_erase, initLen?_erase]
  cases d.type with
  | array item size c =>
    rw [Declarator.erase]
    cases size <;> simp
  | _ => simp [Declarator.erase]

@[simp] theorem size?_erase : d.erase.size? = d.size?.map Expr.erase := by
  cases h : d.type <;> simp [size?, h, Declarator.erase]

@[simp] theorem rootExprs_erase : d.erase.rootExprs = d.rootExprs.map Expr.erase := by
  cases h : d.size? <;> cases h' : d.init <;> simp [rootExprs, h, h']

theorem rename_erase (name : String) : d.erase.rename name = (d.rename name).erase := by
  have htype := Declarator.mapElement_erase (g := fun t => { t with declName := some name })
    (fun _ => rfl) d.type
  simp only [rename, erase_eq, htype]

end Decl

namespace ForInit

@[simp] theorem declList_erase (i : ForInit) : i.erase.declList = i.declList.map Decl.erase := by
  cases i <;> rfl

@[simp] theorem rootExprs_erase (i : ForInit) :
    i.erase.rootExprs = i.rootExprs.map Expr.erase := by
  cases i with
  | decls ds => simp [erase, rootExprs, List.flatMap_map, List.map_flatMap]
  | expr e => rfl

end ForInit

namespace Stmt

@[simp] theorem isReturn_erase (s : Stmt) : s.erase.isReturn = s.isReturn := by
  cases s <;> rfl

theorem ownExprs_erase (s : Stmt) : s.erase.ownExprs = s.ownExprs.map Expr.erase := by
  cases s with
  | decl d c => simp [erase, ownExprs]
  | forLoop init cond next body c =>
    cases init <;> cases cond <;> cases next <;> simp [erase, ownExprs]
  | ret value c => cases value <;> rfl
  | _ => simp [erase, ownExprs]

mutual

theorem substmts_erase (s : Stmt) : s.erase.substmts = s.substmts.map erase := by
  cases s with
  | block items b c => simp [erase, substmts, substmtsList_erase items]
  | ifThen p t c => simp [erase, substmts, substmts_erase t]
  | ifElse p t e c => simp [erase, substmts, substmts_erase t, substmts_erase e]
  | forLoop init cond next body c => simp [erase, substmts, substmts_erase body]
  | whileLoop p body c => simp [erase, substmts, substmts_erase body]
  | doWhile p body c => simp [erase, substmts, substmts_erase body]
  | label n s c => simp [erase, substmts, substmts_erase s]
  | decl | expr | ret | brk | cont | goto | empty => rfl

theorem substmtsList_erase (items : List Stmt) :
    substmtsList (items.map erase) = (substmtsList items).map erase := by
  cases items with
  | nil => rfl
  | cons s rest => simp [substmtsList, substmts_erase s, substmtsList_erase rest]

end

end Stmt

namespace Block

theorem stmts_erase (b : Block) : b.erase.stmts = b.stmts.map Stmt.erase :=
  Stmt.substmtsList_erase b.items

theorem exprs_erase (b : Block) : b.erase.exprs = b.exprs.map Expr.erase := by
  rw [exprs, exprs, stmts_erase, List.flatMap_map, List.map_flatMap]
  refine List.flatMap_congr fun s _ => ?_
  rw [Stmt.ownExprs_erase, List.flatMap_map, List.map_flatMap]
  exact List.flatMap_congr fun e _ => Expr.subexprs_erase e

end Block

namespace FuncDef

@[simp] theorem name_erase (f : FuncDef) : f.erase.name = f.name := by
  simp [name, erase]

@[simp] theorem params_erase (f : FuncDef) : f.erase.params = f.params.map Decl.erase := by
  simp [params, erase]

@[simp] theorem returnType_erase (f : FuncDef) : f.erase.returnType = f.returnType := by
  simp [returnType, erase]

@[simp] theorem paramNames_erase (f : FuncDef) : f.erase.paramNames = f.paramNames := by
  simp [paramNames, List.filterMap_map]

theorem prototype_erase (f : FuncDef) : f.erase.prototype = f.prototype.erase := by
  simp [prototype, erase, Decl.erase_eq]

end FuncDef

@[simp] theorem Item.name?_erase (item : Item) : item.erase.name? = item.name? := by
  cases item <;> simp [Item.erase, Item.name?, FuncDef.erase]

theorem SourceUnit.funcs_erase (u : SourceUnit) : u.erase.funcs = u.funcs.map FuncDef.erase := by
  simp only [funcs, erase, List.filterMap_map, List.map_filterMap]
  refine List.filterMap_congr fun item _ => ?_
  cases item <;> rfl

/-! ### Scopes -/

section ScopedLists

variable {σ : Type} {declare : Decl → σ → σ}

theorem Decl.scopedExprsList_erase (hdeclare : ∀ d s, declare d.erase s = declare d s) (scope : σ)
    (ds : List Decl) :
    Decl.scopedExprsList declare scope (ds.map Decl.erase) =
      Prod.map (List.map (Prod.map id Expr.erase)) id (Decl.scopedExprsList declare scope ds) := by
  induction ds generalizing scope with
  | nil => rfl
  | cons d rest ih => simp [Decl.scopedExprsList, hdeclare, ih]

namespace Stmt

mutual

theorem scopedExprs_erase (hdeclare : ∀ d s, declare d.erase s = declare d s) (scope : σ)
    (s : Stmt) :
    scopedExprs declare scope s.erase =
      Prod.map (List.map (Prod.map id Expr.erase)) id (scopedExprs declare scope s) := by
  cases s with
  | decl d c => simp [erase, scopedExprs, hdeclare]
  | block items b c => simp [erase, scopedExprs, scopedExprsList_erase hdeclare scope items]
  | expr e c => rfl
  | ifThen p t c => simp [erase, scopedExprs, scopedExprs_erase hdeclare scope t]
  | ifElse p t e c =>
    simp [erase, scopedExprs, scopedExprs_erase hdeclare scope t, scopedExprs_erase hdeclare _ e]
  | forLoop init cond next body c =>
    match init with
    | none =>
      cases cond <;> cases next <;>
        simp [erase, scopedExprs, scopedExprs_erase hdeclare scope body, Prod.map]
    | some (.decls ds) =>
      cases cond <;> cases next <;>
        simp [erase, scopedExprs, ForInit.erase, Decl.scopedExprsList_erase hdeclare,
          scopedExprs_erase hdeclare _ body]
    | some (.expr e) =>
      cases cond <;> cases next <;>
        simp [erase, scopedExprs, ForInit.erase, scopedExprs_erase hdeclare scope body]
  | whileLoop p body c => simp [erase, scopedExprs, scopedExprs_erase hdeclare scope body]
  | doWhile p body c => simp [erase, scopedExprs, scopedExprs_erase hdeclare scope body]
  | ret value c => cases value <;> rfl
  | label n s c => simp [erase, scopedExprs, scopedExprs_erase hdeclare scope s]
  | brk | cont | goto | empty => rfl

theorem scopedExprsList_erase (hdeclare : ∀ d s, declare d.erase s = declare d s) (scope : σ)
    (items : List Stmt) :
    scopedExprsList declare scope (items.map erase) =
      Prod.map (List.map (Prod.map id Expr.erase)) id (scopedExprsList declare scope items) := by
  cases items with
  | nil => rfl
  | cons s rest =>
    simp [scopedExprsList, scopedExprs_erase hdeclare scope s,
      scopedExprsList_erase hdeclare _ rest]

end

end Stmt

end ScopedLists

theorem declareName_erase (d : Decl) (hidden : List String) :
    declareName d.erase hidden = declareName d hidden := by
  simp [declareName]

/-! ### Walks -/

section Walks

variable {m : Type → Type} [Monad m] [LawfulMonad m] {f : Expr → m Expr}

namespace Expr

mutual

theorem bottomUpM_erase (hf : ∀ e, f e.erase = erase <$> f e) (e : Expr) :
    e.erase.bottomUpM f = erase <$> e.bottomUpM f := by
  cases e with
  | id n c | literal v c => simp [bottomUpM, ← hf, erase]
  | binary op l r c =>
    simp [erase, bottomUpM, bottomUpM_erase hf l, bottomUpM_erase hf r, ← hf]
  | unary op e c => simp [erase, bottomUpM, bottomUpM_erase hf e, ← hf]
  | assign op t v c =>
    simp [erase, bottomUpM, bottomUpM_erase hf t, bottomUpM_erase hf v, ← hf]
  | ternary p t e c =>
    simp [erase, bottomUpM, bottomUpM_erase hf p, bottomUpM_erase hf t, bottomUpM_erase hf e, ← hf]
  | call callee args c => simp [erase, bottomUpM, bottomUpListM_erase hf args, ← hf]
  | cast type e c => simp [erase, bottomUpM, bottomUpM_erase hf e, ← hf]
  | index a i c => simp [erase, bottomUpM, bottomUpM_erase hf a, bottomUpM_erase hf i, ← hf]
  | initList items c => simp [erase, bottomUpM, bottomUpListM_erase hf items, ← hf]
  | comma items c => simp [erase, bottomUpM, bottomUpListM_erase hf items, ← hf]

theorem bottomUpListM_erase (hf : ∀ e, f e.erase = erase <$> f e) (items : List Expr) :
    bottomUpListM f (items.map erase) = List.map erase <$> bottomUpListM f items := by
  cases items with
  | nil => simp [bottomUpListM]
  | cons e rest => simp [bottomUpListM, bottomUpM_erase hf e, bottomUpListM_erase hf rest]

end

end Expr

theorem mapOptionM_erase (hf : ∀ e, f e.erase = Expr.erase <$> f e) (e : Option Expr) :
    mapOptionM f (e.map Expr.erase) = Option.map Expr.erase <$> mapOptionM f e := by
  cases e with
  | none => simp [mapOptionM]
  | some e => simp [mapOptionM, hf]

theorem Declarator.mapSizeM_erase (hf : ∀ e, f e.erase = Expr.erase <$> f e)
    (t : Declarator Decl) :
    (Declarator.erase t).mapSizeM f = Declarator.erase <$> t.mapSizeM f := by
  cases t with
  | element t => simp [Declarator.erase, Declarator.mapSizeM]
  | function params result c => simp [Declarator.erase, Declarator.mapSizeM]
  | array item size c => simp [Declarator.erase, Declarator.mapSizeM, mapOptionM_erase hf]

theorem Decl.mapExprsM_erase (hf : ∀ e, f e.erase = Expr.erase <$> f e) (d : Decl) :
    d.erase.mapExprsM f = Decl.erase <$> d.mapExprsM f := by
  simp only [Decl.mapExprsM, type_erase, init_erase, Declarator.mapSizeM_erase hf,
    mapOptionM_erase hf, bind_map_left, map_bind, map_pure]
  simp only [Decl.erase_eq]

theorem Decl.mapExprsListM_erase (hf : ∀ e, f e.erase = Expr.erase <$> f e) (ds : List Decl) :
    Decl.mapExprsListM f (ds.map Decl.erase) = List.map Decl.erase <$> Decl.mapExprsListM f ds := by
  induction ds with
  | nil => simp [Decl.mapExprsListM]
  | cons d rest ih => simp [Decl.mapExprsListM, Decl.mapExprsM_erase hf, ih]

theorem ForInit.mapExprsM_erase (hf : ∀ e, f e.erase = Expr.erase <$> f e)
    (init : Option ForInit) :
    ForInit.mapExprsM f (init.map ForInit.erase) =
      Option.map ForInit.erase <$> ForInit.mapExprsM f init := by
  match init with
  | none => simp [ForInit.mapExprsM]
  | some (.decls ds) => simp [ForInit.mapExprsM, ForInit.erase, Decl.mapExprsListM_erase hf]
  | some (.expr e) => simp [ForInit.mapExprsM, ForInit.erase, hf]

namespace Stmt

mutual

theorem mapExprsM_erase (hf : ∀ e, f e.erase = Expr.erase <$> f e) (s : Stmt) :
    s.erase.mapExprsM f = erase <$> s.mapExprsM f := by
  cases s with
  | decl d c => simp [erase, mapExprsM, Decl.mapExprsM_erase hf]
  | block items b c => simp [erase, mapExprsM, mapExprsListM_erase hf items]
  | expr e c => simp [erase, mapExprsM, hf]
  | ifThen p t c => simp [erase, mapExprsM, hf, mapExprsM_erase hf t]
  | ifElse p t e c => simp [erase, mapExprsM, hf, mapExprsM_erase hf t, mapExprsM_erase hf e]
  | forLoop init cond next body c =>
    simp [erase, mapExprsM, ForInit.mapExprsM_erase hf, mapOptionM_erase hf,
      mapExprsM_erase hf body]
  | whileLoop p body c => simp [erase, mapExprsM, hf, mapExprsM_erase hf body]
  | doWhile p body c => simp [erase, mapExprsM, hf, mapExprsM_erase hf body]
  | ret value c => simp [erase, mapExprsM, mapOptionM_erase hf]
  | label n s c => simp [erase, mapExprsM, mapExprsM_erase hf s]
  | brk | cont | goto | empty => simp [erase, mapExprsM]

theorem mapExprsListM_erase (hf : ∀ e, f e.erase = Expr.erase <$> f e) (items : List Stmt) :
    mapExprsListM f (items.map erase) = List.map erase <$> mapExprsListM f items := by
  cases items with
  | nil => simp [mapExprsListM]
  | cons s rest => simp [mapExprsListM, mapExprsM_erase hf s, mapExprsListM_erase hf rest]

end

variable {g : Block → m Block}

mutual

theorem mapBlocksM_erase (hg : ∀ b, g b.erase = Block.erase <$> g b) (s : Stmt) :
    s.erase.mapBlocksM g = erase <$> s.mapBlocksM g := by
  cases s with
  | block items b c =>
    have hblock (items : List Stmt) : g ⟨items.map erase, none⟩ = Block.erase <$> g ⟨items, b⟩ :=
      hg ⟨items, b⟩
    simp [erase, mapBlocksM, mapBlocksListM_erase hg items, hblock, Block.erase]
  | ifThen p t c => simp [erase, mapBlocksM, mapBlocksM_erase hg t]
  | ifElse p t e c => simp [erase, mapBlocksM, mapBlocksM_erase hg t, mapBlocksM_erase hg e]
  | forLoop init cond next body c => simp [erase, mapBlocksM, mapBlocksM_erase hg body]
  | whileLoop p body c => simp [erase, mapBlocksM, mapBlocksM_erase hg body]
  | doWhile p body c => simp [erase, mapBlocksM, mapBlocksM_erase hg body]
  | label n s c => simp [erase, mapBlocksM, mapBlocksM_erase hg s]
  | decl | expr | ret | brk | cont | goto | empty => simp [erase, mapBlocksM]

theorem mapBlocksListM_erase (hg : ∀ b, g b.erase = Block.erase <$> g b) (items : List Stmt) :
    mapBlocksListM g (items.map erase) = List.map erase <$> mapBlocksListM g items := by
  cases items with
  | nil => simp [mapBlocksListM]
  | cons s rest => simp [mapBlocksListM, mapBlocksM_erase hg s, mapBlocksListM_erase hg rest]

end

end Stmt

namespace Block

theorem mapExprsM_erase (hf : ∀ e, f e.erase = Expr.erase <$> f e) (b : Block) :
    b.erase.mapExprsM f = erase <$> b.mapExprsM f := by
  simp [mapExprsM, erase, Stmt.mapExprsListM_erase hf]

/-- Erasing before a walk over expressions or after it. -/
theorem bottomUpM_erase (hf : ∀ e, f e.erase = Expr.erase <$> f e) (b : Block) :
    b.erase.bottomUpM f = erase <$> b.bottomUpM f :=
  mapExprsM_erase (Expr.bottomUpM_erase hf) b

/-- Erasing before a walk over blocks or after it. -/
theorem mapBlocksM_erase {g : Block → m Block} (hg : ∀ b, g b.erase = erase <$> g b) (b : Block) :
    b.erase.mapBlocksM g = erase <$> b.mapBlocksM g := by
  have hblock (items : List Stmt) :
      g ⟨items.map Stmt.erase, none⟩ = erase <$> g ⟨items, b.coord⟩ := hg ⟨items, b.coord⟩
  simp [mapBlocksM, erase, Stmt.mapBlocksListM_erase hg, hblock]

end Block

theorem Item.mapExprsM_erase (hf : ∀ e, f e.erase = Expr.erase <$> f e) (item : Item) :
    item.erase.mapExprsM f = Item.erase <$> item.mapExprsM f := by
  cases item with
  | decl d => simp [Item.erase, Item.mapExprsM, Decl.mapExprsM_erase hf]
  | func g => simp [Item.erase, Item.mapExprsM, FuncDef.erase, Block.mapExprsM_erase hf]

theorem Item.mapBodyM_erase {g : Block → m Block} (hg : ∀ b, g b.erase = Block.erase <$> g b)
    (item : Item) : item.erase.mapBodyM g = Item.erase <$> item.mapBodyM g := by
  cases item with
  | decl d => simp [Item.erase, Item.mapBodyM]
  | func f => simp [Item.erase, Item.mapBodyM, FuncDef.erase, hg]

theorem SourceUnit.mapItemsM_erase {g : Item → m Item}
    (hg : ∀ item, g item.erase = Item.erase <$> g item) (u : SourceUnit) :
    u.erase.mapItemsM g = SourceUnit.erase <$> u.mapItemsM g := by
  have hitems (items : List Item) :
      (items.map Item.erase).mapM g = List.map Item.erase <$> items.mapM g := by
    induction items with
    | nil => simp
    | cons item rest ih => simp [hg, ih]
  simp [SourceUnit.mapItemsM, SourceUnit.erase, hitems]

/-! ### Walks with scopes -/

section Scopes

variable {σ : Type} {declare : Decl → σ → σ} {visit : σ → Expr → m Expr}

theorem Decl.mapScopedListM_erase (hdeclare : ∀ d s, declare d.erase s = declare d s)
    (hvisit : ∀ s e, visit s e.erase = Expr.erase <$> visit s e) (scope : σ) (ds : List Decl) :
    Decl.mapScopedListM declare visit scope (ds.map Decl.erase) =
      Prod.map (List.map Decl.erase) id <$> Decl.mapScopedListM declare visit scope ds := by
  induction ds generalizing scope with
  | nil => simp [Decl.mapScopedListM]
  | cons d rest ih =>
    simp [Decl.mapScopedListM, Decl.mapExprsM_erase (hvisit scope), hdeclare, ih]

namespace Stmt

mutual

theorem mapScopedM_erase (hdeclare : ∀ d s, declare d.erase s = declare d s)
    (hvisit : ∀ s e, visit s e.erase = Expr.erase <$> visit s e) (scope : σ) (s : Stmt) :
    s.erase.mapScopedM declare visit scope =
      Prod.map erase id <$> s.mapScopedM declare visit scope := by
  cases s with
  | decl d c => simp [erase, mapScopedM, Decl.mapExprsM_erase (hvisit scope), hdeclare]
  | block items b c =>
    simp [erase, mapScopedM, mapScopedListM_erase hdeclare hvisit scope items]
  | expr e c => simp [erase, mapScopedM, hvisit]
  | ifThen p t c => simp [erase, mapScopedM, hvisit, mapScopedM_erase hdeclare hvisit scope t]
  | ifElse p t e c =>
    simp [erase, mapScopedM, hvisit, mapScopedM_erase hdeclare hvisit scope t,
      mapScopedM_erase hdeclare hvisit _ e]
  | forLoop init cond next body c =>
    match init with
    | none =>
      simp [erase, mapScopedM, mapOptionM_erase (hvisit _),
        mapScopedM_erase hdeclare hvisit _ body]
    | some (.decls ds) =>
      simp [erase, mapScopedM, ForInit.erase, Decl.mapScopedListM_erase hdeclare hvisit,
        mapOptionM_erase (hvisit _), mapScopedM_erase hdeclare hvisit _ body]
    | some (.expr e) =>
      simp [erase, mapScopedM, ForInit.erase, hvisit, mapOptionM_erase (hvisit _),
        mapScopedM_erase hdeclare hvisit _ body]
  | whileLoop p body c =>
    simp [erase, mapScopedM, hvisit, mapScopedM_erase hdeclare hvisit scope body]
  | doWhile p body c =>
    simp [erase, mapScopedM, hvisit, mapScopedM_erase hdeclare hvisit scope body]
  | ret value c => simp [erase, mapScopedM, mapOptionM_erase (hvisit _)]
  | label n s c => simp [erase, mapScopedM, mapScopedM_erase hdeclare hvisit scope s]
  | brk | cont | goto | empty => simp [erase, mapScopedM]

theorem mapScopedListM_erase (hdeclare : ∀ d s, declare d.erase s = declare d s)
    (hvisit : ∀ s e, visit s e.erase = Expr.erase <$> visit s e) (scope : σ)
    (items : List Stmt) :
    mapScopedListM declare visit scope (items.map erase) =
      Prod.map (List.map erase) id <$> mapScopedListM declare visit scope items := by
  cases items with
  | nil => simp [mapScopedListM]
  | cons s rest =>
    simp [mapScopedListM, mapScopedM_erase hdeclare hvisit scope s,
      mapScopedListM_erase hdeclare hvisit _ rest]

end

end Stmt

end Scopes

end Walks

end MathKernel
