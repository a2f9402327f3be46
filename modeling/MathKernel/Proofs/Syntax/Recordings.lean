import MathKernel.Proofs.Syntax.Walks

/-!
# What walks record

A walk whose step rebuilds each node by a function and notes something about it on the way gives the
tree rebuilt by that function, and notes what there is to note about every node. What a step notes
must not depend on how the parts of its node were rebuilt. Inside an expression the order of the
notes is left open, since nodes are listed from the top down and met from the bottom up; the
outermost expressions of a body are met in the order in which they are listed.

## Main definitions

* `NotingMonad` — monads whose computations note things on the way
* `RecordingMonad` — such monads in which the order of the notes does not matter
* `Expr.rebuild`, `Block.rebuild` — walks that note nothing

## Main results

* `Expr.bottomUpM_records`, `Block.bottomUpM_records` — the result of a walk and its notes
* `Expr.subexprs_rebuild`, `Block.exprs_rebuild` — the nodes of a rebuilt tree, one for each node
* `Block.value_bottomUpM_replace` — a pass that replaces nodes
-/

namespace MathKernel

/-- A monad whose computations note things of a type on the way to their result. -/
class NotingMonad (m : Type → Type) (ι : outParam Type) [Monad m] where
  /-- The computation gives the value and notes the items. -/
  Records {α : Type} : m α → α → List ι → Prop
  records_pure {α : Type} (a : α) : Records (pure a) a []
  records_bind {α β : Type} {x : m α} {a : α} {f : α → m β} {b : β} {first second : List ι} :
    Records x a first → Records (f a) b second → Records (x >>= f) b (first ++ second)

/-- A monad whose computations note things in an order that does not matter. -/
class RecordingMonad (m : Type → Type) (ι : outParam Type) [Monad m] extends NotingMonad m ι where
  records_perm {α : Type} {x : m α} {a : α} {noted other : List ι} :
    noted.Perm other → Records x a noted → Records x a other

export NotingMonad (Records records_pure records_bind)
export RecordingMonad (records_perm)

/-! ### Walks that note nothing -/

/-- Rebuild every node by a function, children before parents. -/
def Expr.rebuild (g : Expr → Expr) (e : Expr) : Expr :=
  e.bottomUpM (m := Id) g

/-- Rebuild every node of the expressions of a declaration. -/
def Decl.rebuild (g : Expr → Expr) (d : Decl) : Decl :=
  d.mapExprsM (m := Id) (Expr.rebuild g)

/-- Rebuild every node of the expressions of an initializer clause. -/
def ForInit.rebuild (g : Expr → Expr) (init : Option ForInit) : Option ForInit :=
  ForInit.mapExprsM (m := Id) (Expr.rebuild g) init

/-- Rebuild every node of the expressions of a statement. -/
def Stmt.rebuild (g : Expr → Expr) (s : Stmt) : Stmt :=
  s.mapExprsM (m := Id) (Expr.rebuild g)

/-- Rebuild every node of the expressions of a body. -/
def Block.rebuild (g : Expr → Expr) (b : Block) : Block :=
  b.bottomUpM (m := Id) g

namespace Expr

theorem rebuild_id (e : Expr) : e.rebuild (fun e => e) = e :=
  bottomUpM_eq_pure (m := Id) fun _ _ => rfl

theorem rebuild_eq (g : Expr → Expr) (e : Expr) :
    e.rebuild g = g (e.withParts (e.parts.map (rebuild g))) := by
  have hmap (items : List Expr) : items.mapM (m := Id) (rebuild g) = items.map (rebuild g) := by
    induction items with
    | nil => rfl
    | cons e rest ih => rw [List.mapM_cons, ih]; rfl
  exact (bottomUpM_eq (m := Id) g e).trans (congrArg (fun parts => g (e.withParts parts)) (hmap _))

section Nodes

variable (g : Expr → Expr) (p l r : Expr) (items : List Expr) (c : Coord)

@[simp] theorem rebuild_id_node (name : String) : (id name c).rebuild g = g (id name c) := rfl

@[simp] theorem rebuild_literal (value : Literal) :
    (literal value c).rebuild g = g (literal value c) := rfl

@[simp] theorem rebuild_binary (op : BinaryOp) :
    (binary op l r c).rebuild g = g (binary op (l.rebuild g) (r.rebuild g) c) := rfl

@[simp] theorem rebuild_unary (op : UnaryOp) :
    (unary op l c).rebuild g = g (unary op (l.rebuild g) c) := rfl

@[simp] theorem rebuild_assign (op : AssignOp) :
    (assign op l r c).rebuild g = g (assign op (l.rebuild g) (r.rebuild g) c) := rfl

@[simp] theorem rebuild_ternary :
    (ternary p l r c).rebuild g = g (ternary (p.rebuild g) (l.rebuild g) (r.rebuild g) c) := rfl

@[simp] theorem rebuild_cast (type : ScalarType) :
    (cast type l c).rebuild g = g (cast type (l.rebuild g) c) := rfl

@[simp] theorem rebuild_index :
    (index l r c).rebuild g = g (index (l.rebuild g) (r.rebuild g) c) := rfl

@[simp] theorem rebuild_call (callee : String) :
    (call callee items c).rebuild g = g (call callee (items.map (rebuild g)) c) :=
  rebuild_eq g _

@[simp] theorem rebuild_initList :
    (initList items c).rebuild g = g (initList (items.map (rebuild g)) c) :=
  rebuild_eq g _

@[simp] theorem rebuild_comma :
    (comma items c).rebuild g = g (comma (items.map (rebuild g)) c) :=
  rebuild_eq g _

end Nodes

/-- Where nodes keep their parts, those of a rebuilt node are its rebuilt parts. -/
theorem parts_rebuild {g : Expr → Expr} (hg : ∀ e, (g e).parts = e.parts) (e : Expr) :
    (e.rebuild g).parts = e.parts.map (rebuild g) := by
  rw [rebuild_eq, hg, parts_withParts (List.length_map _)]

theorem subexprs_rebuild {g : Expr → Expr} (hg : ∀ e, (g e).parts = e.parts) (e : Expr) :
    (e.rebuild g).subexprs = e.subexprs.map (rebuild g) := by
  induction e using parts_induction with
  | h e ih =>
    rw [subexprs_eq, subexprs_eq, parts_rebuild hg, List.map_cons, List.flatMap_map,
      List.map_flatMap]
    exact congrArg _ (List.flatMap_congr ih)

end Expr

/-! ### What a rebuilt tree consists of -/

section Rebuilt

variable (g : Expr → Expr)

theorem mapOptionM_rebuild (e : Option Expr) :
    mapOptionM (m := Id) (Expr.rebuild g) e = e.map (Expr.rebuild g) := by
  cases e <;> rfl

namespace Decl

theorem init_rebuild (d : Decl) : (d.rebuild g).init = d.init.map (Expr.rebuild g) :=
  mapOptionM_rebuild g d.init

theorem size?_rebuild (d : Decl) : (d.rebuild g).size? = d.size?.map (Expr.rebuild g) := by
  obtain ⟨name, quals, storage, type, init, c⟩ := d
  cases type with
  | array item size c => exact mapOptionM_rebuild g size
  | element | function => rfl

@[simp] theorem isFunction_rebuild (d : Decl) : (d.rebuild g).isFunction = d.isFunction := by
  obtain ⟨name, quals, storage, type, init, c⟩ := d
  cases type <;> rfl

@[simp] theorem isArray_rebuild (d : Decl) : (d.rebuild g).isArray = d.isArray := by
  obtain ⟨name, quals, storage, type, init, c⟩ := d
  cases type <;> rfl

@[simp] theorem scalar_rebuild (d : Decl) : (d.rebuild g).scalar = d.scalar := by
  obtain ⟨name, quals, storage, type, init, c⟩ := d
  cases type <;> rfl

theorem rootExprs_rebuild (d : Decl) :
    (d.rebuild g).rootExprs = d.rootExprs.map (Expr.rebuild g) := by
  rw [rootExprs, rootExprs, size?_rebuild, init_rebuild]
  cases d.size? <;> cases d.init <;> rfl

theorem mapExprsListM_rebuild (ds : List Decl) :
    mapExprsListM (m := Id) (Expr.rebuild g) ds = ds.map (rebuild g) := by
  induction ds with
  | nil => rfl
  | cons d rest ih => exact congrArg (d.rebuild g :: ·) ih

end Decl

theorem ForInit.rebuild_decls (ds : List Decl) :
    ForInit.rebuild g (some (.decls ds)) = some (.decls (ds.map (Decl.rebuild g))) :=
  congrArg (fun ds => some (ForInit.decls ds)) (Decl.mapExprsListM_rebuild g ds)

theorem ForInit.rootExprs_rebuild (init : Option ForInit) :
    (ForInit.rebuild g init).toList.flatMap ForInit.rootExprs =
      (init.toList.flatMap ForInit.rootExprs).map (Expr.rebuild g) := by
  match init with
  | none => rfl
  | some (.expr e) => rfl
  | some (.decls ds) =>
    simp [ForInit.rebuild_decls, ForInit.rootExprs, List.flatMap_map, List.map_flatMap,
      Decl.rootExprs_rebuild]

namespace Stmt

theorem ownExprs_rebuild (s : Stmt) :
    (s.rebuild g).ownExprs = s.ownExprs.map (Expr.rebuild g) := by
  cases s with
  | decl d c => exact d.rootExprs_rebuild g
  | forLoop init cond next body c =>
    have hinit := ForInit.rootExprs_rebuild g init
    rw [ownExprs, List.map_append, List.map_append, ← hinit]
    cases cond <;> cases next <;> rfl
  | ret value c => cases value <;> rfl
  | _ => rfl

theorem ownDecls_rebuild (s : Stmt) :
    (s.rebuild g).ownDecls = s.ownDecls.map (Decl.rebuild g) := by
  cases s with
  | forLoop init cond next body c =>
    match init with
    | none => rfl
    | some (.expr e) => rfl
    | some (.decls ds) =>
      have hinit : (ForInit.rebuild g (some (.decls ds))).toList.flatMap ForInit.declList =
          ds.map (Decl.rebuild g) := by
        rw [ForInit.rebuild_decls, Option.toList_some, List.flatMap_singleton, ForInit.declList]
      rw [ownDecls, Option.toList_some, List.flatMap_singleton, ForInit.declList]
      exact hinit
  | _ => rfl

theorem mapExprsListM_rebuild (items : List Stmt) :
    mapExprsListM (m := Id) (Expr.rebuild g) items = items.map (rebuild g) := by
  induction items with
  | nil => rfl
  | cons s rest ih => exact congrArg (s.rebuild g :: ·) ih

section Statements

variable (p : Expr) (t e : Stmt) (c : Coord)

@[simp] theorem rebuild_block (items : List Stmt) (b : Coord) :
    (block items b c).rebuild g = block (items.map (rebuild g)) b c :=
  congrArg (block · b c) (mapExprsListM_rebuild g items)

@[simp] theorem rebuild_ifElse :
    (ifElse p t e c).rebuild g = ifElse (p.rebuild g) (t.rebuild g) (e.rebuild g) c := rfl

@[simp] theorem rebuild_forLoop (init : Option ForInit) (cond next : Option Expr) :
    (forLoop init cond next t c).rebuild g =
      forLoop (ForInit.rebuild g init) (cond.map (Expr.rebuild g)) (next.map (Expr.rebuild g))
        (t.rebuild g) c := by
  rw [← mapOptionM_rebuild, ← mapOptionM_rebuild]
  rfl

end Statements

mutual

theorem substmts_rebuild (s : Stmt) : (s.rebuild g).substmts = s.substmts.map (rebuild g) := by
  cases s with
  | block items b c =>
    exact congrArg (rebuild g (block items b c) :: ·) (substmtsList_rebuild items)
  | ifThen p t c => exact congrArg (rebuild g (ifThen p t c) :: ·) (substmts_rebuild t)
  | ifElse p t e c =>
    rw [substmts, List.map_cons, List.map_append, ← substmts_rebuild t, ← substmts_rebuild e]
    rfl
  | forLoop init cond next body c =>
    exact congrArg (rebuild g (forLoop init cond next body c) :: ·) (substmts_rebuild body)
  | whileLoop p body c =>
    exact congrArg (rebuild g (whileLoop p body c) :: ·) (substmts_rebuild body)
  | doWhile p body c =>
    exact congrArg (rebuild g (doWhile p body c) :: ·) (substmts_rebuild body)
  | label n s c => exact congrArg (rebuild g (label n s c) :: ·) (substmts_rebuild s)
  | decl | expr | ret | brk | cont | goto | empty => rfl

theorem substmtsList_rebuild (items : List Stmt) :
    substmtsList (mapExprsListM (m := Id) (Expr.rebuild g) items) =
      (substmtsList items).map (rebuild g) := by
  cases items with
  | nil => rfl
  | cons s rest =>
    rw [substmtsList, List.map_append, ← substmts_rebuild s, ← substmtsList_rebuild rest]
    rfl

end

end Stmt

/-- The declarations of a rebuilt body. -/
theorem Block.decls_rebuild (b : Block) : (b.rebuild g).decls = b.decls.map (Decl.rebuild g) := by
  have hstmts : (b.rebuild g).stmts = b.stmts.map (Stmt.rebuild g) :=
    Stmt.substmtsList_rebuild g b.items
  rw [decls, decls, hstmts, List.flatMap_map, List.map_flatMap]
  exact List.flatMap_congr fun s _ => s.ownDecls_rebuild g

variable {g}

/-- The expressions of a rebuilt body, one for each expression. -/
theorem Block.exprs_rebuild (hg : ∀ e, (g e).parts = e.parts) (b : Block) :
    (b.rebuild g).exprs = b.exprs.map (Expr.rebuild g) := by
  have hstmts : (b.rebuild g).stmts = b.stmts.map (Stmt.rebuild g) :=
    Stmt.substmtsList_rebuild g b.items
  rw [exprs, exprs, hstmts, List.flatMap_map, List.map_flatMap]
  refine List.flatMap_congr fun s _ => ?_
  rw [Stmt.ownExprs_rebuild, List.flatMap_map, List.map_flatMap]
  exact List.flatMap_congr fun e _ => e.subexprs_rebuild hg

end Rebuilt

/-! ### Walks that note something about each node -/

section Records

variable {m : Type → Type} [Monad m] {ι : Type} [NotingMonad m ι]

theorem records_eq {α : Type} {x : m α} {a : α} {noted other : List ι} (h : noted = other)
    (hx : Records x a noted) : Records x a other :=
  h ▸ hx

/-- A node is put together again around its last part. -/
theorem records_map {α β : Type} {x : m α} {a : α} {noted : List ι} (g : α → β)
    (h : Records x a noted) : Records (x >>= fun b => pure (g b)) (g a) noted := by
  have hall := records_bind (f := fun b => pure (g b)) h (records_pure (g a))
  rwa [List.append_nil] at hall

theorem records_mapM [LawfulMonad m] {α β : Type} {f : α → m β} {g : α → β} {k : α → List ι}
    (items : List α) (h : ∀ a ∈ items, Records (f a) (g a) (k a)) :
    Records (items.mapM f) (items.map g) (items.flatMap k) := by
  induction items with
  | nil =>
    rw [List.mapM_nil]
    exact records_pure _
  | cons a rest ih =>
    obtain ⟨ha, hrest⟩ := List.forall_mem_cons.1 h
    rw [List.mapM_cons]
    exact records_bind ha (records_map (List.cons (g a)) (ih hrest))

/-- A step that notes about each node what does not depend on its parts. -/
theorem Expr.bottomUpM_records {m : Type → Type} [Monad m] [RecordingMonad m ι] [LawfulMonad m]
    {f : Expr → m Expr} {g : Expr → Expr} {k : Expr → List ι} (hf : ∀ e, Records (f e) (g e) (k e))
    (hk : ∀ e : Expr, k (e.withParts (e.parts.map (rebuild g))) = k e) (e : Expr) :
    Records (e.bottomUpM f) (e.rebuild g) (e.subexprs.flatMap k) := by
  induction e using parts_induction with
  | h e ih =>
    have hparts := records_mapM e.parts ih
    rw [bottomUpM_eq, rebuild_eq, subexprs_eq, List.flatMap_cons, List.flatMap_assoc]
    refine records_perm ?_ (records_bind hparts (hf _))
    rw [hk]
    exact List.perm_append_comm

variable {f : Expr → m Expr} {g : Expr → Expr} {k : Expr → List ι}

theorem mapOptionM_records (hf : ∀ e : Expr, Records (f e) (e.rebuild g) (k e)) (e : Option Expr) :
    Records (mapOptionM f e) (mapOptionM (m := Id) (Expr.rebuild g) e) (e.toList.flatMap k) := by
  cases e with
  | none => exact records_pure none
  | some e =>
    refine records_eq ?_ (records_map some (hf e))
    simp

theorem Decl.mapSizeM_records (hf : ∀ e : Expr, Records (f e) (e.rebuild g) (k e))
    (d : Decl) :
    Records (d.type.mapSizeM f) (d.type.mapSizeM (m := Id) (Expr.rebuild g))
      (d.size?.toList.flatMap k) := by
  obtain ⟨name, quals, storage, type, init, c⟩ := d
  cases type with
  | element t => exact records_pure _
  | function params result c => exact records_pure _
  | array item size c => exact records_map (Declarator.array item · c) (mapOptionM_records hf size)

theorem Decl.mapExprsM_records (hf : ∀ e : Expr, Records (f e) (e.rebuild g) (k e))
    (d : Decl) :
    Records (d.mapExprsM f) (d.rebuild g) (d.rootExprs.flatMap k) := by
  let type : Declarator Decl := d.type.mapSizeM (m := Id) (Expr.rebuild g)
  rw [Decl.rootExprs, List.flatMap_append]
  exact records_bind (a := type) (Decl.mapSizeM_records hf d)
    (records_map (fun init => { d with type, init }) (mapOptionM_records hf d.init))

theorem Decl.mapExprsListM_records (hf : ∀ e : Expr, Records (f e) (e.rebuild g) (k e))
    (ds : List Decl) :
    Records (Decl.mapExprsListM f ds) (Decl.mapExprsListM (m := Id) (Expr.rebuild g) ds)
      ((ds.flatMap Decl.rootExprs).flatMap k) := by
  induction ds with
  | nil => exact records_pure []
  | cons d rest ih =>
    rw [List.flatMap_cons, List.flatMap_append]
    exact records_bind (Decl.mapExprsM_records hf d) (records_map (d.rebuild g :: ·) ih)

theorem ForInit.mapExprsM_records (hf : ∀ e : Expr, Records (f e) (e.rebuild g) (k e))
    (init : Option ForInit) :
    Records (ForInit.mapExprsM f init) (ForInit.rebuild g init)
      ((init.toList.flatMap ForInit.rootExprs).flatMap k) := by
  cases init with
  | none => exact records_pure none
  | some init =>
    cases init with
    | decls ds =>
      have hds := Decl.mapExprsListM_records hf ds
      refine records_eq ?_ (records_map (fun ds => some (ForInit.decls ds)) hds)
      simp [ForInit.rootExprs]
    | expr e =>
      refine records_eq ?_ (records_map (fun e => some (ForInit.expr e)) (hf e))
      simp [ForInit.rootExprs]

namespace Stmt

mutual

theorem mapExprsM_records (hf : ∀ e : Expr, Records (f e) (e.rebuild g) (k e))
    (s : Stmt) :
    Records (s.mapExprsM f) (s.rebuild g) (s.substmts.flatMap fun x => x.ownExprs.flatMap k) := by
  -- The expressions of a statement itself come before those of the statements inside it.
  cases s with
  | decl d c =>
    refine records_eq ?_ (records_map (Stmt.decl · c) (Decl.mapExprsM_records hf d))
    simp [substmts, ownExprs]
  | block items b c =>
    exact records_map (Stmt.block · b c) (mapExprsListM_records hf items)
  | expr e c =>
    refine records_eq ?_ (records_map (Stmt.expr · c) (hf e))
    simp [substmts, ownExprs]
  | ifThen p t c =>
    have ht := mapExprsM_records hf t
    refine records_eq ?_ (records_bind (hf p) (records_map (ifThen (p.rebuild g) · c) ht))
    simp [substmts, ownExprs]
  | ifElse p t e c =>
    have ht := mapExprsM_records hf t
    have he := records_map (ifElse (p.rebuild g) (t.rebuild g) · c) (mapExprsM_records hf e)
    refine records_eq ?_ (records_bind (hf p) (records_bind ht he))
    simp [substmts, ownExprs]
  | forLoop init cond next body c =>
    let init' := ForInit.rebuild g init
    let cond' := mapOptionM (m := Id) (Expr.rebuild g) cond
    let next' := mapOptionM (m := Id) (Expr.rebuild g) next
    have hinit := ForInit.mapExprsM_records hf init
    have hcond := mapOptionM_records hf cond
    have hnext := mapOptionM_records hf next
    have hbody := records_map (forLoop init' cond' next' · c) (mapExprsM_records hf body)
    refine records_eq ?_ (records_bind hinit (records_bind hcond (records_bind hnext hbody)))
    simp [substmts, ownExprs]
  | whileLoop p body c =>
    have hbody := mapExprsM_records hf body
    refine records_eq ?_ (records_bind (hf p) (records_map (whileLoop (p.rebuild g) · c) hbody))
    simp [substmts, ownExprs]
  | doWhile p body c =>
    have hbody := mapExprsM_records hf body
    refine records_eq ?_ (records_bind (hf p) (records_map (doWhile (p.rebuild g) · c) hbody))
    simp [substmts, ownExprs]
  | ret value c =>
    refine records_eq ?_ (records_map (Stmt.ret · c) (mapOptionM_records hf value))
    simp [substmts, ownExprs]
  | label n s c => exact records_map (label n · c) (mapExprsM_records hf s)
  | brk | cont | goto | empty => exact records_pure _

theorem mapExprsListM_records (hf : ∀ e : Expr, Records (f e) (e.rebuild g) (k e))
    (items : List Stmt) :
    Records (mapExprsListM f items) (mapExprsListM (m := Id) (Expr.rebuild g) items)
      ((substmtsList items).flatMap fun x => x.ownExprs.flatMap k) := by
  cases items with
  | nil => exact records_pure []
  | cons s rest =>
    rw [substmtsList, List.flatMap_append]
    exact records_bind (mapExprsM_records hf s)
      (records_map (s.rebuild g :: ·) (mapExprsListM_records hf rest))

end

end Stmt

/-- The notes of a walk over a body whose step notes the given items about each outermost
expression. -/
theorem Block.mapExprsM_records (hf : ∀ e : Expr, Records (f e) (e.rebuild g) (k e)) (b : Block) :
    Records (b.mapExprsM f) (b.rebuild g) (b.stmts.flatMap fun s => s.ownExprs.flatMap k) :=
  records_map (Block.mk · b.coord) (Stmt.mapExprsListM_records hf b.items)

/-- The notes of a walk over a body, one step for each expression. -/
theorem Block.bottomUpM_records {m : Type → Type} [Monad m] [RecordingMonad m ι] [LawfulMonad m]
    {f : Expr → m Expr} {g : Expr → Expr} {k : Expr → List ι}
    (hf : ∀ e, Records (f e) (g e) (k e))
    (hk : ∀ e : Expr, k (e.withParts (e.parts.map (Expr.rebuild g))) = k e) (b : Block) :
    Records (b.bottomUpM f) (b.rebuild g) (b.exprs.flatMap k) := by
  rw [Block.exprs, List.flatMap_assoc]
  refine records_eq (List.flatMap_congr fun s _ => ?_)
    (Block.mapExprsM_records (Expr.bottomUpM_records hf hk) b)
  exact List.flatMap_assoc.symm

end Records

/-! ### Walks that count their changes -/

/-- A count of changes notes nothing about the nodes. -/
instance : RecordingMonad Counted Unit where
  Records x a _ := x.value = a
  records_pure _ := rfl
  records_bind := by
    rintro α β x a f b first second rfl rfl
    rfl
  records_perm _ h := h

/-- Replacing nodes of a body rebuilds it. -/
theorem Block.value_bottomUpM_replace (f : Expr → Option Expr) (b : Block) :
    (b.bottomUpM (Counted.replace f)).value = b.rebuild fun e => (f e).getD e := by
  have hstep (e : Expr) : Records (Counted.replace f e) ((f e).getD e) [] := by
    unfold Counted.replace
    cases f e <;> rfl
  exact Block.bottomUpM_records hstep (fun _ => rfl) b

end MathKernel
