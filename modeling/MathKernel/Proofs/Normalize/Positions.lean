import MathKernel.Normalize.Pipeline
import MathKernel.Proofs.Syntax.Positions

/-!
# Passes without positions

Every pass commutes with erasing positions: it fails on the same units with the same error, and
otherwise counts the same changes, takes the same names and gives results that are equal once
their positions are erased.

## Main results

* `Pass.apply_erase` — one pass
* `normalize_erase` — a run of passes
-/

namespace MathKernel

theorem Counted.replace_erase {f : Expr → Option Expr} (hf : ∀ e, f e.erase = (f e).map Expr.erase)
    (e : Expr) : Counted.replace f e.erase = Expr.erase <$> Counted.replace f e := by
  unfold Counted.replace
  rw [hf]
  cases f e <;> rfl

/-! ### Spelling -/

theorem Expr.respelled?_erase (e : Expr) : e.erase.respelled? = e.respelled?.map Expr.erase := by
  cases e with
  | literal value c =>
    simp only [Expr.erase, Expr.respelled?]
    split
    · split <;> rfl
    · rfl
  | _ => rfl

theorem Expr.respell_erase (e : Expr) : e.erase.respell = Expr.erase <$> e.respell :=
  Expr.bottomUpM_erase (Counted.replace_erase Expr.respelled?_erase) e

theorem ElementType.respell_erase (t : ElementType) :
    t.erase.respell = ElementType.erase <$> t.respell := by
  unfold ElementType.respell
  change (if t.names = [t.scalar.cName] then _ else _) = _
  split <;> rfl

mutual

theorem Decl.respellType_erase (d : Decl) : d.erase.respellType = Decl.erase <$> d.respellType := by
  cases d with
  | mk name quals storage type init c =>
    simp [Decl.erase, Decl.respellType, Declarator.respell_erase type]

theorem Declarator.respell_erase (t : Declarator Decl) :
    (Declarator.erase t).respell = Declarator.erase <$> t.respell := by
  cases t with
  | element t => simp [Declarator.erase, Declarator.respell, ElementType.respell_erase]
  | array item size c =>
    simp [Declarator.erase, Declarator.respell, Declarator.respell_erase item]
  | function params result c =>
    simp [Declarator.erase, Declarator.respell, Declarator.respell_erase result,
      Declarator.respellParams_erase params]

theorem Declarator.respellParams_erase (params : List Decl) :
    Declarator.respellParams (params.map Decl.erase) =
      List.map Decl.erase <$> Declarator.respellParams params := by
  cases params with
  | nil => rfl
  | cons d rest =>
    simp [Declarator.respellParams, Decl.respellType_erase d, Declarator.respellParams_erase rest]

end

theorem Decl.respell_erase (d : Decl) : d.erase.respell = Decl.erase <$> d.respell := by
  simp [Decl.respell, Decl.respellType_erase, Decl.mapExprsM_erase Expr.respell_erase]

theorem ForInit.respell_erase (init : Option ForInit) :
    ForInit.respell (init.map ForInit.erase) =
      Option.map ForInit.erase <$> ForInit.respell init := by
  have hdecls (ds : List Decl) :
      (ds.map Decl.erase).mapM Decl.respell = List.map Decl.erase <$> ds.mapM Decl.respell := by
    induction ds with
    | nil => rfl
    | cons d rest ih => simp [Decl.respell_erase, ih]
  rcases init with _ | ds | e
  · rfl
  · simp [ForInit.respell, ForInit.erase, hdecls]
  · simp [ForInit.respell, ForInit.erase, Expr.respell_erase]

namespace Stmt

mutual

theorem respell_erase (s : Stmt) : s.erase.respell = erase <$> s.respell := by
  cases s with
  | decl d c => simp [erase, respell, Decl.respell_erase]
  | block items b c => simp [erase, respell, respellList_erase items]
  | expr e c => simp [erase, respell, Expr.respell_erase]
  | ifThen p t c => simp [erase, respell, Expr.respell_erase, respell_erase t]
  | ifElse p t e c => simp [erase, respell, Expr.respell_erase, respell_erase t, respell_erase e]
  | forLoop init cond next body c =>
    simp [erase, respell, ForInit.respell_erase, mapOptionM_erase Expr.respell_erase,
      respell_erase body]
  | whileLoop p body c => simp [erase, respell, Expr.respell_erase, respell_erase body]
  | doWhile p body c => simp [erase, respell, Expr.respell_erase, respell_erase body]
  | ret value c => simp [erase, respell, mapOptionM_erase Expr.respell_erase]
  | label n s c => simp [erase, respell, respell_erase s]
  | brk | cont | goto | empty => rfl

theorem respellList_erase (items : List Stmt) :
    respellList (items.map erase) = List.map erase <$> respellList items := by
  cases items with
  | nil => rfl
  | cons s rest => simp [respellList, respell_erase s, respellList_erase rest]

end

end Stmt

theorem Item.respell_erase (item : Item) : item.erase.respell = Item.erase <$> item.respell := by
  cases item with
  | decl d => simp [Item.erase, Item.respell, Decl.respell_erase]
  | func f =>
    simp [Item.erase, Item.respell, FuncDef.erase, Block.erase, Stmt.respellList_erase,
      Declarator.respell_erase, Decl.erase_eq]

theorem SourceUnit.respell_erase (u : SourceUnit) :
    u.erase.respell = Prod.map SourceUnit.erase id u.respell := by
  simp [SourceUnit.respell, SourceUnit.mapItemsM_erase Item.respell_erase]

/-! ### Error reports -/

theorem Stmt.isErrorReport_erase (s : Stmt) : s.erase.isErrorReport = s.isErrorReport := by
  cases s with
  | expr e c => cases e <;> rfl
  | decl d c => simp [Stmt.erase, Stmt.isErrorReport]
  | _ => rfl

theorem Expr.errorCode?_erase (e : Expr) : e.erase.errorCode? = e.errorCode?.map Expr.erase := by
  cases e with
  | call callee args c =>
    simp only [Expr.erase, Expr.eraseList_eq_map, Expr.errorCode?]
    split
    · rcases args with _ | ⟨_, _ | ⟨_, _⟩⟩ <;> rfl
    · rfl
  | _ => rfl

/-- A filter that does not look at positions. -/
theorem filter_map_erase {α : Type} {erase : α → α} {p : α → Bool}
    (hp : ∀ a, p (erase a) = p a) (items : List α) :
    (items.map erase).filter p = (items.filter p).map erase := by
  rw [List.filter_map]
  exact congrArg _ (List.filter_congr fun a _ => hp a)

theorem Block.dropErrorReports_erase (b : Block) :
    b.erase.dropErrorReports = Block.erase <$> b.dropErrorReports := by
  have hkept := filter_map_erase (p := fun s => !s.isErrorReport)
    (fun s => by rw [Stmt.isErrorReport_erase]) b.items
  simp only [Block.dropErrorReports, Block.erase, hkept, List.length_map]
  rfl

theorem Block.removeErrorCalls_erase (b : Block) :
    b.erase.removeErrorCalls = Prod.map Block.erase id b.removeErrorCalls := by
  simp [Block.removeErrorCalls, Block.mapBlocksM_erase Block.dropErrorReports_erase,
    Block.bottomUpM_erase (Counted.replace_erase Expr.errorCode?_erase)]

theorem mapBodies_erase {f : Block → Block × Tally}
    (hf : ∀ b, f b.erase = Prod.map Block.erase id (f b)) (items : List Item) :
    mapBodies f (items.map Item.erase) = Prod.map (List.map Item.erase) id (mapBodies f items) := by
  induction items with
  | nil => rfl
  | cons item rest ih =>
    cases item with
    | decl d => simp [Item.erase, mapBodies, ih]
    | func g => simp [Item.erase, FuncDef.erase, mapBodies, hf, ih]

theorem SourceUnit.removeErrorCalls_erase (u : SourceUnit) :
    u.erase.removeErrorCalls = Prod.map SourceUnit.erase id u.removeErrorCalls := by
  have hkept := filter_map_erase (p := fun item => item.name? != some errorRoutine)
    (fun item => by rw [Item.name?_erase]) u.items
  simp [SourceUnit.removeErrorCalls, SourceUnit.erase, hkept,
    mapBodies_erase Block.removeErrorCalls_erase]

/-! ### Math functions -/

theorem Item.toGenericMath_erase (item : Item) :
    item.erase.toGenericMath = Prod.map Item.erase id item.toGenericMath := by
  unfold Item.toGenericMath
  rw [Item.name?_erase]
  cases item.name?.bind genericMath? with
  | none => rfl
  | some generic =>
    cases item with
    | decl d =>
      simp only [Item.erase, Decl.isFunction_erase, Decl.name_erase]
      split <;> simp [Item.erase, Decl.rename_erase]
    | func f =>
      simp only [Item.erase, FuncDef.prototype_erase, Decl.isFunction_erase, Decl.name_erase]
      split <;> simp [Item.erase, Decl.rename_erase]

theorem Item.genericPrototype?_erase (item : Item) :
    item.erase.genericPrototype? = item.genericPrototype? := by
  cases item <;> simp [Item.erase, Item.genericPrototype?]

theorem keepFirstPrototypes_erase (seen : List String) (items : List Item) :
    keepFirstPrototypes seen (items.map Item.erase) =
      (keepFirstPrototypes seen items).map Item.erase := by
  induction items generalizing seen with
  | nil => rfl
  | cons item rest ih =>
    simp only [List.map_cons, keepFirstPrototypes, Item.genericPrototype?_erase]
    split
    · simp [ih]
    · split <;> simp [ih]

theorem Expr.toGenericCall?_erase (e : Expr) :
    e.erase.toGenericCall? = e.toGenericCall?.map Expr.erase := by
  cases e with
  | call callee args c =>
    simp only [Expr.erase, Expr.toGenericCall?]
    split
    · split <;> rfl
    · rfl
  | _ => rfl

theorem Block.toGenericCalls_erase (b : Block) :
    b.erase.toGenericCalls = Prod.map Block.erase id b.toGenericCalls := by
  simp [Block.toGenericCalls,
    Block.bottomUpM_erase (Counted.replace_erase Expr.toGenericCall?_erase)]

theorem SourceUnit.genericMathNames_erase (u : SourceUnit) :
    u.erase.genericMathNames = Prod.map SourceUnit.erase id u.genericMathNames := by
  have hrenamed : (u.items.map Item.erase).map Item.toGenericMath =
      (u.items.map Item.toGenericMath).map (Prod.map Item.erase id) := by
    simp only [List.map_map]
    exact List.map_congr_left fun item _ => Item.toGenericMath_erase item
  have hitems (renamed : List (Item × Tally)) :
      (renamed.map (Prod.map Item.erase id)).map Prod.fst =
        (renamed.map Prod.fst).map Item.erase := by simp
  have htallies (renamed : List (Item × Tally)) :
      (renamed.map (Prod.map Item.erase id)).map Prod.snd = renamed.map Prod.snd := by simp
  simp only [SourceUnit.genericMathNames, SourceUnit.erase, hrenamed, hitems, htallies,
    keepFirstPrototypes_erase, mapBodies_erase Block.toGenericCalls_erase, List.length_map]
  rfl

/-! ### Static variables -/

theorem Renames.lookup?_erase (renames : Renames) (hidden : List String) (e : Expr) :
    renames.lookup? hidden e.erase = (renames.lookup? hidden e).map Expr.erase := by
  cases e with
  | id name c =>
    simp only [Expr.erase, Renames.lookup?]
    split
    · rfl
    · cases renames.lookup name <;> rfl
  | _ => rfl

theorem Expr.renameIds_erase (renames : Renames) (hidden : List String) (e : Expr) :
    e.erase.renameIds renames hidden = Expr.erase <$> e.renameIds renames hidden :=
  Expr.bottomUpM_erase (Counted.replace_erase (renames.lookup?_erase hidden)) e

theorem Decl.renameIds_erase (renames : Renames) (d : Decl) :
    d.erase.renameIds renames = Decl.erase <$> d.renameIds renames :=
  Decl.mapExprsM_erase (Expr.renameIds_erase renames []) d

theorem Block.renameIds_erase (renames : Renames) (params : List String) (b : Block) :
    b.erase.renameIds renames params = Block.erase <$> b.renameIds renames params := by
  have hitems := Stmt.mapScopedListM_erase declareName_erase (Expr.renameIds_erase renames) params
    b.items
  simp [Block.renameIds, Block.erase, hitems]

theorem Decl.dropStatic_erase (d : Decl) : d.erase.dropStatic = d.dropStatic.erase := by
  simp [Decl.dropStatic, Decl.erase_eq]

@[simp] theorem Decl.isStaticVariable_erase (d : Decl) :
    d.erase.isStaticVariable = d.isStaticVariable := by
  simp [Decl.isStaticVariable]

theorem Decl.promote_erase (d : Decl) (name : String) :
    d.erase.promote name = (d.promote name).erase := by
  rw [Decl.promote, Decl.rename_erase, Decl.dropStatic_erase, Decl.promote]

theorem Item.promoteGlobal_erase (unit : String) (p : Promotion) (item : Item) :
    item.erase.promoteGlobal unit p = Prod.map Item.erase id (item.promoteGlobal unit p) := by
  cases item with
  | decl d =>
    simp only [Item.erase, Item.promoteGlobal, Decl.isStaticVariable_erase, Decl.name_erase,
      Decl.isStatic_erase]
    split
    · cases d.name <;> simp [Item.erase, Decl.promote_erase]
    · split <;> simp [Item.erase, Decl.dropStatic_erase]
  | func f =>
    simp only [Item.erase, Item.promoteGlobal, FuncDef.erase, Decl.isStatic_erase]
    split <;> simp [Item.erase, FuncDef.erase, Decl.dropStatic_erase]

theorem promoteGlobals_erase (unit : String) (p : Promotion) (items : List Item) :
    promoteGlobals unit p (items.map Item.erase) =
      Prod.map (List.map Item.erase) id (promoteGlobals unit p items) := by
  induction items generalizing p with
  | nil => rfl
  | cons item rest ih => simp [promoteGlobals, Item.promoteGlobal_erase, ih]

theorem Stmt.staticVariable?_erase (s : Stmt) :
    s.erase.staticVariable? = s.staticVariable?.map Decl.erase := by
  cases s with
  | decl d c =>
    simp only [Stmt.erase, Stmt.staticVariable?, Decl.isStaticVariable_erase]
    split <;> rfl
  | _ => rfl

theorem Block.takeStatics_erase (b : Block) (found : List Decl) :
    b.erase.takeStatics.run (found.map Decl.erase) =
      Prod.map Block.erase (List.map Decl.erase) (b.takeStatics.run found) := by
  have hstatics : (b.items.map Stmt.erase).filterMap Stmt.staticVariable? =
      (b.items.filterMap Stmt.staticVariable?).map Decl.erase := by
    rw [List.filterMap_map, List.map_filterMap]
    exact List.filterMap_congr fun s _ => Stmt.staticVariable?_erase s
  have hkept := filter_map_erase (p := fun s => s.staticVariable?.isNone)
    (fun s => by rw [Stmt.staticVariable?_erase, Option.isNone_map]) b.items
  simp [Block.takeStatics_run, Block.erase, hstatics, hkept]

namespace Stmt

mutual

/-- The statics that a walk finds are erased with the rest, so that this walk does not only commute
with erasing its result. -/
theorem takeStatics_erase (s : Stmt) (found : List Decl) :
    (s.erase.mapBlocksM Block.takeStatics).run (found.map Decl.erase) =
      Prod.map erase (List.map Decl.erase) ((s.mapBlocksM Block.takeStatics).run found) := by
  cases s with
  | block items b c =>
    have hblock (items : List Stmt) := Block.takeStatics_erase ⟨items, b⟩
    simp only [Block.erase] at hblock
    simp only [erase, eraseList_eq_map, mapBlocksM, StateM.run_bind_eq, StateM.run_pure_eq,
      Prod.map_fst, Prod.map_snd, Prod.map_apply, takeStaticsList_erase items, hblock,
      Block.erase]
  | ifThen p t c =>
    simp only [erase, mapBlocksM, StateM.run_bind_eq, StateM.run_pure_eq, Prod.map_fst,
      Prod.map_snd, Prod.map_apply, takeStatics_erase t]
  | ifElse p t e c =>
    simp only [erase, mapBlocksM, StateM.run_bind_eq, StateM.run_pure_eq, Prod.map_fst,
      Prod.map_snd, Prod.map_apply, takeStatics_erase t,
      takeStatics_erase e]
  | forLoop init cond next body c =>
    simp only [erase, mapBlocksM, StateM.run_bind_eq, StateM.run_pure_eq, Prod.map_fst,
      Prod.map_snd, Prod.map_apply, takeStatics_erase body]
  | whileLoop p body c =>
    simp only [erase, mapBlocksM, StateM.run_bind_eq, StateM.run_pure_eq, Prod.map_fst,
      Prod.map_snd, Prod.map_apply, takeStatics_erase body]
  | doWhile p body c =>
    simp only [erase, mapBlocksM, StateM.run_bind_eq, StateM.run_pure_eq, Prod.map_fst,
      Prod.map_snd, Prod.map_apply, takeStatics_erase body]
  | label n s c =>
    simp only [erase, mapBlocksM, StateM.run_bind_eq, StateM.run_pure_eq, Prod.map_fst,
      Prod.map_snd, Prod.map_apply, takeStatics_erase s]
  | decl | expr | ret | brk | cont | goto | empty => rfl

theorem takeStaticsList_erase (items : List Stmt) (found : List Decl) :
    (mapBlocksListM Block.takeStatics (items.map erase)).run (found.map Decl.erase) =
      Prod.map (List.map erase) (List.map Decl.erase)
        ((mapBlocksListM Block.takeStatics items).run found) := by
  cases items with
  | nil => rfl
  | cons s rest =>
    simp only [List.map_cons, mapBlocksListM, StateM.run_bind_eq, StateM.run_pure_eq, Prod.map_fst,
      Prod.map_snd, Prod.map_apply, takeStatics_erase s,
      takeStaticsList_erase rest]

end

end Stmt

theorem hoistStatics_erase (unit function : String) (p : Promotion) (ds : List Decl) :
    hoistStatics unit function p (ds.map Decl.erase) =
      Prod.map (List.map Decl.erase) id (hoistStatics unit function p ds) := by
  induction ds generalizing p with
  | nil => rfl
  | cons d rest ih =>
    simp only [List.map_cons, hoistStatics, Decl.name_erase]
    cases d.name with
    | none => exact ih p
    | some old => simp [ih, Decl.renameIds_erase, Decl.promote_erase]

theorem Expr.lvalueRoot?_erase (e : Expr) : e.erase.lvalueRoot? = e.lvalueRoot? := by
  match e with
  | .index a i c => simpa [Expr.erase, Expr.lvalueRoot?] using Expr.lvalueRoot?_erase a
  | .id .. | .literal .. | .binary .. | .unary .. | .assign .. | .ternary .. | .call .. | .cast ..
  | .initList .. | .comma .. => rfl

theorem Expr.writeTarget?_erase (e : Expr) :
    e.erase.writeTarget? = e.writeTarget?.map Expr.erase := by
  cases e with
  | unary op operand c =>
    simp only [Expr.erase, Expr.writeTarget?]
    split <;> rfl
  | _ => rfl

theorem Block.writtenStatic?_erase (b : Block) (promoted : List (String × String)) :
    b.erase.writtenStatic? promoted = b.writtenStatic? promoted := by
  rw [Block.writtenStatic?, Block.writtenStatic?, Block.exprs_erase, List.findSome?_map]
  congr 1
  funext e
  rw [Function.comp_apply, Expr.writeTarget?_erase]
  cases e.writeTarget? with
  | none => rfl
  | some target => simp [Expr.lvalueRoot?_erase]

theorem Block.mapBlocksM_takeStatics_erase (b : Block) :
    (b.erase.mapBlocksM Block.takeStatics).run [] =
      Prod.map Block.erase (List.map Decl.erase) ((b.mapBlocksM Block.takeStatics).run []) := by
  have hitems := Stmt.takeStaticsList_erase b.items []
  have hblock (items : List Stmt) := Block.takeStatics_erase ⟨items, b.coord⟩
  simp only [List.map_nil] at hitems
  simp only [Block.erase] at hblock
  simp only [Block.mapBlocksM, Block.erase, StateM.run_bind_eq, hitems, Prod.map_fst, Prod.map_snd,
    hblock]

theorem FuncDef.promoteStatics_erase (unit : String) (p : Promotion) (f : FuncDef) :
    f.erase.promoteStatics unit p =
      (f.promoteStatics unit p).map (Prod.map (List.map Item.erase) id) := by
  have hbody : f.erase.body = f.body.erase := rfl
  simp only [FuncDef.promoteStatics, hbody, Block.mapBlocksM_takeStatics_erase]
  generalize (f.body.mapBlocksM Block.takeStatics).run [] = found
  obtain ⟨body, statics⟩ := found
  simp only [Prod.map_apply, FuncDef.name_erase, FuncDef.paramNames_erase, hoistStatics_erase]
  generalize hoistStatics unit f.name p statics = hoisting
  obtain ⟨hoisted, last, tally⟩ := hoisting
  simp only [Prod.map_apply, id_eq, Block.renameIds_erase, Counted.value_map, Counted.count_map,
    Block.writtenStatic?_erase]
  split
  · rfl
  · simp [Except.map, Item.erase, FuncDef.erase]

/-- A computation that may fail, continued on an erased result. -/
theorem Except.bind_map {ε α β γ : Type} (x : Except ε α) (g : α → β) (f : β → Except ε γ) :
    (x.map g >>= f) = x >>= fun a => f (g a) := by
  cases x <;> rfl

theorem Except.map_bind {ε α β γ : Type} (x : Except ε α) (f : α → Except ε β) (g : β → γ) :
    (x >>= f).map g = x >>= fun a => (f a).map g := by
  cases x <;> rfl

theorem promoteInItems_erase (unit : String) (p : Promotion) (items : List Item) :
    promoteInItems unit p (items.map Item.erase) =
      (promoteInItems unit p items).map (Prod.map (List.map Item.erase) id) := by
  induction items generalizing p with
  | nil => rfl
  | cons item rest ih =>
    cases item with
    | decl d =>
      simp only [List.map_cons, Item.erase, promoteInItems, ih, Decl.renameIds_erase,
        Except.bind_map, Except.map_bind]
      rfl
    | func f =>
      simp only [List.map_cons, Item.erase, promoteInItems, FuncDef.promoteStatics_erase, ih,
        Except.bind_map, Except.map_bind]
      refine bind_congr fun result => bind_congr fun others => ?_
      simp [Except.map, pure, Except.pure]

theorem SourceUnit.itemNames_erase (u : SourceUnit) : u.erase.itemNames = u.itemNames := by
  rw [itemNames, SourceUnit.erase, List.filterMap_map]
  exact List.filterMap_congr fun item _ => item.name?_erase

theorem SourceUnit.promoteStatics_erase (unit : String) (u : SourceUnit) :
    u.erase.promoteStatics unit = (u.promoteStatics unit).map (Prod.map SourceUnit.erase id) := by
  simp only [promoteStatics, itemNames_erase]
  simp only [SourceUnit.erase, promoteGlobals_erase, Prod.map_fst, Prod.map_snd, id_eq,
    promoteInItems_erase, Except.bind_map, Except.map_bind]
  rfl

/-! ### Casts and idioms -/

theorem Expr.castCall?_erase (e : Expr) : e.erase.castCall? = e.castCall?.map Expr.erase := by
  cases e with
  | cast type operand c => cases type <;> rfl
  | _ => rfl

theorem SourceUnit.castsToCalls_erase (u : SourceUnit) :
    u.erase.castsToCalls = Prod.map SourceUnit.erase id u.castsToCalls := by
  have hitem (item : Item) := Item.mapExprsM_erase
    (Expr.bottomUpM_erase (Counted.replace_erase Expr.castCall?_erase)) item
  simp [SourceUnit.castsToCalls, SourceUnit.mapItemsM_erase hitem]

mutual

theorem Expr.same_erase (e e' : Expr) : e.erase.same e'.erase = e.same e' := by
  -- Only equal constructors have parts to compare.
  cases e <;> cases e' <;> first
    | rfl
    | simp [Expr.erase, Expr.same, Expr.same_erase, Expr.sameList_erase]

theorem Expr.sameList_erase (items items' : List Expr) :
    Expr.sameList (items.map Expr.erase) (items'.map Expr.erase) = Expr.sameList items items' := by
  cases items <;> cases items' <;>
    simp [Expr.sameList, Expr.same_erase, Expr.sameList_erase]

end

@[simp] theorem Expr.hasSideEffects_erase (e : Expr) :
    e.erase.hasSideEffects = e.hasSideEffects := by
  simp [Expr.hasSideEffects, Expr.subexprs_erase, List.any_map, Function.comp_def,
    Expr.writeTarget?_erase]

@[simp] theorem Expr.isZeroLiteral_erase (e : Expr) : e.erase.isZeroLiteral = e.isZeroLiteral := by
  cases e <;> rfl

@[simp] theorem Expr.isNegationOf_erase (x e : Expr) :
    Expr.isNegationOf x.erase e.erase = Expr.isNegationOf x e := by
  cases e with
  | unary op operand c => cases op <;> simp [Expr.erase, Expr.isNegationOf, Expr.same_erase]
  | _ => rfl

theorem Expr.absOperand?_erase (e : Expr) : e.erase.absOperand? = e.absOperand?.map Expr.erase := by
  cases e with
  | ternary p t e c =>
    cases p with
    | binary op x zero c =>
      simp only [Expr.erase, Expr.absOperand?, Expr.isZeroLiteral_erase, Expr.hasSideEffects_erase]
      split
      · rfl
      · cases op <;> simp [Expr.same_erase]
    | _ => rfl
  | _ => rfl

theorem Expr.oddOperand?_erase (e : Expr) : e.erase.oddOperand? = e.oddOperand?.map Expr.erase := by
  cases e with
  | binary op l r c =>
    cases op <;> try rfl
    simp only [Expr.erase, Expr.oddOperand?, Expr.intLiteral?_erase]
    split
    · rfl
    · split <;> rfl
  | _ => rfl

theorem SourceUnit.foldIdiom_erase {operand? : Expr → Option Expr}
    (hoperand : ∀ e, operand? e.erase = (operand? e).map Expr.erase) (callee : String)
    (u : SourceUnit) :
    u.erase.foldIdiom operand? callee =
      Prod.map SourceUnit.erase id (u.foldIdiom operand? callee) := by
  have hfold (e : Expr) : e.erase.foldIdiom? operand? callee =
      (e.foldIdiom? operand? callee).map Expr.erase := by
    rw [Expr.foldIdiom?, Expr.foldIdiom?, hoperand]
    cases operand? e <;> simp [Expr.erase]
  have hbodies := mapBodies_erase
    (f := fun b =>
      ((b.bottomUpM (Counted.replace (Expr.foldIdiom? operand? callee))).value,
        .ofChanged (b.bottomUpM (Counted.replace (Expr.foldIdiom? operand? callee))).count))
    (fun b => by simp [Block.bottomUpM_erase (Counted.replace_erase hfold)]) u.items
  simp [SourceUnit.foldIdiom, SourceUnit.erase, hbodies]

/-! ### Jumps -/

namespace Stmt

theorem isJump_erase (s : Stmt) : s.erase.isJump = s.isJump := by
  cases s <;> rfl

theorem isLabelled_erase (s : Stmt) : s.erase.isLabelled = s.isLabelled := by
  cases s <;> rfl

theorem labels_erase (s : Stmt) : s.erase.labels = s.labels := by
  match s with
  | label n s c => simp [erase, labels, labels_erase s]
  | decl .. | block .. | expr .. | ifThen .. | ifElse .. | forLoop .. | whileLoop .. | doWhile ..
  | ret .. | brk .. | cont .. | goto .. | empty .. => rfl

theorem unlabelled_erase (s : Stmt) : s.erase.unlabelled = s.unlabelled.erase := by
  match s with
  | label n s c => simp [erase, unlabelled, unlabelled_erase s]
  | decl .. | block .. | expr .. | ifThen .. | ifElse .. | forLoop .. | whileLoop .. | doWhile ..
  | ret .. | brk .. | cont .. | goto .. | empty .. => rfl

theorem takeThroughReturn_erase (items : List Stmt) :
    takeThroughReturn (items.map erase) = (takeThroughReturn items).map erase := by
  induction items with
  | nil => rfl
  | cons s rest ih =>
    simp only [List.map_cons, takeThroughReturn, unlabelled_erase, isReturn_erase]
    split <;> simp [ih]

/-- Captured code without positions. -/
abbrev eraseCaptures (captures : List (String × List Stmt)) : List (String × List Stmt) :=
  captures.map (Prod.map id (List.map erase))

theorem itemCaptures_erase (items : List Stmt) :
    itemCaptures (items.map erase) = eraseCaptures (itemCaptures items) := by
  induction items with
  | nil => rfl
  | cons s rest ih =>
    have htake := takeThroughReturn_erase (s :: rest)
    rw [List.map_cons] at htake
    simp [itemCaptures, labels_erase, htake, ih]

mutual

theorem captures_erase (s : Stmt) : s.erase.captures = eraseCaptures s.captures := by
  cases s with
  | block items b c =>
    simp [erase, captures, itemCaptures_erase, capturesList_erase items]
  | ifThen p t c => simp [erase, captures, captures_erase t]
  | ifElse p t e c => simp [erase, captures, captures_erase t, captures_erase e]
  | forLoop init cond next body c => simp [erase, captures, captures_erase body]
  | whileLoop p body c => simp [erase, captures, captures_erase body]
  | doWhile p body c => simp [erase, captures, captures_erase body]
  | label n s c => simp [erase, captures, captures_erase s]
  | decl | expr | ret | brk | cont | goto | empty => rfl

theorem capturesList_erase (items : List Stmt) :
    capturesList (items.map erase) = eraseCaptures (capturesList items) := by
  cases items with
  | nil => rfl
  | cons s rest => simp [capturesList, captures_erase s, capturesList_erase rest]

end

mutual

theorem dropLabels_erase (s : Stmt) : s.erase.dropLabels = s.dropLabels.erase := by
  cases s with
  | block items b c => simp [erase, dropLabels, dropLabelsList_erase items]
  | ifThen p t c => simp [erase, dropLabels, dropLabels_erase t]
  | ifElse p t e c => simp [erase, dropLabels, dropLabels_erase t, dropLabels_erase e]
  | forLoop init cond next body c => simp [erase, dropLabels, dropLabels_erase body]
  | whileLoop p body c => simp [erase, dropLabels, dropLabels_erase body]
  | doWhile p body c => simp [erase, dropLabels, dropLabels_erase body]
  | label n s c => simp [erase, dropLabels, dropLabels_erase s]
  | decl | expr | ret | brk | cont | goto | empty => rfl

theorem dropLabelsList_erase (items : List Stmt) :
    dropLabelsList (items.map erase) = (dropLabelsList items).map erase := by
  cases items with
  | nil => rfl
  | cons s rest => simp [dropLabelsList, dropLabels_erase s, dropLabelsList_erase rest]

end

section Gotos

variable {m : Type → Type} [Monad m] [LawfulMonad m] {jump erased : String → Coord → m Stmt}

mutual

theorem mapGotosM_erase (hjump : ∀ l c, erased l none = erase <$> jump l c) (s : Stmt) :
    s.erase.mapGotosM erased = erase <$> s.mapGotosM jump := by
  cases s with
  | block items b c => simp [erase, mapGotosM, mapGotosListM_erase hjump items]
  | ifThen p t c => simp [erase, mapGotosM, mapGotosM_erase hjump t]
  | ifElse p t e c => simp [erase, mapGotosM, mapGotosM_erase hjump t, mapGotosM_erase hjump e]
  | forLoop init cond next body c => simp [erase, mapGotosM, mapGotosM_erase hjump body]
  | whileLoop p body c => simp [erase, mapGotosM, mapGotosM_erase hjump body]
  | doWhile p body c => simp [erase, mapGotosM, mapGotosM_erase hjump body]
  | label n s c => simp [erase, mapGotosM, mapGotosM_erase hjump s]
  | goto l c => exact hjump l c
  | decl | expr | ret | brk | cont | empty => simp [erase, mapGotosM]

theorem mapGotosListM_erase (hjump : ∀ l c, erased l none = erase <$> jump l c)
    (items : List Stmt) :
    mapGotosListM erased (items.map erase) = List.map erase <$> mapGotosListM jump items := by
  cases items with
  | nil => simp [mapGotosListM]
  | cons s rest =>
    simp [mapGotosListM, mapGotosM_erase hjump s, mapGotosListM_erase hjump rest]

end

end Gotos

end Stmt

theorem lookup_map_snd {α β : Type} (f : α → β) (name : String) (entries : List (String × α)) :
    (entries.map (Prod.map id f)).lookup name = (entries.lookup name).map f := by
  induction entries with
  | nil => rfl
  | cons entry rest ih =>
    obtain ⟨key, value⟩ := entry
    simp only [List.map_cons, Prod.map_apply, id_eq, List.lookup_cons, ih]
    split <;> rfl

theorem expandGoto_erase (captures : List (String × List Stmt)) (function : String) (fuel : Nat)
    (active : List String) (label : String) (c : Coord) :
    expandGoto (Stmt.eraseCaptures captures) function fuel active label none =
      Stmt.erase <$> expandGoto captures function fuel active label c := by
  induction fuel generalizing active label c with
  | zero => rfl
  | succ fuel ih =>
    have hitems (items : List Stmt) :=
      Stmt.mapGotosListM_erase (ih (label :: active)) items
    simp only [expandGoto, lookup_map_snd]
    split
    · rfl
    · cases captures.lookup label with
      | none => rfl
      | some items => simp [hitems, Stmt.erase]

namespace Block

theorem captures_erase (b : Block) : b.erase.captures = Stmt.eraseCaptures b.captures := by
  simp [captures, erase, Stmt.itemCaptures_erase, Stmt.capturesList_erase,
    Stmt.dropLabelsList_erase, Function.comp_def]

theorem labelCount_erase (b : Block) : b.erase.labelCount = b.labelCount := by
  simp [labelCount, stmts_erase, filter_map_erase Stmt.isLabelled_erase]

theorem cutAfterReturn_erase (b : Block) :
    b.erase.cutAfterReturn = erase <$> b.cutAfterReturn := by
  have hkept : (b.items.map Stmt.erase).takeWhile (fun s => !s.isReturn) =
      (b.items.takeWhile fun s => !s.isReturn).map Stmt.erase := by
    rw [List.takeWhile_map]
    congr 2
    funext s
    simp
  simp only [cutAfterReturn, erase, hkept, List.length_map, ← List.map_take]
  rfl

end Block

theorem FuncDef.eliminateJumps_erase (f : FuncDef) :
    f.erase.eliminateJumps = (f.eliminateJumps).map (Prod.map FuncDef.erase id) := by
  have hbody : f.erase.body = f.body.erase := rfl
  have hitems : f.body.erase.items = f.body.items.map Stmt.erase := rfl
  have hany : (f.body.stmts.map Stmt.erase).any Stmt.isJump = f.body.stmts.any Stmt.isJump := by
    simp [List.any_map, Function.comp_def, Stmt.isJump_erase]
  have hexpand := Stmt.mapGotosListM_erase
    (expandGoto_erase f.body.captures f.name (f.body.captures.length + 1) [])
  have hcut (items : List Stmt) :=
    Block.mapBlocksM_erase Block.cutAfterReturn_erase ⟨items, f.body.coord⟩
  simp only [FuncDef.eliminateJumps, hbody, Block.stmts_erase, hany, Block.captures_erase,
    List.length_map, FuncDef.name_erase, hitems, Stmt.dropLabelsList_erase, hexpand,
    Block.labelCount_erase, StateT.run_map]
  split
  · rw [bind_map_left, Except.map_bind]
    refine bind_congr fun result => ?_
    simp only [Block.erase] at hcut ⊢
    simp only [hcut]
    rfl
  · rfl

theorem eliminateJumpsInItems_erase (items : List Item) :
    eliminateJumpsInItems (items.map Item.erase) =
      (eliminateJumpsInItems items).map (Prod.map (List.map Item.erase) id) := by
  induction items with
  | nil => rfl
  | cons item rest ih =>
    cases item with
    | decl d =>
      simp only [List.map_cons, Item.erase, eliminateJumpsInItems, ih, Except.bind_map,
        Except.map_bind]
      rfl
    | func f =>
      simp only [List.map_cons, Item.erase, eliminateJumpsInItems, FuncDef.eliminateJumps_erase, ih,
        Except.bind_map, Except.map_bind]
      rfl

theorem SourceUnit.eliminateJumps_erase (u : SourceUnit) :
    u.erase.eliminateJumps = u.eliminateJumps.map (Prod.map SourceUnit.erase id) := by
  simp only [SourceUnit.eliminateJumps, SourceUnit.erase, eliminateJumpsInItems_erase,
    Except.bind_map, Except.map_bind]
  rfl

/-! ### Loops -/

namespace Stmt

theorem bodyItems_erase (s : Stmt) : s.erase.bodyItems = s.bodyItems.map erase := by
  cases s <;> simp [erase, bodyItems]

theorem exitUnless_erase (p : Expr) : exitUnless p.erase = (exitUnless p).erase := by
  simp [exitUnless, erase, Expr.erase]

theorem countedLoop_erase (counter : String) (items : List Stmt) (c : Coord) :
    countedLoop counter (items.map erase) none = (countedLoop counter items c).erase := by
  simp [countedLoop, erase, ForInit.erase, Decl.ofScalar, Decl.erase, Declarator.erase, Expr.int,
    Expr.erase]
  rfl

mutual

theorem boundLoops_erase (s : Stmt) : s.erase.boundLoops = erase <$> s.boundLoops := by
  cases s with
  | block items b c => simp [erase, boundLoops, boundLoopsList_erase items]
  | ifThen p t c => simp [erase, boundLoops, boundLoops_erase t]
  | ifElse p t e c => simp [erase, boundLoops, boundLoops_erase t, boundLoops_erase e]
  | forLoop init cond next body c => simp [erase, boundLoops, boundLoops_erase body]
  | whileLoop p body c =>
    simp [erase, boundLoops, boundLoops_erase body, bodyItems_erase, ← countedLoop_erase _ _ c,
      ← exitUnless_erase]
  | doWhile p body c =>
    simp [erase, boundLoops, boundLoops_erase body, bodyItems_erase, ← countedLoop_erase _ _ c,
      ← exitUnless_erase]
  | label n s c => simp [erase, boundLoops, boundLoops_erase s]
  | decl | expr | ret | brk | cont | goto | empty => simp [erase, boundLoops]

theorem boundLoopsList_erase (items : List Stmt) :
    boundLoopsList (items.map erase) = List.map erase <$> boundLoopsList items := by
  cases items with
  | nil => simp [boundLoopsList]
  | cons s rest => simp [boundLoopsList, boundLoops_erase s, boundLoopsList_erase rest]

end

end Stmt

theorem Item.boundLoops_erase (item : Item) :
    item.erase.boundLoops = Item.erase <$> item.boundLoops :=
  Item.mapBodyM_erase (fun b => by simp [Block.erase, Stmt.boundLoopsList_erase]) item

theorem SourceUnit.boundLoops_erase (pool : NamePool) (u : SourceUnit) :
    u.erase.boundLoops pool = (u.boundLoops pool).map (Prod.map SourceUnit.erase id) := by
  simp only [SourceUnit.boundLoops, SourceUnit.mapItemsM_erase Item.boundLoops_erase,
    StateT.run_map, bind_map_left, Except.map_bind]
  rfl

/-! ### Recursion -/

theorem Expr.callee?_erase (e : Expr) : e.erase.callee? = e.callee? := by
  cases e <;> rfl

theorem CallGraph.ofUnit_erase (u : SourceUnit) :
    CallGraph.ofUnit u.erase = CallGraph.ofUnit u := by
  have horder : (u.funcs.map FuncDef.erase).map FuncDef.name = u.funcs.map FuncDef.name := by simp
  have hcallees (f : FuncDef) :
      f.erase.body.exprs.filterMap Expr.callee? = f.body.exprs.filterMap Expr.callee? := by
    change f.body.erase.exprs.filterMap Expr.callee? = _
    simp [Block.exprs_erase, List.filterMap_map, Expr.callee?_erase]
  simp [CallGraph.ofUnit, SourceUnit.funcs_erase, horder, hcallees, Function.comp_def]

theorem Expr.cutCall?_erase (targets : List String) (e : Expr) :
    Expr.cutCall? targets e.erase = (Expr.cutCall? targets e).map Expr.erase := by
  cases e with
  | call callee args c =>
    simp only [Expr.erase, Expr.cutCall?]
    split <;> rfl
  | _ => rfl

theorem Expr.redirectCall?_erase (names : List (String × String)) (e : Expr) :
    Expr.redirectCall? names e.erase = (Expr.redirectCall? names e).map Expr.erase := by
  cases e with
  | call callee args c =>
    simp only [Expr.erase, Expr.redirectCall?]
    cases names.lookup callee <;> simp [Expr.erase]
  | _ => rfl

/-- Copies without positions. -/
def Unrolling.erase (acc : Unrolling) : Unrolling :=
  { acc with copies := acc.copies.map (Prod.map id FuncDef.erase) }

theorem SourceUnit.func?_erase (u : SourceUnit) (name : String) :
    u.erase.func? name = (u.func? name).map FuncDef.erase := by
  have hname : (fun f : FuncDef => f.name == name) ∘ FuncDef.erase = fun f => f.name == name :=
    funext fun f => congrArg (· == name) f.name_erase
  rw [SourceUnit.func?, SourceUnit.func?, SourceUnit.funcs_erase, List.find?_map, hname]

theorem Unrolling.addCopy_erase (u : SourceUnit) (g : CallGraph) (acc : Unrolling)
    (callee : String) :
    acc.erase.addCopy u.erase g callee = (acc.addCopy u g callee).erase := by
  simp only [Unrolling.addCopy, Unrolling.erase, lookup_map_snd, SourceUnit.func?_erase]
  cases acc.copies.lookup callee with
  | some copy => rfl
  | none =>
    cases u.func? callee with
    | none => rfl
    | some f =>
      simp [FuncDef.erase, Decl.rename_erase,
        Block.bottomUpM_erase (Counted.replace_erase (Expr.cutCall?_erase (g.leadsTo callee)))]

theorem Unrolling.foldl_addCopy_erase (u : SourceUnit) (g : CallGraph) (acc : Unrolling)
    (callees : List String) :
    callees.foldl (Unrolling.addCopy u.erase g) acc.erase =
      (callees.foldl (Unrolling.addCopy u g) acc).erase := by
  induction callees generalizing acc with
  | nil => rfl
  | cons callee rest ih => rw [List.foldl_cons, List.foldl_cons, Unrolling.addCopy_erase, ih]

theorem Unrolling.redirects_erase (acc : Unrolling) (cycles : List (String × String))
    (caller : String) : acc.erase.redirects cycles caller = acc.redirects cycles caller := by
  simp [Unrolling.redirects, Unrolling.erase, lookup_map_snd, Function.comp_def]

theorem Unrolling.erase_redirectItem (acc : Unrolling) (cycles : List (String × String)) :
    acc.erase.redirectItem cycles = acc.redirectItem cycles := by
  funext item
  cases item with
  | decl d => rfl
  | func f => simp only [Unrolling.redirectItem, Unrolling.redirects_erase]

theorem Unrolling.redirectItem_erase (acc : Unrolling) (cycles : List (String × String))
    (item : Item) :
    acc.redirectItem cycles item.erase = Item.erase <$> acc.redirectItem cycles item := by
  cases item with
  | decl d => rfl
  | func f =>
    have hbody := Block.bottomUpM_erase
      (Counted.replace_erase (Expr.redirectCall?_erase (acc.redirects cycles f.name))) f.body
    have hname : (⟨f.decl.erase, f.body.erase, none⟩ : FuncDef).name = f.name := f.name_erase
    simp [Item.erase, Unrolling.redirectItem, FuncDef.erase, hname, hbody]

theorem insertCopies_erase (copies : List (String × FuncDef)) (items : List Item) :
    insertCopies (copies.map (Prod.map id FuncDef.erase)) (items.map Item.erase) =
      (insertCopies copies items).map Item.erase := by
  induction items generalizing copies with
  | nil => rfl
  | cons item rest ih =>
    cases item with
    | decl d => simp [Item.erase, insertCopies, ih]
    | func f =>
      have hrest := ih (copies.filter (·.1 != f.name))
      simp only [List.map_cons, Item.erase, insertCopies, lookup_map_snd, FuncDef.name_erase]
      cases copies.lookup f.name with
      | none => simp [ih, Item.erase]
      | some copy =>
        have hfilter : (copies.map (Prod.map id FuncDef.erase)).filter (·.1 != f.name) =
            (copies.filter (·.1 != f.name)).map (Prod.map id FuncDef.erase) := by
          rw [List.filter_map]
          rfl
        simp [hfilter, hrest, Item.erase]

theorem SourceUnit.unrollRecursion_erase (u : SourceUnit) :
    u.erase.unrollRecursion = Prod.map SourceUnit.erase id u.unrollRecursion := by
  have hcopies := Unrolling.foldl_addCopy_erase u (CallGraph.ofUnit u)
    ⟨u.itemNames, [], 0⟩ ((CallGraph.ofUnit u).cycles.map Prod.snd)
  have hstart : Unrolling.erase ⟨u.itemNames, [], 0⟩ = ⟨u.itemNames, [], 0⟩ := rfl
  rw [hstart] at hcopies
  simp only [SourceUnit.unrollRecursion, CallGraph.ofUnit_erase, SourceUnit.itemNames_erase,
    hcopies]
  generalize ((CallGraph.ofUnit u).cycles.map Prod.snd).foldl
    (Unrolling.addCopy u (CallGraph.ofUnit u)) ⟨u.itemNames, [], 0⟩ = acc
  have hredirected := SourceUnit.mapItemsM_erase
    (Unrolling.redirectItem_erase acc (CallGraph.ofUnit u).cycles) u
  have hcount : acc.erase.cut = acc.cut := rfl
  have hlength : acc.erase.copies.length = acc.copies.length := by simp [Unrolling.erase]
  have hinsert (items : List Item) : insertCopies acc.erase.copies (items.map Item.erase) =
      (insertCopies acc.copies items).map Item.erase := insertCopies_erase acc.copies items
  simp only [Unrolling.erase_redirectItem, hredirected, Counted.value_map, Counted.count_map,
    hcount, hlength]
  simp only [SourceUnit.erase, hinsert]
  rfl

/-! ### Coefficient arrays -/

theorem lengthEntries_erase (ds : List Decl) :
    ((ds.map Decl.erase).filter Decl.isArray).filterMap Decl.namedLength? =
      (ds.filter Decl.isArray).filterMap Decl.namedLength? := by
  rw [List.filter_map, List.filterMap_map]
  have harray : Decl.isArray ∘ Decl.erase = Decl.isArray := funext Decl.isArray_erase
  have hentry : Decl.namedLength? ∘ Decl.erase = Decl.namedLength? :=
    funext fun d => by simp [Decl.namedLength?]
  rw [harray, hentry]

theorem SourceUnit.globalArrays_erase (u : SourceUnit) : u.erase.globalArrays = u.globalArrays := by
  have hdecls : u.erase.items.filterMap Item.decl? =
      (u.items.filterMap Item.decl?).map Decl.erase := by
    rw [SourceUnit.erase, List.filterMap_map, List.map_filterMap]
    exact List.filterMap_congr fun item _ => by cases item <;> rfl
  rw [SourceUnit.globalArrays, SourceUnit.globalArrays, SourceUnit.arrays, SourceUnit.arrays,
    hdecls, lengthEntries_erase]

theorem FuncDef.localArrays_erase (f : FuncDef) : f.erase.localArrays = f.localArrays := by
  have hdecls : f.erase.body.stmts.filterMap Stmt.decl? =
      (f.body.stmts.filterMap Stmt.decl?).map Decl.erase := by
    rw [FuncDef.erase, Block.stmts_erase, List.filterMap_map, List.map_filterMap]
    exact List.filterMap_congr fun s _ => by cases s <;> rfl
  rw [FuncDef.localArrays, FuncDef.localArrays, FuncDef.arrays, FuncDef.arrays, hdecls,
    FuncDef.params_erase, ← List.map_append, lengthEntries_erase]

theorem Expr.helperCall?_erase (e : Expr) :
    e.erase.helperCall? =
      e.helperCall?.map fun (helper, args, _) => (helper, args.map Expr.erase, none) := by
  cases e with
  | call callee args c =>
    simp only [Expr.erase, Expr.helperCall?]
    split <;> simp
  | _ => rfl

theorem Expr.specialize_erase (lengths : ArrayLengths) (function : String) (e : Expr) :
    e.erase.specialize lengths function = Expr.erase <$> e.specialize lengths function := by
  unfold Expr.specialize
  rw [Expr.helperCall?_erase]
  cases e.helperCall? with
  | none => simp
  | some found =>
    obtain ⟨helper, args, c⟩ := found
    have harg : (args.map Expr.erase)[1]?.bind Expr.idName? = args[1]?.bind Expr.idName? := by
      cases h : args[1]? <;> simp [h]
    simp only [Option.map_some, harg]
    cases (args[1]?.bind Expr.idName?).bind lengths.known? with
    | none => rfl
    | some length => simp [Expr.erase]

theorem Item.specializeHelpers_erase (globals : ArrayLengths) (item : Item) :
    item.erase.specializeHelpers globals = Item.erase <$> item.specializeHelpers globals := by
  cases item with
  | decl d => simp [Item.erase, Item.specializeHelpers]
  | func f =>
    simp only [Item.erase, Item.specializeHelpers, FuncDef.name_erase, FuncDef.localArrays_erase]
    split
    · simp [Item.erase]
    · simp [Item.erase, FuncDef.erase, Block.bottomUpM_erase (Expr.specialize_erase _ _)]

theorem Variant.prototype_erase (v : Variant) : v.prototype.erase = v.prototype := by
  simp [Variant.prototype, Decl.prototype, Decl.erase, Declarator.erase, Decl.ofScalar,
    Decl.ofArray, ElementType.erase, ElementType.ofScalar, Expr.int, Expr.erase]

theorem SourceUnit.specializeHelpers_erase (u : SourceUnit) :
    u.erase.specializeHelpers = u.specializeHelpers.map (Prod.map SourceUnit.erase id) := by
  have hitem := SourceUnit.mapItemsM_erase (Item.specializeHelpers_erase u.globalArrays) u
  have hkept (items : List Item) := filter_map_erase
    (p := fun item : Item => !item.name?.any arrayHelpers.contains)
    (fun item => by rw [Item.name?_erase]) items
  have hnames (items : List Item) :
      (items.map Item.erase).filterMap Item.name? = items.filterMap Item.name? := by
    simp [List.filterMap_map]
  simp only [SourceUnit.specializeHelpers, SourceUnit.globalArrays_erase, hitem, StateT.run_map,
    bind_map_left, Except.map_bind]
  refine bind_congr fun result => ?_
  obtain ⟨changed, chosen⟩ := result
  have hprototype (v : Variant) : (Item.decl v.prototype).erase = .decl v.prototype :=
    congrArg Item.decl v.prototype_erase
  simp only [SourceUnit.erase, hkept, hnames, List.length_map]
  simp [Except.map, pure, Except.pure, Function.comp_def, hprototype, SourceUnit.erase]

/-! ### Coercions -/

@[simp] theorem TypeEnv.declare_erase (env : TypeEnv) (d : Decl) :
    env.declare d.erase = env.declare d := by
  simp [TypeEnv.declare]

theorem Signature.ofDecl?_erase (d : Decl) : Signature.ofDecl? d.erase = Signature.ofDecl? d := by
  cases h : d.type <;> simp [Signature.ofDecl?, h, Declarator.erase]

theorem Signature.declared?_erase (d : Decl) : declared? d.erase = declared? d := by
  rw [declared?, declared?, ofDecl?_erase, Decl.name_erase]

theorem TypeEnv.ofUnit_erase (u : SourceUnit) : TypeEnv.ofUnit u.erase = TypeEnv.ofUnit u := by
  have hdecls : (u.erase.items.map Item.toDecl) =
      (u.items.map Item.toDecl).map Decl.erase := by
    simp only [SourceUnit.erase, List.map_map]
    refine List.map_congr_left fun item _ => ?_
    cases item <;> rfl
  simp [TypeEnv.ofUnit, hdecls, ← List.map_reverse, List.filterMap_map, Function.comp_def,
    Signature.declared?_erase]

namespace Expr

mutual

@[simp] theorem typeIn_erase (env : TypeEnv) (e : Expr) : e.erase.typeIn env = e.typeIn env := by
  cases e with
  | binary op l r c => simp [erase, typeIn, typeIn_erase env l, typeIn_erase env r]
  | unary op e c => simp [erase, typeIn, typeIn_erase env e]
  | assign op t v c => simp [erase, typeIn, typeIn_erase env t]
  | ternary p t e c => simp [erase, typeIn, typeIn_erase env t, typeIn_erase env e]
  | index a i c => simp [erase, typeIn, typeIn_erase env a]
  | comma items c => simp [erase, typeIn, lastTypeIn_erase env items]
  | id | literal | call | cast | initList => rfl

theorem lastTypeIn_erase (env : TypeEnv) (items : List Expr) :
    lastTypeIn env (items.map erase) = lastTypeIn env items := by
  match items with
  | [] => rfl
  | [e] => simp [lastTypeIn, typeIn_erase env e]
  | e :: e' :: rest => simpa [lastTypeIn] using lastTypeIn_erase env (e' :: rest)

end

theorem toFloatLiteral?_erase (e : Expr) :
    e.erase.toFloatLiteral? = e.toFloatLiteral?.map erase := by
  match e with
  | literal ⟨kind, text⟩ c =>
    cases kind <;> simp [erase, toFloatLiteral?, float, Function.comp_def]
  | unary op operand c =>
    cases op <;> simp [erase, toFloatLiteral?, toFloatLiteral?_erase operand, Function.comp_def]
  | id .. | binary .. | assign .. | ternary .. | call .. | cast .. | index .. | initList ..
  | comma .. => rfl

theorem coerce_erase (source target : ScalarType) (e : Expr) :
    e.erase.coerce source target = erase <$> e.coerce source target := by
  simp only [coerce, coord_erase, toFloatLiteral?_erase]
  split
  · rfl
  · split
    · cases e.toFloatLiteral? <;> rfl
    · rfl

theorem coerceArg_erase (source : ScalarType) (target : Option ScalarType) (e : Expr) :
    e.erase.coerceArg source target = erase <$> e.coerceArg source target := by
  cases target with
  | none => rfl
  | some t => exact coerce_erase source t e

theorem coerceOperand_erase (op : UnaryOp) (source : ScalarType) (e : Expr) :
    e.erase.coerceOperand op source = erase <$> e.coerceOperand op source := by
  cases op with
  | not | bitNot => exact coerce_erase source _ e
  | neg | plus =>
    simp only [coerceOperand]
    split
    · exact coerce_erase source _ e
    · rfl
  | preInc | preDec | postInc | postDec => rfl

theorem applyBinary_erase (op : BinaryOp) (operands : ScalarType) (truncated : Bool) (l r : Expr)
    (c : Coord) :
    applyBinary op operands truncated l.erase r.erase none =
      erase <$> applyBinary op operands truncated l r c := by
  unfold applyBinary
  split
  · split <;> rfl
  · rfl
  · rfl

variable {again : Expr → Counted Expr} {env : TypeEnv}

mutual

theorem coercedWith_erase (hagain : ∀ e, again e.erase = erase <$> again e) (truncated : Bool)
    (e : Expr) :
    e.erase.coercedWith again env truncated = erase <$> e.coercedWith again env truncated := by
  cases e with
  | id | literal => rfl
  | binary op l r c =>
    simp [erase, coercedWith, coercedWith_erase hagain false l, coercedWith_erase hagain false r,
      coerce_erase, ← applyBinary_erase _ _ _ _ _ c]
  | unary op e c =>
    simp [erase, coercedWith, coercedWith_erase hagain false e, coerceOperand_erase]
  | assign op t v c =>
    have hcombined (b : BinaryOp) (t v : Expr) :
        again (binary b t.erase v.erase none) = erase <$> again (binary b t v none) :=
      hagain (binary b t v none)
    simp only [erase, coercedWith, coercedWith_erase hagain false t,
      coercedWith_erase hagain false v, bind_map_left, map_bind, typeIn_erase]
    refine bind_congr fun t' => bind_congr fun v' => ?_
    cases op.binary? with
    | none => simp [coerce_erase, erase]
    | some b =>
      have htype : (binary b t'.erase v'.erase none).typeIn env =
          (binary b t' v' none).typeIn env := typeIn_erase env (binary b t' v' none)
      have hwritten : isWrittenOut b (t.typeIn env) (v.typeIn env) t'.erase =
          isWrittenOut b (t.typeIn env) (v.typeIn env) t' := by
        simp only [isWrittenOut, hasSideEffects_erase]
      simp only [hwritten, hcombined]
      by_cases hout : isWrittenOut b (t.typeIn env) (v.typeIn env) t' = true
      · simp only [hout, if_true, htype, bind_map_left, coerce_erase, map_bind]
        rfl
      · simp only [hout, coerce_erase, bind_map_left]
        rfl
  | ternary p t e c =>
    simp [erase, coercedWith, coercedWith_erase hagain false p, coercedWith_erase hagain false t,
      coercedWith_erase hagain false e, coerce_erase]
  | call callee args c => simp [erase, coercedWith, coercedArgs_erase hagain _ _ 0 args]
  | cast type e c => simp [erase, coercedWith, coercedWith_erase hagain false e]
  | index a i c =>
    simp [erase, coercedWith, coercedWith_erase hagain false a, coercedWith_erase hagain false i,
      coerce_erase]
  | initList items c => simp [erase, coercedWith, coercedList_erase hagain items]
  | comma items c => simp [erase, coercedWith, coercedList_erase hagain items]

theorem coercedArgs_erase (hagain : ∀ e, again e.erase = erase <$> again e) (truncates : Bool)
    (signature : Option Signature) (i : Nat) (args : List Expr) :
    coercedArgs again env truncates signature i (args.map erase) =
      List.map erase <$> coercedArgs again env truncates signature i args := by
  cases args with
  | nil => rfl
  | cons e rest =>
    simp [coercedArgs, coercedWith_erase hagain _ e, coerceArg_erase,
      coercedArgs_erase hagain truncates signature (i + 1) rest]

theorem coercedList_erase (hagain : ∀ e, again e.erase = erase <$> again e) (items : List Expr) :
    coercedList again env (items.map erase) = List.map erase <$> coercedList again env items := by
  cases items with
  | nil => rfl
  | cons e rest =>
    simp [coercedList, coercedWith_erase hagain false e, coercedList_erase hagain rest]

end

theorem coercedTo_erase (env : TypeEnv) (depth : Nat) (e : Expr) :
    e.erase.coercedTo env depth = erase <$> e.coercedTo env depth := by
  induction depth generalizing e with
  | zero => exact coercedWith_erase (fun _ => rfl) false e
  | succ depth ih => exact coercedWith_erase ih false e

theorem compoundAssigns_erase (e : Expr) : e.erase.compoundAssigns = e.compoundAssigns := by
  have hassign (e : Expr) : e.erase.isCompoundAssign = e.isCompoundAssign := by
    cases e <;> rfl
  simp [compoundAssigns, subexprs_erase, filter_map_erase hassign]

theorem coerced_erase (env : TypeEnv) (e : Expr) :
    e.erase.coerced env = erase <$> e.coerced env := by
  rw [coerced, compoundAssigns_erase, coercedTo_erase, coerced]

theorem coercedAs_erase (env : TypeEnv) (target : ScalarType) (e : Expr) :
    e.erase.coercedAs env target = erase <$> e.coercedAs env target := by
  simp [coercedAs, coerced_erase, coerce_erase]

theorem coercedItems_erase (env : TypeEnv) (target : ScalarType) (items : List Expr) :
    coercedItems env target (items.map erase) =
      List.map erase <$> coercedItems env target items := by
  induction items with
  | nil => rfl
  | cons e rest ih => simp [coercedItems, coercedAs_erase, ih]

end Expr

namespace Decl

theorem coercedInit_erase (env : TypeEnv) (d : Decl) :
    d.erase.coercedInit env = Option.map Expr.erase <$> d.coercedInit env := by
  -- The two ways to convert one expression do not depend on its constructor.
  have hwhole (e : Expr) : (if d.isArray then e.erase.coerced env >>= fun e => pure (some e)
      else e.erase.coercedAs env d.scalar >>= fun e => pure (some e)) =
      Option.map Expr.erase <$> (if d.isArray then e.coerced env >>= fun e => pure (some e)
      else e.coercedAs env d.scalar >>= fun e => pure (some e)) := by
    split
    · simp [Expr.coerced_erase]
    · simp [Expr.coercedAs_erase]
  simp only [coercedInit, init_erase, isArray_erase, scalar_erase]
  cases d.init with
  | none => rfl
  | some e =>
    cases e with
    | initList items c => simp [Expr.erase, Expr.coercedItems_erase]
    | _ => exact hwhole _

theorem coerced_erase (env : TypeEnv) (d : Decl) :
    d.erase.coerced env = erase <$> d.coerced env := by
  simp only [coerced, coercedInit_erase, bind_map_left, map_bind, map_pure]
  simp only [erase_eq]

theorem coercedList_erase (env : TypeEnv) (ds : List Decl) :
    coercedList env (ds.map erase) =
      Prod.map (List.map erase) id <$> coercedList env ds := by
  induction ds generalizing env with
  | nil => rfl
  | cons d rest ih => simp [coercedList, coerced_erase, ih]

end Decl

theorem ForInit.coerced_erase (env : TypeEnv) (init : Option ForInit) :
    ForInit.coerced env (init.map ForInit.erase) =
      Prod.map (Option.map ForInit.erase) id <$> ForInit.coerced env init := by
  rcases init with _ | ds | e
  · rfl
  · simp [ForInit.coerced, ForInit.erase, Decl.coercedList_erase]
  · simp [ForInit.coerced, ForInit.erase, Expr.coerced_erase]

namespace Stmt

variable {result : ScalarType}

mutual

theorem coerced_erase (env : TypeEnv) (s : Stmt) :
    s.erase.coerced result env = Prod.map erase id <$> s.coerced result env := by
  cases s with
  | decl d c => simp [erase, coerced, Decl.coerced_erase]
  | block items b c => simp [erase, coerced, coercedList_erase env items]
  | expr e c => simp [erase, coerced, Expr.coerced_erase]
  | ifThen p t c => simp [erase, coerced, Expr.coercedAs_erase, coerced_erase env t]
  | ifElse p t e c =>
    simp [erase, coerced, Expr.coercedAs_erase, coerced_erase env t, coerced_erase _ e]
  | forLoop init cond next body c =>
    simp [erase, coerced, ForInit.coerced_erase, mapOptionM_erase (Expr.coercedAs_erase _ _),
      mapOptionM_erase (Expr.coerced_erase _), coerced_erase _ body]
  | whileLoop p body c => simp [erase, coerced, Expr.coercedAs_erase, coerced_erase env body]
  | doWhile p body c => simp [erase, coerced, Expr.coercedAs_erase, coerced_erase env body]
  | ret value c => simp [erase, coerced, mapOptionM_erase (Expr.coercedAs_erase _ _)]
  | label n s c => simp [erase, coerced, coerced_erase env s]
  | brk | cont | goto | empty => rfl

theorem coercedList_erase (env : TypeEnv) (items : List Stmt) :
    coercedList result env (items.map erase) =
      Prod.map (List.map erase) id <$> coercedList result env items := by
  cases items with
  | nil => rfl
  | cons s rest => simp [coercedList, coerced_erase env s, coercedList_erase _ rest]

end

end Stmt

theorem FuncDef.bodyEnv_erase (env : TypeEnv) (f : FuncDef) :
    f.erase.bodyEnv env = f.bodyEnv env := by
  simp [FuncDef.bodyEnv, List.foldl_map]

theorem Item.coerced_erase (env : TypeEnv) (item : Item) :
    item.erase.coerced env = Item.erase <$> item.coerced env := by
  cases item with
  | decl d =>
    simp only [Item.erase, Item.coerced, Decl.isFunction_erase]
    split
    · rfl
    · simp [Decl.coerced_erase, Item.erase]
  | func f =>
    have hbody : f.erase.body.items = f.body.items.map Stmt.erase := rfl
    simp [Item.erase, Item.coerced, FuncDef.bodyEnv_erase, hbody, Stmt.coercedList_erase]
    rfl

theorem SourceUnit.coerced_erase (u : SourceUnit) :
    u.erase.coerced = Prod.map SourceUnit.erase id u.coerced := by
  simp [SourceUnit.coerced, TypeEnv.ofUnit_erase,
    SourceUnit.mapItemsM_erase (Item.coerced_erase (TypeEnv.ofUnit u))]

/-! ### Runs -/

/-- Erasing positions before a pass or after it. -/
theorem Pass.apply_erase (pass : Pass) (context : PassContext) (u : SourceUnit) :
    pass.apply context u.erase = (pass.apply context u).map (Prod.map SourceUnit.erase id) := by
  cases pass with
  | spelling => simp [Pass.apply, u.respell_erase, Except.map]
  | errorCalls => simp [Pass.apply, u.removeErrorCalls_erase, Except.map]
  | mathNames => simp [Pass.apply, u.genericMathNames_erase, Except.map]
  | staticStorage =>
    simp only [Pass.apply, u.promoteStatics_erase]
    cases u.promoteStatics context.baseName <;> rfl
  | castCalls => simp [Pass.apply, u.castsToCalls_erase, Except.map]
  | absIdiom =>
    simp [Pass.apply, SourceUnit.foldAbs, u.foldIdiom_erase Expr.absOperand?_erase, Except.map]
  | oddIdiom =>
    simp [Pass.apply, SourceUnit.foldIsOdd, u.foldIdiom_erase Expr.oddOperand?_erase, Except.map]
  | jumps =>
    simp only [Pass.apply, u.eliminateJumps_erase]
    cases u.eliminateJumps <;> rfl
  | loops =>
    simp only [Pass.apply, u.boundLoops_erase]
    cases u.boundLoops context.pool <;> rfl
  | recursion => simp [Pass.apply, u.unrollRecursion_erase, Except.map]
  | coefficientArrays =>
    simp only [Pass.apply, u.specializeHelpers_erase]
    cases u.specializeHelpers <;> rfl
  | coercions => simp [Pass.apply, u.coerced_erase, Except.map]

theorem Pass.applyAll_erase (passes : List Pass) (context : PassContext) (u : SourceUnit) :
    Pass.applyAll passes context u.erase =
      (Pass.applyAll passes context u).map (Prod.map SourceUnit.erase id) := by
  induction passes generalizing context u with
  | nil => rfl
  | cons pass rest ih =>
    simp only [Pass.applyAll, Pass.apply_erase, Except.bind_map, Except.map_bind]
    refine bind_congr fun result => ?_
    obtain ⟨v, tally, context⟩ := result
    simp only [Prod.map_apply, id_eq, ih, Except.bind_map]
    rfl

/-- Erasing positions before a run or after it. -/
theorem normalize_erase (config : PipelineConfig) (u : SourceUnit) :
    normalize config u.erase = (normalize config u).map (Prod.map SourceUnit.erase id) := by
  simp only [normalize, Pass.applyAll_erase, Except.bind_map, Except.map_bind]
  rfl

end MathKernel
