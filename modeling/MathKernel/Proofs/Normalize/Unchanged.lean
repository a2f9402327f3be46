import MathKernel.Proofs.Normalize.NormalForm
import MathKernel.Proofs.Normalize.CoercedRuns

/-!
# Units that a pass leaves alone

Each pass leaves a unit alone that has none of what it removes, and counts no change. What a unit
must not have is said by a fragment as far as its bodies go, and of its items by name and storage.

## Main definitions

* `Block.itemDecls` — the declarations among the items of a body's blocks
* `Item.IsPromoted` — an item that the promotion of statics leaves alone

## Main results

* `SourceUnit.removeErrorCalls_eq_self`, …, `SourceUnit.specializeHelpers_eq_self`
-/

namespace MathKernel

/-! ### Blocks and bodies -/

/-- The declarations among the items of a body's blocks. -/
def Block.itemDecls (b : Block) : List Decl :=
  b.blocks.flatMap fun x => x.items.filterMap Stmt.decl?

theorem Block.mem_itemDecls {b x : Block} (hx : x ∈ b.blocks) {d : Decl} {c : Coord}
    (hd : .decl d c ∈ x.items) : d ∈ b.itemDecls :=
  List.mem_flatMap.2 ⟨x, hx, List.mem_filterMap.2 ⟨_, hd, rfl⟩⟩

variable {F : Fragment}

theorem Block.IsIn.of_mem_blocks {b x : Block} (h : b.IsIn F) (hx : x ∈ b.blocks) : x.IsIn F := by
  rcases List.mem_cons.1 hx with rfl | hx
  · exact h
  · obtain ⟨s, hs, hx⟩ := List.mem_filterMap.1 hx
    have hs := Stmt.AreIn.of_mem b.items h hs
    cases s with
    | block items c c' =>
      cases hx
      exact hs
    | _ => cases hx

theorem Block.IsIn.itemDecls {b : Block} (h : b.IsIn F) {d : Decl} (hd : d ∈ b.itemDecls) :
    F.item d.name d.isStaticVariable := by
  obtain ⟨x, hx, hd⟩ := List.mem_flatMap.1 hd
  obtain ⟨s, hs, hd⟩ := List.mem_filterMap.1 hd
  have hitem := (Stmt.areIn_iff.1 (h.of_mem_blocks hx) s hs).1
  cases s with
  | decl d' c =>
    cases hd
    exact hitem
  | _ => cases hd

theorem mapBodies_eq_self {f : Block → Block × Tally} {items : List Item}
    (h : ∀ g, .func g ∈ items → f g.body = (g.body, .zero)) :
    mapBodies f items = (items, .zero) := by
  induction items with
  | nil => rfl
  | cons item rest ih =>
    have hrest := ih fun g hg => h g (List.mem_cons_of_mem _ hg)
    cases item with
    | decl d => rw [mapBodies, hrest]
    | func g =>
      rw [mapBodies, hrest, h g List.mem_cons_self]
      rfl

theorem Counted.replace_eq_pure {α : Type} {g : α → Option α} {a : α} (h : g a = none) :
    Counted.replace g a = pure a := by
  unfold Counted.replace
  rw [h]

/-- A rewriting of expressions that finds nothing in a body. -/
theorem Block.replace_eq_pure {g : Expr → Option Expr} {b : Block} (h : ∀ e ∈ b.exprs, g e = none) :
    b.bottomUpM (Counted.replace g) = pure b :=
  Block.bottomUpM_eq_pure fun e he => Counted.replace_eq_pure (h e he)

theorem SourceUnit.mapItemsM_eq_pure {m : Type → Type} [Monad m] [LawfulMonad m] {f : Item → m Item}
    {u : SourceUnit} (h : ∀ item ∈ u.items, f item = pure item) : u.mapItemsM f = pure u := by
  rw [SourceUnit.mapItemsM, MathKernel.mapM_eq_pure h, pure_bind]

/-! ### Error reports -/

theorem Block.removeErrorCalls_eq_self {b : Block} (h : b.IsIn F)
    (hcallee : ∀ name, F.callee name → name ≠ errorRoutine)
    (hdecls : ∀ d ∈ b.itemDecls, d.name ≠ some errorRoutine) :
    b.removeErrorCalls = (b, .zero) := by
  have hblocks : b.mapBlocksM Block.dropErrorReports = pure b := by
    refine Block.mapBlocksM_eq_pure fun x hx => ?_
    have hkept : x.items.filter (fun s => !s.isErrorReport) = x.items := by
      refine List.filter_eq_self.2 fun s hs => ?_
      have hin := (Stmt.areIn_iff.1 (h.of_mem_blocks hx) s hs).2
      cases s with
      | decl d c => simpa [Stmt.isErrorReport] using hdecls d (Block.mem_itemDecls hx hs)
      | expr e c =>
        cases e with
        | call callee args c =>
          have hname := hcallee callee (Expr.isIn_call.1 hin).1
          simpa [Stmt.isErrorReport] using hname
        | _ => rfl
      | _ => rfl
    simp only [Block.dropErrorReports, hkept, Nat.sub_self]
    rfl
  have hexprs : b.bottomUpM (Counted.replace Expr.errorCode?) = pure b := by
    refine Block.replace_eq_pure fun e he => ?_
    have hnode := h.node he
    cases e with
    | call callee args c => simp only [Expr.errorCode?, if_neg (hcallee callee hnode)]
    | _ => rfl
  rw [Block.removeErrorCalls, hblocks, Counted.value_pure, hexprs]
  rfl

theorem SourceUnit.removeErrorCalls_eq_self {u : SourceUnit}
    (hnames : ∀ item ∈ u.items, item.name? ≠ some errorRoutine)
    (hbodies : ∀ f, .func f ∈ u.items → f.body.removeErrorCalls = (f.body, .zero)) :
    u.removeErrorCalls = (u, .zero) := by
  have hkept : u.items.filter (fun item => item.name? != some errorRoutine) = u.items :=
    List.filter_eq_self.2 fun item hitem => by simpa using hnames item hitem
  simp only [SourceUnit.removeErrorCalls, hkept, mapBodies_eq_self hbodies, Nat.sub_self]
  rfl

/-! ### Math functions -/

theorem keepFirstPrototypes_eq_self {seen : List String} {items : List Item}
    (hnodup : (items.filterMap Item.genericPrototype?).Nodup)
    (hseen : ∀ name ∈ items.filterMap Item.genericPrototype?, name ∉ seen) :
    keepFirstPrototypes seen items = items := by
  induction items generalizing seen with
  | nil => rfl
  | cons item rest ih =>
    rw [keepFirstPrototypes]
    cases hname : item.genericPrototype? with
    | none =>
      rw [List.filterMap_cons_none hname] at hnodup hseen
      rw [ih hnodup hseen]
    | some name =>
      rw [List.filterMap_cons_some hname] at hnodup hseen
      obtain ⟨hhere, hrest⟩ := List.nodup_cons.1 hnodup
      obtain ⟨hname, hseen⟩ := List.forall_mem_cons.1 hseen
      have hnew : ∀ other ∈ rest.filterMap Item.genericPrototype?, other ∉ name :: seen := by
        intro other hother hmem
        rcases List.mem_cons.1 hmem with rfl | hmem
        · exact hhere hother
        · exact hseen other hother hmem
      simp only [List.contains_iff_mem, if_neg hname, ih hrest hnew]

theorem Tally.sum_zero (items : List Item) : Tally.sum (items.map fun _ => Tally.zero) = .zero := by
  induction items with
  | nil => rfl
  | cons item rest ih => exact ih

theorem Block.toGenericCalls_eq_self {b : Block} (h : b.IsIn F)
    (hcallee : ∀ name, F.callee name → IsGenericName name) : b.toGenericCalls = (b, .zero) := by
  have hcalls : b.bottomUpM (Counted.replace Expr.toGenericCall?) = pure b := by
    refine Block.replace_eq_pure fun e he => ?_
    have hnode := h.node he
    cases e with
    | call callee args c =>
      rw [Expr.toGenericCall?]
      split
      · next generic hgeneric => rw [if_pos (hcallee callee hnode generic hgeneric).symm]
      · rfl
    | _ => rfl
  rw [Block.toGenericCalls, hcalls]
  rfl

theorem SourceUnit.genericMathNames_eq_self {u : SourceUnit}
    (hitems : ∀ item ∈ u.items, item.toGenericMath = (item, .zero))
    (hnodup : (u.items.filterMap Item.genericPrototype?).Nodup)
    (hbodies : ∀ f, .func f ∈ u.items → f.body.toGenericCalls = (f.body, .zero)) :
    u.genericMathNames = (u, .zero) := by
  have hrenamed : u.items.map Item.toGenericMath = u.items.map fun item => (item, Tally.zero) :=
    List.map_congr_left hitems
  have hfirst : (u.items.map fun item => (item, Tally.zero)).map Prod.fst = u.items := by
    rw [List.map_map]
    exact List.map_id _
  have hsecond : Tally.sum ((u.items.map fun item => (item, Tally.zero)).map Prod.snd) = .zero := by
    rw [List.map_map]
    exact Tally.sum_zero u.items
  have hkept : keepFirstPrototypes [] u.items = u.items :=
    keepFirstPrototypes_eq_self hnodup (by simp)
  simp only [SourceUnit.genericMathNames, hrenamed, hfirst, hsecond, hkept,
    mapBodies_eq_self hbodies, Nat.sub_self]
  rfl

/-! ### Static variables -/

/-- The promotion of statics leaves the item alone: it is not static, or a static variable without
a name. -/
def Item.IsPromoted (item : Item) : Prop :=
  ∀ unit p, item.promoteGlobal unit p = (item, p, 0)

theorem promoteGlobals_eq_self {items : List Item} (h : ∀ item ∈ items, item.IsPromoted)
    (unit : String) (p : Promotion) : promoteGlobals unit p items = (items, p, 0) := by
  induction items with
  | nil => rfl
  | cons item rest ih =>
    obtain ⟨hitem, hrest⟩ := List.forall_mem_cons.1 h
    simp only [promoteGlobals, hitem unit p, ih hrest]

theorem Expr.renameIds_nil (hidden : List String) (e : Expr) : e.renameIds [] hidden = pure e := by
  refine Expr.bottomUpM_eq_pure fun s _ => Counted.replace_eq_pure ?_
  cases s with
  | id name c => simp [Renames.lookup?]
  | _ => rfl

theorem Decl.mapScopedListM_pure {σ : Type} (declare : Decl → σ → σ) (scope : σ)
    (ds : List Decl) :
    ∃ last, Decl.mapScopedListM (m := Counted) declare (fun _ => pure) scope ds =
      pure (ds, last) := by
  induction ds generalizing scope with
  | nil => exact ⟨scope, rfl⟩
  | cons d rest ih =>
    obtain ⟨last, hrest⟩ := ih (declare d scope)
    refine ⟨last, ?_⟩
    rw [Decl.mapScopedListM, Decl.mapExprsM_eq_pure fun _ _ => rfl, pure_bind, hrest, pure_bind]

namespace Stmt

theorem mapOptionM_pure (e : Option Expr) : mapOptionM (m := Counted) pure e = pure e :=
  mapOptionM_eq_pure fun _ _ => rfl

mutual

theorem mapScopedM_pure {σ : Type} (declare : Decl → σ → σ) (scope : σ) (s : Stmt) :
    ∃ last, mapScopedM (m := Counted) declare (fun _ => pure) scope s = pure (s, last) := by
  cases s with
  | decl d c =>
    refine ⟨declare d scope, ?_⟩
    rw [mapScopedM, Decl.mapExprsM_eq_pure fun _ _ => rfl, pure_bind]
  | block items b c =>
    obtain ⟨last, hitems⟩ := mapScopedListM_pure declare scope items
    exact ⟨scope, by rw [mapScopedM, hitems, pure_bind]⟩
  | expr e c => exact ⟨scope, by rw [mapScopedM, pure_bind]⟩
  | ifThen p t c =>
    obtain ⟨last, ht⟩ := mapScopedM_pure declare scope t
    exact ⟨last, by rw [mapScopedM, pure_bind, ht, pure_bind]⟩
  | ifElse p t e c =>
    obtain ⟨between, ht⟩ := mapScopedM_pure declare scope t
    obtain ⟨last, he⟩ := mapScopedM_pure declare between e
    exact ⟨last, by simp only [mapScopedM, pure_bind, ht, he]⟩
  | forLoop init cond next body c =>
    match init with
    | none =>
      obtain ⟨last, hbody⟩ := mapScopedM_pure declare scope body
      exact ⟨last, by simp only [mapScopedM, mapOptionM_pure, pure_bind, hbody]⟩
    | some (.expr e) =>
      obtain ⟨last, hbody⟩ := mapScopedM_pure declare scope body
      exact ⟨last, by simp only [mapScopedM, mapOptionM_pure, pure_bind, hbody]⟩
    | some (.decls ds) =>
      obtain ⟨inner, hds⟩ := Decl.mapScopedListM_pure declare scope ds
      obtain ⟨last, hbody⟩ := mapScopedM_pure declare inner body
      exact ⟨scope, by simp only [mapScopedM, hds, mapOptionM_pure, pure_bind, hbody]⟩
  | whileLoop p body c | doWhile p body c =>
    obtain ⟨last, hbody⟩ := mapScopedM_pure declare scope body
    exact ⟨last, by simp only [mapScopedM, pure_bind, hbody]⟩
  | ret value c => exact ⟨scope, by simp only [mapScopedM, mapOptionM_pure, pure_bind]⟩
  | label n s c =>
    obtain ⟨last, hs⟩ := mapScopedM_pure declare scope s
    exact ⟨last, by simp only [mapScopedM, pure_bind, hs]⟩
  | brk | cont | goto | empty => exact ⟨scope, rfl⟩

theorem mapScopedListM_pure {σ : Type} (declare : Decl → σ → σ) (scope : σ) (items : List Stmt) :
    ∃ last, mapScopedListM (m := Counted) declare (fun _ => pure) scope items =
      pure (items, last) := by
  cases items with
  | nil => exact ⟨scope, rfl⟩
  | cons s rest =>
    obtain ⟨next, hs⟩ := mapScopedM_pure declare scope s
    obtain ⟨last, hrest⟩ := mapScopedListM_pure declare next rest
    exact ⟨last, by simp only [mapScopedListM, pure_bind, hs, hrest]⟩

end

end Stmt

/-- Without new names nothing is renamed. -/
theorem Block.renameIds_nil (params : List String) (b : Block) :
    b.renameIds [] params = pure b := by
  have hrename : Expr.renameIds [] = fun _ => pure :=
    funext fun hidden => funext fun e => Expr.renameIds_nil hidden e
  obtain ⟨last, hitems⟩ := Stmt.mapScopedListM_pure declareName params b.items
  rw [Block.renameIds, hrename, hitems, pure_bind]

theorem Block.takeStatics_eq_self {b : Block} (h : ∀ d ∈ b.itemDecls, d.isStaticVariable = false) :
    (b.mapBlocksM Block.takeStatics).run [] = (b, []) := by
  have hblocks : b.mapBlocksM Block.takeStatics = (pure b : StateM (List Decl) Block) := by
    refine Block.mapBlocksM_eq_pure fun x hx => ?_
    have hnone : ∀ s ∈ x.items, s.staticVariable? = none := by
      intro s hs
      cases s with
      | decl d c => simp [Stmt.staticVariable?, h d (Block.mem_itemDecls hx hs)]
      | _ => rfl
    have hkept : x.items.filter (fun s => s.staticVariable?.isNone) = x.items :=
      List.filter_eq_self.2 fun s hs => by simp [hnone s hs]
    have hfound : x.items.filterMap Stmt.staticVariable? = [] :=
      List.filterMap_eq_nil_iff.2 hnone
    funext found
    simp only [Block.takeStatics, hkept, hfound, List.append_nil]
    rfl
  rw [hblocks]
  rfl

theorem FuncDef.promoteStatics_eq_self {f : FuncDef}
    (h : ∀ d ∈ f.body.itemDecls, d.isStaticVariable = false) (unit : String) (taken : List String) :
    f.promoteStatics unit ⟨taken, [], []⟩ = .ok ([.func f], ⟨taken, [], []⟩, .zero) := by
  have hwritten : f.body.writtenStatic? [] = none := by
    refine List.findSome?_eq_none_iff.2 fun e _ => ?_
    cases e.writeTarget?.bind Expr.lvalueRoot? <;> rfl
  simp only [FuncDef.promoteStatics, Block.takeStatics_eq_self h, hoistStatics,
    Block.renameIds_nil, Counted.value_pure, hwritten]
  rfl

theorem promoteInItems_eq_self {items : List Item}
    (h : ∀ f, .func f ∈ items → ∀ d ∈ f.body.itemDecls, d.isStaticVariable = false) (unit : String)
    (taken : List String) : promoteInItems unit ⟨taken, [], []⟩ items = .ok (items, .zero) := by
  induction items with
  | nil => rfl
  | cons item rest ih =>
    have hrest := ih fun f hf => h f (List.mem_cons_of_mem _ hf)
    cases item with
    | decl d =>
      have hd : d.renameIds [] = pure d := Decl.mapExprsM_eq_pure fun e _ => Expr.renameIds_nil [] e
      rw [promoteInItems, hrest, hd]
      rfl
    | func f =>
      rw [promoteInItems, FuncDef.promoteStatics_eq_self (h f List.mem_cons_self)]
      change (promoteInItems unit ⟨taken, [], []⟩ rest >>= _) = _
      rw [hrest]
      rfl

theorem SourceUnit.promoteStatics_eq_self {u : SourceUnit}
    (hitems : ∀ item ∈ u.items, item.IsPromoted)
    (hbodies : ∀ f, .func f ∈ u.items → ∀ d ∈ f.body.itemDecls, d.isStaticVariable = false)
    (unit : String) : u.promoteStatics unit = .ok (u, .zero) := by
  rw [SourceUnit.promoteStatics, promoteGlobals_eq_self hitems]
  change (promoteInItems unit ⟨_, [], []⟩ u.items >>= _) = _
  rw [promoteInItems_eq_self hbodies]
  rfl

/-! ### Casts and idioms -/

theorem Expr.castCall?_eq_none {e : Expr} (h : e.isCast = false) : e.castCall? = none := by
  cases e with
  | cast => cases h
  | _ => rfl

theorem Expr.IsIn.castCalls_eq_pure (hcasts : ¬ F.casts) {e : Expr} (h : e.IsIn F) :
    e.bottomUpM (Counted.replace Expr.castCall?) = pure e := by
  refine Expr.bottomUpM_eq_pure fun s hs => ?_
  have hnode := h s hs
  have hcast : s.isCast = false := by
    cases s with
    | cast => exact absurd hnode hcasts
    | _ => rfl
  exact Counted.replace_eq_pure (Expr.castCall?_eq_none hcast)

theorem SourceUnit.castsToCalls_eq_self (hcasts : ¬ F.casts) {u : SourceUnit} (h : u.IsIn F) :
    u.castsToCalls = (u, .zero) := by
  have hitems : u.mapItemsM (Item.mapExprsM (Expr.bottomUpM (Counted.replace Expr.castCall?))) =
      pure u := by
    refine SourceUnit.mapItemsM_eq_pure fun item hitem => ?_
    have hin := h item hitem
    cases item with
    | decl d =>
      have hd : d.mapExprsM (Expr.bottomUpM (Counted.replace Expr.castCall?)) = pure d :=
        Decl.mapExprsM_eq_pure fun e he =>
          Expr.IsIn.castCalls_eq_pure (F := F.anyCallee) hcasts (hin.exprs e he)
      rw [Item.mapExprsM, hd, pure_bind]
    | func f =>
      have hbody := Stmt.mapExprsListM_eq_pure
        (f := Expr.bottomUpM (Counted.replace Expr.castCall?)) f.body.items fun s hs e he =>
          Expr.IsIn.castCalls_eq_pure hcasts ((Stmt.AreIn.of_mem f.body.items hin.2 hs).ownExprs he)
      rw [Item.mapExprsM, Block.mapExprsM, hbody, pure_bind, pure_bind]
  rw [SourceUnit.castsToCalls, hitems]
  rfl

theorem SourceUnit.foldIdiom_eq_self {operand? : Expr → Option Expr} {u : SourceUnit}
    (h : ∀ f, .func f ∈ u.items → ∀ e ∈ f.body.exprs, operand? e = none) (callee : String) :
    u.foldIdiom operand? callee = (u, .zero) := by
  have hbodies (f : FuncDef) (hf : .func f ∈ u.items) :
      f.body.bottomUpM (Counted.replace (Expr.foldIdiom? operand? callee)) = pure f.body :=
    Block.replace_eq_pure fun e he => by rw [Expr.foldIdiom?, h f hf e he, Option.map_none]
  rw [SourceUnit.foldIdiom, mapBodies_eq_self fun f hf => by rw [hbodies f hf]; rfl]

/-! ### Jumps and loops -/

theorem eliminateJumpsInItems_eq_self {items : List Item}
    (h : ∀ f, .func f ∈ items → f.eliminateJumps = .ok (f, .zero)) :
    eliminateJumpsInItems items = .ok (items, .zero) := by
  induction items with
  | nil => rfl
  | cons item rest ih =>
    have hrest := ih fun f hf => h f (List.mem_cons_of_mem _ hf)
    cases item with
    | decl d =>
      rw [eliminateJumpsInItems, hrest]
      rfl
    | func f =>
      rw [eliminateJumpsInItems, h f List.mem_cons_self, hrest]
      rfl

theorem SourceUnit.eliminateJumps_eq_self (hgotos : ¬ F.gotos) (hlabels : ¬ F.labels)
    {u : SourceUnit} (h : u.IsIn F) : u.eliminateJumps = .ok (u, .zero) := by
  have hbodies (f : FuncDef) (hf : .func f ∈ u.items) : f.eliminateJumps = .ok (f, .zero) := by
    have hnone : f.body.stmts.any Stmt.isJump = false := by
      refine List.any_eq_false.2 fun s hs => ?_
      have hin := Stmt.AreIn.of_mem f.body.items (h _ hf).2 hs
      cases s with
      | goto => exact absurd hin hgotos
      | label => exact absurd hin.1 hlabels
      | _ => simp [Stmt.isJump]
    rw [FuncDef.eliminateJumps, hnone]
    rfl
  rw [SourceUnit.eliminateJumps, eliminateJumpsInItems_eq_self hbodies]
  rfl

namespace Stmt

mutual

theorem boundLoops_eq_pure (hloops : ¬ F.openLoops) (s : Stmt) (h : s.IsIn F) :
    s.boundLoops = pure s := by
  cases s with
  | block items b c => rw [boundLoops, boundLoopsList_eq_pure hloops items h, pure_bind]
  | ifThen p t c => rw [boundLoops, boundLoops_eq_pure hloops t h.2, pure_bind]
  | ifElse p t e c =>
    rw [boundLoops, boundLoops_eq_pure hloops t h.2.1, pure_bind,
      boundLoops_eq_pure hloops e h.2.2, pure_bind]
  | forLoop init cond next body c =>
    rw [boundLoops, boundLoops_eq_pure hloops body h.2.2.2, pure_bind]
  | whileLoop p body c | doWhile p body c => exact absurd h.1 hloops
  | label n s c => rw [boundLoops, boundLoops_eq_pure hloops s h.2, pure_bind]
  | decl | expr | ret | brk | cont | goto | empty => rfl

theorem boundLoopsList_eq_pure (hloops : ¬ F.openLoops) (items : List Stmt) (h : AreIn F items) :
    boundLoopsList items = pure items := by
  cases items with
  | nil => rfl
  | cons s rest =>
    rw [boundLoopsList, boundLoops_eq_pure hloops s h.2.1, pure_bind,
      boundLoopsList_eq_pure hloops rest h.2.2, pure_bind]

end

end Stmt

theorem SourceUnit.boundLoops_eq_self (hloops : ¬ F.openLoops) {u : SourceUnit} (h : u.IsIn F)
    (pool : NamePool) : u.boundLoops pool = .ok (u, .zero, pool) := by
  have hitems : u.mapItemsM Item.boundLoops = pure u := by
    refine SourceUnit.mapItemsM_eq_pure fun item hitem => ?_
    have hin := h item hitem
    cases item with
    | decl d => rfl
    | func f =>
      rw [Item.boundLoops, Item.mapBodyM, Stmt.boundLoopsList_eq_pure hloops f.body.items hin.2]
      rfl
  rw [SourceUnit.boundLoops, hitems]
  change Except.ok (u, (⟨pool.next - pool.next, pool.next - pool.next, 0⟩ : Tally), pool) = _
  rw [Nat.sub_self]
  rfl

/-! ### Recursion and coefficient arrays -/

theorem insertCopies_nil (items : List Item) : insertCopies [] items = items := by
  induction items with
  | nil => rfl
  | cons item rest ih =>
    cases item with
    | decl d => rw [insertCopies, ih]
    | func f =>
      rw [insertCopies]
      exact congrArg _ ih

/-- A unit without short cycles of calls is left alone. -/
theorem SourceUnit.unrollRecursion_eq_self {u : SourceUnit} (h : (CallGraph.ofUnit u).cycles = []) :
    u.unrollRecursion = (u, .zero) := by
  have hitems (acc : Unrolling) : u.mapItemsM (acc.redirectItem []) = pure u := by
    refine SourceUnit.mapItemsM_eq_pure fun item _ => ?_
    cases item with
    | decl d => rfl
    | func f =>
      have hbody : f.body.bottomUpM (Counted.replace (Expr.redirectCall? [])) = pure f.body :=
        Block.replace_eq_pure fun e _ => by cases e <;> rfl
      change (f.body.bottomUpM (Counted.replace (Expr.redirectCall? [])) >>= _) = _
      rw [hbody, pure_bind]
  simp only [SourceUnit.unrollRecursion, h, List.map_nil, List.foldl_nil, hitems,
    Counted.value_pure, insertCopies_nil]
  rfl

theorem SourceUnit.specializeHelpers_eq_self (hcallee : ∀ name, F.callee name → name ∉ arrayHelpers)
    {u : SourceUnit} (h : u.IsIn F)
    (hnames : ∀ item ∈ u.items, ∀ name ∈ item.name?, name ∉ arrayHelpers) :
    u.specializeHelpers = .ok (u, .zero) := by
  have hitems : u.mapItemsM (Item.specializeHelpers u.globalArrays) = pure u := by
    refine SourceUnit.mapItemsM_eq_pure fun item hitem => ?_
    have hin := h item hitem
    cases item with
    | decl d => rfl
    | func f =>
      rw [Item.specializeHelpers]
      split
      · rfl
      · have hbody : f.body.bottomUpM (Expr.specialize (u.globalArrays ++ f.localArrays) f.name) =
            pure f.body := by
          refine Block.bottomUpM_eq_pure fun e he => ?_
          have hnode := hin.2.node he
          have hcall : e.helperCall? = none := by
            cases e with
            | call callee args c =>
              rw [Expr.helperCall?, if_neg (by simpa using hcallee callee hnode)]
            | _ => rfl
          rw [Expr.specialize, hcall]
        change (f.body.bottomUpM (Expr.specialize (u.globalArrays ++ f.localArrays) f.name) >>=
          _) = _
        rw [hbody, pure_bind]
  have hkept : u.items.filter (fun item => !item.name?.any arrayHelpers.contains) = u.items := by
    refine List.filter_eq_self.2 fun item hitem => ?_
    cases hname : item.name? with
    | none => rfl
    | some name => simpa using hnames item hitem name (by simp [hname])
  rw [SourceUnit.specializeHelpers, hitems]
  change Except.ok (_, _) = _
  simp only [hkept, Nat.sub_self, List.foldl_nil, List.filter_nil, List.map_nil, List.nil_append,
    List.length_nil]
  rfl

end MathKernel
