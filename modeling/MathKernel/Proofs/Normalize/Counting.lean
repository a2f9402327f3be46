import MathKernel.Proofs.Kernel.Extraction
import MathKernel.Proofs.Normalize.Idempotence
import MathKernel.Proofs.Syntax.Counting

/-!
# Passes that count nothing change nothing

Each pass counts its changes by hand: where it rewrites a node, by a difference of lengths, or in
a state that it threads through the unit. In all these ways a pass that reports no change gives
back the unit it was given. One pass has an exception: a static variable without a name is taken
out of its block, and as it has no name to be promoted under, it is neither moved nor counted.

## Main definitions

* `SourceUnit.StaticsNamed` — every static variable among the items of a block has a name

## Main results

* `SourceUnit.respell_retains`, …, `SourceUnit.specializeHelpers_retains` — pass by pass
-/

namespace MathKernel

/-! ### Tallies and bodies -/

namespace Tally

theorem isNoop_iff {t : Tally} : t.isNoop = true ↔ t = .zero := by
  obtain ⟨changed, inserted, removed⟩ := t
  simp [isNoop, zero, and_assoc]

theorem ofChanged_eq_zero {n : Nat} : ofChanged n = .zero ↔ n = 0 := by
  simp [ofChanged, zero]

theorem add_eq_zero {t t' : Tally} : t + t' = .zero ↔ t = .zero ∧ t' = .zero := by
  obtain ⟨changed, inserted, removed⟩ := t
  obtain ⟨changed', inserted', removed'⟩ := t'
  change Tally.mk (changed + changed') (inserted + inserted') (removed + removed') = _ ↔ _
  simp only [zero, mk.injEq]
  omega

theorem sum_eq_zero {tallies : List Tally} (h : sum tallies = .zero) :
    ∀ t ∈ tallies, t = .zero := by
  have hfold (start : Tally) (h : tallies.foldl (· + ·) start = .zero) :
      start = .zero ∧ ∀ t ∈ tallies, t = .zero := by
    clear * - h
    induction tallies generalizing start with
    | nil => exact ⟨h, nofun⟩
    | cons t rest ih =>
      obtain ⟨hsum, hrest⟩ := ih (start + t) h
      obtain ⟨hstart, ht⟩ := add_eq_zero.1 hsum
      exact ⟨hstart, List.forall_mem_cons.2 ⟨ht, hrest⟩⟩
  exact (hfold .zero h).2

end Tally

/-- A selection that is as long as the whole is the whole. -/
theorem eq_of_sublist_of_sub_eq_zero {α : Type} {kept items : List α} (h : kept.Sublist items)
    (hlength : items.length - kept.length = 0) : kept = items := by
  have := h.length_le
  exact h.eq_of_length (by omega)

theorem mapBodies_retains {f : Block → Block × Tally} (hf : ∀ b, (f b).2 = .zero → (f b).1 = b)
    {items : List Item} (h : (mapBodies f items).2 = .zero) : (mapBodies f items).1 = items := by
  induction items with
  | nil => rfl
  | cons item rest ih =>
    cases item with
    | decl d =>
      simp only [mapBodies] at h ⊢
      rw [ih h]
    | func g =>
      simp only [mapBodies, Tally.add_eq_zero] at h ⊢
      rw [ih h.2, hf g.body h.1]

/-- Rewriting the expressions of a body. -/
theorem Block.replace_retains (g : Expr → Option Expr) (b : Block) :
    Retains (b.bottomUpM (Counted.replace g)) b :=
  b.bottomUpM_retains (Counted.replace_retains g)

/-! ### Spelling -/

theorem ElementType.respell_retains (t : ElementType) : Retains t.respell t := by
  unfold ElementType.respell
  split
  · exact retains_pure t
  · exact nofun

mutual

theorem Decl.respellType_retains (d : Decl) : Retains d.respellType d := by
  obtain ⟨name, quals, storage, type, init, c⟩ := d
  exact retains_rebuild (Decl.mk name quals storage · init c) (Declarator.respell_retains type)

theorem Declarator.respell_retains (t : Declarator Decl) : Retains t.respell t := by
  cases t with
  | element t => exact retains_rebuild Declarator.element t.respell_retains
  | array item size c =>
    exact retains_rebuild (Declarator.array · size c) (Declarator.respell_retains item)
  | function params result c =>
    exact retains_bind (Declarator.function · result c) (Declarator.respellParams_retains params)
      fun params' => retains_rebuild (Declarator.function params' · c)
        (Declarator.respell_retains result)

theorem Declarator.respellParams_retains (params : List Decl) :
    Retains (Declarator.respellParams params) params := by
  cases params with
  | nil => exact retains_pure []
  | cons d rest =>
    exact retains_bind (· :: rest) (Decl.respellType_retains d) fun d' =>
      retains_rebuild (d' :: ·) (Declarator.respellParams_retains rest)

end

theorem Expr.respell_retains (e : Expr) : Retains e.respell e :=
  e.bottomUpM_retains (Counted.replace_retains Expr.respelled?)

theorem Decl.respell_retains (d : Decl) : Retains d.respell d :=
  retains_bind id d.respellType_retains fun d' => d'.mapExprsM_retains Expr.respell_retains

theorem ForInit.respell_retains (init : Option ForInit) : Retains (ForInit.respell init) init := by
  cases init with
  | none => exact retains_pure none
  | some init =>
    cases init with
    | decls ds =>
      exact retains_rebuild (fun ds => some (ForInit.decls ds))
        (retains_mapM fun d _ => d.respell_retains)
    | expr e =>
      exact retains_rebuild (fun e => some (ForInit.expr e)) e.respell_retains

namespace Stmt

mutual

theorem respell_retains (s : Stmt) : Retains s.respell s := by
  cases s with
  | decl d c => exact retains_rebuild (decl · c) d.respell_retains
  | block items b c => exact retains_rebuild (block · b c) (respellList_retains items)
  | expr e c => exact retains_rebuild (expr · c) e.respell_retains
  | ifThen p t c =>
    exact retains_bind (ifThen · t c) p.respell_retains fun p' =>
      retains_rebuild (ifThen p' · c) (respell_retains t)
  | ifElse p t e c =>
    exact retains_bind (ifElse · t e c) p.respell_retains fun p' =>
      retains_bind (ifElse p' · e c) (respell_retains t) fun t' =>
      retains_rebuild (ifElse p' t' · c) (respell_retains e)
  | forLoop init cond next body c =>
    have hoption := mapOptionM_retains Expr.respell_retains
    exact retains_bind (forLoop · cond next body c) (ForInit.respell_retains init) fun init' =>
      retains_bind (forLoop init' · next body c) (hoption cond) fun cond' =>
      retains_bind (forLoop init' cond' · body c) (hoption next) fun next' =>
      retains_rebuild (forLoop init' cond' next' · c) (respell_retains body)
  | whileLoop p body c =>
    exact retains_bind (whileLoop · body c) p.respell_retains fun p' =>
      retains_rebuild (whileLoop p' · c) (respell_retains body)
  | doWhile p body c =>
    exact retains_bind (doWhile · body c) p.respell_retains fun p' =>
      retains_rebuild (doWhile p' · c) (respell_retains body)
  | ret value c => exact retains_rebuild (ret · c) (mapOptionM_retains Expr.respell_retains value)
  | label n s c => exact retains_rebuild (label n · c) (respell_retains s)
  | brk | cont | goto | empty => exact retains_pure _

theorem respellList_retains (items : List Stmt) : Retains (respellList items) items := by
  cases items with
  | nil => exact retains_pure []
  | cons s rest =>
    exact retains_bind (· :: rest) (respell_retains s) fun s' =>
      retains_rebuild (s' :: ·) (respellList_retains rest)

end

end Stmt

theorem Item.respell_retains (item : Item) : Retains item.respell item := by
  cases item with
  | decl d => exact retains_rebuild Item.decl d.respell_retains
  | func f =>
    obtain ⟨⟨name, quals, storage, type, init, c⟩, body, c'⟩ := f
    exact retains_bind (fun items => Item.func ⟨⟨name, quals, storage, type, init, c⟩,
        { body with items }, c'⟩) (Stmt.respellList_retains body.items) fun items =>
      retains_rebuild (fun type => Item.func ⟨⟨name, quals, storage, type, init, c⟩,
        { body with items }, c'⟩) type.respell_retains

namespace SourceUnit

variable {u : SourceUnit}

theorem respell_retains (h : u.respell.2 = .zero) : u.respell.1 = u :=
  u.mapItemsM_retains Item.respell_retains (Tally.ofChanged_eq_zero.1 h)

/-! ### Calls, casts and idioms -/

theorem castsToCalls_retains (h : u.castsToCalls.2 = .zero) : u.castsToCalls.1 = u := by
  have hexpr := Expr.bottomUpM_retains (Counted.replace_retains Expr.castCall?)
  exact u.mapItemsM_retains (Item.mapExprsM_retains hexpr) (Tally.ofChanged_eq_zero.1 h)

theorem foldIdiom_retains {operand? : Expr → Option Expr} {callee : String}
    (h : (u.foldIdiom operand? callee).2 = .zero) : (u.foldIdiom operand? callee).1 = u := by
  have hitems := mapBodies_retains
    (fun b hb => Block.replace_retains (Expr.foldIdiom? operand? callee) b
      (Tally.ofChanged_eq_zero.1 hb)) h
  exact congrArg (fun items => { u with items }) hitems

end SourceUnit

/-- Reports are counted by how many items are left. -/
theorem Block.dropErrorReports_retains (b : Block) : Retains b.dropErrorReports b := by
  intro hcount
  have hkept := eq_of_sublist_of_sub_eq_zero List.filter_sublist hcount
  simp only [dropErrorReports, hkept]

theorem Block.removeErrorCalls_retains (b : Block) (h : b.removeErrorCalls.2 = .zero) :
    b.removeErrorCalls.1 = b := by
  simp only [removeErrorCalls, Tally.zero, Tally.mk.injEq, true_and] at h
  obtain ⟨hreplaced, hdropped⟩ := h
  have hdrop := b.mapBlocksM_retains Block.dropErrorReports_retains hdropped
  exact (Block.replace_retains Expr.errorCode? _ hreplaced).trans hdrop

theorem SourceUnit.removeErrorCalls_retains {u : SourceUnit} (h : u.removeErrorCalls.2 = .zero) :
    u.removeErrorCalls.1 = u := by
  obtain ⟨hbodies, hremoved⟩ := Tally.add_eq_zero.1 h
  have hkept := eq_of_sublist_of_sub_eq_zero List.filter_sublist (Tally.mk.inj hremoved).2.2
  have hitems := (mapBodies_retains Block.removeErrorCalls_retains hbodies).trans hkept
  exact congrArg (fun items => { u with items }) hitems

theorem Item.toGenericMath_retains {item : Item} (h : item.toGenericMath.2 = .zero) :
    item.toGenericMath.1 = item := by
  unfold Item.toGenericMath at h ⊢
  split
  · rfl
  · next generic hgeneric =>
    -- A definition counts as removed, a renamed prototype as changed.
    rw [hgeneric] at h
    cases item with
    | decl d =>
      simp only at h ⊢
      split_ifs with hrename
      · simp [hrename, Tally.zero] at h
      · rfl
    | func f =>
      simp only at h
      split_ifs at h <;> simp [Tally.zero] at h

theorem SourceUnit.genericMathNames_retains {u : SourceUnit} (h : u.genericMathNames.2 = .zero) :
    u.genericMathNames.1 = u := by
  -- Items are renamed, repeated prototypes dropped and calls renamed; none of it was counted.
  obtain ⟨hfirst, hcalls⟩ := Tally.add_eq_zero.1 h
  obtain ⟨hrenamed, hremoved⟩ := Tally.add_eq_zero.1 hfirst
  have hitems : (u.items.map Item.toGenericMath).map Prod.fst = u.items := by
    rw [List.map_map]
    have hretained : ∀ item ∈ u.items, item.toGenericMath.1 = item := fun item hitem =>
      Item.toGenericMath_retains (Tally.sum_eq_zero hrenamed _
        (List.mem_map_of_mem (List.mem_map_of_mem hitem)))
    exact (List.map_congr_left hretained).trans (List.map_id _)
  have hkept := eq_of_sublist_of_sub_eq_zero (keepFirstPrototypes_sublist _ _)
    (Tally.mk.inj hremoved).2.2
  have hbodies := mapBodies_retains (fun b hb => Block.replace_retains Expr.toGenericCall? b
    (Tally.ofChanged_eq_zero.1 hb)) hcalls
  exact congrArg (fun items => { u with items }) ((hbodies.trans hkept).trans hitems)

/-! ### Jumps -/

namespace Stmt

mutual

/-- Without labels there are none to drop. -/
theorem dropLabels_eq_self (s : Stmt) (h : ∀ x ∈ s.substmts, x.isLabelled = false) :
    s.dropLabels = s := by
  cases s with
  | block items b c =>
    rw [dropLabels, dropLabelsList_eq_self items fun x hx => h x (List.mem_cons_of_mem _ hx)]
  | ifThen p t c =>
    rw [dropLabels, dropLabels_eq_self t fun x hx => h x (List.mem_cons_of_mem _ hx)]
  | ifElse p t e c =>
    have hparts := fun x hx => h x (List.mem_cons_of_mem _ hx)
    rw [dropLabels, dropLabels_eq_self t fun x hx => hparts x (List.mem_append_left _ hx),
      dropLabels_eq_self e fun x hx => hparts x (List.mem_append_right _ hx)]
  | forLoop init cond next body c =>
    rw [dropLabels, dropLabels_eq_self body fun x hx => h x (List.mem_cons_of_mem _ hx)]
  | whileLoop p body c | doWhile p body c =>
    rw [dropLabels, dropLabels_eq_self body fun x hx => h x (List.mem_cons_of_mem _ hx)]
  | label n s c => cases h _ List.mem_cons_self
  | decl | expr | ret | brk | cont | goto | empty => rfl

theorem dropLabelsList_eq_self (items : List Stmt)
    (h : ∀ x ∈ substmtsList items, x.isLabelled = false) : dropLabelsList items = items := by
  cases items with
  | nil => rfl
  | cons s rest =>
    rw [dropLabelsList, dropLabels_eq_self s fun x hx => h x (List.mem_append_left _ hx),
      dropLabelsList_eq_self rest fun x hx => h x (List.mem_append_right _ hx)]

end

section Gotos

variable {m : Type → Type} [Monad m] [CountingMonad m] {f : String → Coord → m Stmt}

mutual

theorem mapGotosM_retains (hf : ∀ l c, Retains (f l c) (goto l c)) (s : Stmt) :
    Retains (s.mapGotosM f) s := by
  cases s with
  | block items b c => exact retains_rebuild (block · b c) (mapGotosListM_retains hf items)
  | ifThen p t c => exact retains_rebuild (ifThen p · c) (mapGotosM_retains hf t)
  | ifElse p t e c =>
    exact retains_bind (ifElse p · e c) (mapGotosM_retains hf t) fun t' =>
      retains_rebuild (ifElse p t' · c) (mapGotosM_retains hf e)
  | forLoop init cond next body c =>
    exact retains_rebuild (forLoop init cond next · c) (mapGotosM_retains hf body)
  | whileLoop p body c => exact retains_rebuild (whileLoop p · c) (mapGotosM_retains hf body)
  | doWhile p body c => exact retains_rebuild (doWhile p · c) (mapGotosM_retains hf body)
  | label n s c => exact retains_rebuild (label n · c) (mapGotosM_retains hf s)
  | goto l c => exact hf l c
  | decl | expr | ret | brk | cont | empty => exact retains_pure _

theorem mapGotosListM_retains (hf : ∀ l c, Retains (f l c) (goto l c)) (items : List Stmt) :
    Retains (mapGotosListM f items) items := by
  cases items with
  | nil => exact retains_pure []
  | cons s rest =>
    exact retains_bind (· :: rest) (mapGotosM_retains hf s) fun s' =>
      retains_rebuild (s' :: ·) (mapGotosListM_retains hf rest)

end

end Gotos

end Stmt

/-- Replaced jumps are counted in the state. -/
instance : CountingMonad Expansion := .measured id

/-- Every replaced jump is counted. The induction is on the steps left. -/
theorem expandGoto_retains (captures : List (String × List Stmt)) (function : String) (fuel : Nat)
    (active : List String) (label : String) (c : Coord) :
    Retains (expandGoto captures function fuel active label c) (.goto label c) := by
  induction fuel generalizing active label c with
  | zero =>
    intro s b s' h
    cases h
  | succ fuel ih =>
    unfold expandGoto
    -- A cycle of jumps or a label that is missing is an error; any other jump counts.
    split
    · intro s b s' h
      cases h
    · split
      · intro s b s' h
        cases h
      · next items _ =>
        refine retains_bind (fun _ => Stmt.goto label c)
          (Stmt.mapGotosListM_retains (ih (label :: active)) items) fun items' => ?_
        intro s b s' h
        cases h
        exact ⟨Nat.le_succ s, fun hstill => absurd hstill (Nat.succ_ne_self s)⟩

theorem Block.cutAfterReturn_retains (b : Block) : Retains b.cutAfterReturn b := by
  intro hcount
  have hkept := eq_of_sublist_of_sub_eq_zero (List.take_sublist _ _) hcount
  simp only [cutAfterReturn, hkept]

theorem Block.isLabelled_eq_false {b : Block} (h : b.labelCount = 0) :
    ∀ s ∈ b.stmts, s.isLabelled = false := by
  have hnone := List.length_eq_zero_iff.1 h
  exact fun s hs => by simpa using List.filter_eq_nil_iff.1 hnone s hs

theorem FuncDef.eliminateJumps_retains {f g : FuncDef} (h : f.eliminateJumps = .ok (g, .zero)) :
    g = f := by
  unfold FuncDef.eliminateJumps at h
  split at h
  · obtain ⟨⟨items, replaced⟩, hrun, h⟩ := Except.bind_eq_ok h
    obtain ⟨hbody, htally⟩ := Prod.mk.inj (Except.ok.inj h)
    obtain ⟨hreplaced, -, hremoved⟩ := Tally.mk.inj htally
    obtain ⟨hlabels, hcut⟩ := Nat.add_eq_zero_iff.1 hremoved
    -- No label was dropped, no jump replaced and nothing cut off.
    have hunlabelled := Stmt.dropLabelsList_eq_self f.body.items
      (Block.isLabelled_eq_false hlabels)
    have hexpand := Stmt.mapGotosListM_retains
      (expandGoto_retains f.body.captures f.name (f.body.captures.length + 1) [])
      (Stmt.dropLabelsList f.body.items)
    have hexpanded := (hexpand 0 items replaced hrun).2 hreplaced
    have hwhole := Block.mapBlocksM_retains Block.cutAfterReturn_retains _ hcut
    rw [← hbody, hwhole, hexpanded, hunlabelled]
  · exact (Prod.mk.inj (Except.ok.inj h)).1.symm

theorem eliminateJumpsInItems_retains {items items' : List Item}
    (h : eliminateJumpsInItems items = .ok (items', .zero)) : items' = items := by
  induction items generalizing items' with
  | nil => exact (Prod.mk.inj (Except.ok.inj h)).1.symm
  | cons item rest ih =>
    cases item with
    | decl d =>
      obtain ⟨⟨rest', tally⟩, hrest, h⟩ := Except.bind_eq_ok h
      obtain ⟨rfl, rfl⟩ := Prod.mk.inj (Except.ok.inj h)
      rw [ih hrest]
    | func f =>
      obtain ⟨⟨f', here⟩, hf, h⟩ := Except.bind_eq_ok h
      obtain ⟨⟨rest', tally⟩, hrest, h⟩ := Except.bind_eq_ok h
      obtain ⟨rfl, hsum⟩ := Prod.mk.inj (Except.ok.inj h)
      obtain ⟨rfl, rfl⟩ := Tally.add_eq_zero.1 hsum
      rw [FuncDef.eliminateJumps_retains hf, ih hrest]

theorem SourceUnit.eliminateJumps_retains {u v : SourceUnit}
    (h : u.eliminateJumps = .ok (v, .zero)) : v = u := by
  obtain ⟨⟨items, tally⟩, hitems, h⟩ := Except.bind_eq_ok h
  obtain ⟨rfl, rfl⟩ := Prod.mk.inj (Except.ok.inj h)
  rw [eliminateJumpsInItems_retains hitems]

/-! ### Loops -/

/-- Bounded loops are counted by the names they take. -/
instance : CountingMonad Stmt.Naming := .measured NamePool.next

namespace Stmt

theorem takeName_run (pool : NamePool) : takeName.run pool = pool.fresh := by
  unfold takeName
  cases hfresh : pool.fresh <;> simp [liftM, monadLift, MonadLift.monadLift, hfresh]

/-- A taken name counts, whatever follows that does not give names back. -/
theorem takeName_bind_retains {α : Type} {f : String → Naming α} (a : α)
    (hf : ∀ name, ∃ b, Retains (f name) b) : Retains (takeName >>= f) a := by
  intro pool b pool' h
  rw [StateT.run_bind, takeName_run] at h
  obtain ⟨⟨name, next⟩, hname, h⟩ := Except.bind_eq_ok h
  obtain ⟨b', hb'⟩ := hf name
  have hnext : next.next = pool.next + 1 := by
    unfold NamePool.fresh at hname
    split_ifs at hname
    cases hname
    rfl
  have hle := (hb' next b pool' h).1
  exact ⟨by omega, fun hstill => absurd hstill (by omega)⟩

mutual

theorem boundLoops_retains (s : Stmt) : Retains s.boundLoops s := by
  cases s with
  | block items b c => exact retains_rebuild (block · b c) (boundLoopsList_retains items)
  | ifThen p t c => exact retains_rebuild (ifThen p · c) (boundLoops_retains t)
  | ifElse p t e c =>
    exact retains_bind (ifElse p · e c) (boundLoops_retains t) fun t' =>
      retains_rebuild (ifElse p t' · c) (boundLoops_retains e)
  | forLoop init cond next body c =>
    exact retains_rebuild (forLoop init cond next · c) (boundLoops_retains body)
  -- The name of the counter counts, whatever the loop is replaced by.
  | whileLoop p body c =>
    exact takeName_bind_retains _ fun counter => ⟨_, retains_rebuild
      (fun body' => countedLoop counter (exitUnless p :: body'.bodyItems) c)
      (boundLoops_retains body)⟩
  | doWhile p body c =>
    exact takeName_bind_retains _ fun counter => ⟨_, retains_rebuild
      (fun body' => countedLoop counter (body'.bodyItems ++ [exitUnless p]) c)
      (boundLoops_retains body)⟩
  | label n s c => exact retains_rebuild (label n · c) (boundLoops_retains s)
  | decl | expr | ret | brk | cont | goto | empty => exact retains_pure _

theorem boundLoopsList_retains (items : List Stmt) : Retains (boundLoopsList items) items := by
  cases items with
  | nil => exact retains_pure []
  | cons s rest =>
    exact retains_bind (· :: rest) (boundLoops_retains s) fun s' =>
      retains_rebuild (s' :: ·) (boundLoopsList_retains rest)

end

end Stmt

theorem SourceUnit.boundLoops_retains {u v : SourceUnit} {pool pool' : NamePool}
    (h : u.boundLoops pool = .ok (v, .zero, pool')) : v = u := by
  have hbody (b : Block) : Retains (do
      let items ← Stmt.boundLoopsList b.items
      pure { b with items } : Stmt.Naming Block) b :=
    retains_rebuild (fun items => { b with items }) (Stmt.boundLoopsList_retains b.items)
  obtain ⟨⟨v', last⟩, hrun, h⟩ := Except.bind_eq_ok h
  obtain ⟨rfl, hrest⟩ := Prod.mk.inj (Except.ok.inj h)
  obtain ⟨htally, rfl⟩ := Prod.mk.inj hrest
  -- The count is by how much the next number went up, and it never goes down.
  have hloops : last.next - pool.next = 0 := (Tally.mk.inj htally).1
  obtain ⟨hle, hstill⟩ := u.mapItemsM_retains (Item.mapBodyM_retains hbody) pool v' last hrun
  exact hstill (by omega)

/-! ### Coefficient arrays -/

/-- Specialized calls are counted by the variants they choose. -/
instance : CountingMonad Choosing := .measured List.length

theorem Expr.specialize_retains (lengths : ArrayLengths) (function : String) (e : Expr) :
    Retains (e.specialize lengths function) e := by
  unfold Expr.specialize
  split
  · exact retains_pure e
  · split
    · intro s b s' h
      cases h
    · intro s b s' h
      cases h
      simp

theorem Item.specializeHelpers_retains (globals : ArrayLengths) (item : Item) :
    Retains (item.specializeHelpers globals) item := by
  cases item with
  | decl d => exact retains_pure _
  | func f =>
    simp only [Item.specializeHelpers]
    split
    · exact retains_pure _
    · exact retains_rebuild (fun body => Item.func { f with body })
        (f.body.bottomUpM_retains (Expr.specialize_retains _ f.name))

theorem SourceUnit.specializeHelpers_retains {u v : SourceUnit}
    (h : u.specializeHelpers = .ok (v, .zero)) : v = u := by
  obtain ⟨⟨changed, chosen⟩, hrun, h⟩ := Except.bind_eq_ok h
  obtain ⟨hv, htally⟩ := Prod.mk.inj (Except.ok.inj h)
  obtain ⟨hchosen, -, hremoved⟩ := Tally.mk.inj htally
  have hchanged : changed = u :=
    (u.mapItemsM_retains (Item.specializeHelpers_retains u.globalArrays) [] changed chosen
      hrun).2 hchosen
  -- No variant was chosen, so none is defined, and no helper is dropped.
  obtain rfl := List.length_eq_zero_iff.1 hchosen
  subst hchanged
  have hkept := eq_of_sublist_of_sub_eq_zero List.filter_sublist hremoved
  rw [← hv]
  exact congrArg (fun items => { changed with items }) hkept

/-! ### Recursion -/

theorem SourceUnit.unrollRecursion_retains {u : SourceUnit} (h : u.unrollRecursion.2 = .zero) :
    u.unrollRecursion.1 = u := by
  have hcycles := SourceUnit.cycles_eq_nil_of_inserted (congrArg Tally.inserted h)
  rw [SourceUnit.unrollRecursion_eq_self hcycles]

/-! ### Static variables -/

namespace Stmt

mutual

theorem subset_takeStatics (s : Stmt) (found : List Decl) :
    found ⊆ ((s.mapBlocksM Block.takeStatics).run found).2 := by
  cases s with
  | block items b c =>
    exact List.Subset.trans (subset_takeStaticsList items found) (List.subset_append_left _ _)
  | ifThen p t c => exact subset_takeStatics t found
  | ifElse p t e c =>
    exact List.Subset.trans (subset_takeStatics t found) (subset_takeStatics e _)
  | forLoop init cond next body c => exact subset_takeStatics body found
  | whileLoop p body c | doWhile p body c => exact subset_takeStatics body found
  | label n s c => exact subset_takeStatics s found
  | decl | expr | ret | brk | cont | goto | empty => exact fun _ h => h

theorem subset_takeStaticsList (items : List Stmt) (found : List Decl) :
    found ⊆ ((mapBlocksListM Block.takeStatics items).run found).2 := by
  cases items with
  | nil => exact fun _ h => h
  | cons s rest =>
    exact List.Subset.trans (subset_takeStatics s found) (subset_takeStaticsList rest _)

end

/-- The declarations among items are there while inner blocks are searched. -/
theorem filterMap_staticVariable?_takeStatics (items : List Stmt) (found : List Decl) :
    ((mapBlocksListM Block.takeStatics items).run found).1.filterMap staticVariable? =
      items.filterMap staticVariable? := by
  induction items generalizing found with
  | nil => rfl
  | cons s rest ih =>
    have hs : ((s.mapBlocksM Block.takeStatics).run found).1.staticVariable? =
        s.staticVariable? := by
      cases s <;> rfl
    change (((s.mapBlocksM Block.takeStatics).run found).1 :: ((mapBlocksListM Block.takeStatics
      rest).run ((s.mapBlocksM Block.takeStatics).run found).2).1).filterMap staticVariable? = _
    rw [List.filterMap_cons, List.filterMap_cons, hs, ih]

mutual

/-- A static variable among the items of an inner block is found. -/
theorem mem_takeStatics (s : Stmt) (found : List Decl) {items : List Stmt} {b c : Coord}
    (hblock : block items b c ∈ s.substmts) {d : Decl}
    (hd : d ∈ items.filterMap staticVariable?) :
    d ∈ ((s.mapBlocksM Block.takeStatics).run found).2 := by
  cases s with
  | block items' b' c' =>
    -- The items of a block are searched after the blocks inside of it.
    rcases List.mem_cons.1 hblock with heq | hblock
    · cases heq
      rw [← filterMap_staticVariable?_takeStatics items found] at hd
      exact List.mem_append_right _ hd
    · exact List.mem_append_left _ (mem_takeStaticsList items' found hblock hd)
  | ifThen p t c' =>
    exact mem_takeStatics t found ((List.mem_cons.1 hblock).resolve_left nofun) hd
  | ifElse p t e c' =>
    rcases List.mem_append.1 ((List.mem_cons.1 hblock).resolve_left nofun) with hblock | hblock
    · exact subset_takeStatics e _ (mem_takeStatics t found hblock hd)
    · exact mem_takeStatics e _ hblock hd
  | forLoop init cond next body c' =>
    exact mem_takeStatics body found ((List.mem_cons.1 hblock).resolve_left nofun) hd
  | whileLoop p body c' | doWhile p body c' =>
    exact mem_takeStatics body found ((List.mem_cons.1 hblock).resolve_left nofun) hd
  | label n s c' =>
    exact mem_takeStatics s found ((List.mem_cons.1 hblock).resolve_left nofun) hd
  | decl | expr | ret | brk | cont | goto | empty =>
    exact absurd (List.mem_singleton.1 hblock) nofun

theorem mem_takeStaticsList (items' : List Stmt) (found : List Decl) {items : List Stmt}
    {b c : Coord} (hblock : block items b c ∈ substmtsList items') {d : Decl}
    (hd : d ∈ items.filterMap staticVariable?) :
    d ∈ ((mapBlocksListM Block.takeStatics items').run found).2 := by
  cases items' with
  | nil => cases hblock
  | cons s rest =>
    rcases List.mem_append.1 hblock with hblock | hblock
    · exact subset_takeStaticsList rest _ (mem_takeStatics s found hblock hd)
    · exact mem_takeStaticsList rest _ hblock hd

end

end Stmt

/-- Every static variable among the items of a body's blocks is found. -/
theorem Block.mem_takeStatics {b : Block} {d : Decl} (hd : d ∈ b.itemDecls)
    (hstatic : d.isStaticVariable = true) : d ∈ ((b.mapBlocksM Block.takeStatics).run []).2 := by
  obtain ⟨x, hx, hd⟩ := List.mem_flatMap.1 hd
  obtain ⟨s, hs, hd⟩ := List.mem_filterMap.1 hd
  have hfound : d ∈ x.items.filterMap Stmt.staticVariable? := by
    refine List.mem_filterMap.2 ⟨s, hs, ?_⟩
    cases s with
    | decl d' c =>
      cases hd
      exact if_pos hstatic
    | _ => cases hd
  rcases List.mem_cons.1 hx with rfl | hx
  · rw [← Stmt.filterMap_staticVariable?_takeStatics x.items []] at hfound
    exact List.mem_append_right _ hfound
  · obtain ⟨inner, hinner, hx⟩ := List.mem_filterMap.1 hx
    cases inner with
    | block items c c' =>
      cases hx
      exact List.mem_append_left _ (Stmt.mem_takeStaticsList b.items [] hinner hfound)
    | _ => cases hx

/-- A static variable with a name is moved, and counted. -/
theorem hoistStatics_eq_zero {unit function : String} {p : Promotion} {ds : List Decl}
    (h : (hoistStatics unit function p ds).2.2 = .zero) : ∀ d ∈ ds, d.name = none := by
  induction ds generalizing p with
  | nil => exact nofun
  | cons d rest ih =>
    unfold hoistStatics at h
    split at h
    · next hname => exact List.forall_mem_cons.2 ⟨hname, ih h⟩
    · exact absurd (congrArg Tally.inserted (Tally.add_eq_zero.1 h).1) (by simp [Tally.zero])

/-- Every static variable among the items of a block has a name. -/
def SourceUnit.StaticsNamed (u : SourceUnit) : Prop :=
  ∀ f ∈ u.funcs, ∀ d ∈ f.body.itemDecls, d.isStaticVariable = true → d.name ≠ none

instance (u : SourceUnit) : Decidable u.StaticsNamed :=
  inferInstanceAs (Decidable (∀ f ∈ u.funcs, ∀ d ∈ f.body.itemDecls,
    d.isStaticVariable = true → d.name ≠ none))

theorem Item.isPromoted_of_count {item : Item} {unit : String} {p : Promotion}
    (h : (item.promoteGlobal unit p).2.2 = 0) : item.IsPromoted := by
  intro unit' p'
  unfold Item.promoteGlobal at h ⊢
  cases item with
  | decl d =>
    simp only at h ⊢
    split_ifs with hvariable hstatic
    · cases hname : d.name with
      | none => rfl
      | some old => simp [hvariable, hname] at h
    · simp [hvariable, hstatic] at h
    · rfl
  | func f =>
    simp only at h ⊢
    split_ifs with hstatic
    · simp [hstatic] at h
    · rfl

theorem isPromoted_of_promoteGlobals {unit : String} {p : Promotion} {items : List Item}
    (h : (promoteGlobals unit p items).2.2 = 0) : ∀ item ∈ items, item.IsPromoted := by
  induction items generalizing p with
  | nil => exact nofun
  | cons item rest ih =>
    obtain ⟨hitem, hrest⟩ := Nat.add_eq_zero_iff.1 h
    exact List.forall_mem_cons.2 ⟨Item.isPromoted_of_count hitem, ih hrest⟩

theorem FuncDef.isStaticVariable_eq_false {f : FuncDef} {unit : String} {p p' : Promotion}
    {items : List Item} (h : f.promoteStatics unit p = .ok (items, p', .zero))
    (hnamed : ∀ d ∈ f.body.itemDecls, d.isStaticVariable = true → d.name ≠ none) :
    ∀ d ∈ f.body.itemDecls, d.isStaticVariable = false := by
  -- As nothing was counted, all that was taken out has no name.
  have hresult := FuncDef.promoteStatics_eq_ok h
  have htally := (Prod.mk.inj (Prod.mk.inj hresult).2).2
  have hnameless := hoistStatics_eq_zero (Tally.add_eq_zero.1 htally.symm).1
  intro d hd
  by_contra hstatic
  rw [Bool.not_eq_false] at hstatic
  exact hnamed d hd hstatic (hnameless d (Block.mem_takeStatics hd hstatic))

/-- As long as nothing is counted, the names of promoted variables stay none. -/
theorem promoteInItems_isStaticVariable {unit : String} {taken : List String}
    {items items' : List Item}
    (h : promoteInItems unit ⟨taken, [], []⟩ items = .ok (items', .zero))
    (hnamed : ∀ f, .func f ∈ items → ∀ d ∈ f.body.itemDecls, d.isStaticVariable = true →
      d.name ≠ none) :
    ∀ f, .func f ∈ items → ∀ d ∈ f.body.itemDecls, d.isStaticVariable = false := by
  induction items generalizing items' with
  | nil => exact nofun
  | cons item rest ih =>
    have hrestNamed := fun f hf => hnamed f (List.mem_cons_of_mem _ hf)
    cases item with
    | decl d =>
      obtain ⟨⟨rest', tally⟩, hrest, h⟩ := Except.bind_eq_ok h
      obtain ⟨-, hsum⟩ := Prod.mk.inj (Except.ok.inj h)
      obtain ⟨-, rfl⟩ := Tally.add_eq_zero.1 hsum
      intro f hf
      exact ih hrest hrestNamed f ((List.mem_cons.1 hf).resolve_left nofun)
    | func g =>
      obtain ⟨⟨hoisted, p, here⟩, hg, h⟩ := Except.bind_eq_ok h
      obtain ⟨⟨rest', tally⟩, hrest, h⟩ := Except.bind_eq_ok h
      obtain ⟨-, hsum⟩ := Prod.mk.inj (Except.ok.inj h)
      obtain ⟨rfl, rfl⟩ := Tally.add_eq_zero.1 hsum
      have hnone := FuncDef.isStaticVariable_eq_false hg (hnamed g List.mem_cons_self)
      -- Nothing was found, so the rest is searched with the state that this function was.
      rw [FuncDef.promoteStatics_eq_self hnone] at hg
      cases hg
      intro f hf
      rcases List.mem_cons.1 hf with heq | hf
      · cases heq
        exact hnone
      · exact ih hrest hrestNamed f hf

theorem SourceUnit.promoteStatics_retains {u v : SourceUnit} {unit : String}
    (hnamed : u.StaticsNamed) (h : u.promoteStatics unit = .ok (v, .zero)) : v = u := by
  have h' := h
  unfold SourceUnit.promoteStatics at h
  obtain ⟨⟨items, tally⟩, hitems, h⟩ := Except.bind_eq_ok h
  obtain ⟨-, hsum⟩ := Prod.mk.inj (Except.ok.inj h)
  obtain ⟨hcount, rfl⟩ := Tally.add_eq_zero.1 hsum
  have hpromoted := isPromoted_of_promoteGlobals (Tally.ofChanged_eq_zero.1 hcount)
  have hglobals := promoteGlobals_eq_self hpromoted unit ⟨u.itemNames, [], []⟩
  rw [hglobals] at hitems
  have hnone := promoteInItems_isStaticVariable hitems fun f hf =>
    hnamed f (SourceUnit.mem_funcs.2 hf)
  rw [SourceUnit.promoteStatics_eq_self hpromoted hnone] at h'
  cases h'
  rfl

end MathKernel
