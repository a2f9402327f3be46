import MathKernel.Proofs.Kernel.Extraction
import MathKernel.Proofs.Normalize.Heads
import MathKernel.Proofs.Normalize.UnrolledCalls

/-!
# File-level variables after a pass

Most passes leave the variables of a file as they are, in their order. Two change the expressions
in all of them, two drop those with the names of routines, and one converts their initializers.
Where functions are defined by declarators of functions, no pass makes a variable of one.

## Main definitions

* `SourceUnit.DefinesFunctions` — functions are defined by declarators of functions

## Main results

* `SourceUnit.globals_respell`, `SourceUnit.globals_castsToCalls`, `SourceUnit.globals_coerced` —
  passes that change the variables one by one
* `SourceUnit.globals_removeErrorCalls`, `SourceUnit.globals_specializeHelpers` — passes that drop
  some of them
* `SourceUnit.globals_foldIdiom`, …, `SourceUnit.globals_unrollRecursion` — passes that keep them
* `Pass.apply_definesFunctions` — definitions stay what they are
-/

namespace MathKernel

/-! ### Items -/

theorem Item.global?_decl {d d' : Decl} {f : Decl → Decl} (hfunction : d'.isFunction = d.isFunction)
    (h : d' = f d) : (decl d').global? = (decl d).global?.map f := by
  rw [global?, global?, hfunction]
  split
  · rfl
  · rw [h, Option.map_some]

theorem filterMap_global?_mapBodies (f : Block → Block × Tally) (items : List Item) :
    (mapBodies f items).1.filterMap Item.global? = items.filterMap Item.global? := by
  induction items with
  | nil => rfl
  | cons item rest ih =>
    cases item with
    | decl d => rw [mapBodies, List.filterMap_cons, List.filterMap_cons, ih]
    | func g => exact ih

/-- Items are dropped for the names that they declare. -/
theorem filterMap_global?_filter (keep : Option String → Bool) (items : List Item) :
    (items.filter fun item => keep item.name?).filterMap Item.global? =
      (items.filterMap Item.global?).filter fun d => keep d.name := by
  rw [List.filter_filterMap, List.filterMap_filter]
  refine List.filterMap_congr fun item _ => ?_
  cases item with
  | decl d =>
    simp only [Item.global?, Item.name?]
    cases d.isFunction with
    | true => simp
    | false => simp [Option.filter]
  | func f => simp [Item.global?]

namespace SourceUnit

variable (u : SourceUnit)

/-- Items that are mapped one by one. -/
theorem globals_mapItemsM {m : Type → Type} [Monad m] [LawfulMonad m] [EnsuresMonad m]
    {f : Item → m Item} {g : Decl → Decl}
    (hf : ∀ item, Ensures (f item) fun item' => item'.global? = item.global?.map g) :
    Ensures (u.mapItemsM f) fun u' => u'.globals = u.globals.map g := by
  have hitems := ensures_mapM u.items fun item _ => hf item
  refine ensures_bind hitems fun items hall => ensures_pure ?_
  rw [globals, globals, List.map_filterMap]
  change items.filterMap Item.global? = _
  generalize u.items = before at hall
  induction hall with
  | nil => rfl
  | cons hitem _ ih => rw [List.filterMap_cons, List.filterMap_cons, hitem, ih]

/-! ### Passes that change each variable -/

theorem globals_respell : u.respell.1.globals = u.globals.map fun d => d.respell.value := by
  refine u.globals_mapItemsM (m := Counted) fun item => ?_
  cases item with
  | decl d =>
    have hhead := d.head_respell false
    exact Item.global?_decl (congrArg ItemHead.isFunction hhead) rfl
  | func f => rfl

theorem globals_castsToCalls : u.castsToCalls.1.globals =
    u.globals.map fun d =>
      (d.mapExprsM (Expr.bottomUpM (Counted.replace Expr.castCall?))).value := by
  refine u.globals_mapItemsM (m := Counted) fun item => ?_
  cases item with
  | decl d =>
    have hhead := d.head_mapExprsM false (Expr.bottomUpM (Counted.replace Expr.castCall?))
    exact Item.global?_decl (congrArg ItemHead.isFunction hhead) rfl
  | func f => rfl

theorem globals_coerced :
    u.coerced.1.globals = u.globals.map fun d => (d.coerced (TypeEnv.ofUnit u)).value := by
  refine u.globals_mapItemsM (m := Counted) fun item => ?_
  cases item with
  | decl d =>
    change (Item.coerced (TypeEnv.ofUnit u) (.decl d)).value.global? = _
    rw [Item.coerced]
    split
    · next hfunction => simp [Item.global?, hfunction]
    · exact Item.global?_decl rfl rfl
  | func f => rfl

/-! ### Passes that drop variables -/

theorem globals_removeErrorCalls :
    u.removeErrorCalls.1.globals = u.globals.filter fun d => d.name != some errorRoutine := by
  rw [globals, globals, ← filterMap_global?_filter fun name => name != some errorRoutine]
  exact filterMap_global?_mapBodies _ _

theorem globals_specializeHelpers :
    Ensures u.specializeHelpers fun result =>
      result.1.globals = u.globals.filter fun d => !d.name.any arrayHelpers.contains := by
  have hchanged : Ensures (u.mapItemsM (Item.specializeHelpers u.globalArrays)) fun u' =>
      u'.globals = u.globals.map id := by
    refine u.globals_mapItemsM (m := Choosing) fun item => ?_
    cases item with
    | decl d => exact ensures_pure Option.map_id_apply.symm
    | func f =>
      rw [Item.specializeHelpers]
      split
      · exact ensures_pure rfl
      · exact ensures_bind (P := fun _ => True) (fun _ _ _ => trivial) fun _ _ => ensures_pure rfl
  refine ensures_bind (hchanged []) fun result hresult => ensures_pure ?_
  rw [List.map_id, globals, globals] at hresult
  rw [globals, globals, ← hresult,
    ← filterMap_global?_filter fun name => !name.any arrayHelpers.contains]
  change (_ ++ _ : List Item).filterMap _ = _
  -- The prototypes of variants are functions.
  rw [List.filterMap_append]
  refine List.append_left_eq_self.2 (List.filterMap_eq_nil_iff.2 fun item hitem => ?_)
  obtain ⟨v, -, rfl⟩ := List.mem_map.1 hitem
  rfl

/-! ### Passes that keep the variables -/

theorem globals_foldIdiom (operand? : Expr → Option Expr) (callee : String) :
    (u.foldIdiom operand? callee).1.globals = u.globals := by
  rw [globals, globals]
  exact filterMap_global?_mapBodies _ u.items

theorem globals_boundLoops (pool : NamePool) :
    Ensures (u.boundLoops pool) fun result => result.1.globals = u.globals := by
  have hitems : Ensures (u.mapItemsM Item.boundLoops) fun u' => u'.globals = u.globals.map id := by
    refine u.globals_mapItemsM (m := Stmt.Naming) fun item => ?_
    cases item with
    | decl d => exact ensures_pure Option.map_id_apply.symm
    | func f =>
      exact ensures_bind (P := fun _ => True) (fun _ _ _ => trivial) fun _ _ => ensures_pure rfl
  exact ensures_bind (hitems pool) fun _ h => ensures_pure (h.trans u.globals.map_id)

end SourceUnit

theorem filterMap_global?_eliminateJumps (items : List Item) :
    Ensures (eliminateJumpsInItems items) fun result =>
      result.1.filterMap Item.global? = items.filterMap Item.global? := by
  induction items with
  | nil => exact ensures_pure rfl
  | cons item rest ih =>
    cases item with
    | decl d =>
      refine ensures_bind ih fun result hresult => ensures_pure ?_
      rw [List.filterMap_cons, List.filterMap_cons, hresult]
    | func f =>
      refine ensures_bind (P := fun _ => True) (fun _ _ => trivial) fun here _ => ?_
      exact ensures_bind ih fun result hresult => ensures_pure hresult

theorem filterMap_global?_insertCopies (copies : List (String × FuncDef)) (items : List Item) :
    (insertCopies copies items).filterMap Item.global? = items.filterMap Item.global? := by
  induction items generalizing copies with
  | nil => rfl
  | cons item rest ih =>
    cases item with
    | decl d => rw [insertCopies, List.filterMap_cons, List.filterMap_cons, ih]
    | func f =>
      rw [insertCopies]
      split <;> exact ih _

theorem Decl.isFunction_rename (d : Decl) (new : String) :
    (d.rename new).isFunction = d.isFunction :=
  congrArg ItemHead.isFunction (d.head_rename false new)

/-- Only functions get generic names, and a definition that shrinks to its prototype is one. -/
theorem Item.global?_toGenericMath {item : Item}
    (h : ∀ f, item = .func f → f.decl.isFunction = true) :
    item.toGenericMath.1.global? = item.global? := by
  unfold Item.toGenericMath
  split
  · rfl
  · cases item with
    | decl d =>
      dsimp only
      split
      · next hrenamed =>
        have hfunction : d.isFunction = true := (Bool.and_eq_true _ _ ▸ hrenamed).1
        exact (Item.global?_of_isFunction ((d.isFunction_rename _).trans hfunction)).trans
          (Item.global?_of_isFunction hfunction).symm
      · rfl
    | func f =>
      have hfunction : f.prototype.isFunction = true := h f rfl
      dsimp only
      split
      · exact Item.global?_of_isFunction ((Decl.isFunction_rename _ _).trans hfunction)
      · exact Item.global?_of_isFunction hfunction

theorem filterMap_global?_keepFirstPrototypes (seen : List String) (items : List Item) :
    (keepFirstPrototypes seen items).filterMap Item.global? = items.filterMap Item.global? := by
  induction items generalizing seen with
  | nil => rfl
  | cons item rest ih =>
    unfold keepFirstPrototypes
    split
    · rw [List.filterMap_cons, List.filterMap_cons, ih]
    · next generic hgeneric =>
      -- A prototype is no variable, so it makes no difference whether it is kept.
      have hnone : item.global? = none := by
        cases item with
        | decl d =>
          apply Item.global?_of_isFunction
          rw [Item.genericPrototype?] at hgeneric
          by_contra hfunction
          rw [if_neg hfunction] at hgeneric
          cases hgeneric
        | func f => rfl
      split
      · rw [List.filterMap_cons_none hnone, ih]
      · rw [List.filterMap_cons_none hnone, List.filterMap_cons_none hnone, ih]

namespace SourceUnit

variable (u : SourceUnit)

theorem globals_eliminateJumps :
    Ensures u.eliminateJumps fun result => result.1.globals = u.globals := by
  refine ensures_bind (filterMap_global?_eliminateJumps u.items) fun _ h => ensures_pure ?_
  rw [globals, globals]
  exact h

theorem globals_unrollRecursion : u.unrollRecursion.1.globals = u.globals := by
  have hredirected (acc : Unrolling) (cycles : List (String × String)) :
      (u.mapItemsM (acc.redirectItem cycles)).value.globals = u.globals.map id := by
    refine u.globals_mapItemsM (m := Counted) fun item => ?_
    cases item with
    | decl d => exact Option.map_id_apply.symm
    | func f => rfl
  rw [← u.globals.map_id, ← hredirected _ _, globals, globals]
  exact filterMap_global?_insertCopies _ _

theorem globals_genericMathNames (h : ∀ f ∈ u.funcs, f.decl.isFunction = true) :
    u.genericMathNames.1.globals = u.globals := by
  rw [globals, globals]
  change (mapBodies Block.toGenericCalls _).1.filterMap _ = _
  rw [filterMap_global?_mapBodies, filterMap_global?_keepFirstPrototypes, List.map_map,
    List.filterMap_map]
  refine List.filterMap_congr fun item hitem => Item.global?_toGenericMath fun f hf => ?_
  exact h f (SourceUnit.mem_funcs.2 (hf ▸ hitem))

end SourceUnit

/-! ### Definitions -/

namespace SourceUnit

/-- Functions are defined by declarators of functions. -/
def DefinesFunctions (u : SourceUnit) : Prop :=
  ∀ x ∈ u.heads, x.isDefinition = true → x.isFunction = true

variable {u u' : SourceUnit}

theorem definesFunctions_iff : u.DefinesFunctions ↔ ∀ f ∈ u.funcs, f.decl.isFunction = true := by
  rw [DefinesFunctions, forall_heads]
  constructor
  · intro h f hf
    exact h _ (mem_funcs.1 hf) rfl
  · intro h item hitem hdefinition
    cases item with
    | decl d => cases hdefinition
    | func f => exact h f (mem_funcs.2 hitem)

theorem DefinesFunctions.of_heads (h : u.DefinesFunctions) (hheads : u'.heads = u.heads) :
    u'.DefinesFunctions := by
  rw [DefinesFunctions, hheads]
  exact h

theorem DefinesFunctions.removeErrorCalls (h : u.DefinesFunctions) :
    u.removeErrorCalls.1.DefinesFunctions := by
  change ∀ x ∈ (mapBodies Block.removeErrorCalls _).1.map Item.head, _
  rw [map_head_mapBodies]
  exact fun x hx => h x ((List.filter_sublist.map Item.head).subset hx)

theorem DefinesFunctions.genericMathNames (h : u.DefinesFunctions) :
    u.genericMathNames.1.DefinesFunctions := by
  let P (x : ItemHead) : Prop := x.isDefinition = true → x.isFunction = true
  refine forall_heads_genericMathNames (Q := P) fun item hitem => ?_
  exact item.forall_head_toGenericMath (P := P) (Q := P) (forall_heads.1 h item hitem)
    (fun h _ => h) fun _ _ _ _ _ _ => nofun

/-- What is promoted out of a function is no definition. -/
theorem DefinesFunctions.promoteStatics (h : u.DefinesFunctions) (unit : String) :
    Ensures (u.promoteStatics unit) fun result => result.1.DefinesFunctions := by
  have hglobals (p : Promotion) : ∀ items : List Item,
      (∀ item ∈ items, item.head.isDefinition = true → item.head.isFunction = true) →
      ∀ item ∈ (promoteGlobals unit p items).1,
        item.head.isDefinition = true → item.head.isFunction = true := by
    intro items
    induction items generalizing p with
    | nil => exact fun _ => List.forall_mem_nil _
    | cons item rest ih =>
      intro hitems
      obtain ⟨hitem, hrest⟩ := List.forall_mem_cons.1 hitems
      have hfollows := item.promoteGlobal_follows unit p
      refine List.forall_mem_cons.2 ⟨fun hdefinition => ?_, ih _ hrest⟩
      exact hfollows.isFunction.trans (hitem (hfollows.isDefinition.symm.trans hdefinition))
  have hitems (p : Promotion) : ∀ items : List Item,
      (∀ item ∈ items, item.head.isDefinition = true → item.head.isFunction = true) →
      Ensures (promoteInItems unit p items) fun result => ∀ item ∈ result.1,
        item.head.isDefinition = true → item.head.isFunction = true := by
    intro items
    induction items generalizing p with
    | nil => exact fun _ => ensures_pure (List.forall_mem_nil _)
    | cons item rest ih =>
      intro hitems
      obtain ⟨hitem, hrest⟩ := List.forall_mem_cons.1 hitems
      cases item with
      | decl d =>
        refine ensures_bind (ih p hrest) fun result hresult => ensures_pure ?_
        exact List.forall_mem_cons.2 ⟨nofun, hresult⟩
      | func f =>
        refine ensures_bind (P := fun here => f.promoteStatics unit p = .ok here) (fun _ h => h)
          fun here hhere => ensures_bind (ih _ hrest) fun result hresult => ensures_pure ?_
        rw [FuncDef.promoteStatics_eq_ok hhere]
        refine List.forall_mem_append.2 ⟨List.forall_mem_append.2 ⟨?_, ?_⟩, hresult⟩
        · exact List.forall_mem_map.2 fun _ _ => nofun
        · exact List.forall_mem_singleton.2 hitem
  refine ensures_bind (hitems _ _ (hglobals _ _ (forall_heads.1 h))) fun result hresult => ?_
  exact ensures_pure (forall_heads.2 hresult)

/-- A copy is declared as the function is. -/
theorem DefinesFunctions.unrollRecursion (h : u.DefinesFunctions) :
    u.unrollRecursion.1.DefinesFunctions := by
  refine forall_heads.2 fun item hitem => ?_
  rcases mem_insertCopies hitem with hitem | ⟨entry, hentry, rfl⟩
  · exact h.of_heads (u.heads_redirected _ _) _ (List.mem_map_of_mem hitem)
  · obtain ⟨f, hf, -, hcopy⟩ := u.hasCopies_unrolling entry.1 entry.2 hentry
    have hfunction : entry.2.decl.isFunction = f.decl.isFunction := by
      rw [hcopy]
      exact f.decl.isFunction_rename _
    exact fun _ => hfunction.trans (definesFunctions_iff.1 h f hf)

theorem DefinesFunctions.specializeHelpers (h : u.DefinesFunctions) :
    Ensures u.specializeHelpers fun result => result.1.DefinesFunctions := by
  refine ensures_bind (u.heads_specialized []) fun result hresult => ensures_pure ?_
  refine forall_heads.2 (List.forall_mem_append.2 ⟨?_, fun item hitem => ?_⟩)
  · exact List.forall_mem_map.2 fun _ _ => nofun
  · exact forall_heads.1 (h.of_heads hresult) item (List.mem_filter.1 hitem).1

end SourceUnit

/-- A pass leaves definitions what they are. -/
theorem Pass.apply_definesFunctions {u : SourceUnit} (h : u.DefinesFunctions) (pass : Pass)
    (context : PassContext) :
    Ensures (pass.apply context u) fun result => result.1.DefinesFunctions := by
  cases pass with
  | spelling => exact ensures_pure (h.of_heads u.heads_respell)
  | errorCalls => exact ensures_pure h.removeErrorCalls
  | mathNames => exact ensures_pure h.genericMathNames
  | staticStorage => exact ensures_map (h.promoteStatics context.baseName)
  | castCalls => exact ensures_pure (h.of_heads u.heads_castsToCalls)
  | absIdiom | oddIdiom => exact ensures_pure (h.of_heads (u.heads_foldIdiom _ _))
  | jumps => exact ensures_map fun result hr => h.of_heads (u.heads_eliminateJumps result hr)
  | loops =>
    exact ensures_map fun result hr => h.of_heads (u.heads_boundLoops context.pool result hr)
  | recursion => exact ensures_pure h.unrollRecursion
  | coefficientArrays => exact ensures_map h.specializeHelpers
  | coercions => exact ensures_pure (h.of_heads u.heads_coerced)

end MathKernel
