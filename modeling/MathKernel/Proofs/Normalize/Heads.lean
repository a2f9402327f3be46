import MathKernel.Proofs.Normalize.CoercedRuns
import MathKernel.Proofs.Normalize.NormalForm
import MathKernel.Proofs.Normalize.Unchanged

/-!
# Heads of file-level items

Whether a pass has work at file level depends on little of an item: whether it is a definition, its
name, and whether a function or a static is declared. Most passes leave that alone; the others
rename items, drop some and add some. Names that passes make up have an underscore, so no pass
takes them for names of its own.

## Main definitions

* `ItemHead`, `SourceUnit.heads` — what passes look at
* `ItemHead.Follows`, `HeadsFollow` — heads after a pass and before

## Main results

* `Pass.apply_headsFollow` — each pass but the one for math names only renames, drops and adds
* `ItemHead.Persists.of_headsFollow` — properties of heads that last
-/

namespace MathKernel

/-- What passes look at in a file-level item. -/
structure ItemHead where
  isDefinition : Bool
  name : Option String
  /-- Whether the declarator is one of a function. -/
  isFunction : Bool
  isStatic : Bool
  deriving DecidableEq, Repr

namespace ItemHead

/-- The name is one that a pass made up. -/
def IsMadeUp (h : ItemHead) : Prop :=
  ∃ name, h.name = some name ∧ '_' ∈ name.toList

/-- The head of an item after a pass that may rename it and drop `static`. -/
structure Follows (h' h : ItemHead) : Prop where
  isDefinition : h'.isDefinition = h.isDefinition
  isFunction : h'.isFunction = h.isFunction
  name : (h'.name = h.name ∧ (h'.isStatic = true → h.isStatic = true)) ∨
    (h'.IsMadeUp ∧ h'.isStatic = false)

theorem Follows.refl (h : ItemHead) : h.Follows h :=
  ⟨rfl, rfl, .inl ⟨rfl, fun hstatic => hstatic⟩⟩

theorem Follows.of_eq {h h' : ItemHead} (heq : h' = h) : h'.Follows h :=
  heq ▸ .refl h'

/-- What follows a made-up head that is not static is another one. -/
theorem Follows.isMadeUp {h h' : ItemHead} (hfollows : h'.Follows h) (hmade : h.IsMadeUp)
    (hstatic : h.isStatic = false) : h'.IsMadeUp ∧ h'.isStatic = false := by
  rcases hfollows.name with ⟨hname, hstatic'⟩ | hmade'
  · refine ⟨?_, Bool.eq_false_iff.2 fun h' => Bool.eq_false_iff.1 hstatic (hstatic' h')⟩
    rw [IsMadeUp, hname]
    exact hmade
  · exact hmade'

theorem Follows.trans {h h' h'' : ItemHead} (hsecond : h''.Follows h') (hfirst : h'.Follows h) :
    h''.Follows h := by
  refine ⟨hsecond.isDefinition.trans hfirst.isDefinition,
    hsecond.isFunction.trans hfirst.isFunction, ?_⟩
  rcases hfirst.name with ⟨hname, hstatic⟩ | ⟨hmade, hstatic⟩
  · rcases hsecond.name with ⟨hname', hstatic'⟩ | hmade'
    · exact .inl ⟨hname'.trans hname, fun h => hstatic (hstatic' h)⟩
    · exact .inr hmade'
  · exact .inr (hsecond.isMadeUp hmade hstatic)

end ItemHead

/-- The heads of items before and after a pass that may rename items, drop some and add some. -/
inductive HeadsFollow : List ItemHead → List ItemHead → Prop where
  | nil : HeadsFollow [] []
  | keep {h h' : ItemHead} {before after : List ItemHead} :
    h'.Follows h → HeadsFollow before after → HeadsFollow (h :: before) (h' :: after)
  | drop {h : ItemHead} {before after : List ItemHead} :
    HeadsFollow before after → HeadsFollow (h :: before) after
  | add {h' : ItemHead} {before after : List ItemHead} :
    h'.IsMadeUp → h'.isStatic = false → HeadsFollow before after → HeadsFollow before (h' :: after)

namespace HeadsFollow

theorem refl (heads : List ItemHead) : HeadsFollow heads heads := by
  induction heads with
  | nil => exact .nil
  | cons h rest ih => exact .keep (.refl h) ih

theorem of_eq {before after : List ItemHead} (h : after = before) : HeadsFollow before after :=
  h ▸ refl before

theorem trans {before between after : List ItemHead} :
    HeadsFollow before between → HeadsFollow between after → HeadsFollow before after
  | .nil, hsecond => hsecond
  | .drop hfirst, hsecond => .drop (hfirst.trans hsecond)
  | .keep hfollows hfirst, .keep hfollows' hsecond =>
    .keep (hfollows'.trans hfollows) (hfirst.trans hsecond)
  | .keep _ hfirst, .drop hsecond => .drop (hfirst.trans hsecond)
  | .keep hfollows hfirst, .add hmade hstatic hsecond =>
    .add hmade hstatic ((keep hfollows hfirst).trans hsecond)
  | .add hmade hstatic hfirst, .keep hfollows hsecond =>
    .add (hfollows.isMadeUp hmade hstatic).1 (hfollows.isMadeUp hmade hstatic).2
      (hfirst.trans hsecond)
  | .add _ _ hfirst, .drop hsecond => hfirst.trans hsecond
  | .add hmade hstatic hfirst, .add hmade' hstatic' hsecond =>
    .add hmade' hstatic' ((add hmade hstatic hfirst).trans hsecond)
termination_by before.length + between.length + after.length

theorem of_sublist {before after : List ItemHead} (h : after.Sublist before) :
    HeadsFollow before after := by
  induction h with
  | slnil => exact .nil
  | cons h _ ih => exact .drop ih
  | cons_cons h _ ih => exact .keep (.refl h) ih

end HeadsFollow

/-- The head of an item with the declaration. -/
def Decl.head (d : Decl) (isDefinition : Bool) : ItemHead :=
  ⟨isDefinition, d.name, d.isFunction, d.isStatic⟩

/-- The head of an item. -/
def Item.head : Item → ItemHead
  | decl d => d.head false
  | func f => f.decl.head true

@[simp] theorem Item.name_head (item : Item) : item.head.name = item.name? := by
  cases item <;> rfl

/-- The heads of a unit's items. -/
def SourceUnit.heads (u : SourceUnit) : List ItemHead :=
  u.items.map Item.head

/-! ### Declarations -/

namespace Decl

variable (d : Decl) (isDefinition : Bool)

theorem head_mapExprsM (f : Expr → Counted Expr) :
    (d.mapExprsM f).value.head isDefinition = d.head isDefinition := by
  obtain ⟨name, quals, storage, type, init, c⟩ := d
  cases type <;> rfl

theorem head_respellType : d.respellType.value.head isDefinition = d.head isDefinition := by
  obtain ⟨name, quals, storage, type, init, c⟩ := d
  cases type <;> rw [respellType, Declarator.respell] <;> rfl

theorem head_respell : d.respell.value.head isDefinition = d.head isDefinition := by
  rw [respell, Counted.value_bind, head_mapExprsM, head_respellType]

theorem head_rename (name : String) :
    (d.rename name).head isDefinition = { d.head isDefinition with name := some name } := by
  obtain ⟨n, quals, storage, type, init, c⟩ := d
  cases type <;> rfl

theorem isStatic_dropStatic : d.dropStatic.isStatic = false := by
  simp [dropStatic, isStatic]

theorem head_dropStatic :
    d.dropStatic.head isDefinition = { d.head isDefinition with isStatic := false } := by
  rw [head, isStatic_dropStatic]
  rfl

theorem head_promote (name : String) :
    (d.promote name).head isDefinition =
      { d.head isDefinition with name := some name, isStatic := false } := by
  rw [promote, head_dropStatic, head_rename]

end Decl

/-! ### Passes that leave the heads alone -/

theorem map_head_mapBodies (f : Block → Block × Tally) (items : List Item) :
    (mapBodies f items).1.map Item.head = items.map Item.head := by
  induction items with
  | nil => rfl
  | cons item rest ih =>
    cases item with
    | decl d => exact congrArg (_ :: ·) ih
    | func g => exact congrArg (_ :: ·) ih

/-- Items that are mapped one by one. -/
theorem SourceUnit.heads_mapItemsM {m : Type → Type} [Monad m] [LawfulMonad m] [EnsuresMonad m]
    {f : Item → m Item} (hf : ∀ item, Ensures (f item) fun item' : Item => item'.head = item.head)
    (u : SourceUnit) : Ensures (u.mapItemsM f) fun u' => u'.heads = u.heads := by
  have hitems := ensures_mapM (R := fun item item' => Item.head item' = Item.head item) u.items
    fun item _ => hf item
  refine ensures_bind hitems fun items hall => ensures_pure ?_
  change items.map Item.head = u.items.map Item.head
  generalize u.items = before at hall
  induction hall with
  | nil => rfl
  | cons hitem _ ih => rw [List.map_cons, List.map_cons, hitem, ih]

namespace SourceUnit

variable (u : SourceUnit)

theorem heads_respell : u.respell.1.heads = u.heads := by
  refine heads_mapItemsM (m := Counted) (fun item => ?_) u
  cases item with
  | decl d => exact d.head_respell false
  | func f =>
    have htype := f.decl.head_respellType true
    obtain ⟨⟨name, quals, storage, type, init, c⟩, body, coord⟩ := f
    exact htype

theorem heads_castsToCalls : u.castsToCalls.1.heads = u.heads := by
  refine heads_mapItemsM (m := Counted) (fun item => ?_) u
  cases item with
  | decl d => exact d.head_mapExprsM false _
  | func f => rfl

theorem heads_foldIdiom (operand? : Expr → Option Expr) (callee : String) :
    (u.foldIdiom operand? callee).1.heads = u.heads :=
  map_head_mapBodies _ u.items

theorem heads_coerced : u.coerced.1.heads = u.heads := by
  refine heads_mapItemsM (m := Counted) (fun item => ?_) u
  cases item with
  | decl d =>
    change (Item.coerced (TypeEnv.ofUnit u) (.decl d)).value.head = _
    rw [Item.coerced]
    split <;> rfl
  | func f => rfl

theorem heads_boundLoops (pool : NamePool) :
    Ensures (u.boundLoops pool) fun result => result.1.heads = u.heads := by
  have hitems : Ensures (u.mapItemsM Item.boundLoops) fun u' => u'.heads = u.heads := by
    refine heads_mapItemsM (m := Stmt.Naming) (fun item => ?_) u
    cases item with
    | decl d => exact ensures_pure rfl
    | func f =>
      exact ensures_bind (P := fun _ => True) (fun _ _ _ => trivial) fun _ _ => ensures_pure rfl
  exact ensures_bind (hitems pool) fun _ h => ensures_pure h

end SourceUnit

theorem eliminateJumpsInItems_heads (items : List Item) :
    Ensures (eliminateJumpsInItems items) fun result =>
      result.1.map Item.head = items.map Item.head := by
  induction items with
  | nil => exact ensures_pure rfl
  | cons item rest ih =>
    cases item with
    | decl d =>
      exact ensures_bind ih fun result hresult => ensures_pure (congrArg (_ :: ·) hresult)
    | func f =>
      have hf : Ensures f.eliminateJumps fun result => result.1.decl = f.decl := by
        unfold FuncDef.eliminateJumps
        split
        · exact ensures_bind (P := fun _ => True) (fun _ _ => trivial) fun _ _ => ensures_pure rfl
        · exact ensures_pure rfl
      refine ensures_bind hf fun here hhere => ensures_bind ih fun result hresult => ?_
      refine ensures_pure ?_
      rw [List.map_cons, List.map_cons, hresult, Item.head, Item.head, hhere]

theorem SourceUnit.heads_eliminateJumps (u : SourceUnit) :
    Ensures u.eliminateJumps fun result => result.1.heads = u.heads :=
  ensures_bind (eliminateJumpsInItems_heads u.items) fun _ h => ensures_pure h

/-! ### Passes that rename, drop and add items -/

theorem mem_toList_promotedName (taken : List String) (unit : String) (function : Option String)
    (name : String) : '_' ∈ (promotedName taken unit function name).toList := by
  refine mem_toList_freshName ?_
  split
  · split <;> simp
  · simp

theorem Item.promoteGlobal_follows (unit : String) (p : Promotion) (item : Item) :
    (item.promoteGlobal unit p).1.head.Follows item.head := by
  have hdropped (d : Decl) (isDefinition : Bool) :
      (d.dropStatic.head isDefinition).Follows (d.head isDefinition) := by
    rw [Decl.head_dropStatic]
    exact ⟨rfl, rfl, .inl ⟨rfl, nofun⟩⟩
  cases item with
  | decl d =>
    simp only [Item.promoteGlobal]
    by_cases hvariable : d.isStaticVariable = true
    · rw [if_pos hvariable]
      cases d.name with
      | none => exact .refl _
      | some old =>
        change ((d.promote _).head false).Follows _
        rw [Decl.head_promote]
        exact ⟨rfl, rfl, .inr ⟨⟨_, rfl, mem_toList_promotedName _ _ _ _⟩, rfl⟩⟩
    · rw [if_neg hvariable]
      split
      · exact hdropped d false
      · exact .refl _
  | func f =>
    simp only [Item.promoteGlobal]
    split
    · exact hdropped f.decl true
    · exact .refl _

theorem promoteGlobals_headsFollow (unit : String) (p : Promotion) (items : List Item) :
    HeadsFollow (items.map Item.head) ((promoteGlobals unit p items).1.map Item.head) := by
  induction items generalizing p with
  | nil => exact .nil
  | cons item rest ih => exact .keep (item.promoteGlobal_follows unit p) (ih _)

theorem hoistStatics_isMadeUp (unit function : String) (p : Promotion) (ds : List Decl) :
    ∀ d ∈ (hoistStatics unit function p ds).1, (d.head false).IsMadeUp ∧ d.isStatic = false := by
  induction ds generalizing p with
  | nil => simp [hoistStatics]
  | cons d rest ih =>
    unfold hoistStatics
    split
    · exact ih p
    · refine List.forall_mem_cons.2 ⟨⟨?_, Decl.isStatic_dropStatic _⟩, ih _⟩
      rw [Decl.head_promote]
      exact ⟨_, rfl, mem_toList_promotedName _ _ _ _⟩

theorem HeadsFollow.append {before after : List ItemHead} (h : HeadsFollow before after)
    {items : List Item}
    (hitems : ∀ item ∈ items, item.head.IsMadeUp ∧ item.head.isStatic = false) :
    HeadsFollow before (items.map Item.head ++ after) := by
  induction items with
  | nil => exact h
  | cons item rest ih =>
    obtain ⟨hitem, hrest⟩ := List.forall_mem_cons.1 hitems
    exact .add hitem.1 hitem.2 (ih hrest)

theorem promoteInItems_headsFollow (unit : String) (p : Promotion) (items : List Item) :
    Ensures (promoteInItems unit p items) fun result =>
      HeadsFollow (items.map Item.head) (result.1.map Item.head) := by
  induction items generalizing p with
  | nil => exact ensures_pure .nil
  | cons item rest ih =>
    cases item with
    | decl d =>
      refine ensures_bind (ih p) fun result hresult => ensures_pure ?_
      have hd : (d.renameIds p.renames).value.head false = d.head false := d.head_mapExprsM false _
      exact .keep (.of_eq hd) hresult
    | func f =>
      have hf : Ensures (f.promoteStatics unit p) fun result => ∀ before after,
          HeadsFollow before after →
            HeadsFollow (f.decl.head true :: before) (result.1.map Item.head ++ after) := by
        intro result hresult before after hfollow
        rw [FuncDef.promoteStatics_eq_ok hresult, List.map_append, List.append_assoc]
        refine HeadsFollow.append (.keep (.refl _) hfollow) fun item hitem => ?_
        obtain ⟨d, hd, rfl⟩ := List.mem_map.1 hitem
        exact hoistStatics_isMadeUp unit f.name p _ d hd
      refine ensures_bind hf fun here hhere => ensures_bind (ih here.2.1) fun result hresult => ?_
      refine ensures_pure ?_
      rw [List.map_append]
      exact hhere _ _ hresult

theorem SourceUnit.promoteStatics_headsFollow (unit : String) (u : SourceUnit) :
    Ensures (u.promoteStatics unit) fun result => HeadsFollow u.heads result.1.heads :=
  ensures_bind (promoteInItems_headsFollow unit _ _) fun _ hresult =>
    ensures_pure ((promoteGlobals_headsFollow unit _ u.items).trans hresult)

theorem SourceUnit.removeErrorCalls_headsFollow (u : SourceUnit) :
    HeadsFollow u.heads u.removeErrorCalls.1.heads := by
  refine .of_sublist ?_
  change ((mapBodies Block.removeErrorCalls _).1.map Item.head).Sublist _
  rw [map_head_mapBodies]
  exact List.filter_sublist.map Item.head

/-- Copies are put after the functions they copy. -/
theorem insertCopies_headsFollow {copies : List (String × FuncDef)}
    (h : ∀ entry ∈ copies, (entry.2.decl.head true).IsMadeUp ∧ entry.2.decl.isStatic = false)
    (items : List Item) :
    HeadsFollow (items.map Item.head) ((insertCopies copies items).map Item.head) := by
  induction items generalizing copies with
  | nil => exact .nil
  | cons item rest ih =>
    cases item with
    | decl d => exact .keep (.refl _) (ih h)
    | func f =>
      rw [insertCopies]
      split
      · exact .keep (.refl _) (ih h)
      · next copy hcopy =>
        have hmade := h (f.name, copy) (mem_of_lookup_eq_some hcopy)
        refine .keep (.refl _) (.add hmade.1 hmade.2 (ih fun entry hentry => ?_))
        exact h entry (List.mem_filter.1 hentry).1

theorem Unrolling.addCopy_isMadeUp {u : SourceUnit} (hu : ∀ f ∈ u.funcs, f.decl.isStatic = false)
    (g : CallGraph) {acc : Unrolling}
    (h : ∀ entry ∈ acc.copies, (entry.2.decl.head true).IsMadeUp ∧ entry.2.decl.isStatic = false)
    (callee : String) : ∀ entry ∈ (acc.addCopy u g callee).copies,
      (entry.2.decl.head true).IsMadeUp ∧ entry.2.decl.isStatic = false := by
  unfold Unrolling.addCopy
  split
  · exact h
  · exact h
  · next f hlookup hfunc =>
    refine List.forall_mem_append.2 ⟨h, List.forall_mem_singleton.2 ⟨?_, ?_⟩⟩
    · rw [Decl.head_rename]
      exact ⟨_, rfl, mem_toList_freshName (by simp [unrolledEnding])⟩
    · exact hu f (List.mem_of_find?_eq_some hfunc)

/-- Redirecting calls leaves the heads alone. -/
theorem SourceUnit.heads_redirected (u : SourceUnit) (acc : Unrolling)
    (cycles : List (String × String)) :
    (u.mapItemsM (acc.redirectItem cycles)).value.heads = u.heads := by
  refine SourceUnit.heads_mapItemsM (m := Counted) (fun item => ?_) u
  cases item <;> rfl

theorem SourceUnit.unrollRecursion_headsFollow {u : SourceUnit}
    (hu : ∀ f ∈ u.funcs, f.decl.isStatic = false) :
    HeadsFollow u.heads u.unrollRecursion.1.heads := by
  have hcopies := List.foldlRecOn ((CallGraph.ofUnit u).cycles.map Prod.snd)
    (Unrolling.addCopy u (CallGraph.ofUnit u)) (b := ⟨u.itemNames, [], 0⟩)
    (motive := fun acc => ∀ entry ∈ acc.copies,
      (entry.2.decl.head true).IsMadeUp ∧ entry.2.decl.isStatic = false)
    (by simp) fun acc hacc callee _ => Unrolling.addCopy_isMadeUp hu _ hacc callee
  rw [← u.heads_redirected _ (CallGraph.ofUnit u).cycles]
  exact insertCopies_headsFollow hcopies _

/-- Sending calls to variants leaves the heads alone. -/
theorem SourceUnit.heads_specialized (u : SourceUnit) :
    Ensures (u.mapItemsM (Item.specializeHelpers u.globalArrays)) fun u' => u'.heads = u.heads := by
  refine SourceUnit.heads_mapItemsM (m := Choosing) (fun item => ?_) u
  cases item with
  | decl d => exact ensures_pure rfl
  | func f =>
    rw [Item.specializeHelpers]
    split
    · exact ensures_pure rfl
    · exact ensures_bind (P := fun _ => True) (fun _ _ _ => trivial) fun _ _ => ensures_pure rfl

theorem SourceUnit.specializeHelpers_headsFollow (u : SourceUnit) :
    Ensures u.specializeHelpers fun result => HeadsFollow u.heads result.1.heads := by
  refine ensures_bind (u.heads_specialized []) fun result hresult => ensures_pure ?_
  change HeadsFollow u.heads (List.map Item.head (_ ++ _))
  rw [List.map_append, ← hresult]
  refine HeadsFollow.append (.of_sublist (List.filter_sublist.map Item.head)) fun item hitem => ?_
  obtain ⟨v, -, rfl⟩ := List.mem_map.1 hitem
  exact ⟨⟨v.name, rfl, by simp [Variant.name, variantName]⟩, rfl⟩

/-! ### Properties that last -/

namespace ItemHead

/-- A property of heads that passes keep. -/
structure Persists (P : ItemHead → Prop) : Prop where
  follows : ∀ {h h' : ItemHead}, h'.Follows h → P h → P h'
  madeUp : ∀ {h : ItemHead}, h.IsMadeUp → h.isStatic = false → P h

theorem Persists.of_headsFollow {P : ItemHead → Prop} (hP : Persists P)
    {before after : List ItemHead} (hfollow : HeadsFollow before after) (h : ∀ x ∈ before, P x) :
    ∀ x ∈ after, P x := by
  induction hfollow with
  | nil => exact h
  | keep hfollows _ ih =>
    obtain ⟨hhead, hrest⟩ := List.forall_mem_cons.1 h
    exact List.forall_mem_cons.2 ⟨hP.follows hfollows hhead, ih hrest⟩
  | drop _ ih => exact ih (List.forall_mem_cons.1 h).2
  | add hmade hstatic _ ih => exact List.forall_mem_cons.2 ⟨hP.madeUp hmade hstatic, ih h⟩

/-- The item has none of the names. -/
def Avoids (names : List String) (h : ItemHead) : Prop :=
  ∀ name ∈ h.name, name ∉ names

/-- No function has one of the names. -/
def FunctionAvoids (names : List String) (h : ItemHead) : Prop :=
  h.isFunction = true → h.Avoids names

/-- No function has the name of a conversion or of the remainder. -/
def KeepsConversions (h : ItemHead) : Prop :=
  h.FunctionAvoids conversionNames

/-- Nothing but a prototype has a name of a math function, and that one is generic; a variable may
have any name. -/
def IsGeneric (h : ItemHead) : Prop :=
  ∀ name ∈ h.name, ∀ generic, genericMath? name = some generic →
    h.isDefinition = false ∧ (h.isFunction = true → name = generic)

/-- Only a variable without a name is static. -/
def IsPromoted (h : ItemHead) : Prop :=
  h.isStatic = true → h.isDefinition = false ∧ h.isFunction = false ∧ h.name = none

theorem IsMadeUp.notMem {h : ItemHead} (hmade : h.IsMadeUp) {name : String} (hname : name ∈ h.name)
    {names : List String} (hnames : ∀ n ∈ names, '_' ∉ n.toList) : name ∉ names := by
  obtain ⟨made, hmade, hletter⟩ := hmade
  cases Option.some.inj (hmade.symm.trans hname)
  exact fun hmem => hnames _ hmem hletter

theorem IsMadeUp.genericMath?_eq_none {h : ItemHead} (hmade : h.IsMadeUp) {name : String}
    (hname : name ∈ h.name) : genericMath? name = none := by
  have hplain : ∀ n ∈ mathAliases.map Prod.fst, '_' ∉ n.toList := by decide
  refine List.lookup_eq_none_iff.2 fun entry hentry => ?_
  rw [bne_iff_ne]
  rintro rfl
  exact hmade.notMem hname hplain (List.mem_map_of_mem hentry)

theorem persists_avoids {names : List String} (hnames : ∀ n ∈ names, '_' ∉ n.toList) :
    Persists (Avoids names) where
  follows := by
    intro h h' hfollows havoids name hname
    rcases hfollows.name with ⟨heq, -⟩ | ⟨hmade, -⟩
    · exact havoids name (heq ▸ hname)
    · exact hmade.notMem hname hnames
  madeUp hmade _ name hname := hmade.notMem hname hnames

theorem persists_functionAvoids {names : List String} (hnames : ∀ n ∈ names, '_' ∉ n.toList) :
    Persists (FunctionAvoids names) where
  follows := by
    intro h h' hfollows havoids hfunction
    exact (persists_avoids hnames).follows hfollows (havoids (hfollows.isFunction ▸ hfunction))
  madeUp hmade hstatic _ := (persists_avoids hnames).madeUp hmade hstatic

theorem persists_keepsConversions : Persists KeepsConversions :=
  persists_functionAvoids (by decide)

theorem persists_isGeneric : Persists IsGeneric where
  follows := by
    intro h h' hfollows hgeneric name hname generic halias
    rcases hfollows.name with ⟨heq, -⟩ | ⟨hmade, -⟩
    · rw [hfollows.isDefinition, hfollows.isFunction]
      exact hgeneric name (heq ▸ hname) generic halias
    · rw [hmade.genericMath?_eq_none hname] at halias
      cases halias
  madeUp := by
    intro h hmade _ name hname generic halias
    rw [hmade.genericMath?_eq_none hname] at halias
    cases halias

theorem persists_isPromoted : Persists IsPromoted where
  follows := by
    intro h h' hfollows hpromoted hstatic
    rcases hfollows.name with ⟨heq, hstatic'⟩ | ⟨-, hstatic'⟩
    · rw [hfollows.isDefinition, hfollows.isFunction, heq]
      exact hpromoted (hstatic' hstatic)
    · rw [hstatic'] at hstatic
      cases hstatic
  madeUp _ hstatic h := by
    rw [hstatic] at h
    cases h

/-- The generic math function that an item declares. -/
def prototype? (h : ItemHead) : Option String :=
  if h.isFunction && !h.isDefinition then h.name.filter fun name => genericMath? name == some name
  else none

theorem IsMadeUp.prototype?_eq_none {h : ItemHead} (hmade : h.IsMadeUp) : h.prototype? = none := by
  obtain ⟨name, hname, hletter⟩ := hmade
  have hnone : genericMath? name = none :=
    IsMadeUp.genericMath?_eq_none ⟨name, hname, hletter⟩ hname
  rw [ItemHead.prototype?, hname]
  split <;> simp [Option.filter, hnone]

theorem Follows.prototype?_eq_or {h h' : ItemHead} (hfollows : h'.Follows h) :
    h'.prototype? = h.prototype? ∨ h'.prototype? = none := by
  rcases hfollows.name with ⟨heq, -⟩ | ⟨hmade, -⟩
  · left
    rw [ItemHead.prototype?, ItemHead.prototype?, hfollows.isDefinition, hfollows.isFunction, heq]
  · exact .inr hmade.prototype?_eq_none

end ItemHead

/-- No prototype of a generic math function is added. -/
theorem HeadsFollow.prototypes {before after : List ItemHead} (h : HeadsFollow before after) :
    (after.filterMap ItemHead.prototype?).Sublist (before.filterMap ItemHead.prototype?) := by
  induction h with
  | nil => exact .slnil
  | @keep head head' before after hfollows _ ih =>
    rcases hfollows.prototype?_eq_or with heq | hnone
    · cases hprototype : head.prototype? with
      | none => rwa [List.filterMap_cons_none (heq.trans hprototype),
          List.filterMap_cons_none hprototype]
      | some name =>
        rw [List.filterMap_cons_some (heq.trans hprototype), List.filterMap_cons_some hprototype]
        exact ih.cons_cons name
    · rw [List.filterMap_cons_none hnone]
      exact ih.trans ((List.sublist_cons_self head before).filterMap _)
  | @drop head before _ _ ih =>
    exact ih.trans ((List.sublist_cons_self head before).filterMap _)
  | add hmade _ _ ih => rwa [List.filterMap_cons_none hmade.prototype?_eq_none]

/-! ### What the passes look for -/

theorem SourceUnit.forall_heads {u : SourceUnit} {P : ItemHead → Prop} :
    (∀ x ∈ u.heads, P x) ↔ ∀ item ∈ u.items, P item.head :=
  List.forall_mem_map

theorem SourceUnit.avoids_iff {u : SourceUnit} {names : List String} :
    u.avoids names ↔ ∀ x ∈ u.heads, x.FunctionAvoids names := by
  rw [SourceUnit.forall_heads, avoids, List.all_eq_true]
  refine forall₂_congr fun item _ => ?_
  have hhead : item.head.isFunction = item.toDecl.isFunction ∧
      item.head.name = item.toDecl.name := by cases item <;> exact ⟨rfl, rfl⟩
  rw [ItemHead.FunctionAvoids, ItemHead.Avoids, hhead.1, hhead.2]
  cases item.toDecl.isFunction <;> cases item.toDecl.name <;> simp

theorem SourceUnit.keepsConversions_iff {u : SourceUnit} :
    u.keepsConversions ↔ ∀ x ∈ u.heads, x.KeepsConversions :=
  avoids_iff

theorem Item.genericPrototype?_eq (item : Item) :
    item.genericPrototype? = item.head.prototype? := by
  cases item with
  | decl d => simp [Item.genericPrototype?, ItemHead.prototype?, Item.head, Decl.head]
  | func f => simp [Item.genericPrototype?, ItemHead.prototype?, Item.head, Decl.head]

theorem filterMap_genericPrototype? (items : List Item) :
    items.filterMap Item.genericPrototype? =
      (items.map Item.head).filterMap ItemHead.prototype? := by
  rw [List.filterMap_map]
  exact congrArg (List.filterMap · items) (funext Item.genericPrototype?_eq)

theorem Item.toGenericMath_eq_self {item : Item} (h : item.head.IsGeneric) :
    item.toGenericMath = (item, .zero) := by
  unfold Item.toGenericMath
  cases halias : item.name?.bind genericMath? with
  | none => rfl
  | some generic =>
    obtain ⟨name, hname, hgeneric⟩ := Option.bind_eq_some_iff.1 halias
    obtain ⟨hdefinition, hfunction⟩ := h name (by rw [Item.name_head, hname]; rfl) generic hgeneric
    cases item with
    | decl d =>
      have hrenamed : ¬ ((d.isFunction && d.name != some generic) = true) := by
        rw [Bool.and_eq_true, bne_iff_ne]
        rintro ⟨hd, hne⟩
        exact hne (hname.trans (congrArg some (hfunction hd)))
      dsimp only
      rw [if_neg hrenamed]
      rfl
    | func f => cases hdefinition

theorem Item.isPromoted_of_head {item : Item} (h : item.head.IsPromoted) : item.IsPromoted := by
  intro unit p
  cases item with
  | decl d =>
    by_cases hstatic : d.isStatic = true
    · obtain ⟨-, hfunction, hname⟩ := h hstatic
      have hfunction : d.isFunction = false := hfunction
      have hname : d.name = none := hname
      simp [Item.promoteGlobal, Decl.isStaticVariable, hstatic, hfunction, hname]
    · simp [Item.promoteGlobal, Decl.isStaticVariable, hstatic]
  | func f =>
    have hstatic : ¬ f.decl.isStatic = true := fun hstatic => by cases (h hstatic).1
    simp [Item.promoteGlobal, hstatic]

/-! ### What the passes establish -/

theorem SourceUnit.avoids_removeErrorCalls (u : SourceUnit) :
    ∀ x ∈ u.removeErrorCalls.1.heads, x.Avoids [errorRoutine] := by
  change ∀ x ∈ (mapBodies Block.removeErrorCalls _).1.map Item.head, _
  rw [map_head_mapBodies]
  intro x hx name hname
  obtain ⟨item, hitem, rfl⟩ := List.mem_map.1 hx
  have hkept := (List.mem_filter.1 hitem).2
  rw [Item.name_head] at hname
  rw [bne_iff_ne, hname] at hkept
  simpa using hkept

theorem Item.isPromoted_promoteGlobal (unit : String) (p : Promotion) (item : Item) :
    (item.promoteGlobal unit p).1.head.IsPromoted := by
  have hdropped (d : Decl) (isDefinition : Bool) :
      (d.dropStatic.head isDefinition).IsPromoted := by
    rw [Decl.head_dropStatic]
    exact nofun
  cases item with
  | decl d =>
    simp only [Item.promoteGlobal]
    by_cases hvariable : d.isStaticVariable = true
    · rw [if_pos hvariable]
      cases hname : d.name with
      | none =>
        rw [Decl.isStaticVariable, Bool.and_eq_true, Bool.not_eq_true'] at hvariable
        exact fun _ => ⟨rfl, hvariable.2, hname⟩
      | some old => exact hdropped _ false
    · rw [if_neg hvariable]
      split
      · exact hdropped d false
      · next hstatic => exact fun h => absurd h hstatic
  | func f =>
    simp only [Item.promoteGlobal]
    split
    · exact hdropped f.decl true
    · next hstatic => exact fun h => absurd h hstatic

theorem isPromoted_promoteGlobals (unit : String) (p : Promotion) (items : List Item) :
    ∀ x ∈ (promoteGlobals unit p items).1.map Item.head, x.IsPromoted := by
  induction items generalizing p with
  | nil => exact List.forall_mem_nil _
  | cons item rest ih =>
    exact List.forall_mem_cons.2 ⟨item.isPromoted_promoteGlobal unit p, ih _⟩

theorem SourceUnit.isPromoted_promoteStatics (unit : String) (u : SourceUnit) :
    Ensures (u.promoteStatics unit) fun result => ∀ x ∈ result.1.heads, x.IsPromoted :=
  ensures_bind (promoteInItems_headsFollow unit _ _) fun _ hresult => ensures_pure
    (ItemHead.persists_isPromoted.of_headsFollow hresult (isPromoted_promoteGlobals unit _ u.items))

theorem SourceUnit.avoids_specializeHelpers (u : SourceUnit) :
    Ensures u.specializeHelpers fun result => ∀ x ∈ result.1.heads, x.Avoids arrayHelpers := by
  have hplain : ∀ n ∈ arrayHelpers, '_' ∉ n.toList := by decide
  refine ensures_bind (P := fun _ => True) (fun _ _ => trivial) fun result _ => ensures_pure ?_
  refine SourceUnit.forall_heads.2 (List.forall_mem_append.2 ⟨fun item hitem => ?_, ?_⟩)
  · obtain ⟨v, -, rfl⟩ := List.mem_map.1 hitem
    have hmade : (Item.decl v.prototype).head.IsMadeUp :=
      ⟨v.name, rfl, by simp [Variant.name, variantName]⟩
    exact fun name hname => hmade.notMem hname hplain
  · intro item hitem name hname
    have hkept := (List.mem_filter.1 hitem).2
    rw [Item.name_head] at hname
    rw [hname, Option.any_some] at hkept
    simpa using hkept

/-! ### Generic names -/

/-- The head of an item that has a math function's name, as one of a declaration. -/
theorem Item.head_toGenericMath {item : Item} {name generic : String}
    (hname : item.name? = some name) (hgeneric : genericMath? name = some generic) :
    item.toGenericMath.1.head =
      { item.head with
        isDefinition := false
        name := some (if item.head.isFunction then generic else name) } := by
  have hdecl (d : Decl) (hd : d.name = some name) (removed : Nat) :
      (if d.isFunction && d.name != some generic then
          (Item.decl (d.rename generic), (⟨1, 0, removed⟩ : Tally))
        else (.decl d, ⟨0, 0, removed⟩)).1.head =
        { d.head false with name := some (if d.isFunction then generic else name) } := by
    by_cases hfunction : d.isFunction = true
    · by_cases hsame : name = generic
      · subst hsame
        simp [hfunction, hd, Item.head, Decl.head]
      · simp [hfunction, hd, hsame, Item.head, Decl.head_rename]
    · simp [hfunction, hd, Item.head, Decl.head]
  have halias : item.name?.bind genericMath? = some generic := by
    rw [hname, Option.bind_some, hgeneric]
  unfold Item.toGenericMath
  rw [halias]
  cases item with
  | decl d => exact hdecl d hname 0
  | func f => exact hdecl f.prototype hname 1

theorem Item.toGenericMath_eq_of_none {item : Item} (h : item.name?.bind genericMath? = none) :
    item.toGenericMath.1 = item := by
  unfold Item.toGenericMath
  rw [h]

/-- What holds of all heads after the renaming of math functions. -/
theorem Item.forall_head_toGenericMath {P Q : ItemHead → Prop} {item : Item} (h : P item.head)
    (hother : P item.head → item.name?.bind genericMath? = none → Q item.head)
    (hmath : ∀ x : ItemHead, P x → ∀ name generic, x.name = some name →
      genericMath? name = some generic →
      Q { x with
          isDefinition := false
          name := some (if x.isFunction then generic else name) }) :
    Q item.toGenericMath.1.head := by
  cases halias : item.name?.bind genericMath? with
  | none =>
    rw [Item.toGenericMath_eq_of_none halias]
    exact hother h halias
  | some generic =>
    obtain ⟨name, hname, hgeneric⟩ := Option.bind_eq_some_iff.1 halias
    rw [Item.head_toGenericMath hname hgeneric]
    exact hmath item.head h name generic (item.name_head.trans hname) hgeneric

theorem Item.isGeneric_toGenericMath (item : Item) : item.toGenericMath.1.head.IsGeneric := by
  refine item.forall_head_toGenericMath (P := fun x => x = item.head) rfl
    (fun _ hnone name hname generic hgeneric => ?_) ?_
  · rw [Item.name_head] at hname
    rw [hname, Option.bind_some, hgeneric] at hnone
    cases hnone
  · rintro x - name generic - hgeneric name' hname' generic' hgeneric'
    refine ⟨rfl, fun hfunction => ?_⟩
    have hfunction : x.isFunction = true := hfunction
    rw [if_pos hfunction] at hname'
    cases hname'
    exact Option.some.inj ((genericMath?_generic hgeneric).symm.trans hgeneric')

namespace SourceUnit

variable {u : SourceUnit}

theorem forall_heads_genericMathNames {Q : ItemHead → Prop}
    (h : ∀ item ∈ u.items, Q item.toGenericMath.1.head) :
    ∀ x ∈ u.genericMathNames.1.heads, Q x := by
  change ∀ x ∈ (mapBodies Block.toGenericCalls _).1.map Item.head, _
  rw [map_head_mapBodies]
  refine List.forall_mem_map.2 fun item hitem => ?_
  obtain ⟨renamed, hrenamed, rfl⟩ := List.mem_map.1 ((keepFirstPrototypes_sublist _ _).subset hitem)
  obtain ⟨item, horiginal, rfl⟩ := List.mem_map.1 hrenamed
  exact h item horiginal

theorem isGeneric_genericMathNames (u : SourceUnit) :
    ∀ x ∈ u.genericMathNames.1.heads, x.IsGeneric :=
  forall_heads_genericMathNames fun item _ => item.isGeneric_toGenericMath

theorem avoids_genericMathNames {names : List String}
    (hnames : ∀ entry ∈ mathAliases, entry.2 ∉ names) (h : ∀ x ∈ u.heads, x.Avoids names) :
    ∀ x ∈ u.genericMathNames.1.heads, x.Avoids names := by
  refine forall_heads_genericMathNames fun item hitem => ?_
  refine item.forall_head_toGenericMath (forall_heads.1 h item hitem) (fun h _ => h) ?_
  rintro x hx name generic hname hgeneric _ ⟨⟩
  split
  · exact hnames (name, generic) (mem_of_lookup_eq_some hgeneric)
  · exact hx name hname

theorem functionAvoids_genericMathNames {names : List String}
    (hnames : ∀ entry ∈ mathAliases, entry.2 ∉ names)
    (h : ∀ x ∈ u.heads, x.FunctionAvoids names) :
    ∀ x ∈ u.genericMathNames.1.heads, x.FunctionAvoids names := by
  refine forall_heads_genericMathNames fun item hitem => ?_
  refine item.forall_head_toGenericMath (forall_heads.1 h item hitem) (fun h _ => h) ?_
  rintro x - name generic - hgeneric hfunction _ ⟨⟩
  have hfunction : x.isFunction = true := hfunction
  rw [if_pos hfunction]
  exact hnames (name, generic) (mem_of_lookup_eq_some hgeneric)

theorem keepsConversions_genericMathNames (h : ∀ x ∈ u.heads, x.KeepsConversions) :
    ∀ x ∈ u.genericMathNames.1.heads, x.KeepsConversions :=
  functionAvoids_genericMathNames (by decide) h

end SourceUnit

theorem nodup_keepFirstPrototypes (seen : List String) (items : List Item) :
    ((keepFirstPrototypes seen items).filterMap Item.genericPrototype?).Nodup ∧
      ∀ name ∈ (keepFirstPrototypes seen items).filterMap Item.genericPrototype?,
        name ∉ seen := by
  induction items generalizing seen with
  | nil => exact ⟨List.nodup_nil, List.forall_mem_nil _⟩
  | cons item rest ih =>
    unfold keepFirstPrototypes
    split
    · next hnone =>
      rw [List.filterMap_cons_none hnone]
      exact ih seen
    · next name hname =>
      split
      · exact ih seen
      · next hseen =>
        obtain ⟨hnodup, hrest⟩ := ih (name :: seen)
        rw [List.filterMap_cons_some hname]
        refine ⟨List.nodup_cons.2 ⟨fun hmem => hrest name hmem List.mem_cons_self, hnodup⟩, ?_⟩
        refine List.forall_mem_cons.2 ⟨by simpa using hseen, fun other hother hmem => ?_⟩
        exact hrest other hother (List.mem_cons_of_mem _ hmem)

theorem SourceUnit.nodup_prototypes_genericMathNames (u : SourceUnit) :
    (u.genericMathNames.1.heads.filterMap ItemHead.prototype?).Nodup := by
  change (((mapBodies Block.toGenericCalls _).1.map Item.head).filterMap _).Nodup
  rw [map_head_mapBodies, ← filterMap_genericPrototype?]
  exact (nodup_keepFirstPrototypes [] _).1

/-- Each pass but the one for math names only renames items, drops some and adds some. Copies of
functions are static where these are, which by then they are not. -/
theorem Pass.apply_headsFollow {pass : Pass} (hpass : pass ≠ .mathNames) (context : PassContext)
    {u : SourceUnit} (hpromoted : pass = .recursion → ∀ x ∈ u.heads, x.IsPromoted) :
    Ensures (pass.apply context u) fun result => HeadsFollow u.heads result.1.heads := by
  cases pass with
  | spelling => exact ensures_pure (.of_eq u.heads_respell)
  | errorCalls => exact ensures_pure u.removeErrorCalls_headsFollow
  | mathNames => exact absurd rfl hpass
  | staticStorage => exact ensures_map (u.promoteStatics_headsFollow context.baseName)
  | castCalls => exact ensures_pure (.of_eq u.heads_castsToCalls)
  | absIdiom | oddIdiom => exact ensures_pure (.of_eq (u.heads_foldIdiom _ _))
  | jumps => exact ensures_map fun result h => .of_eq (u.heads_eliminateJumps result h)
  | loops => exact ensures_map fun result h => .of_eq (u.heads_boundLoops context.pool result h)
  | recursion =>
    refine ensures_pure (SourceUnit.unrollRecursion_headsFollow fun f hf => ?_)
    have hhead := SourceUnit.forall_heads.1 (hpromoted rfl) _ (SourceUnit.mem_funcs.1 hf)
    exact Bool.eq_false_iff.2 fun hstatic => by cases (hhead hstatic).1
  | coefficientArrays => exact ensures_map u.specializeHelpers_headsFollow
  | coercions => exact ensures_pure (.of_eq u.heads_coerced)

end MathKernel
