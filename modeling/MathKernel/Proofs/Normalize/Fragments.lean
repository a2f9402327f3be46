import MathKernel.Normalize.Pipeline
import MathKernel.Proofs.Syntax.Fragments

/-!
# Passes between fragments

Each pass takes the units of a fragment to units of a fragment: the same one, without what the
pass removes. What a pass writes itself, a few numbers and called names, has to be permitted.

## Main definitions

* `Fragment.Permits` — the fragment has what passes write
* `SourceUnit.IsIn` — units of a fragment

## Main results

* `SourceUnit.removeErrorCalls_isIn`, …, `SourceUnit.promoteStatics_isIn` — the passes that come
  before the rebuilding of statements
-/

namespace MathKernel

theorem mem_of_lookup_eq_some {α : Type} {entries : List (String × α)} {name : String} {a : α}
    (h : entries.lookup name = some a) : (name, a) ∈ entries := by
  obtain ⟨before, after, hsplit, -⟩ := List.lookup_eq_some_iff.1 h
  rw [hsplit]
  simp

/-! ### Coined names -/

/-- The names that passes call, apart from those they make up with an underscore. -/
def coinedNames : List String :=
  [ScalarType.int.cName, ScalarType.float.cName, ScalarType.bool.cName, remainderFunction, "abs"] ++
    mathAliases.map Prod.snd

/-- Whether a pass may write a call of the name. -/
def IsCoined (name : String) : Prop :=
  name ∈ coinedNames ∨ '_' ∈ name.toList

theorem isCoined_cName {type : ScalarType} (h : type ≠ .void) : IsCoined type.cName := by
  cases type with
  | void => exact absurd rfl h
  | int | float | bool => exact .inl (by simp [coinedNames])

theorem isCoined_genericMath? {name generic : String} (h : genericMath? name = some generic) :
    IsCoined generic := by
  have hmem : (name, generic) ∈ mathAliases := mem_of_lookup_eq_some h
  exact .inl (List.mem_append_right _ (List.mem_map.2 ⟨_, hmem, rfl⟩))

/-- A generic name stands for itself. -/
theorem genericMath?_generic {name generic : String} (h : genericMath? name = some generic) :
    genericMath? generic = some generic := by
  have hfixed : ∀ entry ∈ mathAliases, genericMath? entry.2 = some entry.2 := by decide
  exact hfixed (name, generic) (mem_of_lookup_eq_some h)

theorem isCoined_variantName (helper : String) (n : Nat) : IsCoined (variantName helper n) :=
  .inr (by simp [variantName])

theorem exists_nameVariant (separator : String) (taken : List String) (stem : String) :
    ∃ n, freshName separator taken stem = nameVariant separator stem n := by
  unfold freshName
  cases h : ((List.range (taken.length + 1)).map (nameVariant separator stem)).find?
      (fun name => !taken.contains name) with
  | none => exact ⟨0, rfl⟩
  | some name =>
    obtain ⟨n, -, hn⟩ := List.mem_map.1 (List.mem_of_find?_eq_some h)
    exact ⟨n, hn.symm⟩

theorem mem_toList_freshName {separator : String} {taken : List String} {stem : String} {c : Char}
    (h : c ∈ stem.toList) : c ∈ (freshName separator taken stem).toList := by
  obtain ⟨n, hn⟩ := exists_nameVariant separator taken stem
  rw [hn, nameVariant]
  split
  · exact h
  · simp [h]

/-! ### Units -/

/-- The fragment has the numbers and called names that passes write. -/
structure Fragment.Permits (F : Fragment) : Prop where
  int : ∀ n : Int, F.literal ⟨.int, toString n⟩
  float : ∀ n : Int, F.literal ⟨.float, toString n ++ ".0"⟩
  callee : ∀ name, IsCoined name → F.callee name

/-- The fragment for file-level declarations, in which calls stay as they are. -/
def Fragment.anyCallee (F : Fragment) : Fragment :=
  { F with callee := fun _ => True }

/-- The item is one of the fragment. -/
def Item.IsIn (F : Fragment) : Item → Prop
  | decl d => d.IsIn F.anyCallee
  | func f => (F.spellings ∨ Declarator.IsSpelled f.decl.type) ∧ f.body.IsIn F

/-- The unit is one of the fragment. -/
def SourceUnit.IsIn (F : Fragment) (u : SourceUnit) : Prop :=
  ∀ item ∈ u.items, item.IsIn F

theorem Expr.IsIn.imp {F F' : Fragment} (hnode : ∀ e, F.node e → F'.node e) {e : Expr}
    (h : e.IsIn F) : e.IsIn F' :=
  Everywhere.imp h hnode

theorem Fragment.Frame.refl (F : Fragment) : F.Frame F :=
  ⟨fun h => h, fun h => h, fun h => h, fun h => h, fun _ _ h => h⟩

theorem Decl.IsIn.mono {F F' : Fragment} (hspellings : F.spellings → F'.spellings)
    (hnode : ∀ e, F.node e → F'.node e) {d : Decl} (h : d.IsIn F) : d.IsIn F' where
  spelled := h.spelled.imp_left hspellings
  exprs e he := (h.exprs e he).imp hnode

/-- A body of a fragment is one of a larger fragment. -/
theorem Block.IsIn.mono {F F' : Fragment} (hframe : F.Frame F')
    (hnode : ∀ e, F.node e → F'.node e) {b : Block} (h : b.IsIn F) : b.IsIn F' := by
  -- The walk that changes nothing leads from one fragment to the other.
  have hwalk := Block.mapExprsM_isIn (m := Id) (f := pure) hframe
    (fun e he => ensures_pure (he.imp hnode)) h
  have hitems := Stmt.mapExprsListM_eq_pure (m := Id) (f := pure) b.items fun _ _ _ _ => rfl
  rw [Block.mapExprsM, hitems] at hwalk
  exact hwalk

section Top

/-- All of the language. -/
def Fragment.whole : Fragment where
  gotos := True
  labels := True
  openLoops := True
  casts := True
  spellings := True
  literal _ := True
  callee _ := True
  item _ _ := True

theorem Fragment.permits_whole : Fragment.whole.Permits :=
  ⟨fun _ => trivial, fun _ => trivial, fun _ _ => trivial⟩

theorem Expr.isIn_whole (e : Expr) : e.IsIn .whole := by
  intro s _
  cases s <;> exact trivial

theorem Decl.isIn_whole (d : Decl) : d.IsIn .whole :=
  ⟨.inl trivial, fun e _ => e.isIn_whole⟩

namespace Stmt

variable {F : Fragment}

theorem isItemIn_of_frame (hframe : Fragment.whole.Frame F) (s : Stmt) : s.IsItemIn F := by
  cases s with
  | decl d c => exact hframe.item _ _ trivial
  | _ => exact trivial

mutual

/-- Where a fragment restricts only expressions, a statement is of it if its expressions are. -/
theorem isIn_of_ownExprs (hframe : Fragment.whole.Frame F) (s : Stmt)
    (h : ∀ x ∈ s.substmts, ∀ e ∈ x.ownExprs, e.IsIn F) : s.IsIn F := by
  have hown : ∀ e ∈ s.ownExprs, e.IsIn F := h s (by cases s <;> simp [substmts])
  cases s with
  | decl d c => exact ⟨.inl (hframe.spellings trivial), hown⟩
  | block items b c =>
    exact areIn_of_ownExprs hframe items fun x hx => h x (List.mem_cons_of_mem _ hx)
  | expr e c => exact hown e List.mem_cons_self
  | ifThen p t c =>
    exact ⟨hown p List.mem_cons_self,
      isIn_of_ownExprs hframe t fun x hx => h x (List.mem_cons_of_mem _ hx)⟩
  | ifElse p t e c =>
    refine ⟨hown p List.mem_cons_self, isIn_of_ownExprs hframe t fun x hx => ?_,
      isIn_of_ownExprs hframe e fun x hx => ?_⟩
    · exact h x (List.mem_cons_of_mem _ (List.mem_append_left _ hx))
    · exact h x (List.mem_cons_of_mem _ (List.mem_append_right _ hx))
  | forLoop init cond next body c =>
    obtain ⟨hinner, hnext⟩ := List.forall_mem_append.1 hown
    obtain ⟨hinit, hcond⟩ := List.forall_mem_append.1 hinner
    refine ⟨fun i hi => ?_, fun e he => hcond e (Option.mem_toList.2 he),
      fun e he => hnext e (Option.mem_toList.2 he),
      isIn_of_ownExprs hframe body fun x hx => h x (List.mem_cons_of_mem _ hx)⟩
    have hroots (e : Expr) (he : e ∈ i.rootExprs) : e.IsIn F :=
      hinit e (List.mem_flatMap.2 ⟨i, Option.mem_toList.2 hi, he⟩)
    cases i with
    | decls ds =>
      exact fun d hd => ⟨.inl (hframe.spellings trivial), fun e he =>
        hroots e (List.mem_flatMap.2 ⟨d, hd, he⟩)⟩
    | expr e => exact hroots e List.mem_cons_self
  | whileLoop p body c | doWhile p body c =>
    exact ⟨hframe.openLoops trivial, hown p List.mem_cons_self,
      isIn_of_ownExprs hframe body fun x hx => h x (List.mem_cons_of_mem _ hx)⟩
  | ret value c => exact fun e he => hown e (Option.mem_toList.2 he)
  | label n s c =>
    exact ⟨hframe.labels trivial,
      isIn_of_ownExprs hframe s fun x hx => h x (List.mem_cons_of_mem _ hx)⟩
  | goto l c => exact hframe.gotos trivial
  | brk | cont | empty => exact trivial

theorem areIn_of_ownExprs (hframe : Fragment.whole.Frame F) (items : List Stmt)
    (h : ∀ x ∈ substmtsList items, ∀ e ∈ x.ownExprs, e.IsIn F) : AreIn F items := by
  cases items with
  | nil => exact trivial
  | cons s rest =>
    exact ⟨isItemIn_of_frame hframe s,
      isIn_of_ownExprs hframe s fun x hx => h x (List.mem_append_left _ hx),
      areIn_of_ownExprs hframe rest fun x hx => h x (List.mem_append_right _ hx)⟩

end

end Stmt

/-- Where a fragment restricts only expressions, a body is of it if each of its expressions may
occur. -/
theorem Block.isIn_of_exprs {F : Fragment} (hframe : Fragment.whole.Frame F) {b : Block}
    (h : ∀ e ∈ b.exprs, F.node e) : b.IsIn F := by
  refine Stmt.areIn_of_ownExprs hframe b.items fun x hx root hroot s hs => h s ?_
  exact List.mem_flatMap.2 ⟨x, hx, List.mem_flatMap.2 ⟨root, hroot, hs⟩⟩

theorem Block.isIn_whole (b : Block) : b.IsIn .whole :=
  Stmt.areIn_of_ownExprs (.refl _) b.items fun _ _ e _ => e.isIn_whole

theorem SourceUnit.isIn_whole (u : SourceUnit) : u.IsIn .whole := by
  intro item _
  cases item with
  | decl d => exact d.isIn_whole
  | func f => exact ⟨.inl trivial, f.body.isIn_whole⟩

end Top

/-! ### Rewriting of single expressions -/

section Replace

variable {F F' : Fragment} {g : Expr → Option Expr}

/-- A rewriting step leads into a fragment if what it writes is in it and what it leaves may
occur. -/
theorem replace_isIn {e : Expr} (hparts : ∀ part ∈ e.parts, part.IsIn F')
    (hsome : ∀ e', g e = some e' → e'.IsIn F') (hnone : g e = none → F'.node e) :
    Ensures (Counted.replace g e) (Expr.IsIn F') := by
  change (Counted.replace g e).value.IsIn F'
  unfold Counted.replace
  cases h : g e with
  | none => exact Expr.isIn_iff.2 ⟨hnone h, hparts⟩
  | some e' => exact hsome e' h

end Replace

/-! ### Bodies of all functions -/

/-- A change of bodies between fragments that differ in nothing else at file level. -/
theorem isIn_mapBodies (F F' : Fragment) {f : Block → Block × Tally}
    (hspellings : F.spellings → F'.spellings)
    (hnode : ∀ e, F.anyCallee.node e → F'.anyCallee.node e)
    (hf : ∀ b : Block, b.IsIn F → (f b).1.IsIn F') {items : List Item}
    (h : ∀ item ∈ items, item.IsIn F) : ∀ item ∈ (mapBodies f items).1, item.IsIn F' := by
  induction items with
  | nil => simp [mapBodies]
  | cons item rest ih =>
    obtain ⟨hitem, hrest⟩ := List.forall_mem_cons.1 h
    cases item with
    | decl d =>
      have hd : d.IsIn F'.anyCallee :=
        @Decl.IsIn.mono F.anyCallee F'.anyCallee hspellings hnode d hitem
      exact List.forall_mem_cons.2 ⟨hd, ih hrest⟩
    | func g =>
      exact List.forall_mem_cons.2
        ⟨⟨hitem.1.imp_left hspellings, hf g.body hitem.2⟩, ih hrest⟩

/-- The fragment with fewer called names. -/
def Fragment.calling (F : Fragment) (p : String → Prop) : Fragment :=
  { F with callee := fun name => F.callee name ∧ p name }

/-- The fragment with fewer declarations among the items of blocks. -/
def Fragment.declaring (F : Fragment) (p : Option String → Bool → Prop) : Fragment :=
  { F with item := fun name isStatic => F.item name isStatic ∧ p name isStatic }

theorem Fragment.frame_calling (F : Fragment) (p : String → Prop) : F.Frame (F.calling p) :=
  ⟨fun h => h, fun h => h, fun h => h, fun h => h, fun _ _ h => h⟩

/-! ### Error reports -/

/-- Without calls and declarations of the error routine. -/
def Fragment.withoutErrors (F : Fragment) : Fragment :=
  (F.declaring fun name _ => name ≠ some errorRoutine).calling (· ≠ errorRoutine)

theorem Block.dropErrorReports_isIn {F : Fragment} {b : Block} (h : b.IsIn F) :
    (b.mapBlocksM Block.dropErrorReports).value.IsIn
      (F.declaring fun name _ => name ≠ some errorRoutine) := by
  refine Block.mapBlocksM_isIn (m := Counted) (fun b hb => ?_) h
  refine Stmt.areIn_iff.2 fun s hs => ?_
  obtain ⟨hs, hkept⟩ := List.mem_filter.1 hs
  obtain ⟨hitem, hin⟩ := hb s hs
  refine ⟨?_, hin⟩
  cases s with
  | decl d c => exact ⟨hitem, by simpa [Stmt.isErrorReport] using hkept⟩
  | _ => exact trivial

theorem Expr.errorCode?_eq_none {e : Expr} (h : e.errorCode? = none) :
    e.callee? ≠ some errorRoutine := by
  rintro hcallee
  cases e with
  | call callee args c =>
    simp only [Expr.errorCode?, Option.some.inj hcallee, if_true] at h
    split at h <;> cases h
  | _ => cases hcallee

theorem Expr.isIn_errorCode? {F : Fragment} (hF : F.literal ⟨.int, toString (0 : Int)⟩)
    {e e' : Expr} (h : e.errorCode? = some e') (hparts : ∀ part ∈ e.parts, part.IsIn F) :
    e'.IsIn F := by
  cases e with
  | call callee args c =>
    simp only [Expr.errorCode?] at h
    split at h
    · split at h
      · cases h
        exact hparts _ (by simp [Expr.parts])
      · cases h
        exact Expr.isIn_literal.2 hF
    · cases h
  | _ => cases h

theorem Block.removeErrorCalls_isIn {F : Fragment} (hF : F.Permits) {b : Block} (h : b.IsIn F) :
    b.removeErrorCalls.1.IsIn F.withoutErrors := by
  refine Block.bottomUpM_isIn (m := Counted) (Fragment.frame_calling _ _) (fun e he hparts => ?_)
    (Block.dropErrorReports_isIn h)
  refine replace_isIn hparts
    (fun e' h => Expr.isIn_errorCode? (F := F.withoutErrors) (hF.int 0) h hparts) fun hnone => ?_
  have hcallee := Expr.errorCode?_eq_none hnone
  cases e with
  | call callee args c => exact ⟨he, fun heq => hcallee (congrArg some heq)⟩
  | _ => exact he

theorem SourceUnit.removeErrorCalls_isIn {F : Fragment} (hF : F.Permits) {u : SourceUnit}
    (h : u.IsIn F) : u.removeErrorCalls.1.IsIn F.withoutErrors := by
  intro item hitem
  refine isIn_mapBodies F F.withoutErrors (fun h => h) (fun e h => ?_)
    (fun b => Block.removeErrorCalls_isIn hF)
    (fun item hitem => h item (List.mem_filter.1 hitem).1) item hitem
  cases e <;> exact h

/-! ### Math functions -/

/-- Whether a name is no other name of a generic math function. -/
def IsGenericName (name : String) : Prop :=
  ∀ generic, genericMath? name = some generic → generic = name

theorem Declarator.isSpelled_mapElement {f : ElementType → ElementType}
    (hnames : ∀ t, (f t).names = t.names) (hscalar : ∀ t, (f t).scalar = t.scalar)
    {t : Declarator Decl} (h : Declarator.IsSpelled t) : Declarator.IsSpelled (t.mapElement f) := by
  induction t with
  | element t =>
    simp only [Declarator.mapElement, Declarator.IsSpelled] at h ⊢
    rw [hnames, hscalar, h]
  | function params result c ih =>
    simp only [Declarator.mapElement, Declarator.IsSpelled] at h ⊢
    exact ⟨h.1, ih h.2⟩
  | array item size c ih =>
    simp only [Declarator.mapElement, Declarator.IsSpelled] at h ⊢
    exact ih h

theorem Decl.isSpelled_rename {d : Decl} (h : Declarator.IsSpelled d.type) (name : String) :
    Declarator.IsSpelled (d.rename name).type :=
  Declarator.isSpelled_mapElement (f := fun t => { t with declName := some name })
    (fun _ => rfl) (fun _ => rfl) h

theorem Decl.rootExprs_rename (d : Decl) (name : String) :
    (d.rename name).rootExprs = d.rootExprs := by
  obtain ⟨n, quals, storage, type, init, c⟩ := d
  cases type <;> rfl

theorem Decl.IsIn.rename {F : Fragment} {d : Decl} (h : d.IsIn F) (name : String) :
    (d.rename name).IsIn F where
  spelled := h.spelled.imp_right fun h => Decl.isSpelled_rename h name
  exprs := by
    rw [Decl.rootExprs_rename]
    exact h.exprs

/-- A definition that shrinks to a prototype shows the size of its declarator, which a function
does not have. -/
theorem FuncDef.prototype_isIn {F : Fragment} {f : FuncDef} (h : Item.IsIn F (.func f))
    (hsize : ∀ e ∈ f.decl.size?, e.IsIn F.anyCallee) : f.prototype.IsIn F.anyCallee where
  spelled := h.1
  exprs e he := by
    rcases List.mem_append.1 he with he | he
    · exact hsize e (Option.mem_toList.1 he)
    · cases he

theorem Item.toGenericMath_isIn {F : Fragment} {item : Item} (h : item.IsIn F)
    (hsize : ∀ f, item = .func f → ∀ e ∈ f.decl.size?, e.IsIn F.anyCallee) :
    item.toGenericMath.1.IsIn F := by
  unfold Item.toGenericMath
  cases item.name?.bind genericMath? with
  | none => exact h
  | some generic =>
    cases item with
    | decl d =>
      have hd : d.IsIn F.anyCallee := h
      dsimp only
      split
      · exact hd.rename generic
      · exact hd
    | func f =>
      have hprototype := FuncDef.prototype_isIn h (hsize f rfl)
      dsimp only
      split
      · exact hprototype.rename generic
      · exact hprototype

theorem keepFirstPrototypes_sublist (seen : List String) (items : List Item) :
    (keepFirstPrototypes seen items).Sublist items := by
  induction items generalizing seen with
  | nil => exact .slnil
  | cons first rest ih =>
    unfold keepFirstPrototypes
    split
    · exact (ih seen).cons_cons first
    · split
      · exact (ih seen).cons first
      · exact (ih _).cons_cons first

theorem Block.toGenericCalls_isIn {F : Fragment} (hF : F.Permits) {b : Block} (h : b.IsIn F) :
    b.toGenericCalls.1.IsIn (F.calling IsGenericName) := by
  refine Block.bottomUpM_isIn (m := Counted) (F.frame_calling _) (fun e he hparts => ?_) h
  refine replace_isIn hparts (fun e' h => ?_) fun hnone => ?_
  · cases e with
    | call callee args c =>
      simp only [Expr.toGenericCall?] at h
      split at h
      · next generic hgeneric =>
        split at h
        · cases h
        · cases h
          have hself := genericMath?_generic hgeneric
          refine Expr.isIn_call.2 ⟨⟨hF.callee _ (isCoined_genericMath? hgeneric), ?_⟩, hparts⟩
          exact fun other hother => Option.some.inj (hother.symm.trans hself)
      · cases h
    | _ => cases h
  · cases e with
    | call callee args c =>
      refine ⟨he, fun generic hgeneric => ?_⟩
      simp only [Expr.toGenericCall?, hgeneric] at hnone
      by_contra hne
      rw [if_neg (Ne.symm hne)] at hnone
      cases hnone
    | _ => exact he

theorem SourceUnit.genericMathNames_isIn {F : Fragment} (hF : F.Permits) {u : SourceUnit}
    (h : u.IsIn F) (hsize : ∀ f, .func f ∈ u.items → ∀ e ∈ f.decl.size?, e.IsIn F.anyCallee) :
    u.genericMathNames.1.IsIn (F.calling IsGenericName) := by
  intro item hitem
  refine isIn_mapBodies F (F.calling IsGenericName) (fun h => h) (fun e h => ?_)
    (fun b => Block.toGenericCalls_isIn hF) (fun item hitem => ?_) item hitem
  · cases e <;> exact h
  · have hitem := (keepFirstPrototypes_sublist _ _).subset hitem
    obtain ⟨renamed, hrenamed, rfl⟩ := List.mem_map.1 hitem
    obtain ⟨original, horiginal, rfl⟩ := List.mem_map.1 hrenamed
    exact Item.toGenericMath_isIn (h original horiginal) fun f hf => hsize f (hf ▸ horiginal)

/-! ### Casts -/

/-- Without casts. -/
def Fragment.withoutCasts (F : Fragment) : Fragment :=
  { F with casts := False }

theorem Expr.castCall_isIn {F : Fragment}
    (hcallee : ∀ type : ScalarType, type ≠ .void → F.callee type.cName) {e : Expr} (h : e.IsIn F) :
    (e.bottomUpM (Counted.replace Expr.castCall?)).value.IsIn F.withoutCasts := by
  refine Expr.bottomUpM_isIn (m := Counted) (F := F) (fun e he hparts => ?_) h
  refine replace_isIn hparts (fun e' h => ?_) fun hnone => ?_
  · cases e with
    | cast type operand c =>
      have hoperand := hparts operand (by simp [Expr.parts])
      cases type with
      | void =>
        cases h
        exact hoperand
      | int | float | bool =>
        cases h
        exact Expr.isIn_call.2 ⟨hcallee _ (by simp), by simpa using hoperand⟩
    | _ => cases h
  · cases e with
    | cast type operand c => cases type <;> cases hnone
    | _ => exact he

/-- Items that are mapped one by one. -/
theorem SourceUnit.mapItemsM_isIn {m : Type → Type} [Monad m] [LawfulMonad m] [EnsuresMonad m]
    {F F' : Fragment} {f : Item → m Item}
    (hf : ∀ item, item.IsIn F → Ensures (f item) (Item.IsIn F')) {u : SourceUnit} (h : u.IsIn F) :
    Ensures (u.mapItemsM f) (SourceUnit.IsIn F') := by
  have hitems := ensures_mapM (R := fun _ => Item.IsIn F') u.items fun item hitem =>
    hf item (h item hitem)
  refine ensures_bind hitems fun items hall => ensures_pure ?_
  exact forall_of_forall₂ hall fun _ _ _ hitem => hitem

theorem SourceUnit.castsToCalls_isIn {F : Fragment} (hF : F.Permits) {u : SourceUnit}
    (h : u.IsIn F) : u.castsToCalls.1.IsIn F.withoutCasts := by
  refine SourceUnit.mapItemsM_isIn (m := Counted) (fun item hitem => ?_) h
  have hframe (F : Fragment) : F.Frame F.withoutCasts :=
    ⟨fun h => h, fun h => h, fun h => h, fun h => h, fun _ _ h => h⟩
  cases item with
  | decl d =>
    have hd := Decl.mapExprsM_isIn (m := Counted) (hframe F.anyCallee)
      (fun e he => Expr.castCall_isIn (fun _ _ => trivial) he) hitem
    exact hd.1
  | func f =>
    have hbody := Block.mapExprsM_isIn (m := Counted) (hframe F)
      (fun e he => Expr.castCall_isIn (fun type h => hF.callee _ (isCoined_cName h)) he) hitem.2
    exact ⟨hitem.1, hbody⟩

/-! ### Idioms -/

theorem SourceUnit.foldIdiom_isIn {F : Fragment} {operand? : Expr → Option Expr}
    (hoperand : ∀ e x, operand? e = some x → ∀ F : Fragment, e.IsIn F → x.IsIn F) {callee : String}
    (hcallee : F.callee callee) {u : SourceUnit} (h : u.IsIn F) :
    (u.foldIdiom operand? callee).1.IsIn F := by
  intro item hitem
  refine isIn_mapBodies F F (fun h => h) (fun e h => h) (fun b hb => ?_) h item hitem
  refine Block.bottomUpM_isIn (m := Counted) (F := F) (.refl F) (fun e he hparts => ?_) hb
  refine replace_isIn hparts (fun e' h => ?_) fun _ => he
  obtain ⟨x, hx, rfl⟩ := Option.map_eq_some_iff.1 h
  have hx := hoperand e x hx F (Expr.isIn_iff.2 ⟨he, hparts⟩)
  exact Expr.isIn_call.2 ⟨hcallee, by simpa using hx⟩

theorem Expr.isIn_absOperand? {e x : Expr} (h : e.absOperand? = some x) {F : Fragment}
    (he : e.IsIn F) : x.IsIn F := by
  cases e with
  | ternary p t e c =>
    cases p with
    | binary op y zero c' =>
      simp only [Expr.absOperand?, Option.ite_none_left_eq_some, Option.ite_none_right_eq_some,
        Option.some.injEq] at h
      obtain ⟨-, -, rfl⟩ := h
      exact (Expr.isIn_binary.1 (Expr.isIn_ternary.1 he).1).1
    | _ => cases h
  | _ => cases h

theorem Expr.isIn_oddOperand? {e x : Expr} (h : e.oddOperand? = some x) {F : Fragment}
    (he : e.IsIn F) : x.IsIn F := by
  cases e with
  | binary op l r c =>
    have hparts := Expr.isIn_binary.1 he
    cases op with
    | bitAnd =>
      simp only [Expr.oddOperand?] at h
      split at h
      · cases h
        exact hparts.1
      · split at h
        · cases h
          exact hparts.2
        · cases h
    | _ => cases h
  | _ => cases h

/-! ### Static variables -/

/-- Without static variables among the items of blocks. -/
def Fragment.withoutStatics (F : Fragment) : Fragment :=
  F.declaring fun _ isStatic => isStatic = false

theorem Expr.renameIds_isIn {F : Fragment} (renames : Renames) (hidden : List String) {e : Expr}
    (h : e.IsIn F) : (e.renameIds renames hidden).value.IsIn F := by
  refine Expr.bottomUpM_isIn (m := Counted) (F := F) (fun e he hparts => ?_) h
  refine replace_isIn hparts (fun e' h => ?_) fun _ => he
  cases e with
  | id name c =>
    simp only [Renames.lookup?] at h
    split at h
    · cases h
    · obtain ⟨new, -, rfl⟩ := Option.map_eq_some_iff.1 h
      exact Expr.isIn_id
  | _ => cases h

theorem Decl.renameIds_isIn {F : Fragment} (renames : Renames) {d : Decl} (h : d.IsIn F) :
    (d.renameIds renames).value.IsIn F := by
  have hd := Decl.mapExprsM_isIn (m := Counted) (.refl F)
    (fun e he => Expr.renameIds_isIn renames [] he) h
  exact hd.1

theorem Block.renameIds_isIn {F : Fragment} (renames : Renames) (params : List String) {b : Block}
    (h : b.IsIn F) : (b.renameIds renames params).value.IsIn F :=
  have hvisit (hidden : List String) (e : Expr) (he : e.IsIn F) :
      Ensures (Expr.renameIds renames hidden e) (Expr.IsIn F) :=
    Expr.renameIds_isIn renames hidden he
  Stmt.mapScopedListM_isIn (.refl F) hvisit params b.items h

theorem Decl.IsIn.dropStatic {F : Fragment} {d : Decl} (h : d.IsIn F) : d.dropStatic.IsIn F :=
  ⟨h.spelled, h.exprs⟩

theorem Decl.IsIn.promote {F : Fragment} {d : Decl} (h : d.IsIn F) (name : String) :
    (d.promote name).IsIn F :=
  (h.rename name).dropStatic

theorem Item.promoteGlobal_isIn {F : Fragment} (unit : String) (p : Promotion) {item : Item}
    (h : item.IsIn F) : (item.promoteGlobal unit p).1.IsIn F := by
  cases item with
  | decl d =>
    have hd : d.IsIn F.anyCallee := h
    simp only [Item.promoteGlobal]
    by_cases hvariable : d.isStaticVariable = true
    · rw [if_pos hvariable]
      cases d.name with
      | none => exact hd
      | some old => exact hd.promote _
    · rw [if_neg hvariable]
      split
      · exact hd.dropStatic
      · exact hd
  | func f =>
    simp only [Item.promoteGlobal]
    split
    · exact h
    · exact h

theorem promoteGlobals_isIn {F : Fragment} (unit : String) (p : Promotion) {items : List Item}
    (h : ∀ item ∈ items, item.IsIn F) : ∀ item ∈ (promoteGlobals unit p items).1, item.IsIn F := by
  induction items generalizing p with
  | nil => exact h
  | cons item rest ih =>
    obtain ⟨hitem, hrest⟩ := List.forall_mem_cons.1 h
    exact List.forall_mem_cons.2 ⟨Item.promoteGlobal_isIn unit p hitem, ih _ hrest⟩

/-- The statics that are taken out of a body, and what is left of it. -/
theorem Block.takeStatics_isIn {F : Fragment} {b : Block} (h : b.IsIn F) :
    ((b.mapBlocksM Block.takeStatics).run []).1.IsIn F.withoutStatics ∧
      ∀ d ∈ ((b.mapBlocksM Block.takeStatics).run []).2, d.IsIn F := by
  -- All statics found so far are of the fragment.
  let _ : EnsuresMonad (StateT (List Decl) Id) := .keeping fun found => ∀ d ∈ found, d.IsIn F
  refine Block.mapBlocksM_isIn (m := StateT (List Decl) Id) (fun b hb found hfound => ?_) h []
    (by simp)
  refine ⟨Stmt.areIn_iff.2 fun s hs => ?_, fun d hd => ?_⟩
  · obtain ⟨hs, hkept⟩ := List.mem_filter.1 hs
    obtain ⟨hitem, hin⟩ := hb s hs
    refine ⟨?_, hin⟩
    cases s with
    | decl d c =>
      refine ⟨hitem, ?_⟩
      by_contra hstatic
      simp [Stmt.staticVariable?, hstatic] at hkept
    | _ => exact trivial
  · rcases List.mem_append.1 hd with hd | hd
    · exact hfound d hd
    · obtain ⟨s, hs, hd⟩ := List.mem_filterMap.1 hd
      have hin := (hb s hs).2
      cases s with
      | decl d' c =>
        simp only [Stmt.staticVariable?] at hd
        split at hd
        · cases hd
          exact ⟨hin.spelled, hin.exprs⟩
        · cases hd
      | _ => cases hd

theorem hoistStatics_isIn {F : Fragment} (unit function : String) (p : Promotion)
    {ds : List Decl} (h : ∀ d ∈ ds, d.IsIn F) :
    ∀ d ∈ (hoistStatics unit function p ds).1, d.IsIn F := by
  induction ds generalizing p with
  | nil => exact h
  | cons d rest ih =>
    obtain ⟨hd, hrest⟩ := List.forall_mem_cons.1 h
    unfold hoistStatics
    split
    · exact ih p hrest
    · exact List.forall_mem_cons.2 ⟨(Decl.renameIds_isIn p.renames hd).promote _, ih _ hrest⟩

theorem Decl.IsIn.anyCallee {F : Fragment} {d : Decl} (h : d.IsIn F) : d.IsIn F.anyCallee := by
  refine @Decl.IsIn.mono F F.anyCallee (fun h => h) (fun e he => ?_) d h
  cases e <;> first | exact he | exact trivial

/-- What a promotion gives where it does not fail. -/
theorem FuncDef.promoteStatics_eq_ok {unit : String} {p : Promotion} {f : FuncDef}
    {result : List Item × Promotion × Tally} (h : f.promoteStatics unit p = .ok result) :
    let found := (f.body.mapBlocksM Block.takeStatics).run []
    let hoisting := hoistStatics unit f.name p found.2
    let renamed := found.1.renameIds hoisting.2.1.renames f.paramNames
    result = (hoisting.1.map Item.decl ++ [.func { f with body := renamed.value }],
      { hoisting.2.1 with renames := p.renames },
      hoisting.2.2 + .ofChanged renamed.count) := by
  unfold FuncDef.promoteStatics at h
  generalize (f.body.mapBlocksM Block.takeStatics).run [] = found at h ⊢
  obtain ⟨body, statics⟩ := found
  dsimp only at h ⊢
  generalize hoistStatics unit f.name p statics = hoisting at h ⊢
  obtain ⟨hoisted, last, tally⟩ := hoisting
  dsimp only at h ⊢
  split at h
  · cases h
  · exact (Except.ok.inj h).symm

theorem FuncDef.promoteStatics_isIn {F : Fragment} (unit : String) (p : Promotion) {f : FuncDef}
    (h : Item.IsIn F (.func f)) :
    Ensures (f.promoteStatics unit p) fun result =>
      ∀ item ∈ result.1, item.IsIn F.withoutStatics := by
  obtain ⟨hbody, hstatics⟩ := Block.takeStatics_isIn h.2
  intro result hresult item hitem
  rw [FuncDef.promoteStatics_eq_ok hresult] at hitem
  rcases List.mem_append.1 hitem with hitem | hitem
  · obtain ⟨d, hd, rfl⟩ := List.mem_map.1 hitem
    have hd := (hoistStatics_isIn unit f.name p hstatics d hd).anyCallee
    exact ⟨hd.spelled, hd.exprs⟩
  · obtain rfl := List.mem_singleton.1 hitem
    exact ⟨h.1, Block.renameIds_isIn _ _ hbody⟩

theorem promoteInItems_isIn {F : Fragment} (unit : String) (p : Promotion) {items : List Item}
    (h : ∀ item ∈ items, item.IsIn F) :
    Ensures (promoteInItems unit p items) fun result =>
      ∀ item ∈ result.1, item.IsIn F.withoutStatics := by
  induction items generalizing p with
  | nil => exact ensures_pure (by simp)
  | cons item rest ih =>
    obtain ⟨hitem, hrest⟩ := List.forall_mem_cons.1 h
    cases item with
    | decl d =>
      refine ensures_bind (ih p hrest) fun result hresult => ensures_pure ?_
      have hd : (d.renameIds p.renames).value.IsIn F.anyCallee :=
        Decl.renameIds_isIn p.renames hitem
      exact List.forall_mem_cons.2 ⟨⟨hd.spelled, hd.exprs⟩, hresult⟩
    | func f =>
      refine ensures_bind (FuncDef.promoteStatics_isIn unit p hitem) fun here hhere => ?_
      refine ensures_bind (ih here.2.1 hrest) fun result hresult => ensures_pure ?_
      exact List.forall_mem_append.2 ⟨hhere, hresult⟩

theorem SourceUnit.promoteStatics_isIn {F : Fragment} (unit : String) {u : SourceUnit}
    (h : u.IsIn F) :
    Ensures (u.promoteStatics unit) fun result => result.1.IsIn F.withoutStatics :=
  ensures_bind (promoteInItems_isIn unit _ (promoteGlobals_isIn unit _ h))
    fun _ hresult => ensures_pure hresult

end MathKernel
