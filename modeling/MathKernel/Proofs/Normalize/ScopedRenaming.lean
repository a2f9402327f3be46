import MathKernel.Proofs.Syntax.References
import MathKernel.Proofs.Syntax.Walks

/-!
# Renaming keeps what names refer to

The names of a body are changed where no parameter and no local declaration hides them. The new
names are not among those of the body. So a name refers to the same declaration as before if the
new name does so outside the body.

## Main definitions

* `Renames.image` — the new name of a name
* `Scope.Mirrors` — two scopes are the same up to renaming

## Main results

* `Expr.references_renameIds` — renaming in an expression
* `Stmt.references_mapScopedM` — renaming in a statement under block scoping
-/

namespace MathKernel

/-- The name that stands for a name after renaming. -/
def Renames.image (R : Renames) (x : String) : String :=
  (R.lookup x).getD x

/-- All new names are among the given ones. -/
def Renames.Into (R : Renames) (fresh : List String) : Prop :=
  ∀ x y, R.lookup x = some y → y ∈ fresh

/-! ### Scopes -/

/-- The second scope is the first one after renaming. Hidden names keep their meanings; nothing is
said of the new names. -/
structure Scope.Mirrors (R : Renames) (fresh hidden : List String) (σ σ' : Scope) : Prop where
  kept : ∀ x ∈ hidden, σ' x = σ x
  shown : ∀ x, x ∉ hidden → x ∉ fresh → σ' (R.image x) = σ x

section Scopes

variable {R : Renames} {fresh hidden : List String} {σ σ' : Scope} {x y : String}

theorem Renames.image_of_lookup (h : R.lookup x = some y) : R.image x = y := by
  simp [image, h]

theorem Renames.image_of_none (h : R.lookup x = none) : R.image x = x := by
  simp [image, h]

/-- A name that is not new is the image of itself only. -/
theorem Renames.Into.eq_of_image (hR : R.Into fresh) (hy : y ∉ fresh) (h : R.image x = y) :
    x = y := by
  cases hx : R.lookup x with
  | none => rwa [image_of_none hx] at h
  | some z =>
    rw [image_of_lookup hx] at h
    exact absurd (h ▸ hR x z hx) hy

namespace Scope.Mirrors

/-- A name that is used in the code and not renamed. -/
theorem eq_of_none (h : Mirrors R fresh hidden σ σ') (hx : x ∉ fresh) (hnone : R.lookup x = none) :
    σ' x = σ x := by
  by_cases hmem : x ∈ hidden
  · exact h.kept x hmem
  · simpa [Renames.image_of_none hnone] using h.shown x hmem hx

theorem eq_of_id (h : Mirrors R fresh hidden σ σ') (hx : x ∉ fresh) :
    σ' (if x ∈ hidden then x else R.image x) = σ x := by
  split
  · next hmem => exact h.kept x hmem
  · next hmem => exact h.shown x hmem hx

/-- A declared name is hidden from then on. -/
theorem declare (h : Mirrors R fresh hidden σ σ') (hR : R.Into fresh) {d d' : Decl}
    (hname : d'.name = d.name) (hcoord : d'.coord = d.coord)
    (hfresh : ∀ y, d.name = some y → y ∉ fresh) :
    Mirrors R fresh (d.name.toList ++ hidden) (σ.declare d) (σ'.declare d') where
  kept x hx := by
    by_cases hd : d.name = some x
    · rw [declare_of_name hd, declare_of_name (hname.trans hd), hcoord]
    · rw [declare_of_ne hd, declare_of_ne (hname.trans_ne hd)]
      exact h.kept x (by simpa [hd] using hx)
  shown x hx hnew := by
    have hd : d.name ≠ some x := fun hd => hx (by simp [hd])
    have hd' : d'.name ≠ some (R.image x) := by
      intro hd'
      have himage := hname.symm.trans hd'
      exact hd (himage.trans (congrArg some (hR.eq_of_image (hfresh _ himage) rfl).symm))
    rw [declare_of_ne hd, declare_of_ne hd']
    exact h.shown x (fun hmem => hx (List.mem_append_right _ hmem)) hnew

/-- The names of declarations that stay as they are get hidden. -/
theorem declareAll (h : Mirrors R fresh hidden σ σ') (hR : R.Into fresh) {ds : List Decl}
    (hfresh : ∀ x ∈ ds.filterMap Decl.name, x ∉ fresh) :
    Mirrors R fresh (ds.filterMap Decl.name ++ hidden) (σ.declareAll ds) (σ'.declareAll ds) where
  kept x hx := declareAll_congr fun hds =>
    h.kept x ((List.mem_append.1 hx).resolve_left hds)
  shown x hx hnew := by
    rw [List.mem_append, not_or] at hx
    have himage : R.image x ∉ ds.filterMap Decl.name := fun hmem =>
      hx.1 (hR.eq_of_image (hfresh _ hmem) rfl ▸ hmem)
    rw [declareAll_of_notMem hx.1, declareAll_of_notMem himage]
    exact h.shown x hx.2 hnew

end Scope.Mirrors

end Scopes

/-! ### Expressions -/

namespace Expr

theorem references_eq (σ : Scope) (e : Expr) :
    e.references σ = (e.use?.map fun (x, c) => (c, σ x)).toList ++ referencesList σ e.parts := by
  have hparts : (e.parts.flatMap subexprs).filterMap use? = e.parts.flatMap uses := by
    rw [List.filterMap_flatMap]
    rfl
  have hlist : (e.parts.flatMap uses).map (fun (x, c) => (c, σ x)) = referencesList σ e.parts :=
    List.map_flatMap
  rw [references, uses, subexprs_eq, List.filterMap_cons, hparts]
  cases e.use? with
  | none => exact hlist
  | some u => exact congrArg (_ :: ·) hlist

theorem mem_ids_of_mem_parts {e part : Expr} {x : String} (hpart : part ∈ e.parts)
    (hx : x ∈ part.ids) : x ∈ e.ids := by
  obtain ⟨s, hs, hname⟩ := List.mem_filterMap.1 hx
  refine List.mem_filterMap.2 ⟨s, ?_, hname⟩
  rw [subexprs_eq]
  exact List.mem_cons_of_mem _ (List.mem_flatMap.2 ⟨part, hpart, hs⟩)

theorem mem_calls_of_mem_parts {e part : Expr} {x : String} (hpart : part ∈ e.parts)
    (hx : x ∈ part.calls) : x ∈ e.calls := by
  obtain ⟨s, hs, hname⟩ := List.mem_filterMap.1 hx
  refine List.mem_filterMap.2 ⟨s, ?_, hname⟩
  rw [subexprs_eq]
  exact List.mem_cons_of_mem _ (List.mem_flatMap.2 ⟨part, hpart, hs⟩)

theorem idName?_withParts (e : Expr) (parts : List Expr) :
    (e.withParts parts).idName? = e.idName? := by
  rw [withParts.eq_def]
  split <;> rfl

theorem use?_withParts (e : Expr) (parts : List Expr) : (e.withParts parts).use? = e.use? := by
  rw [withParts.eq_def]
  split <;> rfl

section Renaming

variable {R : Renames} {hidden : List String} {σ σ' : Scope}

theorem value_renameIds_id (x : String) (c : Coord) :
    ((id x c).renameIds R hidden).value = id (if x ∈ hidden then x else R.image x) c := by
  change (Counted.replace (R.lookup? hidden) (id x c)).value = _
  by_cases hmem : x ∈ hidden
  · simp [Counted.replace, Renames.lookup?, hmem]
  · cases hx : R.lookup x with
    | none => simp [Counted.replace, Renames.lookup?, hmem, hx, Renames.image]
    | some y => simp [Counted.replace, Renames.lookup?, hmem, hx, Renames.image, Counted.change]

/-- Only identifiers get new names, whatever the parts of the other nodes become. -/
theorem lookup?_withParts {e : Expr} (h : e.idName? = none) (parts : List Expr) :
    R.lookup? hidden (e.withParts parts) = none := by
  have hid : (e.withParts parts).idName? = none := (idName?_withParts e parts).trans h
  cases hnode : e.withParts parts with
  | id =>
    rw [hnode] at hid
    cases hid
  | _ => rfl

/-- A node that is no identifier stays, with its parts renamed. -/
theorem value_renameIds_of_parts {e : Expr} (h : e.idName? = none) :
    (e.renameIds R hidden).value =
      e.withParts (e.parts.map fun part => (part.renameIds R hidden).value) := by
  rw [renameIds, bottomUpM_eq, Counted.value_bind, Counted.value_mapM, Counted.replace,
    lookup?_withParts h]
  rfl

/-- What an expression refers to after renaming, if each name does so. -/
theorem references_renameIds {e : Expr}
    (hids : ∀ x ∈ e.ids, σ' (if x ∈ hidden then x else R.image x) = σ x)
    (hcalls : ∀ x ∈ e.calls, σ' x = σ x) :
    (e.renameIds R hidden).value.references σ' = e.references σ := by
  induction e using parts_induction with
  | h e ih =>
    cases hid : e.idName? with
    | some x =>
      obtain ⟨c, rfl⟩ : ∃ c, e = id x c := by
        cases e <;> simp_all [idName?]
      have hx := hids x (by simp [ids, subexprs, idName?])
      rw [value_renameIds_id, references_eq, references_eq]
      simp [use?, parts, referencesList, hx]
    | none =>
      have hlist : (e.parts.map fun part => (part.renameIds R hidden).value).flatMap
          (references σ') = e.parts.flatMap (references σ) := by
        rw [List.flatMap_map]
        refine List.flatMap_congr fun part hpart => ih part hpart ?_ ?_
        · exact fun x hx => hids x (mem_ids_of_mem_parts hpart hx)
        · exact fun x hx => hcalls x (mem_calls_of_mem_parts hpart hx)
      have huse : (e.use?.map fun (x, c) => (c, σ' x)) = e.use?.map fun (x, c) => (c, σ x) := by
        cases e with
        | id => cases hid
        | call f args c =>
          exact congrArg (fun d => some (c, d)) (hcalls f (by simp [calls, subexprs, callee?]))
        | _ => rfl
      rw [value_renameIds_of_parts hid, references_eq, references_eq,
        parts_withParts (List.length_map _), use?_withParts, huse]
      exact congrArg (_ ++ ·) hlist

theorem referencesList_renameIds {es : List Expr}
    (hids : ∀ x ∈ es.flatMap ids, σ' (if x ∈ hidden then x else R.image x) = σ x)
    (hcalls : ∀ x ∈ es.flatMap calls, σ' x = σ x) :
    referencesList σ' (es.map fun e => (e.renameIds R hidden).value) = referencesList σ es := by
  rw [referencesList, List.flatMap_map]
  refine List.flatMap_congr fun e he => references_renameIds ?_ ?_
  · exact fun x hx => hids x (List.mem_flatMap.2 ⟨e, he, hx⟩)
  · exact fun x hx => hcalls x (List.mem_flatMap.2 ⟨e, he, hx⟩)

end Renaming

end Expr

/-- What each name of the expressions means is what its new name means. -/
theorem Scope.Mirrors.references {R : Renames} {fresh hidden : List String} {σ σ' : Scope}
    (h : Mirrors R fresh hidden σ σ') {es : List Expr}
    (hfresh : ∀ x ∈ es.flatMap Expr.names, x ∉ fresh)
    (hcalls : ∀ x ∈ es.flatMap Expr.calls, R.lookup x = none) :
    Expr.referencesList σ' (es.map fun e => (e.renameIds R hidden).value) =
      Expr.referencesList σ es := by
  have hnames {x : String} (hx : ∃ e ∈ es, x ∈ e.ids ∨ x ∈ e.calls) : x ∉ fresh := by
    obtain ⟨e, he, hx⟩ := hx
    exact hfresh x (List.mem_flatMap.2 ⟨e, he, Expr.mem_names.2 hx⟩)
  refine Expr.referencesList_renameIds (fun x hx => ?_) fun x hx => ?_
  · obtain ⟨e, he, hxe⟩ := List.mem_flatMap.1 hx
    exact h.eq_of_id (hnames ⟨e, he, .inl hxe⟩)
  · obtain ⟨e, he, hxe⟩ := List.mem_flatMap.1 hx
    exact h.eq_of_none (hnames ⟨e, he, .inr hxe⟩) (hcalls x hx)

/-! ### Declarations -/

theorem mapOptionM_toList (f : Expr → Counted Expr) (e : Option Expr) :
    (mapOptionM f e).value.toList = e.toList.map fun e => (f e).value := by
  cases e <;> rfl

namespace Decl

/-- The initializer does not use the name that is declared. -/
def SelfFree (d : Decl) : Prop :=
  ∀ x ∈ d.name.toList, x ∉ d.init.toList.flatMap Expr.ids

instance (d : Decl) : Decidable d.SelfFree :=
  inferInstanceAs (Decidable (∀ x ∈ d.name.toList, x ∉ d.init.toList.flatMap Expr.ids))

theorem size?_mapExprsM (f : Expr → Counted Expr) (d : Decl) :
    (d.mapExprsM f).value.size?.toList = d.size?.toList.map fun e => (f e).value := by
  obtain ⟨name, quals, storage, type, init, c⟩ := d
  cases type with
  | array item size c => exact mapOptionM_toList f size
  | element | function => rfl

variable {R : Renames} {fresh hidden : List String} {σ σ' : Scope}

theorem references_mapExprsM {d : Decl} (h : Scope.Mirrors R fresh hidden σ σ') (hR : R.Into fresh)
    (hname : ∀ y, d.name = some y → y ∉ fresh) (hfresh : ∀ x ∈ d.usedNames, x ∉ fresh)
    (hcalls : ∀ x ∈ d.rootExprs.flatMap Expr.calls, R.lookup x = none) (hself : d.SelfFree) :
    (d.mapExprsM (Expr.renameIds R hidden)).value.references σ' = d.references σ := by
  simp only [usedNames, rootExprs, List.flatMap_append, List.forall_mem_append] at hfresh hcalls
  have hsize := h.references hfresh.1 hcalls.1
  have hinit : Expr.referencesList (σ'.declare d)
      (d.init.toList.map fun e => (e.renameIds R hidden).value) =
        Expr.referencesList (σ.declare d) d.init.toList := by
    have hnames {x : String} (hx : ∃ e ∈ d.init.toList, x ∈ e.ids ∨ x ∈ e.calls) : x ∉ fresh := by
      obtain ⟨e, he, hx⟩ := hx
      exact hfresh.2 x (List.mem_flatMap.2 ⟨e, he, Expr.mem_names.2 hx⟩)
    refine Expr.referencesList_renameIds (fun x hx => ?_) fun x hx => ?_
    · -- The declared name is not used, and no other name becomes it.
      obtain ⟨e, he, hxe⟩ := List.mem_flatMap.1 hx
      have hd : d.name ≠ some x := fun hd => hself x (Option.mem_toList.2 hd) hx
      have hd' : d.name ≠ some (if x ∈ hidden then x else R.image x) := by
        split
        · exact hd
        · intro himage
          exact hd (himage.trans (congrArg some (hR.eq_of_image (hname _ himage) rfl).symm))
      rw [Scope.declare_of_ne hd, Scope.declare_of_ne hd']
      exact h.eq_of_id (hnames ⟨e, he, .inl hxe⟩)
    · obtain ⟨e, he, hxe⟩ := List.mem_flatMap.1 hx
      exact Scope.declare_congr fun _ =>
        h.eq_of_none (hnames ⟨e, he, .inr hxe⟩) (hcalls.2 x hx)
  have hinit? : (d.mapExprsM (Expr.renameIds R hidden)).value.init.toList =
      d.init.toList.map fun e => (e.renameIds R hidden).value :=
    mapOptionM_toList _ d.init
  rw [references, references, size?_mapExprsM, hinit?, hsize]
  exact congrArg (_ ++ ·) hinit

/-- What renaming asks of a declaration. -/
structure Renamable (R : Renames) (fresh : List String) (d : Decl) : Prop where
  name : ∀ y, d.name = some y → y ∉ fresh
  used : ∀ x ∈ d.usedNames, x ∉ fresh
  calls : ∀ x ∈ d.rootExprs.flatMap Expr.calls, R.lookup x = none
  selfFree : d.SelfFree

theorem Renamable.references {d : Decl} (hd : d.Renamable R fresh)
    (h : Scope.Mirrors R fresh hidden σ σ') (hR : R.Into fresh) :
    (d.mapExprsM (Expr.renameIds R hidden)).value.references σ' = d.references σ :=
  references_mapExprsM h hR hd.name hd.used hd.calls hd.selfFree

theorem Renamable.mirrors {d : Decl} (hd : d.Renamable R fresh)
    (h : Scope.Mirrors R fresh hidden σ σ') (hR : R.Into fresh) :
    Scope.Mirrors R fresh (declareName d hidden) (σ.declare d)
      (σ'.declare (d.mapExprsM (Expr.renameIds R hidden)).value) := by
  rw [declareName_eq]
  exact h.declare hR rfl rfl hd.name

/-- Renaming in declarations, and the scopes after them. -/
theorem references_mapScopedListM {ds : List Decl} (hds : ∀ d ∈ ds, d.Renamable R fresh)
    (h : Scope.Mirrors R fresh hidden σ σ') (hR : R.Into fresh) :
    referencesList σ' (mapScopedListM declareName (Expr.renameIds R) hidden ds).value.1 =
        referencesList σ ds ∧
      Scope.Mirrors R fresh (mapScopedListM declareName (Expr.renameIds R) hidden ds).value.2
        (σ.declareAll ds)
        (σ'.declareAll (mapScopedListM declareName (Expr.renameIds R) hidden ds).value.1) := by
  induction ds generalizing hidden σ σ' with
  | nil => exact ⟨rfl, h⟩
  | cons d rest ih =>
    obtain ⟨hd, hrest⟩ := List.forall_mem_cons.1 hds
    obtain ⟨hreferences, hmirrors⟩ := ih hrest (hd.mirrors h hR)
    refine ⟨?_, hmirrors⟩
    exact congrArg₂ (· ++ ·) (hd.references h hR) hreferences

end Decl

/-! ### Statements -/

namespace Stmt

variable {R : Renames} {fresh hidden : List String} {σ σ' : Scope}

/-- What renaming asks of the expressions and declarations of statements. -/
structure Renamable (R : Renames) (fresh : List String) (parts : List Stmt) : Prop where
  used : ∀ t ∈ parts, ∀ x ∈ t.ownNames, x ∉ fresh
  calls : ∀ t ∈ parts, ∀ x ∈ t.ownExprs.flatMap Expr.calls, R.lookup x = none
  selfFree : ∀ t ∈ parts, ∀ d ∈ t.ownDecls, d.SelfFree

namespace Renamable

variable {parts : List Stmt} {t : Stmt}

theorem mono (h : Renamable R fresh parts) {parts' : List Stmt} (hsub : parts' ⊆ parts) :
    Renamable R fresh parts' where
  used t ht := h.used t (hsub ht)
  calls t ht := h.calls t (hsub ht)
  selfFree t ht := h.selfFree t (hsub ht)

theorem tail (h : Renamable R fresh (t :: parts)) : Renamable R fresh parts :=
  h.mono (List.subset_cons_self t parts)

theorem references (h : Renamable R fresh (t :: parts)) (hσ : Scope.Mirrors R fresh hidden σ σ')
    {es : List Expr} (hes : es ⊆ t.ownExprs) :
    Expr.referencesList σ' (es.map fun e => (e.renameIds R hidden).value) =
      Expr.referencesList σ es := by
  refine hσ.references (fun x hx => h.used t List.mem_cons_self x ?_) fun x hx =>
    h.calls t List.mem_cons_self x ?_
  · exact List.mem_append_left _ (flatMap_subset_of_subset _ hes hx)
  · exact flatMap_subset_of_subset _ hes hx

theorem reference (h : Renamable R fresh (t :: parts)) (hσ : Scope.Mirrors R fresh hidden σ σ')
    {e : Expr} (he : e ∈ t.ownExprs) :
    (e.renameIds R hidden).value.references σ' = e.references σ := by
  simpa [Expr.referencesList] using h.references hσ (List.cons_subset.2 ⟨he, List.nil_subset _⟩)

theorem decl (h : Renamable R fresh (t :: parts)) {d : Decl} (hd : d ∈ t.ownDecls)
    (hroot : d.rootExprs ⊆ t.ownExprs) : d.Renamable R fresh where
  name y hy := h.used t List.mem_cons_self y
    (List.mem_append_right _ (List.mem_filterMap.2 ⟨d, hd, hy⟩))
  used x hx := h.used t List.mem_cons_self x
    (List.mem_append_left _ (flatMap_subset_of_subset _ hroot hx))
  calls x hx := h.calls t List.mem_cons_self x (flatMap_subset_of_subset _ hroot hx)
  selfFree := h.selfFree t List.mem_cons_self d hd

end Renamable

/-- The scope that renaming leaves is the one it found and the names that the statement binds. -/
theorem mapScopedM_snd (f : List String → Expr → Counted Expr) (s : Stmt) (hidden : List String)
    (hs : s.declsInBlocks) : (mapScopedM declareName f hidden s).value.2 = s.binds ++ hidden := by
  cases s with
  | decl d c => exact declareName_eq d hidden
  | label n s c => exact mapScopedM_snd f s hidden hs
  | ifThen p t c =>
    simp only [declsInBlocks, Bool.and_eq_true, Bool.not_eq_true'] at hs
    simp [mapScopedM, mapScopedM_snd f t hidden hs.2, binds_of_not_isDecl hs.1, binds]
  | ifElse p t e c =>
    simp only [declsInBlocks, Bool.and_eq_true, Bool.not_eq_true'] at hs
    obtain ⟨⟨⟨ht, he⟩, hdt⟩, hde⟩ := hs
    simp [mapScopedM, mapScopedM_snd f t hidden hdt, binds_of_not_isDecl ht,
      mapScopedM_snd f e hidden hde, binds_of_not_isDecl he, binds]
  | forLoop init cond next body c =>
    simp only [declsInBlocks, Bool.and_eq_true, Bool.not_eq_true'] at hs
    rcases init with _ | _ | _ <;>
      simp [mapScopedM, mapScopedM_snd f body hidden hs.2, binds_of_not_isDecl hs.1, binds]
  | whileLoop p body c | doWhile p body c =>
    simp only [declsInBlocks, Bool.and_eq_true, Bool.not_eq_true'] at hs
    simp [mapScopedM, mapScopedM_snd f body hidden hs.2, binds_of_not_isDecl hs.1, binds]
  | block | expr | ret | brk | cont | goto | empty => rfl

theorem declared?_mapScopedM (f : List String → Expr → Counted Expr) (s : Stmt)
    (hidden : List String) :
    (mapScopedM declareName f hidden s).value.1.declared? =
      s.declared?.map fun d => (d.mapExprsM (f hidden)).value := by
  cases s with
  | label n s c => exact declared?_mapScopedM f s hidden
  | forLoop init cond next body c => rcases init with _ | _ | _ <;> rfl
  | _ => rfl

mutual

/-- Renaming in a statement. -/
theorem references_mapScopedM (s : Stmt) {hidden : List String} {σ σ' : Scope}
    (hs : s.declsInBlocks) (hfit : Renamable R fresh s.substmts)
    (h : Scope.Mirrors R fresh hidden σ σ') (hR : R.Into fresh) :
    (mapScopedM declareName (Expr.renameIds R) hidden s).value.1.references σ' =
      s.references σ := by
  cases s with
  | decl d c => exact (hfit.decl List.mem_cons_self fun e he => he).references h hR
  | block items b c => exact references_mapScopedListM items hs hfit.tail h hR
  | expr e c => exact hfit.reference h List.mem_cons_self
  | ifThen p t c =>
    simp only [declsInBlocks, Bool.and_eq_true] at hs
    exact congrArg₂ (· ++ ·) (hfit.reference h List.mem_cons_self)
      (references_mapScopedM t hs.2 hfit.tail h hR)
  | ifElse p t e c =>
    simp only [declsInBlocks, Bool.and_eq_true, Bool.not_eq_true'] at hs
    obtain ⟨⟨⟨ht, -⟩, hdt⟩, hde⟩ := hs
    -- The walk goes on with what the first branch hides, which is nothing.
    have hbetween : (mapScopedM declareName (Expr.renameIds R) hidden t).value.2 = hidden := by
      simp [mapScopedM_snd _ t hidden hdt, binds_of_not_isDecl ht]
    have hfalse := references_mapScopedM e hde
      (hfit.tail.mono (List.subset_append_right _ _)) h hR
    have htrue := references_mapScopedM t hdt
      (hfit.tail.mono (List.subset_append_left _ _)) h hR
    simp only [mapScopedM, Counted.value_bind, Counted.value_pure, hbetween, references,
      hfit.reference h List.mem_cons_self, htrue, hfalse]
  | forLoop init cond next body c =>
    simp only [declsInBlocks, Bool.and_eq_true] at hs
    -- The clauses and the body see the scope that the initializer clause leaves.
    have hrest {hidden : List String} {σ σ' : Scope} (h : Scope.Mirrors R fresh hidden σ σ') :
        Expr.referencesList σ' ((mapOptionM (Expr.renameIds R hidden) cond).value.toList ++
            (mapOptionM (Expr.renameIds R hidden) next).value.toList) ++
          (mapScopedM declareName (Expr.renameIds R) hidden body).value.1.references σ' =
        Expr.referencesList σ (cond.toList ++ next.toList) ++ body.references σ := by
      have hown : cond.toList ++ next.toList ⊆ (forLoop init cond next body c).ownExprs := by
        rw [ownExprs, List.append_assoc]
        exact List.subset_append_right _ _
      have hclauses := hfit.references h hown
      rw [mapOptionM_toList, mapOptionM_toList, ← List.map_append, hclauses,
        references_mapScopedM body hs.2 hfit.tail h hR]
    rcases init with _ | ds | e
    · exact hrest h
    · have hds (d : Decl) (hd : d ∈ ds) : d.Renamable R fresh := by
        refine hfit.decl (by simpa [ownDecls, ForInit.declList] using hd) fun e he => ?_
        simp only [ownExprs, Option.toList_some, List.flatMap_singleton, ForInit.rootExprs,
          List.append_assoc]
        exact List.mem_append_left _ (List.mem_flatMap.2 ⟨d, hd, he⟩)
      obtain ⟨hdecls, hinner⟩ := Decl.references_mapScopedListM hds h hR
      simp only [mapScopedM, Counted.value_bind, Counted.value_pure, references, List.append_assoc]
      rw [hdecls, hrest hinner]
    · have he := hfit.reference h (e := e) (by simp [ownExprs, ForInit.rootExprs])
      simp only [mapScopedM, Counted.value_bind, Counted.value_pure, references, List.append_assoc]
      rw [he, hrest h]
  | whileLoop p body c | doWhile p body c =>
    simp only [declsInBlocks, Bool.and_eq_true] at hs
    exact congrArg₂ (· ++ ·) (hfit.reference h List.mem_cons_self)
      (references_mapScopedM body hs.2 hfit.tail h hR)
  | ret value c =>
    have hvalue := hfit.references h (fun e he => he)
    simpa [mapScopedM, mapOptionM_toList, references, ownExprs] using hvalue
  | label n s c => exact references_mapScopedM s hs hfit.tail h hR
  | brk | cont | goto | empty => rfl

/-- Renaming in the items of a block. -/
theorem references_mapScopedListM (items : List Stmt) {hidden : List String} {σ σ' : Scope}
    (hs : declsInBlocksList items) (hfit : Renamable R fresh (substmtsList items))
    (h : Scope.Mirrors R fresh hidden σ σ') (hR : R.Into fresh) :
    referencesList σ' (mapScopedListM declareName (Expr.renameIds R) hidden items).value.1 =
      referencesList σ items := by
  cases items with
  | nil => rfl
  | cons s rest =>
    simp only [declsInBlocksList, Bool.and_eq_true] at hs
    have hhere := references_mapScopedM s hs.1 (hfit.mono (List.subset_append_left _ _)) h hR
    -- A declaration keeps its name, so the name is hidden in the rest of the block.
    have hscopes : Scope.Mirrors R fresh (s.binds ++ hidden) (σ.declareAll s.declared?.toList)
        (σ'.declareAll
          (mapScopedM declareName (Expr.renameIds R) hidden s).value.1.declared?.toList) := by
      rw [declared?_mapScopedM, binds_eq]
      cases hd : s.declared? with
      | none => exact h
      | some d =>
        refine h.declare hR rfl rfl fun y hy => ?_
        obtain ⟨t, ht, hdt⟩ := exists_ownDecls_of_declared? hd
        exact hfit.used t (List.mem_append_left _ ht) y
          (List.mem_append_right _ (List.mem_filterMap.2 ⟨d, hdt, hy⟩))
    have hthere := references_mapScopedListM rest hs.2 (hfit.mono (List.subset_append_right _ _))
      hscopes hR
    simp only [mapScopedListM, Counted.value_bind, Counted.value_pure, mapScopedM_snd _ s _ hs.1,
      referencesList]
    rw [hhere, hthere]

end

end Stmt

end MathKernel
