import MathKernel.Proofs.Normalize.HoistedStatics
import MathKernel.Proofs.Normalize.ScopedRenaming
import MathKernel.Proofs.Normalize.Variables

/-!
# Functions after promotion of their static variables

The static variables of a function come before it under new names, and its body uses these names
where nothing hides the old ones. Each of the variables sees the new names of those before it. If
they are apart from the other names of the function, then it refers to what it did.

## Main definitions

* `Promotion.Sound` — new names are new, taken and apart from each other
* `FuncDef.StaticsApart` — the static variables of a function are apart from its other names
* `FuncDef.promotedItems` — what becomes of a function

## Main results

* `hoistStatics_references` — what hoisted variables refer to, and the scope after them
* `FuncDef.StaticsApart.references_body` — static variables can be declared outside
* `FuncDef.Promotable.references_items` — a function and its promoted variables
-/

namespace MathKernel

/-! ### Promotions -/

/-- The new names of a promotion are new, taken, and apart from each other. -/
structure Promotion.Sound (fresh : List String) (p : Promotion) : Prop where
  into : p.renames.Into fresh
  taken : ∀ x y, p.renames.lookup x = some y → y ∈ p.taken
  injective : ∀ x y z, p.renames.lookup x = some z → p.renames.lookup y = some z → x = y

section Promotions

variable {R : Renames} {fresh : List String} {G G' : Scope} {p : Promotion} {d : Decl}
  {old new : String}

theorem Renames.image_cons_self : image ((old, new) :: R) old = new := by
  simp [image]

theorem Renames.lookup_cons_of_ne {x : String} (h : x ≠ old) :
    List.lookup x ((old, new) :: R) = R.lookup x := by
  rw [List.lookup_cons, beq_false_of_ne h]

theorem Renames.image_cons_of_ne {x : String} (h : x ≠ old) :
    image ((old, new) :: R) x = R.image x := by
  rw [image, lookup_cons_of_ne h, image]

theorem Renames.map_image_of_none {name : Option String}
    (h : ∀ x, name = some x → R.lookup x = none) : name.map R.image = name := by
  cases name with
  | none => rfl
  | some x => exact congrArg some (image_of_none (h x rfl))

theorem Promotion.Sound.start (fresh taken : List String) :
    Promotion.Sound fresh ⟨taken, [], []⟩ where
  into _ _ h := nomatch h
  taken _ _ h := nomatch h
  injective _ _ _ h := nomatch h

/-- A name that is not new is not renamed to one that is not taken. -/
theorem Promotion.Sound.image_ne (hp : p.Sound fresh) (hnew : new ∈ fresh) (htaken : new ∉ p.taken)
    {x : String} (hx : x ∉ fresh) : p.renames.image x ≠ new := by
  intro himage
  cases hlookup : p.renames.lookup x with
  | none =>
    rw [Renames.image_of_none hlookup] at himage
    exact hx (himage ▸ hnew)
  | some y =>
    rw [Renames.image_of_lookup hlookup] at himage
    exact htaken (himage ▸ hp.taken x y hlookup)

/-- More names are taken. -/
theorem Promotion.Sound.mono (hp : p.Sound fresh) {q : Promotion} (hrenames : q.renames = p.renames)
    (htaken : p.taken ⊆ q.taken) : q.Sound fresh where
  into := hrenames ▸ hp.into
  taken x y h := htaken (hp.taken x y (hrenames ▸ h))
  injective := hrenames ▸ hp.injective

/-- Names that are not new stay apart. -/
theorem Promotion.Sound.image_injective (hp : p.Sound fresh) {x y : String} (hx : x ∉ fresh)
    (hy : y ∉ fresh) (h : p.renames.image x = p.renames.image y) : x = y := by
  cases hxz : p.renames.lookup x with
  | none =>
    rw [Renames.image_of_none hxz] at h
    exact (hp.into.eq_of_image hx h.symm).symm
  | some z =>
    cases hyz : p.renames.lookup y with
    | none =>
      rw [Renames.image_of_none hyz] at h
      exact hp.into.eq_of_image hy h
    | some z' =>
      rw [Renames.image_of_lookup hxz, Renames.image_of_lookup hyz] at h
      exact hp.injective x y z hxz (h ▸ hyz)

/-- One more variable is promoted. -/
theorem Promotion.Sound.add (hp : p.Sound fresh) (hnew : new ∈ fresh) (htaken : new ∉ p.taken)
    (promoted : List (String × String)) :
    Promotion.Sound fresh ⟨new :: p.taken, (old, new) :: p.renames, promoted⟩ := by
  have hcases {x y : String} (h : List.lookup x ((old, new) :: p.renames) = some y) :
      x = old ∧ y = new ∨ x ≠ old ∧ p.renames.lookup x = some y := by
    by_cases hx : x = old
    · simp_all
    · rw [Renames.lookup_cons_of_ne hx] at h
      exact .inr ⟨hx, h⟩
  refine ⟨fun x y h => ?_, fun x y h => ?_, fun x y z hx hy => ?_⟩
  · rcases hcases h with ⟨-, rfl⟩ | ⟨-, h⟩
    · exact hnew
    · exact hp.into x y h
  · rcases hcases h with ⟨-, rfl⟩ | ⟨-, h⟩
    · exact List.mem_cons_self
    · exact List.mem_cons_of_mem _ (hp.taken x y h)
  · -- The new name is not taken, so no earlier variable has it.
    rcases hcases hx with ⟨hx, hz⟩ | ⟨-, hx⟩ <;> rcases hcases hy with ⟨hy, hz'⟩ | ⟨-, hy⟩
    · exact hx.trans hy.symm
    · exact absurd (hz ▸ hp.taken y z hy) htaken
    · exact absurd (hz' ▸ hp.taken x z hx) htaken
    · exact hp.injective x y z hx hy

theorem promotedName_notMem (taken : List String) (unit : String) (function : Option String)
    (old : String) : promotedName taken unit function old ∉ taken :=
  fun hmem => promotedName_ne hmem unit function old rfl

/-- The scopes after a promoted variable. -/
theorem Scope.Mirrors.promote (h : Mirrors p.renames fresh [] G G') (hp : p.Sound fresh)
    (hnew : new ∈ fresh) (htaken : new ∉ p.taken) (hname : d.name = some old) {d' : Decl}
    (hname' : d'.name = some new) (hcoord : d'.coord = d.coord) :
    Mirrors ((old, new) :: p.renames) fresh [] (G.declare d) (G'.declare d') where
  kept x hx := absurd hx List.not_mem_nil
  shown x _ hx := by
    -- Of all names only the old one leads to the new one.
    by_cases hold : x = old
    · subst hold
      rw [Renames.image_cons_self, declare_of_name hname', declare_of_name hname, hcoord]
    · have himage := hp.image_ne hnew htaken hx
      have hd : d.name ≠ some x := fun hd => hold (Option.some.inj (hd.symm.trans hname))
      have hd' : d'.name ≠ some (p.renames.image x) := fun hd' =>
        himage (Option.some.inj (hd'.symm.trans hname'))
      rw [Renames.image_cons_of_ne hold, declare_of_ne hd, declare_of_ne hd']
      exact h.shown x List.not_mem_nil hx

/-- The scopes after a declaration whose new name is already known. -/
theorem Scope.Mirrors.declareImage (h : Mirrors p.renames fresh [] G G') (hp : p.Sound fresh)
    {d' : Decl} (hname : d'.name = d.name.map p.renames.image) (hcoord : d'.coord = d.coord)
    (hfresh : ∀ x, d.name = some x → x ∉ fresh) :
    Mirrors p.renames fresh [] (G.declare d) (G'.declare d') where
  kept x hx := absurd hx List.not_mem_nil
  shown x _ hx := by
    by_cases hd : d.name = some x
    · rw [declare_of_name hd, declare_of_name (hname.trans (congrArg _ hd)), hcoord]
    · have hd' : d'.name ≠ some (p.renames.image x) := by
        intro hd'
        obtain ⟨y, hy, himage⟩ := Option.map_eq_some_iff.1 (hname.symm.trans hd')
        exact hd (hp.image_injective (hfresh y hy) hx himage ▸ hy)
      rw [declare_of_ne hd, declare_of_ne hd']
      exact h.shown x List.not_mem_nil hx

/-! ### Hoisting -/

theorem Decl.size?_promote (d : Decl) (new : String) : (d.promote new).size? = d.size? := by
  obtain ⟨name, quals, storage, type, init, c⟩ := d
  cases type <;> rfl

theorem Decl.params_promote (d : Decl) (new : String) : (d.promote new).params = d.params := by
  obtain ⟨name, quals, storage, type, init, c⟩ := d
  cases type <;> rfl

theorem Decl.params_of_isStaticVariable {d : Decl} (h : d.isStaticVariable = true) :
    d.params = [] := by
  obtain ⟨name, quals, storage, type, init, c⟩ := d
  cases type with
  | element | array => rfl
  | function => simp [isStaticVariable, isFunction] at h

theorem Decl.params_mapExprsM (f : Expr → Counted Expr) (d : Decl) :
    (d.mapExprsM f).value.params = d.params := by
  obtain ⟨name, quals, storage, type, init, c⟩ := d
  cases type <;> rfl

/-- What a hoisted variable refers to, seen from before it. It uses neither its own name nor one
that is not yet promoted. -/
theorem Decl.references_hoist (h : Scope.Mirrors p.renames fresh [] G G') (hp : p.Sound fresh)
    (hnew : new ∈ fresh) (htaken : new ∉ p.taken) (hname : d.name = some old)
    (hfresh : ∀ x ∈ d.usedNames, x ∉ fresh) (hself : old ∉ d.usedNames)
    (hcalls : ∀ x ∈ d.rootExprs.flatMap Expr.calls, p.renames.lookup x = none) :
    ((d.renameIds p.renames).value.promote new).references G' = d.references G := by
  have hsize : ((d.renameIds p.renames).value.promote new).size?.toList =
      d.size?.toList.map fun e => (e.renameIds p.renames []).value := by
    rw [size?_promote]
    exact size?_mapExprsM _ d
  have hinit : ((d.renameIds p.renames).value.promote new).init.toList =
      d.init.toList.map fun e => (e.renameIds p.renames []).value :=
    mapOptionM_toList _ d.init
  have hused {x : String} {e : Expr} (he : e ∈ d.init.toList) (hx : x ∈ e.names) :
      x ∈ d.usedNames :=
    List.mem_flatMap.2 ⟨e, List.mem_append_right _ he, hx⟩
  -- Neither the name nor the new name occurs in the initializer, so both scopes are as before it.
  have hbefore {x : String} (hx : x ∈ d.usedNames) : G.declare d x = G x :=
    Scope.declare_of_ne fun hd => hself (Option.some.inj (hname.symm.trans hd) ▸ hx)
  have hbefore' {x : String} (hx : x ≠ new) :
      G'.declare ((d.renameIds p.renames).value.promote new) x = G' x :=
    Scope.declare_of_ne fun hd => hx (Option.some.inj hd).symm
  rw [references, references, hsize, hinit]
  refine congrArg₂ (· ++ ·) (h.references ?_ ?_)
    (Expr.referencesList_renameIds (fun x hx => ?_) fun x hx => ?_)
  · exact fun x hx =>
      hfresh x (flatMap_subset_of_subset _ (List.subset_append_left _ _) hx)
  · exact fun x hx => hcalls x (flatMap_subset_of_subset _ (List.subset_append_left _ _) hx)
  · obtain ⟨e, he, hxe⟩ := List.mem_flatMap.1 hx
    have hx := hused he (Expr.mem_names.2 (.inl hxe))
    rw [if_neg List.not_mem_nil, hbefore hx, hbefore' (hp.image_ne hnew htaken (hfresh x hx))]
    exact h.shown x List.not_mem_nil (hfresh x hx)
  · obtain ⟨e, he, hxe⟩ := List.mem_flatMap.1 hx
    have hx' := hused he (Expr.mem_names.2 (.inr hxe))
    have hlookup := hcalls x (flatMap_subset_of_subset _ (List.subset_append_right _ _) hx)
    have hne : x ≠ new := fun heq => hfresh x hx' (heq ▸ hnew)
    rw [hbefore hx', hbefore' hne]
    exact h.eq_of_none (hfresh x hx') hlookup

/-- Each variable uses neither its own name nor that of a later one. -/
def Decl.UseEarlier : List Decl → Prop
  | [] => True
  | d :: rest => (∀ x ∈ (d :: rest).filterMap Decl.name, x ∉ d.usedNames) ∧ UseEarlier rest

instance Decl.decidableUseEarlier : (ds : List Decl) → Decidable (UseEarlier ds)
  | [] => .isTrue trivial
  | _ :: rest =>
    have := decidableUseEarlier rest
    inferInstanceAs (Decidable (_ ∧ UseEarlier rest))

/-- What hoisting asks of a static variable. -/
structure Decl.Hoistable (R : Renames) (fresh : List String) (d : Decl) : Prop where
  named : ∃ x, d.name = some x
  used : ∀ x ∈ d.usedNames, x ∉ fresh
  calls : ∀ x ∈ d.rootExprs.flatMap Expr.calls, R.lookup x = none

/-- Hoisting the static variables of a function, in terms of a scope in which they are declared
under their own names. -/
theorem hoistStatics_references (unit function : String) {ds : List Decl}
    (h : Scope.Mirrors p.renames fresh [] G G') (hp : p.Sound fresh)
    (hds : ∀ d ∈ ds, d.Hoistable p.renames fresh) (horder : Decl.UseEarlier ds)
    (hcalls : ∀ d ∈ ds, ∀ x ∈ d.rootExprs.flatMap Expr.calls, x ∉ ds.filterMap Decl.name)
    (hnew : ∀ d ∈ (hoistStatics unit function p ds).1, ∀ x, d.name = some x → x ∈ fresh) :
    Decl.referencesList G' (hoistStatics unit function p ds).1 = Decl.referencesList G ds ∧
      Scope.Mirrors (hoistStatics unit function p ds).2.1.renames fresh [] (G.declareAll ds)
        (G'.declareAll (hoistStatics unit function p ds).1) ∧
      (hoistStatics unit function p ds).2.1.Sound fresh := by
  -- Each variable adds its new name to the table, so the scopes and the table go along.
  induction ds generalizing p G G' with
  | nil => exact ⟨rfl, h, hp⟩
  | cons d rest ih =>
    obtain ⟨hd, hrest⟩ := List.forall_mem_cons.1 hds
    obtain ⟨old, hname⟩ := hd.named
    have htaken := promotedName_notMem p.taken unit (some function) old
    simp only [hoistStatics, hname] at hnew ⊢
    generalize promotedName p.taken unit (some function) old = new at hnew htaken ⊢
    obtain ⟨hhere, hthere⟩ := List.forall_mem_cons.1 hnew
    have hfresh : new ∈ fresh := hhere new rfl
    have hold : old ∉ d.usedNames := horder.1 old (by simp [hname])
    -- Calls are not renamed, so no later variable may call this one.
    have hrest' (e : Decl) (he : e ∈ rest) : e.Hoistable ((old, new) :: p.renames) fresh := by
      refine ⟨(hrest e he).named, (hrest e he).used, fun x hx => ?_⟩
      have hne : x ≠ old := fun heq =>
        hcalls e (List.mem_cons_of_mem _ he) x hx (by simp [hname, heq])
      rw [Renames.lookup_cons_of_ne hne]
      exact (hrest e he).calls x hx
    have hcalls' (e : Decl) (he : e ∈ rest) (x : String) (hx : x ∈ e.rootExprs.flatMap Expr.calls) :
        x ∉ rest.filterMap Decl.name := fun hmem =>
      hcalls e (List.mem_cons_of_mem _ he) x hx (by simp [hname, hmem])
    have hmirrors : Scope.Mirrors ((old, new) :: p.renames) fresh [] (G.declare d)
        (G'.declare ((d.renameIds p.renames).value.promote new)) :=
      h.promote hp hfresh htaken hname rfl rfl
    obtain ⟨hreferences, hlast⟩ :=
      ih hmirrors (hp.add hfresh htaken _) hrest' horder.2 hcalls' hthere
    refine ⟨?_, hlast⟩
    exact congrArg₂ (· ++ ·)
      (Decl.references_hoist h hp hfresh htaken hname hd.used hold hd.calls) hreferences

/-- Hoisting gives variables if it is given variables. -/
theorem params_hoistStatics {unit function : String} {ds : List Decl} (h : ∀ d ∈ ds, d.params = [])
    (d : Decl) (hd : d ∈ (hoistStatics unit function p ds).1) : d.params = [] := by
  induction ds generalizing p with
  | nil => cases hd
  | cons e rest ih =>
    obtain ⟨he, hrest⟩ := List.forall_mem_cons.1 h
    unfold hoistStatics at hd
    split at hd
    · exact ih hrest hd
    · rcases List.mem_cons.1 hd with rfl | hd
      · rw [Decl.params_promote]
        exact (Decl.params_mapExprsM _ e).trans he
      · exact ih hrest hd

theorem taken_subset_hoistStatics (unit function : String) (p : Promotion) (ds : List Decl) :
    p.taken ⊆ (hoistStatics unit function p ds).2.1.taken := by
  induction ds generalizing p with
  | nil => exact List.Subset.refl _
  | cons d rest ih =>
    unfold hoistStatics
    split
    · exact ih p
    · exact List.Subset.trans (List.subset_cons_self _ _) (ih ⟨_, _, _⟩)

/-- The names of hoisted variables were not taken before. -/
theorem name_hoistStatics_notMem {unit function : String} {ds : List Decl} {d : Decl} {x : String}
    (hd : d ∈ (hoistStatics unit function p ds).1) (hx : d.name = some x) : x ∉ p.taken := by
  induction ds generalizing p with
  | nil => cases hd
  | cons e rest ih =>
    unfold hoistStatics at hd
    split at hd
    · exact ih hd
    · next old hold =>
      rcases List.mem_cons.1 hd with rfl | hd
      · cases hx
        exact promotedName_notMem p.taken unit (some function) old
      · exact fun hmem => ih hd (List.mem_cons_of_mem _ hmem)

/-- Hoisting gives new names to the variables only. -/
theorem lookup_hoistStatics (unit function : String) (p : Promotion) {ds : List Decl} {x : String}
    (hx : x ∉ ds.filterMap Decl.name) :
    (hoistStatics unit function p ds).2.1.renames.lookup x = p.renames.lookup x := by
  induction ds generalizing p with
  | nil => rfl
  | cons d rest ih =>
    unfold hoistStatics
    cases hname : d.name with
    | none =>
      rw [List.filterMap_cons_none hname] at hx
      exact ih p hx
    | some old =>
      rw [List.filterMap_cons_some hname, List.mem_cons, not_or] at hx
      exact (ih ⟨_, _, _⟩ hx.2).trans (Renames.lookup_cons_of_ne hx.1)

/-- In the scope after them, variables that use earlier ones see what they did one by one. -/
theorem Decl.referencesList_eq_flatMap {outer : Scope} {ds : List Decl} (horder : UseEarlier ds)
    (h : ∀ d ∈ ds, ∀ x ∈ d.usedNames, G.declareAll ds x = outer x) :
    Decl.referencesList G ds = ds.flatMap (Decl.references outer) := by
  induction ds generalizing G with
  | nil => rfl
  | cons d rest ih =>
    obtain ⟨hd, hrest⟩ := List.forall_mem_cons.1 h
    refine congrArg₂ (· ++ ·) (Decl.references_congr fun x hx => ?_) (ih horder.2 hrest)
    have hlater : x ∉ (d :: rest).filterMap Decl.name := fun hmem => horder.1 x hmem hx
    rw [← hd x hx, Scope.declareAll_of_notMem hlater]

end Promotions

/-! ### Functions -/

namespace FuncDef

/-- The names of a function's static variables. -/
def staticNames (f : FuncDef) : List String :=
  f.body.statics.filterMap Decl.name

/-- The names of a function's parameters and of its other variables. -/
def localNames (f : FuncDef) : List String :=
  f.paramNames ++ (Stmt.declsList f.body.withoutStatics.items).filterMap Decl.name

/-- The names that occur in a function, its own apart. -/
def innerNames (f : FuncDef) : List String :=
  f.params.flatMap Decl.usedNames ++ f.paramNames ++ Stmt.namesList f.body.items

/-- The static variables of a function can be told from everything else by their names, and can
stand before it in the order in which they are found. -/
structure StaticsApart (f : FuncDef) : Prop where
  /-- No declaration stands alone as a branch or loop body. -/
  inBlocks : Stmt.declsInBlocksList f.body.items
  /-- No initializer uses the name that is being declared. -/
  selfFree : ∀ d ∈ Stmt.declsList f.body.items, d.SelfFree
  named : ∀ d ∈ f.body.statics, d.name.isSome
  /-- No two of them have one name, and no parameter or other variable has it. -/
  once : f.staticNames.Nodup
  alone : ∀ x ∈ f.staticNames, x ∉ f.localNames
  /-- Every use of the name is one of the variable, and none is a call. -/
  bound : ∀ x ∈ f.staticNames, x ∉ f.freeIds
  uncalled : ∀ x ∈ f.staticNames, x ∉ Stmt.callsList f.body.items
  /-- They use earlier ones and names from outside the function. -/
  ordered : Decl.UseEarlier f.body.statics
  outside : ∀ d ∈ f.body.statics, ∀ x ∈ d.usedNames, x ∉ f.decl.name.toList ++ f.localNames

/-- What promotion asks of a function, for given new names of file-level variables. -/
structure Promotable (R : Renames) (fresh : List String) (f : FuncDef) : Prop where
  apart : f.StaticsApart
  name : ∀ x, f.decl.name = some x → x ∉ fresh ∧ R.lookup x = none
  inner : ∀ x ∈ f.innerNames, x ∉ fresh
  calls : ∀ x ∈ Stmt.callsList f.body.items, R.lookup x = none
  params : ∀ x ∈ f.params.flatMap Decl.usedNames, R.lookup x = none

section Promotion

variable {R : Renames} {fresh : List String} {G G' : Scope} {p : Promotion} {f : FuncDef}

/-- The function with other storage classes. -/
def withStorage (storage : List Storage) (f : FuncDef) : FuncDef :=
  { f with decl := { f.decl with storage } }

/-- What is asked of a function does not depend on its storage classes. -/
theorem StaticsApart.withStorage (hf : f.StaticsApart) (storage : List Storage) :
    (f.withStorage storage).StaticsApart :=
  ⟨hf.inBlocks, hf.selfFree, hf.named, hf.once, hf.alone, hf.bound, hf.uncalled, hf.ordered,
    hf.outside⟩

/-- The scope of a body in which the static variables are known from outside. -/
def outerScope (G : Scope) (f : FuncDef) : Scope :=
  (G.declare f.decl).declareAll f.body.statics

theorem Promotable.name_eq_image (hf : f.Promotable R fresh) :
    f.decl.name = f.decl.name.map R.image :=
  (Renames.map_image_of_none fun x hx => (hf.name x hx).2).symm

theorem Promotable.mirrors (hf : f.Promotable p.renames fresh) (hp : p.Sound fresh)
    (h : Scope.Mirrors p.renames fresh [] G G') :
    Scope.Mirrors p.renames fresh [] (G.declare f.decl) (G'.declare f.decl) :=
  h.declareImage hp hf.name_eq_image rfl fun x hx => (hf.name x hx).1

theorem Promotable.paramNames_notMem (hf : f.Promotable R fresh) (x : String)
    (hx : x ∈ f.paramNames) : x ∉ fresh :=
  hf.inner x (List.mem_append_left _ (List.mem_append_right _ hx))

theorem Promotable.hoistable (hf : f.Promotable R fresh) (d : Decl) (hd : d ∈ f.body.statics) :
    d.Hoistable R fresh := by
  obtain ⟨-, c, hc⟩ := Block.declaresStatic_of_mem_statics hd
  refine ⟨Option.isSome_iff_exists.1 (hf.apart.named d hd), fun x hx => ?_, fun x hx => ?_⟩
  · refine hf.inner x (List.mem_append_right _ (List.mem_flatMap.2 ⟨_, hc, ?_⟩))
    exact List.mem_append_left _ hx
  · exact hf.calls x (List.mem_flatMap.2 ⟨_, hc, hx⟩)

theorem StaticsApart.references_statics (hf : f.StaticsApart) :
    Decl.referencesList G f.body.statics =
      f.body.statics.flatMap (Decl.references (f.outerScope G)) := by
  refine Decl.referencesList_eq_flatMap hf.ordered fun d hd x hx => ?_
  refine Scope.declareAll_congr fun _ => (Scope.declare_of_ne fun hname => ?_).symm
  refine hf.outside d hd x hx (List.mem_append_left _ (Option.mem_toList.2 hname))

/-- The references of a body, in terms of its static variables and the rest. -/
theorem StaticsApart.references_body (hf : f.StaticsApart) :
    (Stmt.referencesList ((G.declare f.decl).declareAll f.params) f.body.items :
        Multiset Reference) =
      ↑(Decl.referencesList G f.body.statics) +
        ↑(Stmt.referencesList ((f.outerScope G).declareAll f.params)
          f.body.withoutStatics.items) := by
  -- Each variable is the only one of its name, so the outer scope knows it and no other.
  have htakable : Stmt.Takable f.staticNames f.localNames (f.outerScope G)
      (Stmt.substmtsList f.body.items) f.body.statics
      (Stmt.declsList (Stmt.keptItems f.body.items)) := by
    refine ⟨fun t ht x hx hmem => ?_, fun d hd => ?_, fun d hd x hname => ?_⟩
    · exact hf.uncalled x hmem (List.mem_flatMap.2 ⟨t, ht, hx⟩)
    · obtain ⟨x, hname⟩ := Option.isSome_iff_exists.1 (hf.named d hd)
      refine ⟨⟨x, hname, ?_, Scope.declareAll_of_mem hf.once hd hname⟩, fun y hy hmem => ?_⟩
      · exact hf.alone x (List.mem_filterMap.2 ⟨d, hd, hname⟩)
      · exact hf.outside d hd y hy (List.mem_append_right _ hmem)
    · exact List.mem_append_right _ (List.mem_filterMap.2 ⟨d, hd, hname⟩)
  have hscopes : Scope.AgreeOn f.staticNames (Stmt.freeIdsList f.body.items)
      ((G.declare f.decl).declareAll f.params) ((f.outerScope G).declareAll f.params) := by
    intro x hx
    refine Scope.declareAll_congr fun hparam => (Scope.declareAll_of_notMem fun hmem => ?_).symm
    -- A free use of the name would be free in the function, since no parameter has it.
    exact hf.bound x hmem (List.mem_filter.2 ⟨hx hmem, by simpa [paramNames] using hparam⟩)
  rw [hf.references_statics]
  refine Stmt.references_keptItems f.body.items htakable hscopes fun x hx => ?_
  exact Scope.declareAll_of_notMem fun hmem => hx (List.mem_append_left _ hmem)

/-- What renaming asks of a body holds of the one without static variables. -/
theorem Promotable.renamable (hf : f.Promotable p.renames fresh) (unit : String) :
    Stmt.Renamable (hoistStatics unit f.name p f.body.statics).2.1.renames fresh
      (Stmt.substmtsList f.body.withoutStatics.items) := by
  refine ⟨fun t ht x hx => ?_, fun t ht x hx => ?_, fun t ht d hd => ?_⟩
  all_goals obtain ⟨s, hs, hexprs, hdecls⟩ := Stmt.isFrom_of_mem_keptItems f.body.items ht
  · rw [Stmt.ownNames, hexprs, hdecls] at hx
    exact hf.inner x (List.mem_append_right _ (List.mem_flatMap.2 ⟨s, hs, hx⟩))
  · rw [hexprs] at hx
    have hcall : x ∈ Stmt.callsList f.body.items := List.mem_flatMap.2 ⟨s, hs, hx⟩
    have hstatic : x ∉ f.staticNames := fun hmem => hf.apart.uncalled x hmem hcall
    exact (lookup_hoistStatics unit f.name p hstatic).trans (hf.calls x hcall)
  · rw [hdecls] at hd
    exact hf.apart.selfFree d (List.mem_flatMap.2 ⟨s, hs, hd⟩)

/-- The static variables of a function as globals, and the new names. -/
def hoisting (unit : String) (p : Promotion) (f : FuncDef) : List Decl × Promotion × Tally :=
  hoistStatics unit f.name p f.body.statics

/-- The function without its static variables. -/
def promoted (unit : String) (p : Promotion) (f : FuncDef) : FuncDef :=
  { f with
    body := (f.body.withoutStatics.renameIds (f.hoisting unit p).2.1.renames f.paramNames).value }

/-- The function after its promoted static variables. -/
def promotedItems (unit : String) (p : Promotion) (f : FuncDef) : List Item :=
  (f.hoisting unit p).1.map Item.decl ++ [.func (f.promoted unit p)]

theorem promoteStatics_items {unit : String} {items : List Item} {q : Promotion} {tally : Tally}
    (h : f.promoteStatics unit p = .ok (items, q, tally)) :
    items = f.promotedItems unit p ∧ q.renames = p.renames ∧ p.taken ⊆ q.taken := by
  have hresult := promoteStatics_eq_ok h
  rw [Block.mapBlocksM_takeStatics] at hresult
  cases hresult
  exact ⟨rfl, rfl, taken_subset_hoistStatics unit f.name p f.body.statics⟩

section Hoisting

variable {unit : String} (hf : f.Promotable p.renames fresh) (hp : p.Sound fresh)
  (h : Scope.Mirrors p.renames fresh [] G G')
  (hnew : ∀ d ∈ (f.hoisting unit p).1, ∀ x, d.name = some x → x ∈ fresh)
include hf hp h hnew

theorem Promotable.references_hoisting :
    Decl.referencesList G' (f.hoisting unit p).1 = Decl.referencesList G f.body.statics ∧
      Scope.Mirrors (f.hoisting unit p).2.1.renames fresh [] (G.declareAll f.body.statics)
        (G'.declareAll (f.hoisting unit p).1) ∧
      (f.hoisting unit p).2.1.Sound fresh := by
  refine hoistStatics_references unit f.name h hp hf.hoistable hf.apart.ordered ?_ hnew
  intro d hd x hx hmem
  obtain ⟨-, c, hc⟩ := Block.declaresStatic_of_mem_statics hd
  exact hf.apart.uncalled x hmem (List.mem_flatMap.2 ⟨_, hc, hx⟩)

/-- The body after promotion, with the static variables known from outside. -/
theorem Promotable.references_promoted :
    (f.promoted unit p).references (G'.declareAll (f.hoisting unit p).1) =
      Decl.referencesList G f.params ++
        Stmt.referencesList ((f.outerScope G).declareAll f.params) f.body.withoutStatics.items := by
  -- The function's name comes before the static variables in one scope, after them in the other.
  obtain ⟨-, hscopes, hlast⟩ := hf.references_hoisting hp (hf.mirrors hp h) hnew
  have hcomm : (G'.declare f.decl).declareAll (f.hoisting unit p).1 =
      (G'.declareAll (f.hoisting unit p).1).declare f.decl := by
    refine Scope.declareAll_declare fun x hx hmem => (hf.name x hx).1 ?_
    obtain ⟨d, hd, hname⟩ := List.mem_filterMap.1 hmem
    exact hnew d hd x hname
  rw [hcomm] at hscopes
  have hinner := hscopes.declareAll hlast.into hf.paramNames_notMem
  have hitems := Stmt.references_mapScopedListM f.body.withoutStatics.items
    (Stmt.declsInBlocks_keptItems _ hf.apart.inBlocks) (hf.renamable unit) hinner hlast.into
  rw [List.append_nil] at hitems
  -- The sizes of parameters stay as they are, so they must not use a renamed variable.
  refine congrArg₂ (· ++ ·) (Decl.referencesList_congr fun x hx => ?_) hitems
  have hfresh : x ∉ fresh :=
    hf.inner x (List.mem_append_left _ (List.mem_append_left _ hx))
  rw [Scope.declareAll_of_notMem fun hmem => ?_, h.eq_of_none hfresh (hf.params x hx)]
  obtain ⟨d, hd, hname⟩ := List.mem_filterMap.1 hmem
  exact hfresh (hnew d hd x hname)

/-- The scopes after the function. -/
theorem Promotable.mirrors_promoted :
    Scope.Mirrors p.renames fresh [] (G.declare f.decl)
      ((G'.declareAll (f.hoisting unit p).1).declare f.decl) := by
  refine Scope.Mirrors.declareImage ⟨fun x hx => absurd hx List.not_mem_nil, fun x _ hx => ?_⟩ hp
    hf.name_eq_image rfl fun x hx => (hf.name x hx).1
  -- The hoisted variables have names that no name of the file leads to.
  rw [Scope.declareAll_of_notMem fun hmem => ?_]
  · exact h.shown x List.not_mem_nil hx
  · obtain ⟨d, hd, hname⟩ := List.mem_filterMap.1 hmem
    exact hp.image_ne (hnew d hd _ hname) (name_hoistStatics_notMem hd hname) hx rfl

/-- A function after its promoted static variables refers to what it did. -/
theorem Promotable.references_items :
    (Item.referencesList G' (f.promotedItems unit p) : Multiset Reference) = ↑(f.references G) := by
  have hvariables (d : Decl) (hd : d ∈ (f.hoisting unit p).1) : d.params = [] := by
    refine params_hoistStatics (fun d hd => ?_) d hd
    exact Decl.params_of_isStaticVariable (Block.declaresStatic_of_mem_statics hd).1
  have hbody := hf.references_promoted hp h hnew
  rw [promotedItems, Item.referencesList_append, Item.referencesList_map_decl hvariables,
    Item.map_toDecl_map_decl, (hf.references_hoisting hp h hnew).1, Item.referencesList,
    Item.references, hbody, references]
  simp only [Item.referencesList, List.append_nil, ← Multiset.coe_add, hf.apart.references_body]
  abel

end Hoisting

/-- The scope after a function and its promoted static variables. -/
theorem declareAll_items (unit : String) (p : Promotion) (f : FuncDef) (σ : Scope) :
    σ.declareAll ((f.promotedItems unit p).map Item.toDecl) =
      (σ.declareAll (f.hoisting unit p).1).declare f.decl := by
  rw [promotedItems, List.map_append, Item.map_toDecl_map_decl, Scope.declareAll_append]
  rfl

end Promotion

end FuncDef

end MathKernel
