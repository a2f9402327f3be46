import MathKernel.Proofs.Kernel.Extraction
import MathKernel.Proofs.Normalize.PromotedFunctions

/-!
# Promotion of static variables keeps what names refer to

One table of new names stands for all the static variables of a function, whatever blocks they are
declared in, and a new name only has to differ from the names at file level. So promotion goes wrong
where two static variables have one name, where a local variable has the name of one or hides a new
name, and where a static variable is taken before another one that it uses. If none of this is the
case, then every use of a name in the result refers to the declaration that it referred to, moved
and renamed or not.

Declarations are told apart by their positions, which promotion keeps.

## Main definitions

* `Item.IsPromotion` — an item after the file-level variables are renamed
* `SourceUnit.StaticsApart` — static variables and new names are apart from all else

## Main results

* `Item.references_promoteInItems` — promotion in the items of a file
* `SourceUnit.references_promoteStatics` — promotion keeps references if static variables are apart
* `SourceUnit.promoteStatics_mixes_statics` — it does not in general
-/

namespace MathKernel

namespace Item

/-- The name of a static variable at file level. -/
def staticName? : Item → Option String
  | decl d => if d.isStaticVariable then d.name else none
  | func _ => none

/-- The names that occur in an item, the one that it declares apart. -/
def innerNames : Item → List String
  | decl d => d.usedNames ++ d.params.flatMap Decl.usedNames
  | func f => f.innerNames

/-- The names that an item calls, in the sizes of parameters apart. -/
def calls : Item → List String
  | decl d => d.rootExprs.flatMap Expr.calls
  | func f => Stmt.callsList f.body.items

/-- The names in the sizes of parameters. -/
def paramUses (item : Item) : List String :=
  item.toDecl.params.flatMap Decl.usedNames

/-- The item with other storage classes. -/
def withStorage (storage : List Storage) : Item → Item
  | decl d => decl { d with storage }
  | func f => func (f.withStorage storage)

theorem withStorage_self (item : Item) : item.withStorage item.toDecl.storage = item := by
  cases item with
  | decl d => cases d; rfl
  | func f =>
    obtain ⟨⟨name, quals, storage, type, init, c⟩, body, c'⟩ := f
    rfl

/-! ### File-level variables -/

section Globals

variable {unit : String} {p : Promotion} {fresh base : List String} {item : Item}
  {items : List Item}

/-- A static variable gets a new name, and any other item loses at most a keyword. -/
theorem promoteGlobal_cases (unit : String) (p : Promotion) (item : Item) :
    (∃ d old new, item = decl d ∧ item.staticName? = some old ∧ d.name = some old ∧
      new ∉ p.taken ∧ item.promoteGlobal unit p = (decl (d.promote new),
        ⟨new :: p.taken, (old, new) :: p.renames, (new, old) :: p.promoted⟩, 1)) ∨
    item.staticName? = none ∧
      ∃ storage count, item.promoteGlobal unit p = (item.withStorage storage, p, count) := by
  -- An item that is left alone keeps its storage classes.
  have hself := (item.withStorage_self).symm
  cases item with
  | decl d =>
    simp only [staticName?, promoteGlobal]
    split
    · cases hname : d.name with
      | none => exact .inr ⟨rfl, _, 0, congrArg (·, p, 0) hself⟩
      | some old =>
        exact .inl ⟨d, old, _, rfl, rfl, hname, promotedName_notMem p.taken unit none old, rfl⟩
    · split
      · exact .inr ⟨rfl, _, 1, rfl⟩
      · exact .inr ⟨rfl, _, 0, congrArg (·, p, 0) hself⟩
  | func f =>
    simp only [promoteGlobal]
    split
    · exact .inr ⟨rfl, _, 1, rfl⟩
    · exact .inr ⟨rfl, _, 0, congrArg (·, p, 0) hself⟩

/-- Only the static variables get new names. -/
theorem lookup_promoteGlobals {x : String} (hx : x ∉ items.filterMap staticName?) :
    (promoteGlobals unit p items).2.1.renames.lookup x = p.renames.lookup x := by
  induction items generalizing p with
  | nil => rfl
  | cons item rest ih =>
    rcases promoteGlobal_cases unit p item with
      ⟨d, old, new, rfl, hstatic, -, -, hstep⟩ | ⟨hstatic, storage, count, hstep⟩
    · rw [List.filterMap_cons_some hstatic, List.mem_cons, not_or] at hx
      simp only [promoteGlobals, hstep, ih hx.2]
      exact Renames.lookup_cons_of_ne hx.1
    · rw [List.filterMap_cons_none hstatic] at hx
      simp only [promoteGlobals, hstep, ih hx]

theorem sound_promoteGlobals (hp : p.Sound fresh) (hbase : base ⊆ p.taken)
    (hnew : ∀ x ∈ (promoteGlobals unit p items).1.filterMap name?, x ∈ base ∨ x ∈ fresh) :
    (promoteGlobals unit p items).2.1.Sound fresh ∧
      base ⊆ (promoteGlobals unit p items).2.1.taken := by
  induction items generalizing p with
  | nil => exact ⟨hp, hbase⟩
  | cons item rest ih =>
    rcases promoteGlobal_cases unit p item with
      ⟨d, old, new, rfl, -, -, htaken, hstep⟩ | ⟨-, storage, count, hstep⟩
    · simp only [promoteGlobals, hstep] at hnew ⊢
      have hnames := List.forall_mem_cons.1 hnew
      have hfresh : new ∈ fresh := hnames.1.resolve_left fun hmem => htaken (hbase hmem)
      exact ih (hp.add hfresh htaken _) (List.subset_cons_of_subset _ hbase) hnames.2
    · simp only [promoteGlobals, hstep] at hnew ⊢
      exact ih hp hbase fun x hx =>
        hnew x (((List.sublist_cons_self _ _).filterMap name?).subset hx)

end Globals

/-- What the first step makes of an item: a declaration whose name is the new one, or a function
whose name stays. -/
inductive IsPromotion (R : Renames) : Item → Item → Prop
  | decl {d d' : Decl} (hname : d'.name = d.name.map R.image) (hcoord : d'.coord = d.coord)
      (hsize : d'.size? = d.size?) (hinit : d'.init = d.init) (hparams : d'.params = d.params) :
      IsPromotion R (.decl d) (.decl d')
  | func {f : FuncDef} (storage : List Storage)
      (hname : ∀ x, f.decl.name = some x → R.lookup x = none) :
      IsPromotion R (.func f) (withStorage storage (.func f))

theorem IsPromotion.withStorage {R : Renames} {item : Item}
    (hname : ∀ x, item.name? = some x → R.lookup x = none) (storage : List Storage) :
    IsPromotion R item (item.withStorage storage) := by
  cases item with
  | decl d =>
    have himage : d.name = d.name.map R.image := (Renames.map_image_of_none hname).symm
    exact .decl himage rfl rfl rfl rfl
  | func f => exact .func storage hname

theorem name?_of_staticName? {item : Item} {x : String} (h : item.staticName? = some x) :
    item.name? = some x := by
  cases item with
  | decl d =>
    simp only [staticName?] at h
    split at h
    · exact h
    · cases h
  | func f => cases h

/-- If the items have one name, then neither is a static variable. -/
def Apart (item other : Item) : Prop :=
  item.name? = other.name? → item.staticName? = none ∧ other.staticName? = none

instance (item other : Item) : Decidable (item.Apart other) :=
  inferInstanceAs (Decidable (item.name? = other.name? → _))

theorem isPromotion_promoteGlobals {unit : String} {p : Promotion} {items : List Item}
    (honce : items.Pairwise Apart) (hp : ∀ x ∈ items.filterMap name?, p.renames.lookup x = none) :
    List.Forall₂ (IsPromotion (promoteGlobals unit p items).2.1.renames) items
      (promoteGlobals unit p items).1 := by
  induction items generalizing p with
  | nil => exact .nil
  | cons item rest ih =>
    obtain ⟨hhead, hrest⟩ := List.pairwise_cons.1 honce
    have hnames (x : String) (hx : x ∈ rest.filterMap name?) : p.renames.lookup x = none :=
      hp x (((List.sublist_cons_self item rest).filterMap name?).subset hx)
    -- No later variable has the name, so what is said of it here is not changed.
    have hlater {x : String} (hx : item.name? = some x) : x ∉ rest.filterMap staticName? := by
      intro hmem
      obtain ⟨other, hother, hstatic⟩ := List.mem_filterMap.1 hmem
      have hnone := (hhead other hother (hx.trans (name?_of_staticName? hstatic).symm)).2
      exact Option.some_ne_none x (hstatic.symm.trans hnone)
    rcases promoteGlobal_cases unit p item with
      ⟨d, old, new, rfl, hstatic, hname, -, hstep⟩ | ⟨-, storage, count, hstep⟩
    · simp only [promoteGlobals, hstep]
      refine .cons (.decl ?_ rfl (d.size?_promote new) rfl (d.params_promote new)) (ih hrest ?_)
      · rw [hname, Option.map_some, Renames.image_of_lookup]
        · rfl
        · rw [lookup_promoteGlobals (hlater hname)]
          exact List.lookup_cons_self
      · intro x hx
        refine (Renames.lookup_cons_of_ne fun heq => ?_).trans (hnames x hx)
        obtain ⟨other, hother, hx⟩ := List.mem_filterMap.1 hx
        have hnone := (hhead other hother (hname.trans (heq ▸ hx.symm))).1
        exact Option.some_ne_none old (hstatic.symm.trans hnone)
    · simp only [promoteGlobals, hstep]
      refine .cons (.withStorage (fun x hx => ?_) storage) (ih hrest hnames)
      rw [lookup_promoteGlobals (hlater hx)]
      exact hp x (List.mem_filterMap.2 ⟨item, List.mem_cons_self, hx⟩)

/-! ### Items -/

/-- What promotion asks of an item, for given new names of file-level variables. -/
structure Promotable (R : Renames) (fresh : List String) (item : Item) : Prop where
  apart : ∀ f, item = func f → f.StaticsApart
  name : ∀ x, item.name? = some x → x ∉ fresh
  inner : ∀ x ∈ item.innerNames, x ∉ fresh
  calls : ∀ x ∈ item.calls, R.lookup x = none
  params : ∀ x ∈ item.paramUses, R.lookup x = none

section Promotion

variable {unit : String} {p : Promotion} {fresh base : List String} {G G' : Scope}

/-- Renaming in a declaration at file level, given the scopes before and after it. -/
theorem Promotable.references_decl {d d' : Decl} (hitem : (decl d).Promotable p.renames fresh)
    (h : Scope.Mirrors p.renames fresh [] G G')
    (hafter : Scope.Mirrors p.renames fresh [] (G.declare d)
      (G'.declare (d'.renameIds p.renames).value))
    (hsize : d'.size? = d.size?) (hinit : d'.init = d.init) (hparams : d'.params = d.params) :
    (decl (d'.renameIds p.renames).value).references G' = (decl d).references G := by
  have hsize' : (d'.renameIds p.renames).value.size?.toList =
      d.size?.toList.map fun e => (e.renameIds p.renames []).value :=
    hsize ▸ Decl.size?_mapExprsM _ d'
  have hinit' : (d'.renameIds p.renames).value.init.toList =
      d.init.toList.map fun e => (e.renameIds p.renames []).value :=
    hinit ▸ mapOptionM_toList _ d'.init
  have hparams' : (d'.renameIds p.renames).value.params = d.params :=
    (Decl.params_mapExprsM _ d').trans hparams
  have hsub {es : List Expr} {x : String} (hes : es ⊆ d.rootExprs)
      (hx : x ∈ es.flatMap Expr.names) : x ∉ fresh :=
    hitem.inner x (List.mem_append_left _ (flatMap_subset_of_subset _ hes hx))
  rw [references, references, Decl.references, Decl.references, hsize', hinit', hparams']
  refine congrArg₂ (· ++ ·) (congrArg₂ (· ++ ·) (h.references ?_ ?_) (hafter.references ?_ ?_))
    (Decl.referencesList_congr fun x hx => ?_)
  · exact fun x hx => hsub (List.subset_append_left _ _) hx
  · exact fun x hx => hitem.calls x (flatMap_subset_of_subset _ (List.subset_append_left _ _) hx)
  · exact fun x hx => hsub (List.subset_append_right _ _) hx
  · exact fun x hx => hitem.calls x (flatMap_subset_of_subset _ (List.subset_append_right _ _) hx)
  · exact h.eq_of_none (hitem.inner x (List.mem_append_right _ hx)) (hitem.params x hx)

theorem Promotable.funcDef {R : Renames} {f : FuncDef} (hitem : (func f).Promotable R fresh)
    (hname : ∀ x, f.decl.name = some x → R.lookup x = none) (storage : List Storage) :
    (f.withStorage storage).Promotable R fresh where
  apart := (hitem.apart f rfl).withStorage storage
  name x hx := ⟨hitem.name x hx, hname x hx⟩
  inner := hitem.inner
  calls := hitem.calls
  params := hitem.params

/-- The names of hoisted variables are new. -/
theorem mem_fresh_of_hoisting {f : FuncDef} (hbase : base ⊆ p.taken)
    (hnew : ∀ x ∈ (f.promotedItems unit p).filterMap name?, x ∈ base ∨ x ∈ fresh)
    (d : Decl) (hd : d ∈ (f.hoisting unit p).1) (x : String) (hx : d.name = some x) :
    x ∈ fresh := by
  have hmem : x ∈ (f.promotedItems unit p).filterMap name? :=
    List.mem_filterMap.2 ⟨decl d, List.mem_append_left _ (List.mem_map_of_mem hd), hx⟩
  exact (hnew x hmem).resolve_left fun hold => name_hoistStatics_notMem hd hx (hbase hold)

/-- Promotion in the items of a file keeps their references. -/
theorem references_promoteInItems {R : Renames} {items items' : List Item}
    {result : List Item × Tally} (hitems : List.Forall₂ (IsPromotion R) items items')
    (hR : p.renames = R) (hfit : ∀ item ∈ items, item.Promotable R fresh) (hp : p.Sound fresh)
    (hbase : base ⊆ p.taken) (h : Scope.Mirrors R fresh [] G G')
    (hresult : promoteInItems unit p items' = .ok result)
    (hnew : ∀ x ∈ result.1.filterMap name?, x ∈ base ∨ x ∈ fresh) :
    (referencesList G' result.1 : Multiset Reference) = ↑(referencesList G items) := by
  -- Functions take more names but leave the table of file-level variables as it is.
  induction hitems generalizing p G G' result with
  | nil =>
    cases hresult
    rfl
  | @cons item item' rest rest' hitem _ ih =>
    subst hR
    obtain ⟨hhere, hrest⟩ := List.forall_mem_cons.1 hfit
    cases hitem with
    | @decl d d' hname hcoord hsize hinit hparams =>
      obtain ⟨⟨out, tally⟩, hout, hlast⟩ := Except.bind_eq_ok hresult
      cases hlast
      have hafter : Scope.Mirrors p.renames fresh [] (G.declare d)
          (G'.declare (d'.renameIds p.renames).value) :=
        h.declareImage hp hname hcoord hhere.name
      have hreferences := hhere.references_decl h hafter hsize hinit hparams
      have hothers := ih rfl hrest hp hbase hafter hout fun x hx =>
        hnew x (((List.sublist_cons_self _ _).filterMap name?).subset hx)
      simp only [referencesList, ← Multiset.coe_add, hreferences]
      exact congrArg _ hothers
    | @func f storage hname =>
      have hf := hhere.funcDef hname storage
      obtain ⟨⟨items, q, here⟩, hfunction, hresult⟩ := Except.bind_eq_ok hresult
      obtain ⟨⟨out, tally⟩, hout, hlast⟩ := Except.bind_eq_ok hresult
      obtain ⟨rfl, hrenames, htaken⟩ := FuncDef.promoteStatics_items hfunction
      cases hlast
      rw [List.filterMap_append, List.forall_mem_append] at hnew
      have hhoisted := mem_fresh_of_hoisting hbase hnew.1
      have hreferences := hf.references_items hp h hhoisted
      have hothers := ih hrenames hrest (hp.mono hrenames htaken) (List.Subset.trans hbase htaken)
        (hf.mirrors_promoted hp h hhoisted) hout hnew.2
      rw [referencesList_append, FuncDef.declareAll_items, ← Multiset.coe_add, hreferences, hothers]
      rfl

/-- The names of items are still there after promotion. -/
theorem exists_name?_promoteInItems {items : List Item} {result : List Item × Tally}
    (hresult : promoteInItems unit p items = .ok result) {item : Item} (hitem : item ∈ items) :
    ∃ other ∈ result.1, other.name? = item.name? := by
  induction items generalizing p result with
  | nil => cases hitem
  | cons first rest ih =>
    cases first with
    | decl d =>
      obtain ⟨⟨out, tally⟩, hout, hlast⟩ := Except.bind_eq_ok hresult
      cases hlast
      rcases List.mem_cons.1 hitem with rfl | hitem
      · exact ⟨_, List.mem_cons_self, rfl⟩
      · obtain ⟨other, hother, hname⟩ := ih hout hitem
        exact ⟨other, List.mem_cons_of_mem _ hother, hname⟩
    | func f =>
      obtain ⟨⟨items, q, here⟩, hfunction, hresult⟩ := Except.bind_eq_ok hresult
      obtain ⟨⟨out, tally⟩, hout, hlast⟩ := Except.bind_eq_ok hresult
      obtain ⟨rfl, -⟩ := FuncDef.promoteStatics_items hfunction
      cases hlast
      rcases List.mem_cons.1 hitem with rfl | hitem
      · have hmem : func (f.promoted unit p) ∈ f.promotedItems unit p :=
          List.mem_append_right _ (List.mem_singleton.2 rfl)
        exact ⟨_, List.mem_append_left _ hmem, rfl⟩
      · obtain ⟨other, hother, hname⟩ := ih hout hitem
        exact ⟨other, List.mem_append_right _ hother, hname⟩

end Promotion

end Item

/-! ### Units -/

namespace SourceUnit

/-- The names of static variables at file level. -/
def staticNames (u : SourceUnit) : List String :=
  u.items.filterMap Item.staticName?

/-- The names that the second unit declares at file level and the first one does not. -/
def newNames (u v : SourceUnit) : List String :=
  v.itemNames.filter fun x => !u.itemNames.contains x

/-- The static variables of a unit can be told from everything else by their names, and so can the
ones that they become in the second unit. -/
structure StaticsApart (u v : SourceUnit) : Prop where
  functions : ∀ f ∈ u.funcs, f.StaticsApart
  /-- No other item declares the name of a static variable. -/
  once : u.items.Pairwise Item.Apart
  /-- No static variable is called, and none is used in the size of a parameter. -/
  uncalled : ∀ x ∈ u.staticNames, x ∉ u.items.flatMap Item.calls
  params : ∀ x ∈ u.staticNames, x ∉ u.items.flatMap Item.paramUses
  /-- No new name occurs anywhere in the unit. -/
  fresh : ∀ x ∈ u.newNames v, x ∉ u.items.flatMap Item.innerNames

/-- If the static variables and the names they get are apart from all else, then in the result every
use of a name refers to the declaration it referred to. -/
theorem references_promoteStatics {unit : String} {u v : SourceUnit} {tally : Tally}
    (h : u.promoteStatics unit = .ok (v, tally)) (hu : u.StaticsApart v) :
    v.references.Perm u.references := by
  obtain ⟨⟨items, tally'⟩, hitems, hlast⟩ := Except.bind_eq_ok h
  cases hlast
  -- A name in the result is one of the unit or new.
  have hnew (x : String) (hx : x ∈ items.filterMap Item.name?) :
      x ∈ u.itemNames ∨ x ∈ u.newNames ⟨items, u.coord⟩ := by
    by_cases hmem : x ∈ u.itemNames
    · exact .inl hmem
    · exact .inr (List.mem_filter.2 ⟨hx, by simpa using hmem⟩)
  obtain ⟨hp, hbase⟩ := Item.sound_promoteGlobals (.start _ u.itemNames) (List.Subset.refl _)
    fun x hx => by
      obtain ⟨item, hitem, hname⟩ := List.mem_filterMap.1 hx
      obtain ⟨other, hother, hsame⟩ := Item.exists_name?_promoteInItems hitems hitem
      exact hnew x (List.mem_filterMap.2 ⟨other, hother, hsame.trans hname⟩)
  have hrenames (x : String) (hx : x ∉ u.staticNames) :
      (promoteGlobals unit ⟨u.itemNames, [], []⟩ u.items).2.1.renames.lookup x = none :=
    Item.lookup_promoteGlobals hx
  -- Before the first item nothing is known in either scope.
  refine Multiset.coe_eq_coe.1 (Item.references_promoteInItems
    (Item.isPromotion_promoteGlobals hu.once fun _ _ => rfl) rfl (fun item hitem => ?_) hp hbase
    ⟨fun _ _ => rfl, fun _ _ _ => rfl⟩ hitems hnew)
  refine ⟨fun f hf => hu.functions f ?_, fun x hx hmem => ?_, fun x hx hmem => ?_,
    fun x hx => hrenames x fun hstatic => ?_, fun x hx => hrenames x fun hstatic => ?_⟩
  · exact List.mem_filterMap.2 ⟨item, hitem, by rw [hf]⟩
  · have hold : x ∈ u.itemNames := List.mem_filterMap.2 ⟨item, hitem, hx⟩
    simpa [hold] using (List.mem_filter.1 hmem).2
  · exact hu.fresh x hmem (List.mem_flatMap.2 ⟨item, hitem, hx⟩)
  · exact hu.uncalled x hstatic (List.mem_flatMap.2 ⟨item, hitem, hx⟩)
  · exact hu.params x hstatic (List.mem_flatMap.2 ⟨item, hitem, hx⟩)

/-- A scalar variable at a position. -/
def scalarAt (name : String) (storage : List Storage) (init : Option Expr) (c : Coord) : Decl :=
  { Decl.ofScalar name .float init with storage, coord := c }

/-- A function of one variable at a position. -/
def functionAt (name : String) (param : Decl) (items : List Stmt) (c : Coord) : FuncDef :=
  ⟨{ Decl.prototype name .float [param] with coord := c }, ⟨items, none⟩, c⟩

/-- The unit `static float scale = 2; float f(float x) { static float bias = 1; if (x) { float
scale = bias; return scale; } return scale; }`. -/
def hiddenStatic : SourceUnit :=
  ⟨[.decl (scalarAt "scale" [.static] (some (.int 2 none)) (some "1")),
    .func (functionAt "f" (scalarAt "x" [] none (some "3"))
      [.decl (scalarAt "bias" [.static] (some (.int 1 none)) (some "4")) none,
        .ifThen (.id "x" (some "5"))
          (.block [.decl (scalarAt "scale" [] (some (.id "bias" (some "6"))) (some "7")) none,
            .ret (some (.id "scale" (some "8"))) none] none none) none,
        .ret (some (.id "scale" (some "9"))) none] (some "2"))], none⟩

theorem references_promoteStatics_hiddenStatic : ∃ v tally,
    hiddenStatic.promoteStatics "unit" = .ok (v, tally) ∧
      v.references.Perm hiddenStatic.references := by
  obtain ⟨v, tally, h⟩ : ∃ v tally, hiddenStatic.promoteStatics "unit" = .ok (v, tally) :=
    ⟨_, _, rfl⟩
  have hnames : hiddenStatic.newNames v = ["unit_scale", "unit_bias"] := by
    cases h
    decide +kernel
  have hfunctions : ∀ f ∈ hiddenStatic.funcs, f.StaticsApart := by
    simp only [hiddenStatic, funcs, List.filterMap_cons, List.filterMap_nil, List.forall_mem_cons]
    refine ⟨?_, fun f hf => absurd hf List.not_mem_nil⟩
    constructor <;> decide
  refine ⟨v, tally, h, references_promoteStatics h ⟨hfunctions, ?_, ?_, ?_, ?_⟩⟩
  · decide
  · decide
  · decide
  · rw [hnames]
    decide

/-- The unit `float f(float x) { if (x) { static float A = 1; return A; } else { static float A = 2;
return A; } }`. -/
def twinStatics : SourceUnit :=
  ⟨[.func (functionAt "f" (scalarAt "x" [] none (some "2"))
      [.ifElse (.id "x" (some "3"))
        (.block [.decl (scalarAt "A" [.static] (some (.int 1 none)) (some "4")) none,
          .ret (some (.id "A" (some "5"))) none] none none)
        (.block [.decl (scalarAt "A" [.static] (some (.int 2 none)) (some "6")) none,
          .ret (some (.id "A" (some "7"))) none] none none) none] (some "1"))], none⟩

/-- Of two static variables of one name, uses of the first refer to the second after promotion. -/
theorem promoteStatics_mixes_statics :
    ¬ ∀ (unit : String) (u v : SourceUnit) (tally : Tally),
      u.promoteStatics unit = .ok (v, tally) → v.references.Perm u.references := by
  intro h
  have hperm := h "unit" twinStatics _ _ rfl
  have hfirst : (some "5", some (some "4")) ∈ twinStatics.references := by decide
  -- In the result the use at 5 refers to the declaration at 6.
  rw [← hperm.mem_iff] at hfirst
  revert hfirst
  decide

end SourceUnit

end MathKernel
