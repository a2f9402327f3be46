import MathKernel.Proofs.Normalize.RenamedWrites
import MathKernel.Proofs.Normalize.StaticBindings

/-!
# Writes to static variables

Promotion looks for writes after it has renamed, and it goes by spelling: a write whose variable is
spelled like a promoted one is an error. One table of new names stands for all the static variables
of a function, so a write goes unnoticed where a parameter or another variable of its name hides the
static variable from renaming, and a write to something else is taken for one where only another
block has a static variable of its name. If neither is the case, and no written name is spelled like
a new one, then a unit is rejected if and only if it writes to a static variable.

## Main definitions

* `FuncDef.bindsStatic` — whether a write goes to a static variable
* `SourceUnit.WritesStatic` — some function writes to a static variable
* `FuncDef.WritesApart` — written static variables can be told by their names

## Main results

* `FuncDef.WritesApart.mem_newNames_iff` — spelling tells which writes go to static variables
* `Item.rejects_promoteInItems_iff` — which functions of a file are rejected
* `SourceUnit.promoteStatics_rejects_iff` — a unit is rejected if and only if it writes to one
* `SourceUnit.promoteStatics_misses_writes` — neither direction holds in general
-/

namespace MathKernel

/-- A step that cannot fail adds no error. -/
theorem Except.bind_ok_eq_error {ε α β : Type} {x : Except ε α} {g : α → β} {e : ε} :
    (x >>= fun a => .ok (g a)) = .error e ↔ x = .error e := by
  cases x <;> simp [bind, Except.bind]

/-! ### New names -/

namespace Promotion

/-- The names that promoted variables have got. -/
def newNames (p : Promotion) : List String :=
  p.promoted.map Prod.fst

/-- The given names lead to new ones, and no other name is changed. -/
structure Tracks (p : Promotion) (names : List String) : Prop where
  renamed : ∀ x ∈ names, p.renames.image x ∈ p.newNames
  kept : ∀ x ∉ names, p.renames.image x = x

namespace Tracks

variable {p q : Promotion} {names names' : List String}

theorem start (taken : List String) : Tracks ⟨taken, [], []⟩ [] where
  renamed _ hx := absurd hx List.not_mem_nil
  kept _ _ := rfl

theorem congr (h : p.Tracks names) (hnames : ∀ x, x ∈ names ↔ x ∈ names') : p.Tracks names' where
  renamed x hx := h.renamed x ((hnames x).2 hx)
  kept x hx := h.kept x fun hmem => hx ((hnames x).1 hmem)

/-- One more variable is promoted. -/
theorem add (h : p.Tracks names) (old new : String) (taken : List String) :
    Tracks ⟨taken, (old, new) :: p.renames, (new, old) :: p.promoted⟩ (old :: names) where
  renamed x hx := by
    by_cases hold : x = old
    · rw [hold, Renames.image_cons_self]
      exact List.mem_cons_self
    · rw [Renames.image_cons_of_ne hold]
      exact List.mem_cons_of_mem _ (h.renamed x ((List.mem_cons.1 hx).resolve_left hold))
  kept x hx := by
    rw [List.mem_cons, not_or] at hx
    rw [Renames.image_cons_of_ne hx.1]
    exact h.kept x hx.2

/-- The table stays, and more variables are promoted. -/
theorem mono (h : p.Tracks names) (hrenames : q.renames = p.renames)
    (hnew : p.newNames ⊆ q.newNames) : q.Tracks names where
  renamed x hx := hnew (hrenames ▸ h.renamed x hx)
  kept x hx := hrenames ▸ h.kept x hx

/-- Promoting the static variables of a function. -/
theorem hoist (h : p.Tracks names) (unit function : String) (ds : List Decl) :
    (hoistStatics unit function p ds).2.1.Tracks (ds.filterMap Decl.name ++ names) := by
  induction ds generalizing p names with
  | nil => exact h
  | cons d rest ih =>
    unfold hoistStatics
    cases hname : d.name with
    | none =>
      rw [List.filterMap_cons_none hname]
      exact ih h
    | some old =>
      -- A second variable of the name would take the entry over, and the name is still renamed.
      rw [List.filterMap_cons_some hname]
      exact (ih (h.add old _ _)).congr fun x => List.perm_middle.mem_iff

/-- Promoting the static variables at file level. -/
theorem globals (h : p.Tracks names) (unit : String) (items : List Item) :
    (promoteGlobals unit p items).2.1.Tracks (items.filterMap Item.staticName? ++ names) := by
  induction items generalizing p names with
  | nil => exact h
  | cons item rest ih =>
    rcases Item.promoteGlobal_cases unit p item with
      ⟨d, old, new, rfl, hstatic, -, -, hstep⟩ | ⟨hstatic, storage, count, hstep⟩
    · rw [List.filterMap_cons_some hstatic]
      simp only [promoteGlobals, hstep]
      exact (ih (h.add old new _)).congr fun x => List.perm_middle.mem_iff
    · rw [List.filterMap_cons_none hstatic]
      simp only [promoteGlobals, hstep]
      exact ih h

end Tracks

theorem newNames_subset_hoistStatics (unit function : String) (p : Promotion) (ds : List Decl) :
    p.newNames ⊆ (hoistStatics unit function p ds).2.1.newNames := by
  induction ds generalizing p with
  | nil => exact List.Subset.refl _
  | cons d rest ih =>
    unfold hoistStatics
    split
    · exact ih p
    · exact fun x hx => ih ⟨_, _, _⟩ (List.mem_cons_of_mem _ hx)

theorem mem_newNames {p : Promotion} {x : String} :
    x ∈ p.newNames ↔ (p.promoted.lookup x).isSome := by
  rw [List.lookup_isSome_iff, newNames, List.mem_map]
  refine exists_congr fun entry => and_congr_right fun _ => ?_
  rw [beq_iff_eq, eq_comm]

end Promotion

/-- A body writes to a promoted variable if one of the written names is new. -/
theorem Block.isSome_writtenStatic? (b : Block) (p : Promotion) :
    (b.writtenStatic? p.promoted).isSome ↔
      ∃ x ∈ (Stmt.writesList b.items).map Prod.snd, x ∈ p.newNames := by
  rw [← b.filterMap_written?]
  simp only [writtenStatic?, List.findSome?_isSome_iff, List.mem_filterMap, Promotion.mem_newNames]
  constructor
  · rintro ⟨e, he, hwritten⟩
    obtain ⟨name, hname⟩ := Option.isSome_iff_exists.1 hwritten
    obtain ⟨x, hx, hlookup⟩ := Option.bind_eq_some_iff.1 hname
    exact ⟨x, ⟨e, he, hx⟩, Option.isSome_iff_exists.2 ⟨name, hlookup⟩⟩
  · rintro ⟨x, ⟨e, he, hx⟩, hlookup⟩
    refine ⟨e, he, ?_⟩
    have hroot : e.writeTarget?.bind Expr.lvalueRoot? = some x := hx
    rwa [hroot]

namespace FuncDef

/-! ### Writes of functions -/

/-- The writes in the body of a function. -/
def writes (f : FuncDef) : List Write :=
  Stmt.writesList f.body.items

/-- Whether a write goes to a static variable, given the names of those at file level. It goes to
the innermost variable of the name: one of the body, else a parameter, else one at file level. -/
def bindsStatic (known : List String) (f : FuncDef) (w : Write) : Bool :=
  match w.1.reverse.find? fun d => d.name == some w.2 with
  | some d => d.isStaticVariable
  | none => !f.paramNames.contains w.2 && known.contains w.2

/-- Written static variables can be told by their names, for given names of static variables that
are known before the function and in the whole file, and of promoted ones. -/
structure WritesApart (known globals fresh : List String) (f : FuncDef) : Prop where
  /-- No declaration stands alone as a branch or loop body. -/
  inBlocks : Stmt.declsInBlocksList f.body.items
  /-- Every static variable is an item of a block, so that it is taken out, and its size and
  initializer write to nothing. -/
  taken : ∀ d ∈ Stmt.declsList f.body.withoutStatics.items, d.isStaticVariable = false
  constant : ∀ d ∈ f.body.statics, d.rootExprs.flatMap Expr.writtenNames = []
  /-- No other initializer writes to the variable that it is for. -/
  initKeeps : ∀ d ∈ Stmt.declsList f.body.withoutStatics.items, d.InitKeeps
  /-- No written name is a new one. -/
  fresh : ∀ w ∈ f.writes, w.2 ∉ fresh
  /-- A written static variable of the body hides no parameter and no other variable of it. -/
  hides : ∀ w ∈ f.writes, f.bindsStatic [] w →
    w.2 ∉ w.dropStatics.1.filterMap Decl.name ++ f.paramNames
  /-- What is written outside the body and has the name of a static variable is one. -/
  outside : ∀ w ∈ f.writes, w.2 ∉ w.1.filterMap Decl.name ++ f.paramNames →
    w.2 ∈ f.staticNames ++ globals → w.2 ∈ known

section Writes

variable {unit : String} {known globals fresh : List String} {p q : Promotion} {f : FuncDef}
  {w : Write}

/-- What is promoted after a function, with the table from before it. -/
def promotion (unit : String) (p : Promotion) (f : FuncDef) : Promotion :=
  { (f.hoisting unit p).2.1 with renames := p.renames }

/-- A write goes to a variable of the body, or else to a parameter or out of the function. -/
theorem bindsStatic_cases (f : FuncDef) (w : Write) :
    (∃ d ∈ w.1, d.name = some w.2 ∧ ∀ known, f.bindsStatic known w = d.isStaticVariable) ∨
    w.2 ∉ w.1.filterMap Decl.name ∧
      ∀ known, f.bindsStatic known w = (!f.paramNames.contains w.2 && known.contains w.2) := by
  cases hfind : w.1.reverse.find? fun d => d.name == some w.2 with
  | some d =>
    refine .inl ⟨d, List.mem_reverse.1 (List.mem_of_find?_eq_some hfind), ?_, fun known => ?_⟩
    · simpa using List.find?_some hfind
    · rw [bindsStatic, hfind]
  | none =>
    refine .inr ⟨fun hmem => ?_, fun known => ?_⟩
    · obtain ⟨d, hd, hname⟩ := List.mem_filterMap.1 hmem
      simpa [hname] using List.find?_eq_none.1 hfind d (List.mem_reverse.2 hd)
    · rw [bindsStatic, hfind]

theorem WritesApart.takes (hf : f.WritesApart known globals fresh) :
    Write.Takes f.body.statics f.writes (Stmt.writesList f.body.withoutStatics.items) := by
  refine Stmt.takes_writesList f.body.items (fun d hd => ?_) hf.taken
  rw [← List.map_eq_nil_iff, Decl.map_snd_writes]
  exact hf.constant d hd

/-- A write is spelled like a promoted variable if and only if it goes to a static one. -/
theorem WritesApart.mem_newNames_iff (hf : f.WritesApart known globals fresh)
    (hq : q.Tracks (f.staticNames ++ globals)) (hnew : q.newNames ⊆ fresh)
    (hknown : known ⊆ globals) (hw : w ∈ f.writes) :
    w.dropStatics.spelling q.renames f.paramNames ∈ q.newNames ↔ f.bindsStatic known w := by
  have hspelled : w.2 ∉ q.newNames := fun hmem => hf.fresh w hw (hnew hmem)
  have hkept (h : w.2 ∈ w.dropStatics.1.filterMap Decl.name ++ f.paramNames) :
      w.dropStatics.spelling q.renames f.paramNames = w.2 :=
    if_pos h
  have hrenamed (h : w.2 ∉ w.dropStatics.1.filterMap Decl.name ++ f.paramNames) :
      w.dropStatics.spelling q.renames f.paramNames = q.renames.image w.2 :=
    if_neg h
  rcases f.bindsStatic_cases w with ⟨d, hd, hname, hbinds⟩ | ⟨hbody, hbinds⟩
  · rw [hbinds]
    cases hstatic : d.isStaticVariable with
    | true =>
      -- Nothing is left around the write that hides the name, so it is renamed.
      have hfree := hf.hides w hw ((hbinds []).trans hstatic)
      have hmem : w.2 ∈ f.staticNames :=
        List.mem_filterMap.2 ⟨d, hf.takes.statics w hw d hd hstatic, hname⟩
      rw [hrenamed hfree]
      exact iff_of_true (hq.renamed w.2 (List.mem_append_left _ hmem)) rfl
    | false =>
      -- The variable itself is left around the write and hides the name.
      have hleft : w.2 ∈ w.dropStatics.1.filterMap Decl.name :=
        List.mem_filterMap.2 ⟨d, List.mem_filter.2 ⟨hd, by simp [hstatic]⟩, hname⟩
      rw [hkept (List.mem_append_left _ hleft)]
      exact iff_of_false hspelled Bool.false_ne_true
  · have hleft : w.2 ∉ w.dropStatics.1.filterMap Decl.name := fun hmem =>
      hbody ((List.filter_sublist.filterMap Decl.name).subset hmem)
    rw [hbinds]
    -- Static variables of other blocks do not matter, unless the name is written from outside.
    by_cases hparam : w.2 ∈ f.paramNames
    · rw [hkept (List.mem_append_right _ hparam)]
      exact iff_of_false hspelled (by simp [hparam])
    · have hfree : w.2 ∉ w.dropStatics.1.filterMap Decl.name ++ f.paramNames := by
        simp [hleft, hparam]
      rw [hrenamed hfree]
      by_cases hstatic : w.2 ∈ f.staticNames ++ globals
      · have hmem := hf.outside w hw (by simp [hbody, hparam]) hstatic
        exact iff_of_true (hq.renamed w.2 hstatic) (by simp [hparam, hmem])
      · have hmem : w.2 ∉ known := fun hmem => hstatic (List.mem_append_right _ (hknown hmem))
        rw [hq.kept w.2 hstatic]
        exact iff_of_false hspelled (by simp [hmem])

/-- The names that the body writes to after promotion. -/
theorem WritesApart.map_snd_writes_promoted (hf : f.WritesApart known globals fresh) :
    (f.promoted unit p).writes.map Prod.snd =
      f.writes.map fun w =>
        w.dropStatics.spelling (f.hoisting unit p).2.1.renames f.paramNames := by
  refine (Stmt.writesList_mapScopedListM f.body.withoutStatics.items f.paramNames
    (Stmt.declsInBlocks_keptItems _ hf.inBlocks) hf.initKeeps).trans ?_
  rw [hf.takes.left_eq, List.map_map]
  rfl

/-- The function writes to a static variable, given the names of those at file level. -/
def WritesStatic (known : List String) (f : FuncDef) : Prop :=
  ∃ w ∈ f.writes, f.bindsStatic known w

instance : Decidable (f.WritesStatic known) :=
  inferInstanceAs (Decidable (∃ w ∈ f.writes, f.bindsStatic known w))

theorem newNames_subset_promotion (unit : String) (p : Promotion) (f : FuncDef) :
    p.newNames ⊆ (f.promotion unit p).newNames :=
  Promotion.newNames_subset_hoistStatics unit f.name p f.body.statics

/-- A function is rejected if its body writes to a new name. -/
theorem promoteStatics_eq (unit : String) (p : Promotion) (f : FuncDef) :
    ∃ tally, f.promoteStatics unit p =
      match (f.promoted unit p).body.writtenStatic? (f.hoisting unit p).2.1.promoted with
      | some name => .error (.staticReassigned name f.name)
      | none => .ok (f.promotedItems unit p, f.promotion unit p, tally) := by
  rw [promoteStatics, Block.mapBlocksM_takeStatics]
  exact ⟨_, rfl⟩

/-- A function that writes to a static variable is rejected, and any other one is not. -/
theorem WritesApart.promoteStatics_cases (hf : f.WritesApart known globals fresh)
    (hp : p.Tracks globals) (hnew : (f.promotion unit p).newNames ⊆ fresh)
    (hknown : known ⊆ globals) :
    (f.WritesStatic known ∧
      ∃ name, f.promoteStatics unit p = .error (.staticReassigned name f.name)) ∨
    (¬ f.WritesStatic known ∧
      ∃ items tally, f.promoteStatics unit p = .ok (items, f.promotion unit p, tally)) := by
  have hwritten :
      ((f.promoted unit p).body.writtenStatic? (f.hoisting unit p).2.1.promoted).isSome ↔
        f.WritesStatic known := by
    -- Each write of the result is a write of the function in its new spelling.
    rw [Block.isSome_writtenStatic?]
    change (∃ x ∈ (f.promoted unit p).writes.map Prod.snd, _) ↔ _
    rw [hf.map_snd_writes_promoted]
    simp only [List.mem_map, exists_exists_and_eq_and]
    exact exists_congr fun w => and_congr_right fun hw =>
      hf.mem_newNames_iff (hp.hoist unit f.name f.body.statics) hnew hknown hw
  obtain ⟨tally, hresult⟩ := f.promoteStatics_eq unit p
  rw [hresult, ← hwritten]
  cases (f.promoted unit p).body.writtenStatic? (f.hoisting unit p).2.1.promoted with
  | some name => exact .inl ⟨rfl, name, rfl⟩
  | none => exact .inr ⟨Bool.false_ne_true, _, _, rfl⟩

theorem WritesApart.withStorage (hf : f.WritesApart known globals fresh) (storage : List Storage) :
    (f.withStorage storage).WritesApart known globals fresh :=
  ⟨hf.inBlocks, hf.taken, hf.constant, hf.initKeeps, hf.fresh, hf.hides, hf.outside⟩

end Writes

end FuncDef

namespace Item

/-! ### Items -/

/-- The functions of a file, each with the names of the static variables declared before it. -/
def functionsAfter (known : List String) : List Item → List (List String × FuncDef)
  | [] => []
  | decl d :: rest => functionsAfter ((decl d).staticName?.toList ++ known) rest
  | func f :: rest => (known, f) :: functionsAfter known rest

/-- What is promoted after all functions of a file, whatever they write to. -/
def promotionAfter (unit : String) (p : Promotion) : List Item → Promotion
  | [] => p
  | decl _ :: rest => promotionAfter unit p rest
  | func f :: rest => promotionAfter unit (f.promotion unit p) rest

/-- The second item is a declaration if the first one is, or else the same function with other
storage classes. -/
inductive SameBody : Item → Item → Prop
  | decl (d d' : Decl) : SameBody (.decl d) (.decl d')
  | func (f : FuncDef) (storage : List Storage) : SameBody (.func f) (.func (f.withStorage storage))

section Items

variable {unit : String} {known globals fresh : List String} {p : Promotion}
  {items items' : List Item}

theorem sameBody_promoteGlobals (unit : String) (p : Promotion) (items : List Item) :
    List.Forall₂ SameBody items (promoteGlobals unit p items).1 := by
  induction items generalizing p with
  | nil => exact .nil
  | cons item rest ih =>
    rcases promoteGlobal_cases unit p item with
      ⟨d, old, new, rfl, -, -, -, hstep⟩ | ⟨-, storage, count, hstep⟩
    · simp only [promoteGlobals, hstep]
      exact .cons (.decl _ _) (ih _)
    · simp only [promoteGlobals, hstep]
      refine .cons ?_ (ih _)
      cases item with
      | decl d => exact .decl _ _
      | func f => exact .func f storage

theorem subset_of_mem_functionsAfter {entry : List String × FuncDef}
    (h : entry ∈ functionsAfter known items) :
    entry.1 ⊆ known ++ items.filterMap staticName? := by
  induction items generalizing known with
  | nil => cases h
  | cons item rest ih =>
    cases item with
    | decl d =>
      intro x hx
      have hx := ih h hx
      cases hname : (decl d).staticName? with
      | none =>
        rw [List.filterMap_cons_none hname]
        simpa [hname] using hx
      | some y =>
        rw [List.filterMap_cons_some hname]
        simp only [hname, Option.toList_some, List.singleton_append] at hx
        exact List.perm_middle.mem_iff.2 hx
    | func f =>
      rcases List.mem_cons.1 h with rfl | h
      · exact List.subset_append_left _ _
      · exact ih h

theorem newNames_subset_promotionAfter (unit : String) (p : Promotion) (items : List Item) :
    p.newNames ⊆ (promotionAfter unit p items).newNames := by
  induction items generalizing p with
  | nil => exact List.Subset.refl _
  | cons item rest ih =>
    cases item with
    | decl d => exact ih p
    | func f => exact List.Subset.trans (f.newNames_subset_promotion unit p) (ih _)

/-- The items of a file are rejected if and only if one of the functions writes to a static
variable. -/
theorem rejects_promoteInItems_iff (hitems : List.Forall₂ SameBody items items')
    (hp : p.Tracks globals) (hnew : (promotionAfter unit p items).newNames ⊆ fresh)
    (hfit : ∀ entry ∈ functionsAfter known items,
      entry.1 ⊆ globals ∧ entry.2.WritesApart entry.1 globals fresh) :
    (∃ name function, promoteInItems unit p items' = .error (.staticReassigned name function)) ↔
      ∃ entry ∈ functionsAfter known items, entry.2.WritesStatic entry.1 := by
  induction hitems generalizing p known with
  | nil => simp [promoteInItems, functionsAfter]
  | @cons item item' rest rest' hitem _ ih =>
    cases hitem with
    | decl d d' =>
      rw [functionsAfter, ← ih hp hnew hfit]
      exact exists_congr fun name => exists_congr fun function => Except.bind_ok_eq_error
    | func f storage =>
      obtain ⟨⟨hknown, hf⟩, hrest⟩ := List.forall_mem_cons.1 hfit
      have hhere : (f.promotion unit p).newNames ⊆ fresh :=
        List.Subset.trans (newNames_subset_promotionAfter unit _ rest) hnew
      rcases (hf.withStorage storage).promoteStatics_cases hp hhere hknown with
        ⟨hwrites, name, hresult⟩ | ⟨hwrites, found, tally, hresult⟩
      · refine iff_of_true ⟨name, f.name, ?_⟩ ⟨_, List.mem_cons_self, hwrites⟩
        rw [promoteInItems, hresult]
        rfl
      · -- The function passes, and the rest goes on with the same table.
        have hp' : (f.promotion unit p).Tracks globals :=
          hp.mono rfl (f.newNames_subset_promotion unit p)
        have hhead : ¬ f.WritesStatic known := hwrites
        rw [promoteInItems, hresult, functionsAfter, List.exists_mem_cons_iff, or_iff_right hhead,
          ← ih hp' hnew hrest]
        exact exists_congr fun name => exists_congr fun function => Except.bind_ok_eq_error

end Items

end Item

namespace SourceUnit

/-! ### Units -/

/-- The names that promotion gives to the static variables of a unit, whatever it writes to. -/
def newStaticNames (unit : String) (u : SourceUnit) : List String :=
  let p := (promoteGlobals unit ⟨u.itemNames, [], []⟩ u.items).2.1
  (Item.promotionAfter unit p u.items).newNames

/-- Some function of the unit writes to a static variable, its own or one declared before it at
file level. -/
def WritesStatic (u : SourceUnit) : Prop :=
  ∃ entry ∈ Item.functionsAfter [] u.items, entry.2.WritesStatic entry.1

instance (u : SourceUnit) : Decidable u.WritesStatic :=
  inferInstanceAs (Decidable (∃ entry ∈ Item.functionsAfter [] u.items, _))

/-- In every function of the unit written static variables can be told by their names. -/
def WritesApart (unit : String) (u : SourceUnit) : Prop :=
  ∀ entry ∈ Item.functionsAfter [] u.items,
    entry.2.WritesApart entry.1 u.staticNames (u.newStaticNames unit)

/-- If written static variables can be told by their names, then a unit is rejected if and only if
it writes to one. -/
theorem promoteStatics_rejects_iff {unit : String} {u : SourceUnit} (hu : u.WritesApart unit) :
    (∃ name function, u.promoteStatics unit = .error (.staticReassigned name function)) ↔
      u.WritesStatic := by
  let start : Promotion := ⟨u.itemNames, [], []⟩
  have hp : (promoteGlobals unit start u.items).2.1.Tracks u.staticNames := by
    have hglobals := (Promotion.Tracks.start u.itemNames).globals unit u.items
    rw [List.append_nil] at hglobals
    exact hglobals
  have hfit (entry : List String × FuncDef) (hentry : entry ∈ Item.functionsAfter [] u.items) :
      entry.1 ⊆ u.staticNames ∧
        entry.2.WritesApart entry.1 u.staticNames (u.newStaticNames unit) :=
    ⟨Item.subset_of_mem_functionsAfter hentry, hu entry hentry⟩
  rw [WritesStatic, ← Item.rejects_promoteInItems_iff
    (Item.sameBody_promoteGlobals unit start u.items) hp (List.Subset.refl _) hfit]
  exact exists_congr fun name => exists_congr fun function => Except.bind_ok_eq_error

/-- The unit `static float scale = 2; float f(float x) { static float seen[2]; if (x) { float scale
= x; scale = 1; seen[0] = scale; } return scale; }`. -/
def writesElement : SourceUnit :=
  ⟨[.decl (scalarAt "scale" [.static] (some (.int 2 none)) none),
    .func (functionAt "f" (scalarAt "x" [] none none)
      [.decl { Decl.ofArray "seen" .float (some 2) none with storage := [.static] } none,
        .ifThen (.id "x" none)
          (.block [.decl (scalarAt "scale" [] (some (.id "x" none)) none) none,
            .expr (.assign .assign (.id "scale" none) (.int 1 none) none) none,
            .expr (.assign .assign (.index (.id "seen" none) (.int 0 none) none) (.id "scale" none)
              none) none] none none) none,
        .ret (some (.id "scale" none)) none] none)], none⟩

theorem promoteStatics_rejects_writesElement :
    ∃ name function,
      writesElement.promoteStatics "unit" = .error (.staticReassigned name function) := by
  have hapart : writesElement.WritesApart "unit" := by
    refine List.forall_mem_singleton.2 ?_
    constructor
    all_goals decide
  exact (promoteStatics_rejects_iff hapart).2 (by decide)

/-- The unit `float f(float A) { if (A) { static float A = 1; A = 2; } return A; }`. -/
def hiddenWrite : SourceUnit :=
  ⟨[.func (functionAt "f" (scalarAt "A" [] none none)
      [.ifThen (.id "A" none)
        (.block [.decl (scalarAt "A" [.static] (some (.int 1 none)) none) none,
          .expr (.assign .assign (.id "A" none) (.int 2 none) none) none] none none) none,
        .ret (some (.id "A" none)) none] none)], none⟩

/-- The unit `float A = 5; float f(float x) { if (x) { static float A = 1; return A; } A = 2; return
A; }`. -/
def strayWrite : SourceUnit :=
  ⟨[.decl (scalarAt "A" [] (some (.int 5 none)) none),
    .func (functionAt "f" (scalarAt "x" [] none none)
      [.ifThen (.id "x" none)
        (.block [.decl (scalarAt "A" [.static] (some (.int 1 none)) none) none,
          .ret (some (.id "A" none)) none] none none) none,
        .expr (.assign .assign (.id "A" none) (.int 2 none) none) none,
        .ret (some (.id "A" none)) none] none)], none⟩

/-- A write to a static variable goes unnoticed where a parameter has its name, and a write to a
global variable is rejected where a static variable of another block has its name. -/
theorem promoteStatics_misses_writes :
    (¬ ∀ (unit : String) (u : SourceUnit), u.WritesStatic →
      ∃ name function, u.promoteStatics unit = .error (.staticReassigned name function)) ∧
    ¬ ∀ (unit : String) (u : SourceUnit),
      (∃ name function, u.promoteStatics unit = .error (.staticReassigned name function)) →
        u.WritesStatic := by
  constructor
  · intro h
    obtain ⟨name, function, hresult⟩ := h "unit" hiddenWrite (by decide)
    have hok : (hiddenWrite.promoteStatics "unit").isOk = true := rfl
    rw [hresult] at hok
    cases hok
  · intro h
    have hwrites : ¬ strayWrite.WritesStatic := by decide
    exact hwrites (h "unit" strayWrite ⟨"A", "f", rfl⟩)

end SourceUnit

end MathKernel
