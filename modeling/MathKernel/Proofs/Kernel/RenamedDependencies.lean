import MathKernel.Proofs.Kernel.Codec
import MathKernel.Proofs.Kernel.Dependencies
import MathKernel.Proofs.Link.Renaming
import MathKernel.Proofs.Normalize.ScopedWalks

/-!
# Renaming and collecting agree on scoping

One walk over a function renames identifiers that nothing hides, another one collects the
variables and constants that the function depends on. Both go through the scopes of the body.
Renaming changes the identifiers that the collecting walk finds unhidden, and no others. So if a
name of the file gets a name that the function does not use, the dependencies follow.

## Main definitions

* `FuncDef.scopedIds` — the identifiers of a body, with the names that are hidden there
* `FuncDef.shownIds` — those that are not hidden themselves
* `FuncDef.renameIds` — a function with its body renamed
* `Expr.restoreId` — the change of a single identifier back

## Main results

* `Expr.ids_renameIds`, `Expr.calls_renameIds`, `Expr.count_renameIds` — renaming in an expression
* `FuncDef.mem_dependencies_iff` — the dependencies in terms of the unhidden identifiers
* `FuncDef.scopedIds_renameIds`, `FuncDef.count_renameIds` — renaming in a function
* `FuncDef.dependencies_renameIds` — the dependencies of a renamed function
-/

namespace MathKernel

theorem Renames.image_singleton (old new x : String) :
    Renames.image [(old, new)] x = if x = old then new else x := by
  by_cases hx : x = old
  · simp [image, hx]
  · simp [image, List.lookup_cons, beq_false_of_ne hx, hx]

theorem mapM_map_eq_pure {m : Type → Type} [Monad m] [LawfulMonad m] {α β : Type} {f : α → β}
    {g : β → m α} {items : List α} (h : ∀ a ∈ items, g (f a) = pure a) :
    (items.map f).mapM g = pure items := by
  induction items with
  | nil => simp
  | cons a rest ih =>
    obtain ⟨ha, hrest⟩ := List.forall_mem_cons.1 h
    simp [List.mapM_cons, ha, ih hrest]

/-! ### Expressions -/

namespace Expr

variable {R : Renames} {hidden : List String}

theorem filterMap_subexprs {α : Type} (φ : Expr → Option α) (e : Expr) :
    e.subexprs.filterMap φ =
      (φ e).toList ++ e.parts.flatMap fun part => part.subexprs.filterMap φ := by
  rw [subexprs_eq, List.filterMap_cons, List.filterMap_flatMap]
  cases φ e <;> rfl

theorem ids_eq (e : Expr) : e.ids = e.idName?.toList ++ e.parts.flatMap ids :=
  filterMap_subexprs idName? e

theorem calls_eq (e : Expr) : e.calls = e.callee?.toList ++ e.parts.flatMap calls :=
  filterMap_subexprs callee? e

theorem callee?_withParts (e : Expr) (parts : List Expr) :
    (e.withParts parts).callee? = e.callee? := by
  rw [withParts.eq_def]
  split <;> rfl

theorem eq_id_of_idName? {e : Expr} {x : String} (h : e.idName? = some x) : ∃ c, e = id x c := by
  cases e <;> simp_all [idName?]

/-- Induction over the parts of expressions, with identifiers told from all other nodes. -/
theorem ids_induction {motive : Expr → Prop} (id : ∀ x c, motive (.id x c))
    (node : ∀ e, e.idName? = none → (∀ part ∈ e.parts, motive part) → motive e) (e : Expr) :
    motive e := by
  induction e using parts_induction with
  | h e ih =>
    cases hid : e.idName? with
    | some x =>
      obtain ⟨c, rfl⟩ := eq_id_of_idName? hid
      exact id x c
    | none => exact node e hid ih

/-- An identifier that is not hidden gets its new name. -/
theorem ids_renameIds (e : Expr) :
    (e.renameIds R hidden).value.ids =
      e.ids.map fun x => if x ∈ hidden then x else R.image x := by
  induction e using ids_induction with
  | id x c => simp [value_renameIds_id, ids_eq, idName?, parts]
  | node e hid ih =>
    have hparts : (e.parts.map fun part => (part.renameIds R hidden).value).flatMap ids =
        (e.parts.flatMap ids).map fun x => if x ∈ hidden then x else R.image x := by
      rw [List.flatMap_map, List.map_flatMap]
      exact List.flatMap_congr ih
    rw [value_renameIds_of_parts hid, ids_eq, idName?_withParts,
      parts_withParts (List.length_map _), hparts, ids_eq e, hid]
    rfl

/-- The names of called functions stay. -/
theorem calls_renameIds (e : Expr) : (e.renameIds R hidden).value.calls = e.calls := by
  induction e using ids_induction with
  | id x c => simp [value_renameIds_id, calls_eq, callee?, parts]
  | node e hid ih =>
    have hparts : (e.parts.map fun part => (part.renameIds R hidden).value).flatMap calls =
        e.parts.flatMap calls := by
      rw [List.flatMap_map]
      exact List.flatMap_congr ih
    rw [value_renameIds_of_parts hid, calls_eq, callee?_withParts,
      parts_withParts (List.length_map _), hparts, ← calls_eq]

theorem count_renameIds_id (x : String) (c : Coord) :
    ((id x c).renameIds R hidden).count =
      if x ∉ hidden ∧ (R.lookup x).isSome then 1 else 0 := by
  change (Counted.replace (R.lookup? hidden) (id x c)).count = _
  by_cases hmem : x ∈ hidden
  · simp [Counted.replace, Renames.lookup?, hmem]
  · cases hx : R.lookup x <;> simp [Counted.replace, Renames.lookup?, hmem, hx]

theorem count_renameIds_of_parts {e : Expr} (h : e.idName? = none) :
    (e.renameIds R hidden).count =
      (e.parts.map fun part => (part.renameIds R hidden).count).sum := by
  rw [renameIds, bottomUpM_eq, Counted.count_bind, Counted.count_mapM, Counted.replace,
    lookup?_withParts h]
  rfl

/-- Each unhidden identifier with a new name is one change. -/
theorem count_renameIds (e : Expr) :
    (e.renameIds R hidden).count =
      e.ids.countP fun x => x ∉ hidden ∧ (R.lookup x).isSome := by
  induction e using ids_induction with
  | id x c =>
    rw [count_renameIds_id, ids_eq]
    simp only [idName?, parts, Option.toList_some, List.flatMap_nil, List.append_nil,
      List.countP_singleton, decide_eq_true_eq]
  | node e hid ih =>
    rw [count_renameIds_of_parts hid, ids_eq, hid, Option.toList_none, List.nil_append,
      List.countP_flatMap]
    exact congrArg List.sum (List.map_congr_left ih)

/-- Give one identifier its old name back. -/
def restoreId (old new : String) : Expr → Expr
  | id x c => id (if x = new then old else x) c
  | e => e

theorem restoreId_of_idName? {old new : String} {e : Expr} (h : e.idName? = none) :
    restoreId old new e = e := by
  cases e with
  | id => cases h
  | _ => rfl

theorem withParts_withParts (e : Expr) {ps qs : List Expr} (hps : ps.length = e.parts.length)
    (hqs : qs.length = e.parts.length) : (e.withParts ps).withParts qs = e.withParts qs := by
  cases e with
  | id | literal => rfl
  | unary | cast =>
    obtain ⟨p, rfl⟩ := List.length_eq_one_iff.1 hps
    obtain ⟨q, rfl⟩ := List.length_eq_one_iff.1 hqs
    rfl
  | binary | assign | index =>
    obtain ⟨p, p', rfl⟩ := List.length_eq_two.1 hps
    obtain ⟨q, q', rfl⟩ := List.length_eq_two.1 hqs
    rfl
  | ternary =>
    obtain ⟨p, p', p'', rfl⟩ := List.length_eq_three.1 hps
    obtain ⟨q, q', q'', rfl⟩ := List.length_eq_three.1 hqs
    rfl
  | call | initList | comma => rfl

/-- A new name that did not occur can be taken back. -/
theorem restoreId_renameIds {old new : String} {e : Expr} (hnew : new ∉ e.ids) :
    bottomUpM (m := Id) (restoreId old new) (e.renameIds [(old, new)] hidden).value = e := by
  induction e using ids_induction with
  | id x c =>
    have hx : x ≠ new := fun hx => hnew (by simp [ids, subexprs, idName?, hx])
    rw [value_renameIds_id, Renames.image_singleton]
    change id (if _ = new then old else _) c = id x c
    grind
  | node e hid ih =>
    let renamed := e.parts.map fun part => (part.renameIds [(old, new)] hidden).value
    have hlength : renamed.length = e.parts.length := List.length_map _
    have hparts : renamed.mapM (m := Id) (bottomUpM (restoreId old new)) = e.parts := by
      refine mapM_map_eq_pure fun part hpart => ih part hpart fun hmem => hnew ?_
      exact mem_ids_of_mem_parts hpart hmem
    -- The node keeps its head in both directions, so only its parts have to come back.
    rw [value_renameIds_of_parts hid, bottomUpM_eq, parts_withParts hlength, hparts]
    change restoreId old new ((e.withParts renamed).withParts e.parts) = e
    rw [withParts_withParts e hlength rfl, withParts_parts, restoreId_of_idName? hid]

end Expr

/-! ### Bodies -/

namespace FuncDef

/-- The outermost expressions of a body, each with the names that are hidden there. -/
def scopedRoots (f : FuncDef) : List (List String × Expr) :=
  (Stmt.scopedExprsList declareName f.paramNames f.body.items).1

/-- The identifiers of a body in order, each with the names that are hidden there. -/
def scopedIds (f : FuncDef) : List (List String × String) :=
  f.scopedRoots.flatMap fun (hidden, e) => e.ids.map (hidden, ·)

/-- The identifiers of a body that are not hidden, in order. -/
def shownIds (f : FuncDef) : List String :=
  f.scopedIds.filterMap fun (hidden, x) => if x ∈ hidden then none else some x

/-- The names that a body calls, in order. -/
def scopedCalls (f : FuncDef) : List String :=
  f.scopedRoots.flatMap fun (_, e) => e.calls

/-- The function with the names in its body changed where nothing hides them. -/
def renameIds (R : Renames) (f : FuncDef) : Counted FuncDef := do
  let body ← f.body.renameIds R f.paramNames
  pure { f with body }

end FuncDef

/-- The kind of an identifier that is not hidden. -/
def GlobalNames.kind? (globals : GlobalNames) (x : String) : Option KernelKind :=
  if x ∈ globals.vars then some .var
  else if x ∈ globals.constants ∨ x ∈ builtinConstants then some .constant
  else none

namespace FuncDef

variable {f : FuncDef} {globals : GlobalNames} {x : String} {kind : KernelKind}

theorem mem_scopedNodes {hidden : List String} {node : Expr} :
    (hidden, node) ∈ f.scopedNodes ↔ ∃ e, (hidden, e) ∈ f.scopedRoots ∧ node ∈ e.subexprs := by
  simp [scopedNodes, scopedRoots]

theorem mem_scopedIds {hidden : List String} :
    (hidden, x) ∈ f.scopedIds ↔ ∃ e, (hidden, e) ∈ f.scopedRoots ∧ x ∈ e.ids := by
  simp [scopedIds]

theorem mem_shownIds : x ∈ f.shownIds ↔ ∃ hidden, (hidden, x) ∈ f.scopedIds ∧ x ∉ hidden := by
  simp [shownIds]

theorem mem_scopedCalls :
    x ∈ f.scopedCalls ↔ ∃ hidden e, (hidden, e) ∈ f.scopedRoots ∧ x ∈ e.calls := by
  simp [scopedCalls]

theorem reference?_eq_some {hidden : List String} {e : Expr} :
    e.reference? globals hidden = some (kind, x) ↔
      kind = .function ∧ e.callee? = some x ∨
        e.idName? = some x ∧ x ∉ hidden ∧ globals.kind? x = some kind := by
  cases e with
  | call callee args c =>
    simp [Expr.reference?, Expr.callee?, Expr.idName?, eq_comm]
  | id y c =>
    simp only [Expr.reference?, Expr.callee?, Expr.idName?, GlobalNames.kind?]
    grind
  | _ => simp [Expr.reference?, Expr.callee?, Expr.idName?]

/-- A function depends on the names it calls, and on its unhidden identifiers by their kinds. -/
theorem mem_dependencies_iff :
    x ∈ (f.dependencies globals).ofKind kind ↔
      kind = .function ∧ x ∈ f.scopedCalls ∨ x ∈ f.shownIds ∧ globals.kind? x = some kind := by
  rw [mem_dependencies, mem_shownIds, mem_scopedCalls]
  simp only [reference?_eq_some, mem_scopedIds]
  constructor
  · rintro ⟨⟨hidden, node⟩, hnode, ⟨hkind, hcallee⟩ | ⟨hid, hhidden, hkind⟩⟩ <;>
      obtain ⟨e, he, hnode⟩ := mem_scopedNodes.1 hnode
    · exact .inl ⟨hkind, hidden, e, he, List.mem_filterMap.2 ⟨node, hnode, hcallee⟩⟩
    · exact .inr ⟨⟨hidden, ⟨e, he, List.mem_filterMap.2 ⟨node, hnode, hid⟩⟩, hhidden⟩, hkind⟩
  · rintro (⟨hkind, hidden, e, he, hx⟩ | ⟨⟨hidden, ⟨e, he, hx⟩, hhidden⟩, hkind⟩) <;>
      obtain ⟨node, hnode, hname⟩ := List.mem_filterMap.1 hx
    · exact ⟨(hidden, node), mem_scopedNodes.2 ⟨e, he, hnode⟩, .inl ⟨hkind, hname⟩⟩
    · exact ⟨(hidden, node), mem_scopedNodes.2 ⟨e, he, hnode⟩, .inr ⟨hname, hhidden, hkind⟩⟩

/-! ### Renaming -/

variable {R : Renames}

theorem scopedRoots_renameIds :
    (f.renameIds R).value.scopedRoots =
      f.scopedRoots.map fun (hidden, e) => (hidden, (e.renameIds R hidden).value) :=
  (Stmt.walked_mapScopedListM f.body.items f.paramNames).exprs

/-- Renaming changes the identifiers that are not hidden, and hides what was hidden. -/
theorem scopedIds_renameIds :
    (f.renameIds R).value.scopedIds =
      f.scopedIds.map fun (hidden, x) => (hidden, if x ∈ hidden then x else R.image x) := by
  simp only [scopedIds, scopedRoots_renameIds, List.flatMap_map, List.map_flatMap, List.map_map,
    Expr.ids_renameIds]
  rfl

theorem scopedCalls_renameIds : (f.renameIds R).value.scopedCalls = f.scopedCalls := by
  simp only [scopedCalls, scopedRoots_renameIds, List.flatMap_map, Expr.calls_renameIds]

/-- There is one change for each unhidden identifier that has a new name. -/
theorem count_renameIds :
    (f.renameIds R).count = f.shownIds.countP fun x => (R.lookup x).isSome := by
  have hwalk : (f.renameIds R).count =
      (f.scopedRoots.map fun (hidden, e) => (e.renameIds R hidden).count).sum :=
    (Stmt.walked_mapScopedListM (f := Expr.renameIds R) f.body.items f.paramNames).changes
  rw [hwalk, shownIds, List.countP_filterMap, scopedIds, List.countP_flatMap]
  congr 1
  refine List.map_congr_left fun (hidden, e) _ => ?_
  change (e.renameIds R hidden).count = List.countP _ (e.ids.map (hidden, ·))
  rw [Expr.count_renameIds, List.countP_map]
  refine List.countP_congr fun x _ => ?_
  by_cases hx : x ∈ hidden <;> simp [hx]

/-- The names of a function's parameters and those in its body. -/
def bodyNames (f : FuncDef) : List String :=
  f.paramNames ++ Stmt.namesList f.body.items

variable {old new : String}

/-- A name that does not occur in a function is nowhere hidden or used in its body. -/
theorem without_scopedRoots (hnew : new ∉ f.bodyNames) :
    ∀ p ∈ f.scopedRoots, new ∉ p.1 ∧ new ∉ p.2.names := by
  obtain ⟨hparams, hbody⟩ := not_or.1 (mt List.mem_append.2 hnew)
  refine (Stmt.without_scopedExprsList f.body.items f.paramNames hparams fun t ht hown => ?_).exprs
  exact hbody (List.mem_flatMap.2 ⟨t, ht, hown⟩)

/-- The unhidden identifiers after renaming to a name that did not occur. -/
theorem shownIds_renameIds (hnew : new ∉ f.bodyNames) :
    (f.renameIds [(old, new)]).value.shownIds =
      f.shownIds.map fun x => if x = old then new else x := by
  rw [shownIds, scopedIds_renameIds, List.filterMap_map, shownIds, List.map_filterMap]
  refine List.filterMap_congr fun (hidden, x) hp => ?_
  -- No declaration hides the new name where the old one is not hidden.
  obtain ⟨e, he, -⟩ := mem_scopedIds.1 hp
  have hhidden : new ∉ hidden := (without_scopedRoots hnew _ he).1
  simp only [Function.comp_apply, Renames.image_singleton]
  grind

/-- The new name taken back, the body is the one before. -/
theorem restoreId_renameIds (hnew : new ∉ f.bodyNames) :
    (f.renameIds [(old, new)]).value.body.bottomUpM (m := Id) (Expr.restoreId old new) =
      f.body := by
  have hitems := Stmt.mapExprsListM_mapScopedListM (f := Expr.renameIds [(old, new)])
    (g := Expr.bottomUpM (m := Id) (Expr.restoreId old new)) f.body.items f.paramNames
    fun p hp => Expr.restoreId_renameIds fun hmem =>
      (without_scopedRoots hnew p hp).2 (Expr.mem_names.2 (.inl hmem))
  exact congrArg (Block.mk · f.body.coord) hitems

end FuncDef

/-! ### Dependencies -/

theorem NameSet.ext_of_mem {s t : NameSet} (h : ∀ x, x ∈ s.toList ↔ x ∈ t.toList) : s = t := by
  have hperm := (List.perm_ext_iff_of_nodup s.nodup_toList t.nodup_toList).2 h
  refine ext (hperm.eq_of_pairwise (fun x y _ _ hxy hyx => ?_) s.increasing t.increasing)
  exact absurd hyx (String.lt_asymm hxy)

/-- References that hold the new names of each kind are the references under new names. -/
theorem Dependencies.eq_renamed {d d' : Dependencies} {σ : ValueNames}
    (h : ∀ kind y, y ∈ d'.ofKind kind ↔ ∃ x ∈ d.ofKind kind, σ.newName kind x = y) :
    d' = d.renamed σ := by
  have hmap {s t : NameSet} {ρ : String → String}
      (h : ∀ y, y ∈ s.toList ↔ ∃ x ∈ t.toList, ρ x = y) : s = t.map ρ :=
    NameSet.ext_of_mem fun y => by rw [h, NameSet.map, NameSet.mem_toList_ofList, List.mem_map]
  have hfunctions : d'.functions = d.functions :=
    NameSet.ext_of_mem fun y => by simpa [ofKind, ValueNames.newName] using h .function y
  obtain ⟨functions, constants, vars⟩ := d'
  exact congr (congrArg₂ mk hfunctions (hmap (h .constant))) (hmap (h .var))

/-- The names at file level with one of them changed. -/
def GlobalNames.rename (old new : String) (globals : GlobalNames) : GlobalNames where
  constants := globals.constants.map fun x => if x = old then new else x
  vars := globals.vars.map fun x => if x = old then new else x

/-- One constant or variable gets a new name. -/
def ValueNames.single (old new : String) : ValueNames where
  constants x := if x = old then new else x
  vars x := if x = old then new else x

variable {globals : GlobalNames} {old new : String}

/-- A name of the file keeps its kind under its new name. -/
theorem GlobalNames.kind?_rename (hold : Xor (old ∈ globals.constants) (old ∈ globals.vars))
    (hconstants : new ∉ globals.constants) (hvars : new ∉ globals.vars) {x : String}
    (hx : x ≠ new) :
    (globals.rename old new).kind? (if x = old then new else x) = globals.kind? x := by
  have hmem {names : List String} (hnew : new ∉ names) :
      (if x = old then new else x) ∈ names.map (fun y => if y = old then new else y) ↔
        x ∈ names := by
    grind
  simp only [kind?, rename, hmem hconstants, hmem hvars]
  -- The old name is no built-in constant unless it is a constant of the file.
  rcases hold with ⟨hconstant, -⟩ | ⟨hvar, -⟩ <;> grind

theorem GlobalNames.kind?_ne_function (globals : GlobalNames) (x : String) :
    globals.kind? x ≠ some .function := by
  unfold kind?
  grind

namespace FuncDef

/-- What a function depends on after renaming. -/
theorem mem_dependencies_renameIds {f : FuncDef} {kind : KernelKind} {y : String}
    (hold : Xor (old ∈ globals.constants) (old ∈ globals.vars))
    (hconstants : new ∉ globals.constants) (hvars : new ∉ globals.vars)
    (hnew : new ∉ f.bodyNames) :
    y ∈ ((f.renameIds [(old, new)]).value.dependencies (globals.rename old new)).ofKind kind ↔
      ∃ x ∈ (f.dependencies globals).ofKind kind,
        (ValueNames.single old new).newName kind x = y := by
  simp only [mem_dependencies_iff, shownIds_renameIds hnew, scopedCalls_renameIds]
  by_cases hkind : kind = .function
  · subst hkind
    simp [ValueNames.newName, GlobalNames.kind?_ne_function]
  have hname (x : String) : (ValueNames.single old new).newName kind x =
      if x = old then new else x := by
    cases kind with
    | function => exact absurd rfl hkind
    | constant | var => rfl
  have hne {x : String} (hx : x ∈ f.shownIds) : x ≠ new := by
    rintro rfl
    obtain ⟨hidden, hid, -⟩ := mem_shownIds.1 hx
    obtain ⟨e, he, hxe⟩ := mem_scopedIds.1 hid
    exact (without_scopedRoots hnew _ he).2 (Expr.mem_names.2 (.inl hxe))
  simp only [hkind, false_and, false_or, hname, List.mem_map]
  constructor
  · rintro ⟨⟨x, hx, rfl⟩, hkind⟩
    rw [GlobalNames.kind?_rename hold hconstants hvars (hne hx)] at hkind
    exact ⟨x, ⟨hx, hkind⟩, rfl⟩
  · rintro ⟨x, ⟨hx, hkind⟩, rfl⟩
    rw [GlobalNames.kind?_rename hold hconstants hvars (hne hx)]
    exact ⟨⟨x, hx, rfl⟩, hkind⟩

/-- A name of the file is a dependency exactly when it is used where nothing hides it. -/
theorem mem_shownIds_iff_dependency {f : FuncDef}
    (hold : old ∈ globals.constants ∨ old ∈ globals.vars) :
    old ∈ f.shownIds ↔
      old ∈ (f.dependencies globals).ofKind .constant ∨
        old ∈ (f.dependencies globals).ofKind .var := by
  have hkind : globals.kind? old = some .constant ∨ globals.kind? old = some .var := by
    unfold GlobalNames.kind?
    grind
  simp only [mem_dependencies_iff]
  grind

/-- A name of the file is changed to one that a function does not use. The dependencies of the
function follow, there is a change exactly when the name was a dependency, the other identifiers
stay, and with the name taken back the body is the one before. -/
theorem dependencies_renameIds (f : FuncDef) (globals : GlobalNames) (old new : String)
    (hold : Xor (old ∈ globals.constants) (old ∈ globals.vars))
    (hconstants : new ∉ globals.constants) (hvars : new ∉ globals.vars)
    (hnew : new ∉ f.bodyNames) :
    (f.renameIds [(old, new)]).value.dependencies (globals.rename old new) =
        (f.dependencies globals).renamed (.single old new) ∧
      ((f.renameIds [(old, new)]).count = 0 ↔
        old ∉ (f.dependencies globals).constants.toList ∧
          old ∉ (f.dependencies globals).vars.toList) ∧
      (f.renameIds [(old, new)]).value.scopedIds =
        f.scopedIds.map (fun (hidden, x) =>
          (hidden, if x = old ∧ old ∉ hidden then new else x)) ∧
      (f.renameIds [(old, new)]).value.body.bottomUpM (m := Id) (Expr.restoreId old new) =
        f.body := by
  refine ⟨?_, ?_, ?_, restoreId_renameIds hnew⟩
  · exact Dependencies.eq_renamed fun _ _ =>
      mem_dependencies_renameIds hold hconstants hvars hnew
  · have hlookup (x : String) : (List.lookup x [(old, new)]).isSome ↔ x = old := by
      by_cases hx : x = old
      · simp [hx]
      · simp [List.lookup_cons, beq_false_of_ne hx, hx]
    have hshown : (f.renameIds [(old, new)]).count = 0 ↔ old ∉ f.shownIds := by
      rw [count_renameIds, List.countP_eq_zero]
      simp only [hlookup]
      grind
    rw [hshown, mem_shownIds_iff_dependency hold.or, not_or]
    rfl
  · rw [scopedIds_renameIds]
    refine List.map_congr_left fun (hidden, x) _ => ?_
    simp only [Renames.image_singleton, Prod.mk.injEq, true_and]
    grind

/-- The function `float f(float x) { { float y = k; float k = k; k = y; }
for (int i = 0; i < k; i++) { float k[2]; x += k[i]; } return g(k, x); }`. -/
def shadowing : FuncDef where
  decl := .prototype "f" .float [.ofScalar "x" .float none]
  body.items := [
    .block [
      .decl (.ofScalar "y" .float (some (.id "k" none))) none,
      .decl (.ofScalar "k" .float (some (.id "k" none))) none,
      .expr (.assign .assign (.id "k" none) (.id "y" none) none) none] none none,
    .forLoop (some (.decls [.ofScalar "i" .int (some (.int 0 none))]))
      (some (.binary .lt (.id "i" none) (.id "k" none) none))
      (some (.unary .postInc (.id "i" none) none))
      (.block [
        .decl (.ofArray "k" .float (some 2) none) none,
        .expr (.assign .add (.id "x" none) (.index (.id "k" none) (.id "i" none) none) none) none]
        none none) none,
    .ret (some (.call "g" [.id "k" none, .id "x" none] none)) none]
  body.coord := none
  coord := none

theorem dependencies_renameIds_shadowing :
    (shadowing.renameIds [("k", "k2")]).value.dependencies ⟨["k2"], ["v"]⟩ =
        (shadowing.dependencies ⟨["k"], ["v"]⟩).renamed (.single "k" "k2") ∧
      (shadowing.renameIds [("k", "k2")]).count ≠ 0 := by
  have hconstant : "k" ∈ (shadowing.dependencies ⟨["k"], ["v"]⟩).constants.toList := by
    decide +kernel
  obtain ⟨hdependencies, hcount, -⟩ := dependencies_renameIds shadowing ⟨["k"], ["v"]⟩ "k" "k2"
    (by decide) (by decide) (by decide) (by decide +kernel)
  exact ⟨hdependencies, fun hzero => (hcount.1 hzero).1 hconstant⟩

end FuncDef

end MathKernel
