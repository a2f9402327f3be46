import MathKernel.Kernel.Extraction

/-!
# Where the kernels of a unit come from

Every kernel of a unit is that of a function definition or of a file-level variable; a variable's
kernel is a variable or a constant as its name is classified for the whole unit.

## Main definitions

* `Item.Gives` — the kernel that an item gives
* `Kernel.IsFrom` — the kernels that the items of a file may give

## Main results

* `extractItems_cons_eq_ok` — what extraction does with one item
* `SourceUnit.origin_of_mem_extract` — the item behind a kernel
-/

namespace MathKernel

theorem Except.bind_eq_ok {ε α β : Type} {x : Except ε α} {f : α → Except ε β} {b : β}
    (h : x >>= f = .ok b) : ∃ a, x = .ok a ∧ f a = .ok b := by
  cases x with
  | error e => cases h
  | ok a => exact ⟨a, rfl, h⟩

theorem Except.mapError_eq_ok {ε ε' α : Type} {x : Except ε α} {f : ε → ε'} {a : α}
    (h : x.mapError f = .ok a) : x = .ok a := by
  cases x with
  | error e => cases h
  | ok a' => exact congrArg _ (Except.ok.inj h)

theorem Except.map_eq_ok {ε α β : Type} {x : Except ε α} {f : α → β} {b : β}
    (h : x.map f = .ok b) : ∃ a, x = .ok a ∧ f a = b := by
  cases x with
  | error e => cases h
  | ok a => exact ⟨a, rfl, Except.ok.inj h⟩

theorem Except.eq_ok_of_toOption {ε α : Type} {x : Except ε α} {a : α}
    (h : x.toOption = some a) : x = .ok a := by
  cases x with
  | error e => cases h
  | ok a' => exact congrArg _ (Option.some.inj h)

theorem Decl.foldValue_name {known : KnownConstants Binary64} {name : String} {d : Decl}
    {value : ValueKernel} (h : d.foldValue known name = .ok value) : value.name = name := by
  obtain ⟨numbers, -, hvalue⟩ := Except.bind_eq_ok h
  exact (congrArg ValueKernel.name (Except.ok.inj hvalue)).symm

/-! ### One item of a file -/

theorem Item.global?_of_isFunction {d : Decl} (h : d.isFunction = true) :
    (decl d).global? = none :=
  if_pos h

theorem Item.global?_of_not_isFunction {d : Decl} (h : d.isFunction = false) :
    (decl d).global? = some d :=
  if_neg (Bool.eq_false_iff.1 h)

/-- The record of a variable, which is a variable or a constant as its name is classified. -/
def GlobalNames.record (globals : GlobalNames) (v : ValueKernel) : Kernel :=
  if globals.vars.contains v.name then .var v else .constant v

@[simp] theorem GlobalNames.record_name (globals : GlobalNames) (v : ValueKernel) :
    (globals.record v).name = v.name := by
  unfold record
  split <;> rfl

@[simp] theorem GlobalNames.record_value? (globals : GlobalNames) (v : ValueKernel) :
    (globals.record v).value? = some v := by
  unfold record
  split <;> rfl

/-- The entry of a constant. -/
def Kernel.constant? : Kernel → Option (String × Value Binary64)
  | .constant v => some (v.name, v.value)
  | .var _ | .function _ => none

/-- A variable is not known to what follows. -/
theorem GlobalNames.record_constant? (globals : GlobalNames) (v : ValueKernel)
    (known : KnownConstants Binary64) : (globals.record v).constant?.toList ++ known =
      if globals.vars.contains v.name then known else (v.name, v.value) :: known := by
  unfold record
  split <;> rfl

/-- An item that gives no kernel: a prototype, or an external or nameless declaration. -/
def Item.GivesNothing : Item → Prop
  | .func _ => False
  | .decl d => d.isFunction = true ∨ d.isExternal = true ∨ d.name = none

/-- The variables of a file from which nothing comes are external or nameless. -/
theorem Item.GivesNothing.global?_cases {item : Item} (h : item.GivesNothing) :
    item.global? = none ∨
      ∃ d, item.global? = some d ∧ (d.isExternal = true ∨ d.name = none) := by
  cases item with
  | func f => exact .inl rfl
  | decl d =>
    by_cases hfunction : d.isFunction = true
    · exact .inl (global?_of_isFunction hfunction)
    · exact .inr ⟨d, if_neg hfunction, h.resolve_left hfunction⟩

theorem Item.of_not_givesNothing {d : Decl} (h : ¬ (decl d).GivesNothing) :
    ∃ name, d.isFunction = false ∧ d.isExternal = false ∧ d.name = some name := by
  obtain ⟨hfunction, hkept⟩ := not_or.1 h
  obtain ⟨hexternal, hname⟩ := not_or.1 hkept
  obtain ⟨name, hname⟩ := Option.ne_none_iff_exists'.1 hname
  exact ⟨name, Bool.eq_false_iff.2 hfunction, Bool.eq_false_iff.2 hexternal, hname⟩

/-- An item gives a kernel, given the constants before it. -/
inductive Item.Gives (globals : GlobalNames) (known : KnownConstants Binary64) :
    Item → Kernel → Prop
  | function {f : FuncDef} {k : FunctionKernel} (h : f.toKernel globals = .ok k) :
      Gives globals known (.func f) (.function k)
  | value {d : Decl} {v : ValueKernel} (hfunction : d.isFunction = false)
      (hexternal : d.isExternal = false) (hname : d.name = some v.name)
      (hfold : d.foldValue known v.name = .ok v) :
      Gives globals known (.decl d) (globals.record v)

theorem Item.Gives.of_value? {globals : GlobalNames} {known : KnownConstants Binary64} {item : Item}
    {k : Kernel} {v : ValueKernel} (h : item.Gives globals known k) (hv : k.value? = some v) :
    ∃ d, item = .decl d ∧ d.name = some v.name ∧ d.foldValue known v.name = .ok v := by
  cases h with
  | function hk => cases hv
  | value _ _ hname hfold =>
    rw [GlobalNames.record_value?] at hv
    cases hv
    exact ⟨_, rfl, hname, hfold⟩

section Step

variable {globals : GlobalNames} {known : KnownConstants Binary64} {rest : List Item} {d : Decl}
  {kernels : List Kernel}

theorem extractItems_cons_of_givesNothing (h : (Item.decl d).GivesNothing) :
    extractItems globals known (.decl d :: rest) = extractItems globals known rest := by
  rw [extractItems]
  split
  · rfl
  · next hskip =>
    rw [Bool.or_eq_true] at hskip
    obtain ⟨hfunction, hexternal⟩ := not_or.1 hskip
    rw [(h.resolve_left hfunction).resolve_left hexternal]

theorem extractItems_cons_of_name (hfunction : d.isFunction = false)
    (hexternal : d.isExternal = false) {name : String} (hname : d.name = some name) :
    extractItems globals known (.decl d :: rest) =
      (d.foldValue known name).mapError (.value name) >>= fun v =>
        (extractItems globals ((globals.record v).constant?.toList ++ known) rest).map
          (globals.record v :: ·) := by
  rw [extractItems, hfunction, hexternal, hname]
  change (d.foldValue known name).mapError _ >>= _ = _
  cases hfold : d.foldValue known name with
  | error cause => rfl
  | ok v =>
    change (if _ then _ else _) = Except.map _ _
    rw [GlobalNames.record_constant?, ← Decl.foldValue_name hfold]
    unfold GlobalNames.record
    split
    · cases extractItems globals known rest <;> rfl
    · cases extractItems globals ((v.name, v.value) :: known) rest <;> rfl

/-- What extraction does with the first item: nothing, or it puts the kernel that the item gives
before those of the others. -/
theorem extractItems_cons_eq_ok {item : Item}
    (h : extractItems globals known (item :: rest) = .ok kernels) :
    item.GivesNothing ∧ extractItems globals known rest = .ok kernels ∨
      ∃ k others, item.Gives globals known k ∧
        extractItems globals (k.constant?.toList ++ known) rest = .ok others ∧
        kernels = k :: others := by
  cases item with
  | func f =>
    obtain ⟨k, hk, h⟩ := Except.bind_eq_ok h
    obtain ⟨others, hothers, h⟩ := Except.bind_eq_ok h
    cases h
    exact .inr ⟨.function k, others, .function (Except.mapError_eq_ok hk), hothers, rfl⟩
  | decl d =>
    by_cases hskip : (Item.decl d).GivesNothing
    · rw [extractItems_cons_of_givesNothing hskip] at h
      exact .inl ⟨hskip, h⟩
    obtain ⟨name, hfunction, hexternal, hname⟩ := Item.of_not_givesNothing hskip
    rw [extractItems_cons_of_name hfunction hexternal hname] at h
    obtain ⟨v, hvalue, hrest⟩ := Except.bind_eq_ok h
    have hfold := Except.mapError_eq_ok hvalue
    obtain rfl := Decl.foldValue_name hfold
    obtain ⟨others, hothers, rfl⟩ := Except.map_eq_ok hrest
    exact .inr ⟨_, others, .value hfunction hexternal hname hfold, hothers, rfl⟩

end Step

/-! ### Kernels and their items -/

/-- A kernel that the items of a file may give: the emitted function of a definition, or a
variable or constant that is declared and named as such. -/
def Kernel.IsFrom (globals : GlobalNames) (items : List Item) : Kernel → Prop
  | .function k => ∃ f, .func f ∈ items ∧ f.toKernel globals = .ok k
  | .var v =>
    v.name ∈ globals.vars ∧ ∃ d, .decl d ∈ items ∧ d.isFunction = false ∧ d.name = some v.name
  | .constant v =>
    v.name ∉ globals.vars ∧ ∃ d, .decl d ∈ items ∧ d.isFunction = false ∧ d.name = some v.name

theorem Kernel.IsFrom.cons {globals : GlobalNames} {items : List Item} {k : Kernel}
    (h : k.IsFrom globals items) (item : Item) : k.IsFrom globals (item :: items) := by
  cases k with
  | function k =>
    obtain ⟨f, hf, hk⟩ := h
    exact ⟨f, List.mem_cons_of_mem _ hf, hk⟩
  | constant v | var v =>
    obtain ⟨hvars, d, hd, hname⟩ := h
    exact ⟨hvars, d, List.mem_cons_of_mem _ hd, hname⟩

theorem Item.Gives.isFrom {globals : GlobalNames} {known : KnownConstants Binary64} {item : Item}
    {items : List Item} {k : Kernel} (h : item.Gives globals known k) (hitem : item ∈ items) :
    k.IsFrom globals items := by
  cases h with
  | function hk => exact ⟨_, hitem, hk⟩
  | @value d v hfunction _ hname _ =>
    unfold GlobalNames.record
    split
    · next hvar => exact ⟨List.contains_iff_mem.1 hvar, d, hitem, hfunction, hname⟩
    · next hvar => exact ⟨mt List.contains_iff_mem.2 hvar, d, hitem, hfunction, hname⟩

theorem isFrom_of_mem_extractItems {globals : GlobalNames} {known : KnownConstants Binary64}
    {items : List Item} {kernels : List Kernel} (h : extractItems globals known items = .ok kernels)
    {k : Kernel} (hk : k ∈ kernels) : k.IsFrom globals items := by
  induction items generalizing known kernels with
  | nil =>
    cases h
    cases hk
  | cons item rest ih =>
    obtain ⟨-, h⟩ | ⟨first, others, hgives, hothers, rfl⟩ := extractItems_cons_eq_ok h
    · exact (ih h hk).cons _
    rcases List.mem_cons.1 hk with rfl | hk
    · exact hgives.isFrom List.mem_cons_self
    · exact (ih hothers hk).cons _

theorem SourceUnit.mem_funcs {u : SourceUnit} {f : FuncDef} : f ∈ u.funcs ↔ .func f ∈ u.items := by
  simp only [funcs, List.mem_filterMap]
  constructor
  · rintro ⟨_ | _, hitem, hf⟩ <;> simp_all
  · intro hf
    exact ⟨_, hf, rfl⟩

theorem SourceUnit.mem_globals {u : SourceUnit} {d : Decl} :
    d ∈ u.globals ↔ .decl d ∈ u.items ∧ d.isFunction = false := by
  simp only [globals, List.mem_filterMap]
  constructor
  · rintro ⟨item, hitem, hd⟩
    cases item with
    | decl d' => grind [Item.global?]
    | func f => cases hd
  · rintro ⟨hd, hfunction⟩
    exact ⟨_, hd, Item.global?_of_not_isFunction hfunction⟩

/-- The names of file-level variables are classified without rest. -/
theorem SourceUnit.mem_globalNames {u : SourceUnit} {listed : List String} {x : String} :
    x ∈ (u.globalNames listed).vars ∨ x ∈ (u.globalNames listed).constants ↔
      ∃ d ∈ u.globals, d.name = some x := by
  simp only [globalNames, List.mem_filterMap, List.mem_filter]
  constructor
  · rintro (⟨d, ⟨hd, -⟩, hname⟩ | ⟨d, ⟨hd, -⟩, hname⟩) <;> exact ⟨d, hd, hname⟩
  · rintro ⟨d, hd, hname⟩
    by_cases hvar : d.isVariable listed
    · exact .inl ⟨d, ⟨hd, hvar⟩, hname⟩
    · exact .inr ⟨d, ⟨hd, by simpa using hvar⟩, hname⟩

/-- Each kernel of a whole unit comes from one of its items. -/
theorem SourceUnit.origin_of_mem_extract {u : SourceUnit} {config : ExtractConfig}
    {kernels : List Kernel} (hexports : config.exports = none) (h : u.extract config = .ok kernels)
    {k : Kernel} (hk : k ∈ kernels) : k.IsFrom (u.globalNames config.vars) u.items := by
  obtain ⟨all, hall, h⟩ := Except.bind_eq_ok h
  simp only [hexports] at h
  cases h
  exact isFrom_of_mem_extractItems hall hk

theorem FuncDef.toKernel_eq {globals : GlobalNames} {f : FuncDef} {k : FunctionKernel}
    (h : f.toKernel globals = .ok k) :
    k.name = f.name ∧ k.deps = f.dependencies globals ∧
      ∀ family, ∃ code, f.emit family = .ok code ∧ k.code? family = some code := by
  obtain ⟨shader, hshader, h⟩ := Except.bind_eq_ok h
  obtain ⟨scalar, hscalar, h⟩ := Except.bind_eq_ok h
  cases h
  refine ⟨rfl, rfl, fun family => ?_⟩
  cases family
  · exact ⟨shader, hshader, rfl⟩
  · exact ⟨scalar, hscalar, rfl⟩

end MathKernel
