import MathKernel.Kernel.Extraction
import MathKernel.Proofs.Normalize.Positions

/-!
# Kernels without positions

The code, the dependencies and the folded values of a unit are those of the unit without
positions. So are its kernels, and units that differ in positions only are compiled alike.

## Main results

* `FuncDef.emit_erase`, `FuncDef.dependencies_erase`, `Decl.foldValue_erase`
* `SourceUnit.extract_erase` — the kernels of a unit
* `compile_eq_of_erase_eq` — units that differ in positions only
-/

namespace MathKernel

/-! ### Code -/

namespace Expr

mutual

theorem emit_erase (family : Family) (e : Expr) : e.erase.emit family = e.emit family := by
  cases e with
  | binary op l r c => simp [erase, emit, emit_erase family l, emit_erase family r]
  | unary op e c => simp [erase, emit, emit_erase family e, UnaryOp.fuses_erase]
  | assign op t v c => simp [erase, emit, emit_erase family t, emit_erase family v]
  | ternary p t e c =>
    simp [erase, emit, emit_erase family p, emit_erase family t, emit_erase family e]
  | call callee args c => simp [erase, emit, emitList_erase family args]
  | index a i c => simp [erase, emit, emit_erase family a, emit_erase family i]
  | comma items c => simp [erase, emit, emitList_erase family items]
  | id | literal | cast | initList => rfl

theorem emitList_erase (family : Family) (items : List Expr) :
    emitList family (items.map erase) = emitList family items := by
  cases items with
  | nil => rfl
  | cons e rest => simp [emitList, emit_erase family e, emitList_erase family rest]

end

theorem emitOption_erase (family : Family) (e : Option Expr) :
    emitOption family (e.map erase) = emitOption family e := by
  cases e with
  | none => rfl
  | some e => simp [emitOption, emit_erase]

end Expr

/-- A list that is mapped by a function which does not look at positions. -/
theorem mapM_map_erase {m : Type → Type} [Monad m] [LawfulMonad m] {α β : Type} {erase : α → α}
    {f : α → m β} (hf : ∀ a, f (erase a) = f a) (items : List α) :
    (items.map erase).mapM f = items.mapM f := by
  induction items with
  | nil => rfl
  | cons a rest ih => simp only [List.map_cons, List.mapM_cons, hf, ih]

theorem mapIdx_map_erase {α β : Type} {erase : α → α} {f : Nat → α → β}
    (hf : ∀ i a, f i (erase a) = f i a) (items : List α) :
    (items.map erase).mapIdx f = items.mapIdx f := by
  refine List.mapIdx_eq_iff.2 fun i => ?_
  rw [List.getElem?_mapIdx, List.getElem?_map, Option.map_map]
  cases items[i]? with
  | none => rfl
  | some a => exact congrArg some (hf i a).symm

namespace Decl

theorem emitLocal_erase (family : Family) (d : Decl) :
    d.erase.emitLocal family = d.emitLocal family := by
  unfold emitLocal
  rw [name_erase, isArray_erase, arrayLen?_erase, scalar_erase, init_erase, Expr.emitOption_erase]
  cases d.init with
  | none => rfl
  | some e =>
    cases e with
    | initList items c =>
      simp only [Option.map_some, Expr.erase, Expr.eraseList_eq_map,
        mapM_map_erase (Expr.emit_erase family)]
    | _ => rfl

theorem emitLoopVariable_erase (family : Family) (d : Decl) :
    d.erase.emitLoopVariable family = d.emitLoopVariable family := by
  simp [emitLoopVariable, Expr.emitOption_erase]

theorem argName_erase (index : Nat) (d : Decl) : d.erase.argName index = d.argName index := by
  simp [argName]

theorem shaderParam_erase (d : Decl) : d.erase.shaderParam = d.shaderParam := by
  simp [shaderParam]

end Decl

theorem ForInit.emit_erase (family : Family) (init : Option ForInit) :
    ForInit.emit family (init.map ForInit.erase) = ForInit.emit family init := by
  rcases init with _ | ds | e
  · rfl
  · simp only [Option.map_some, ForInit.erase, ForInit.emit,
      mapM_map_erase (Decl.emitLoopVariable_erase family)]
  · simp [ForInit.erase, ForInit.emit, Expr.emit_erase]

namespace Stmt

mutual

theorem emit_erase (family : Family) (s : Stmt) : s.erase.emit family = s.emit family := by
  cases s with
  | decl d c => simp [erase, emit, Decl.emitLocal_erase]
  | block items b c => simp [erase, emit, emitList_erase family items]
  | expr e c => simp [erase, emit, Expr.emit_erase]
  | ifThen p t c => simp [erase, emit, Expr.emit_erase, emit_erase family t]
  | ifElse p t e c => simp [erase, emit, Expr.emit_erase, emit_erase family t, emit_erase family e]
  | forLoop init cond next body c =>
    simp [erase, emit, ForInit.emit_erase, Expr.emitOption_erase, emit_erase family body]
  | whileLoop p body c =>
    cases family <;> simp [erase, emit, Expr.emit_erase, emit_erase _ body]
  | doWhile p body c =>
    cases family <;> simp [erase, emit, Expr.emit_erase, emit_erase _ body]
  | ret value c => cases value <;> simp [erase, emit, Expr.emit_erase]
  | brk | cont | goto | label | empty => rfl

theorem emitList_erase (family : Family) (items : List Stmt) :
    emitList family (items.map erase) = emitList family items := by
  cases items with
  | nil => rfl
  | cons s rest => simp [emitList, emit_erase family s, emitList_erase family rest]

end

end Stmt

namespace FuncDef

theorem signature_erase (family : Family) (f : FuncDef) :
    f.erase.signature family = f.signature family := by
  simp only [signature, returnType_erase, name_erase, params_erase,
    mapIdx_map_erase Decl.argName_erase, mapM_map_erase Decl.shaderParam_erase]

/-- The code of a function does not depend on positions. -/
theorem emit_erase (family : Family) (f : FuncDef) : f.erase.emit family = f.emit family := by
  have hitems : f.erase.body.items = f.body.items.map Stmt.erase := rfl
  simp only [emit, code, signature_erase, hitems, Stmt.emitList_erase, name_erase]

end FuncDef

/-! ### Dependencies -/

theorem Dependencies.addNode_erase (globals : GlobalNames) (hidden : List String)
    (d : Dependencies) (e : Expr) :
    d.addNode globals hidden e.erase = d.addNode globals hidden e := by
  cases e <;> rfl

theorem FuncDef.scopedNodes_erase (f : FuncDef) :
    f.erase.scopedNodes = f.scopedNodes.map (Prod.map id Expr.erase) := by
  have hitems : f.erase.body.items = f.body.items.map Stmt.erase := rfl
  have hscoped := Stmt.scopedExprsList_erase declareName_erase f.paramNames f.body.items
  simp only [FuncDef.scopedNodes, FuncDef.paramNames_erase, hitems, hscoped, Prod.map_fst,
    List.flatMap_map, List.map_flatMap]
  refine List.flatMap_congr fun node _ => ?_
  simp [Expr.subexprs_erase]

/-- The names that a function refers to do not depend on positions. -/
theorem FuncDef.dependencies_erase (globals : GlobalNames) (f : FuncDef) :
    f.erase.dependencies globals = f.dependencies globals := by
  simp only [FuncDef.dependencies, FuncDef.scopedNodes_erase, List.foldl_map, Prod.map_fst,
    Prod.map_snd, id_eq, Dependencies.addNode_erase]

/-! ### Folded values -/

theorem Expr.fold?_erase {ν : Type} (A : Arithmetic ν) (known : KnownConstants ν) (e : Expr) :
    e.erase.fold? A known = e.fold? A known := by
  match e with
  | .literal .. | .id .. => rfl
  | .index a i c => simp [Expr.erase, Expr.fold?]
  | .unary op e c => simp [Expr.erase, Expr.fold?, Expr.fold?_erase A known e]
  | .binary op l r c =>
    simp [Expr.erase, Expr.fold?, Expr.fold?_erase A known l, Expr.fold?_erase A known r]
  | .call callee [arg] c => simp [Expr.erase, Expr.fold?, Expr.fold?_erase A known arg]
  | .call callee [] c | .call callee (_ :: _ :: _) c => simp [Expr.erase, Expr.fold?]
  | .assign .. | .ternary .. | .cast .. | .initList .. | .comma .. => simp [Expr.erase, Expr.fold?]

theorem Expr.floatSpelling?_erase (e : Expr) : e.erase.floatSpelling? = e.floatSpelling? := by
  match e with
  | .literal ⟨kind, text⟩ c => cases kind <;> rfl
  | .unary op e c =>
    match e with
    | .literal ⟨kind, text⟩ c => cases op <;> cases kind <;> rfl
    | .id .. | .binary .. | .unary .. | .assign .. | .ternary .. | .call .. | .cast .. | .index ..
    | .initList .. | .comma .. => cases op <;> rfl
  | .id .. | .binary .. | .assign .. | .ternary .. | .call .. | .cast .. | .index ..
  | .initList .. | .comma .. => rfl

theorem Expr.foldNumber_erase (known : KnownConstants Binary64) (type : ScalarType) (e : Expr) :
    e.erase.foldNumber known type = e.foldNumber known type := by
  simp only [Expr.foldNumber, Expr.fold?_erase, foldedLiteral, Expr.floatSpelling?_erase]

theorem Decl.foldNumbers_erase (known : KnownConstants Binary64) (d : Decl) :
    d.erase.foldNumbers known = d.foldNumbers known := by
  have hitems : d.erase.initItems = d.initItems.map (List.map Expr.erase) := by
    simp only [Decl.initItems, Decl.init_erase]
    cases d.init with
    | none => rfl
    | some e => cases e <;> simp [Expr.erase, Except.map]
  simp only [Decl.foldNumbers, Decl.scalar_erase, Decl.isArray_erase, Decl.arrayLen?_erase,
    Decl.init_erase, hitems, Except.bind_map, ← List.map_take,
    mapM_map_erase (Expr.foldNumber_erase known d.scalar)]
  cases d.init <;> simp [Expr.foldNumber_erase]

/-- The value of a variable does not depend on positions. -/
theorem Decl.foldValue_erase (known : KnownConstants Binary64) (name : String) (d : Decl) :
    d.erase.foldValue known name = d.foldValue known name := by
  simp only [Decl.foldValue, Decl.foldNumbers_erase, Decl.scalar_erase]

/-! ### Kernels -/

theorem SourceUnit.globals_erase (u : SourceUnit) : u.erase.globals = u.globals.map Decl.erase := by
  simp only [SourceUnit.globals, SourceUnit.erase, List.filterMap_map, List.map_filterMap]
  refine List.filterMap_congr fun item _ => ?_
  cases item with
  | decl d =>
    simp only [Function.comp_apply, Item.erase, Item.global?, Decl.isFunction_erase]
    split <;> rfl
  | func f => rfl

theorem Decl.isVariable_erase (listed : List String) (d : Decl) :
    d.erase.isVariable listed = d.isVariable listed := by
  simp [Decl.isVariable]

theorem SourceUnit.globalNames_erase (listed : List String) (u : SourceUnit) :
    u.erase.globalNames listed = u.globalNames listed := by
  have hconstants := filter_map_erase (p := fun d : Decl => !d.isVariable listed)
    (fun d => by rw [Decl.isVariable_erase]) u.globals
  have hvars := filter_map_erase (Decl.isVariable_erase listed) u.globals
  simp [SourceUnit.globalNames, SourceUnit.globals_erase, hconstants, hvars, List.filterMap_map]

theorem FuncDef.toKernel_erase (globals : GlobalNames) (f : FuncDef) :
    f.erase.toKernel globals = f.toKernel globals := by
  have harg (i : Nat) (d : Decl) : d.erase.toArg i = d.toArg i := by
    simp [Decl.toArg, Decl.argName_erase]
  simp only [FuncDef.toKernel, FuncDef.emit_erase, FuncDef.dependencies_erase, FuncDef.name_erase,
    FuncDef.returnType_erase, FuncDef.params_erase, mapIdx_map_erase harg]

theorem extractItems_erase (globals : GlobalNames) (known : KnownConstants Binary64)
    (items : List Item) :
    extractItems globals known (items.map Item.erase) = extractItems globals known items := by
  induction items generalizing known with
  | nil => rfl
  | cons item rest ih =>
    cases item with
    | func f => simp only [List.map_cons, Item.erase, extractItems, FuncDef.toKernel_erase, ih]
    | decl d =>
      simp only [List.map_cons, Item.erase, extractItems, Decl.isFunction_erase,
        Decl.isExternal_erase, Decl.name_erase, Decl.foldValue_erase, ih]

/-- The kernels of a unit do not depend on positions. -/
theorem SourceUnit.extract_erase (config : ExtractConfig) (u : SourceUnit) :
    u.erase.extract config = u.extract config := by
  have hitems : u.erase.items = u.items.map Item.erase := rfl
  simp only [SourceUnit.extract, SourceUnit.globalNames_erase, hitems, extractItems_erase]

/-! ### Units that differ in positions -/

/-- Units that are equal without positions are compiled alike: normalization fails on both with
one error, or gives trees that are equal without positions, with the same report and the same
kernels. -/
theorem compile_eq_of_erase_eq {u u' : SourceUnit} (h : u.erase = u'.erase) (base : String)
    (capacity : Nat) (config : ExtractConfig) :
    (∃ e, normalize { baseName := base, capacity } u = .error e ∧
        normalize { baseName := base, capacity } u' = .error e) ∨
      ∃ v v' report, normalize { baseName := base, capacity } u = .ok (v, report) ∧
        normalize { baseName := base, capacity } u' = .ok (v', report) ∧
        v.erase = v'.erase ∧ v.extract config = v'.extract config := by
  have hu := normalize_erase { baseName := base, capacity } u
  have hu' := normalize_erase { baseName := base, capacity } u'
  rw [h] at hu
  cases hrun : normalize { baseName := base, capacity } u with
  | error e =>
    cases hrun' : normalize { baseName := base, capacity } u' with
    | error e' =>
      rw [hrun] at hu
      rw [hrun', hu] at hu'
      exact .inl ⟨e, rfl, congrArg _ (Except.error.inj hu').symm⟩
    | ok result =>
      rw [hrun] at hu
      rw [hrun', hu] at hu'
      cases hu'
  | ok result =>
    cases hrun' : normalize { baseName := base, capacity } u' with
    | error e' =>
      rw [hrun] at hu
      rw [hrun', hu] at hu'
      cases hu'
    | ok result' =>
      obtain ⟨v, report⟩ := result
      obtain ⟨v', report'⟩ := result'
      rw [hrun] at hu
      rw [hrun', hu] at hu'
      obtain ⟨hv, rfl⟩ := Prod.mk.inj (Except.ok.inj hu')
      refine .inr ⟨v, v', report, rfl, rfl, hv, ?_⟩
      calc v.extract config = v.erase.extract config := (v.extract_erase config).symm
        _ = v'.erase.extract config := congrArg (SourceUnit.extract config) hv
        _ = v'.extract config := v'.extract_erase config

/-- A function with a jump and an absolute value, whose nodes stand at different positions. -/
def positionedUnit (position : Nat → Coord) : SourceUnit :=
  let x (n : Nat) := Expr.id "x" (position n)
  let magnitude := Expr.ternary (.binary .lt (x 0) (.int 0 (position 1)) (position 2))
    (.unary .neg (x 3) (position 4)) (x 5) (position 6)
  let f : FuncDef :=
    { decl := .prototype "f" .float [.ofScalar "x" .float none]
      body :=
        { items :=
            [.goto "end" (position 7), .label "end" (.ret (some magnitude) none) (position 8)]
          coord := position 9 }
      coord := position 10 }
  ⟨[.func f], position 11⟩

theorem positionedUnit_erase (position : Nat → Coord) :
    (positionedUnit position).erase = (positionedUnit fun _ => none).erase :=
  rfl

theorem compile_eq_positionedUnit :
    let u := positionedUnit fun n => some (toString n)
    let u' := positionedUnit fun _ => none
    u.erase = u'.erase ∧ (normalize { baseName := "unit", capacity := 6 } u).isOk = true ∧
      ((∃ e, normalize { baseName := "unit", capacity := 6 } u = .error e ∧
          normalize { baseName := "unit", capacity := 6 } u' = .error e) ∨
        ∃ v v' report, normalize { baseName := "unit", capacity := 6 } u = .ok (v, report) ∧
          normalize { baseName := "unit", capacity := 6 } u' = .ok (v', report) ∧
          v.erase = v'.erase ∧ v.extract {} = v'.extract {}) :=
  ⟨positionedUnit_erase _, by decide +kernel,
    compile_eq_of_erase_eq (positionedUnit_erase _) "unit" 6 {}⟩

end MathKernel
