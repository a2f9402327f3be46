import MathKernel.Proofs.Normalize.CoercedBodies
import MathKernel.Proofs.Syntax.Walks

/-!
# Runs of converted functions

A converted unit declares what the unit does, and the code of each of its well-typed functions is
the same. So a function runs by the implicit rules as its converted form runs by the explicit
rules.

## Main definitions

* `SourceUnit.keepsConversions` — no function has the name of a conversion or of the remainder
* `FuncDef.coerced` — a function with its converted body

## Main results

* `SourceUnit.funcs_coerced`, `SourceUnit.context_coerced` — the functions and names of a unit
* `SourceUnit.coerced_run` — runs of converted functions
-/

namespace MathKernel

variable {calls : MathKernel.Calls} {quiet : List String}

/-- A function with its converted body. -/
def FuncDef.coerced (env : TypeEnv) (f : FuncDef) : FuncDef :=
  { f with
    body := { f.body with
      items := (Stmt.coercedList f.returnType (f.bodyEnv env) f.body.items).value.1 } }

/-- A function with a rebuilt body. -/
def FuncDef.rebuild (g : Expr → Expr) (f : FuncDef) : FuncDef :=
  { f with body := f.body.rebuild g }

theorem FuncDef.rebuild_id (f : FuncDef) : f.rebuild (fun e => e) = f := by
  have hbody : f.body.rebuild (fun e => e) = f.body :=
    Block.bottomUpM_eq_pure (m := Id) fun _ _ => rfl
  rw [rebuild, hbody]

/-- Names that are given a meaning by the conversion. -/
def conversionNames : List String :=
  [ScalarType.int.cName, ScalarType.float.cName, ScalarType.bool.cName, remainderFunction]

namespace SourceUnit

/-- Whether no function of the unit has one of the names. -/
def avoids (names : List String) (u : SourceUnit) : Bool :=
  u.items.all fun item =>
    !item.toDecl.isFunction || item.toDecl.name.all (!names.contains ·)

/-- Whether no function of the unit has the name of a conversion or of the remainder. -/
def keepsConversions (u : SourceUnit) : Bool :=
  u.avoids conversionNames

theorem map_toDecl_mapBodies (f : Block → Block × Tally) (items : List Item) :
    (mapBodies f items).1.map Item.toDecl = items.map Item.toDecl := by
  induction items with
  | nil => rfl
  | cons item rest ih => cases item <;> exact congrArg (_ :: ·) ih

theorem items_coerced (u : SourceUnit) :
    u.coerced.1.items = u.items.map fun item => (item.coerced (TypeEnv.ofUnit u)).value :=
  Counted.value_mapM _ u.items

theorem funcs_coerced (u : SourceUnit) :
    u.coerced.1.funcs = u.funcs.map (FuncDef.coerced (TypeEnv.ofUnit u)) := by
  rw [funcs, items_coerced, funcs, List.filterMap_map, List.map_filterMap]
  refine congrArg (fun f => List.filterMap f u.items) (funext fun item => ?_)
  cases item with
  | decl d =>
    by_cases hfunction : d.isFunction
    · simp only [Function.comp_apply, Item.coerced, hfunction, if_true, Counted.value_pure]
      rfl
    · simp only [Function.comp_apply, Item.coerced, hfunction, Bool.false_eq_true, if_false]
      rfl
  | func f => rfl

/-- Nothing but the initializer of a file-level declaration is changed. -/
theorem itemDecl_coerced (env : TypeEnv) (item : Item) :
    ∃ init, Item.toDecl (item.coerced env).value =
      { item.toDecl with init := init } := by
  cases item with
  | decl d =>
    simp only [Item.coerced]
    split
    · refine ⟨d.init, ?_⟩
      cases d
      rfl
    · exact ⟨_, rfl⟩
  | func f =>
    refine ⟨f.decl.init, ?_⟩
    obtain ⟨decl, body, coord⟩ := f
    cases decl
    rfl

theorem filterMap_itemDecl_coerced {α : Type} {g : Decl → Option α}
    (hg : ∀ d init, g { d with init := init } = g d) (u : SourceUnit) :
    (u.coerced.1.items.map Item.toDecl).reverse.filterMap g =
      (u.items.map Item.toDecl).reverse.filterMap g := by
  rw [items_coerced, List.map_map, ← List.map_reverse, ← List.map_reverse, List.filterMap_map,
    List.filterMap_map]
  refine congrArg (fun f => List.filterMap f u.items.reverse) (funext fun item => ?_)
  obtain ⟨init, heq⟩ := itemDecl_coerced (TypeEnv.ofUnit u) item
  simp only [Function.comp_apply, heq, hg]

/-- A unit and its converted form declare the same names. -/
theorem context_coerced (u : SourceUnit) : u.coerced.1.context = u.context := by
  simp only [context, TypeEnv.ofUnit]
  rw [filterMap_itemDecl_coerced fun _ _ => rfl, filterMap_itemDecl_coerced fun _ _ => rfl]

theorem typeEnv_context (u : SourceUnit) : u.context.typeEnv = TypeEnv.ofUnit u := by
  simp only [context, Context.typeEnv, TypeEnv.ofUnit, List.map_filterMap]
  refine congrArg (TypeEnv.mk _) (congrArg (fun f => List.filterMap f _) (funext fun d => ?_))
  split
  · rfl
  · cases d.name <;> rfl

/-- A name that no function of the unit has is that of a built-in function. -/
theorem signature?_context {u : SourceUnit} {names : List String} (h : u.avoids names)
    {name : String} (hname : name ∈ names) :
    u.context.signature? name = builtinSignatures.lookup name := by
  change ((_ : List (String × Signature)) ++ builtinSignatures).lookup name = _
  rw [List.lookup_append]
  refine (congrArg (Option.or · _) (List.lookup_eq_none_iff.2 ?_)).trans (Option.none_or)
  -- An entry of that name would be a function of the unit.
  intro entry hentry
  obtain ⟨d, hd, hmap⟩ := List.mem_filterMap.1 hentry
  obtain ⟨s, hs, hdname⟩ := Option.bind_eq_some_iff.1 hmap
  obtain ⟨n, hn, rfl⟩ := Option.map_eq_some_iff.1 hdname
  obtain ⟨item, hitem, rfl⟩ := List.mem_map.1 (List.mem_reverse.1 hd)
  have hfunction : item.toDecl.isFunction := by
    by_contra hfunction
    rw [Bool.not_eq_true] at hfunction
    rw [Signature.ofDecl?_eq_none hfunction] at hs
    cases hs
  have hkeeps := List.all_eq_true.1 h item hitem
  rw [hfunction, hn, Bool.not_true, Bool.false_or, Option.all_some] at hkeeps
  rw [bne_iff_ne]
  rintro rfl
  simp [hname] at hkeeps

theorem converts_context {u : SourceUnit} (h : u.keepsConversions) : u.context.Converts := by
  have h : u.avoids conversionNames := h
  constructor
  · intro t ht
    rw [signature?_context h (by cases t <;> first | contradiction | decide)]
    cases t <;> first | contradiction | decide
  · rw [signature?_context h (by decide)]
    decide

end SourceUnit

/-- Parameters declare their types. -/
theorem Context.typeEnv_declareParams (arrays : String → Place) (params : List Decl)
    (ctx : Context) :
    (params.foldl (Context.declareParam arrays) ctx).typeEnv =
        params.foldl TypeEnv.declare ctx.typeEnv ∧
      (params.foldl (Context.declareParam arrays) ctx).functions = ctx.functions := by
  induction params generalizing ctx with
  | nil => exact ⟨rfl, rfl⟩
  | cons d rest ih =>
    have htypeEnv : (ctx.declareParam arrays d).typeEnv = ctx.typeEnv.declare d := by
      unfold Context.declareParam TypeEnv.declare
      cases d.name <;> rfl
    have hfunctions : (ctx.declareParam arrays d).functions = ctx.functions := by
      unfold Context.declareParam
      cases d.name <;> rfl
    obtain ⟨ihtypeEnv, ihfunctions⟩ := ih (ctx.declareParam arrays d)
    rw [List.foldl_cons, List.foldl_cons, ihtypeEnv, ihfunctions, htypeEnv, hfunctions]
    exact ⟨rfl, rfl⟩

/-- The converted body of a function whose expressions were rebuilt has the code of the body. The
names of the unit stay the same. -/
theorem FuncDef.bodyCode_coerced {u v : SourceUnit} (hcontext : v.context = u.context)
    {P : Context → Expr → Prop} {g : Expr → Expr}
    (hg : Prepares calls quiet u.context.functions P g) (arrays : String → Place) {f : FuncDef}
    (h : f.WellTyped quiet u arrays) (hP : ∀ x ∈ f.exprsIn u arrays, P x.1 x.2)
    (hkept : Stmt.KeepsSizes g f.body.stmts) :
    ((f.rebuild g).coerced (TypeEnv.ofUnit v)).bodyCode .explicit calls v.coerced.1 arrays =
      f.bodyCode .implicit calls u arrays := by
  obtain ⟨htypeEnv, hfunctions⟩ := Context.typeEnv_declareParams arrays f.params u.context
  obtain ⟨hcode, -⟩ := Stmt.codeList_coercedList hg f.body.items (f.context u arrays) hfunctions h
    hP hkept
  have henv : (f.context u arrays).typeEnv = f.bodyEnv (TypeEnv.ofUnit v) := by
    rw [← SourceUnit.typeEnv_context, hcontext]
    exact htypeEnv
  have hbody : (f.rebuild g).body.items = f.body.items.map (Stmt.rebuild g) :=
    Stmt.mapExprsListM_rebuild g f.body.items
  have hafter : ((f.rebuild g).coerced (TypeEnv.ofUnit v)).context v.coerced.1 arrays =
      f.context u arrays := by
    rw [FuncDef.context, SourceUnit.context_coerced, hcontext]
    rfl
  rw [henv, ← hbody] at hcode
  rw [FuncDef.bodyCode, hafter]
  exact congrArg Code.block hcode

/-- Every well-typed function of a unit without functions named like conversions runs, by the
implicit rules, as its converted form runs by the explicit rules: for any number of steps and from
any memory it returns the same value and leaves the same memory, or both get stuck. -/
theorem SourceUnit.coerced_run (u : SourceUnit) (hnames : u.keepsConversions)
    (hcalls : calls.QuietOn quiet) (arrays : String → Place) {i : Nat} {f : FuncDef}
    (hf : u.funcs[i]? = some f) (h : f.WellTyped quiet u arrays) :
    ∃ f', u.coerced.1.funcs[i]? = some f' ∧ f'.decl = f.decl ∧
      ∀ fuel memory, f'.run .explicit calls u.coerced.1 arrays fuel memory =
        f.run .implicit calls u arrays fuel memory := by
  refine ⟨f.coerced (TypeEnv.ofUnit u), ?_, rfl, fun fuel memory => ?_⟩
  · rw [funcs_coerced, List.getElem?_map, hf]
    rfl
  · have hcode := FuncDef.bodyCode_coerced rfl
      (prepares_id (converts_context hnames) hcalls) arrays h (fun _ _ => trivial)
      fun _ _ _ _ e _ => e.rebuild_id
    rw [FuncDef.rebuild_id] at hcode
    rw [FuncDef.run, FuncDef.run, hcode]

/-! ### Examples of runs -/

/-- Every cell holds one value for its type: three, three halves, or true. -/
def sampleMemory : Memory :=
  fun c => some (match c.type with
    | .int => ⟨.int 3, rfl⟩
    | .float => ⟨.float (3 / 2), rfl⟩
    | .bool => ⟨.bool true, rfl⟩
    | .void => ⟨.void, rfl⟩)

/-- A function gives the integer that it is called with as a floating number. -/
def sampleCalls : Calls
  | _, [.scalar (.int n)] => pure (.float n)
  | _, _ => .stuck

/-- A function that sums up scaled elements in an integer, with a compound assignment that is
written out, and then looks at remainders and quotients. -/
def scaledSum : FuncDef where
  decl := Decl.prototype "scaledSum" .int
    [.ofScalar "n" .int none, .ofScalar "x" .float none, .ofArray "a" .float none none]
  body := ⟨[
    .decl (.ofScalar "i" .int (some (.int 0 none))) none,
    .decl (.ofScalar "sum" .int (some (.int 0 none))) none,
    .decl (.ofScalar "odd" .bool none) none,
    .whileLoop (.binary .lt (.id "i" none) (.id "n" none) none)
      (.block [
        .expr (.assign .add (.id "sum" none)
          (.binary .mul (.index (.id "a" none) (.id "i" none) none) (.id "x" none) none) none) none,
        .expr (.unary .preInc (.id "i" none) none) none] none none) none,
    .expr (.assign .assign (.id "odd" none)
      (.binary .mod (.id "sum" none) (.int 2 none) none) none) none,
    .ret (some (.ternary
      (.binary .or (.id "odd" none)
        (.binary .eq (.binary .div (.id "i" none) (.int 2 none) none) (.int 1 none) none) none)
      (.id "sum" none) (.id "x" none) none)) none], none⟩
  coord := none

def scaledSumUnit : SourceUnit := ⟨[.func scaledSum], none⟩

theorem coerced_run_scaledSum :
    ∃ f', scaledSumUnit.coerced.1.funcs[0]? = some f' ∧
      (f'.run .explicit sampleCalls scaledSumUnit.coerced.1 .global 60 sampleMemory).map Prod.fst =
        some (some (.int 6)) := by
  have hcalls : Calls.QuietOn [] sampleCalls := by
    intro f hf
    cases hf
  have hwell : scaledSum.WellTyped [] scaledSumUnit .global := by
    unfold FuncDef.WellTyped
    decide +kernel
  obtain ⟨f', hf', -, hrun⟩ :=
    SourceUnit.coerced_run scaledSumUnit (by decide) hcalls .global (i := 0) rfl hwell
  refine ⟨f', hf', ?_⟩
  rw [hrun]
  decide +kernel

/-! ### Bodies outside the conditions

Each of these bodies has its meaning in C and is not well typed here: its function is known only
from a prototype inside the body, or is passed a truth value for which no parameter is declared;
its initializer mentions the variable, whose name had another type; its array has a size that
needs a conversion, or nested braces; its subscript stands first. -/

/-- The value that the first function of a unit returns. -/
def SourceUnit.sampleRun (rules : Rules) (u : SourceUnit) : Option (Option Scalar) :=
  u.funcs.head?.bind fun f => (f.run rules sampleCalls u .global 60 sampleMemory).map Prod.fst

/-- `int f(params) { items }` -/
def intFunction (params : List Decl) (items : List Stmt) : Item :=
  .func ⟨.prototype "f" .int params, ⟨items, none⟩, none⟩

/-- `int f(void) { float g(int n); return g(1.5); }` -/
def localPrototype : SourceUnit :=
  ⟨[intFunction [] [
    .decl (.prototype "g" .float [.ofScalar "n" .int none]) none,
    .ret (some (.call "g" [.float "1.5" none] none)) none]], none⟩

/-- `float g(); int f(float x) { return g(x < 2.0); }` -/
def openPrototype : SourceUnit :=
  ⟨[.decl (.prototype "g" .float []),
    intFunction [.ofScalar "x" .float none] [
      .ret (some (.call "g" [.binary .lt (.id "x" none) (.float "2.0" none) none] none)) none]],
    none⟩

/-- `int f(float x) { { int x = (x = 3.7) * 2; return x; } }` -/
def selfInitialized : SourceUnit :=
  ⟨[intFunction [.ofScalar "x" .float none] [.block [
    .decl (.ofScalar "x" .int (some (.binary .mul
      (.assign .assign (.id "x" none) (.float "3.7" none) none) (.int 2 none) none))) none,
    .ret (some (.id "x" none)) none] none none]], none⟩

/-- `int f(int n) { int i; float a[i = n / 2]; return i; }` -/
def computedSize : SourceUnit :=
  ⟨[intFunction [.ofScalar "n" .int none] [
    .decl (.ofScalar "i" .int none) none,
    .decl { Decl.ofArray "a" .float none none with
      type := .array (.element (.ofScalar (some "a") .float)) (some (.assign .assign (.id "i" none)
        (.binary .div (.id "n" none) (.int 2 none) none) none)) none } none,
    .ret (some (.id "i" none)) none]], none⟩

/-- `int f(void) { int a[2] = {{1.5}, 2}; return a[0]; }` -/
def nestedBraces : SourceUnit :=
  ⟨[intFunction [] [
    .decl (.ofArray "a" .int (some 2) (some (.initList
      [.initList [.float "1.5" none] none, .int 2 none] none))) none,
    .ret (some (.index (.id "a" none) (.int 0 none) none)) none]], none⟩

/-- `int f(float a[]) { return 2[a]; }` -/
def swappedSubscript : SourceUnit :=
  ⟨[intFunction [.ofArray "a" .float none none] [
    .ret (some (.index (.int 2 none) (.id "a" none) none)) none]], none⟩

/-- A run returns the integer by the implicit rules, and the converted unit gets stuck by the
explicit rules. -/
def SourceUnit.LosesRun (u : SourceUnit) (n : Int) : Prop :=
  u.keepsConversions ∧ u.sampleRun .implicit = some (some (.int n)) ∧
    u.coerced.1.sampleRun .explicit = none

instance (u : SourceUnit) (n : Int) : Decidable (u.LosesRun n) :=
  inferInstanceAs (Decidable (_ ∧ _ ∧ _))

theorem losesRun_outside_conditions :
    localPrototype.LosesRun 1 ∧ openPrototype.LosesRun 1 ∧ selfInitialized.LosesRun 6 ∧
      computedSize.LosesRun 1 ∧ nestedBraces.LosesRun 1 ∧ swappedSubscript.LosesRun 1 := by
  decide +kernel

end MathKernel
