import MathKernel.Proofs.Normalize.FoldedRuns
import MathKernel.Proofs.Normalize.UnrolledRuns
import MathKernel.Proofs.Semantics.Frames

/-!
# Functions that write to variables of their own only

An expression without side effects writes to nothing by itself, but it may call functions that do.
If all that it reaches writes to its own parameters and variables only, evaluating it leaves every
other variable as it was, since the variables of an activation are given up at its end. Nothing less
will do: a function that counts its calls in a variable of the file changes it.

## Main definitions

* `FuncDef.IsLocal` — functions that write to variables of their own only
* `Memory.GivenUp` — variables from a number on may have been given up
* `Context.ActiveFrom` — the names of an activation as they are known before

## Main results

* `SourceUnit.call_within` — calls of such functions
* `SourceUnit.eval_keeps_variables` — expressions without side effects that call such functions
* `counted_changes_total` — an expression without side effects that changes a variable
-/

namespace MathKernel

open MathKernel.Action

/-- Whether a place is one of those of an activation: a parameter or a variable of the body. -/
def Place.isLocal : Place → Bool
  | .param _ | .slot _ => true
  | .global _ | .guard _ | .function _ => false

/-- Every write of the body is to a variable of the function itself or to an element of one, an
array that is passed to it being none of its own; nothing is kept from one call to the next, and
only functions with the given names are called. -/
structure FuncDef.IsLocal (names : List String) (u : SourceUnit) (f : FuncDef) : Prop where
  withoutStatics : Stmt.WithoutStatics f.body.stmts
  writes : ∀ x ∈ Stmt.exprsInList (f.params.foldl (Context.declareParam .global) u.fileContext)
    f.body.items, x.2.IsWithin (fun place => place.isLocal) names x.1

/-! ### Memory -/

namespace Memory

/-- Every cell is as it was, or it belongs to a variable from a number on and holds nothing. -/
def GivenUp (base : Nat) (m m' : Memory) : Prop :=
  ∀ c, m' c = m c ∨ c.place.isFrom base ∧ m' c = none

variable {base base' : Nat} {m m' : Memory}

instance : IsPreorder Memory (GivenUp base) where
  refl _ _ := .inl rfl
  trans m m' m'' h h' c := by
    obtain heq' | hnone := h' c
    · rw [heq']
      exact h c
    · exact .inr hnone

theorem GivenUp.agreeBelow (h : GivenUp base' m m') (hbase : base ≤ base') :
    AgreeBelow base m m' := by
  intro c hc
  obtain heq | ⟨hfrom, -⟩ := h c
  · exact heq
  · cases hplace : c.place with
    | slot index =>
      simp only [hplace, Place.isFrom, decide_eq_true_eq] at hc hfrom
      exact absurd (hbase.trans hfrom) hc
    | _ => simp [hplace, Place.isFrom] at hfrom

/-- Where the variables from the number on hold nothing, nothing changes. -/
theorem GivenUp.eq (h : GivenUp base m m') (hfree : ∀ c : Cell, c.place.isFrom base → m c = none) :
    m' = m := by
  funext c
  obtain heq | ⟨hfrom, hnone⟩ := h c
  · exact heq
  · rw [hnone, hfree c hfrom]

end Memory

/-! ### The names of an activation -/

/-- An array stays an array, and a variable of the function is kept from a number on. -/
def Binding.ActiveFrom (base : Nat) (b b' : Binding) : Prop :=
  b.isArray = b'.isArray ∧ (b.place.isLocal → b'.place.isFrom base)

/-- Names as they are known to an activation that keeps its variables from a number on. -/
structure Context.ActiveFrom (base : Nat) (ctx ctx' : Context) : Prop where
  slots : base ≤ ctx'.slots
  binding : ∀ name, Option.Rel (Binding.ActiveFrom base) (ctx.binding? name) (ctx'.binding? name)

namespace Context.ActiveFrom

variable {base : Nat} {ctx ctx' : Context}

theorem bind (h : ActiveFrom base ctx ctx') (name : String) {b b' : Binding}
    (hb : b.ActiveFrom base b') : ActiveFrom base (ctx.bind name b) (ctx'.bind name b') where
  slots := h.slots
  binding x := by
    simp only [Context.bind, binding?, List.lookup_cons]
    split
    · exact .some hb
    · exact h.binding x

/-- Names that are bound to the same place, which is that of no variable of the function. -/
theorem bind_same (h : ActiveFrom base ctx ctx') (name : String) {b : Binding}
    (hb : b.place.isLocal = false) : ActiveFrom base (ctx.bind name b) (ctx'.bind name b) :=
  h.bind name ⟨rfl, fun hlocal => absurd hlocal (by simp [hb])⟩

/-- Names that are bound to the next places. -/
theorem bind_next (h : ActiveFrom base ctx ctx') (name : String) (type : ScalarType)
    (isArray : Bool) {place : Place} (n : Nat) :
    ActiveFrom base { ctx.bind name ⟨type, place, isArray⟩ with slots := n }
      { ctx'.bind name ⟨type, .slot ctx'.slots, isArray⟩ with slots := ctx'.slots + 1 } where
  slots := h.slots.trans (Nat.le_succ _)
  binding :=
    have hb : Binding.ActiveFrom base ⟨type, place, isArray⟩ ⟨type, .slot ctx'.slots, isArray⟩ :=
      ⟨rfl, fun _ => decide_eq_true h.slots⟩
    (h.bind name hb).binding

theorem declare (h : ActiveFrom base ctx ctx') (d : Decl) :
    ActiveFrom base (ctx.declare d) (ctx'.declare d) := by
  unfold Context.declare
  split
  · exact h
  · next name _ =>
    split
    · next s _ =>
      have hfunction := h.bind_same name (b := ⟨s.result, .function name, false⟩) rfl
      exact ⟨hfunction.slots, hfunction.binding⟩
    · split
      · exact h.bind_same name rfl
      · exact h.bind_next name d.scalar d.isArray _

theorem isKept (base : Nat) : IsKept (ActiveFrom base) where
  declare d h := h.declare d
  leave h hinner := ⟨hinner.slots, h.binding⟩

theorem array? (h : ActiveFrom base ctx ctx') (e : Expr) :
    Option.Rel (Binding.ActiveFrom base) (ctx.array? e) (ctx'.array? e) := by
  cases e with
  | id name c =>
    have hname := h.binding name
    simp only [Context.array?]
    generalize ctx.binding? name = b?, ctx'.binding? name = b?' at hname
    cases hname with
    | none => exact .none
    | some hb =>
      simp only [Option.filter_some, hb.1]
      split
      · exact .some hb
      · exact .none
  | _ => exact .none

/-- What an assigned expression names. -/
theorem target? (h : ActiveFrom base ctx ctx') (e : Expr) :
    Option.Rel (Binding.ActiveFrom base) (ctx.target? e) (ctx'.target? e) := by
  cases e with
  | id name c => exact h.binding name
  | index a i c =>
    have ha := h.array? a
    simp only [Context.target?]
    generalize ctx.array? a = b?, ctx'.array? a = b?' at ha
    cases ha with
    | none => exact h.array? i
    | some hb => exact .some hb
  | _ => exact .none

/-- What is written to variables of the function is written to variables from the number on. -/
theorem isWithin (h : ActiveFrom base ctx ctx') {names : List String} {e : Expr}
    (he : e.IsWithin (fun place => place.isLocal) names ctx) : e.WritesFrom base names ctx' := by
  refine he.imp fun s hs => ⟨fun target htarget b' hb' => ?_, hs.2⟩
  have hrel := h.target? target
  rw [Option.mem_def.1 hb'] at hrel
  generalize hb? : ctx.target? target = b? at hrel
  cases hrel with
  | some hb => exact hb.2 (hs.1 target htarget _ hb?)

end Context.ActiveFrom

/-! ### Activations -/

/-- What a file declares belongs to no function. -/
theorem SourceUnit.isLocal_fileContext (u : SourceUnit) {name : String} {b : Binding}
    (h : u.fileContext.binding? name = some b) : b.place.isLocal = false := by
  have hmem : (name, b) ∈ u.fileContext.vars := mem_of_lookup_eq_some h
  obtain hmem | hmem := List.mem_append.1 hmem
  · obtain ⟨d, -, hd⟩ := List.mem_filterMap.1 hmem
    split at hd
    · cases hd
    · obtain ⟨_, -, heq⟩ := Option.map_eq_some_iff.1 hd
      cases heq
      rfl
  · cases List.mem_singleton.1 hmem
    rfl

theorem SourceUnit.activeFrom_fileContext (u : SourceUnit) (base : Nat) :
    Context.ActiveFrom base u.fileContext { u.fileContext with slots := base } where
  slots := le_rfl
  binding name := by
    change Option.Rel _ (u.fileContext.binding? name) (u.fileContext.binding? name)
    cases hb : u.fileContext.binding? name with
    | none => exact .none
    | some b => exact .some ⟨rfl, fun hlocal => by simp [u.isLocal_fileContext hb] at hlocal⟩

namespace Context

variable {base : Nat} {ctx ctx' : Context} {rules : Rules}

/-- A parameter is kept at the next place, and an array where it is passed from. -/
theorem returns_enter_activeFrom (h : ActiveFrom base ctx ctx') (d : Decl) (arg : Argument) :
    Returns (ActiveFrom base (ctx.declareParam .global d)) (ctx'.enter rules d arg) := by
  unfold enter declareParam
  rcases d.name.eq_none_or_eq_some with hname | ⟨name, hname⟩
  · rw [hname]
    exact returns_pure h
  · rw [hname]
    cases arg with
    | scalar v =>
      by_cases harray : d.isArray
      · simp only [harray, if_true]
        exact returns_stuck
      · rw [Bool.not_eq_true] at harray
        simp only [harray, Bool.false_eq_true, if_false]
        exact returns_bind fun _ => returns_pure (h.bind_next name d.scalar false _)
    | array place type =>
      by_cases harray : d.isArray ∧ type = d.scalar
      · simp only [harray, and_self, if_true]
        exact returns_pure (h.bind name ⟨rfl, fun hlocal => by cases hlocal⟩)
      · simp only [harray, if_false]
        exact returns_stuck
    | text => exact returns_stuck

theorem returns_enterAll_activeFrom (h : ActiveFrom base ctx ctx') (ds : List Decl)
    (args : List Argument) :
    Returns (ActiveFrom base (ds.foldl (declareParam .global) ctx))
      (enterAll rules ctx' ds args) := by
  induction ds generalizing ctx ctx' args with
  | nil =>
    cases args with
    | nil => exact returns_pure h
    | cons => exact returns_stuck
  | cons d rest ih =>
    cases args with
    | nil => exact returns_stuck
    | cons arg args => exact (returns_enter_activeFrom h d arg).bind fun _ h' => ih h' args

/-- Parameters are written to places from the number on. -/
theorem enter_within (hbase : base ≤ ctx.slots) (d : Decl) (arg : Argument) :
    (ctx.enter rules d arg).Within (Memory.AgreeBelow base) := by
  unfold enter
  split
  · exact (quiet_pure _).within
  · split
    · exact quiet_stuck.within
    · exact (within_store (fun _ _ => id) rules (decide_eq_true hbase) _).bind fun _ =>
        (quiet_pure _).within
  · split
    · exact (quiet_pure _).within
    · exact quiet_stuck.within
  · exact quiet_stuck.within

theorem enterAll_within (h : ActiveFrom base ctx ctx') (ds : List Decl) (args : List Argument) :
    (enterAll rules ctx' ds args).Within (Memory.AgreeBelow base) := by
  induction ds generalizing ctx ctx' args with
  | nil =>
    cases args with
    | nil => exact (quiet_pure _).within
    | cons => exact quiet_stuck.within
  | cons d rest ih =>
    cases args with
    | nil => exact quiet_stuck.within
    | cons arg args =>
      exact (returns_enter_activeFrom h d arg).bind_within (enter_within h.slots d arg)
        fun _ h' => ih h' args

end Context

section Activations

variable {u : SourceUnit} {f : FuncDef} {names : List String} (hf : f.IsLocal names u)
include hf

/-- The code of a function that writes to its own variables only. -/
theorem FuncDef.IsLocal.code_within {calls : Calls} {base : Nat} {ctx : Context}
    (hcalls : calls.KeepBelow base names)
    (hctx : Context.ActiveFrom base (f.params.foldl (Context.declareParam .global) u.fileContext)
      ctx) (rules : Rules) :
    (Code.block (Stmt.codeList rules calls f.returnType ctx f.body.items)).Within
      (Memory.AgreeBelow base) := by
  refine .block (Stmt.codeList_within hcalls _ _ ctx hctx.slots hf.withoutStatics fun y hy => ?_)
  obtain ⟨x, hx, hrel, hexpr⟩ :=
    Stmt.exists_mem_exprsInList (Context.ActiveFrom.isKept base) hctx hy
  exact hexpr ▸ hrel.isWithin (hf.writes x hx)

/-- An activation gives up what it writes to. -/
theorem FuncDef.activate_within {calls : Nat → Calls}
    (hcalls : ∀ base, ∀ g ∈ names, ∀ args, (calls base g args).Within (Memory.GivenUp base))
    (rules : Rules) (fuel base : Nat) (args : List Argument) :
    (f.activate rules u.fileContext calls fuel base args).Within (Memory.GivenUp base) := by
  have hactive := u.activeFrom_fileContext base
  unfold activate
  split
  · exact quiet_stuck.within
  intro m v m' h
  obtain ⟨ctx, m₁, henter, h⟩ := bind_eq_some.1 h
  obtain ⟨result, m₂, hrun, h⟩ := bind_eq_some.1 h
  obtain ⟨_, m₃, herase, h⟩ := bind_eq_some.1 h
  have hctx := Context.returns_enterAll_activeFrom hactive f.params args m ctx m₁ henter
  have hentered := Context.enterAll_within hactive f.params args m ctx m₁ henter
  -- The variables of the functions that are called come after those of the body.
  have hslots := (Stmt.exprsInList_related (Context.isKept_slots base) f.body.items ctx ctx
    hctx.slots).2
  have hinner : Calls.KeepBelow base names (calls (Stmt.afterList ctx f.body.items).slots) :=
    fun g hg args => (hcalls _ g hg args).imp fun _ _ hgiven => hgiven.agreeBelow hslots
  have hcode := hf.code_within hinner hctx rules
  have hran := Task.run_within hcode fuel (List.forall_mem_singleton.2 (.code hcode)) m₁ result m₂
    hrun
  have hsame : m' = m₃ := by
    cases result with
    | some v => exact quiet_pure v m₃ _ m' h
    | none =>
      dsimp only at h
      split at h
      · exact quiet_pure _ m₃ _ m' h
      · exact quiet_stuck m₃ _ m' h
  intro c
  cases herase
  rw [hsame]
  by_cases hfrom : c.place.isFrom base
  · exact .inr ⟨hfrom, if_pos hfrom⟩
  · exact .inl ((if_neg hfrom).trans (trans_of (Memory.AgreeBelow base) hentered hran c hfrom))

end Activations

namespace SourceUnit

/-- Evaluate an expression with the functions of a unit. -/
def eval (rules : Rules) (u : SourceUnit) (external : MathKernel.Calls)
    (allowed : List String → Bool) (fuel : Nat) (stack : List String) (base : Nat) (ctx : Context)
    (e : Expr) : Action Scalar :=
  e.eval rules (u.call rules external allowed fuel stack base) ctx

variable {u : SourceUnit} {external : MathKernel.Calls} {allowed : List String → Bool}
  {names : List String}

/-- A call that reaches only functions that write to their own variables leaves every other variable
as it was. -/
theorem call_within (hlocal : ∀ name ∈ names, ∀ f ∈ u.func? name, f.IsLocal names u)
    (hexternal : ∀ name ∈ names, u.func? name = none → ∀ args, (external name args).Quiet)
    (rules : Rules) (fuel : Nat) (stack : List String) (base : Nat) {name : String}
    (hname : name ∈ names) (args : List Argument) :
    (u.call rules external allowed fuel stack base name args).Within (Memory.GivenUp base) := by
  induction fuel generalizing stack base name args with
  | zero => exact quiet_stuck.within
  | succ fuel ih =>
    cases hf : u.func? name with
    | none =>
      rw [call_of_func?_eq_none hf]
      exact (hexternal name hname hf args).within
    | some f =>
      rw [call_of_func? hf]
      split
      · exact FuncDef.activate_within (hlocal name hname f hf)
          (fun base g hg args => ih (name :: stack) base hg args) rules fuel base args
      · exact quiet_stuck.within

/-- An expression without side effects whose calls reach only functions that write to their own
variables leaves every variable outside of the activations that it starts as it was. Where these are
free, what follows runs as if the expression had not been evaluated, or not twice. -/
theorem eval_keeps_variables (hlocal : ∀ name ∈ names, ∀ f ∈ u.func? name, f.IsLocal names u)
    (hexternal : ∀ name ∈ names, u.func? name = none → ∀ args, (external name args).Quiet)
    {e : Expr} (heffects : e.hasSideEffects = false)
    (hnames : e.subexprs.all (Expr.callsAmong names)) (rules : Rules) (fuel : Nat)
    (stack : List String) (base : Nat) (ctx : Context) {m m' : Memory} {v : Scalar}
    (hrun : u.eval rules external allowed fuel stack base ctx e m = some (v, m')) :
    (∀ c : Cell, ¬c.place.isFrom base → m' c = m c) ∧
      ((∀ c : Cell, c.place.isFrom base → m c = none) → ∀ k : Scalar → Action Scalar,
        (u.eval rules external allowed fuel stack base ctx e >>= k) m = k v m ∧
          (u.eval rules external allowed fuel stack base ctx e >>= fun _ =>
            u.eval rules external allowed fuel stack base ctx e >>= k) m = k v m) := by
  have hwithin : (u.eval rules external allowed fuel stack base ctx e).Within
      (Memory.GivenUp base) :=
    Expr.eval_within (fun _ hname => call_within hlocal hexternal rules fuel stack base hname)
      (fun _ _ hagree => Memory.eq_of_agreeOff hagree ▸ refl_of _ _) rules ctx e
      ((Expr.isQuiet_iff.2 ⟨heffects, hnames⟩).isWithin _ ctx)
  have hgiven := hwithin m v m' hrun
  refine ⟨hgiven.agreeBelow le_rfl, fun hfree k => ?_⟩
  obtain rfl := hgiven.eq hfree
  have honce (k : Scalar → Action Scalar) :
      (u.eval rules external allowed fuel stack base ctx e >>= k) m' = k v m' := by
    change ((u.eval rules external allowed fuel stack base ctx e m').bind fun (a, m) => k a m) = _
    rw [hrun]
    rfl
  exact ⟨honce k, (honce _).trans (honce k)⟩

end SourceUnit

/-- `float lifted(float x) { x += 1; return x; }
float squared(float x) { float y = lifted(x); y *= lifted(x); return y; }` -/
def liftedUnit : SourceUnit :=
  ⟨[.func ⟨.prototype "lifted" .float [.ofScalar "x" .float none], ⟨[
      .expr (.assign .add (.id "x" none) (.int 1 none) none) none,
      .ret (some (.id "x" none)) none], none⟩, none⟩,
    .func ⟨.prototype "squared" .float [.ofScalar "x" .float none], ⟨[
      .decl (.ofScalar "y" .float (some (.call "lifted" [.id "x" none] none))) none,
      .expr (.assign .mul (.id "y" none) (.call "lifted" [.id "x" none] none) none) none,
      .ret (some (.id "y" none)) none], none⟩, none⟩], none⟩

/-- The names of a function with one floating variable. -/
def oneVariable (u : SourceUnit) : Context :=
  (u.fileContext).declare (.ofScalar "z" .float none)

/-- A memory without the variables from the first one on. -/
def freeMemory : Memory :=
  fun c => if c.place.isFrom 1 then none else sampleMemory c

theorem eval_keeps_variables_squared :
    ∃ m', liftedUnit.eval .implicit (fun _ _ => .stuck) anyStack 20 [] 1 (oneVariable liftedUnit)
        (.call "squared" [.id "z" none] none) freeMemory = some (.float (25 / 4), m') ∧
      (∀ c : Cell, ¬c.place.isFrom 1 → m' c = freeMemory c) ∧
      (liftedUnit.eval .implicit (fun _ _ => .stuck) anyStack 20 [] 1 (oneVariable liftedUnit)
          (.call "squared" [.id "z" none] none) >>= fun _ =>
        liftedUnit.eval .implicit (fun _ _ => .stuck) anyStack 20 [] 1 (oneVariable liftedUnit)
          (.call "squared" [.id "z" none] none) >>= pure) freeMemory =
        some (.float (25 / 4), freeMemory) := by
  have hlocal : ∀ name ∈ ["squared", "lifted"], ∀ f ∈ liftedUnit.func? name,
      f.IsLocal ["squared", "lifted"] liftedUnit := by
    have hfuncs : ∀ f ∈ liftedUnit.funcs, Stmt.WithoutStatics f.body.stmts ∧
        ∀ x ∈ Stmt.exprsInList
          (f.params.foldl (Context.declareParam .global) liftedUnit.fileContext) f.body.items,
          x.2.IsWithin (fun place => place.isLocal) ["squared", "lifted"] x.1 := by
      unfold Stmt.WithoutStatics Expr.IsWithin Expr.Everywhere Expr.WritesTo
      decide +kernel
    intro name _ f hf
    obtain ⟨hstatic, hwrites⟩ := hfuncs f (List.mem_of_find?_eq_some hf)
    exact ⟨hstatic, hwrites⟩
  have hexternal : ∀ name ∈ ["squared", "lifted"], liftedUnit.func? name = none →
      ∀ args, ((fun _ _ => stuck : Calls) name args).Quiet :=
    fun _ _ _ _ => quiet_stuck
  have hresult : ((liftedUnit.eval .implicit (fun _ _ => .stuck) anyStack 20 [] 1
      (oneVariable liftedUnit) (.call "squared" [.id "z" none] none) freeMemory).map Prod.fst) =
        some (.float (25 / 4)) := by
    decide +kernel
  obtain ⟨⟨v, m'⟩, hrun, rfl⟩ := Option.map_eq_some_iff.1 hresult
  obtain ⟨hkeeps, hagain⟩ := SourceUnit.eval_keeps_variables hlocal hexternal (by decide)
    (by decide) .implicit 20 [] 1 (oneVariable liftedUnit) hrun
  refine ⟨m', hrun, hkeeps, ?_⟩
  exact (hagain (fun c hc => if_pos hc) pure).2

/-- `float total; float counted(float x) { total += 1; return x; }
float f(float x) { return counted(x) < 0 ? -counted(x) : counted(x); }` -/
def countedUnit : SourceUnit :=
  ⟨[.decl (.ofScalar "total" .float none),
    .func ⟨.prototype "counted" .float [.ofScalar "x" .float none], ⟨[
      .expr (.assign .add (.id "total" none) (.int 1 none) none) none,
      .ret (some (.id "x" none)) none], none⟩, none⟩,
    .func ⟨.prototype "f" .float [.ofScalar "x" .float none], ⟨[
      .ret (some (.ternary (.binary .lt (.call "counted" [.id "x" none] none) (.int 0 none) none)
        (.unary .neg (.call "counted" [.id "x" none] none) none)
        (.call "counted" [.id "x" none] none) none)) none], none⟩, none⟩], none⟩

/-- A call of a function that counts its calls is found to have no side effects, but it changes
the count; and where the three calls of an absolute value are folded into one, one call is made in
place of two. -/
theorem counted_changes_total :
    (Expr.call "counted" [.int 2 none] none).hasSideEffects = false ∧
      (countedUnit.eval .implicit sampleAbs anyStack 20 [] 0 countedUnit.fileContext
        (.call "counted" [.int 2 none] none) sampleMemory).map withTotal =
          some (.float 2, some (.float (5 / 2))) ∧
      (countedUnit.call .implicit sampleAbs anyStack 20 [] 0 "f" [.scalar (.float 2)]
        sampleMemory).map withTotal = some (.float 2, some (.float (7 / 2))) ∧
      (countedUnit.foldAbs.1.call .implicit sampleAbs anyStack 20 [] 0 "f" [.scalar (.float 2)]
        sampleMemory).map withTotal = some (.float 2, some (.float (5 / 2))) := by
  decide +kernel

end MathKernel
