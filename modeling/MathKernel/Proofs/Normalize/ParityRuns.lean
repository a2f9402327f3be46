import MathKernel.Proofs.Normalize.FoldedRuns
import MathKernel.Proofs.Normalize.ParityBodies

/-!
# Runs of functions with folded tests of the lowest bit

Where true and false are identified with one and zero, folding tests of the lowest bit before the
conversion changes no run of a function in which the types of names are the same to an initializer
and to what follows its declaration, functions of the file are not declared again with other types,
and the array stands first in every subscripted expression.

## Main results

* `SourceUnit.foldIsOdd_coerced_run` — runs of functions with folded tests
* `foldIsOdd_changes_run` — functions outside the conditions
-/

namespace MathKernel

variable {calls : MathKernel.Calls}

namespace SourceUnit

variable (u : SourceUnit)

theorem funcs_foldIsOdd : u.foldIsOdd.1.funcs = u.funcs.map (FuncDef.rebuild Expr.oddNode) :=
  u.funcs_foldIdiom Expr.oddOperand? "is_odd"

theorem context_foldIsOdd : u.foldIsOdd.1.context = u.context :=
  u.context_foldIdiom Expr.oddOperand? "is_odd"

end SourceUnit

/-- The converted body of a function has the same code when its tests are folded. -/
theorem FuncDef.bodyCode_folded {u : SourceUnit} (hconv : u.context.Converts)
    (hodd : KnowsParity calls u.context) (arrays : String → Place) {f : FuncDef}
    (hnames : ∀ x ∈ f.declsIn u arrays, x.2.keepsNames (TypeEnv.ofUnit u) x.1)
    (hfirst : ∀ x ∈ f.exprsIn u arrays, x.2.Everywhere (·.arrayFirst x.1)) :
    ((f.rebuild Expr.oddNode).coerced (TypeEnv.ofUnit u.foldIsOdd.1)).bodyCode .identified calls
        u.foldIsOdd.1.coerced.1 arrays =
      (f.coerced (TypeEnv.ofUnit u)).bodyCode .identified calls u.coerced.1 arrays := by
  obtain ⟨htypeEnv, hfunctions⟩ := Context.typeEnv_declareParams arrays f.params u.context
  have henv : (f.context u arrays).typeEnv = f.bodyEnv (TypeEnv.ofUnit u) := by
    rw [← SourceUnit.typeEnv_context]
    exact htypeEnv
  have hfile : (f.context u arrays).typeEnv.functions = (TypeEnv.ofUnit u).functions := by
    rw [← SourceUnit.typeEnv_context]
    exact hfunctions
  have hcode := Stmt.codeList_folded f.returnType f.body.items (f.context u arrays) _
    (.typeEnv (hconv.of_functions_eq hfunctions) (hodd.of_functions_eq hfunctions)) hfile hnames
    hfirst
  have hbody : (f.rebuild Expr.oddNode).body.items = f.body.items.map (Stmt.rebuild Expr.oddNode) :=
    Stmt.mapExprsListM_rebuild Expr.oddNode f.body.items
  have hcontext : ((f.rebuild Expr.oddNode).coerced (TypeEnv.ofUnit u.foldIsOdd.1)).context
      u.foldIsOdd.1.coerced.1 arrays = f.context u arrays := by
    rw [context, SourceUnit.context_coerced, SourceUnit.context_foldIsOdd]
    rfl
  have hcontext' : (f.coerced (TypeEnv.ofUnit u)).context u.coerced.1 arrays =
      f.context u arrays := by
    rw [context, SourceUnit.context_coerced]
    rfl
  have hunit : TypeEnv.ofUnit u.foldIsOdd.1 = TypeEnv.ofUnit u := by
    rw [← SourceUnit.typeEnv_context, SourceUnit.context_foldIsOdd, SourceUnit.typeEnv_context]
  rw [henv, ← hbody] at hcode
  rw [bodyCode, bodyCode, hcontext, hcontext', hunit]
  exact congrArg Code.block hcode

/-- Every function runs the same in the converted form of the unit and in that of the unit with
tests of the lowest bit folded, where true and false are one and zero: for any number of steps and
from any memory it returns the same value and leaves the same memory, or both get stuck. -/
theorem SourceUnit.foldIsOdd_coerced_run (u : SourceUnit) (hnames : u.keepsConversions)
    (hodd : u.avoids ["is_odd"]) (hparity : calls "is_odd" = parity) (arrays : String → Place)
    {i : Nat} {f : FuncDef} (hf : u.funcs[i]? = some f)
    (hdecls : ∀ x ∈ f.declsIn u arrays, x.2.keepsNames (TypeEnv.ofUnit u) x.1)
    (hfirst : ∀ x ∈ f.exprsIn u arrays, x.2.Everywhere (·.arrayFirst x.1)) :
    ∃ f₁ f₂, u.coerced.1.funcs[i]? = some f₁ ∧ u.foldIsOdd.1.coerced.1.funcs[i]? = some f₂ ∧
      f₁.decl = f.decl ∧ f₂.decl = f.decl ∧ ∀ fuel memory,
        f₂.run .identified calls u.foldIsOdd.1.coerced.1 arrays fuel memory =
          f₁.run .identified calls u.coerced.1 arrays fuel memory := by
  have hsignature : u.context.signature? "is_odd" = some ⟨.bool, .fixed [some .int]⟩ :=
    (signature?_context hodd (by simp)).trans (by decide)
  have hcode := FuncDef.bodyCode_folded (converts_context hnames) ⟨hsignature, hparity⟩ arrays
    hdecls hfirst
  refine ⟨f.coerced (TypeEnv.ofUnit u),
    (f.rebuild Expr.oddNode).coerced (TypeEnv.ofUnit u.foldIsOdd.1), ?_, ?_, rfl, rfl,
    fun fuel memory => ?_⟩
  · rw [funcs_coerced, List.getElem?_map, hf]
    rfl
  · rw [funcs_coerced, funcs_foldIsOdd, List.getElem?_map, List.getElem?_map, hf]
    rfl
  · rw [FuncDef.run, FuncDef.run, hcode]

/-- The lowest bit can be tested, another function counts up, and a third one gives a floating
number. -/
def sampleParity : Calls
  | "is_odd", args => parity args
  | "g", [.scalar (.int n)] => pure (.int (n + 1))
  | "h", [.scalar (.int n)] => pure (.float n)
  | _, _ => .stuck

/-- `e & 1` -/
def lowestBit (e : Expr) : Expr :=
  .binary .bitAnd e (.int 1 none) none

/-- `int f(int n, int a[]) { float h(int n); int i = 0, odd = 0; while (i < n) { odd += i & 1;
a[i & 1] += 1 & n; ++i; } return (n & 1) & 1 ? h(a[1]) - (n & 1) / 2 : -odd; }` -/
def oddCounts : FuncDef where
  decl := .prototype "f" .int [.ofScalar "n" .int none, .ofArray "a" .int none none]
  body := ⟨[
    .decl (.prototype "h" .float [.ofScalar "n" .int none]) none,
    .decl (.ofScalar "i" .int (some (.int 0 none))) none,
    .decl (.ofScalar "odd" .int (some (.int 0 none))) none,
    .whileLoop (.binary .lt (.id "i" none) (.id "n" none) none)
      (.block [
        .expr (.assign .add (.id "odd" none) (lowestBit (.id "i" none)) none) none,
        .expr (.assign .add (.index (.id "a" none) (lowestBit (.id "i" none)) none)
          (.binary .bitAnd (.int 1 none) (.id "n" none) none) none) none,
        .expr (.unary .preInc (.id "i" none) none) none] none none) none,
    .ret (some (.ternary (lowestBit (lowestBit (.id "n" none)))
      (.binary .sub (.call "h" [.index (.id "a" none) (.int 1 none) none] none)
        (.binary .div (lowestBit (.id "n" none)) (.int 2 none) none) none)
      (.unary .neg (.id "odd" none) none) none)) none], none⟩
  coord := none

def oddCountsUnit : SourceUnit := ⟨[.func oddCounts], none⟩

theorem foldIsOdd_coerced_run_oddCounts :
    oddCountsUnit.foldIsOdd.2.isNoop = false ∧
      ∃ f', oddCountsUnit.foldIsOdd.1.coerced.1.funcs[0]? = some f' ∧
        (f'.run .identified sampleParity oddCountsUnit.foldIsOdd.1.coerced.1 .global 60
          sampleMemory).map Prod.fst = some (some (.int 4)) := by
  have hdecls : ∀ x ∈ oddCounts.declsIn oddCountsUnit .global,
      x.2.keepsNames (TypeEnv.ofUnit oddCountsUnit) x.1 := by
    decide +kernel
  have hfirst : ∀ x ∈ oddCounts.exprsIn oddCountsUnit .global,
      x.2.Everywhere (·.arrayFirst x.1) := by
    unfold Expr.Everywhere
    decide +kernel
  have hparity : sampleParity "is_odd" = parity := rfl
  obtain ⟨f₁, f₂, hf₁, hf₂, -, -, hrun⟩ := SourceUnit.foldIsOdd_coerced_run oddCountsUnit
    (by decide) (by decide) hparity .global (i := 0) rfl hdecls hfirst
  rw [SourceUnit.funcs_coerced] at hf₁
  obtain rfl : oddCounts.coerced (TypeEnv.ofUnit oddCountsUnit) = f₁ := Option.some.inj hf₁
  refine ⟨by decide +kernel, f₂, hf₂, ?_⟩
  rw [hrun]
  decide +kernel

/-! ### Bodies outside the conditions

In each of these bodies a test gives its type to something whose values are not truth values: to an
element, as the subscript stands first, to a variable whose name had another type before, or to a
call of a function that is declared again. When the test is folded, a number that is stored there is
made a truth value, or one that is read there is not. -/

/-- `x == 0 ? x & 1 : e` -/
def lowestBitOr (e : Expr) : Expr :=
  .ternary (.binary .eq (.id "x" none) (.int 0 none) none) (lowestBit (.id "x" none)) e none

/-- `int f(int x) { int a[2]; (x & 1)[a] = 5; return a[1]; }` -/
def swappedLowestBit : SourceUnit :=
  ⟨[intFunction [.ofScalar "x" .int none] [
    .decl (.ofArray "a" .int (some 2) none) none,
    .expr (.assign .assign (.index (lowestBit (.id "x" none)) (.id "a" none) none) (.int 5 none)
      none) none,
    .ret (some (.index (.id "a" none) (.int 1 none) none)) none]], none⟩

/-- `int f(int x, bool b) { { int b = (b = 1, b += 1, b = x == 0 ? x & 1 : b); return b; } }` -/
def selfInitializedBit : SourceUnit :=
  ⟨[intFunction [.ofScalar "x" .int none, .ofScalar "b" .bool none] [.block [
    .decl (.ofScalar "b" .int (some (.comma [
      .assign .assign (.id "b" none) (.int 1 none) none,
      .assign .add (.id "b" none) (.int 1 none) none,
      .assign .assign (.id "b" none) (lowestBitOr (.id "b" none)) none] none))) none,
    .ret (some (.id "b" none)) none] none none]], none⟩

/-- `bool g(bool b); int f(int x) { int g(int n); return g(x == 0 ? x & 1 : g(2)); }` -/
def redeclaredBit : SourceUnit :=
  ⟨[.decl (.prototype "g" .bool [.ofScalar "b" .bool none]),
    intFunction [.ofScalar "x" .int none] [
      .decl (.prototype "g" .int [.ofScalar "n" .int none]) none,
      .ret (some (.call "g" [lowestBitOr (.call "g" [.int 2 none] none)] none)) none]], none⟩

/-- What the first function of a unit returns where true and false are one and zero. -/
def SourceUnit.parityResult (u : SourceUnit) : Option (Option Scalar) :=
  u.funcs.head?.bind fun f =>
    (f.run .identified sampleParity u .global 60 sampleMemory).map Prod.fst

/-- A run of the converted unit returns an integer, and another one when tests are folded. -/
def SourceUnit.ChangesRun (u : SourceUnit) (plain folded : Int) : Prop :=
  u.keepsConversions ∧ u.avoids ["is_odd"] ∧
    u.coerced.1.parityResult = some (some (.int plain)) ∧
    u.foldIsOdd.1.coerced.1.parityResult = some (some (.int folded))

instance (u : SourceUnit) (plain folded : Int) : Decidable (u.ChangesRun plain folded) :=
  inferInstanceAs (Decidable (_ ∧ _ ∧ _ ∧ _))

/-- Folding changes what is returned. -/
theorem foldIsOdd_changes_run :
    swappedLowestBit.ChangesRun 5 1 ∧ selfInitializedBit.ChangesRun 1 2 ∧
      redeclaredBit.ChangesRun 2 3 := by
  decide +kernel

end MathKernel
