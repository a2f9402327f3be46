import MathKernel.Proofs.Normalize.CoercedRuns
import MathKernel.Proofs.Normalize.FoldedConditionals

/-!
# Runs of functions with folded absolute values

Folding absolute values before the conversion changes no run of a function without calls, as long as
no quotient or remainder of integers is taken from a folded value, no array is sized by one, and
what is compared with is zero.

## Main results

* `Expr.prepares_foldNode` — expressions may be folded before they are converted
* `SourceUnit.foldAbs_coerced_run` — runs of functions with folded absolute values
* `foldAbs_changes_quotient` — a quotient of a folded value
-/

namespace MathKernel

open MathKernel.Action Scalar

variable {calls : MathKernel.Calls} {ctx : Context} {quiet : List String}

namespace Expr

/-- Folding prepares the expressions that can be folded. -/
theorem prepares_foldNode (hconv : ctx.Converts)
    (habs : ctx.signature? "abs" = some ⟨.float, .uniform .float⟩)
    (habsolute : calls "abs" = absoluteValue) (hcalls : calls.QuietOn quiet) :
    Prepares calls quiet ctx.functions
      (fun ctx e => e.Everywhere (·.isFoldable ctx.typeEnv)) foldNode where
  quietOn := hcalls
  converts := hconv.of_functions_eq
  rebuild {ctx' e} hfunctions hwell hfold := by
    have hconv' := hconv.of_functions_eq hfunctions
    have habs' : ctx'.signature? "abs" = some ⟨.float, .uniform .float⟩ := by
      rwa [Context.signature?, hfunctions]
    obtain ⟨again, hagain, heq⟩ := coerced_eq ctx'.typeEnv e.folded
    have hfollowed := followsFolded hconv' habs' habsolute hcalls hagain hwell hfold
    refine ⟨isValue_folded hfollowed.value, ?_, fun {t} hvoid ht => ?_⟩
    · change ((e.folded.coerced ctx'.typeEnv).value.eval .explicit calls ctx' >>= _) = _
      rw [heq]
      exact hfollowed.follows.bind_eq fun _ _ => rfl
    · have hcoerced := hfollowed.coerce hconv' (typeIn_ne_void hconv' hwell hvoid) ht
      rw [← heq] at hcoerced
      exact hcoerced
  ids := ids_folded
  initList _ _ := rfl
  literal _ _ := rfl

end Expr

namespace SourceUnit

variable (u : SourceUnit)

/-- Folding an idiom rebuilds the bodies and nothing else. -/
theorem funcs_foldIdiom (operand? : Expr → Option Expr) (callee : String) :
    (u.foldIdiom operand? callee).1.funcs =
      u.funcs.map (FuncDef.rebuild (Expr.idiomNode operand? callee)) := by
  have hbodies (items : List Item) :
      (SourceUnit.mk ((SourceUnit.mk items none).foldIdiom operand? callee).1.items none).funcs =
        (SourceUnit.mk items none).funcs.map
          (FuncDef.rebuild (Expr.idiomNode operand? callee)) := by
    induction items with
    | nil => rfl
    | cons item rest ih =>
      cases item with
      | decl d => exact ih
      | func f =>
        refine congrArg₂ List.cons (congrArg (fun body => { f with body }) ?_) ih
        exact Block.value_bottomUpM_replace _ f.body
  exact hbodies u.items

theorem context_foldIdiom (operand? : Expr → Option Expr) (callee : String) :
    (u.foldIdiom operand? callee).1.context = u.context := by
  have hdecls : (u.foldIdiom operand? callee).1.items.map Item.toDecl =
      u.items.map Item.toDecl := map_toDecl_mapBodies _ u.items
  simp only [context, TypeEnv.ofUnit, hdecls]

theorem funcs_foldAbs : u.foldAbs.1.funcs = u.funcs.map (FuncDef.rebuild Expr.foldNode) :=
  u.funcs_foldIdiom Expr.absOperand? "abs"

theorem context_foldAbs : u.foldAbs.1.context = u.context :=
  u.context_foldIdiom Expr.absOperand? "abs"

end SourceUnit

/-- Every well-typed function whose expressions can be folded runs the same, by the explicit rules,
in the converted form of the unit and in that of the unit with absolute values folded: for any
number of steps and from any memory it returns the same value and leaves the same memory, or both
get stuck. -/
theorem SourceUnit.foldAbs_coerced_run (u : SourceUnit) (hnames : u.keepsConversions)
    (habs : u.avoids ["abs"]) (habsolute : calls "abs" = absoluteValue) (arrays : String → Place)
    {i : Nat} {f : FuncDef} (hf : u.funcs[i]? = some f) (h : f.WellTyped [] u arrays)
    (hfold : ∀ x ∈ f.exprsIn u arrays, x.2.Everywhere (·.isFoldable x.1.typeEnv))
    (hsizes : ∀ d ∈ f.body.decls, ∀ e ∈ d.size?, e.folded = e) :
    ∃ f₁ f₂, u.coerced.1.funcs[i]? = some f₁ ∧ u.foldAbs.1.coerced.1.funcs[i]? = some f₂ ∧
      f₁.decl = f.decl ∧ f₂.decl = f.decl ∧ ∀ fuel memory,
        f₂.run .explicit calls u.foldAbs.1.coerced.1 arrays fuel memory =
          f₁.run .explicit calls u.coerced.1 arrays fuel memory := by
  have hquiet : calls.QuietOn [] := fun f hf => by cases hf
  have hconv := converts_context hnames
  have hsignature : u.context.signature? "abs" = some ⟨.float, .uniform .float⟩ :=
    (signature?_context habs (by simp)).trans (by decide)
  have hplain := FuncDef.bodyCode_coerced rfl (prepares_id hconv hquiet) arrays h
    (fun _ _ => trivial) fun _ _ _ _ e _ => e.rebuild_id
  rw [FuncDef.rebuild_id] at hplain
  have hfolded := FuncDef.bodyCode_coerced u.context_foldAbs
    (Expr.prepares_foldNode hconv hsignature habsolute hquiet) arrays h hfold
    fun s hs d hd => hsizes d (List.mem_flatMap.2 ⟨s, hs, hd⟩)
  refine ⟨f.coerced (TypeEnv.ofUnit u),
    (f.rebuild Expr.foldNode).coerced (TypeEnv.ofUnit u.foldAbs.1), ?_, ?_, rfl, rfl,
    fun fuel memory => ?_⟩
  · rw [funcs_coerced, List.getElem?_map, hf]
    rfl
  · rw [funcs_coerced, funcs_foldAbs, List.getElem?_map, List.getElem?_map, hf]
    rfl
  · rw [FuncDef.run, FuncDef.run, hfolded, hplain]

/-- Only the absolute value can be called. -/
def sampleAbs : Calls
  | "abs", args => absoluteValue args
  | _, _ => .stuck

/-- `x < 0 ? -x : x` -/
def magnitude (name : String) : Expr :=
  .ternary (.binary .lt (.id name none) (.int 0 none) none) (.unary .neg (.id name none) none)
    (.id name none) none

/-- `int f(int n, float x) { float y = x < 0 ? -x : x; int m = n < 0 ? -n : n;
return y < m ? m + 1 : n / 2; }` -/
def magnitudes : FuncDef where
  decl := .prototype "f" .int [.ofScalar "n" .int none, .ofScalar "x" .float none]
  body := ⟨[
    .decl (.ofScalar "y" .float (some (magnitude "x"))) none,
    .decl (.ofScalar "m" .int (some (magnitude "n"))) none,
    .ret (some (.ternary (.binary .lt (.id "y" none) (.id "m" none) none)
      (.binary .add (magnitude "n") (.int 1 none) none)
      (.binary .div (.id "n" none) (.int 2 none) none) none)) none], none⟩
  coord := none

def magnitudesUnit : SourceUnit := ⟨[.func magnitudes], none⟩

theorem foldAbs_coerced_run_magnitudes :
    magnitudesUnit.foldAbs.2.isNoop = false ∧
      ∃ f', magnitudesUnit.foldAbs.1.coerced.1.funcs[0]? = some f' ∧
        (f'.run .explicit sampleAbs magnitudesUnit.foldAbs.1.coerced.1 .global 60
          sampleMemory).map Prod.fst = some (some (.int 4)) := by
  have hwell : magnitudes.WellTyped [] magnitudesUnit .global := by
    unfold FuncDef.WellTyped
    decide +kernel
  have hfold : ∀ x ∈ magnitudes.exprsIn magnitudesUnit .global,
      x.2.Everywhere (·.isFoldable x.1.typeEnv) := by
    unfold Expr.Everywhere
    decide +kernel
  have hsizes : ∀ d ∈ magnitudes.body.decls, ∀ e ∈ d.size?, e.folded = e := by
    simp [magnitudes, Block.decls, Block.stmts, Stmt.substmtsList, Stmt.substmts, Stmt.ownDecls,
      Decl.size?, Decl.ofScalar]
  have habsolute : sampleAbs "abs" = absoluteValue := rfl
  obtain ⟨f₁, f₂, hf₁, hf₂, -, -, hrun⟩ := SourceUnit.foldAbs_coerced_run magnitudesUnit
    (by decide) (by decide) habsolute .global (i := 0) rfl hwell hfold hsizes
  rw [SourceUnit.funcs_coerced] at hf₁
  obtain rfl : magnitudes.coerced (TypeEnv.ofUnit magnitudesUnit) = f₁ := Option.some.inj hf₁
  refine ⟨by decide +kernel, f₂, hf₂, ?_⟩
  rw [hrun]
  decide +kernel

/-- `int f(int n) { return (n < 0 ? -n : n) / 2 * 2; }` -/
def halvedMagnitude : SourceUnit :=
  ⟨[intFunction [.ofScalar "n" .int none] [
    .ret (some (.binary .mul (.binary .div (magnitude "n") (.int 2 none) none) (.int 2 none)
      none)) none]], none⟩

/-- What the first function of a unit returns by the explicit rules for the integer three. -/
def SourceUnit.sampleResult (u : SourceUnit) : Option (Option Scalar) :=
  u.funcs.head?.bind fun f => (f.run .explicit sampleAbs u .global 60 sampleMemory).map Prod.fst

/-- The folded absolute value of an integer is a floating number, and so is its half. -/
theorem foldAbs_changes_quotient :
    halvedMagnitude.keepsConversions ∧ halvedMagnitude.avoids ["abs"] ∧
      (∀ f ∈ halvedMagnitude.funcs, f.WellTyped [] halvedMagnitude .global) ∧
      halvedMagnitude.coerced.1.sampleResult = some (some (.int 2)) ∧
      halvedMagnitude.foldAbs.1.coerced.1.sampleResult = some (some (.int 3)) := by
  unfold FuncDef.WellTyped
  decide +kernel

end MathKernel
