import MathKernel.Kernel.Emission
import MathKernel.Proofs.Syntax.Fragments

/-!
# Why a normalized function has no code

Emission fails on jumps, labels, casts and, for shaders, on loops other than `for`. A function
whose body has none of these may still be without code, for an unnamed variable or a malformed
literal, but not for one of these reasons.

## Main definitions

* `EmitCause.isUnnormalized` — the reasons that normalization removes

## Main results

* `FuncDef.isUnnormalized_emit` — they do not arise for a normalized body
-/

namespace MathKernel

/-- Whether the cause is a construct that normalization removes. -/
def EmitCause.isUnnormalized : EmitCause → Bool
  | shaderWhile | shaderDoWhile | jump _ | label _ | cast _ => true
  | unnamedParameter | unsizedParameter _ | unnamedLocal | unsizedLocal _ | arrayFromExpression _
  | unnamedLoopVariable | loopArray _ | initList | malformedLiteral _ | stringLiteral => false

/-- The computation fails only on what normalization leaves. -/
def FailsNormalized {α : Type} (x : Except EmitCause α) : Prop :=
  ∀ cause, x = .error cause → cause.isUnnormalized = false

namespace FailsNormalized

variable {α β : Type} {x : Except EmitCause α}

theorem ok (a : α) : FailsNormalized (.ok a) := by
  rintro cause ⟨⟩

theorem error {cause : EmitCause} (h : cause.isUnnormalized = false) :
    FailsNormalized (.error cause : Except EmitCause α) := by
  rintro _ ⟨⟩
  exact h

theorem bind {f : α → Except EmitCause β} (hx : FailsNormalized x)
    (hf : ∀ a, FailsNormalized (f a)) : FailsNormalized (x >>= f) := by
  intro cause h
  cases x with
  | error found => exact hx cause (congrArg _ (Except.error.inj h))
  | ok a => exact hf a cause h

theorem map {f : α → β} (hx : FailsNormalized x) : FailsNormalized (x.map f) := by
  intro cause h
  cases x with
  | error found => exact hx cause (congrArg _ (Except.error.inj h))
  | ok a => cases h

theorem mapM {γ : Type} {f : γ → Except EmitCause α} {items : List γ}
    (h : ∀ a ∈ items, FailsNormalized (f a)) : FailsNormalized (items.mapM f) := by
  induction items with
  | nil => exact ok []
  | cons a rest ih =>
    obtain ⟨ha, hrest⟩ := List.forall_mem_cons.1 h
    rw [List.mapM_cons]
    exact bind ha fun _ => bind (ih hrest) fun _ => ok _

end FailsNormalized

section Emission

variable {F : Fragment} (family : Family)

theorem Literal.failsNormalized_emit (v : Literal) : FailsNormalized (v.emit family) := by
  unfold Literal.emit
  split
  · split
    · exact .ok _
    · exact .error rfl
  · split
    · exact .ok _
    · exact .error rfl
  · exact .ok _
  · exact .error rfl

namespace Expr

mutual

theorem failsNormalized_emit (hcasts : ¬ F.casts) (e : Expr) (h : e.IsIn F) :
    FailsNormalized (e.emit family) := by
  cases e with
  | id name c => exact .ok _
  | literal v c => exact v.failsNormalized_emit family
  | binary op l r c =>
    obtain ⟨hl, hr⟩ := isIn_binary.1 h
    refine .bind (failsNormalized_emit hcasts l hl) fun _ => ?_
    exact .bind (failsNormalized_emit hcasts r hr) fun _ => .ok _
  | unary op e c => exact .bind (failsNormalized_emit hcasts e (isIn_unary.1 h)) fun _ => .ok _
  | assign op t v c =>
    obtain ⟨ht, hv⟩ := isIn_assign.1 h
    refine .bind (failsNormalized_emit hcasts t ht) fun _ => ?_
    exact .bind (failsNormalized_emit hcasts v hv) fun _ => .ok _
  | ternary p t e c =>
    obtain ⟨hp, ht, he⟩ := isIn_ternary.1 h
    refine .bind (failsNormalized_emit hcasts p hp) fun _ => ?_
    refine .bind (failsNormalized_emit hcasts t ht) fun _ => ?_
    exact .bind (failsNormalized_emit hcasts e he) fun _ => .ok _
  | call f args c =>
    exact .bind (failsNormalized_emitList hcasts args (isIn_call.1 h).2) fun _ => .ok _
  | cast type e c => exact absurd (isIn_cast.1 h).1 hcasts
  | index a i c =>
    obtain ⟨ha, hi⟩ := isIn_index.1 h
    refine .bind (failsNormalized_emit hcasts a ha) fun _ => ?_
    exact .bind (failsNormalized_emit hcasts i hi) fun _ => .ok _
  | initList items c => exact .error rfl
  | comma items c =>
    exact .bind (failsNormalized_emitList hcasts items (isIn_comma.1 h)) fun _ => .ok _

theorem failsNormalized_emitList (hcasts : ¬ F.casts) (items : List Expr)
    (h : ∀ e ∈ items, e.IsIn F) : FailsNormalized (emitList family items) := by
  cases items with
  | nil => exact .ok _
  | cons e rest =>
    obtain ⟨he, hrest⟩ := List.forall_mem_cons.1 h
    exact .bind (failsNormalized_emit hcasts e he) fun _ =>
      .bind (failsNormalized_emitList hcasts rest hrest) fun _ => .ok _

end

theorem failsNormalized_emitOption (hcasts : ¬ F.casts) {e : Option Expr}
    (h : ∀ x ∈ e, x.IsIn F) : FailsNormalized (emitOption family e) := by
  cases e with
  | none => exact .ok _
  | some e => exact .map (failsNormalized_emit family hcasts e (h e rfl))

end Expr

namespace Decl

variable (hcasts : ¬ F.casts)

include hcasts

theorem failsNormalized_emitLocal {d : Decl} (h : d.IsIn F) :
    FailsNormalized (d.emitLocal family) := by
  have hinit (e : Expr) (he : e ∈ d.init) : e.IsIn F :=
    h.exprs e (List.mem_append_right _ (Option.mem_toList.2 he))
  unfold emitLocal
  split
  · exact .error rfl
  · split
    · split
      · exact .error rfl
      · split
        · exact .ok _
        · next items c heq =>
          have hitems := Expr.isIn_initList.1 (hinit _ heq)
          exact .bind (.mapM fun e he => Expr.failsNormalized_emit family hcasts e (hitems e he))
            fun _ => .ok _
        · exact .error rfl
    · exact .bind (Expr.failsNormalized_emitOption family hcasts hinit) fun _ => .ok _

theorem failsNormalized_emitLoopVariable {d : Decl} (h : d.IsIn F) :
    FailsNormalized (d.emitLoopVariable family) := by
  have hinit (e : Expr) (he : e ∈ d.init) : e.IsIn F :=
    h.exprs e (List.mem_append_right _ (Option.mem_toList.2 he))
  unfold emitLoopVariable
  split
  · exact .error rfl
  · split
    · exact .error rfl
    · exact .map (Expr.failsNormalized_emitOption family hcasts hinit)

end Decl

theorem ForInit.failsNormalized_emit (hcasts : ¬ F.casts) {init : Option ForInit}
    (h : ∀ i ∈ init, i.IsIn F) : FailsNormalized (ForInit.emit family init) := by
  match init with
  | none => exact .ok _
  | some (.expr e) => exact Expr.failsNormalized_emit family hcasts e (h _ rfl)
  | some (.decls ds) =>
    have hds : ∀ d ∈ ds, d.IsIn F := h _ rfl
    refine .bind (.mapM fun d hd => Decl.failsNormalized_emitLoopVariable family hcasts (hds d hd))
      fun found => ?_
    cases found with
    | nil => exact .ok _
    | cons first rest => exact .ok _

/-- The fragment has none of the constructs without code. -/
structure Fragment.IsNormal (F : Fragment) : Prop where
  gotos : ¬ F.gotos
  labels : ¬ F.labels
  openLoops : ¬ F.openLoops
  casts : ¬ F.casts

namespace Stmt

mutual

theorem failsNormalized_emit (hF : F.IsNormal) (s : Stmt) (h : s.IsIn F) :
    FailsNormalized (s.emit family) := by
  cases s with
  | decl d c => exact .map (Decl.failsNormalized_emitLocal family hF.casts h)
  | block items b c => exact .map (failsNormalized_emitList hF items h)
  | expr e c => exact .bind (Expr.failsNormalized_emit family hF.casts e h) fun _ => .ok _
  | ifThen p t c =>
    exact .bind (Expr.failsNormalized_emit family hF.casts p h.1) fun _ =>
      .bind (failsNormalized_emit hF t h.2) fun _ => .ok _
  | ifElse p t e c =>
    refine .bind (Expr.failsNormalized_emit family hF.casts p h.1) fun _ => ?_
    exact .bind (failsNormalized_emit hF t h.2.1) fun _ =>
      .bind (failsNormalized_emit hF e h.2.2) fun _ => .ok _
  | forLoop init cond next body c =>
    obtain ⟨hinit, hcond, hnext, hbody⟩ := h
    refine .bind (ForInit.failsNormalized_emit family hF.casts hinit) fun _ => ?_
    refine .bind (Expr.failsNormalized_emitOption family hF.casts hcond) fun _ => ?_
    refine .bind (Expr.failsNormalized_emitOption family hF.casts hnext) fun _ => ?_
    exact .bind (failsNormalized_emit hF body hbody) fun _ => .ok _
  | whileLoop p body c | doWhile p body c => exact absurd h.1 hF.openLoops
  | ret value c =>
    cases value with
    | none => exact .ok _
    | some e => exact .bind (Expr.failsNormalized_emit family hF.casts e (h e rfl)) fun _ => .ok _
  | goto l c => exact absurd h hF.gotos
  | label n s c => exact absurd h.1 hF.labels
  | brk | cont | empty => exact .ok _

theorem failsNormalized_emitList (hF : F.IsNormal) (items : List Stmt) (h : AreIn F items) :
    FailsNormalized (emitList family items) := by
  cases items with
  | nil => exact .ok _
  | cons s rest =>
    exact .bind (failsNormalized_emit hF s h.2.1) fun _ =>
      .bind (failsNormalized_emitList hF rest h.2.2) fun _ => .ok _

end

end Stmt

theorem FuncDef.failsNormalized_signature (f : FuncDef) :
    FailsNormalized (f.signature family) := by
  cases family with
  | scalar => exact .ok _
  | shader =>
    refine .bind (.mapM fun p _ => ?_) fun _ => .ok _
    unfold Decl.shaderParam
    split
    · exact .error rfl
    · split
      · split
        · exact .ok _
        · exact .error rfl
      · exact .ok _

/-- A function with a normalized body never lacks code for a construct that normalization
removes. -/
theorem FuncDef.isUnnormalized_emit (hF : F.IsNormal) {f : FuncDef} (h : f.body.IsIn F)
    {error : EmitError} (herror : f.emit family = .error error) :
    error.cause.isUnnormalized = false := by
  have hcode : FailsNormalized (f.code family) :=
    .bind (f.failsNormalized_signature family) fun _ =>
      .bind (Stmt.failsNormalized_emitList family hF f.body.items h) fun _ => .ok _
  unfold FuncDef.emit at herror
  cases hresult : f.code family with
  | ok code => simp [hresult, Except.mapError] at herror
  | error cause =>
    simp only [hresult, Except.mapError, Except.error.injEq] at herror
    rw [← herror]
    exact hcode cause hresult

end Emission

end MathKernel
