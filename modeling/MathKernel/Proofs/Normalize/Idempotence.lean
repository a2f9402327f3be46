import MathKernel.Proofs.Normalize.CoercionFixed
import MathKernel.Proofs.Normalize.Heads
import MathKernel.Proofs.Normalize.Recursion
import MathKernel.Proofs.Normalize.Spelling

/-!
# Every pass is idempotent

What a pass gives is in the fragment that it leads to, and a unit of that fragment is left alone by
the pass. Three passes need more than fragments say: the folded idioms, the calls of unrolled
functions and the written conversions.

## Main results

* `Pass.apply_idempotent` — a pass that succeeds finds nothing to do in its result
-/

namespace MathKernel

/-! ### Units that a pass leaves alone -/

/-- The pass succeeds on the unit, changes nothing and counts nothing. -/
def Pass.Leaves (pass : Pass) (u : SourceUnit) : Prop :=
  ∀ context, pass.apply context u = .ok (u, .zero, context)

namespace SourceUnit.IsIn

variable {F : Fragment} {u : SourceUnit}

theorem leaves_spelling (h : u.IsIn F) (hF : F.IsSpelled) : Pass.spelling.Leaves u := by
  intro context
  simp only [Pass.apply, respell_eq_self hF h]

/-- The error routine is neither an item nor declared or called in a body. -/
theorem leaves_errorCalls (h : u.IsIn F) (hcallee : ∀ name, F.callee name → name ≠ errorRoutine)
    (hheads : ∀ x ∈ u.heads, x.Avoids [errorRoutine])
    (hdecls : ∀ f ∈ u.funcs, ∀ d ∈ f.body.itemDecls, d.name ≠ some errorRoutine) :
    Pass.errorCalls.Leaves u := by
  intro context
  have hself : u.removeErrorCalls = (u, .zero) := by
    refine SourceUnit.removeErrorCalls_eq_self (fun item hitem hname => ?_) fun f hf => ?_
    · have havoids := forall_heads.1 hheads item hitem
      exact havoids errorRoutine (item.name_head.trans hname) List.mem_cons_self
    · exact Block.removeErrorCalls_eq_self (h _ hf).2 hcallee (hdecls f (mem_funcs.2 hf))
  simp only [Pass.apply, hself]

theorem leaves_mathNames (h : u.IsIn F) (hcallee : ∀ name, F.callee name → IsGenericName name)
    (hheads : ∀ x ∈ u.heads, x.IsGeneric)
    (hnodup : (u.heads.filterMap ItemHead.prototype?).Nodup) : Pass.mathNames.Leaves u := by
  intro context
  have hself : u.genericMathNames = (u, .zero) := by
    refine genericMathNames_eq_self (fun item hitem => ?_) ?_ fun f hf => ?_
    · exact Item.toGenericMath_eq_self (forall_heads.1 hheads item hitem)
    · rw [filterMap_genericPrototype?]
      exact hnodup
    · exact Block.toGenericCalls_eq_self (h _ hf).2 hcallee
  simp only [Pass.apply, hself]

theorem leaves_castCalls (h : u.IsIn F) (hcasts : ¬ F.casts) : Pass.castCalls.Leaves u := by
  intro context
  simp only [Pass.apply, castsToCalls_eq_self hcasts h]

theorem leaves_jumps (h : u.IsIn F) (hgotos : ¬ F.gotos) (hlabels : ¬ F.labels) :
    Pass.jumps.Leaves u := by
  intro context
  simp only [Pass.apply, eliminateJumps_eq_self hgotos hlabels h]
  rfl

theorem leaves_loops (h : u.IsIn F) (hloops : ¬ F.openLoops) : Pass.loops.Leaves u := by
  intro context
  simp only [Pass.apply, boundLoops_eq_self hloops h]
  rfl

theorem leaves_coefficientArrays (h : u.IsIn F)
    (hcallee : ∀ name, F.callee name → name ∉ arrayHelpers)
    (hheads : ∀ x ∈ u.heads, x.Avoids arrayHelpers) : Pass.coefficientArrays.Leaves u := by
  intro context
  have hself := specializeHelpers_eq_self hcallee h fun item hitem name hname =>
    forall_heads.1 hheads item hitem name (item.name_head.trans hname)
  simp only [Pass.apply, hself]
  rfl

end SourceUnit.IsIn

namespace Pass

variable {u : SourceUnit}

theorem leaves_staticStorage (hheads : ∀ x ∈ u.heads, x.IsPromoted)
    (hdecls : ∀ f ∈ u.funcs, ∀ d ∈ f.body.itemDecls, d.isStaticVariable = false) :
    staticStorage.Leaves u := by
  intro context
  have hself := SourceUnit.promoteStatics_eq_self
    (fun item hitem => Item.isPromoted_of_head (SourceUnit.forall_heads.1 hheads item hitem))
    (fun f hf => hdecls f (SourceUnit.mem_funcs.2 hf)) context.baseName
  simp only [apply, hself]
  rfl

theorem leaves_absIdiom (h : ∀ f ∈ u.funcs, ∀ e ∈ f.body.exprs, e.absOperand? = none) :
    absIdiom.Leaves u := by
  intro context
  have hself : u.foldAbs = (u, .zero) :=
    SourceUnit.foldIdiom_eq_self (fun f hf => h f (SourceUnit.mem_funcs.2 hf)) "abs"
  simp only [apply, hself]

theorem leaves_oddIdiom (h : ∀ f ∈ u.funcs, ∀ e ∈ f.body.exprs, e.oddOperand? = none) :
    oddIdiom.Leaves u := by
  intro context
  have hself : u.foldIsOdd = (u, .zero) :=
    SourceUnit.foldIdiom_eq_self (fun f hf => h f (SourceUnit.mem_funcs.2 hf)) "is_odd"
  simp only [apply, hself]

theorem leaves_recursion (h : (CallGraph.ofUnit u).cycles = []) : recursion.Leaves u := by
  intro context
  simp only [apply, SourceUnit.unrollRecursion_eq_self h]

theorem leaves_coercions (h : u.keepsConversions) : coercions.Leaves u.coerced.1 := by
  intro context
  simp only [apply, SourceUnit.coerced_coerced h]

end Pass

/-! ### Folded idioms -/

/-- No idiom is left where its operand has none and its call is none. -/
theorem SourceUnit.foldIdiom_none {operand? : Expr → Option Expr} {callee : String}
    (hoperand : ∀ e x, operand? e = some x → ∀ q : Expr → Prop,
      (∀ part ∈ e.parts, part.Everywhere q) → x.Everywhere q)
    (hcall : ∀ args c, operand? (.call callee args c) = none) (u : SourceUnit) {f : FuncDef}
    (hf : .func f ∈ (u.foldIdiom operand? callee).1.items) :
    ∀ e ∈ f.body.exprs, operand? e = none := by
  obtain ⟨g, -, rfl⟩ := mem_mapBodies hf
  refine Block.bottomUpM_ensures (m := Counted) (fun e => ?_) g.body
  refine Expr.bottomUpM_ensures (m := Counted) (p := fun _ => True) (fun _ _ _ => trivial)
    (fun e _ hparts => ?_) fun _ _ => trivial
  change (Counted.replace _ e).value.Everywhere _
  unfold Counted.replace
  cases h : operand? e with
  | none =>
    rw [Expr.foldIdiom?, h]
    exact Expr.everywhere_iff.2 ⟨h, hparts⟩
  | some x =>
    rw [Expr.foldIdiom?, h]
    exact Expr.everywhere_call.2 ⟨hcall _ _, by simpa using hoperand e x h _ hparts⟩

theorem Expr.everywhere_absOperand? {e x : Expr} (h : e.absOperand? = some x) (q : Expr → Prop)
    (hparts : ∀ part ∈ e.parts, part.Everywhere q) : x.Everywhere q := by
  cases e with
  | ternary p t e c =>
    cases p with
    | binary op y zero c' =>
      simp only [Expr.absOperand?, Option.ite_none_left_eq_some, Option.ite_none_right_eq_some,
        Option.some.injEq] at h
      obtain ⟨-, -, rfl⟩ := h
      have hcond := hparts (.binary op y zero c') List.mem_cons_self
      exact (Expr.everywhere_binary.1 hcond).2.1
    | _ => cases h
  | _ => cases h

theorem Expr.everywhere_oddOperand? {e x : Expr} (h : e.oddOperand? = some x) (q : Expr → Prop)
    (hparts : ∀ part ∈ e.parts, part.Everywhere q) : x.Everywhere q := by
  cases e with
  | binary op l r c =>
    cases op with
    | bitAnd =>
      simp only [Expr.oddOperand?] at h
      split at h
      · cases h
        exact hparts _ List.mem_cons_self
      · split at h
        · cases h
          exact hparts _ (List.mem_cons_of_mem _ List.mem_cons_self)
        · cases h
    | _ => cases h
  | _ => cases h

theorem SourceUnit.foldAbs_none (u : SourceUnit) {f : FuncDef} (hf : .func f ∈ u.foldAbs.1.items) :
    ∀ e ∈ f.body.exprs, e.absOperand? = none :=
  foldIdiom_none (fun _ _ h => Expr.everywhere_absOperand? h) (fun _ _ => rfl) u hf

theorem SourceUnit.foldIsOdd_none (u : SourceUnit) {f : FuncDef}
    (hf : .func f ∈ u.foldIsOdd.1.items) : ∀ e ∈ f.body.exprs, e.oddOperand? = none :=
  foldIdiom_none (fun _ _ h => Expr.everywhere_oddOperand? h) (fun _ _ => rfl) u hf

/-! ### Passes on their own results -/

theorem Fragment.isSpelled_spelled : Fragment.spelled.IsSpelled :=
  ⟨fun _ h => h, fun h => h⟩

namespace Pass

/-- The result of a pass is one that it leaves alone; for two passes this takes more. -/
theorem apply_leaves_of_ne {pass : Pass} (hpass : pass ≠ .recursion ∧ pass ≠ .coercions)
    (context : PassContext) (u : SourceUnit) :
    Ensures (pass.apply context u) fun result => pass.Leaves result.1 := by
  have hin (hpass : pass ≠ .spelling ∧ pass ≠ .mathNames) :
      Ensures (pass.apply context u) fun result => result.1.IsIn (Fragment.whole.after pass) :=
    apply_isIn hpass Fragment.permits_whole context u.isIn_whole
  cases pass with
  | spelling => exact ensures_pure (u.respell_isIn.leaves_spelling Fragment.isSpelled_spelled)
  | errorCalls =>
    have hv := hin (by decide) _ rfl
    refine ensures_pure (hv.leaves_errorCalls (fun _ h => h.2) u.avoids_removeErrorCalls ?_)
    exact fun f hf d hd => ((hv _ (SourceUnit.mem_funcs.1 hf)).2.itemDecls hd).2
  | mathNames =>
    have hv := SourceUnit.genericMathNames_isIn Fragment.permits_whole u.isIn_whole
      fun f _ e _ => e.isIn_whole
    exact ensures_pure (hv.leaves_mathNames (fun _ h => h.2) u.isGeneric_genericMathNames
      u.nodup_prototypes_genericMathNames)
  | staticStorage =>
    have hheads : Ensures (staticStorage.apply context u) fun result =>
        ∀ x ∈ result.1.heads, x.IsPromoted :=
      ensures_map (u.isPromoted_promoteStatics context.baseName)
    intro result hresult
    have hv := hin (by decide) result hresult
    refine leaves_staticStorage (hheads result hresult) fun f hf d hd => ?_
    exact ((hv _ (SourceUnit.mem_funcs.1 hf)).2.itemDecls hd).2
  | castCalls => exact fun result hresult => (hin (by decide) result hresult).leaves_castCalls id
  | absIdiom =>
    exact ensures_pure (leaves_absIdiom fun f hf => u.foldAbs_none (SourceUnit.mem_funcs.1 hf))
  | oddIdiom =>
    exact ensures_pure (leaves_oddIdiom fun f hf => u.foldIsOdd_none (SourceUnit.mem_funcs.1 hf))
  | jumps => exact fun result hresult => (hin (by decide) result hresult).leaves_jumps id id
  | loops => exact fun result hresult => (hin (by decide) result hresult).leaves_loops id
  | recursion => exact absurd rfl hpass.1
  | coefficientArrays =>
    have hheads : Ensures (coefficientArrays.apply context u) fun result =>
        ∀ x ∈ result.1.heads, x.Avoids arrayHelpers :=
      ensures_map u.avoids_specializeHelpers
    intro result hresult
    have hv := hin (by decide) result hresult
    exact hv.leaves_coefficientArrays (fun _ h => h.2) (hheads result hresult)
  | coercions => exact absurd rfl hpass.2

/-- The result of a pass is one that it leaves alone. -/
theorem apply_leaves (pass : Pass) (context : PassContext) {u : SourceUnit}
    (hnodup : (u.funcs.map FuncDef.name).Nodup) (hknown : u.CallsKnown)
    (hconversions : u.keepsConversions) :
    Ensures (pass.apply context u) fun result => pass.Leaves result.1 := by
  by_cases hrecursion : pass = .recursion
  · subst hrecursion
    exact ensures_pure (leaves_recursion (u.cycles_unrollRecursion hnodup hknown))
  · by_cases hcoercions : pass = .coercions
    · subst hcoercions
      exact ensures_pure (leaves_coercions hconversions)
    · exact apply_leaves_of_ne ⟨hrecursion, hcoercions⟩ context u

/-- A pass that succeeds on a unit finds nothing to do in its result, in whatever context. Names
of functions are unique, so that unrolling sees all calls of a function, and known, so that none
is that of a copy; and conversions keep their meaning, so that written ones are found. -/
theorem apply_idempotent {pass : Pass} {context context' : PassContext} {u v : SourceUnit}
    {tally : Tally} (hnodup : (u.funcs.map FuncDef.name).Nodup) (hknown : u.CallsKnown)
    (hconversions : u.keepsConversions) (h : pass.apply context u = .ok (v, tally, context'))
    (again : PassContext) :
    ∃ tally', pass.apply again v = .ok (v, tally', again) ∧ tally'.isNoop = true :=
  ⟨.zero, apply_leaves pass context hnodup hknown hconversions _ h again, rfl⟩

/-- A function that calls itself and another, which calls it back. -/
def entangled : SourceUnit :=
  let x := Expr.id "x" none
  let f : FuncDef :=
    { decl := .prototype "f" .float [.ofScalar "x" .float none]
      body := ⟨[.ret (some (.call "f" [.call "g" [x] none] none)) none], none⟩
      coord := none }
  let g : FuncDef :=
    { decl := .prototype "g" .float [.ofScalar "x" .float none]
      body := ⟨[.ret (some (.call "sin" [.call "f" [x] none] none)) none], none⟩
      coord := none }
  ⟨[.func f, .func g], none⟩

theorem apply_idempotent_entangled :
    (entangled.funcs.map FuncDef.name).Nodup ∧ entangled.CallsKnown ∧
      entangled.keepsConversions ∧ ∃ v tally,
        recursion.apply (.new "unit" 0) entangled = .ok (v, tally, .new "unit" 0) ∧
        tally.isNoop = false ∧ ∃ tally',
          recursion.apply (.new "unit" 0) v = .ok (v, tally', .new "unit" 0) ∧
          tally'.isNoop = true := by
  have hnodup : (entangled.funcs.map FuncDef.name).Nodup := by decide
  have hknown : entangled.CallsKnown := by decide +kernel
  have hconversions : entangled.keepsConversions := by decide
  have hrun : recursion.apply (.new "unit" 0) entangled =
      .ok (entangled.unrollRecursion.1, entangled.unrollRecursion.2, .new "unit" 0) := rfl
  exact ⟨hnodup, hknown, hconversions, _, _, hrun, by decide +kernel,
    apply_idempotent hnodup hknown hconversions hrun _⟩

end Pass

end MathKernel
