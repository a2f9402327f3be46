import MathKernel.Proofs.Kernel.Emission
import MathKernel.Proofs.Normalize.CallFragments
import MathKernel.Proofs.Normalize.ControlFragments

/-!
# The normal form of a unit

After the passes in their standard order no body has a jump, a label, a loop other than `for` or a
cast, nor a call of the error routine, of a math function under another name than its generic one,
or of a general array helper. What one pass removes no later pass brings back: each leads from a
fragment into the same fragment without what it removes.

The positions are those that walks reach. Parameter lists are not visited, so those of a function
declared inside a body stay as they are.

## Main definitions

* `Fragment.after`, `Fragment.normalized` — what one pass, and what all leave of a fragment

## Main results

* `Pass.apply_isIn`, `Pass.applyAll_isIn` — a pass leads into the fragment without what it removes
* `normalize_normalForm` — the normal form, and that it has code as far as these constructs go
-/

namespace MathKernel

/-! ### Coined names are permitted -/

theorem IsCoined.notMem {name : String} (h : IsCoined name) {names : List String}
    (hnames : ∀ n ∈ names, n ∉ coinedNames ∧ '_' ∉ n.toList) : name ∉ names := by
  intro hmem
  rcases h with h | h
  · exact (hnames name hmem).1 h
  · exact (hnames name hmem).2 h

theorem IsCoined.ne_errorRoutine {name : String} (h : IsCoined name) : name ≠ errorRoutine :=
  fun heq => @IsCoined.notMem name h [errorRoutine] (by decide) (by simp [heq])

theorem IsCoined.notMem_arrayHelpers {name : String} (h : IsCoined name) : name ∉ arrayHelpers :=
  h.notMem (by decide)

theorem IsCoined.isGenericName {name : String} (h : IsCoined name) : IsGenericName name := by
  intro generic hgeneric
  rcases h with h | h
  · have hfixed : ∀ n ∈ coinedNames, genericMath? n = none ∨ genericMath? n = some n := by decide
    rcases hfixed name h with hnone | hsome
    · cases hnone.symm.trans hgeneric
    · exact Option.some.inj (hgeneric.symm.trans hsome)
  · have hplain : ∀ entry ∈ mathAliases, '_' ∉ entry.1.toList := by decide
    exact absurd h (hplain (name, generic) (mem_of_lookup_eq_some hgeneric))

/-! ### The passes in order -/

/-- What a pass leaves of a fragment. -/
def Fragment.after (F : Fragment) : Pass → Fragment
  | .errorCalls => F.withoutErrors
  | .mathNames => F.calling IsGenericName
  | .staticStorage => F.withoutStatics
  | .castCalls => F.withoutCasts
  | .jumps => F.withoutJumps
  | .loops => F.withoutOpenLoops
  | .coefficientArrays => F.withoutHelpers
  | .spelling | .absIdiom | .oddIdiom | .recursion | .coercions => F

theorem Fragment.Permits.after {F : Fragment} (hF : F.Permits) (pass : Pass) :
    (F.after pass).Permits := by
  cases pass with
  | errorCalls =>
    exact ⟨hF.int, hF.float, fun name hname => ⟨hF.callee name hname, hname.ne_errorRoutine⟩⟩
  | mathNames =>
    exact ⟨hF.int, hF.float, fun name hname => ⟨hF.callee name hname, hname.isGenericName⟩⟩
  | coefficientArrays =>
    exact ⟨hF.int, hF.float, fun name hname => ⟨hF.callee name hname, hname.notMem_arrayHelpers⟩⟩
  | _ => exact ⟨hF.int, hF.float, hF.callee⟩

/-- What the passes after the first leave of a fragment. -/
def Fragment.normalized (F : Fragment) : Fragment :=
  Pass.standard.tail.foldl Fragment.after F

theorem Fragment.isNormal_normalized (F : Fragment) : F.normalized.IsNormal :=
  ⟨fun h => h, fun h => h, fun h => h, fun h => h⟩

theorem ensures_map {α β : Type} {x : Except NormalizeError α} {f : α → β} {P : β → Prop}
    (h : Ensures x fun a => P (f a)) : Ensures (x.map f) P := by
  intro b hb
  cases x with
  | error e => cases hb
  | ok a =>
    cases hb
    exact h a rfl

/-- A pass leads into the fragment without what it removes. The two that also change names and
spellings at file level need more than this. -/
theorem Pass.apply_isIn {pass : Pass} (hpass : pass ≠ .spelling ∧ pass ≠ .mathNames) {F : Fragment}
    (hF : F.Permits) (context : PassContext) {u : SourceUnit} (h : u.IsIn F) :
    Ensures (pass.apply context u) fun result => result.1.IsIn (F.after pass) := by
  cases pass with
  | spelling => exact absurd rfl hpass.1
  | mathNames => exact absurd rfl hpass.2
  | errorCalls => exact ensures_pure (SourceUnit.removeErrorCalls_isIn hF h)
  | staticStorage => exact ensures_map (SourceUnit.promoteStatics_isIn context.baseName h)
  | castCalls => exact ensures_pure (SourceUnit.castsToCalls_isIn hF h)
  | absIdiom =>
    have habs : F.callee "abs" := hF.callee _ (.inl (by decide))
    exact ensures_pure
      (SourceUnit.foldIdiom_isIn (fun _ _ hx _ he => Expr.isIn_absOperand? hx he) habs h)
  | oddIdiom =>
    have hodd : F.callee "is_odd" := hF.callee _ (.inr (by decide))
    exact ensures_pure
      (SourceUnit.foldIdiom_isIn (fun _ _ hx _ he => Expr.isIn_oddOperand? hx he) hodd h)
  | jumps => exact ensures_map (SourceUnit.eliminateJumps_isIn h)
  | loops => exact ensures_map (SourceUnit.boundLoops_isIn hF context.pool h)
  | recursion => exact ensures_pure (SourceUnit.unrollRecursion_isIn hF h)
  | coefficientArrays => exact ensures_map (SourceUnit.specializeHelpers_isIn hF h)
  | coercions => exact ensures_pure (SourceUnit.coerced_isIn hF h)

namespace Pass

/-- A pass and then the others. -/
theorem ensures_applyAll_cons {pass : Pass} {rest : List Pass} {context : PassContext}
    {u : SourceUnit} (P : SourceUnit → Prop) {Q : SourceUnit → Prop}
    (hpass : Ensures (pass.apply context u) fun result => P result.1)
    (hrest : ∀ context v, P v → Ensures (applyAll rest context v) fun result => Q result.1) :
    Ensures (applyAll (pass :: rest) context u) fun result => Q result.1 := by
  refine ensures_bind hpass fun here hhere => ?_
  exact ensures_bind (hrest here.2.2 here.1 hhere) fun _ hresult => ensures_pure hresult

/-- Passes in any order leave out what each of them removes. -/
theorem applyAll_isIn {passes : List Pass}
    (hpasses : ∀ pass ∈ passes, pass ≠ .spelling ∧ pass ≠ .mathNames) {F : Fragment}
    (hF : F.Permits) (context : PassContext) {u : SourceUnit} (h : u.IsIn F) :
    Ensures (applyAll passes context u) fun result =>
      result.1.IsIn (passes.foldl Fragment.after F) := by
  induction passes generalizing F context u with
  | nil => exact ensures_pure h
  | cons pass rest ih =>
    obtain ⟨hpass, hrest⟩ := List.forall_mem_cons.1 hpasses
    exact ensures_applyAll_cons (SourceUnit.IsIn (F.after pass)) (apply_isIn hpass hF context h)
      fun context v hv => ih hrest (hF.after pass) context hv

end Pass

theorem mem_mapBodies {f : Block → Block × Tally} {items : List Item} {g : FuncDef}
    (h : .func g ∈ (mapBodies f items).1) :
    ∃ g', .func g' ∈ items ∧ g = { g' with body := (f g'.body).1 } := by
  induction items with
  | nil => cases h
  | cons item rest ih =>
    cases item with
    | decl d =>
      rcases List.mem_cons.1 h with h | h
      · cases h
      · obtain ⟨g', hg', heq⟩ := ih h
        exact ⟨g', List.mem_cons_of_mem _ hg', heq⟩
    | func first =>
      rcases List.mem_cons.1 h with h | h
      · exact ⟨first, List.mem_cons_self, Item.func.inj h⟩
      · obtain ⟨g', hg', heq⟩ := ih h
        exact ⟨g', List.mem_cons_of_mem _ hg', heq⟩

/-- The passes after the first lead from a fragment to its normal form. The size of a definition's
own declarator, which a function does not have, must be of the fragment already. -/
theorem applyAll_normalized {F : Fragment} (hF : F.Permits) (context : PassContext)
    {u : SourceUnit} (h : u.IsIn F)
    (hsize : ∀ f, .func f ∈ u.items → ∀ e ∈ f.decl.size?, e.IsIn F.anyCallee) :
    Ensures (Pass.applyAll Pass.standard.tail context u) fun result =>
      result.1.IsIn F.normalized := by
  have herrors := hF.after .errorCalls
  refine Pass.ensures_applyAll_cons (· = u.removeErrorCalls.1) (ensures_pure rfl) ?_
  rintro context _ rfl
  -- The definitions keep their declarators, of which the next pass makes prototypes.
  have hnames := SourceUnit.genericMathNames_isIn herrors (SourceUnit.removeErrorCalls_isIn hF h)
    fun f hf e he => by
      obtain ⟨g, hg, rfl⟩ := mem_mapBodies hf
      exact hsize g (List.mem_filter.1 hg).1 e he
  refine Pass.ensures_applyAll_cons (SourceUnit.IsIn _) (ensures_pure hnames) fun context u h => ?_
  rw [Fragment.normalized, Pass.standard, List.tail_cons, List.foldl_cons, List.foldl_cons]
  exact Pass.applyAll_isIn (by decide) (herrors.after .mathNames) context h

theorem normalize_isIn {name : String} {capacity : Nat} {u v : SourceUnit} {report : Report}
    (h : normalize { baseName := name, capacity } u = .ok (v, report)) :
    v.IsIn Fragment.whole.normalized := by
  have hall : Ensures (Pass.applyAll Pass.standard (.new name capacity) u) fun result =>
      result.1.IsIn Fragment.whole.normalized :=
    Pass.ensures_applyAll_cons (fun _ => True) (ensures_pure trivial) fun context u _ =>
      applyAll_normalized Fragment.permits_whole context u.isIn_whole
        fun _ _ e _ => e.isIn_whole
  obtain ⟨result, hresult, h⟩ := Except.bind_eq_ok h
  have hv : result.1 = v := congrArg Prod.fst (Except.ok.inj h)
  exact hv ▸ hall result hresult

/-! ### The normal form -/

/-- Whether the expression is a cast. -/
def Expr.isCast : Expr → Bool
  | .cast .. => true
  | _ => false

/-- Whether normalized code may call a function under the name: it is not the error routine, not
another name of a generic math function, and not a general array helper. -/
def IsNormalCallee (name : String) : Prop :=
  name ≠ errorRoutine ∧ IsGenericName name ∧ name ∉ arrayHelpers

/-- Every body of a normalized unit is in normal form, and no function of it lacks code for a
construct that the normal form excludes. -/
theorem normalize_normalForm {name : String} {capacity : Nat} {u v : SourceUnit} {report : Report}
    (h : normalize { baseName := name, capacity } u = .ok (v, report)) {f : FuncDef}
    (hf : f ∈ v.funcs) :
    (∀ s ∈ f.body.stmts, s.isJump = false ∧ s.isOpenLoop = false) ∧
      (∀ e ∈ f.body.exprs, e.isCast = false ∧ ∀ callee ∈ e.callee?, IsNormalCallee callee) ∧
      ∀ family error, f.emit family = .error error → error.cause.isUnnormalized = false := by
  have hbody : f.body.IsIn Fragment.whole.normalized :=
    (normalize_isIn h (.func f) (SourceUnit.mem_funcs.1 hf)).2
  have hnormal := Fragment.isNormal_normalized .whole
  refine ⟨fun s hs => ?_, fun e he => ?_, fun family error herror => ?_⟩
  · have hs := Stmt.AreIn.of_mem f.body.items hbody hs
    cases s with
    | goto l c => exact absurd hs hnormal.gotos
    | label n s c => exact absurd hs.1 hnormal.labels
    | whileLoop p body c | doWhile p body c => exact absurd hs.1 hnormal.openLoops
    | _ => exact ⟨rfl, rfl⟩
  · have he := hbody.node he
    cases e with
    | cast type e c => exact absurd he hnormal.casts
    | call callee args c =>
      refine ⟨rfl, ?_⟩
      rintro _ ⟨⟩
      obtain ⟨⟨⟨-, herror⟩, hgeneric⟩, hhelper⟩ := he
      exact ⟨herror, hgeneric, hhelper⟩
    | _ => exact ⟨rfl, nofun⟩
  · exact FuncDef.isUnnormalized_emit family hnormal hbody herror

/-- A function with a loop, a jump, casts and a call of `sinf`. -/
def dampedWave : SourceUnit :=
  let x := Expr.id "x" none
  let f : FuncDef :=
    { decl := .prototype "f" .float [.ofScalar "x" .float none]
      body := ⟨[
        .whileLoop (.binary .gt x (.cast .float (.int 1 none) none) none)
          (.expr (.assign .assign x (.call "sinf" [x] none) none) none) none,
        .goto "end" none,
        .label "end" (.ret (some (.cast .int x none)) none) none], none⟩
      coord := none }
  ⟨[.func f], none⟩

theorem normalize_normalForm_dampedWave :
    ∃ v report f, normalize { baseName := "unit", capacity := 6 } dampedWave = .ok (v, report) ∧
      f ∈ v.funcs ∧
      (∀ s ∈ f.body.stmts, s.isJump = false ∧ s.isOpenLoop = false) ∧
      (∀ e ∈ f.body.exprs, e.isCast = false ∧ ∀ callee ∈ e.callee?, IsNormalCallee callee) ∧
      ∀ family error, f.emit family = .error error → error.cause.isUnnormalized = false := by
  have hlength : (normalize { baseName := "unit", capacity := 6 } dampedWave).toOption.map
      (·.1.funcs.length) = some 1 := by decide +kernel
  obtain ⟨⟨v, report⟩, hrun, hfuncs⟩ := Option.map_eq_some_iff.1 hlength
  obtain ⟨f, hf⟩ := List.length_eq_one_iff.1 hfuncs
  have hrun := Except.eq_ok_of_toOption hrun
  have hmem : f ∈ v.funcs := by simp [hf]
  exact ⟨v, report, f, hrun, hmem, normalize_normalForm hrun hmem⟩

/-- A body that declares a function with an array parameter, whose size is a cast. -/
def nestedPrototype : SourceUnit :=
  let c : Decl :=
    { name := some "c", quals := [], storage := []
      type := .array (.element (.ofScalar (some "c") .float))
        (some (.cast .int (.int 3 none) none)) none
      init := none, coord := none }
  let f : FuncDef :=
    { decl := .prototype "f" .float [.ofScalar "x" .float none]
      body := ⟨[.decl (.prototype "g" .float [c]) none, .ret (some (.id "x" none)) none], none⟩
      coord := none }
  ⟨[.func f], none⟩

/-- The parameter list of a function declared in a body keeps its casts. -/
theorem normalize_nestedPrototype :
    ∃ v report, normalize { baseName := "unit", capacity := 6 } nestedPrototype = .ok (v, report) ∧
      ∃ f ∈ v.funcs, ∃ s ∈ f.body.stmts, ∃ d ∈ s.ownDecls, ∃ p ∈ d.params, ∃ e ∈ p.exprs,
        e.isCast = true := by
  have hcast : ((normalize { baseName := "unit", capacity := 6 } nestedPrototype).toOption.map
      fun result => result.1.funcs.any fun f => f.body.stmts.any fun s => s.ownDecls.any fun d =>
        d.params.any fun p => p.exprs.any Expr.isCast) = some true := by decide +kernel
  obtain ⟨⟨v, report⟩, hrun, hfound⟩ := Option.map_eq_some_iff.1 hcast
  simp only [List.any_eq_true] at hfound
  exact ⟨v, report, Except.eq_ok_of_toOption hrun, hfound⟩

end MathKernel
