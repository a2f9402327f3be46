import MathKernel.Proofs.Normalize.Heads
import MathKernel.Proofs.Normalize.TypedExpressions
import MathKernel.Proofs.Normalize.UnrolledUnits

/-!
# Types of math functions under their generic names

Several declared functions may stand for one generic function. Their prototypes are merged: the
first one stays, and its types are those of every call. So calls keep the types of the function that
they named if this was declared like the first.

## Main definitions

* `SourceUnit.firstSignature?` — the types that a generic function is left with
* `Expr.IsCallTyped` — a call of a math function has its generic name and the given types

## Main results

* `TypeEnv.signature?_genericMathNames` — the merged prototype
* `SourceUnit.genericMathNames_coerced_typed` — calls in the converted unit
* `not_callTyped_merged` — prototypes of different types
-/

namespace MathKernel

/-- The function that an item declares, with its types. -/
def Item.signature? (item : Item) : Option (String × Signature) :=
  Signature.declared? item.toDecl

/-- The types of the first function that is declared under a name of the generic function. -/
def SourceUnit.firstSignature? (u : SourceUnit) (generic : String) : Option Signature :=
  (u.items.filterMap Item.signature?).findSome? fun (name, s) =>
    if genericMath? name = some generic then some s else none

/-- A call of a function that stands for the generic one has its name and the types of the
signature: of the result, and of each argument that a parameter is declared for. -/
def Expr.IsCallTyped (env : TypeEnv) (generic : String) (s : Signature) : Expr → Prop
  | call callee args _ =>
    genericMath? callee = some generic →
      callee = generic ∧ env.resultType callee = s.result ∧
        ∀ arg ∈ args.zipIdx, ∀ t ∈ s.param? arg.2, (arg.1.typeIn env).Meets t
  | _ => True

instance (env : TypeEnv) (generic : String) (s : Signature) :
    (e : Expr) → Decidable (e.IsCallTyped env generic s)
  | .call .. => inferInstanceAs (Decidable (_ → _ ∧ _ ∧ ∀ arg ∈ _, ∀ t ∈ _, _))
  | .id .. | .literal .. | .binary .. | .unary .. | .assign .. | .ternary .. | .cast ..
  | .index .. | .initList .. | .comma .. => inferInstanceAs (Decidable True)

/-! ### Merged prototypes -/

/-- What items declare is read off their declarations. -/
theorem Item.filterMap_signature? (items : List Item) :
    items.filterMap Item.signature? = (items.map Item.toDecl).filterMap Signature.declared? := by
  rw [List.filterMap_map]
  rfl

theorem TypeEnv.functions_ofUnit (u : SourceUnit) :
    (TypeEnv.ofUnit u).functions =
      (u.items.filterMap Item.signature?).reverse ++ builtinSignatures := by
  rw [ofUnit, Item.filterMap_signature?, ← List.filterMap_reverse]

namespace Item

theorem name?_of_signature? {item : Item} {name : String} {s : Signature}
    (h : item.signature? = some (name, s)) :
    item.name? = some name ∧ item.head.isFunction = true := by
  obtain ⟨s', hs, hname⟩ := Option.bind_eq_some_iff.1 h
  obtain ⟨name', hname', heq⟩ := Option.map_eq_some_iff.1 hname
  cases heq
  have hfunction := (Signature.of_ofDecl? hs).1
  cases item <;> exact ⟨hname', hfunction⟩

theorem signature?_of_name {item : Item} {name : String}
    (h : item.toDecl.name = some name) :
    item.signature? = (Signature.ofDecl? item.toDecl).map (name, ·) := by
  rw [signature?, Signature.declared?, h]
  cases Signature.ofDecl? item.toDecl <;> rfl

/-- A function keeps its types when it is renamed. -/
theorem signature?_toGenericMath (item : Item) :
    item.toGenericMath.1.signature? =
      item.signature?.map fun (name, s) => ((genericMath? name).getD name, s) := by
  cases halias : item.name?.bind genericMath? with
  | none =>
    rw [toGenericMath_eq_of_none halias]
    cases hsignature : item.signature? with
    | none => rfl
    | some entry =>
      obtain ⟨name, s⟩ := entry
      rw [(name?_of_signature? hsignature).1, Option.bind_some] at halias
      simp [halias]
  | some generic =>
    obtain ⟨name, hname, hgeneric⟩ := Option.bind_eq_some_iff.1 halias
    -- The item becomes a declaration, renamed if it is one of a function.
    have hdecl (d : Decl) (hd : d.name = some name) (removed : Nat) :
        (if d.isFunction && d.name != some generic then
            (Item.decl (d.rename generic), (⟨1, 0, removed⟩ : Tally))
          else (.decl d, ⟨0, 0, removed⟩)).1.signature? =
          (Signature.ofDecl? d).map (generic, ·) := by
      split
      · have hrenamed : (Item.decl (d.rename generic)).signature? =
            (Signature.ofDecl? (d.rename generic)).map (generic, ·) := signature?_of_name rfl
        rwa [Signature.ofDecl?_rename] at hrenamed
      · next hkept =>
        have hsame : (Item.decl d).signature? = (Signature.ofDecl? d).map (name, ·) :=
          signature?_of_name hd
        refine hsame.trans ?_
        cases hs : Signature.ofDecl? d with
        | none => rfl
        | some s =>
          have hfunction := (Signature.of_ofDecl? hs).1
          have hname : name = generic := by simpa [hfunction, hd] using hkept
          rw [hname]
    have hname' : item.toDecl.name = some name := by cases item <;> exact hname
    rw [signature?_of_name hname', Option.map_map]
    simp only [Function.comp_def, hgeneric, Option.getD_some]
    unfold toGenericMath
    rw [halias]
    cases item with
    | decl d => exact hdecl d hname 0
    | func f => exact hdecl f.prototype hname 1

/-- Under a generic name there is nothing but its prototype. -/
theorem genericPrototype?_of_signature? {item : Item} (h : item.head.IsGeneric) {g : String}
    (hg : genericMath? g = some g) {s : Signature} (hs : item.signature? = some (g, s)) :
    item.genericPrototype? = some g := by
  obtain ⟨hname, hfunction⟩ := name?_of_signature? hs
  have hdefinition := (h g (by rw [Item.name_head, hname]; rfl) g hg).1
  cases item with
  | decl d =>
    have hfunction : d.isFunction = true := hfunction
    have hname : d.name = some g := hname
    simp [genericPrototype?, hfunction, hname, hg]
  | func f => cases hdefinition

theorem signature?_of_genericPrototype? {item : Item} {g : String}
    (h : item.genericPrototype? = some g) : ∃ s, item.signature? = some (g, s) := by
  cases item with
  | decl d =>
    simp only [genericPrototype?] at h
    by_cases hfunction : d.isFunction = true
    · rw [if_pos hfunction] at h
      obtain ⟨s, hs⟩ := Signature.exists_ofDecl? hfunction
      have hname := (Option.filter_eq_some_iff.1 h).1
      exact ⟨s, by simp [signature?, Item.toDecl, Signature.declared?, hs, hname]⟩
    · rw [if_neg hfunction] at h
      cases h
  | func f => cases h

end Item

/-- Of the functions of a generic name the first one is kept, unless one was seen before. -/
theorem mem_keepFirstPrototypes {items : List Item} (hitems : ∀ item ∈ items, item.head.IsGeneric)
    {g : String} (hg : genericMath? g = some g) (seen : List String) (s : Signature) :
    (g, s) ∈ (keepFirstPrototypes seen items).filterMap Item.signature? ↔
      g ∉ seen ∧ (items.filterMap Item.signature?).lookup g = some s := by
  induction items generalizing seen with
  | nil => simp [keepFirstPrototypes]
  | cons item rest ih =>
    obtain ⟨hitem, hrest⟩ := List.forall_mem_cons.1 hitems
    replace ih := ih hrest
    -- An item that is no prototype of the generic name declares no function of that name.
    have hother (hne : item.genericPrototype? ≠ some g) :
        ((item :: rest).filterMap Item.signature?).lookup g =
            (rest.filterMap Item.signature?).lookup g ∧
          ∀ kept : List Item, (g, s) ∈ (item :: kept).filterMap Item.signature? ↔
            (g, s) ∈ kept.filterMap Item.signature? := by
      cases hsignature : item.signature? with
      | none =>
        rw [List.filterMap_cons_none hsignature]
        exact ⟨rfl, fun kept => by rw [List.filterMap_cons_none hsignature]⟩
      | some entry =>
        obtain ⟨name, s'⟩ := entry
        have hname : g ≠ name := by
          rintro rfl
          exact hne (Item.genericPrototype?_of_signature? hitem hg hsignature)
        rw [List.filterMap_cons_some hsignature, List.lookup_cons, beq_eq_false_iff_ne.2 hname]
        refine ⟨rfl, fun kept => ?_⟩
        rw [List.filterMap_cons_some hsignature, List.mem_cons, Prod.mk.injEq]
        exact or_iff_right fun h => hname h.1
    unfold keepFirstPrototypes
    cases hprototype : item.genericPrototype? with
    | none =>
      obtain ⟨hlookup, hkept⟩ := hother (by rw [hprototype]; simp)
      rw [hlookup, hkept, ih seen]
    | some name =>
      by_cases hname : name = g
      · subst hname
        obtain ⟨s', hs'⟩ := Item.signature?_of_genericPrototype? hprototype
        rw [List.filterMap_cons_some hs', List.lookup_cons, BEq.rfl]
        by_cases hseen : name ∈ seen
        · simp only [List.contains_iff_mem, hseen, if_true, ih seen, not_true_eq_false, false_and]
        · simp only [List.contains_iff_mem, hseen, if_false, List.filterMap_cons_some hs',
            List.mem_cons, Prod.mk.injEq, true_and, ih, not_true_eq_false, false_and, or_false,
            not_false_eq_true, Option.some.injEq]
          exact eq_comm
      · obtain ⟨hlookup, hkept⟩ := hother (by simpa [hprototype] using hname)
        rw [hlookup]
        by_cases hseen : name ∈ seen
        · simp only [List.contains_iff_mem, hseen, if_true, ih seen]
        · simp only [List.contains_iff_mem, hseen, if_false, hkept, ih, List.mem_cons,
            Ne.symm hname, false_or]

theorem lookup_genericSignatures {g : String} (hg : genericMath? g = some g)
    (entries : List (String × Signature)) :
    (entries.map fun (name, s) => ((genericMath? name).getD name, s)).lookup g =
      entries.findSome? fun (name, s) => if genericMath? name = some g then some s else none := by
  induction entries with
  | nil => rfl
  | cons entry rest ih =>
    obtain ⟨name, s⟩ := entry
    -- A name that stands for nothing is not generic itself.
    have hname : (g == (genericMath? name).getD name) = decide (genericMath? name = some g) := by
      cases hgeneric : genericMath? name with
      | none =>
        have hne : g ≠ name := by
          rintro rfl
          rw [hg] at hgeneric
          cases hgeneric
        simpa using hne
      | some generic => simp [Option.some.injEq, beq_eq_decide, eq_comm]
    rw [List.map_cons, List.lookup_cons, hname, List.findSome?_cons, ih]
    by_cases hgeneric : genericMath? name = some g <;> simp [hgeneric]

/-- Items are renamed, prototypes merged and calls sent to the generic names. -/
theorem SourceUnit.items_genericMathNames (u : SourceUnit) :
    u.genericMathNames.1.items = (mapBodies Block.toGenericCalls
      (keepFirstPrototypes [] (u.items.map fun item => item.toGenericMath.1))).1 := by
  simp only [genericMathNames, List.map_map]
  rfl

/-- A generic function is left with the types of the first function that is declared under one of
its names. -/
theorem TypeEnv.signature?_genericMathNames {u : SourceUnit} {g : String}
    (hg : genericMath? g = some g) {s : Signature} (h : u.firstSignature? g = some s) :
    (TypeEnv.ofUnit u.genericMathNames.1).signature? g = some s := by
  have hgeneric : ∀ item ∈ u.items.map fun item => item.toGenericMath.1, item.head.IsGeneric :=
    List.forall_mem_map.2 fun item _ => item.isGeneric_toGenericMath
  have hlookup : ((u.items.map fun item => item.toGenericMath.1).filterMap
      Item.signature?).lookup g = some s := by
    rw [← h, SourceUnit.firstSignature?, ← lookup_genericSignatures hg, List.filterMap_map,
      List.map_filterMap]
    exact congrArg (fun f => (u.items.filterMap f).lookup g)
      (funext Item.signature?_toGenericMath)
  have hkept := mem_keepFirstPrototypes hgeneric hg []
  -- Bodies declare nothing.
  have hitems : u.genericMathNames.1.items.filterMap Item.signature? =
      (keepFirstPrototypes [] (u.items.map fun item => item.toGenericMath.1)).filterMap
        Item.signature? := by
    rw [SourceUnit.items_genericMathNames, Item.filterMap_signature?, Item.filterMap_signature?,
      SourceUnit.map_toDecl_mapBodies]
  rw [TypeEnv.signature?, functions_ofUnit, hitems, List.lookup_append,
    lookup_eq_some_of_forall (List.mem_reverse.2 ((hkept s).2 ⟨List.not_mem_nil, hlookup⟩))]
  · rfl
  · intro s' hs'
    have hs' := ((hkept s').1 (List.mem_reverse.1 hs')).2
    exact Option.some.inj (hs'.symm.trans hlookup)

/-! ### Bodies -/

/-- The function that an item defines. -/
def Item.func? : Item → Option FuncDef
  | decl _ => none
  | func f => some f

theorem SourceUnit.funcs_eq (u : SourceUnit) : u.funcs = u.items.filterMap Item.func? :=
  congrArg (fun f => u.items.filterMap f) (funext fun item => by cases item <;> rfl)

/-- A definition of a math function shrinks to a prototype. -/
theorem Item.func?_toGenericMath (item : Item) :
    item.toGenericMath.1.func? =
      item.func?.filter fun f => (f.decl.name.bind genericMath?).isNone := by
  cases halias : item.name?.bind genericMath? with
  | none =>
    rw [toGenericMath_eq_of_none halias]
    cases item with
    | decl d => rfl
    | func f =>
      have hname : f.decl.name.bind genericMath? = none := halias
      rw [func?, Option.filter_some, hname]
      rfl
  | some generic =>
    unfold toGenericMath
    rw [halias]
    cases item with
    | decl d =>
      dsimp only
      split <;> rfl
    | func f =>
      have hname : f.decl.name.bind genericMath? = some generic := halias
      have hnone : (func f).func?.filter (fun f => (f.decl.name.bind genericMath?).isNone) =
          none := by
        rw [func?, Option.filter_some, hname]
        rfl
      rw [hnone]
      dsimp only
      split <;> rfl

theorem filterMap_func?_keepFirstPrototypes (seen : List String) (items : List Item) :
    (keepFirstPrototypes seen items).filterMap Item.func? = items.filterMap Item.func? := by
  induction items generalizing seen with
  | nil => rfl
  | cons item rest ih =>
    cases item with
    | func f => exact congrArg (f :: ·) (ih seen)
    | decl d =>
      unfold keepFirstPrototypes
      split
      · exact ih seen
      · split
        · exact ih seen
        · exact ih _

/-! ### Calls -/

namespace Expr

/-- The generic call in place of a call, any other node as it is. -/
def toGenericCall (e : Expr) : Expr :=
  e.toGenericCall?.getD e

theorem toGenericCall_call (callee : String) (args : List Expr) (c : Coord) :
    (call callee args c).toGenericCall = call ((genericMath? callee).getD callee) args c := by
  simp only [toGenericCall, toGenericCall?]
  cases genericMath? callee with
  | none => rfl
  | some generic => by_cases hsame : callee = generic <;> simp [hsame]

/-- A call that was sent to a generic name is not sent on. -/
theorem toGenericCall?_toGenericCall (e : Expr) : e.toGenericCall.toGenericCall? = none := by
  cases e with
  | call callee args c =>
    rw [toGenericCall_call]
    cases hgeneric : genericMath? callee with
    | none => simp [toGenericCall?, hgeneric]
    | some generic => simp [toGenericCall?, genericMath?_generic hgeneric]
  | _ => rfl

theorem parts_toGenericCall (e : Expr) : e.toGenericCall.parts = e.parts := by
  cases e with
  | call callee args c => rw [toGenericCall_call, parts, parts]
  | _ => rfl

theorem isNodeProperty_toGenericCall? : IsNodeProperty (·.toGenericCall? = none) := by
  constructor
  case call =>
    intro f args args' c h
    simp only [toGenericCall?] at h ⊢
    cases hgeneric : genericMath? f with
    | none => rfl
    | some generic =>
      by_cases hsame : f = generic
      · simp [hsame]
      · simp [hgeneric, hsame] at h
  case conversion => exact fun t args c => by cases t <;> rfl
  all_goals intros; rfl

/-- In an expression that calls generic names only and needs no conversion, the calls of a generic
function have its types. -/
theorem isCallTyped_of_isExplicit {env : TypeEnv} {g : String} {s : Signature}
    (hs : env.signature? g = some s) {e : Expr} (hcalls : e.Everywhere (·.toGenericCall? = none))
    (h : e.IsExplicit env) : e.Everywhere (IsCallTyped env g s) := by
  intro part hpart
  cases part with
  | call callee args c =>
    intro hgeneric
    have hcallee : callee = g := by
      have hnone := hcalls _ hpart
      by_contra hne
      simp [toGenericCall?, hgeneric, hne] at hnone
    subst hcallee
    refine ⟨rfl, by rw [TypeEnv.resultType, hs]; rfl, fun arg harg t ht => ?_⟩
    refine h _ hpart arg harg t ?_
    rw [hs]
    exact ht
  | _ => trivial

end Expr

namespace SourceUnit

variable {u : SourceUnit}

/-- The functions that are no math functions stay, with their calls sent to generic names. -/
theorem funcs_genericMathNames (u : SourceUnit) :
    u.genericMathNames.1.funcs =
      (u.funcs.filter fun f => (f.decl.name.bind genericMath?).isNone).map
        (FuncDef.rebuild Expr.toGenericCall) := by
  have hbodies (items : List Item) : (mapBodies Block.toGenericCalls items).1.filterMap Item.func? =
      (items.filterMap Item.func?).map (FuncDef.rebuild Expr.toGenericCall) := by
    induction items with
    | nil => rfl
    | cons item rest ih =>
      cases item with
      | decl d => exact ih
      | func f =>
        refine congrArg₂ List.cons (congrArg (fun body => { f with body }) ?_) ih
        exact Block.value_bottomUpM_replace _ f.body
  rw [funcs_eq, funcs_eq, items_genericMathNames, hbodies, filterMap_func?_keepFirstPrototypes,
    List.filterMap_map, List.filter_filterMap]
  exact congrArg (fun f => (u.items.filterMap f).map _) (funext Item.func?_toGenericMath)

/-- In bodies all calls are sent to generic names. -/
theorem toGenericCall?_genericMathNames {f : FuncDef} (hf : f ∈ u.genericMathNames.1.funcs) :
    ∀ e ∈ f.body.exprs, e.toGenericCall? = none := by
  rw [funcs_genericMathNames] at hf
  obtain ⟨f, -, rfl⟩ := List.mem_map.1 hf
  change ∀ e ∈ (f.body.rebuild Expr.toGenericCall).exprs, _
  rw [Block.exprs_rebuild Expr.parts_toGenericCall]
  refine List.forall_mem_map.2 fun e _ => ?_
  rw [Expr.rebuild_eq]
  exact Expr.toGenericCall?_toGenericCall _

/-- Let a function stand for a generic one and be declared with the types of the first function that
does. When math functions have their generic names and conversions are explicit, every call of a
function that stands for the generic one is a call by that name, whose result has the type of the
function's result and whose arguments have the types of its parameters. -/
theorem genericMathNames_coerced_typed (hnames : u.keepsConversions) {name g : String}
    (hg : genericMath? name = some g) {s : Signature}
    (hs : (TypeEnv.ofUnit u).signature? name = some s)
    (hfirst : u.firstSignature? g = (TypeEnv.ofUnit u).signature? name) :
    ∀ f ∈ u.genericMathNames.1.coerced.1.funcs,
      ∀ x ∈ f.typedExprs (TypeEnv.ofUnit u.genericMathNames.1.coerced.1),
        x.2.Everywhere (Expr.IsCallTyped x.1 g s) := by
  have hnames' : u.genericMathNames.1.keepsConversions :=
    keepsConversions_iff.2 (keepsConversions_genericMathNames (keepsConversions_iff.1 hnames))
  intro f hf x hx
  have hcount := count_typedExprs_coerced hnames' f hf x hx
  have hfunctions : x.1.functions = (TypeEnv.ofUnit u.genericMathNames.1).functions := by
    rw [TypeEnv.ofUnit_coerced] at hx
    exact FuncDef.forall_env_typedExprs
      (P := fun env => env.functions = (TypeEnv.ofUnit u.genericMathNames.1).functions)
      (fun env d h => (env.functions_declare d).trans h) rfl x hx
  refine Expr.isCallTyped_of_isExplicit ?_ ?_ (Expr.isExplicit_of_coerced hcount)
  · rw [TypeEnv.signature?, hfunctions]
    exact TypeEnv.signature?_genericMathNames (genericMath?_generic hg) (hfirst.trans hs)
  · -- Conversions call nothing but conversions and the remainder.
    rw [funcs_coerced] at hf
    obtain ⟨f', hf', rfl⟩ := List.mem_map.1 hf
    rw [TypeEnv.ofUnit_coerced] at hx
    obtain ⟨y, hy, hconverted⟩ := forall₂_exists_of_mem (f'.typedExprs_coerced _) x hx
    have hcalls := FuncDef.everywhere_typedExprs (toGenericCall?_genericMathNames hf') _ y hy
    exact hconverted.everywhere Expr.isNodeProperty_toGenericCall? hcalls

end SourceUnit

/-- `float sinf(float x); float sin(float x); float powf(float x, float y);`
`float f(int n, float x) { n = sinf(n) + sin(2); return powf(x, n); }` -/
def mathUnit : SourceUnit :=
  ⟨[.decl (.prototype "sinf" .float [.ofScalar "x" .float none]),
    .decl (.prototype "sin" .float [.ofScalar "x" .float none]),
    .decl (.prototype "powf" .float [.ofScalar "x" .float none, .ofScalar "y" .float none]),
    .func ⟨.prototype "f" .float [.ofScalar "n" .int none, .ofScalar "x" .float none],
      ⟨[.expr (.assign .assign (.id "n" none) (.binary .add (.call "sinf" [.id "n" none] none)
          (.call "sin" [.int 2 none] none) none) none) none,
        .ret (some (.call "powf" [.id "x" none, .id "n" none] none)) none], none⟩, none⟩], none⟩

theorem genericMathNames_coerced_typed_mathUnit :
    mathUnit.keepsConversions ∧
      (TypeEnv.ofUnit mathUnit).signature? "sin" = some ⟨.float, .fixed [some .float]⟩ ∧
      mathUnit.genericMathNames.1.coerced.1.funcs.length = 1 ∧
      ∀ f ∈ mathUnit.genericMathNames.1.coerced.1.funcs,
        ∀ x ∈ f.typedExprs (TypeEnv.ofUnit mathUnit.genericMathNames.1.coerced.1),
          x.2.Everywhere (Expr.IsCallTyped x.1 "sin" ⟨.float, .fixed [some .float]⟩) := by
  have hnames : mathUnit.keepsConversions := by decide
  have hsin : (TypeEnv.ofUnit mathUnit).signature? "sin" = some ⟨.float, .fixed [some .float]⟩ := by
    decide +kernel
  have hfirst : mathUnit.firstSignature? "sin" = (TypeEnv.ofUnit mathUnit).signature? "sin" := by
    decide +kernel
  exact ⟨hnames, hsin, by decide +kernel,
    SourceUnit.genericMathNames_coerced_typed hnames (by decide) hsin hfirst⟩

/-! ### Prototypes of different types -/

/-- `int abs(int n); float fabsf(float x); float f(float x) { return fabsf(x); }` -/
def mergedMagnitudes : SourceUnit :=
  ⟨[.decl (.prototype "abs" .int [.ofScalar "n" .int none]),
    .decl (.prototype "fabsf" .float [.ofScalar "x" .float none]),
    .func ⟨.prototype "f" .float [.ofScalar "x" .float none],
      ⟨[.ret (some (.call "fabsf" [.id "x" none] none)) none], none⟩, none⟩], none⟩

/-- `float atanf(float x); float atan2f(float y, float x);`
`float f(float y, int n) { return atan2f(y, n); }` -/
def mergedAngles : SourceUnit :=
  ⟨[.decl (.prototype "atanf" .float [.ofScalar "x" .float none]),
    .decl (.prototype "atan2f" .float [.ofScalar "y" .float none, .ofScalar "x" .float none]),
    .func ⟨.prototype "f" .float [.ofScalar "y" .float none, .ofScalar "n" .int none],
      ⟨[.ret (some (.call "atan2f" [.id "y" none, .id "n" none] none)) none], none⟩, none⟩], none⟩

/-- An absolute value of a floating number becomes one of an integer, and the second argument of an
angle stays an integer: the first prototype of the generic name has other types. -/
theorem not_callTyped_merged :
    (mergedMagnitudes.keepsConversions ∧ ∃ s,
      (TypeEnv.ofUnit mergedMagnitudes).signature? "fabsf" = some s ∧
      ∃ f ∈ mergedMagnitudes.genericMathNames.1.coerced.1.funcs, ∃ e ∈ f.body.exprs,
        ¬ e.IsCallTyped (f.bodyEnv
          (TypeEnv.ofUnit mergedMagnitudes.genericMathNames.1.coerced.1)) "abs" s) ∧
    (mergedAngles.keepsConversions ∧ ∃ s,
      (TypeEnv.ofUnit mergedAngles).signature? "atan2f" = some s ∧
      ∃ f ∈ mergedAngles.genericMathNames.1.coerced.1.funcs, ∃ e ∈ f.body.exprs,
        ¬ e.IsCallTyped (f.bodyEnv
          (TypeEnv.ofUnit mergedAngles.genericMathNames.1.coerced.1)) "atan" s) := by
  refine ⟨⟨by decide, ⟨.float, .fixed [some .float]⟩, by decide +kernel, by decide +kernel⟩,
    by decide, ⟨.float, .fixed [some .float, some .float]⟩, by decide +kernel, by decide +kernel⟩

end MathKernel
