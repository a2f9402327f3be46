import MathKernel.Proofs.Normalize.Heads
import MathKernel.Proofs.Normalize.Recursion
import MathKernel.Proofs.Syntax.Recordings

/-!
# Variants of the polynomial helpers

Which helper calls make the pass fail, and what the unit is otherwise: its calls go to variants, its
general helpers are gone, and the variants that nothing in it declares are declared at its front.

## Main definitions

* `ArrayLengths.HasLength` — the last entry for a name gives a length
* `SourceUnit.HasUnsizedCall` — a helper call passes no array of known length
* `SourceUnit.CallsFor` — a helper call passes an array of the length of a variant
* `Item.specialized` — an item with its helper calls sent to variants
* `SourceUnit.IsSpecialized` — what the unit becomes

## Main results

* `Variant.name_injective` — variants of different helpers or lengths have different names
* `SourceUnit.specializeHelpers_exact` — the pass fails just for calls without a known length, and
  specializes all other units
-/

namespace MathKernel

/-! ### Variants in order -/

namespace Variant

variable {v w : Variant} {variants : List Variant}

/-- The variant is one of a helper. -/
def IsOfHelper (v : Variant) : Prop :=
  v.helper ∈ arrayHelpers

theorem rank_injective (hv : v.IsOfHelper) (h : v.rank = w.rank) : v.helper = w.helper :=
  (List.idxOf_inj hv).1 h

/-- Different variants of helpers come one before the other. -/
theorem before_of_not_before (hv : v.IsOfHelper) (hne : v ≠ w) (h : v.before w = false) :
    w.before v = true := by
  have hlength : v.rank = w.rank → v.length ≠ w.length := by
    intro hrank heq
    have hhelper := rank_injective hv hrank
    cases v
    cases w
    exact hne (by simp_all)
  simp only [before, Bool.or_eq_false_iff, Bool.and_eq_false_iff, decide_eq_false_iff_not,
    beq_eq_false_iff_ne, Bool.or_eq_true, Bool.and_eq_true, decide_eq_true_eq, beq_iff_eq] at h ⊢
  omega

theorem before_trans {x : Variant} (hvw : v.before w = true) (hwx : w.before x = true) :
    v.before x = true := by
  simp only [before, Bool.or_eq_true, Bool.and_eq_true, decide_eq_true_eq, beq_iff_eq] at *
  omega

theorem ne_of_before (h : v.before w = true) : v ≠ w := by
  rintro rfl
  simp [before] at h

theorem mem_insert : w ∈ v.insert variants ↔ w = v ∨ w ∈ variants := by
  induction variants with
  | nil => simp [insert]
  | cons x rest ih =>
    rw [insert]
    split_ifs with heq hbefore
    · subst heq
      simp
    · rw [List.mem_cons]
    · rw [List.mem_cons, ih, List.mem_cons]
      tauto

/-- An ordered list of variants stays ordered. -/
theorem pairwise_insert (hv : v.IsOfHelper) (h : variants.Pairwise (before · ·)) :
    (v.insert variants).Pairwise (before · ·) := by
  induction variants with
  | nil => simp [insert]
  | cons x rest ih =>
    obtain ⟨hx, hrest⟩ := List.pairwise_cons.1 h
    rw [insert]
    split_ifs with heq hbefore
    · exact h
    · refine List.pairwise_cons.2 ⟨List.forall_mem_cons.2 ⟨hbefore, fun y hy => ?_⟩, h⟩
      exact before_trans hbefore (hx y hy)
    · refine List.pairwise_cons.2 ⟨fun y hy => ?_, ih hrest⟩
      rcases mem_insert.1 hy with rfl | hy
      · exact before_of_not_before hv heq (Bool.eq_false_iff.2 hbefore)
      · exact hx y hy

/-- The chosen variants, each once and in order. -/
theorem foldl_insert (chosen : List Variant) (hchosen : ∀ v ∈ chosen, v.IsOfHelper) :
    (chosen.foldl (fun found v => v.insert found) []).Pairwise (before · ·) ∧
      ∀ v, v ∈ chosen.foldl (fun found v => v.insert found) [] ↔ v ∈ chosen := by
  have hfold (found : List Variant) (hfound : found.Pairwise (before · ·)) :
      (chosen.foldl (fun found v => v.insert found) found).Pairwise (before · ·) ∧
        ∀ v, v ∈ chosen.foldl (fun found v => v.insert found) found ↔ v ∈ found ∨ v ∈ chosen := by
    induction chosen generalizing found with
    | nil => exact ⟨hfound, by simp⟩
    | cons v rest ih =>
      obtain ⟨hv, hrest⟩ := List.forall_mem_cons.1 hchosen
      obtain ⟨hordered, hmem⟩ := ih hrest (v.insert found) (pairwise_insert hv hfound)
      refine ⟨hordered, fun w => (hmem w).trans ?_⟩
      rw [mem_insert, List.mem_cons]
      tauto
  simpa using hfold [] .nil

theorem name_notMem_arrayHelpers (v : Variant) : v.name ∉ arrayHelpers := by
  have hplain : ∀ helper ∈ arrayHelpers, '_' ∉ helper.toList := by decide
  exact fun h => hplain _ h (by simp [name, variantName])

/-- The helper is what precedes the underscore. -/
theorem name_injective (hv : v.IsOfHelper) (hw : w.IsOfHelper) (h : v.name = w.name) : v = w := by
  have hplain : ∀ helper ∈ arrayHelpers, ∀ c ∈ helper.toList, (c != '_') = true := by
    simp [arrayHelpers]
  have hstem {x : Variant} (hx : x.IsOfHelper) :
      x.name.toList.takeWhile (· != '_') = x.helper.toList := by
    simp only [name, variantName, String.toList_append, List.append_assoc]
    rw [List.takeWhile_append_of_pos (hplain _ hx)]
    simp
  have hhelper : v.helper = w.helper := by
    rw [← String.toList_inj, ← hstem hv, h, hstem hw]
  have hlength : v.length = w.length := by
    rw [name, name, variantName, variantName, hhelper] at h
    exact toString_nat_injective ((String.append_right_inj _).1 h)
  cases v
  cases w
  simp_all

end Variant

/-! ### Known lengths -/

/-- The last entry for the name gives this length. -/
def ArrayLengths.HasLength (lengths : ArrayLengths) (name : String) (n : Nat) : Prop :=
  ∃ before after, lengths = before ++ (name, some n) :: after ∧ ∀ entry ∈ after, entry.1 ≠ name

theorem ArrayLengths.known?_eq_some {lengths : ArrayLengths} {name : String} {n : Nat} :
    lengths.known? name = some n ↔ lengths.HasLength name n := by
  rw [known?, Option.join_eq_some_iff, List.lookup_eq_some_iff]
  constructor
  · rintro ⟨after, before, heq, hafter⟩
    refine ⟨before.reverse, after.reverse, ?_, fun entry hentry => ?_⟩
    · rw [← lengths.reverse_reverse, heq]
      simp
    · exact (bne_iff_ne.1 (hafter entry (List.mem_reverse.1 hentry))).symm
  · rintro ⟨before, after, rfl, hafter⟩
    refine ⟨after.reverse, before.reverse, by simp, fun entry hentry => ?_⟩
    exact bne_iff_ne.2 (hafter entry (List.mem_reverse.1 hentry)).symm

theorem ArrayLengths.known?_eq_none {lengths : ArrayLengths} {name : String} :
    lengths.known? name = none ↔ ∀ n, ¬lengths.HasLength name n := by
  simp only [Option.eq_none_iff_forall_ne_some, ne_eq, known?_eq_some]

/-! ### Calls of helpers -/

namespace Expr

theorem helperCall?_eq_some {e : Expr} {helper : String} {args : List Expr} {c : Coord} :
    e.helperCall? = some (helper, args, c) ↔ e = call helper args c ∧ helper ∈ arrayHelpers := by
  cases e with
  | call callee args' c' =>
    simp only [helperCall?, List.contains_iff_mem, Option.ite_none_right_eq_some,
      Option.some.injEq, Prod.mk.injEq, call.injEq]
    constructor
    · rintro ⟨h, rfl, rfl, rfl⟩
      exact ⟨⟨rfl, rfl, rfl⟩, h⟩
    · rintro ⟨⟨rfl, rfl, rfl⟩, h⟩
      exact ⟨h, rfl, rfl, rfl⟩
  | _ => simp [helperCall?]

/-- The length of the array that a call passes as its second argument, as far as it is known. -/
def passedLength? (lengths : ArrayLengths) (args : List Expr) : Option Nat :=
  (args[1]?.bind idName?).bind lengths.known?

/-- A call of a helper whose second argument is absent, is no identifier or names no array of
known length. -/
def IsUnsizedCall (lengths : ArrayLengths) (e : Expr) : Prop :=
  ∃ helper ∈ arrayHelpers, ∃ args c, e = call helper args c ∧
    ∀ name c', args[1]? = some (id name c') → ∀ n, ¬lengths.HasLength name n

/-- A call of a helper that passes an array of the variant's length. -/
def CallsFor (lengths : ArrayLengths) (v : Variant) (e : Expr) : Prop :=
  v.helper ∈ arrayHelpers ∧ ∃ args c, e = call v.helper args c ∧
    ∃ name c', args[1]? = some (id name c') ∧ lengths.HasLength name v.length

/-- The variant that an expression calls for, or nothing for a call that no variant suits. -/
def needs (lengths : ArrayLengths) (e : Expr) : List (Option Variant) :=
  match e.helperCall? with
  | none => []
  | some (helper, args, _) => [(passedLength? lengths args).map (Variant.mk helper)]

/-- A helper call sent to the variant it calls for. -/
def toVariant (lengths : ArrayLengths) (e : Expr) : Expr :=
  match e.helperCall? with
  | none => e
  | some (helper, args, c) =>
    (passedLength? lengths args).elim e fun length => call (variantName helper length) args c

variable {lengths : ArrayLengths} {e : Expr} {v : Variant}

theorem passedLength?_eq_none {args : List Expr} : passedLength? lengths args = none ↔
    ∀ name c, args[1]? = some (id name c) → ∀ n, ¬lengths.HasLength name n := by
  rw [passedLength?]
  cases args[1]? with
  | none => simp
  | some e => cases e <;> simp [idName?, ArrayLengths.known?_eq_none]

theorem passedLength?_eq_some {args : List Expr} {n : Nat} : passedLength? lengths args = some n ↔
    ∃ name c, args[1]? = some (id name c) ∧ lengths.HasLength name n := by
  rw [passedLength?]
  cases args[1]? with
  | none => simp
  | some e => cases e <;> simp [idName?, ArrayLengths.known?_eq_some]

theorem none_mem_needs : none ∈ e.needs lengths ↔ e.IsUnsizedCall lengths := by
  rw [needs, IsUnsizedCall]
  cases h : e.helperCall? with
  | none =>
    refine iff_of_false List.not_mem_nil ?_
    rintro ⟨helper, hhelper, args, c, he, -⟩
    rw [helperCall?_eq_some.2 ⟨he, hhelper⟩] at h
    cases h
  | some found =>
    obtain ⟨helper, args, c⟩ := found
    obtain ⟨rfl, hhelper⟩ := helperCall?_eq_some.1 h
    simp [passedLength?_eq_none, hhelper]

theorem some_mem_needs : some v ∈ e.needs lengths ↔ e.CallsFor lengths v := by
  rw [needs, CallsFor]
  cases h : e.helperCall? with
  | none =>
    refine iff_of_false List.not_mem_nil ?_
    rintro ⟨hhelper, args, c, he, -⟩
    rw [helperCall?_eq_some.2 ⟨he, hhelper⟩] at h
    cases h
  | some found =>
    obtain ⟨helper, args, c⟩ := found
    obtain ⟨rfl, hhelper⟩ := helperCall?_eq_some.1 h
    obtain ⟨helper', n⟩ := v
    simp only [List.mem_singleton, eq_comm (a := some _), Option.map_eq_some_iff,
      passedLength?_eq_some, Variant.mk.injEq, call.injEq]
    constructor
    · rintro ⟨_, hpassed, rfl, rfl⟩
      exact ⟨hhelper, args, c, ⟨rfl, rfl, rfl⟩, hpassed⟩
    · rintro ⟨-, _, _, ⟨rfl, rfl, rfl⟩, hpassed⟩
      exact ⟨n, hpassed, rfl, rfl⟩

theorem parts_toVariant (e : Expr) : (e.toVariant lengths).parts = e.parts := by
  cases e with
  | call callee args c =>
    rw [toVariant]
    split
    · rfl
    · rename_i hcall
      obtain ⟨⟨⟩, -⟩ := helperCall?_eq_some.1 hcall
      cases passedLength? lengths _ <;> rfl
  | _ => rfl

/-- A call that a variant suits goes to no helper afterwards. -/
theorem callee_toVariant (hneeds : none ∉ e.needs lengths) {callee : String} {args : List Expr}
    {c : Coord} (hcall : e.toVariant lengths = call callee args c) : callee ∉ arrayHelpers := by
  rw [toVariant] at hcall
  rw [needs] at hneeds
  cases hfound : e.helperCall? with
  | none =>
    rw [hfound] at hcall
    intro hcallee
    rw [helperCall?_eq_some.2 ⟨hcall, hcallee⟩] at hfound
    cases hfound
  | some found =>
    obtain ⟨helper, args', c'⟩ := found
    simp only [hfound] at hcall hneeds
    cases hlength : passedLength? lengths args' with
    | none => simp [hlength] at hneeds
    | some n =>
      rw [hlength] at hcall
      cases hcall
      exact Variant.name_notMem_arrayHelpers ⟨helper, n⟩

theorem idName?_toVariant (e : Expr) : (e.toVariant lengths).idName? = e.idName? := by
  cases e with
  | call callee args c =>
    rw [toVariant]
    split
    · rfl
    · cases passedLength? lengths _ <;> rfl
  | _ => rfl

theorem idName?_rebuild_toVariant (e : Expr) :
    (e.rebuild (toVariant lengths)).idName? = e.idName? := by
  rw [rebuild_eq, idName?_toVariant]
  cases e <;> rfl

/-- A call passes the same array when its arguments are rebuilt. -/
theorem passedLength?_rebuild (args : List Expr) :
    passedLength? lengths (args.map (rebuild (toVariant lengths))) =
      passedLength? lengths args := by
  rw [passedLength?, passedLength?, List.getElem?_map]
  cases args[1]? with
  | none => rfl
  | some e => simp [idName?_rebuild_toVariant]

theorem needs_withParts (e : Expr) :
    (e.withParts (e.parts.map (rebuild (toVariant lengths)))).needs lengths = e.needs lengths := by
  cases e with
  | call callee args c =>
    by_cases hcallee : callee ∈ arrayHelpers <;>
      simp [needs, withParts, parts, helperCall?, hcallee, passedLength?_rebuild]
  | _ => rfl

/-- What becomes of a helper call that passes an array of known length. -/
theorem rebuild_helperCall {helper : String} {args : List Expr} {c : Coord} {n : Nat}
    (hhelper : helper ∈ arrayHelpers) (hpassed : passedLength? lengths args = some n) :
    (call helper args c).rebuild (toVariant lengths) =
      call (variantName helper n) (args.map (rebuild (toVariant lengths))) c := by
  rw [rebuild_eq, withParts, parts, toVariant,
    helperCall?_eq_some.2 ⟨rfl, hhelper⟩]
  simp only [passedLength?_rebuild, hpassed, Option.elim]

end Expr

/-! ### What is chosen -/

/-- A computation that fails if there is a call for no variant, and else adds those called for to
the chosen ones. -/
instance : RecordingMonad Choosing (Option Variant) where
  Records x a needed :=
    (none ∈ needed → ∀ chosen, ∃ error, x.run chosen = .error error) ∧
      (none ∉ needed → ∃ variants, (∀ v, v ∈ variants ↔ some v ∈ needed) ∧
        ∀ chosen, x.run chosen = .ok (a, variants ++ chosen))
  records_pure a := ⟨nofun, fun _ => ⟨[], by simp, fun _ => rfl⟩⟩
  records_bind := by
    intro α β x a f b first second ⟨hfail, hsucceed⟩ ⟨hfail', hsucceed'⟩
    have hfirst (h : none ∈ first) (chosen : List Variant) :
        ∃ error, (x >>= f).run chosen = .error error := by
      obtain ⟨error, hx⟩ := hfail h chosen
      exact ⟨error, by rw [StateT.run_bind, hx]; rfl⟩
    refine ⟨fun h chosen => ?_, fun h => ?_⟩
    · by_cases hx : none ∈ first
      · exact hfirst hx chosen
      · obtain ⟨variants, -, hrun⟩ := hsucceed hx
        obtain ⟨error, hf⟩ := hfail' ((List.mem_append.1 h).resolve_left hx) (variants ++ chosen)
        exact ⟨error, by rw [StateT.run_bind, hrun]; exact hf⟩
    · rw [List.mem_append, not_or] at h
      obtain ⟨variants, hmem, hrun⟩ := hsucceed h.1
      obtain ⟨variants', hmem', hrun'⟩ := hsucceed' h.2
      refine ⟨variants' ++ variants, fun v => ?_, fun chosen => ?_⟩
      · rw [List.mem_append, List.mem_append, hmem, hmem', or_comm]
      · rw [StateT.run_bind, hrun, List.append_assoc]
        exact hrun' _
  records_perm := by
    intro α x a noted other hperm ⟨hfail, hsucceed⟩
    exact ⟨fun h => hfail (hperm.mem_iff.2 h), fun h => (hsucceed (mt hperm.mem_iff.1 h)).imp
      fun _ hx => hx.imp_left fun hmem v => (hmem v).trans hperm.mem_iff⟩

theorem Expr.specialize_records (lengths : ArrayLengths) (function : String) (e : Expr) :
    Records (e.specialize lengths function) (e.toVariant lengths) (e.needs lengths) := by
  cases hcall : e.helperCall? with
  | none =>
    simp only [specialize, needs, toVariant, hcall]
    exact records_pure e
  | some found =>
    obtain ⟨helper, args, c⟩ := found
    have hpassed : (args[1]?.bind idName?).bind lengths.known? = passedLength? lengths args := rfl
    simp only [specialize, needs, toVariant, hcall, hpassed]
    cases passedLength? lengths args with
    | none => exact ⟨fun _ chosen => ⟨_, rfl⟩, fun h => absurd (List.mem_singleton_self _) h⟩
    | some n =>
      have hsome : none ∉ [some (Variant.mk helper n)] := by simp
      exact ⟨fun h => absurd h hsome, fun _ => ⟨[⟨helper, n⟩], by simp, fun chosen => rfl⟩⟩

namespace Item

/-- An item with its helper calls sent to variants; the helpers themselves are left alone. -/
def specialized (globals : ArrayLengths) : Item → Item
  | decl d => decl d
  | func f =>
    if f.name ∈ arrayHelpers then func f
    else func { f with body := f.body.rebuild (Expr.toVariant (globals ++ f.localArrays)) }

/-- What the calls of an item call for. -/
def needs (globals : ArrayLengths) : Item → List (Option Variant)
  | decl _ => []
  | func f =>
    if f.name ∈ arrayHelpers then []
    else f.body.exprs.flatMap (Expr.needs (globals ++ f.localArrays))

theorem name?_specialized (globals : ArrayLengths) (item : Item) :
    (item.specialized globals).name? = item.name? := by
  cases item with
  | decl d => rfl
  | func f =>
    rw [specialized]
    split <;> rfl

/-- The unnamed functions are no helpers either. -/
theorem isOther_func (f : FuncDef) :
    (!(func f).name?.any arrayHelpers.contains) = decide (f.name ∉ arrayHelpers) := by
  cases hdecl : f.decl.name with
  | none => simp [name?, FuncDef.name, hdecl, arrayHelpers]
  | some name => simp [name?, FuncDef.name, hdecl]

theorem specializeHelpers_records (globals : ArrayLengths) (item : Item) :
    Records (item.specializeHelpers globals) (item.specialized globals) (item.needs globals) := by
  cases item with
  | decl d => exact records_pure _
  | func f =>
    simp only [specializeHelpers, specialized, needs, List.contains_iff_mem]
    split
    · exact records_pure _
    · have hbody := f.body.bottomUpM_records
        (Expr.specialize_records (globals ++ f.localArrays) f.name) Expr.needs_withParts
      exact records_map (fun body => func { f with body }) hbody

end Item

namespace SourceUnit

/-- The lengths that count for the calls of a function. -/
def arrayLengths (u : SourceUnit) (f : FuncDef) : ArrayLengths :=
  u.globalArrays ++ f.localArrays

/-- A function other than the helpers calls a helper without an array of known length. -/
def HasUnsizedCall (u : SourceUnit) : Prop :=
  ∃ f ∈ u.funcs, f.name ∉ arrayHelpers ∧ ∃ e ∈ f.body.exprs, e.IsUnsizedCall (u.arrayLengths f)

/-- A function other than the helpers calls a helper with an array of the variant's length. -/
def CallsFor (u : SourceUnit) (v : Variant) : Prop :=
  ∃ f ∈ u.funcs, f.name ∉ arrayHelpers ∧ ∃ e ∈ f.body.exprs, e.CallsFor (u.arrayLengths f) v

/-- The items that do not have the name of a helper. -/
def otherItems (u : SourceUnit) : List Item :=
  u.items.filter fun item => !item.name?.any arrayHelpers.contains

/-- The unit is the other with its helper calls sent to variants, without the general helpers and
with prototypes of the variants at its front. -/
structure IsSpecialized (u u' : SourceUnit) : Prop where
  calls : ∀ f ∈ u'.funcs, ∀ callee args c, .call callee args c ∈ f.body.exprs →
    callee ∉ arrayHelpers
  names : ∀ item ∈ u'.items, ∀ name ∈ item.name?, name ∉ arrayHelpers
  /-- The prototypes are those of the called variants that the other items do not declare, each
  once and in order; the other items stand behind them as before. -/
  items : ∃ variants : List Variant,
    u'.items = variants.map (fun v => .decl v.prototype) ++
      u.otherItems.map (Item.specialized u.globalArrays) ∧
    variants.Pairwise (Variant.before · ·) ∧
    ∀ v, v ∈ variants ↔ u.CallsFor v ∧ ∀ item ∈ u.otherItems, item.name? ≠ some v.name
  declared : ∀ v, u.CallsFor v → ∃ item ∈ u'.items, item.name? = some v.name
  declaredOnce : ∀ v, u.CallsFor v → u.items.countP (·.name? == some v.name) ≤ 1 →
    u'.items.countP (·.name? == some v.name) = 1

variable {u : SourceUnit} {v : Variant}

/-- What the calls of a unit call for. -/
def needs (u : SourceUnit) : List (Option Variant) :=
  u.items.flatMap (Item.needs u.globalArrays)

theorem mem_needs {needed : Option Variant} : needed ∈ u.needs ↔
    ∃ f ∈ u.funcs, f.name ∉ arrayHelpers ∧
      ∃ e ∈ f.body.exprs, needed ∈ e.needs (u.arrayLengths f) := by
  rw [needs, List.mem_flatMap]
  constructor
  · rintro ⟨item, hitem, h⟩
    cases item with
    | decl d => cases h
    | func f =>
      rw [Item.needs] at h
      split at h
      · cases h
      · next hname => exact ⟨f, mem_funcs.2 hitem, hname, List.mem_flatMap.1 h⟩
  · rintro ⟨f, hf, hname, h⟩
    refine ⟨.func f, mem_funcs.1 hf, ?_⟩
    rw [Item.needs, if_neg hname]
    exact List.mem_flatMap.2 h

theorem none_mem_needs : none ∈ u.needs ↔ u.HasUnsizedCall := by
  simp only [mem_needs, HasUnsizedCall, Expr.none_mem_needs]

theorem some_mem_needs : some v ∈ u.needs ↔ u.CallsFor v := by
  simp only [mem_needs, CallsFor, Expr.some_mem_needs]

theorem mapItemsM_records (u : SourceUnit) :
    Records (u.mapItemsM (Item.specializeHelpers u.globalArrays))
      { u with items := u.items.map (Item.specialized u.globalArrays) } u.needs :=
  records_map (fun items => { u with items })
    (records_mapM u.items fun item _ => item.specializeHelpers_records u.globalArrays)

theorem filter_specialized (u : SourceUnit) :
    (u.items.map (Item.specialized u.globalArrays)).filter
        (fun item => !item.name?.any arrayHelpers.contains) =
      u.otherItems.map (Item.specialized u.globalArrays) := by
  rw [List.filter_map, otherItems]
  refine congrArg (List.map _) (List.filter_congr fun item _ => ?_)
  simp [Item.name?_specialized]

theorem CallsFor.isOfHelper (h : u.CallsFor v) : v.IsOfHelper := by
  obtain ⟨f, -, -, e, -, hhelper, -⟩ := h
  exact hhelper

/-- Items with the name of a variant are no helpers. -/
theorem countP_otherItems (u : SourceUnit) (v : Variant) :
    u.otherItems.countP (·.name? == some v.name) = u.items.countP (·.name? == some v.name) := by
  rw [otherItems, List.countP_filter]
  refine List.countP_congr fun item _ => ?_
  simp only [Bool.and_eq_true, beq_iff_eq, and_iff_left_iff_imp]
  intro hname
  simpa [hname] using v.name_notMem_arrayHelpers

/-- Each call of a body that calls no helper without a known length goes to no helper afterwards. -/
theorem callee_notMem_of_rebuild {lengths : ArrayLengths} {b : Block}
    (hsized : ∀ e ∈ b.exprs, ¬e.IsUnsizedCall lengths) {callee : String} {args : List Expr}
    {c : Coord} (h : .call callee args c ∈ (b.rebuild (Expr.toVariant lengths)).exprs) :
    callee ∉ arrayHelpers := by
  rw [Block.exprs_rebuild Expr.parts_toVariant] at h
  obtain ⟨e, he, hcall⟩ := List.mem_map.1 h
  have hneeds : none ∉ e.needs lengths := mt Expr.none_mem_needs.1 (hsized e he)
  rw [← Expr.needs_withParts] at hneeds
  rw [Expr.rebuild_eq] at hcall
  exact Expr.callee_toVariant hneeds hcall

section Result

variable {u' : SourceUnit} {variants : List Variant}
  (hitems : u'.items = variants.map (fun v => .decl v.prototype) ++
    u.otherItems.map (Item.specialized u.globalArrays))

include hitems

theorem calls_of_items (hsized : ¬u.HasUnsizedCall) {f : FuncDef} (hf : f ∈ u'.funcs)
    {callee : String} {args : List Expr} {c : Coord}
    (hcall : .call callee args c ∈ f.body.exprs) : callee ∉ arrayHelpers := by
  have hitem := mem_funcs.1 hf
  rw [hitems, List.mem_append] at hitem
  rcases hitem with hitem | hitem
  · obtain ⟨v, -, hv⟩ := List.mem_map.1 hitem
    cases hv
  · obtain ⟨item, hkept, hf⟩ := List.mem_map.1 hitem
    obtain ⟨hbefore, hother⟩ := List.mem_filter.1 hkept
    cases item with
    | decl d => cases hf
    | func g =>
      have hname : g.name ∉ arrayHelpers := by
        rw [Item.isOther_func] at hother
        exact of_decide_eq_true hother
      rw [Item.specialized, if_neg hname] at hf
      cases hf
      refine callee_notMem_of_rebuild (fun e he hunsized => hsized ?_) hcall
      exact ⟨g, mem_funcs.2 hbefore, hname, e, he, hunsized⟩

theorem names_of_items : ∀ item ∈ u'.items, ∀ name ∈ item.name?, name ∉ arrayHelpers := by
  rw [hitems]
  refine List.forall_mem_append.2 ⟨fun item hitem => ?_, fun item hitem => ?_⟩
  · obtain ⟨v, -, rfl⟩ := List.mem_map.1 hitem
    rintro name ⟨⟩
    exact v.name_notMem_arrayHelpers
  · obtain ⟨before, hkept, rfl⟩ := List.mem_map.1 hitem
    obtain ⟨-, hother⟩ := List.mem_filter.1 hkept
    intro name hname
    rw [Item.name?_specialized] at hname
    rw [hname] at hother
    simpa using hother

theorem countP_items (v : Variant) : u'.items.countP (·.name? == some v.name) =
    variants.countP (·.name == v.name) + u.items.countP (·.name? == some v.name) := by
  rw [hitems, List.countP_append, List.countP_map, List.countP_map, ← countP_otherItems]
  refine congrArg₂ _ (List.countP_congr fun w _ => ?_) (List.countP_congr fun item _ => ?_)
  · simp [Item.name?, Variant.prototype, Decl.prototype]
  · simp [Item.name?_specialized]

omit hitems in
/-- A called variant has one prototype at the front if nothing else declares it, and else none. -/
theorem countP_variants (hordered : variants.Pairwise (Variant.before · ·))
    (hmem : ∀ v, v ∈ variants ↔ u.CallsFor v ∧ ∀ item ∈ u.otherItems, item.name? ≠ some v.name)
    (hv : u.CallsFor v) :
    (u.items.countP (·.name? == some v.name) = 0 ∧ variants.countP (·.name == v.name) = 1) ∨
      (0 < u.items.countP (·.name? == some v.name) ∧ variants.countP (·.name == v.name) = 0) := by
  rw [← countP_otherItems]
  by_cases hother : ∀ item ∈ u.otherItems, item.name? ≠ some v.name
  · refine .inl ⟨List.countP_eq_zero.2 fun item hitem => ?_, ?_⟩
    · simpa using hother item hitem
    · have hnodup : variants.Nodup := hordered.imp Variant.ne_of_before
      rw [← List.count_eq_one_of_mem hnodup ((hmem v).2 ⟨hv, hother⟩)]
      refine List.countP_congr fun w hw => ?_
      rw [beq_iff_eq, beq_iff_eq]
      exact ⟨Variant.name_injective ((hmem w).1 hw).1.isOfHelper hv.isOfHelper, congrArg _⟩
  · push Not at hother
    obtain ⟨item, hitem, hname⟩ := hother
    refine .inr ⟨List.countP_pos_iff.2 ⟨item, hitem, beq_iff_eq.2 hname⟩, ?_⟩
    refine List.countP_eq_zero.2 fun w hw heq => ((hmem w).1 hw).2 item hitem ?_
    rw [hname, beq_iff_eq.1 heq]

theorem isSpecialized_of_items (hsized : ¬u.HasUnsizedCall)
    (hordered : variants.Pairwise (Variant.before · ·))
    (hmem : ∀ v, v ∈ variants ↔ u.CallsFor v ∧ ∀ item ∈ u.otherItems, item.name? ≠ some v.name) :
    u.IsSpecialized u' where
  calls f hf callee args c hcall := calls_of_items hitems hsized hf hcall
  names := names_of_items hitems
  items := ⟨variants, hitems, hordered, hmem⟩
  declared v hv := by
    have hpos : 0 < u'.items.countP (·.name? == some v.name) := by
      rw [countP_items hitems]
      have hvariants := countP_variants hordered hmem hv
      omega
    obtain ⟨item, hitem, hname⟩ := List.countP_pos_iff.1 hpos
    exact ⟨item, hitem, beq_iff_eq.1 hname⟩
  declaredOnce v hv hcount := by
    rw [countP_items hitems]
    have hvariants := countP_variants hordered hmem hv
    omega

end Result

/-- The unit with the chosen variants is specialized. -/
theorem isSpecialized_of_chosen (hsized : ¬u.HasUnsizedCall) {chosen : List Variant}
    (hchosen : ∀ v, v ∈ chosen ↔ u.CallsFor v) {u' : SourceUnit}
    (hitems : u'.items =
      ((chosen.foldl (fun found v => v.insert found) []).filter fun v =>
        !((u.otherItems.map (Item.specialized u.globalArrays)).filterMap Item.name?).contains
          v.name).map (fun v => .decl v.prototype) ++
      u.otherItems.map (Item.specialized u.globalArrays)) :
    u.IsSpecialized u' := by
  obtain ⟨hordered, hmem⟩ := Variant.foldl_insert chosen fun v hv =>
    ((hchosen v).1 hv).isOfHelper
  refine isSpecialized_of_items hitems hsized (hordered.filter _) fun v => ?_
  rw [List.mem_filter, hmem, hchosen]
  refine and_congr_right fun _ => ?_
  simp [Item.name?_specialized]

theorem specializeHelpers_of_unsized (h : u.HasUnsizedCall) :
    ∃ error, u.specializeHelpers = .error error := by
  obtain ⟨error, hrun⟩ := u.mapItemsM_records.1 (none_mem_needs.2 h) []
  exact ⟨error, by rw [specializeHelpers, hrun]; rfl⟩

theorem specializeHelpers_of_sized (h : ¬u.HasUnsizedCall) :
    ∃ u' tally, u.specializeHelpers = .ok (u', tally) ∧ u.IsSpecialized u' := by
  obtain ⟨chosen, hchosen, hrun⟩ := u.mapItemsM_records.2 (mt none_mem_needs.1 h)
  simp only [some_mem_needs] at hchosen
  specialize hrun []
  rw [List.append_nil] at hrun
  refine ⟨_, _, by rw [specializeHelpers, hrun]; rfl, isSpecialized_of_chosen h hchosen ?_⟩
  simp only [filter_specialized]

/-- The pass fails if and only if a helper call passes no array of known length, and else the unit
is specialized. -/
theorem specializeHelpers_exact (u : SourceUnit) :
    ((∃ error, u.specializeHelpers = .error error) ↔ u.HasUnsizedCall) ∧
      ∀ result, u.specializeHelpers = .ok result → u.IsSpecialized result.1 := by
  by_cases hsized : u.HasUnsizedCall
  · obtain ⟨error, hresult⟩ := specializeHelpers_of_unsized hsized
    refine ⟨iff_of_true ⟨error, hresult⟩ hsized, fun result h => ?_⟩
    rw [hresult] at h
    cases h
  · obtain ⟨u', tally, hresult, hspecialized⟩ := specializeHelpers_of_sized hsized
    refine ⟨iff_of_false ?_ hsized, fun result h => ?_⟩
    · rintro ⟨error, h⟩
      rw [hresult] at h
      cases h
    · rw [hresult] at h
      cases h
      exact hspecialized

end SourceUnit

end MathKernel
