import Mathlib.Data.List.Nodup
import Mathlib.Data.List.Perm.Subperm
import MathKernel.Kernel.Builtin
import MathKernel.Proofs.Data.Closure
import MathKernel.Proofs.Kernel.Dependencies
import MathKernel.Proofs.Normalize.CallFragments

/-!
# No short cycles are left

After recursion is unrolled no function calls itself and no two call each other. The copies have
names that nothing called before, so a call between two original functions is one that was there
before, and of those on a short cycle one was sent to a copy. A copy in turn calls nothing from
which a call leads back to the function it copies.

## Main definitions

* `SourceUnit.Calls` — a function of a unit calls another one of it
* `SourceUnit.CallsKnown` — every called function is declared at file level or built in
* `Unrolling.IsSound` — what is kept while copies are made

## Main results

* `freshName_notMem` — fresh names are not taken
* `SourceUnit.cycles_unrollRecursion` — the call graph of an unrolled unit has no short cycles
-/

namespace MathKernel

/-! ### Fresh names -/

theorem toString_nat_injective : Function.Injective (toString : Nat → String) := by
  intro n m h
  have hdigits : (Nat.repr n).toList = (Nat.repr m).toList := congrArg String.toList h
  rw [Nat.toList_repr, Nat.toList_repr] at hdigits
  simpa only [Nat.ofDigitChars_ten_toDigits] using congrArg (Nat.ofDigitChars 10 · 0) hdigits

theorem nameVariant_injective (separator stem : String) :
    Function.Injective (nameVariant separator stem) := by
  have hlonger (n : Nat) : stem ≠ stem ++ separator ++ toString (n + 1) := by
    intro h
    have hlength := congrArg String.length h
    have hpos : 0 < (Nat.repr (n + 1)).length := by
      rw [← String.length_toList, Nat.toList_repr]
      exact Nat.length_toDigits_pos
    simp only [String.length_append] at hlength
    change _ = _ + _ + (Nat.repr (n + 1)).length at hlength
    omega
  intro n m h
  unfold nameVariant at h
  split_ifs at h with hn hm hm
  · rw [hn, hm]
  · exact absurd h (hlonger m)
  · exact absurd h.symm (hlonger n)
  · exact Nat.succ.inj (toString_nat_injective ((String.append_right_inj _).1 h))

/-- One of the variants is free, since there are more of them than taken names. -/
theorem freshName_notMem (separator : String) (taken : List String) (stem : String) :
    freshName separator taken stem ∉ taken := by
  unfold freshName
  cases h : ((List.range (taken.length + 1)).map (nameVariant separator stem)).find?
      (fun name => !taken.contains name) with
  | some name => simpa using List.find?_some h
  | none =>
    have hall : (List.range (taken.length + 1)).map (nameVariant separator stem) ⊆ taken := by
      intro name hname
      simpa using List.find?_eq_none.1 h name hname
    have hnodup : ((List.range (taken.length + 1)).map (nameVariant separator stem)).Nodup :=
      List.nodup_range.map (nameVariant_injective separator stem)
    have hlength := (hnodup.subperm hall).length_le
    simp only [List.length_map, List.length_range] at hlength
    omega

/-! ### The call graph -/

/-- Each name's own entry is found if no name has two. -/
theorem lookup_eq_some_of_mem {α : Type} {entries : List (String × α)}
    (hnodup : (entries.map Prod.fst).Nodup) {name : String} {a : α} (h : (name, a) ∈ entries) :
    entries.lookup name = some a := by
  induction entries with
  | nil => cases h
  | cons entry rest ih =>
    obtain ⟨hhere, hrest⟩ := List.nodup_cons.1 hnodup
    rcases List.mem_cons.1 h with rfl | h
    · exact List.lookup_cons_self
    · have hne : name ≠ entry.1 := by
        rintro rfl
        exact hhere (List.mem_map.2 ⟨_, h, rfl⟩)
      rw [List.lookup_cons, beq_eq_false_iff_ne.2 hne]
      exact ih hrest h

/-- A function of the unit calls another one of it. -/
def SourceUnit.Calls (u : SourceUnit) (a b : String) : Prop :=
  ∃ f ∈ u.funcs, f.name = a ∧ b ∈ f.calledNames ∧ b ∈ u.funcs.map FuncDef.name

namespace CallGraph

variable {u : SourceUnit} {a b : String}

/-- A call in the graph is one in some body. -/
theorem exists_of_hasCall (h : (ofUnit u).hasCall a b = true) : u.Calls a b := by
  have hmem : b ∈ (ofUnit u).callees a := by simpa [hasCall] using h
  unfold callees at hmem
  cases hlookup : (ofUnit u).calls.lookup a with
  | none => simp [hlookup] at hmem
  | some found =>
    have hentry := List.mem_reverse.1 (mem_of_lookup_eq_some hlookup)
    obtain ⟨f, hf, heq⟩ := List.mem_map.1 hentry
    obtain ⟨rfl, rfl⟩ := Prod.mk.inj heq
    rw [hlookup, Option.getD_some] at hmem
    obtain ⟨hcalled, horder⟩ := List.mem_filter.1 hmem
    exact ⟨f, hf, rfl, hcalled, by simpa using horder⟩

theorem mem_callees (hnodup : (u.funcs.map FuncDef.name).Nodup) {f : FuncDef} (hf : f ∈ u.funcs)
    (hb : b ∈ f.calledNames) (horder : b ∈ u.funcs.map FuncDef.name) :
    b ∈ (ofUnit u).callees f.name := by
  have hkeys : ((ofUnit u).calls.map Prod.fst).Nodup := by
    simp only [ofUnit, List.map_reverse, List.map_map, List.nodup_reverse]
    exact hnodup
  have hentry : (f.name, f.calledNames.filter (u.funcs.map FuncDef.name).contains) ∈
      (ofUnit u).calls :=
    List.mem_reverse.2 (List.mem_map.2 ⟨f, hf, rfl⟩)
  rw [callees, lookup_eq_some_of_mem hkeys hentry, Option.getD_some]
  exact List.mem_filter.2 ⟨hb, by simpa using horder⟩

theorem hasCall_of_mem (hnodup : (u.funcs.map FuncDef.name).Nodup) {f : FuncDef}
    (hf : f ∈ u.funcs) (hb : b ∈ f.calledNames) (horder : b ∈ u.funcs.map FuncDef.name) :
    (ofUnit u).hasCall f.name b = true := by
  simpa [hasCall] using mem_callees hnodup hf hb horder

variable {g : CallGraph}

theorem mem_mutualPairs {l : List String} (h : (a, b) ∈ g.mutualPairs l) :
    a ∈ l ∧ b ∈ l ∧ g.hasCall a b = true := by
  induction l with
  | nil => cases h
  | cons f rest ih =>
    rcases List.mem_append.1 h with h | h
    · obtain ⟨k, hk, heq⟩ := List.mem_map.1 h
      obtain ⟨rfl, rfl⟩ := Prod.mk.inj heq
      obtain ⟨hmem, hcalls⟩ := List.mem_filter.1 hk
      rw [Bool.and_eq_true] at hcalls
      exact ⟨List.mem_cons_self, List.mem_cons_of_mem _ hmem, hcalls.1⟩
    · obtain ⟨ha, hb, hcall⟩ := ih h
      exact ⟨List.mem_cons_of_mem _ ha, List.mem_cons_of_mem _ hb, hcall⟩

/-- Of two functions that call each other the first is paired with the second. -/
theorem mem_mutualPairs_or {l : List String} (ha : a ∈ l) (hb : b ∈ l) (hne : a ≠ b)
    (hab : g.hasCall a b = true) (hba : g.hasCall b a = true) :
    (a, b) ∈ g.mutualPairs l ∨ (b, a) ∈ g.mutualPairs l := by
  induction l with
  | nil => cases ha
  | cons f rest ih =>
    simp only [mutualPairs, List.mem_append, List.mem_map, List.mem_filter, Bool.and_eq_true,
      Prod.mk.injEq]
    rcases List.mem_cons.1 ha with rfl | ha'
    · rcases List.mem_cons.1 hb with rfl | hb'
      · exact absurd rfl hne
      · exact .inl (.inl ⟨b, ⟨hb', hab, hba⟩, rfl, rfl⟩)
    · rcases List.mem_cons.1 hb with rfl | hb'
      · exact .inr (.inl ⟨a, ⟨ha', hba, hab⟩, rfl, rfl⟩)
      · exact (ih ha' hb').imp .inr .inr

theorem mem_cycles (h : (a, b) ∈ g.cycles) :
    a ∈ g.order ∧ b ∈ g.order ∧ g.hasCall a b = true := by
  rcases List.mem_append.1 h with h | h
  · obtain ⟨k, hk, heq⟩ := List.mem_map.1 h
    obtain ⟨rfl, rfl⟩ := Prod.mk.inj heq
    obtain ⟨hmem, hcall⟩ := List.mem_filter.1 hk
    exact ⟨hmem, hmem, hcall⟩
  · exact mem_mutualPairs h

/-- Two functions that call each other, or one that calls itself, are on a cycle to unroll. -/
theorem mem_cycles_or (ha : a ∈ g.order) (hb : b ∈ g.order) (hab : g.hasCall a b = true)
    (hba : g.hasCall b a = true) : (a, b) ∈ g.cycles ∨ (b, a) ∈ g.cycles := by
  by_cases hne : a = b
  · subst hne
    refine .inl (List.mem_append_left _ (List.mem_map.2 ⟨a, List.mem_filter.2 ⟨ha, hab⟩, rfl⟩))
  · exact (mem_mutualPairs_or ha hb hne hab hba).imp (List.mem_append_right _)
      (List.mem_append_right _)

theorem cycles_eq_nil (h : ∀ a b, g.hasCall a b = true → g.hasCall b a = true → False) :
    g.cycles = [] := by
  have hpairs (l : List String) : g.mutualPairs l = [] := by
    induction l with
    | nil => rfl
    | cons f rest ih =>
      have hnone : rest.filter (fun k => g.hasCall f k && g.hasCall k f) = [] := by
        refine List.filter_eq_nil_iff.2 fun k _ hk => ?_
        rw [Bool.and_eq_true] at hk
        exact h f k hk.1 hk.2
      rw [mutualPairs, hnone, ih]
      rfl
  have hself : g.order.filter (fun f => g.hasCall f f) = [] :=
    List.filter_eq_nil_iff.2 fun f _ hf => h f f hf hf
  rw [cycles, hself, hpairs]
  rfl

/-- A function that is called leads back to its caller's copy. -/
theorem mem_leadsTo (ha : a ∈ g.order) (hab : g.hasCall a b = true) : a ∈ g.leadsTo b := by
  refine List.mem_filter.2 ⟨ha, ?_⟩
  have hcallee : b ∈ g.callees a := by simpa [hasCall] using hab
  have hreach : b ∈ g.reachable a := subset_closure _ _ _ hcallee
  simp [hreach]

end CallGraph

/-! ### Called names -/

/-- The fragment of bodies that call only the given names. -/
def Fragment.callingOnly (p : String → Prop) : Fragment :=
  { Fragment.whole with callee := p }

theorem Fragment.frame_callingOnly (p q : String → Prop) :
    (Fragment.callingOnly p).Frame (Fragment.callingOnly q) :=
  ⟨fun h => h, fun h => h, fun h => h, fun h => h, fun _ _ h => h⟩

theorem Block.isIn_callingOnly {b : Block} {p : String → Prop} :
    b.IsIn (.callingOnly p) ↔ ∀ name ∈ b.calledNames, p name := by
  constructor
  · intro h name hname
    obtain ⟨e, he, hcallee⟩ := List.mem_filterMap.1 hname
    have hnode := h.node he
    cases e with
    | call callee args c =>
      cases hcallee
      exact hnode
    | _ => cases hcallee
  · intro h
    refine Block.isIn_of_exprs (F := .callingOnly p)
      ⟨fun h => h, fun h => h, fun h => h, fun h => h, fun _ _ h => h⟩ ?_
    intro e he
    cases e with
    | call callee args c => exact h callee (List.mem_filterMap.2 ⟨_, he, rfl⟩)
    | _ => exact trivial

/-- What a body calls after its calls are redirected. -/
theorem Block.calledNames_redirect (names : List (String × String)) (b : Block) :
    ∀ name ∈ (b.bottomUpM (Counted.replace (Expr.redirectCall? names))).value.calledNames,
      ∃ x ∈ b.calledNames, name = (names.lookup x).getD x := by
  have hb : b.IsIn (.callingOnly (· ∈ b.calledNames)) := Block.isIn_callingOnly.2 fun _ h => h
  refine Block.isIn_callingOnly.1 ?_
  refine Block.bottomUpM_isIn (m := Counted) (Fragment.frame_callingOnly _ _)
    (fun e he hparts => ?_) hb
  refine replace_isIn hparts (fun e' h => ?_) fun hnone => ?_
  · cases e with
    | call callee args c =>
      obtain ⟨new, hnew, rfl⟩ := Option.map_eq_some_iff.1 h
      refine Expr.isIn_call.2 ⟨⟨callee, he, ?_⟩, hparts⟩
      rw [hnew, Option.getD_some]
    | _ => cases h
  · cases e with
    | call callee args c =>
      refine ⟨callee, he, ?_⟩
      rw [Option.map_eq_none_iff.1 hnone, Option.getD_none]
    | _ => exact trivial

/-- What a body calls after calls are cut off. -/
theorem Block.calledNames_cut (targets : List String) (b : Block) :
    ∀ name ∈ (b.bottomUpM (Counted.replace (Expr.cutCall? targets))).value.calledNames,
      name ∈ b.calledNames ∧ name ∉ targets := by
  have hb : b.IsIn (.callingOnly (· ∈ b.calledNames)) := Block.isIn_callingOnly.2 fun _ h => h
  refine Block.isIn_callingOnly.1 ?_
  refine Block.bottomUpM_isIn (m := Counted) (Fragment.frame_callingOnly _ _)
    (fun e he hparts => ?_) hb
  refine replace_isIn hparts (fun e' h => ?_) fun hnone => ?_
  · cases e with
    | call callee args c =>
      simp only [Expr.cutCall?, Option.ite_none_right_eq_some, Option.some.injEq] at h
      obtain ⟨-, rfl⟩ := h
      exact Expr.isIn_id
    | _ => cases h
  · cases e with
    | call callee args c =>
      refine ⟨he, fun htarget => ?_⟩
      rw [Expr.cutCall?, if_pos (by simpa using htarget)] at hnone
      cases hnone
    | _ => exact trivial

/-! ### The copies -/

/-- Every function that a body calls is declared at file level or built in. -/
def SourceUnit.CallsKnown (u : SourceUnit) : Prop :=
  ∀ f ∈ u.funcs, ∀ name ∈ f.calledNames,
    name ∈ u.itemNames ∨ name ∈ builtinKernels.map Kernel.name

instance (u : SourceUnit) : Decidable u.CallsKnown :=
  inferInstanceAs (Decidable (∀ f ∈ u.funcs, ∀ name ∈ f.calledNames,
    name ∈ u.itemNames ∨ name ∈ builtinKernels.map Kernel.name))

/-- A name that a copy can have: it has the letter of the ending and no item has it. -/
def SourceUnit.IsCopyName (u : SourceUnit) (name : String) : Prop :=
  'u' ∈ name.toList ∧ name ∉ u.itemNames

theorem builtin_notMem_u : ∀ name ∈ builtinKernels.map Kernel.name, 'u' ∉ name.toList := by
  decide +kernel

variable {u : SourceUnit}

theorem SourceUnit.CallsKnown.not_isCopyName (h : u.CallsKnown) {f : FuncDef} (hf : f ∈ u.funcs)
    {name : String} (hname : name ∈ f.calledNames) : ¬ u.IsCopyName name := by
  rintro ⟨hletter, hitem⟩
  rcases h f hf name hname with hmem | hmem
  · exact hitem hmem
  · exact builtin_notMem_u name hmem hletter

theorem SourceUnit.not_isCopyName_name {f : FuncDef} (hf : f ∈ u.funcs) :
    ¬ u.IsCopyName f.name := by
  rintro ⟨hletter, hitem⟩
  cases hname : f.decl.name with
  | none => simp [FuncDef.name, hname] at hletter
  | some name =>
    refine hitem (List.mem_filterMap.2 ⟨.func f, SourceUnit.mem_funcs.1 hf, ?_⟩)
    simp [Item.name?, FuncDef.name, hname]

theorem SourceUnit.exists_func? {g : FuncDef} (hg : g ∈ u.funcs) :
    ∃ f, u.func? g.name = some f := by
  rw [← Option.isSome_iff_exists, SourceUnit.func?, List.find?_isSome]
  exact ⟨g, hg, beq_self_eq_true _⟩

/-- What is kept while copies are made. -/
structure Unrolling.IsSound (u : SourceUnit) (acc : Unrolling) : Prop where
  taken : u.itemNames ⊆ acc.taken
  named : ∀ entry ∈ acc.copies, u.IsCopyName entry.2.name ∧ entry.2.name ∈ acc.taken
  nodup : (acc.copies.map fun entry => entry.2.name).Nodup
  /-- A copy calls only what the function calls, and nothing that leads back to it. -/
  calls : ∀ entry ∈ acc.copies, ∃ f ∈ u.funcs, ∀ name ∈ entry.2.calledNames,
    name ∈ f.calledNames ∧ name ∉ (CallGraph.ofUnit u).leadsTo entry.1

namespace Unrolling

variable {acc : Unrolling}

theorem IsSound.addCopy (h : acc.IsSound u) (callee : String) :
    (acc.addCopy u (CallGraph.ofUnit u) callee).IsSound u := by
  unfold Unrolling.addCopy
  split
  · exact h
  · exact h
  · next f hlookup hfunc =>
    have hfresh := freshName_notMem "" acc.taken (callee ++ unrolledEnding)
    have hf : f ∈ u.funcs := List.mem_of_find?_eq_some hfunc
    have hname : u.IsCopyName (freshName "" acc.taken (callee ++ unrolledEnding)) :=
      ⟨mem_toList_freshName (by simp [unrolledEnding]), fun hitem => hfresh (h.taken hitem)⟩
    refine ⟨fun name hname => List.mem_cons_of_mem _ (h.taken hname), ?_, ?_, ?_⟩
    · refine List.forall_mem_append.2 ⟨fun entry hentry => ?_, List.forall_mem_singleton.2 ?_⟩
      · exact (h.named entry hentry).imp_right (List.mem_cons_of_mem _)
      · exact ⟨hname, List.mem_cons_self⟩
    · rw [List.map_append, List.map_singleton]
      refine List.Nodup.append h.nodup (List.nodup_singleton _) ?_
      rw [List.disjoint_singleton]
      intro hmem
      obtain ⟨entry, hentry, heq⟩ := List.mem_map.1 hmem
      have htaken := (h.named entry hentry).2
      rw [heq] at htaken
      exact hfresh htaken
    · refine List.forall_mem_append.2 ⟨h.calls, List.forall_mem_singleton.2 ⟨f, hf, ?_⟩⟩
      exact Block.calledNames_cut _ f.body

theorem IsSound.foldl_addCopy (h : acc.IsSound u) (callees : List String) :
    (callees.foldl (Unrolling.addCopy u (CallGraph.ofUnit u)) acc).IsSound u :=
  List.foldlRecOn callees _ h fun _ hacc callee _ => hacc.addCopy callee

/-- A copy that was made is kept. -/
theorem lookup_addCopy {g : CallGraph} {callee name : String} {copy : FuncDef}
    (h : acc.copies.lookup name = some copy) :
    (acc.addCopy u g callee).copies.lookup name = some copy := by
  unfold Unrolling.addCopy
  split
  · exact h
  · exact h
  · rw [List.lookup_append, h, Option.some_or]

theorem lookup_foldl_addCopy {g : CallGraph} {name : String} {copy : FuncDef}
    (callees : List String) (h : acc.copies.lookup name = some copy) :
    (callees.foldl (addCopy u g) acc).copies.lookup name = some copy := by
  induction callees generalizing acc with
  | nil => exact h
  | cons callee rest ih => exact ih (lookup_addCopy h)

theorem exists_lookup_addCopy (acc : Unrolling) (g : CallGraph) {f : FuncDef} {callee : String}
    (hf : u.func? callee = some f) :
    ∃ copy, (acc.addCopy u g callee).copies.lookup callee = some copy := by
  unfold Unrolling.addCopy
  split
  · next copy hlookup => exact ⟨copy, hlookup⟩
  · next hfunc =>
    rw [hf] at hfunc
    cases hfunc
  · next hlookup _ =>
    rw [List.lookup_append, hlookup, Option.none_or]
    exact ⟨_, List.lookup_cons_self⟩

/-- Every defined callee has a copy in the end. -/
theorem exists_lookup_foldl_addCopy (acc : Unrolling) (g : CallGraph) {f : FuncDef}
    {callee : String} {callees : List String} (hf : u.func? callee = some f)
    (h : callee ∈ callees) :
    ∃ copy, (callees.foldl (addCopy u g) acc).copies.lookup callee = some copy := by
  induction callees generalizing acc with
  | nil => cases h
  | cons first rest ih =>
    rcases List.mem_cons.1 h with rfl | h
    · obtain ⟨copy, hcopy⟩ := exists_lookup_addCopy acc g hf
      exact ⟨copy, lookup_foldl_addCopy rest hcopy⟩
    · exact ih _ h

theorem mem_redirects {cycles : List (String × String)} {caller x name : String}
    (h : (x, name) ∈ acc.redirects cycles caller) :
    (caller, x) ∈ cycles ∧ ∃ copy, acc.copies.lookup x = some copy ∧ copy.name = name := by
  obtain ⟨⟨outer, callee⟩, hcycle, hentry⟩ := List.mem_filterMap.1 h
  simp only [Option.ite_none_right_eq_some, Option.map_eq_some_iff, Prod.mk.injEq] at hentry
  obtain ⟨rfl, copy, hcopy, rfl, rfl⟩ := hentry
  exact ⟨hcycle, copy, hcopy, rfl⟩

theorem redirects_of_mem {cycles : List (String × String)} {caller x : String} {copy : FuncDef}
    (hcycle : (caller, x) ∈ cycles) (hcopy : acc.copies.lookup x = some copy) :
    (x, copy.name) ∈ acc.redirects cycles caller := by
  refine List.mem_filterMap.2 ⟨(caller, x), hcycle, ?_⟩
  simp [hcopy]

end Unrolling

/-! ### The unrolled unit -/

/-- A function of the unrolled unit is one of the unit with its calls redirected, or a copy. -/
theorem SourceUnit.mem_funcs_unrolled (acc : Unrolling) (cycles : List (String × String))
    {F : FuncDef}
    (hF : .func F ∈ insertCopies acc.copies (u.mapItemsM (acc.redirectItem cycles)).value.items) :
    (∃ f ∈ u.funcs, F.name = f.name ∧ ∀ name ∈ F.calledNames, ∃ x ∈ f.calledNames,
      name = ((acc.redirects cycles f.name).lookup x).getD x) ∨
    ∃ entry ∈ acc.copies, F = entry.2 := by
  rcases mem_insertCopies hF with hitem | ⟨entry, hentry, heq⟩
  · have hitems := ensures_mapM (m := Counted) (f := acc.redirectItem cycles)
      (R := fun item item' => item' = (acc.redirectItem cycles item).value) u.items
      fun item _ => rfl
    have hall := forall_of_forall₂ (P := fun item' => ∃ item ∈ u.items,
      item' = (acc.redirectItem cycles item).value) hitems fun item h _ heq => ⟨item, h, heq⟩
    obtain ⟨item, hmem, heq⟩ := hall _ hitem
    cases item with
    | decl d => cases heq
    | func f =>
      cases heq
      exact .inl ⟨f, SourceUnit.mem_funcs.2 hmem, rfl, Block.calledNames_redirect _ f.body⟩
  · cases heq
    exact .inr ⟨entry, hentry, rfl⟩

namespace Unrolling

variable {acc : Unrolling} {cycles : List (String × String)} {caller name x : String}

theorem isSound_start (u : SourceUnit) : IsSound u ⟨u.itemNames, [], 0⟩ := by
  refine ⟨fun _ h => h, ?_, List.nodup_nil, ?_⟩ <;>
  · intro entry hentry
    cases hentry

/-- A call that does not go to a copy was there before and was not redirected. -/
theorem IsSound.eq_of_redirect (h : acc.IsSound u) (hname : ¬ u.IsCopyName name)
    (heq : name = ((acc.redirects cycles caller).lookup x).getD x) :
    name = x ∧ (acc.redirects cycles caller).lookup x = none := by
  cases hlookup : (acc.redirects cycles caller).lookup x with
  | none =>
    rw [hlookup, Option.getD_none] at heq
    exact ⟨heq, rfl⟩
  | some new =>
    rw [hlookup, Option.getD_some] at heq
    obtain ⟨-, copy, hcopy, rfl⟩ := mem_redirects (mem_of_lookup_eq_some hlookup)
    have hcopied := (h.named _ (mem_of_lookup_eq_some hcopy)).1
    exact absurd (heq ▸ hcopied) hname

/-- A call that goes to a copy now and did not before lies on a cycle. -/
theorem mem_cycles_of_redirect (hx : ¬ u.IsCopyName x) (hname : u.IsCopyName name)
    (heq : name = ((acc.redirects cycles caller).lookup x).getD x) :
    (caller, x) ∈ cycles ∧ ∃ copy, (x, copy) ∈ acc.copies ∧ copy.name = name := by
  cases hlookup : (acc.redirects cycles caller).lookup x with
  | none =>
    rw [hlookup, Option.getD_none] at heq
    exact absurd (heq ▸ hname) hx
  | some new =>
    rw [hlookup, Option.getD_some] at heq
    obtain ⟨hcycle, copy, hcopy, rfl⟩ := mem_redirects (mem_of_lookup_eq_some hlookup)
    exact ⟨hcycle, copy, mem_of_lookup_eq_some hcopy, heq.symm⟩

/-- A call along a cycle is redirected. -/
theorem lookup_redirects_ne_none {callees : List String} {g : FuncDef} {graph : CallGraph}
    (hacc : acc = callees.foldl (addCopy u graph) ⟨u.itemNames, [], 0⟩)
    (hg : g ∈ u.funcs) (hcallee : g.name ∈ callees) (hcycle : (caller, g.name) ∈ cycles) :
    (acc.redirects cycles caller).lookup g.name ≠ none := by
  obtain ⟨f, hf⟩ := SourceUnit.exists_func? hg
  obtain ⟨copy, hcopy⟩ : ∃ copy, acc.copies.lookup g.name = some copy := by
    rw [hacc]
    exact exists_lookup_foldl_addCopy _ graph hf hcallee
  intro hnone
  have hentry := List.lookup_eq_none_iff.1 hnone _ (redirects_of_mem hcycle hcopy)
  simp at hentry

/-- A copy calls no function whose calls go to it. -/
theorem IsSound.not_mem_calledNames (h : acc.IsSound u) (hknown : u.CallsKnown) {f : FuncDef}
    (hf : f ∈ u.funcs) {entry : String × FuncDef} (hentry : entry ∈ acc.copies)
    (hx : x ∈ f.calledNames)
    (heq : entry.2.name = ((acc.redirects (CallGraph.ofUnit u).cycles f.name).lookup x).getD x) :
    f.name ∉ entry.2.calledNames := by
  intro hcalled
  obtain ⟨hcycle, copy, hcopy, hname⟩ :=
    mem_cycles_of_redirect (hknown.not_isCopyName hf hx) (h.named entry hentry).1 heq
  -- The copy is the one made for the called function, since copies have distinct names.
  have hsame : (x, copy) = entry := List.inj_on_of_nodup_map h.nodup hcopy hentry hname
  subst hsame
  obtain ⟨k, -, hcalls⟩ := h.calls _ hentry
  obtain ⟨hmem, -, hcall⟩ := CallGraph.mem_cycles hcycle
  exact (hcalls _ hcalled).2 (CallGraph.mem_leadsTo hmem hcall)

end Unrolling

/-- No function of the unrolled unit calls one that calls it back. -/
theorem SourceUnit.not_calls_back (hnodup : (u.funcs.map FuncDef.name).Nodup)
    (hknown : u.CallsKnown) {a b : String} (hab : u.unrollRecursion.1.Calls a b) :
    ¬ u.unrollRecursion.1.Calls b a := by
  obtain ⟨acc, hacc⟩ : ∃ acc, acc =
      ((CallGraph.ofUnit u).cycles.map Prod.snd).foldl (Unrolling.addCopy u (CallGraph.ofUnit u))
        ⟨u.itemNames, [], 0⟩ := ⟨_, rfl⟩
  have hsound : acc.IsSound u := hacc ▸ (Unrolling.isSound_start u).foldl_addCopy _
  have hfuncs {F : FuncDef} (hF : F ∈ u.unrollRecursion.1.funcs) :=
    SourceUnit.mem_funcs_unrolled (u := u) acc (CallGraph.ofUnit u).cycles (F := F)
      (hacc ▸ SourceUnit.mem_funcs.1 hF)
  -- A copy and what it calls.
  have hcopy {entry : String × FuncDef} {G : FuncDef} (hentry : entry ∈ acc.copies)
      (hG : G ∈ u.unrollRecursion.1.funcs) (hab : G.name ∈ entry.2.calledNames)
      (hba : entry.2.name ∈ G.calledNames) : False := by
    obtain ⟨k, hk, hcalls⟩ := hsound.calls entry hentry
    have hnot := hknown.not_isCopyName hk (hcalls _ hab).1
    rcases hfuncs hG with ⟨g, hg, hname, hcalled⟩ | ⟨entry', hentry', rfl⟩
    · obtain ⟨x, hx, heq⟩ := hcalled _ hba
      exact hsound.not_mem_calledNames hknown hg hentry hx heq (hname ▸ hab)
    · exact hnot (hsound.named entry' hentry').1
  intro hba
  obtain ⟨F, hF, rfl, hFb, -⟩ := hab
  obtain ⟨G, hG, rfl, hGa, -⟩ := hba
  rcases hfuncs hF with ⟨f, hf, hFname, hFcalled⟩ | ⟨entry, hentry, rfl⟩
  · rcases hfuncs hG with ⟨g, hg, hGname, hGcalled⟩ | ⟨entry, hentry, rfl⟩
    · obtain ⟨x, hx, heqx⟩ := hFcalled _ hFb
      obtain ⟨y, hy, heqy⟩ := hGcalled _ hGa
      rw [hGname] at heqx
      rw [hFname] at heqy
      obtain ⟨rfl, hnonex⟩ := hsound.eq_of_redirect (not_isCopyName_name hg) heqx
      obtain ⟨rfl, hnoney⟩ := hsound.eq_of_redirect (not_isCopyName_name hf) heqy
      have hforder : f.name ∈ u.funcs.map FuncDef.name := List.mem_map_of_mem hf
      have hgorder : g.name ∈ u.funcs.map FuncDef.name := List.mem_map_of_mem hg
      rcases CallGraph.mem_cycles_or hforder hgorder
        (CallGraph.hasCall_of_mem hnodup hf hx hgorder)
        (CallGraph.hasCall_of_mem hnodup hg hy hforder) with hcycle | hcycle
      · exact Unrolling.lookup_redirects_ne_none hacc hg (List.mem_map.2 ⟨_, hcycle, rfl⟩) hcycle
          hnonex
      · exact Unrolling.lookup_redirects_ne_none hacc hf (List.mem_map.2 ⟨_, hcycle, rfl⟩) hcycle
          hnoney
    · exact hcopy hentry hF hGa hFb
  · exact hcopy hentry hG hFb hGa

/-- No short cycle is left. -/
theorem SourceUnit.cycles_unrollRecursion (hnodup : (u.funcs.map FuncDef.name).Nodup)
    (hknown : u.CallsKnown) : (CallGraph.ofUnit u.unrollRecursion.1).cycles = [] :=
  CallGraph.cycles_eq_nil fun _ _ hab hba => not_calls_back hnodup hknown
    (CallGraph.exists_of_hasCall hab) (CallGraph.exists_of_hasCall hba)

/-- The callee of a cycle is a function of the unit that gets a copy. -/
theorem SourceUnit.exists_copy_of_mem_cycles {cycle : String × String}
    (hcycle : cycle ∈ (CallGraph.ofUnit u).cycles) :
    ∃ g ∈ u.funcs, ∃ copy, (((CallGraph.ofUnit u).cycles.map Prod.snd).foldl
      (Unrolling.addCopy u (CallGraph.ofUnit u))
      ⟨u.itemNames, [], 0⟩).copies.lookup g.name = some copy := by
  obtain ⟨-, hcallee, -⟩ := CallGraph.mem_cycles (a := cycle.1) (b := cycle.2) hcycle
  obtain ⟨g, hg, hname⟩ := List.mem_map.1 hcallee
  obtain ⟨f, hf⟩ := SourceUnit.exists_func? hg
  exact ⟨g, hg, Unrolling.exists_lookup_foldl_addCopy _ _ hf
    (List.mem_map.2 ⟨cycle, hcycle, hname.symm⟩)⟩

/-- A cycle gets a copy, so without copies there was none. -/
theorem SourceUnit.cycles_eq_nil_of_inserted (h : u.unrollRecursion.2.inserted = 0) :
    (CallGraph.ofUnit u).cycles = [] := by
  refine List.eq_nil_iff_forall_not_mem.2 fun cycle hcycle => ?_
  obtain ⟨g, -, copy, hcopy⟩ := exists_copy_of_mem_cycles hcycle
  have hnone : _ = [] := List.eq_nil_of_length_eq_zero h
  rw [hnone] at hcopy
  cases hcopy

end MathKernel
