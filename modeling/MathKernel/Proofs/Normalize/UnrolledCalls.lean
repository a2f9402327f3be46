import Mathlib.Logic.Relation
import MathKernel.Proofs.Normalize.Recursion
import MathKernel.Proofs.Normalize.Unchanged

/-!
# Calls of an unrolled unit

Unrolling keeps every item in its place and puts each copy right after the function that it
copies. A chain of calls in the unrolled unit is one in the unit, if each copy is taken for the
function it copies. A copy calls nothing from which a chain leads to that function, so no chain
leads from a copy back to it, however long.

## Main definitions

* `SourceUnit.unrolling` — the copies that unrolling makes
* `FuncDef.unrolledCopy` — a function under a new name, without the calls that lead back to it
* `Item.unrolled` — the items that stand for one
* `Unrolling.StandsFor` — a function of the unrolled unit and the one it is or copies

## Main results

* `CallGraph.mem_reachable_iff` — the work list finds what chains of calls lead to
* `SourceUnit.items_unrollRecursion` — copies stand after the functions they copy
* `SourceUnit.exists_chain` — chains of calls in the unrolled unit are chains in the unit
* `SourceUnit.unrollRecursion_removes_cycles` — what unrolling does to a unit
-/

namespace MathKernel

variable {u : SourceUnit} {a b x : String}

/-! ### Chains of calls -/

namespace CallGraph

/-- The graph has the calls of the unit. -/
theorem mem_callees_iff (hnodup : (u.funcs.map FuncDef.name).Nodup) :
    b ∈ (ofUnit u).callees a ↔ u.Calls a b := by
  constructor
  · intro h
    exact exists_of_hasCall (by simpa [hasCall] using h)
  · rintro ⟨f, hf, rfl, hb, horder⟩
    exact mem_callees hnodup hf hb horder

theorem callees_subset_order (u : SourceUnit) (a : String) :
    (ofUnit u).callees a ⊆ (ofUnit u).order := by
  intro b hb
  obtain ⟨-, -, -, -, horder⟩ := exists_of_hasCall (u := u) (a := a) (by simpa [hasCall] using hb)
  exact horder

/-- The functions that are found are those that one or more calls lead to. -/
theorem mem_reachable_iff (hnodup : (u.funcs.map FuncDef.name).Nodup) :
    x ∈ (ofUnit u).reachable a ↔ Relation.TransGen u.Calls a x := by
  have hstep : (fun a b => b ∈ (ofUnit u).callees a) = u.Calls := by
    ext a b
    exact mem_callees_iff hnodup
  rw [reachable, mem_closure_iff (fun a _ => callees_subset_order u a) (callees_subset_order u a),
    hstep, Relation.TransGen.head'_iff]
  simp only [mem_callees_iff hnodup]

/-- A chain of calls that ends in a function starts in one that leads to it. -/
theorem mem_leadsTo_of_chain (hnodup : (u.funcs.map FuncDef.name).Nodup)
    (ha : a ∈ u.funcs.map FuncDef.name) (h : Relation.ReflTransGen u.Calls a x) :
    a ∈ (ofUnit u).leadsTo x := by
  refine List.mem_filter.2 ⟨ha, ?_⟩
  rcases Relation.reflTransGen_iff_eq_or_transGen.1 h with rfl | h
  · simp
  · simp [(mem_reachable_iff hnodup).2 h]

end CallGraph

/-! ### The copies -/

/-- The copies that unrolling makes, for the called function of each cycle. -/
def SourceUnit.unrolling (u : SourceUnit) : Unrolling :=
  ((CallGraph.ofUnit u).cycles.map Prod.snd).foldl (Unrolling.addCopy u (CallGraph.ofUnit u))
    ⟨u.itemNames, [], 0⟩

theorem SourceUnit.isSound_unrolling (u : SourceUnit) : u.unrolling.IsSound u :=
  (Unrolling.isSound_start u).foldl_addCopy _

/-- The function under another name, with the calls that lead back to it cut off. -/
def FuncDef.unrolledCopy (g : CallGraph) (f : FuncDef) (name : String) : FuncDef :=
  { f with
    decl := f.decl.rename name
    body := (f.body.bottomUpM (Counted.replace (Expr.cutCall? (g.leadsTo f.name)))).value }

namespace Unrolling

variable {acc : Unrolling} {g : CallGraph}

/-- Every entry is a copy of the function it is listed under. -/
def HasCopies (u : SourceUnit) (g : CallGraph) (acc : Unrolling) : Prop :=
  ∀ x copy, (x, copy) ∈ acc.copies →
    ∃ f ∈ u.funcs, f.name = x ∧ copy = f.unrolledCopy g copy.name

theorem HasCopies.addCopy (h : acc.HasCopies u g) (callee : String) :
    (acc.addCopy u g callee).HasCopies u g := by
  unfold Unrolling.addCopy
  split
  · exact h
  · exact h
  · next f _ hfunc =>
    have hname : f.name = callee := by simpa using List.find?_some hfunc
    intro x copy hcopy
    rcases List.mem_append.1 hcopy with hcopy | hcopy
    · exact h x copy hcopy
    · obtain ⟨rfl, rfl⟩ := Prod.mk.inj (List.mem_singleton.1 hcopy)
      subst hname
      exact ⟨f, List.mem_of_find?_eq_some hfunc, rfl, rfl⟩

end Unrolling

theorem SourceUnit.hasCopies_unrolling (u : SourceUnit) :
    u.unrolling.HasCopies u (CallGraph.ofUnit u) := by
  have hstart : Unrolling.HasCopies u (CallGraph.ofUnit u)
      ⟨u.itemNames, [], 0⟩ := by
    intro x copy hcopy
    cases hcopy
  exact List.foldlRecOn _ _ hstart fun _ hacc callee _ => hacc.addCopy callee

/-- With unique names a copy is listed under the name of its function only. -/
theorem SourceUnit.eq_unrolledCopy (hnodup : (u.funcs.map FuncDef.name).Nodup) {f copy : FuncDef}
    (hf : f ∈ u.funcs) (hcopy : (f.name, copy) ∈ u.unrolling.copies) :
    copy = f.unrolledCopy (CallGraph.ofUnit u) copy.name := by
  obtain ⟨k, hk, hname, heq⟩ := u.hasCopies_unrolling _ _ hcopy
  have hsame : k = f := List.inj_on_of_nodup_map hnodup hk hf hname
  rw [hsame] at heq
  exact heq

/-! ### The place of a copy -/

/-- The items that stand for one: a function with its new body, and its copy right after it. -/
def Item.unrolled (bodyOf : FuncDef → Block) (copyOf : FuncDef → Option FuncDef) :
    Item → List Item
  | .decl d => [.decl d]
  | .func f => .func { f with body := bodyOf f } :: (copyOf f).toList.map .func

theorem lookup_filter_ne {α : Type} {entries : List (String × α)} {name other : String}
    (h : name ≠ other) : (entries.filter (·.1 != other)).lookup name = entries.lookup name := by
  induction entries with
  | nil => rfl
  | cons entry rest ih =>
    by_cases hentry : entry.1 = other
    · have hkey : (name == entry.1) = false := by simp [hentry, h]
      rw [List.filter_cons_of_neg (by simp [hentry]), List.lookup_cons, hkey, ih]
    · rw [List.filter_cons_of_pos (by simp [hentry]), List.lookup_cons, List.lookup_cons, ih]

/-- If no name is defined twice, every copy is put after the function it is listed under. -/
theorem insertCopies_eq_flatMap (copies : List (String × FuncDef)) {items : List Item}
    (hnodup : ((⟨items, none⟩ : SourceUnit).funcs.map FuncDef.name).Nodup) :
    insertCopies copies items =
      items.flatMap (Item.unrolled FuncDef.body fun f => copies.lookup f.name) := by
  induction items generalizing copies with
  | nil => rfl
  | cons item rest ih =>
    rw [List.flatMap_cons]
    cases item with
    | decl d =>
      rw [insertCopies, ih copies hnodup]
      rfl
    | func f =>
      obtain ⟨hfirst, hrest⟩ := List.nodup_cons.1 hnodup
      cases hcopy : copies.lookup f.name with
      | none =>
        simp only [insertCopies, hcopy, Item.unrolled]
        rw [ih copies hrest]
        rfl
      | some copy =>
        simp only [insertCopies, hcopy, Item.unrolled]
        rw [ih _ hrest]
        -- The entry that was used is gone, but no later function looks for it.
        have hlater : ∀ item ∈ rest,
            item.unrolled FuncDef.body
                (fun k => (copies.filter (·.1 != f.name)).lookup k.name) =
              item.unrolled FuncDef.body fun k => copies.lookup k.name := by
          intro item hitem
          cases item with
          | decl d => rfl
          | func k =>
            have hne : k.name ≠ f.name := by
              intro heq
              have hk : k ∈ (⟨rest, none⟩ : SourceUnit).funcs := SourceUnit.mem_funcs.2 hitem
              exact hfirst (heq ▸ List.mem_map_of_mem hk)
            simp only [Item.unrolled, lookup_filter_ne hne]
        rw [List.flatMap_congr hlater]
        rfl

namespace Unrolling

/-- The body of a function with its calls redirected. -/
def redirectedBody (acc : Unrolling) (cycles : List (String × String)) (f : FuncDef) : Block :=
  (f.body.bottomUpM
    (Counted.replace (Expr.redirectCall? (acc.redirects cycles f.name)))).value

end Unrolling

/-- The items of the unrolled unit: those of the unit, each copy after its function. -/
theorem SourceUnit.items_unrollRecursion (hnodup : (u.funcs.map FuncDef.name).Nodup) :
    u.unrollRecursion.1.items = u.items.flatMap
      (Item.unrolled (u.unrolling.redirectedBody (CallGraph.ofUnit u).cycles)
        fun f => u.unrolling.copies.lookup f.name) := by
  have hredirected :
      (u.mapItemsM (u.unrolling.redirectItem (CallGraph.ofUnit u).cycles)).value.items =
        u.items.map fun item => (u.unrolling.redirectItem (CallGraph.ofUnit u).cycles item).value :=
    Counted.value_mapM _ u.items
  have hnames : ((⟨u.items.map fun item =>
      (u.unrolling.redirectItem (CallGraph.ofUnit u).cycles item).value, none⟩ :
        SourceUnit).funcs.map FuncDef.name) = u.funcs.map FuncDef.name := by
    rw [funcs, List.filterMap_map, List.map_filterMap, funcs, List.map_filterMap]
    refine List.filterMap_congr fun item _ => ?_
    cases item <;> rfl
  change insertCopies u.unrolling.copies
    (u.mapItemsM (u.unrolling.redirectItem (CallGraph.ofUnit u).cycles)).value.items = _
  rw [hredirected, insertCopies_eq_flatMap _ (hnames ▸ hnodup), List.flatMap_map]
  refine List.flatMap_congr fun item _ => ?_
  cases item <;> rfl

/-! ### Chains of calls after unrolling -/

namespace Unrolling

variable {acc : Unrolling}

/-- A function of the unrolled unit stands for one of the unit: itself, or the one it copies. -/
def StandsFor (u : SourceUnit) (acc : Unrolling) (a x : String) : Prop :=
  x ∈ u.funcs.map FuncDef.name ∧ (a = x ∨ ∃ copy, (x, copy) ∈ acc.copies ∧ copy.name = a)

/-- A copy stands for the function it copies and for no other. -/
theorem IsSound.eq_of_standsFor (h : acc.IsSound u) {copy : FuncDef}
    (hcopy : (x, copy) ∈ acc.copies) {y : String} (hy : acc.StandsFor u copy.name y) : y = x := by
  obtain ⟨hfunc, heq | ⟨copy', hcopy', hname⟩⟩ := hy
  · obtain ⟨f, hf, hname⟩ := List.mem_map.1 hfunc
    have hcopied := (h.named _ hcopy).1
    rw [heq, ← hname] at hcopied
    exact absurd hcopied (SourceUnit.not_isCopyName_name hf)
  · have hsame : (y, copy') = (x, copy) := List.inj_on_of_nodup_map h.nodup hcopy' hcopy hname
    exact congrArg Prod.fst hsame

end Unrolling

namespace SourceUnit

theorem mem_funcs_unrollRecursion {F : FuncDef} (hF : F ∈ u.unrollRecursion.1.funcs) :
    (∃ f ∈ u.funcs, F.name = f.name ∧ ∀ name ∈ F.calledNames, ∃ x ∈ f.calledNames,
      name = ((u.unrolling.redirects (CallGraph.ofUnit u).cycles f.name).lookup x).getD x) ∨
    ∃ entry ∈ u.unrolling.copies, F = entry.2 :=
  mem_funcs_unrolled u.unrolling _ (mem_funcs.1 hF)

/-- A name of the unrolled unit that no copy can have is that of a function of the unit. -/
theorem mem_funcs_of_not_isCopyName (hb : b ∈ u.unrollRecursion.1.funcs.map FuncDef.name)
    (hname : ¬ u.IsCopyName b) : b ∈ u.funcs.map FuncDef.name := by
  obtain ⟨F, hF, rfl⟩ := List.mem_map.1 hb
  rcases mem_funcs_unrollRecursion hF with ⟨f, hf, heq, -⟩ | ⟨entry, hentry, rfl⟩
  · rw [heq]
    exact List.mem_map_of_mem hf
  · exact absurd (u.isSound_unrolling.named entry hentry).1 hname

/-- A copy calls only functions of the unit, and none that leads back to its own function. -/
theorem calls_of_copy (hknown : u.CallsKnown) {copy : FuncDef}
    (hcopy : (x, copy) ∈ u.unrolling.copies) (hb : b ∈ copy.calledNames)
    (hdefined : b ∈ u.unrollRecursion.1.funcs.map FuncDef.name) :
    u.Calls x b ∧ b ∉ (CallGraph.ofUnit u).leadsTo x := by
  obtain ⟨f, hf, hfname, heq⟩ := u.hasCopies_unrolling _ _ hcopy
  rw [heq] at hb
  obtain ⟨hcalled, hleads⟩ := Block.calledNames_cut _ f.body b hb
  rw [hfname] at hleads
  have hfunc := mem_funcs_of_not_isCopyName hdefined (hknown.not_isCopyName hf hcalled)
  exact ⟨⟨f, hf, hfname, hcalled, hfunc⟩, hleads⟩

/-- A call in the unrolled unit is one between the functions that caller and callee stand for. -/
theorem exists_call (hknown : u.CallsKnown) (hcall : u.unrollRecursion.1.Calls a b)
    (ha : u.unrolling.StandsFor u a x) :
    ∃ y, u.unrolling.StandsFor u b y ∧ u.Calls x y := by
  obtain ⟨F, hF, rfl, hb, hdefined⟩ := hcall
  rcases mem_funcs_unrollRecursion hF with ⟨f, hf, hname, hcalled⟩ | ⟨entry, hentry, rfl⟩
  · -- An original function stands for itself, and its call may have been sent to a copy.
    have hx : x = f.name := by
      obtain ⟨-, heq | ⟨copy, hcopy, heq⟩⟩ := ha
      · rw [← heq, hname]
      · have hcopied := (u.isSound_unrolling.named _ hcopy).1
        rw [heq, hname] at hcopied
        exact absurd hcopied (not_isCopyName_name hf)
    obtain ⟨y, hy, heq⟩ := hcalled b hb
    have hynot := hknown.not_isCopyName hf hy
    by_cases hcopied : u.IsCopyName b
    · obtain ⟨hcycle, copy, hcopy, hcname⟩ := Unrolling.mem_cycles_of_redirect hynot hcopied heq
      obtain ⟨-, hyfunc, -⟩ := CallGraph.mem_cycles hcycle
      exact ⟨y, ⟨hyfunc, .inr ⟨copy, hcopy, hcname⟩⟩, f, hf, hx.symm, hy, hyfunc⟩
    · obtain ⟨rfl, -⟩ := u.isSound_unrolling.eq_of_redirect hcopied heq
      have hfunc := mem_funcs_of_not_isCopyName hdefined hcopied
      exact ⟨b, ⟨hfunc, .inl rfl⟩, f, hf, hx.symm, hy, hfunc⟩
  · obtain ⟨target, copy⟩ := entry
    obtain rfl := u.isSound_unrolling.eq_of_standsFor hentry ha
    obtain ⟨⟨f, hf, hname, hcalled, hfunc⟩, -⟩ := calls_of_copy hknown hentry hb hdefined
    exact ⟨b, ⟨hfunc, .inl rfl⟩, f, hf, hname, hcalled, hfunc⟩

/-- A chain of calls in the unrolled unit shows a chain of calls in the unit. -/
theorem exists_chain (hknown : u.CallsKnown)
    (hchain : Relation.ReflTransGen u.unrollRecursion.1.Calls a b)
    (ha : u.unrolling.StandsFor u a x) :
    ∃ y, u.unrolling.StandsFor u b y ∧ Relation.ReflTransGen u.Calls x y := by
  induction hchain with
  | refl => exact ⟨x, ha, .refl⟩
  | tail _ hcall ih =>
    obtain ⟨y, hy, hxy⟩ := ih
    obtain ⟨z, hz, hyz⟩ := exists_call hknown hcall hy
    exact ⟨z, hz, hxy.tail hyz⟩

/-- No chain of calls leads from a copy back to it. -/
theorem not_chain_of_copy (hnodup : (u.funcs.map FuncDef.name).Nodup) (hknown : u.CallsKnown)
    {copy : FuncDef} (hcopy : (x, copy) ∈ u.unrolling.copies) :
    ¬ Relation.TransGen u.unrollRecursion.1.Calls copy.name copy.name := by
  intro hcycle
  obtain ⟨b, hcall, hback⟩ := Relation.TransGen.head'_iff.1 hcycle
  obtain ⟨F, hF, hname, hb, hdefined⟩ := hcall
  -- Nothing else has the copy's name.
  have hsame : F = copy := by
    rcases mem_funcs_unrollRecursion hF with ⟨f, hf, hfname, -⟩ | ⟨entry, hentry, rfl⟩
    · have hcopied := (u.isSound_unrolling.named _ hcopy).1
      rw [← hname, hfname] at hcopied
      exact absurd hcopied (not_isCopyName_name hf)
    · have heq := List.inj_on_of_nodup_map u.isSound_unrolling.nodup hentry hcopy hname
      exact congrArg Prod.snd heq
  subst hsame
  obtain ⟨⟨-, -, -, -, hfunc⟩, hleads⟩ := calls_of_copy hknown hcopy hb hdefined
  obtain ⟨y, hy, hchain⟩ := exists_chain hknown hback ⟨hfunc, .inl rfl⟩
  obtain rfl := u.isSound_unrolling.eq_of_standsFor hcopy hy
  exact hleads (CallGraph.mem_leadsTo_of_chain hnodup hfunc hchain)

/-- A unit in which no function calls one that calls it back is left alone. -/
theorem unrollRecursion_eq_self_of_calls (h : ∀ a b, u.Calls a b → ¬ u.Calls b a) :
    u.unrollRecursion = (u, .zero) := by
  refine unrollRecursion_eq_self (CallGraph.cycles_eq_nil fun a b hab hba => ?_)
  exact h a b (CallGraph.exists_of_hasCall hab) (CallGraph.exists_of_hasCall hba)

/-- What unrolling does to a unit whose functions have distinct names and call known functions.
Every item stays where it was, a function with the same declaration, and each copy stands right
after the function it copies, under a name that no item has. No function calls itself, no two
call each other, and no copy is on a cycle of calls. A unit without such short cycles is left
alone, whatever longer ones it has. -/
theorem unrollRecursion_removes_cycles (hnodup : (u.funcs.map FuncDef.name).Nodup)
    (hknown : u.CallsKnown) :
    (∃ bodyOf copyOf,
      u.unrollRecursion.1.items = u.items.flatMap (Item.unrolled bodyOf copyOf) ∧
      ∀ f ∈ u.funcs, ∀ copy ∈ copyOf f,
        copy = f.unrolledCopy (CallGraph.ofUnit u) copy.name ∧
        copy.name ∉ u.itemNames ∧
        ¬ Relation.TransGen u.unrollRecursion.1.Calls copy.name copy.name) ∧
    (∀ a, ¬ u.unrollRecursion.1.Calls a a) ∧
    (∀ a b, u.unrollRecursion.1.Calls a b → ¬ u.unrollRecursion.1.Calls b a) ∧
    ((∀ a b, u.Calls a b → ¬ u.Calls b a) → u.unrollRecursion = (u, .zero)) := by
  refine ⟨⟨_, _, items_unrollRecursion hnodup, ?_⟩, ?_, ?_, unrollRecursion_eq_self_of_calls⟩
  · intro f hf copy hcopy
    have hentry := mem_of_lookup_eq_some hcopy
    exact ⟨eq_unrolledCopy hnodup hf hentry, (u.isSound_unrolling.named _ hentry).1.2,
      not_chain_of_copy hnodup hknown hentry⟩
  · exact fun a haa => not_calls_back hnodup hknown haa haa
  · exact fun a b hab => not_calls_back hnodup hknown hab

/-- A function that calls itself and two others: one calls it back, the other closes a longer
cycle. -/
def knotted : SourceUnit :=
  let x := Expr.id "x" none
  let calling (name : String) (value : Expr) : Item := .func
    { decl := .prototype name .float [.ofScalar "x" .float none]
      body := ⟨[.ret (some value) none], none⟩
      coord := none }
  ⟨[calling "f" (.call "f" [.call "g" [.call "h" [x] none] none] none),
    .decl (.ofScalar "f_unrolled" .float none),
    calling "g" (.call "f" [x] none),
    calling "h" (.call "k" [.call "sin" [x] none] none),
    calling "k" (.call "f" [x] none)], none⟩

/-- Three functions that call each other in a ring. -/
def callRing : SourceUnit :=
  let calling (name callee : String) : Item := .func
    { decl := .prototype name .float [.ofScalar "x" .float none]
      body := ⟨[.ret (some (.call callee [.id "x" none] none)) none], none⟩
      coord := none }
  ⟨[calling "f" "g", calling "g" "h", calling "h" "f"], none⟩

theorem unrollRecursion_removes_cycles_knotted :
    knotted.unrollRecursion.1.items.filterMap Item.name? =
        ["f", "f_unrolled2", "f_unrolled", "g", "g_unrolled", "h", "k"] ∧
      (∃ bodyOf copyOf,
        knotted.unrollRecursion.1.items = knotted.items.flatMap (Item.unrolled bodyOf copyOf) ∧
        ∀ f ∈ knotted.funcs, ∀ copy ∈ copyOf f,
          ¬ Relation.TransGen knotted.unrollRecursion.1.Calls copy.name copy.name) ∧
      (∀ a b, knotted.unrollRecursion.1.Calls a b → ¬ knotted.unrollRecursion.1.Calls b a) ∧
      callRing.unrollRecursion = (callRing, .zero) := by
  have hnodup : (knotted.funcs.map FuncDef.name).Nodup := by decide
  have hknown : knotted.CallsKnown := by decide +kernel
  obtain ⟨⟨bodyOf, copyOf, hitems, hcopies⟩, -, hback, -⟩ :=
    unrollRecursion_removes_cycles hnodup hknown
  have hring : ∀ f ∈ callRing.funcs, ∀ g ∈ callRing.funcs, g.name ∈ f.calledNames →
      f.name ∉ g.calledNames := by decide
  refine ⟨by decide +kernel, ⟨bodyOf, copyOf, hitems, ?_⟩, hback, ?_⟩
  · exact fun f hf copy hcopy => (hcopies f hf copy hcopy).2.2
  · refine (unrollRecursion_removes_cycles (u := callRing) (by decide) (by decide +kernel)).2.2.2 ?_
    rintro a b ⟨f, hf, rfl, hb, -⟩ ⟨g, hg, rfl, ha, -⟩
    exact hring f hf g hg hb ha

end SourceUnit

end MathKernel
