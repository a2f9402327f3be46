import MathKernel.Proofs.Normalize.SentBodies
import MathKernel.Proofs.Normalize.UnrolledCalls

/-!
# Functions and names of an unrolled unit

An unrolled unit defines every function of the unit, with redirected calls, and the copies. It knows
the same variables, and the same functions besides the copies, each of which is declared as the
function that it copies.

## Main definitions

* `SourceUnit.OnlySelfCalls` — functions that call each other in a circle are one function
* `SourceUnit.DeclaresFunctions` — the declarations of each function agree
* `SourceUnit.redirectTarget`, `SourceUnit.cutTarget` — where calls are sent in a body and in a copy

## Main results

* `SourceUnit.func?_redirected`, `SourceUnit.func?_copy` — the functions of the unrolled unit
* `SourceUnit.vars_unrollRecursion`, `SourceUnit.signature?_unrollRecursion` — its names
* `SourceUnit.body_redirected`, `SourceUnit.body_copy` — its bodies
* `SourceUnit.exists_copy` — what calls itself has a copy
-/

namespace MathKernel

variable {u : SourceUnit} {f copy : FuncDef} {name : String}

/-! ### Functions -/

namespace SourceUnit

/-- A function of the unit with its calls redirected. -/
def redirected (u : SourceUnit) (f : FuncDef) : FuncDef :=
  { f with body := u.unrolling.redirectedBody (CallGraph.ofUnit u).cycles f }

/-- The functions of the unrolled unit. -/
theorem mem_funcs_unrollRecursion_iff (hnodup : (u.funcs.map FuncDef.name).Nodup) {F : FuncDef} :
    F ∈ u.unrollRecursion.1.funcs ↔
      ∃ f ∈ u.funcs, F = u.redirected f ∨ u.unrolling.copies.lookup f.name = some F := by
  rw [mem_funcs, items_unrollRecursion hnodup, List.mem_flatMap]
  constructor
  · rintro ⟨item, hitem, hF⟩
    cases item with
    | decl d =>
      rw [Item.unrolled, List.mem_singleton] at hF
      cases hF
    | func f =>
      refine ⟨f, mem_funcs.2 hitem, ?_⟩
      rcases List.mem_cons.1 hF with heq | hF
      · cases heq
        exact .inl rfl
      · obtain ⟨copy, hcopy, heq⟩ := List.mem_map.1 hF
        cases heq
        exact .inr (Option.mem_toList.1 hcopy)
  · rintro ⟨f, hf, rfl | hcopy⟩
    · exact ⟨.func f, mem_funcs.1 hf, List.mem_cons_self⟩
    · exact ⟨.func f, mem_funcs.1 hf, List.mem_cons_of_mem _
        (List.mem_map.2 ⟨F, Option.mem_toList.2 hcopy, rfl⟩)⟩

/-- A function is found if no other one has its name. -/
theorem func?_eq_some (hf : f ∈ u.funcs) (h : ∀ g ∈ u.funcs, g.name = f.name → g = f) :
    u.func? f.name = some f := by
  obtain ⟨g, hg⟩ := exists_func? hf
  have hname : g.name = f.name := by simpa using List.find?_some hg
  rw [hg, h g (List.mem_of_find?_eq_some hg) hname]

theorem func?_eq_none (h : name ∉ u.funcs.map FuncDef.name) : u.func? name = none := by
  refine List.find?_eq_none.2 fun f hf heq => h ?_
  exact List.mem_map.2 ⟨f, hf, by simpa using heq⟩

theorem func?_unknown (h : name ∉ u.funcs.map FuncDef.name) (hname : ¬u.IsCopyName name) :
    u.unrollRecursion.1.func? name = none :=
  func?_eq_none fun hmem => h (mem_funcs_of_not_isCopyName hmem hname)

section Functions

variable (hnodup : (u.funcs.map FuncDef.name).Nodup)
include hnodup

theorem func?_of_mem (hf : f ∈ u.funcs) : u.func? f.name = some f :=
  func?_eq_some hf fun _ hg hname => List.inj_on_of_nodup_map hnodup hg hf hname

/-- A function of the unit is found with its new body. -/
theorem func?_redirected (hf : f ∈ u.funcs) :
    u.unrollRecursion.1.func? f.name = some (u.redirected f) := by
  have hmem := (mem_funcs_unrollRecursion_iff hnodup).2 ⟨f, hf, .inl rfl⟩
  refine func?_eq_some (f := u.redirected f) hmem fun F hF hname => ?_
  obtain ⟨g, hg, rfl | hcopy⟩ := (mem_funcs_unrollRecursion_iff hnodup).1 hF
  · rw [List.inj_on_of_nodup_map hnodup hg hf hname]
  · have hcopied := (u.isSound_unrolling.named _ (mem_of_lookup_eq_some hcopy)).1
    exact absurd (hname ▸ hcopied) (not_isCopyName_name hf)

theorem func?_copy (hf : f ∈ u.funcs) (hcopy : u.unrolling.copies.lookup f.name = some copy) :
    u.unrollRecursion.1.func? copy.name = some copy := by
  have hentry := mem_of_lookup_eq_some hcopy
  have hmem := (mem_funcs_unrollRecursion_iff hnodup).2 ⟨f, hf, .inr hcopy⟩
  refine func?_eq_some hmem fun F hF hname => ?_
  obtain ⟨g, hg, rfl | hcopy'⟩ := (mem_funcs_unrollRecursion_iff hnodup).1 hF
  · have hcopied := (u.isSound_unrolling.named _ hentry).1
    exact absurd (hname ▸ hcopied) (not_isCopyName_name hg)
  · exact congrArg Prod.snd (List.inj_on_of_nodup_map u.isSound_unrolling.nodup
      (mem_of_lookup_eq_some hcopy') hentry hname)

end Functions

end SourceUnit

/-! ### Names -/

/-- The declaration of the copy that stands after an item. -/
def Item.copyDecl? (copyOf : FuncDef → Option FuncDef) : Item → Option Decl
  | .decl _ => none
  | .func f => (copyOf f).map FuncDef.decl

theorem Item.map_toDecl_unrolled (bodyOf : FuncDef → Block) (copyOf : FuncDef → Option FuncDef)
    (item : Item) :
    (item.unrolled bodyOf copyOf).map Item.toDecl =
      item.toDecl :: (item.copyDecl? copyOf).toList := by
  cases item with
  | decl d => rfl
  | func f =>
    rw [unrolled, copyDecl?, List.map_cons]
    cases copyOf f <;> rfl

/-- What is taken from no copy is taken from the unrolled items as from the items. -/
theorem filterMap_toDecl_unrolled {α : Type} (g : Decl → Option α) (bodyOf : FuncDef → Block)
    (copyOf : FuncDef → Option FuncDef) (items : List Item)
    (h : ∀ item ∈ items, ∀ d ∈ item.copyDecl? copyOf, g d = none) :
    ((items.flatMap (Item.unrolled bodyOf copyOf)).map Item.toDecl).reverse.filterMap g =
      (items.map Item.toDecl).reverse.filterMap g := by
  rw [List.filterMap_reverse, List.filterMap_reverse]
  refine congrArg List.reverse ?_
  induction items with
  | nil => rfl
  | cons item rest ih =>
    obtain ⟨hitem, hrest⟩ := List.forall_mem_cons.1 h
    have hcopy : (item.copyDecl? copyOf).toList.filterMap g = [] :=
      List.filterMap_eq_nil_iff.2 fun d hd => hitem d (Option.mem_toList.1 hd)
    rw [List.flatMap_cons, List.map_append, List.filterMap_append, ih hrest,
      Item.map_toDecl_unrolled, ← List.singleton_append, List.filterMap_append, hcopy,
      List.append_nil, ← List.filterMap_append]
    rfl

theorem lookup_eq_head? {α : Type} (entries : List (String × α)) (name : String) :
    entries.lookup name =
      (entries.filterMap fun entry => if name == entry.1 then some entry.2 else none).head? := by
  induction entries with
  | nil => rfl
  | cons entry rest ih =>
    rw [List.lookup_cons, List.filterMap_cons]
    cases name == entry.1 with
    | true => rfl
    | false => exact ih

theorem lookup_eq_some_of_forall {α : Type} {entries : List (String × α)} {name : String} {a : α}
    (hmem : (name, a) ∈ entries) (h : ∀ b, (name, b) ∈ entries → b = a) :
    entries.lookup name = some a := by
  cases hlookup : entries.lookup name with
  | none => simpa using List.lookup_eq_none_iff.1 hlookup _ hmem
  | some b => rw [h b (mem_of_lookup_eq_some hlookup)]

theorem Decl.params_rename (d : Decl) (name : String) : (d.rename name).params = d.params := by
  obtain ⟨n, quals, storage, type, init, c⟩ := d
  cases type <;> rfl

theorem Signature.ofDecl?_rename (d : Decl) (name : String) :
    ofDecl? (d.rename name) = ofDecl? d := by
  unfold ofDecl?
  rw [Decl.scalar_rename]
  obtain ⟨n, quals, storage, type, init, c⟩ := d
  cases type <;> rfl

theorem Signature.exists_ofDecl? {d : Decl} (h : d.isFunction) : ∃ s, ofDecl? d = some s := by
  obtain ⟨n, quals, storage, type, init, c⟩ := d
  cases type with
  | function => exact ⟨_, rfl⟩
  | element | array => cases h

theorem Signature.of_declared? {d : Decl} {s : Signature} (h : declared? d = some (name, s)) :
    d.name = some name ∧ ofDecl? d = some s := by
  obtain ⟨s', hs, hmap⟩ := Option.bind_eq_some_iff.1 h
  obtain ⟨n, hn, heq⟩ := Option.map_eq_some_iff.1 hmap
  cases heq
  exact ⟨hn, hs⟩

theorem Item.name_toDecl (item : Item) : item.toDecl.name = item.name? := by
  cases item <;> rfl

namespace SourceUnit

/-- The functions that are declared in a file. -/
def declared (u : SourceUnit) : List (String × Signature) :=
  (u.items.map Item.toDecl).reverse.filterMap Signature.declared?

theorem functions_context (u : SourceUnit) :
    u.context.functions = u.declared ++ builtinSignatures := rfl

/-- The declarations of each function agree, no function has the name of a conversion or of the
remainder, and the functions that bodies declare are known in the file. -/
structure DeclaresFunctions (u : SourceUnit) : Prop where
  isFunction : ∀ f ∈ u.funcs, f.decl.isFunction
  isCalled : ∀ f ∈ u.funcs, isCalled f.name
  signature : ∀ f ∈ u.funcs, u.context.signature? f.name = Signature.ofDecl? f.decl
  bodies : ∀ f ∈ u.funcs, ∀ d ∈ f.body.decls, d.repeatsFunction u.context

/-- A name that is known in a file is no copy's. -/
theorem not_isCopyName_of_signature? {s : Signature} (h : u.context.signature? name = some s) :
    ¬u.IsCopyName name := by
  rintro ⟨hletter, hitem⟩
  have hentry := mem_of_lookup_eq_some h
  rw [functions_context] at hentry
  rcases List.mem_append.1 hentry with hentry | hentry
  · obtain ⟨d, hd, heq⟩ := List.mem_filterMap.1 hentry
    obtain ⟨item, hitem', rfl⟩ := List.mem_map.1 (List.mem_reverse.1 hd)
    have hname := (Signature.of_declared? heq).1
    rw [Item.name_toDecl] at hname
    exact hitem (List.mem_filterMap.2 ⟨item, hitem', hname⟩)
  · have hbuiltin : ∀ entry ∈ builtinSignatures, 'u' ∉ entry.1.toList := by decide
    exact hbuiltin _ hentry hletter

theorem isCalled_of_isCopyName (h : u.IsCopyName name) : MathKernel.isCalled name := by
  rw [MathKernel.isCalled, Bool.and_eq_true, Option.isNone_iff_eq_none, bne_iff_ne]
  constructor
  · cases htype : ScalarType.ofCName? name with
    | none => rfl
    | some t =>
      rw [ScalarType.eq_cName_of_ofCName? htype] at h
      have hletter : ∀ t : ScalarType, 'u' ∉ t.cName.toList := by
        intro t
        cases t <;> decide
      exact absurd h.1 (hletter t)
  · rintro rfl
    have hletter : 'u' ∉ remainderFunction.toList := by decide
    exact hletter h.1

section Names

variable (hnodup : (u.funcs.map FuncDef.name).Nodup)
include hnodup

/-- A copy is declared as the function it copies, under its own name. -/
theorem decl_copy (hf : f ∈ u.funcs) (hcopy : u.unrolling.copies.lookup f.name = some copy) :
    copy.decl = f.decl.rename copy.name :=
  congrArg FuncDef.decl (eq_unrolledCopy hnodup hf (mem_of_lookup_eq_some hcopy))

/-- What holds of the copies of functions holds of all declarations of copies. -/
theorem forall_copyDecl {p : Decl → Prop}
    (h : ∀ f ∈ u.funcs, ∀ copy, u.unrolling.copies.lookup f.name = some copy →
      p (f.decl.rename copy.name)) :
    ∀ item ∈ u.items, ∀ d ∈ item.copyDecl? fun f => u.unrolling.copies.lookup f.name, p d := by
  intro item hitem d hd
  cases item with
  | decl => cases hd
  | func f =>
    have hf := mem_funcs.2 hitem
    obtain ⟨copy, hcopy, rfl⟩ := Option.map_eq_some_iff.1 hd
    rw [decl_copy hnodup hf hcopy]
    exact h f hf copy hcopy

/-- The unrolled unit declares the same variables. -/
theorem vars_unrollRecursion (hdeclares : u.DeclaresFunctions) :
    u.unrollRecursion.1.context.vars = u.context.vars := by
  simp only [context]
  rw [items_unrollRecursion hnodup]
  refine filterMap_toDecl_unrolled _ _ _ u.items (forall_copyDecl hnodup fun f hf copy _ => ?_)
  obtain ⟨s, hs⟩ := Signature.exists_ofDecl? (hdeclares.isFunction f hf)
  rw [← Signature.ofDecl?_rename f.decl copy.name] at hs
  rw [if_pos (Signature.of_ofDecl? hs).1]

/-- The unrolled unit declares the same functions besides the copies. -/
theorem signature?_unrollRecursion (hname : ¬u.IsCopyName name) :
    u.unrollRecursion.1.context.signature? name = u.context.signature? name := by
  have hdeclared : u.unrollRecursion.1.declared.lookup name = u.declared.lookup name := by
    rw [lookup_eq_head?, lookup_eq_head?, declared, declared, List.filterMap_filterMap,
      List.filterMap_filterMap, items_unrollRecursion hnodup]
    refine congrArg List.head? (filterMap_toDecl_unrolled _ _ _ u.items
      (forall_copyDecl hnodup fun f hf copy hcopy => ?_))
    have hcopied := (u.isSound_unrolling.named _ (mem_of_lookup_eq_some hcopy)).1
    have hne : (name == copy.name) = false := by
      refine beq_eq_false_iff_ne.2 fun heq => hname ?_
      rw [heq]
      exact hcopied
    cases hs : Signature.ofDecl? (f.decl.rename copy.name) with
    | none => simp only [Signature.declared?, hs, Option.bind_none]
    | some s =>
      have hentry : Signature.declared? (f.decl.rename copy.name) = some (copy.name, s) := by
        rw [Signature.declared?, hs]
        rfl
      rw [hentry, Option.bind_some, hne]
      rfl
  rw [Context.signature?, Context.signature?, functions_context, functions_context,
    List.lookup_append, List.lookup_append, hdeclared]

/-- A copy has the types of the function it copies. -/
theorem signature?_copy (hdeclares : u.DeclaresFunctions) (hf : f ∈ u.funcs)
    (hcopy : u.unrolling.copies.lookup f.name = some copy) :
    u.unrollRecursion.1.context.signature? copy.name = Signature.ofDecl? f.decl := by
  obtain ⟨s, hs⟩ := Signature.exists_ofDecl? (hdeclares.isFunction f hf)
  have hentry : Signature.declared? copy.decl = some (copy.name, s) := by
    rw [decl_copy hnodup hf hcopy, Signature.declared?, Signature.ofDecl?_rename, hs]
    rfl
  have hmem : (copy.name, s) ∈ u.unrollRecursion.1.declared := by
    have hcopied := (mem_funcs_unrollRecursion_iff hnodup).2 ⟨f, hf, .inr hcopy⟩
    refine List.mem_filterMap.2 ⟨copy.decl, List.mem_reverse.2 ?_, hentry⟩
    exact List.mem_map.2 ⟨.func copy, mem_funcs.1 hcopied, rfl⟩
  have hunique : ∀ s', (copy.name, s') ∈ u.unrollRecursion.1.declared → s' = s := by
    intro s' hs'
    obtain ⟨d, hd, heq⟩ := List.mem_filterMap.1 hs'
    obtain ⟨item, hitem, rfl⟩ := List.mem_map.1 (List.mem_reverse.1 hd)
    have hcopied := mem_of_lookup_eq_some hcopy
    have hnew := (u.isSound_unrolling.named _ hcopied).1.2
    obtain ⟨hname, hs'⟩ := Signature.of_declared? heq
    have hnot {item' : Item} (hitem' : item' ∈ u.items)
        (hdecl : item.toDecl = item'.toDecl) : False := by
      rw [hdecl, Item.name_toDecl] at hname
      exact hnew (List.mem_filterMap.2 ⟨item', hitem', hname⟩)
    rw [items_unrollRecursion hnodup] at hitem
    -- The name is new, so what declares it is the copy and no item that was there.
    obtain ⟨item', hitem', hitem⟩ := List.mem_flatMap.1 hitem
    cases item' with
    | decl d => exact (hnot hitem' (congrArg Item.toDecl (List.mem_singleton.1 hitem))).elim
    | func g =>
      rcases List.mem_cons.1 hitem with rfl | hitem
      · exact (hnot hitem' rfl).elim
      · obtain ⟨copy', hcopy', rfl⟩ := List.mem_map.1 hitem
        have hcopied' := mem_of_lookup_eq_some (Option.mem_toList.1 hcopy')
        have hnames : copy'.name = copy.name := by
          change (Item.toDecl (.func copy')).name.getD "" = _
          rw [hname, Option.getD_some]
        have hsame := List.inj_on_of_nodup_map u.isSound_unrolling.nodup hcopied' hcopied hnames
        obtain rfl := (Prod.mk.inj hsame).2
        exact congrArg Prod.snd (Option.some.inj (heq.symm.trans hentry))
  rw [Context.signature?, functions_context, List.lookup_append,
    lookup_eq_some_of_forall hmem hunique, hs]
  rfl

end Names

end SourceUnit

/-! ### Bodies -/

namespace SourceUnit

/-- Where a call in a function goes: to the copy of its callee, if the two are on a cycle. -/
def redirectTarget (u : SourceUnit) (caller : String) : String → Option String :=
  fun callee =>
    some (((u.unrolling.redirects (CallGraph.ofUnit u).cycles caller).lookup callee).getD callee)

/-- Where a call in the copy of a function goes, if it does not lead back. -/
def cutTarget (u : SourceUnit) (name : String) : String → Option String :=
  fun callee => if ((CallGraph.ofUnit u).leadsTo name).contains callee then none else some callee

theorem body_redirected (u : SourceUnit) (f : FuncDef) :
    (u.redirected f).body = f.body.rebuild (Expr.sendCall (u.redirectTarget f.name)) := by
  have hnode (e : Expr) : (e.redirectCall?
      (u.unrolling.redirects (CallGraph.ofUnit u).cycles f.name)).getD e =
        e.sendCall (u.redirectTarget f.name) := by
    cases e with
    | call callee args c =>
      simp only [Expr.redirectCall?, Expr.sendCall, redirectTarget]
      cases (u.unrolling.redirects (CallGraph.ofUnit u).cycles f.name).lookup callee <;> rfl
    | _ => rfl
  exact (Block.value_bottomUpM_replace _ f.body).trans
    (congrArg (fun g => f.body.rebuild g) (funext hnode))

theorem body_copy (hnodup : (u.funcs.map FuncDef.name).Nodup) (hf : f ∈ u.funcs)
    (hcopy : u.unrolling.copies.lookup f.name = some copy) :
    copy.body = f.body.rebuild (Expr.sendCall (u.cutTarget f.name)) := by
  have hnode (e : Expr) : (e.cutCall? ((CallGraph.ofUnit u).leadsTo f.name)).getD e =
      e.sendCall (u.cutTarget f.name) := by
    cases e with
    | call callee args c =>
      simp only [Expr.cutCall?, Expr.sendCall, cutTarget]
      split_ifs <;> rfl
    | _ => rfl
  have hbody := congrArg FuncDef.body (eq_unrolledCopy hnodup hf (mem_of_lookup_eq_some hcopy))
  rw [hbody]
  exact (Block.value_bottomUpM_replace _ f.body).trans
    (congrArg (fun g => f.body.rebuild g) (funext hnode))

/-! ### Cycles -/

/-- Functions that call each other in a circle are one function. -/
def OnlySelfCalls (u : SourceUnit) : Prop :=
  ∀ a b, Relation.TransGen u.Calls a b → Relation.TransGen u.Calls b a → a = b

/-- The circles of calls are found by what is reached from each function. -/
theorem onlySelfCalls_iff (hnodup : (u.funcs.map FuncDef.name).Nodup) :
    u.OnlySelfCalls ↔ ∀ a ∈ u.funcs.map FuncDef.name, ∀ b ∈ (CallGraph.ofUnit u).reachable a,
      a ∈ (CallGraph.ofUnit u).reachable b → a = b := by
  constructor
  · intro h a _ b hab hba
    exact h a b ((CallGraph.mem_reachable_iff hnodup).1 hab)
      ((CallGraph.mem_reachable_iff hnodup).1 hba)
  · intro h a b hab hba
    obtain ⟨c, hac, -⟩ := Relation.TransGen.head'_iff.1 hab
    obtain ⟨f, hf, rfl, -⟩ := hac
    exact h f.name (List.mem_map_of_mem hf) b ((CallGraph.mem_reachable_iff hnodup).2 hab)
      ((CallGraph.mem_reachable_iff hnodup).2 hba)

end SourceUnit

namespace CallGraph

variable {g : CallGraph} {a b : String}

theorem hasCall_of_mem_mutualPairs {l : List String} (h : (a, b) ∈ g.mutualPairs l) :
    g.hasCall b a = true := by
  induction l with
  | nil => cases h
  | cons f rest ih =>
    rcases List.mem_append.1 h with h | h
    · obtain ⟨k, hk, heq⟩ := List.mem_map.1 h
      obtain ⟨rfl, rfl⟩ := Prod.mk.inj heq
      exact (Bool.and_eq_true _ _ ▸ (List.mem_filter.1 hk).2).2
    · exact ih h

/-- The callee of a cycle calls the caller back. -/
theorem hasCall_of_mem_cycles (h : (a, b) ∈ g.cycles) : g.hasCall b a = true := by
  rcases List.mem_append.1 h with h | h
  · obtain ⟨k, hk, heq⟩ := List.mem_map.1 h
    obtain ⟨rfl, rfl⟩ := Prod.mk.inj heq
    exact (List.mem_filter.1 hk).2
  · exact hasCall_of_mem_mutualPairs h

end CallGraph

namespace SourceUnit

section Cycles

variable (honly : u.OnlySelfCalls)
include honly

/-- Only functions that call themselves are unrolled. -/
theorem OnlySelfCalls.eq_of_mem_cycles {a b : String}
    (h : (a, b) ∈ (CallGraph.ofUnit u).cycles) : a = b := by
  obtain ⟨-, -, hab⟩ := CallGraph.mem_cycles h
  exact honly a b (.single (CallGraph.exists_of_hasCall hab))
    (.single (CallGraph.exists_of_hasCall (CallGraph.hasCall_of_mem_cycles h)))

/-- Of what a function calls nothing but itself leads back to it. -/
theorem OnlySelfCalls.eq_of_leadsTo (hnodup : (u.funcs.map FuncDef.name).Nodup) {a b : String}
    (hcall : u.Calls a b) (h : b ∈ (CallGraph.ofUnit u).leadsTo a) : b = a := by
  have hleads := (List.mem_filter.1 h).2
  rw [Bool.or_eq_true, beq_iff_eq, List.contains_iff_mem,
    CallGraph.mem_reachable_iff hnodup] at hleads
  rcases hleads with heq | hback
  · exact heq
  · exact (honly a b (.single hcall) hback).symm

/-- Other functions are called where they were. -/
theorem redirectTarget_of_ne {caller callee : String} (h : callee ≠ caller) :
    u.redirectTarget caller callee = some callee := by
  rw [redirectTarget]
  cases hlookup :
      (u.unrolling.redirects (CallGraph.ofUnit u).cycles caller).lookup callee with
  | none => rfl
  | some new =>
    have hcycle := (Unrolling.mem_redirects (mem_of_lookup_eq_some hlookup)).1
    exact absurd (honly.eq_of_mem_cycles hcycle).symm h

end Cycles

/-- A function that calls itself has a copy, and its calls go there. -/
theorem exists_copy (hnodup : (u.funcs.map FuncDef.name).Nodup) (hf : f ∈ u.funcs)
    (hself : f.name ∈ f.calledNames) :
    ∃ copy, u.unrolling.copies.lookup f.name = some copy ∧
      u.redirectTarget f.name f.name = some copy.name := by
  have horder : f.name ∈ u.funcs.map FuncDef.name := List.mem_map_of_mem hf
  have hcall := CallGraph.hasCall_of_mem hnodup hf hself horder
  have hcycle : (f.name, f.name) ∈ (CallGraph.ofUnit u).cycles :=
    (CallGraph.mem_cycles_or horder horder hcall hcall).elim (fun h => h) fun h => h
  have hcallee : f.name ∈ (CallGraph.ofUnit u).cycles.map Prod.snd :=
    List.mem_map.2 ⟨_, hcycle, rfl⟩
  obtain ⟨copy, hcopy⟩ : ∃ copy, u.unrolling.copies.lookup f.name = some copy :=
    Unrolling.exists_lookup_foldl_addCopy _ _ (func?_of_mem hnodup hf) hcallee
  refine ⟨copy, hcopy, ?_⟩
  rw [redirectTarget]
  have hmem := Unrolling.redirects_of_mem hcycle hcopy
  cases hlookup :
      (u.unrolling.redirects (CallGraph.ofUnit u).cycles f.name).lookup f.name with
  | none => simpa using List.lookup_eq_none_iff.1 hlookup _ hmem
  | some new =>
    obtain ⟨-, copy', hcopy', rfl⟩ := Unrolling.mem_redirects (mem_of_lookup_eq_some hlookup)
    rw [Option.some.inj (hcopy.symm.trans hcopy')]
    rfl

end SourceUnit

end MathKernel
