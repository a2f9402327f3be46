import MathKernel.Proofs.Kernel.Extraction
import MathKernel.Proofs.Normalize.Fragments
import MathKernel.Proofs.Normalize.Coercion

/-!
# Changed calls between fragments

The late passes send calls to other functions or put conversions around expressions. What they
call is a coined name, so a fragment that permits those is kept.

## Main results

* `SourceUnit.unrollRecursion_isIn`, `SourceUnit.specializeHelpers_isIn`, `SourceUnit.coerced_isIn`
-/

namespace MathKernel

variable {F : Fragment}

/-! ### Unrolled recursion -/

theorem Block.cutCalls_isIn (targets : List String) {b : Block} (h : b.IsIn F) :
    (b.bottomUpM (Counted.replace (Expr.cutCall? targets))).value.IsIn F := by
  refine Block.bottomUpM_isIn (m := Counted) (F := F) (.refl F) (fun e he hparts => ?_) h
  refine replace_isIn hparts (fun e' h => ?_) fun _ => he
  cases e with
  | call callee args c =>
    simp only [Expr.cutCall?, Option.ite_none_right_eq_some, Option.some.injEq] at h
    obtain ⟨-, rfl⟩ := h
    exact Expr.isIn_id
  | _ => cases h

theorem Block.redirectCalls_isIn (hF : F.Permits) {names : List (String × String)}
    (hnames : ∀ entry ∈ names, '_' ∈ entry.2.toList) {b : Block} (h : b.IsIn F) :
    (b.bottomUpM (Counted.replace (Expr.redirectCall? names))).value.IsIn F := by
  refine Block.bottomUpM_isIn (m := Counted) (F := F) (.refl F) (fun e he hparts => ?_) h
  refine replace_isIn hparts (fun e' h => ?_) fun _ => he
  cases e with
  | call callee args c =>
    obtain ⟨new, hnew, rfl⟩ := Option.map_eq_some_iff.1 h
    have hcoined := hnames (callee, new) (mem_of_lookup_eq_some hnew)
    exact Expr.isIn_call.2 ⟨hF.callee new (.inr hcoined), hparts⟩
  | _ => cases h

/-- The copies are functions of the fragment under made-up names. -/
def Unrolling.IsIn (F : Fragment) (acc : Unrolling) : Prop :=
  ∀ entry ∈ acc.copies, Item.IsIn F (.func entry.2) ∧ '_' ∈ entry.2.name.toList

theorem Unrolling.addCopy_isIn {u : SourceUnit} (hu : u.IsIn F) (g : CallGraph)
    {acc : Unrolling} (h : acc.IsIn F) (callee : String) : (acc.addCopy u g callee).IsIn F := by
  unfold Unrolling.addCopy
  split
  · exact h
  · exact h
  · next f hlookup hfunc =>
    refine List.forall_mem_append.2 ⟨h, List.forall_mem_singleton.2 ?_⟩
    have hf := hu (.func f) (SourceUnit.mem_funcs.1 (List.mem_of_find?_eq_some hfunc))
    refine ⟨⟨hf.1.imp_right fun h => Decl.isSpelled_rename h _, Block.cutCalls_isIn _ hf.2⟩, ?_⟩
    exact mem_toList_freshName (by simp [unrolledEnding])

theorem Unrolling.redirects_coined {acc : Unrolling} (h : acc.IsIn F)
    (cycles : List (String × String)) (caller : String) :
    ∀ entry ∈ acc.redirects cycles caller, '_' ∈ entry.2.toList := by
  intro entry hentry
  obtain ⟨⟨outer, callee⟩, -, hentry⟩ := List.mem_filterMap.1 hentry
  simp only [Option.ite_none_right_eq_some, Option.map_eq_some_iff] at hentry
  obtain ⟨-, copy, hcopy, rfl⟩ := hentry
  exact (h (callee, copy) (mem_of_lookup_eq_some hcopy)).2

theorem Unrolling.redirectItem_isIn (hF : F.Permits) {acc : Unrolling} (h : acc.IsIn F)
    (cycles : List (String × String)) {item : Item} (hitem : item.IsIn F) :
    (acc.redirectItem cycles item).value.IsIn F := by
  cases item with
  | decl d => exact hitem
  | func f =>
    exact ⟨hitem.1, Block.redirectCalls_isIn hF (redirects_coined h cycles f.name) hitem.2⟩

theorem mem_insertCopies {copies : List (String × FuncDef)} {items : List Item} {item : Item}
    (h : item ∈ insertCopies copies items) :
    item ∈ items ∨ ∃ entry ∈ copies, item = .func entry.2 := by
  induction items generalizing copies with
  | nil => exact .inl h
  | cons first rest ih =>
    cases first with
    | decl d =>
      rcases List.mem_cons.1 h with rfl | h
      · exact .inl List.mem_cons_self
      · exact (ih h).imp_left (List.mem_cons_of_mem _)
    | func f =>
      rw [insertCopies] at h
      split at h
      · rcases List.mem_cons.1 h with rfl | h
        · exact .inl List.mem_cons_self
        · exact (ih h).imp_left (List.mem_cons_of_mem _)
      · next copy hcopy =>
        rcases List.mem_cons.1 h with rfl | h
        · exact .inl List.mem_cons_self
        · rcases List.mem_cons.1 h with rfl | h
          · exact .inr ⟨(f.name, copy), mem_of_lookup_eq_some hcopy, rfl⟩
          · refine (ih h).imp (List.mem_cons_of_mem _) ?_
            rintro ⟨entry, hentry, rfl⟩
            exact ⟨entry, (List.mem_filter.1 hentry).1, rfl⟩

theorem SourceUnit.unrollRecursion_isIn (hF : F.Permits) {u : SourceUnit} (h : u.IsIn F) :
    u.unrollRecursion.1.IsIn F := by
  have hstart : Unrolling.IsIn F ⟨u.itemNames, [], 0⟩ := by
    intro entry hentry
    cases hentry
  have hcopies := List.foldlRecOn ((CallGraph.ofUnit u).cycles.map Prod.snd)
    (Unrolling.addCopy u (CallGraph.ofUnit u)) (motive := Unrolling.IsIn F) hstart
    fun _ hacc callee _ => Unrolling.addCopy_isIn h _ hacc callee
  have hredirected := SourceUnit.mapItemsM_isIn (m := Counted)
    (fun item hitem => Unrolling.redirectItem_isIn hF hcopies (CallGraph.ofUnit u).cycles hitem) h
  intro item hitem
  rcases mem_insertCopies hitem with hitem | ⟨entry, hentry, rfl⟩
  · exact hredirected item hitem
  · exact (hcopies entry hentry).1

/-! ### Coefficient arrays -/

/-- Without calls of the general helpers. -/
def Fragment.withoutHelpers (F : Fragment) : Fragment :=
  F.calling (· ∉ arrayHelpers)

theorem Expr.specialize_isIn (hF : F.Permits) (lengths : ArrayLengths) (function : String)
    {e : Expr} (he : F.node e) (hparts : ∀ part ∈ e.parts, part.IsIn F.withoutHelpers) :
    Ensures (e.specialize lengths function) (Expr.IsIn F.withoutHelpers) := by
  unfold Expr.specialize
  split
  · next hcall =>
    refine ensures_pure (Expr.isIn_iff.2 ⟨?_, hparts⟩)
    cases e with
    | call callee args c =>
      refine ⟨he, fun hhelper => ?_⟩
      rw [Expr.helperCall?, if_pos (by simpa using hhelper)] at hcall
      cases hcall
    | _ => exact he
  · next helper args c hcall =>
    have hargs : e.parts = args := by
      cases e with
      | call callee args' c' =>
        simp only [Expr.helperCall?, Option.ite_none_right_eq_some, Option.some.injEq,
          Prod.mk.injEq] at hcall
        exact hcall.2.2.1
      | _ => cases hcall
    split
    · intro chosen result hresult
      cases hresult
    · next length hlength =>
      refine ensures_bind (P := fun _ => True) (fun _ _ _ => trivial) fun _ _ => ensures_pure ?_
      have hcoined := isCoined_variantName helper length
      refine Expr.isIn_call.2 ⟨⟨hF.callee _ hcoined, fun hhelper => ?_⟩, hargs ▸ hparts⟩
      -- No helper's own name has an underscore.
      have hplain : ∀ name ∈ arrayHelpers, '_' ∉ name.toList := by decide
      exact hplain _ hhelper (by simp [Variant.name, variantName])

theorem Variant.prototype_isIn (v : Variant) : Item.IsIn F (.decl v.prototype) := by
  refine ⟨.inr ⟨⟨rfl, rfl, rfl, trivial⟩, rfl⟩, fun e he => ?_⟩
  cases he

theorem Item.specializeHelpers_isIn (hF : F.Permits) (globals : ArrayLengths) {item : Item}
    (h : item.IsIn F) :
    Ensures (item.specializeHelpers globals) fun item' =>
      item'.name?.any arrayHelpers.contains = true ∨ item'.IsIn F.withoutHelpers := by
  cases item with
  | decl d => exact ensures_pure (.inr ⟨h.spelled, h.exprs⟩)
  | func f =>
    rw [Item.specializeHelpers]
    by_cases hhelper : arrayHelpers.contains f.name = true
    · rw [if_pos hhelper]
      refine ensures_pure (.inl ?_)
      -- An unnamed function is not taken for a helper.
      cases hname : f.decl.name with
      | none => exact absurd hhelper (by rw [FuncDef.name, hname]; decide)
      | some name => simpa [Item.name?, FuncDef.name, hname] using hhelper
    · rw [if_neg hhelper]
      have hbody := Block.bottomUpM_isIn (m := Choosing) (F.frame_calling (· ∉ arrayHelpers))
        (fun e he hparts => Expr.specialize_isIn hF (globals ++ f.localArrays) f.name he hparts) h.2
      exact ensures_bind hbody fun _ hbody => ensures_pure (.inr ⟨h.1, hbody⟩)

theorem SourceUnit.specializeHelpers_isIn (hF : F.Permits) {u : SourceUnit} (h : u.IsIn F) :
    Ensures u.specializeHelpers fun result => result.1.IsIn F.withoutHelpers := by
  have hitems := ensures_mapM (m := Choosing) (f := Item.specializeHelpers u.globalArrays)
    (R := fun _ item' =>
      item'.name?.any arrayHelpers.contains = true ∨ item'.IsIn F.withoutHelpers)
    u.items fun item hitem => Item.specializeHelpers_isIn hF u.globalArrays (h item hitem)
  have hchanged : Ensures (u.mapItemsM (Item.specializeHelpers u.globalArrays)) fun u' =>
      ∀ item ∈ u'.items,
        item.name?.any arrayHelpers.contains = true ∨ item.IsIn F.withoutHelpers :=
    ensures_bind hitems fun items hall => ensures_pure (forall_of_forall₂ hall fun _ _ _ h => h)
  refine ensures_bind (hchanged []) fun result hresult => ensures_pure ?_
  refine List.forall_mem_append.2 ⟨fun item hitem => ?_, fun item hitem => ?_⟩
  · obtain ⟨v, -, rfl⟩ := List.mem_map.1 hitem
    exact v.prototype_isIn
  · obtain ⟨hitem, hkept⟩ := List.mem_filter.1 hitem
    refine (hresult item hitem).resolve_left fun hhelper => ?_
    simp [hhelper] at hkept

/-! ### Conversions -/

namespace Expr

variable {again : Expr → Counted Expr} {env : TypeEnv}

theorem isIn_conversion (hF : F.Permits) {type : ScalarType} (ht : type ≠ .void) {e : Expr}
    (h : e.IsIn F) (c : Coord) : (call type.cName [e] c).IsIn F :=
  isIn_call.2 ⟨hF.callee _ (isCoined_cName ht), by simpa using h⟩

theorem isIn_toFloatLiteral? (hF : F.Permits) {e e' : Expr} (h : e.toFloatLiteral? = some e') :
    e'.IsIn F := by
  fun_induction toFloatLiteral? e generalizing e' with
  | case1 text c =>
    obtain ⟨n, -, rfl⟩ := Option.map_eq_some_iff.1 h
    exact isIn_literal.2 (hF.float n)
  | case2 operand c ih =>
    obtain ⟨operand', hoperand, rfl⟩ := Option.map_eq_some_iff.1 h
    exact isIn_unary.2 (ih hoperand)
  | case3 => cases h

theorem coerce_isIn (hF : F.Permits) {e : Expr} (h : e.IsIn F) (s t : ScalarType) :
    (e.coerce s t).value.IsIn F := by
  unfold coerce
  by_cases hnone : s = t ∨ s = .void ∨ t = .void
  · rw [if_pos hnone]
    exact h
  · rw [if_neg hnone]
    have hcall := isIn_conversion hF (fun ht => hnone (.inr (.inr ht))) h e.coord
    split
    · cases hliteral : e.toFloatLiteral? with
      | none => exact hcall
      | some literal => exact isIn_toFloatLiteral? hF hliteral
    · exact hcall

theorem coerceArg_isIn (hF : F.Permits) {e : Expr} (h : e.IsIn F) (s : ScalarType)
    (t : Option ScalarType) : (e.coerceArg s t).value.IsIn F := by
  cases t with
  | none => exact h
  | some t => exact coerce_isIn hF h s t

theorem coerceOperand_isIn (hF : F.Permits) {e : Expr} (h : e.IsIn F) (op : UnaryOp)
    (s : ScalarType) : (e.coerceOperand op s).value.IsIn F := by
  rw [coerceOperand_eq]
  exact coerce_isIn hF h s _

theorem applyBinary_isIn (hF : F.Permits) {l r : Expr} (hl : l.IsIn F) (hr : r.IsIn F)
    (op : BinaryOp) (common : ScalarType) (truncated : Bool) (c : Coord) :
    (applyBinary op common truncated l r c).value.IsIn F := by
  have hbinary (op : BinaryOp) : (binary op l r c).IsIn F := isIn_binary.2 ⟨hl, hr⟩
  unfold applyBinary
  split
  · cases truncated with
    | true => exact hbinary .div
    | false => exact isIn_conversion hF (by decide) (hbinary .div) c
  · have hcoined : IsCoined remainderFunction := .inl (by decide)
    exact isIn_call.2 ⟨hF.callee _ hcoined, by simpa using ⟨hl, hr⟩⟩
  · exact hbinary op

mutual

theorem coercedWith_isIn (hF : F.Permits) (hagain : ∀ e, e.IsIn F → (again e).value.IsIn F)
    (truncated : Bool) (e : Expr) (h : e.IsIn F) :
    (e.coercedWith again env truncated).value.IsIn F := by
  cases e with
  | id | literal => exact h
  | binary op l r c =>
    obtain ⟨hl, hr⟩ := isIn_binary.1 h
    have hl' := coercedWith_isIn hF hagain false l hl
    have hr' := coercedWith_isIn hF hagain false r hr
    exact applyBinary_isIn hF (coerce_isIn hF hl' _ _) (coerce_isIn hF hr' _ _) op _ truncated c
  | unary op e c =>
    have he' := coercedWith_isIn hF hagain false e (isIn_unary.1 h)
    exact isIn_unary.2 (coerceOperand_isIn hF he' op _)
  | assign op t v c =>
    obtain ⟨ht, hv⟩ := isIn_assign.1 h
    have ht' := coercedWith_isIn hF hagain false t ht
    have hv' := coercedWith_isIn hF hagain false v hv
    simp only [coercedWith, Counted.value_bind]
    split
    · next b hb =>
      split
      · have hcombined := hagain (binary b _ _ none) (isIn_binary.2 ⟨ht', hv'⟩)
        exact isIn_assign.2 ⟨ht', coerce_isIn hF hcombined _ _⟩
      · exact isIn_assign.2 ⟨ht', coerce_isIn hF hv' _ _⟩
    · exact isIn_assign.2 ⟨ht', coerce_isIn hF hv' _ _⟩
  | ternary p t e c =>
    obtain ⟨hp, ht, he⟩ := isIn_ternary.1 h
    have hp' := coercedWith_isIn hF hagain false p hp
    have ht' := coercedWith_isIn hF hagain false t ht
    have he' := coercedWith_isIn hF hagain false e he
    exact isIn_ternary.2 ⟨coerce_isIn hF hp' _ _, coerce_isIn hF ht' _ _, coerce_isIn hF he' _ _⟩
  | call f args c =>
    obtain ⟨hf, hargs⟩ := isIn_call.1 h
    exact isIn_call.2 ⟨hf, coercedArgs_isIn hF hagain _ _ 0 args hargs⟩
  | cast type e c =>
    obtain ⟨hcast, he⟩ := isIn_cast.1 h
    exact isIn_cast.2 ⟨hcast, coercedWith_isIn hF hagain false e he⟩
  | index a i c =>
    obtain ⟨ha, hi⟩ := isIn_index.1 h
    have ha' := coercedWith_isIn hF hagain false a ha
    have hi' := coercedWith_isIn hF hagain false i hi
    exact isIn_index.2 ⟨ha', coerce_isIn hF hi' _ _⟩
  | initList items c => exact isIn_initList.2 (coercedList_isIn hF hagain items (isIn_initList.1 h))
  | comma items c => exact isIn_comma.2 (coercedList_isIn hF hagain items (isIn_comma.1 h))

theorem coercedArgs_isIn (hF : F.Permits) (hagain : ∀ e, e.IsIn F → (again e).value.IsIn F)
    (truncates : Bool) (signature : Option Signature) (i : Nat) (args : List Expr)
    (h : ∀ e ∈ args, e.IsIn F) :
    ∀ e ∈ (coercedArgs again env truncates signature i args).value, e.IsIn F := by
  cases args with
  | nil => exact h
  | cons e rest =>
    obtain ⟨he, hrest⟩ := List.forall_mem_cons.1 h
    have he' := coercedWith_isIn hF hagain (truncates && i == 0) e he
    exact List.forall_mem_cons.2 ⟨coerceArg_isIn hF he' _ _,
      coercedArgs_isIn hF hagain truncates signature (i + 1) rest hrest⟩

theorem coercedList_isIn (hF : F.Permits) (hagain : ∀ e, e.IsIn F → (again e).value.IsIn F)
    (items : List Expr) (h : ∀ e ∈ items, e.IsIn F) :
    ∀ e ∈ (coercedList again env items).value, e.IsIn F := by
  cases items with
  | nil => exact h
  | cons e rest =>
    obtain ⟨he, hrest⟩ := List.forall_mem_cons.1 h
    exact List.forall_mem_cons.2
      ⟨coercedWith_isIn hF hagain false e he, coercedList_isIn hF hagain rest hrest⟩

end

theorem coerced_isIn (hF : F.Permits) (env : TypeEnv) {e : Expr} (h : e.IsIn F) :
    (e.coerced env).value.IsIn F := by
  -- The depth to which written-out assignments are converted does not matter.
  suffices ∀ depth (e : Expr), e.IsIn F → (e.coercedTo env depth).value.IsIn F from this _ _ h
  intro depth
  induction depth with
  | zero => exact coercedWith_isIn hF (fun e he => he) false
  | succ depth ih => exact coercedWith_isIn hF ih false

theorem coercedAs_isIn (hF : F.Permits) (env : TypeEnv) (target : ScalarType) {e : Expr}
    (h : e.IsIn F) : (e.coercedAs env target).value.IsIn F :=
  coerce_isIn hF (coerced_isIn hF env h) _ _

theorem coercedItems_isIn (hF : F.Permits) (env : TypeEnv) (target : ScalarType)
    {items : List Expr} (h : ∀ e ∈ items, e.IsIn F) :
    ∀ e ∈ (coercedItems env target items).value, e.IsIn F := by
  induction items with
  | nil => exact h
  | cons e rest ih =>
    obtain ⟨he, hrest⟩ := List.forall_mem_cons.1 h
    exact List.forall_mem_cons.2 ⟨coercedAs_isIn hF env target he, ih hrest⟩

end Expr

theorem Decl.coercedInit_isIn (hF : F.Permits) (env : TypeEnv) {d : Decl} (h : d.IsIn F) :
    ∀ e ∈ (d.coercedInit env).value, e.IsIn F := by
  have hinit (e : Expr) (he : d.init = some e) : e.IsIn F :=
    h.exprs e (List.mem_append_right _ (by simp [he]))
  unfold Decl.coercedInit
  split
  · next items c heq =>
    rintro e ⟨⟩
    exact Expr.isIn_initList.2
      (Expr.coercedItems_isIn hF env d.scalar (Expr.isIn_initList.1 (hinit _ heq)))
  · next e _ heq =>
    split
    · rintro e' ⟨⟩
      exact Expr.coerced_isIn hF env (hinit e heq)
    · rintro e' ⟨⟩
      exact Expr.coercedAs_isIn hF env d.scalar (hinit e heq)
  · rintro e ⟨⟩

theorem Decl.coerced_isIn (hF : F.Permits) (env : TypeEnv) {d : Decl} (h : d.IsIn F) :
    (d.coerced env).value.IsIn F where
  spelled := h.spelled
  exprs e he := by
    rcases List.mem_append.1 he with he | he
    · exact h.exprs e (List.mem_append_left _ he)
    · exact Decl.coercedInit_isIn hF env h e (Option.mem_toList.1 he)

theorem Decl.coercedList_isIn (hF : F.Permits) (env : TypeEnv) {ds : List Decl}
    (h : ∀ d ∈ ds, d.IsIn F) : ∀ d ∈ (Decl.coercedList env ds).value.1, d.IsIn F := by
  induction ds generalizing env with
  | nil => exact h
  | cons d rest ih =>
    obtain ⟨hd, hrest⟩ := List.forall_mem_cons.1 h
    exact List.forall_mem_cons.2 ⟨Decl.coerced_isIn hF env hd, ih (env.declare d) hrest⟩

namespace Stmt

theorem mapOptionM_coerced_isIn {f : Expr → Counted Expr}
    (hf : ∀ e, e.IsIn F → (f e).value.IsIn F) {e : Option Expr} (h : ∀ x ∈ e, x.IsIn F) :
    ∀ x ∈ (mapOptionM f e).value, x.IsIn F :=
  mapOptionM_isIn (m := Counted) hf h

mutual

theorem coerced_isIn (hF : F.Permits) (result : ScalarType) (env : TypeEnv) (s : Stmt)
    (h : s.IsIn F) :
    (s.coerced result env).value.1.IsIn F ∧
      (s.IsItemIn F → (s.coerced result env).value.1.IsItemIn F) := by
  cases s with
  | decl d c => exact ⟨Decl.coerced_isIn hF env h, fun hitem => hitem⟩
  | block items b c => exact ⟨coercedList_areIn hF result env items h, fun _ => trivial⟩
  | expr e c => exact ⟨Expr.coerced_isIn hF env h, fun _ => trivial⟩
  | ifThen p t c =>
    exact ⟨⟨Expr.coercedAs_isIn hF env .bool h.1, (coerced_isIn hF result env t h.2).1⟩,
      fun _ => trivial⟩
  | ifElse p t e c =>
    exact ⟨⟨Expr.coercedAs_isIn hF env .bool h.1, (coerced_isIn hF result env t h.2.1).1,
      (coerced_isIn hF result _ e h.2.2).1⟩, fun _ => trivial⟩
  | forLoop init cond next body c =>
    obtain ⟨hinit, hcond, hnext, hbody⟩ := h
    refine ⟨⟨?_, ?_, ?_, (coerced_isIn hF result _ body hbody).1⟩, fun _ => trivial⟩
    · match init with
      | none => simp [ForInit.coerced]
      | some (.decls ds) =>
        rintro i ⟨⟩
        exact Decl.coercedList_isIn hF env (hinit _ rfl)
      | some (.expr e) =>
        rintro i ⟨⟩
        exact Expr.coerced_isIn hF env (hinit _ rfl)
    · exact mapOptionM_coerced_isIn (fun e he => Expr.coercedAs_isIn hF _ .bool he) hcond
    · exact mapOptionM_coerced_isIn (fun e he => Expr.coerced_isIn hF _ he) hnext
  | whileLoop p body c | doWhile p body c =>
    exact ⟨⟨h.1, Expr.coercedAs_isIn hF env .bool h.2.1, (coerced_isIn hF result env body h.2.2).1⟩,
      fun _ => trivial⟩
  | ret value c =>
    exact ⟨mapOptionM_coerced_isIn (fun e he => Expr.coercedAs_isIn hF env result he) h,
      fun _ => trivial⟩
  | label n s c => exact ⟨⟨h.1, (coerced_isIn hF result env s h.2).1⟩, fun _ => trivial⟩
  | brk | cont | goto | empty => exact ⟨h, fun _ => trivial⟩

theorem coercedList_areIn (hF : F.Permits) (result : ScalarType) (env : TypeEnv)
    (items : List Stmt) (h : AreIn F items) : AreIn F (coercedList result env items).value.1 := by
  cases items with
  | nil => exact trivial
  | cons s rest =>
    obtain ⟨hs, hitem⟩ := coerced_isIn hF result env s h.2.1
    exact ⟨hitem h.1, hs, coercedList_areIn hF result _ rest h.2.2⟩

end

end Stmt

theorem SourceUnit.coerced_isIn (hF : F.Permits) {u : SourceUnit} (h : u.IsIn F) :
    u.coerced.1.IsIn F := by
  refine SourceUnit.mapItemsM_isIn (m := Counted) (fun item hitem => ?_) h
  cases item with
  | decl d =>
    have hpermits : F.anyCallee.Permits := ⟨hF.int, hF.float, fun _ _ => trivial⟩
    change (Item.coerced (TypeEnv.ofUnit u) (.decl d)).value.IsIn F
    rw [Item.coerced]
    split
    · exact hitem
    · exact Decl.coerced_isIn hpermits (TypeEnv.ofUnit u) hitem
  | func f => exact ⟨hitem.1, Stmt.coercedList_areIn hF f.returnType _ f.body.items hitem.2⟩

end MathKernel
