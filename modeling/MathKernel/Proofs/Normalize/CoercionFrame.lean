import MathKernel.Proofs.Normalize.Coercion

/-!
# What a conversion looks at and leaves

The conversion of an expression depends only on the types of the names in it. An initializer is
converted before its variable is declared, but evaluated after; this is the same for an
initializer whose names keep their types. Where a conversion counts no change, it makes none.

## Main definitions

* `Expr.SameTypes` — the names in an expression have the same types in two environments
* `Counted.Leaves` — a value is left as it is, unless a change is counted

## Main results

* `Expr.coerced_congr`, `Expr.coercedAs_congr` — conversions in two environments
* `Expr.coercedAs_leaves` — an expression without conversions is left as it is
-/

namespace MathKernel

theorem Counted.bind_congr {α β : Type} {x : Counted α} {f g : α → Counted β}
    (h : f x.value = g x.value) : x >>= f = x >>= g := by
  change Counted.mk (f x.value).value (x.count + (f x.value).count) =
    Counted.mk (g x.value).value (x.count + (g x.value).count)
  rw [h]

namespace Expr

variable {env env' : TypeEnv} {again again' : Expr → Counted Expr}

/-! ### Environments -/

/-- A name, if the expression is one, has the same type in two environments. -/
def NameAgrees (env env' : TypeEnv) (e : Expr) : Prop :=
  ∀ name, e.idName? = some name → env.variableType name = env'.variableType name

/-- The names in the expression have the same types in two environments. -/
def SameTypes (env env' : TypeEnv) (e : Expr) : Prop :=
  e.Everywhere (NameAgrees env env')

theorem isNodeProperty_nameAgrees (env env' : TypeEnv) :
    IsNodeProperty (NameAgrees env env') := by
  constructor <;> intros <;> intro name h <;> cases h

mutual

/-- The type of an expression depends only on the names in it. -/
theorem typeIn_congr (h : env.functions = env'.functions) (e : Expr) (he : e.SameTypes env env') :
    e.typeIn env = e.typeIn env' := by
  cases e with
  | id n c => exact everywhere_id.1 he n rfl
  | literal v c => rfl
  | binary op l r c =>
    obtain ⟨-, hl, hr⟩ := everywhere_binary.1 he
    rw [typeIn, typeIn, typeIn_congr h l hl, typeIn_congr h r hr]
  | unary op e c =>
    obtain ⟨-, he⟩ := everywhere_unary.1 he
    rw [typeIn, typeIn, typeIn_congr h e he]
  | assign op t v c =>
    obtain ⟨-, ht, -⟩ := everywhere_assign.1 he
    rw [typeIn, typeIn, typeIn_congr h t ht]
  | ternary p t e c =>
    obtain ⟨-, -, ht, he⟩ := everywhere_ternary.1 he
    rw [typeIn, typeIn, typeIn_congr h t ht, typeIn_congr h e he]
  | call f args c =>
    rw [typeIn, typeIn, TypeEnv.resultType, TypeEnv.resultType, TypeEnv.signature?,
      TypeEnv.signature?, h]
  | cast type e c => rfl
  | index a i c =>
    obtain ⟨-, ha, -⟩ := everywhere_index.1 he
    rw [typeIn, typeIn, typeIn_congr h a ha]
  | initList items c => rfl
  | comma items c =>
    obtain ⟨-, hitems⟩ := everywhere_comma.1 he
    rw [typeIn, typeIn, lastTypeIn_congr h items hitems]

theorem lastTypeIn_congr (h : env.functions = env'.functions) (items : List Expr)
    (hitems : ∀ e ∈ items, e.SameTypes env env') :
    lastTypeIn env items = lastTypeIn env' items := by
  match items with
  | [] => rfl
  | [e] => exact typeIn_congr h e (hitems e (by simp))
  | e :: e' :: rest =>
    exact lastTypeIn_congr h (e' :: rest) fun x hx => hitems x (List.mem_cons_of_mem e hx)

end

/-- Two conversions agree on expressions whose names have the same types, and add no names. -/
structure Agree (env env' : TypeEnv) (again again' : Expr → Counted Expr) : Prop where
  eq : ∀ e, e.SameTypes env env' → again e = again' e
  sameTypes : ∀ e, e.SameTypes env env' → (again e).value.SameTypes env env'

mutual

theorem coercedWith_congr (h : env.functions = env'.functions)
    (hagain : Agree env env' again again')
    (truncated : Bool) (e : Expr) (he : e.SameTypes env env') :
    e.coercedWith again env truncated = e.coercedWith again' env' truncated := by
  cases e with
  | id n c | literal v c => rfl
  | binary op l r c =>
    obtain ⟨-, hl, hr⟩ := everywhere_binary.1 he
    simp only [coercedWith, typeIn_congr h l hl, typeIn_congr h r hr,
      coercedWith_congr h hagain false l hl, coercedWith_congr h hagain false r hr]
  | unary op e c =>
    obtain ⟨-, he⟩ := everywhere_unary.1 he
    simp only [coercedWith, typeIn_congr h e he, coercedWith_congr h hagain false e he]
  | assign op t v c =>
    obtain ⟨-, ht, hv⟩ := everywhere_assign.1 he
    have hnode := isNodeProperty_nameAgrees env env'
    have ht' : (t.coercedWith again env false).value.SameTypes env env' :=
      hnode.coercedWith hagain.sameTypes false t ht
    have hv' : (v.coercedWith again env false).value.SameTypes env env' :=
      hnode.coercedWith hagain.sameTypes false v hv
    rw [coercedWith, coercedWith, ← coercedWith_congr h hagain false t ht,
      ← coercedWith_congr h hagain false v hv, ← typeIn_congr h t ht, ← typeIn_congr h v hv]
    refine Counted.bind_congr (Counted.bind_congr ?_)
    cases op.binary? with
    | none => rfl
    | some b =>
      -- The combined value has the names of the target and of the value.
      have hcombined := everywhere_binary.2 ⟨hnode.binary b _ _ none, ht', hv'⟩
      simp only [hagain.eq _ hcombined, typeIn_congr h _ hcombined]
  | ternary p t e c =>
    obtain ⟨-, hp, ht, he⟩ := everywhere_ternary.1 he
    simp only [coercedWith, typeIn_congr h p hp, typeIn_congr h t ht, typeIn_congr h e he,
      coercedWith_congr h hagain false p hp, coercedWith_congr h hagain false t ht,
      coercedWith_congr h hagain false e he]
  | call f args c =>
    obtain ⟨-, hargs⟩ := everywhere_call.1 he
    simp only [coercedWith, TypeEnv.signature?, h, coercedArgs_congr h hagain _ _ 0 args hargs]
  | cast type e c =>
    obtain ⟨-, he⟩ := everywhere_cast.1 he
    simp only [coercedWith, coercedWith_congr h hagain false e he]
  | index a i c =>
    obtain ⟨-, ha, hi⟩ := everywhere_index.1 he
    simp only [coercedWith, typeIn_congr h i hi, coercedWith_congr h hagain false a ha,
      coercedWith_congr h hagain false i hi]
  | initList items c =>
    obtain ⟨-, hitems⟩ := everywhere_initList.1 he
    simp only [coercedWith, coercedList_congr h hagain items hitems]
  | comma items c =>
    obtain ⟨-, hitems⟩ := everywhere_comma.1 he
    simp only [coercedWith, coercedList_congr h hagain items hitems]

theorem coercedArgs_congr (h : env.functions = env'.functions)
    (hagain : Agree env env' again again')
    (truncates : Bool) (signature : Option Signature) (i : Nat) (args : List Expr)
    (hargs : ∀ e ∈ args, e.SameTypes env env') :
    coercedArgs again env truncates signature i args =
      coercedArgs again' env' truncates signature i args := by
  cases args with
  | nil => rfl
  | cons e rest =>
    obtain ⟨he, hrest⟩ := List.forall_mem_cons.1 hargs
    simp only [coercedArgs, typeIn_congr h e he, coercedWith_congr h hagain _ e he,
      coercedArgs_congr h hagain truncates signature (i + 1) rest hrest]

theorem coercedList_congr (h : env.functions = env'.functions)
    (hagain : Agree env env' again again')
    (items : List Expr) (hitems : ∀ e ∈ items, e.SameTypes env env') :
    coercedList again env items = coercedList again' env' items := by
  cases items with
  | nil => rfl
  | cons e rest =>
    obtain ⟨he, hrest⟩ := List.forall_mem_cons.1 hitems
    simp only [coercedList, coercedWith_congr h hagain false e he,
      coercedList_congr h hagain rest hrest]

end

/-- A second conversion may be done in either environment, however deep it goes. -/
theorem agree_coercedTo (h : env.functions = env'.functions) (depth : Nat) :
    Agree env env' (coercedTo env depth) (coercedTo env' depth) := by
  have hnode := isNodeProperty_nameAgrees env env'
  refine ⟨?_, fun e he => hnode.coercedTo depth he⟩
  induction depth with
  | zero =>
    have hpure : Agree env env' (pure : Expr → Counted Expr) pure :=
      ⟨fun _ _ => rfl, fun _ he => he⟩
    exact fun e he => coercedWith_congr h hpure false e he
  | succ depth ih =>
    exact fun e he => coercedWith_congr h ⟨ih, fun e he => hnode.coercedTo depth he⟩ false e he

theorem coerced_congr (h : env.functions = env'.functions) {e : Expr} (he : e.SameTypes env env') :
    e.coerced env = e.coerced env' :=
  (agree_coercedTo h e.compoundAssigns).eq e he

theorem coercedAs_congr (h : env.functions = env'.functions) (target : ScalarType) {e : Expr}
    (he : e.SameTypes env env') : e.coercedAs env target = e.coercedAs env' target := by
  rw [coercedAs, coercedAs, coerced_congr h he, typeIn_congr h e he]

theorem coercedItems_congr (h : env.functions = env'.functions) (target : ScalarType)
    (items : List Expr) (hitems : ∀ e ∈ items, e.SameTypes env env') :
    coercedItems env target items = coercedItems env' target items := by
  induction items with
  | nil => rfl
  | cons e rest ih =>
    obtain ⟨he, hrest⟩ := List.forall_mem_cons.1 hitems
    simp only [coercedItems, coercedAs_congr h target he, ih hrest]

end Expr

/-! ### Conversions without changes -/

namespace Counted

variable {α β : Type}

/-- The value is the given one, unless a change is counted. -/
def Leaves (x : Counted α) (a : α) : Prop :=
  x.count = 0 → x.value = a

theorem leaves_pure (a : α) : (pure a : Counted α).Leaves a :=
  fun _ => rfl

theorem leaves_change (a b : α) : (change b).Leaves a := by
  intro h
  cases h

theorem Leaves.bind {x : Counted α} {a : α} {f : α → Counted β} {b : β} (h : x.Leaves a)
    (hf : (f a).Leaves b) : (x >>= f).Leaves b := by
  intro hcount
  have hsum : x.count + (f x.value).count = 0 := hcount
  have hvalue : x.value = a := h (by omega)
  rw [value_bind, hvalue]
  rw [hvalue] at hsum
  exact hf (by omega)

theorem leaves_bind_of_forall (x : Counted α) {f : α → Counted β} {b : β}
    (hf : ∀ a, (f a).Leaves b) : (x >>= f).Leaves b := by
  intro hcount
  have hsum : x.count + (f x.value).count = 0 := hcount
  exact hf x.value (by omega)

end Counted

namespace Expr

open Counted

theorem coerce_leaves (s t : ScalarType) (e : Expr) : (e.coerce s t).Leaves e := by
  unfold coerce
  split_ifs
  · exact leaves_pure e
  · exact leaves_change e _
  · exact leaves_change e _

theorem coerceArg_leaves (s : ScalarType) (t : Option ScalarType) (e : Expr) :
    (e.coerceArg s t).Leaves e := by
  cases t with
  | none => exact leaves_pure e
  | some t => exact coerce_leaves s t e

theorem applyBinary_leaves (op : BinaryOp) (common : ScalarType) (truncated : Bool) (l r : Expr)
    (c : Coord) : (applyBinary op common truncated l r c).Leaves (binary op l r c) := by
  unfold applyBinary
  split
  · split_ifs
    · exact leaves_pure _
    · exact leaves_change _ _
  · exact leaves_change _ _
  · exact leaves_pure _

variable (again : Expr → Counted Expr) (env : TypeEnv)

mutual

theorem coercedWith_leaves (truncated : Bool) (e : Expr) :
    (e.coercedWith again env truncated).Leaves e := by
  cases e with
  | id n c | literal v c => exact leaves_pure _
  | binary op l r c =>
    exact (coercedWith_leaves false l).bind <| (coercedWith_leaves false r).bind <|
      (coerce_leaves _ _ l).bind <| (coerce_leaves _ _ r).bind <| applyBinary_leaves op _ _ l r c
  | unary op e c =>
    refine (coercedWith_leaves false e).bind ?_
    rw [coerceOperand_eq]
    exact (coerce_leaves _ _ e).bind (leaves_pure _)
  | assign op t v c =>
    refine (coercedWith_leaves false t).bind ((coercedWith_leaves false v).bind ?_)
    split
    · split_ifs
      · -- Writing out an assignment is a change.
        exact leaves_bind_of_forall _ fun _ => leaves_bind_of_forall _ fun _ => leaves_change _ _
      · exact (coerce_leaves _ _ v).bind (leaves_pure _)
    · exact (coerce_leaves _ _ v).bind (leaves_pure _)
  | ternary p t e c =>
    exact (coercedWith_leaves false p).bind <| (coerce_leaves _ _ p).bind <|
      (coercedWith_leaves false t).bind <| (coercedWith_leaves false e).bind <|
      (coerce_leaves _ _ t).bind <| (coerce_leaves _ _ e).bind <| leaves_pure _
  | call f args c => exact (coercedArgs_leaves _ _ 0 args).bind (leaves_pure _)
  | cast type e c => exact (coercedWith_leaves false e).bind (leaves_pure _)
  | index a i c =>
    exact (coercedWith_leaves false a).bind <| (coercedWith_leaves false i).bind <|
      (coerce_leaves _ _ i).bind <| leaves_pure _
  | initList items c => exact (coercedList_leaves items).bind (leaves_pure _)
  | comma items c => exact (coercedList_leaves items).bind (leaves_pure _)

theorem coercedArgs_leaves (truncates : Bool) (signature : Option Signature) (i : Nat)
    (args : List Expr) : (coercedArgs again env truncates signature i args).Leaves args := by
  cases args with
  | nil => exact leaves_pure _
  | cons e rest =>
    exact (coercedWith_leaves _ e).bind <| (coerceArg_leaves _ _ e).bind <|
      (coercedArgs_leaves truncates signature (i + 1) rest).bind <| leaves_pure _

theorem coercedList_leaves (items : List Expr) : (coercedList again env items).Leaves items := by
  cases items with
  | nil => exact leaves_pure _
  | cons e rest =>
    exact (coercedWith_leaves false e).bind ((coercedList_leaves rest).bind (leaves_pure _))

end

theorem coerced_leaves (e : Expr) : (e.coerced env).Leaves e := by
  obtain ⟨again, -, heq⟩ := coerced_eq env e
  rw [heq]
  exact coercedWith_leaves again env false e

/-- An expression without conversions is left as it is. -/
theorem coercedAs_leaves (t : ScalarType) (e : Expr) : (e.coercedAs env t).Leaves e :=
  (coerced_leaves env e).bind (coerce_leaves _ t e)

end Expr

end MathKernel
