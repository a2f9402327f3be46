import MathKernel.Proofs.Kernel.AssignedValues
import MathKernel.Proofs.Normalize.CoercionFixed

/-!
# Constants that fold after conversion

Folding understands two of the three conversions that are written out: those to `float` and to
`int`, not the one to `bool`. So a constant initializer that folds is still folded after its
conversions are written out, except where a number is converted to a truth value. Operators that
fold never do that; the declared type of a variable does, and so does the parameter of a function
that is declared under the name of a conversion.

## Main definitions

* `ScalarType.makesTruth` — conversions of numbers to truth values
* `Expr.Folds` — whether an expression folds
* `Expr.MakesNoTruth`, `Decl.MakesNoTruths` — no number is converted to a truth value

## Main results

* `Expr.folds_coercedWith`, `Expr.folds_coercedAs` — which converted expressions fold
* `Decl.isSome_foldIn?_coerced` — which converted initializers fold
* `SourceUnit.extract_coerced_notConstant` — why the variables of a converted unit do not fold
-/

namespace MathKernel

/-! ### Literals -/

namespace Literal

theorem ne_mark_of_mem_toString {n : Int} {c : Char} (hc : c ∈ (toString n).toList) :
    c ≠ 'x' ∧ c ≠ 'X' := by
  have hdigit {m : Nat} (hc : c ∈ Nat.toDigits 10 m) : c ≠ 'x' ∧ c ≠ 'X' := by
    have hc := Nat.isDigit_of_mem_toDigits (by decide) (by decide) hc
    constructor <;> rintro rfl <;> cases hc
  cases n with
  | ofNat n =>
    rw [Int.ofNat_eq_natCast, toList_toString_ofNat] at hc
    exact hdigit hc
  | negSucc n =>
    rw [toList_toString_negSucc] at hc
    rcases List.mem_cons.1 hc with rfl | hc
    · decide
    · exact hdigit hc

/-- The floating form of an integer is read. -/
theorem isSome_floatValue?_toString (n : Int) :
    (floatValue? ⟨.float, toString n ++ ".0"⟩).isSome := by
  have hread : (rational? (toString n ++ ".0").toList).isSome := by
    rw [rational?_toString]
    rfl
  refine isSome_readFloat? (afterHexMark?_of_forall fun c hc => ?_) hread
  have htext : (toString n ++ ".0").toList = (toString n).toList ++ ['.', '0'] := by
    rw [String.toList_append]
    rfl
  rw [htext, dropFloatSuffix_point] at hc
  rcases List.mem_append.1 hc with hc | hc
  · exact ne_mark_of_mem_toString hc
  · simp only [List.mem_cons, List.not_mem_nil, or_false] at hc
    rcases hc with rfl | rfl <;> decide

end Literal

/-! ### Types of conversions -/

namespace ScalarType

/-- Whether a conversion between two types makes a truth value of a number. -/
def makesTruth (source target : ScalarType) : Bool :=
  target == .bool && source != .bool && source != .void

@[simp] theorem makesTruth_self (t : ScalarType) : t.makesTruth t = false := by
  cases t <;> rfl

theorem makesTruth_of_ne_bool (s : ScalarType) {t : ScalarType} (h : t ≠ .bool) :
    s.makesTruth t = false := by
  simp [makesTruth, h]

end ScalarType

/-- The operators between two operands that are folded. -/
def BinaryOp.isFolded : BinaryOp → Bool
  | .add | .sub | .mul | .div => true
  | _ => false

/-- The operators before an operand that are folded. -/
def UnaryOp.isFolded : UnaryOp → Bool
  | .neg | .plus => true
  | _ => false

theorem BinaryOp.operandType_of_isFolded {op : BinaryOp} (h : op.isFolded) (s t : ScalarType) :
    Expr.operandType op s t = .arithmetic s t := by
  cases op <;> first | rfl | cases h

theorem UnaryOp.makesTruth_operandType {op : UnaryOp} (h : op.isFolded) (s : ScalarType) :
    s.makesTruth (op.operandType s) = false := by
  cases op with
  | neg | plus => cases s <;> rfl
  | _ => cases h

namespace Expr

/-! ### Expressions that fold -/

/-- The expression folds, given the constants met so far. -/
def Folds (known : KnownConstants Binary64) (e : Expr) : Prop :=
  (e.fold? Binary64.arithmetic known).isSome

section Folds

variable {known : KnownConstants Binary64}

theorem not_folds {e : Expr} (h : e.fold? Binary64.arithmetic known = none) :
    ¬ e.Folds known := by
  simp [Folds, h]

theorem folds_unary {op : UnaryOp} {e : Expr} {c : Coord} :
    (unary op e c).Folds known ↔ op.isFolded ∧ e.Folds known := by
  simp only [Folds, fold?]
  cases e.fold? Binary64.arithmetic known with
  | none => simp
  | some x => cases op <;> simp [Arithmetic.unary?, UnaryOp.isFolded]

theorem folds_binary {op : BinaryOp} {l r : Expr} {c : Coord} :
    (binary op l r c).Folds known ↔ op.isFolded ∧ l.Folds known ∧ r.Folds known := by
  simp only [Folds, fold?]
  cases l.fold? Binary64.arithmetic known with
  | none => simp
  | some x =>
    cases r.fold? Binary64.arithmetic known with
    | none => simp
    | some y => cases op <;> simp [Arithmetic.binary?, BinaryOp.isFolded]

theorem folds_call {callee : String} {e : Expr} {c : Coord} :
    (call callee [e] c).Folds known ↔
      (callee = ScalarType.float.cName ∨ callee = ScalarType.int.cName) ∧ e.Folds known := by
  simp only [Folds, fold?]
  cases e.fold? Binary64.arithmetic known with
  | none => simp
  | some x =>
    simp only [Option.bind_eq_bind, Option.bind_some, Option.isSome_some, and_true]
    unfold Arithmetic.coercion?
    split
    · simp [ScalarType.cName]
    · simp [ScalarType.cName]
    · next hfloat hint => simpa [ScalarType.cName] using ⟨hfloat, hint⟩

/-- An element that folds is that of a named array at a literal. -/
theorem exists_of_folds_index {array subscript : Expr} {c : Coord}
    (h : (index array subscript c).Folds known) :
    ∃ name c₁ value c₂, array = id name c₁ ∧ subscript = literal value c₂ := by
  obtain ⟨x, hx⟩ := Option.isSome_iff_exists.1 h
  obtain ⟨name, hname, hx⟩ := Option.bind_eq_some_iff.1 hx
  obtain ⟨i, hi, -⟩ := Option.bind_eq_some_iff.1 hx
  have harray : ∃ c₁, array = id name c₁ := by
    cases array <;> simp_all [idName?]
  have hsubscript : ∃ value c₂, subscript = literal value c₂ := by
    cases subscript <;> simp_all [intLiteral?]
  obtain ⟨c₁, rfl⟩ := harray
  obtain ⟨value, c₂, rfl⟩ := hsubscript
  exact ⟨name, c₁, value, c₂, rfl, rfl⟩

/-- Which expressions fold depends on the shapes of the known constants alone. -/
theorem folds_iff_of_sameShape {known' : KnownConstants Binary64}
    (h : List.Forall₂ SameShape known known') (e : Expr) : e.Folds known ↔ e.Folds known' := by
  have hflip : List.Forall₂ SameShape known' known :=
    (List.Forall₂.flip h).imp fun _ _ h => ⟨h.1.symm, h.2.symm⟩
  simp only [Folds, Option.isSome_iff_exists]
  constructor
  · rintro ⟨x, hx⟩
    exact exists_fold? (fun _ h => h) h hx
  · rintro ⟨x, hx⟩
    exact exists_fold? (fun _ h => h) hflip hx

/-! ### Conversions -/

theorem folds_toFloatLiteral? {e e' : Expr} (h : e.toFloatLiteral? = some e') :
    e.Folds known ∧ e'.Folds known := by
  fun_induction toFloatLiteral? e generalizing e' with
  | case1 text c =>
    obtain ⟨n, hn, rfl⟩ := Option.map_eq_some_iff.1 h
    refine ⟨?_, Literal.isSome_floatValue?_toString n⟩
    simp [Folds, fold?, Binary64.arithmetic, Literal.floatValue?, hn]
  | case2 operand c ih =>
    obtain ⟨operand', hoperand, rfl⟩ := Option.map_eq_some_iff.1 h
    obtain ⟨he, he'⟩ := ih hoperand
    exact ⟨folds_unary.2 ⟨rfl, he⟩, folds_unary.2 ⟨rfl, he'⟩⟩
  | case3 => cases h

/-- A converted expression folds unless a truth value is made of it. -/
theorem folds_coerce {s t : ScalarType} {e : Expr} :
    (e.coerce s t).value.Folds known ↔ e.Folds known ∧ s.makesTruth t = false := by
  by_cases hskip : s = t ∨ s = .void ∨ t = .void
  · rw [coerce, if_pos hskip]
    have hnumber : s.makesTruth t = false := by
      rcases hskip with rfl | rfl | rfl
      · exact s.makesTruth_self
      · simp [ScalarType.makesTruth]
      · exact s.makesTruth_of_ne_bool (by decide)
    exact (and_iff_left hnumber).symm
  rw [coerce, if_neg hskip]
  obtain ⟨hne, hs, ht⟩ := not_or.1 hskip |>.imp_right not_or.1
  cases t with
  | float =>
    rw [and_iff_left (s.makesTruth_of_ne_bool (by decide))]
    cases hliteral : e.toFloatLiteral? with
    | none => exact folds_call.trans (and_iff_right (.inl rfl))
    | some literal =>
      have hfolds : e.Folds known ∧ literal.Folds known := folds_toFloatLiteral? hliteral
      exact iff_of_true hfolds.2 hfolds.1
  | int =>
    rw [and_iff_left (s.makesTruth_of_ne_bool (by decide))]
    exact folds_call.trans (and_iff_right (.inr rfl))
  | bool =>
    -- The call that makes a truth value is not one that folding evaluates.
    refine iff_of_false (fun h => ?_) fun h => ?_
    · obtain ⟨hname | hname, -⟩ := folds_call.1 h <;> simp [ScalarType.cName] at hname
    · simp [ScalarType.makesTruth, hne, hs] at h
  | void => exact absurd rfl ht

end Folds

/-! ### Converted expressions -/

/-- The argument of a call is not converted from a number to a truth value. The conversions
themselves take anything, so this says something of functions that are declared by their names. -/
def takesNumber (env : TypeEnv) : Expr → Bool
  | call callee [e] _ =>
    ((env.signature? callee).bind (·.param? 0)).all fun t => !(e.typeIn env).makesTruth t
  | _ => true

/-- Nowhere in the expression, nor when it is converted to a type, is a truth value made of a
number. -/
structure MakesNoTruth (env : TypeEnv) (target : ScalarType) (e : Expr) : Prop where
  inside : e.Everywhere (·.takesNumber env)
  outside : (e.typeIn env).makesTruth target = false

section Coerced

variable {env : TypeEnv} {again : Expr → Counted Expr} {known : KnownConstants Binary64}

theorem folds_coerceArg {s : ScalarType} {t : Option ScalarType} {e : Expr} :
    (e.coerceArg s t).value.Folds known ↔
      e.Folds known ∧ t.all (fun t => !s.makesTruth t) := by
  cases t with
  | none => simp [coerceArg]
  | some t => simp [coerceArg, folds_coerce]

theorem folds_applyBinary {op : BinaryOp} {common : ScalarType} {truncated : Bool} {l r : Expr}
    {c : Coord} :
    (applyBinary op common truncated l r c).value.Folds known ↔
      op.isFolded ∧ l.Folds known ∧ r.Folds known := by
  unfold applyBinary
  split
  · split
    · exact folds_binary
    · exact (folds_call.trans (and_iff_right (.inr rfl))).trans folds_binary
  · exact iff_of_false (not_folds rfl) fun h => Bool.false_ne_true h.1
  · exact folds_binary

theorem idName?_coercedWith (truncated : Bool) (e : Expr) :
    (e.coercedWith again env truncated).value.idName? = e.idName? := by
  cases e with
  | binary op l r c =>
    simp only [coercedWith, Counted.value_bind, applyBinary]
    split
    · split <;> rfl
    · rfl
    · rfl
  | assign op t v c =>
    simp only [coercedWith, Counted.value_bind]
    split
    · split <;> rfl
    · rfl
  | _ => rfl

/-- A subscript is a literal after its conversion if it was one before. -/
theorem intLiteral?_convertedSubscript (e : Expr) :
    ((e.coercedWith again env false).value.coerce (e.typeIn env) .int).value.intLiteral? =
      e.intLiteral? := by
  refine Option.ext fun i => ⟨fun h => intLiteral?_of_coercedWith (intLiteral?_of_coerce h),
    fun h => ?_⟩
  cases e with
  | literal value c =>
    have htype : value.kind.scalar = .int := by
      unfold intLiteral? Literal.intValue? at h
      cases hkind : value.kind with
      | int | char => rfl
      | float | string => simp [hkind] at h
    change ((literal value c).coerce value.kind.scalar .int).value.intLiteral? = some i
    rw [htype, coerce_self]
    exact h
  | _ => cases h

/-- A converted expression folds if the expression does and no truth value is made of a number in
it. -/
theorem folds_coercedWith (truncated : Bool) (e : Expr) :
    (e.coercedWith again env truncated).value.Folds known ↔
      e.Folds known ∧ e.Everywhere (·.takesNumber env) := by
  fun_induction fold? Binary64.arithmetic known e generalizing truncated with
  | case1 value c => simp [coercedWith, takesNumber]
  | case2 c | case3 name c hname => simp [coercedWith, takesNumber]
  | case4 array subscript c =>
    -- The name and the literal that are read stay, and nothing else is inside.
    have hsame : ((index array subscript c).coercedWith again env truncated).value.fold?
        Binary64.arithmetic known = (index array subscript c).fold? Binary64.arithmetic known := by
      simp only [coercedWith, Counted.value_bind, Counted.value_pure, fold?, idName?_coercedWith,
        intLiteral?_convertedSubscript]
    rw [Folds, hsame]
    refine (and_iff_left_of_imp fun h => ?_).symm
    obtain ⟨name, c₁, value, c₂, rfl, rfl⟩ := exists_of_folds_index h
    simp [takesNumber]
  | case5 op e c ih =>
    simp only [coercedWith, Counted.value_bind, Counted.value_pure, folds_unary, coerceOperand_eq,
      folds_coerce, ih, everywhere_unary]
    constructor
    · rintro ⟨hop, ⟨he, hinside⟩, -⟩
      exact ⟨⟨hop, he⟩, rfl, hinside⟩
    · rintro ⟨⟨hop, he⟩, -, hinside⟩
      exact ⟨hop, ⟨he, hinside⟩, UnaryOp.makesTruth_operandType hop _⟩
  | case6 op l r c ihl ihr =>
    simp only [coercedWith, Counted.value_bind, folds_applyBinary, folds_coerce, folds_binary,
      ihl, ihr, everywhere_binary]
    constructor
    · rintro ⟨hop, ⟨⟨hl, hinl⟩, -⟩, ⟨hr, hinr⟩, -⟩
      exact ⟨⟨hop, hl, hr⟩, rfl, hinl, hinr⟩
    · rintro ⟨⟨hop, hl, hr⟩, -, hinl, hinr⟩
      have hnumber (s : ScalarType) :
          s.makesTruth (operandType op (l.typeIn env) (r.typeIn env)) = false := by
        rw [BinaryOp.operandType_of_isFolded hop]
        exact s.makesTruth_of_ne_bool (ScalarType.arithmetic_ne_bool _ _)
      exact ⟨hop, ⟨⟨hl, hinl⟩, hnumber _⟩, ⟨hr, hinr⟩, hnumber _⟩
  | case7 callee e c ih =>
    simp only [coercedWith, coercedArgs, Counted.value_bind, Counted.value_pure, folds_call,
      folds_coerceArg, ih, everywhere_call, List.forall_mem_singleton]
    rw [takesNumber]
    tauto
  | case8 e hliteral hid hindex hunary hbinary hcall =>
    cases e with
    | literal value c => exact absurd rfl (hliteral value c)
    | id name c => exact absurd rfl (hid name c)
    | index a i c => exact absurd rfl (hindex a i c)
    | unary op e c => exact absurd rfl (hunary op e c)
    | binary op l r c => exact absurd rfl (hbinary op l r c)
    | call callee args c =>
      rcases args with _ | ⟨e, _ | ⟨e', rest⟩⟩
      · exact iff_of_false (not_folds rfl) fun h => not_folds rfl h.1
      · exact absurd rfl (hcall callee e c)
      · exact iff_of_false (not_folds rfl) fun h => not_folds rfl h.1
    | assign op t v c =>
      refine iff_of_false (fun h => ?_) fun h => not_folds rfl h.1
      simp only [coercedWith, Counted.value_bind] at h
      split at h
      · split at h <;> cases h
      · cases h
    | _ => exact iff_of_false (not_folds rfl) fun h => not_folds rfl h.1

/-- An expression that is converted to a type folds if it did before and no truth value is made of
a number. -/
theorem folds_coercedAs {target : ScalarType} {e : Expr} :
    (e.coercedAs env target).value.Folds known ↔ e.Folds known ∧ e.MakesNoTruth env target := by
  obtain ⟨again, -, heq⟩ := coerced_eq env e
  rw [coercedAs, Counted.value_bind, folds_coerce, heq, folds_coercedWith]
  constructor
  · rintro ⟨⟨he, hinside⟩, houtside⟩
    exact ⟨he, hinside, houtside⟩
  · rintro ⟨he, hinside, houtside⟩
    exact ⟨⟨he, hinside⟩, houtside⟩

theorem coercedItems_eq_map (env : TypeEnv) (target : ScalarType) (items : List Expr) :
    (coercedItems env target items).value =
      items.map fun e => (e.coercedAs env target).value := by
  induction items with
  | nil => rfl
  | cons e rest ih =>
    rw [coercedItems, Counted.value_bind, Counted.value_bind, Counted.value_pure, ih]
    rfl

/-- An expression that folds calls only conversions to numbers, which take anything unless a
function is declared by their names. -/
theorem everywhere_takesNumber
    (hint : env.signature? ScalarType.int.cName = some ⟨.int, .unchecked⟩)
    (hfloat : env.signature? ScalarType.float.cName = some ⟨.float, .unchecked⟩) {e : Expr}
    (h : e.Folds known) : e.Everywhere (·.takesNumber env) := by
  unfold Folds at h
  fun_induction fold? Binary64.arithmetic known e with
  | case1 value c | case2 c | case3 name c hname => simp [takesNumber]
  | case4 array subscript c =>
    obtain ⟨name, c₁, value, c₂, rfl, rfl⟩ := exists_of_folds_index (c := c) h
    simp [takesNumber]
  | case5 op e c ih =>
    obtain ⟨-, he⟩ := folds_unary (c := c).1 h
    exact everywhere_unary.2 ⟨rfl, ih he⟩
  | case6 op l r c ihl ihr =>
    obtain ⟨-, hl, hr⟩ := folds_binary (c := c).1 h
    exact everywhere_binary.2 ⟨rfl, ihl hl, ihr hr⟩
  | case7 callee e c ih =>
    obtain ⟨hname, he⟩ := folds_call (c := c).1 h
    refine everywhere_call.2 ⟨?_, List.forall_mem_singleton.2 (ih he)⟩
    rcases hname with rfl | rfl
    · simp [takesNumber, hfloat, Signature.param?]
    · simp [takesNumber, hint, Signature.param?]
  | case8 => cases h

end Coerced

end Expr

/-! ### Variables -/

theorem isSome_mapM {α β : Type} {f : α → Option β} {items : List α} :
    (items.mapM f).isSome ↔ ∀ a ∈ items, (f a).isSome := by
  induction items with
  | nil => simp
  | cons a rest ih =>
    rw [List.mapM_cons, List.forall_mem_cons, ← ih]
    cases f a with
    | none => simp
    | some b => cases rest.mapM f <;> simp

theorem Except.bind_eq_error {ε α β : Type} {x : Except ε α} {f : α → Except ε β} {err : ε}
    (h : x >>= f = .error err) : x = .error err ∨ ∃ a, x = .ok a ∧ f a = .error err := by
  cases x with
  | error err' => exact .inl (congrArg _ (Except.error.inj h))
  | ok a => exact .inr ⟨a, rfl, h⟩

theorem Except.map_eq_error {ε α β : Type} {x : Except ε α} {f : α → β} {err : ε}
    (h : x.map f = .error err) : x = .error err := by
  cases x with
  | error err' => exact congrArg _ (Except.error.inj h)
  | ok a => cases h

theorem Except.mapError_eq_error {ε ε' α : Type} {x : Except ε α} {f : ε → ε'} {err : ε'}
    (h : x.mapError f = .error err) : ∃ cause, x = .error cause ∧ f cause = err := by
  cases x with
  | error cause => exact ⟨cause, rfl, Except.error.inj h⟩
  | ok a => cases h

theorem exists_mem_of_mapM_eq_error {ε α β : Type} {f : α → Except ε β} {items : List α} {err : ε}
    (h : items.mapM f = .error err) : ∃ a ∈ items, f a = .error err := by
  induction items with
  | nil => cases h
  | cons a rest ih =>
    rw [List.mapM_cons] at h
    rcases Except.bind_eq_error h with h | ⟨b, -, h⟩
    · exact ⟨a, List.mem_cons_self, h⟩
    · rcases Except.bind_eq_error h with h | ⟨bs, -, h⟩
      · obtain ⟨a', ha', h⟩ := ih h
        exact ⟨a', List.mem_cons_of_mem _ ha', h⟩
      · cases h

theorem Expr.not_folds_of_foldNumber {known : KnownConstants Binary64} {type : ScalarType}
    {e : Expr} (h : e.foldNumber known type = .error .notConstant) : ¬e.Folds known := by
  intro hfolds
  obtain ⟨x, hx⟩ := Option.isSome_iff_exists.1 hfolds
  rw [foldNumber, hx] at h
  dsimp only at h
  split at h <;> cases h

namespace Decl

/-- The expressions that are folded for a variable. -/
def foldedExprs (d : Decl) : List Expr :=
  if d.isArray then (d.initItems.toOption.getD []).take (d.arrayLen?.getD 0) else d.init.toList

/-- An array has a length, and no initializer but a list. -/
def HasItems (d : Decl) : Prop :=
  d.isArray → d.arrayLen?.isSome ∧ d.initItems.toOption.isSome

/-- No truth value is made of a number where the initializer is converted. -/
def MakesNoTruths (env : TypeEnv) (d : Decl) : Prop :=
  ∀ e ∈ d.foldedExprs, e.MakesNoTruth env d.scalar

section Folding

variable {env : TypeEnv} {known : KnownConstants Binary64} {zero : Binary64} {d : Decl}

/-- A variable has a value if each expression of its initializer folds. -/
theorem isSome_foldIn? : (d.foldIn? Binary64.arithmetic zero known).isSome ↔
    d.HasItems ∧ ∀ e ∈ d.foldedExprs, e.Folds known := by
  have hfolds (e : Expr) :
      (e.foldAs? Binary64.arithmetic known d.scalar).isSome ↔ e.Folds known := by
    rw [Expr.foldAs?, Option.isSome_map]
    rfl
  unfold foldIn? HasItems foldedExprs
  by_cases harray : d.isArray
  · simp only [harray, if_true, forall_const]
    cases d.arrayLen? with
    | none => simp
    | some length =>
      cases d.initItems.toOption with
      | none => simp
      | some items =>
        simp only [Option.isSome_some, true_and, Option.getD_some, ← hfolds]
        rw [← isSome_mapM]
        change (Option.bind _ _).isSome ↔ _
        cases hgiven : (items.take length).mapM (Expr.foldAs? Binary64.arithmetic known d.scalar)
          <;> simp [hgiven]
  · simp only [harray, Bool.false_eq_true, if_false, false_implies, true_and]
    cases d.init with
    | none => simp
    | some e => simp [← hfolds]

/-- A value is a list if the variable is an array, of its length. -/
theorem arrayLen?_foldIn? {value : Value Binary64}
    (h : d.foldIn? Binary64.arithmetic zero known = some value) :
    value.arrayLen? = if d.isArray then d.arrayLen? else none := by
  unfold foldIn? at h
  split at h
  · next harray =>
    obtain ⟨length, hlength, h⟩ := Option.bind_eq_some_iff.1 h
    obtain ⟨items, -, h⟩ := Option.bind_eq_some_iff.1 h
    obtain ⟨xs, hxs, h⟩ := Option.bind_eq_some_iff.1 h
    cases h
    have hle : xs.length ≤ length := by
      rw [length_eq_of_mapM_eq_some hxs, List.length_take]
      exact Nat.min_le_left _ _
    rw [if_pos harray, hlength]
    simp only [Value.arrayLen?, List.length_append, List.length_replicate, Option.some.injEq]
    omega
  · next harray =>
    rw [if_neg harray]
    split at h
    · obtain ⟨x, -, rfl⟩ := Option.map_eq_some_iff.1 h
      rfl
    · cases h
      rfl

/-! ### Converted variables -/

/-- What becomes of an initializer: a list stays one, of converted items, and an expression stays
none. -/
theorem exists_init_coerced (env : TypeEnv) (d : Decl) :
    ∃ init, (d.coerced env).value = { d with init } ∧
      ((d.init = none ∧ init = none) ∨
        (∃ items c, d.init = some (.initList items c) ∧
          init = some (.initList (items.map fun e => (e.coercedAs env d.scalar).value) c)) ∨
        ∃ e e', d.init = some e ∧ e.isInitList = false ∧ init = some e' ∧ e'.isInitList = false ∧
          (d.isArray = false → e' = (e.coercedAs env d.scalar).value)) := by
  refine ⟨(d.coercedInit env).value, rfl, ?_⟩
  cases hinit : d.init with
  | none => exact .inl ⟨rfl, by simp [coercedInit, hinit]⟩
  | some e =>
    cases hlist : e.isInitList with
    | true =>
      cases e with
      | initList items c =>
        refine .inr (.inl ⟨items, c, rfl, ?_⟩)
        simp [coercedInit, hinit, Expr.coercedItems_eq_map]
      | _ => cases hlist
    | false =>
      have hcoerced := Expr.isInitList_coerced env hlist
      rw [coercedInit_of_init hinit hlist]
      by_cases harray : d.isArray
      · refine .inr (.inr ⟨e, (e.coerced env).value, rfl, hlist, ?_, hcoerced, ?_⟩)
        · rw [if_pos harray]
          rfl
        · exact fun h => absurd harray (Bool.eq_false_iff.1 h)
      · refine .inr (.inr ⟨e, (e.coercedAs env d.scalar).value, rfl, hlist, ?_, ?_, fun _ => rfl⟩)
        · rw [if_neg harray]
          rfl
        · exact Expr.isInitList_coerce _ _ hcoerced

theorem initLen?_of_expr {e : Expr} (h : d.init = some e) (he : e.isInitList = false) :
    d.initLen? = none := by
  rw [initLen?, h]
  cases e with
  | initList => cases he
  | _ => rfl

theorem initItems_of_expr {e : Expr} (h : d.init = some e) (he : e.isInitList = false) :
    d.initItems.toOption = none := by
  rw [initItems, h]
  cases e with
  | initList => cases he
  | _ => rfl

theorem arrayLen?_coerced (env : TypeEnv) (d : Decl) :
    (d.coerced env).value.arrayLen? = d.arrayLen? := by
  have hlen : (d.coerced env).value.initLen? = d.initLen? := by
    obtain ⟨init, heq, ⟨h, rfl⟩ | ⟨items, c, h, rfl⟩ | ⟨e, e', h, he, rfl, he', -⟩⟩ :=
      d.exists_init_coerced env <;> rw [heq]
    · simp [initLen?, h]
    · simp [initLen?, h]
    · rw [initLen?_of_expr h he]
      exact initLen?_of_expr rfl he'
  unfold arrayLen?
  rw [hlen]
  rfl

theorem hasItems_coerced : (d.coerced env).value.HasItems ↔ d.HasItems := by
  have hitems : (d.coerced env).value.initItems.toOption.isSome = d.initItems.toOption.isSome := by
    obtain ⟨init, heq, ⟨h, rfl⟩ | ⟨items, c, h, rfl⟩ | ⟨e, e', h, he, rfl, he', -⟩⟩ :=
      d.exists_init_coerced env <;> rw [heq]
    · simp [initItems, h]
    · simp [initItems, h, Except.toOption]
    · rw [initItems_of_expr h he]
      exact congrArg Option.isSome (initItems_of_expr rfl he')
  unfold HasItems
  rw [arrayLen?_coerced, hitems]
  rfl

/-- What is folded after the conversion folds if it did before and no truth value is made of a
number. -/
theorem forall_folds_coerced : (∀ e ∈ (d.coerced env).value.foldedExprs, e.Folds known) ↔
    (∀ e ∈ d.foldedExprs, e.Folds known) ∧ d.MakesNoTruths env := by
  have hlen := d.arrayLen?_coerced env
  unfold MakesNoTruths foldedExprs
  obtain ⟨init, heq, ⟨h, rfl⟩ | ⟨items, c, h, rfl⟩ | ⟨e, e', h, he, rfl, he', hsame⟩⟩ :=
    d.exists_init_coerced env <;> rw [heq] at hlen ⊢ <;> rw [hlen] <;>
    change (∀ e ∈ if d.isArray then _ else _, _) ↔ _
  · split <;> simp [initItems, h, Except.toOption]
  · split
    · simp only [initItems, h, Except.toOption, Option.getD_some, ← List.map_take,
        List.forall_mem_map, Expr.folds_coercedAs]
      exact forall₂_and
    · simp [h, Expr.Folds, Expr.fold?]
  · split
    · rw [initItems_of_expr h he, initItems_of_expr rfl he']
      simp
    · next harray =>
      simp only [h, hsame (Bool.eq_false_iff.2 harray), Option.toList_some,
        List.forall_mem_singleton, Expr.folds_coercedAs]

/-- A variable has a value after its initializer is converted if it had one before and no truth
value is made of a number. The constants known before may have other values than those known
after. -/
theorem isSome_foldIn?_coerced {known' : KnownConstants Binary64}
    (hknown : List.Forall₂ SameShape known known') :
    ((d.coerced env).value.foldIn? Binary64.arithmetic zero known').isSome ↔
      (d.foldIn? Binary64.arithmetic zero known).isSome ∧ d.MakesNoTruths env := by
  rw [isSome_foldIn?, isSome_foldIn?, hasItems_coerced, forall_folds_coerced, ← and_assoc]
  simp only [Expr.folds_iff_of_sameShape hknown]

end Folding

/-- A variable that is refused because it is no constant has no value. -/
theorem foldIn?_eq_none {known : KnownConstants Binary64} {name : String} {d : Decl}
    (h : d.foldValue known name = .error .notConstant) (zero : Binary64) :
    d.foldIn? Binary64.arithmetic zero known = none := by
  rw [← Option.not_isSome_iff_eq_none, isSome_foldIn?]
  rintro ⟨hitems, hfolds⟩
  have hrefused : d.foldNumbers known = .error .notConstant := by
    rcases Except.bind_eq_error h with h | ⟨value, -, h⟩
    · exact h
    · cases h
  unfold foldNumbers at hrefused
  unfold HasItems at hitems
  unfold foldedExprs at hfolds
  dsimp only at hrefused
  split at hrefused
  · next harray =>
    obtain ⟨hlength, hgiven⟩ := hitems harray
    obtain ⟨length, hlength⟩ := Option.isSome_iff_exists.1 hlength
    obtain ⟨items, hgiven⟩ := Option.isSome_iff_exists.1 hgiven
    rw [hlength] at hrefused
    rw [if_pos harray, hlength, hgiven] at hfolds
    rcases Except.bind_eq_error hrefused with hrefused | ⟨given, hok, hrefused⟩
    · rw [hrefused] at hgiven
      cases hgiven
    · obtain rfl : given = items := by
        rw [hok] at hgiven
        exact Option.some.inj hgiven
      rcases Except.bind_eq_error hrefused with hrefused | ⟨numbers, -, hrefused⟩
      · obtain ⟨e, he, hrefused⟩ := exists_mem_of_mapM_eq_error hrefused
        exact Expr.not_folds_of_foldNumber hrefused (hfolds e he)
      · cases hrefused
  · next harray =>
    rw [if_neg harray] at hfolds
    split at hrefused
    · next e he =>
      rw [he] at hfolds
      refine Expr.not_folds_of_foldNumber (Except.map_eq_error hrefused) (hfolds e ?_)
      exact List.mem_singleton_self e
    · cases hrefused

end Decl

/-! ### Variables in order -/

/-- The variables `ds` have values and the next one has none. -/
structure StopsAt (vars : List String) (known : KnownConstants Binary64) (ds : List Decl)
    (d : Decl) : Prop where
  before : (foldDecls Binary64.arithmetic (.zero false) vars known ds).isSome
  here : foldDecls Binary64.arithmetic (.zero false) vars known (ds ++ [d]) = none

section Stops

variable {vars : List String} {known : KnownConstants Binary64} {ds : List Decl} {d first : Decl}
  {name : String}

theorem stopsAt_cons_of_skipped (h : first.isExternal = true ∨ first.name = none) :
    StopsAt vars known (first :: ds) d ↔ StopsAt vars known ds d := by
  constructor <;> rintro ⟨hbefore, hhere⟩
  · rw [foldDecls_cons_of_skipped h] at hbefore
    rw [List.cons_append, foldDecls_cons_of_skipped h] at hhere
    exact ⟨hbefore, hhere⟩
  · refine ⟨?_, ?_⟩
    · rwa [foldDecls_cons_of_skipped h]
    · rwa [List.cons_append, foldDecls_cons_of_skipped h]

theorem stopsAt_cons_of_name (hexternal : first.isExternal = false)
    (hname : first.name = some name) :
    StopsAt vars known (first :: ds) d ↔
      ∃ value, first.foldIn? Binary64.arithmetic (.zero false) known = some value ∧
        StopsAt vars (if vars.contains name then known else (name, value) :: known) ds d := by
  constructor
  · rintro ⟨hbefore, hhere⟩
    rw [foldDecls_cons_of_name hexternal hname] at hbefore
    rw [List.cons_append, foldDecls_cons_of_name hexternal hname] at hhere
    cases hvalue : first.foldIn? Binary64.arithmetic (.zero false) known with
    | none =>
      rw [hvalue] at hbefore
      cases hbefore
    | some value =>
      rw [hvalue, Option.bind_some] at hbefore hhere
      rw [Option.isSome_map] at hbefore
      exact ⟨value, rfl, hbefore, Option.map_eq_none_iff.1 hhere⟩
  · rintro ⟨value, hvalue, hbefore, hhere⟩
    refine ⟨?_, ?_⟩
    · rwa [foldDecls_cons_of_name hexternal hname, hvalue, Option.bind_some, Option.isSome_map]
    · rw [List.cons_append, foldDecls_cons_of_name hexternal hname, hvalue, Option.bind_some,
        hhere]
      rfl

theorem stopsAt_nil : StopsAt vars known [] d ↔ d.isExternal = false ∧ (∃ x, d.name = some x) ∧
    d.foldIn? Binary64.arithmetic (.zero false) known = none := by
  have hhere : StopsAt vars known [] d ↔
      foldDecls Binary64.arithmetic (.zero false) vars known [d] = none :=
    ⟨fun h => h.here, fun h => ⟨rfl, h⟩⟩
  rw [hhere]
  by_cases hskip : d.isExternal = true ∨ d.name = none
  · rw [foldDecls_cons_of_skipped hskip]
    refine iff_of_false nofun fun h => ?_
    obtain ⟨hexternal, ⟨x, hname⟩, -⟩ := h
    simp [hexternal, hname] at hskip
  · obtain ⟨hexternal, hname⟩ := not_or.1 hskip
    obtain ⟨x, hname⟩ := Option.ne_none_iff_exists'.1 hname
    rw [foldDecls_cons_of_name (Bool.eq_false_iff.2 hexternal) hname]
    cases d.foldIn? Binary64.arithmetic (.zero false) known <;> simp [hexternal, hname, foldDecls]

/-- Variables whose converted initializers have values have values before, and where the converted
ones stop, the others do or a truth value is made of a number. -/
theorem StopsAt.of_coerced {env : TypeEnv} {known' : KnownConstants Binary64}
    (hknown : List.Forall₂ SameShape known known')
    (h : StopsAt vars known' (ds.map fun d => (d.coerced env).value) (d.coerced env).value) :
    (foldDecls Binary64.arithmetic (.zero false) vars known ds).isSome ∧
      (¬d.MakesNoTruths env ∨ StopsAt vars known ds d) := by
  induction ds generalizing known known' with
  | nil =>
    obtain ⟨hexternal, hname, hvalue⟩ := stopsAt_nil.1 h
    refine ⟨rfl, or_iff_not_imp_left.2 fun hnumbers => stopsAt_nil.2 ⟨hexternal, hname, ?_⟩⟩
    rw [← Option.not_isSome_iff_eq_none, Decl.isSome_foldIn?_coerced hknown] at hvalue
    rw [← Option.not_isSome_iff_eq_none]
    exact fun hsome => hvalue ⟨hsome, not_not.1 hnumbers⟩
  | cons first rest ih =>
    by_cases hskip : first.isExternal = true ∨ first.name = none
    · rw [foldDecls_cons_of_skipped hskip, stopsAt_cons_of_skipped hskip]
      have hskip' : (first.coerced env).value.isExternal = true ∨
          (first.coerced env).value.name = none := hskip
      exact ih hknown ((stopsAt_cons_of_skipped hskip').1 h)
    · obtain ⟨hexternal, hname⟩ := not_or.1 hskip
      have hexternal := Bool.eq_false_iff.2 hexternal
      obtain ⟨name, hname⟩ := Option.ne_none_iff_exists'.1 hname
      have hexternal' : (first.coerced env).value.isExternal = false := hexternal
      have hname' : (first.coerced env).value.name = some name := hname
      obtain ⟨value', hvalue', hrest⟩ := (stopsAt_cons_of_name hexternal' hname').1 h
      have hsome := (Decl.isSome_foldIn?_coerced hknown).1 (Option.isSome_of_eq_some hvalue')
      obtain ⟨value, hvalue⟩ := Option.isSome_iff_exists.1 hsome.1
      -- Its value may differ after the conversion, its length does not: only this matters later.
      have hshape : value.arrayLen? = value'.arrayLen? := by
        rw [Decl.arrayLen?_foldIn? hvalue, Decl.arrayLen?_foldIn? hvalue',
          Decl.arrayLen?_coerced]
        rfl
      obtain ⟨hbefore, hstops⟩ := ih (sameShape_known hknown hshape _) hrest
      refine ⟨?_, hstops.imp_right fun hstops => ?_⟩
      · rwa [foldDecls_cons_of_name hexternal hname, hvalue, Option.bind_some, Option.isSome_map]
      · exact (stopsAt_cons_of_name hexternal hname).2 ⟨value, hvalue, hstops⟩

/-- Where extraction refuses an initializer that is no constant, folding stops. -/
theorem exists_stopsAt_of_extractItems {globals : GlobalNames} {items : List Item} {x : String}
    (h : extractItems globals known items = .error (.value x .notConstant)) :
    ∃ ds d, ds ++ [d] <+: items.filterMap Item.global? ∧ d.name = some x ∧
      StopsAt globals.vars known ds d := by
  induction items generalizing known with
  | nil => cases h
  | cons item rest ih =>
    -- A variable that is left out is before those that stop.
    have hskipped (hnothing : item.GivesNothing)
        (h : extractItems globals known rest = .error (.value x .notConstant)) :
        ∃ ds d, ds ++ [d] <+: (item :: rest).filterMap Item.global? ∧ d.name = some x ∧
          StopsAt globals.vars known ds d := by
      obtain ⟨ds, d, hprefix, hx, hstops⟩ := ih h
      rcases hnothing.global?_cases with hnone | ⟨first, hfirst, hskip⟩
      · rw [List.filterMap_cons_none hnone]
        exact ⟨ds, d, hprefix, hx, hstops⟩
      · rw [List.filterMap_cons_some hfirst]
        exact ⟨first :: ds, d, List.cons_prefix_cons.2 ⟨rfl, hprefix⟩, hx,
          (stopsAt_cons_of_skipped hskip).2 hstops⟩
    cases item with
    | func f =>
      rw [List.filterMap_cons_none rfl]
      rcases Except.bind_eq_error h with h | ⟨kernel, -, h⟩
      · obtain ⟨cause, -, hcause⟩ := Except.mapError_eq_error h
        cases hcause
      · rcases Except.bind_eq_error h with h | ⟨kernels, -, h⟩
        · exact ih h
        · cases h
    | decl first =>
      by_cases hnothing : (Item.decl first).GivesNothing
      · rw [extractItems_cons_of_givesNothing hnothing] at h
        exact hskipped hnothing h
      obtain ⟨name, hfunction, hexternal, hname⟩ := Item.of_not_givesNothing hnothing
      rw [List.filterMap_cons_some (Item.global?_of_not_isFunction hfunction)]
      rw [extractItems_cons_of_name hfunction hexternal hname] at h
      rcases Except.bind_eq_error h with h | ⟨v, hvalue, hlater⟩
      · obtain ⟨cause, hcause, heq⟩ := Except.mapError_eq_error h
        cases heq
        refine ⟨[], first, List.cons_prefix_cons.2 ⟨rfl, List.nil_prefix⟩, hname, ?_⟩
        exact stopsAt_nil.2 ⟨hexternal, ⟨_, hname⟩, Decl.foldIn?_eq_none hcause _⟩
      · have hfold := Except.mapError_eq_ok hvalue
        obtain rfl := Decl.foldValue_name hfold
        have hrest := Except.map_eq_error hlater
        rw [GlobalNames.record_constant?] at hrest
        obtain ⟨ds, d, hprefix, hx, hstops⟩ := ih hrest
        refine ⟨first :: ds, d, List.cons_prefix_cons.2 ⟨rfl, hprefix⟩, hx, ?_⟩
        exact (stopsAt_cons_of_name hexternal hname).2
          ⟨_, Decl.foldIn?_of_foldValue hfold, hstops⟩

end Stops

/-! ### Units -/

namespace SourceUnit

/-- Conversions do not change which variables of a unit are constants. -/
theorem vars_globalNames_coerced (u : SourceUnit) (listed : List String) :
    (u.coerced.1.globalNames listed).vars = (u.globalNames listed).vars := by
  have hvariable (d : Decl) : (d.coerced (TypeEnv.ofUnit u)).value.isVariable listed =
      d.isVariable listed := by
    obtain ⟨init, heq, hcases⟩ := d.exists_init_coerced (TypeEnv.ofUnit u)
    have hnone : init.isNone = d.init.isNone := by
      rcases hcases with ⟨h, rfl⟩ | ⟨items, c, h, rfl⟩ | ⟨e, e', h, -, rfl, -⟩ <;> simp [h]
    rw [heq]
    simp only [Decl.isVariable, hnone]
    rfl
  change ((u.coerced.1.globals.filter (Decl.isVariable listed)).filterMap Decl.name) = _
  rw [globals_coerced, List.filter_map, List.filterMap_map]
  have hsame : Decl.isVariable listed ∘ (fun d => (d.coerced (TypeEnv.ofUnit u)).value) =
      Decl.isVariable listed := funext hvariable
  rw [hsame]
  rfl

/-- Writing out conversions makes an initializer that folds unfoldable just where it converts a
number to a truth value. A variable of a numeric type has no such initializer, unless a function is
declared by the name of a conversion. So where extraction refuses a variable of the converted unit
because its initializer is no constant, the variables before it fold in the unit itself, and either
its own initializer does not, or it converts a number to a truth value. The constants that are known
to an initializer may have other values after the conversion than before. -/
theorem extract_coerced_notConstant (u : SourceUnit) :
    (∀ d ∈ u.globals, (d.coerced (TypeEnv.ofUnit u)).value ∈ u.coerced.1.globals ∧
      ∀ known known', List.Forall₂ SameShape known known' →
        (((d.coerced (TypeEnv.ofUnit u)).value.foldIn? Binary64.arithmetic (.zero false)
            known').isSome ↔
          (d.foldIn? Binary64.arithmetic (.zero false) known).isSome ∧
            d.MakesNoTruths (TypeEnv.ofUnit u)) ∧
        (d.scalar ≠ .bool → u.avoids [ScalarType.int.cName, ScalarType.float.cName] →
          (d.foldIn? Binary64.arithmetic (.zero false) known).isSome →
            d.MakesNoTruths (TypeEnv.ofUnit u))) ∧
    ∀ (config : ExtractConfig) (x : String),
      u.coerced.1.extract config = .error (.value x .notConstant) →
        ∃ ds d, ds ++ [d] <+: u.globals ∧ d.name = some x ∧
          (foldDecls Binary64.arithmetic (.zero false) (u.globalNames config.vars).vars []
            ds).isSome ∧
          (¬d.MakesNoTruths (TypeEnv.ofUnit u) ∨
            StopsAt (u.globalNames config.vars).vars [] ds d) := by
  refine ⟨fun d hd => ⟨?_, fun known known' hknown => ⟨?_, fun hnumeric havoids hsome => ?_⟩⟩,
    fun config x h => ?_⟩
  · rw [globals_coerced]
    exact List.mem_map_of_mem hd
  · exact Decl.isSome_foldIn?_coerced hknown
  · have hint := signature?_conversion havoids (.inl rfl)
    have hfloat := signature?_conversion havoids (.inr rfl)
    obtain ⟨-, hfolds⟩ := Decl.isSome_foldIn?.1 hsome
    exact fun e he => ⟨Expr.everywhere_takesNumber hint hfloat (hfolds e he),
      ScalarType.makesTruth_of_ne_bool _ hnumeric⟩
  · -- Variables are converted one by one, so the refused one and those before it are the unit's.
    have hitems : extractItems (u.coerced.1.globalNames config.vars) [] u.coerced.1.items =
        .error (.value x .notConstant) := by
      rcases Except.bind_eq_error h with h | ⟨kernels, -, h⟩
      · exact h
      · cases h
    obtain ⟨ds', d', hprefix, hx, hstops⟩ := exists_stopsAt_of_extractItems hitems
    rw [← globals, globals_coerced] at hprefix
    rw [vars_globalNames_coerced] at hstops
    obtain ⟨before, hbefore, heq⟩ := List.prefix_map_iff.1 hprefix
    obtain ⟨ds, last, rfl, rfl, hlast⟩ := List.map_eq_append_iff.1 heq.symm
    obtain ⟨d, rfl, rfl⟩ := List.map_eq_singleton_iff.1 hlast
    exact ⟨ds, d, hbefore, hx, StopsAt.of_coerced .nil hstops⟩

end SourceUnit

/-! ### Examples -/

/-- The array `float share[3] = {1, n / 2};` after `int n = 2.9;`. -/
def shareArray : Decl :=
  .ofArray "share" .float (some 3) (some (.initList
    [.int 1 none, .binary .div (.id "n" none) (.int 2 none) none] none))

/-- The variable `bool flag = 1;`. -/
def flagDecl : Decl :=
  .ofScalar "flag" .bool (some (.int 1 none))

/-- The unit `int n = 2.9; float share[3] = {1, n / 2}; bool flag = 1;`. -/
def flagUnit : SourceUnit :=
  ⟨[.decl (.ofScalar "n" .int (some (.float "2.9" none))), .decl shareArray, .decl flagDecl], none⟩

/-- The array still folds when the constant before it is truncated, and the truth value is
refused. -/
theorem extract_coerced_notConstant_flagUnit :
    ((shareArray.coerced (TypeEnv.ofUnit flagUnit)).value.foldIn? Binary64.arithmetic (.zero false)
      [("n", .scalar (Binary64.ofInt 2))]).isSome ∧
    ∃ ds d, ds ++ [d] <+: flagUnit.globals ∧ d.name = some "flag" ∧
      (foldDecls Binary64.arithmetic (.zero false) [] [] ds).isSome ∧
      (¬d.MakesNoTruths (TypeEnv.ofUnit flagUnit) ∨ StopsAt [] [] ds d) := by
  obtain ⟨hfolds, hrefused⟩ := flagUnit.extract_coerced_notConstant
  refine ⟨?_, hrefused {} "flag" (by decide +kernel)⟩
  have hshare : shareArray ∈ flagUnit.globals :=
    SourceUnit.mem_globals.2 ⟨by simp [flagUnit], rfl⟩
  have hknown : List.Forall₂ SameShape [("n", Value.scalar (Binary64.ofInt 3))]
      [("n", Value.scalar (Binary64.ofInt 2))] := by simp [SameShape, Value.arrayLen?]
  obtain ⟨hiff, hnumbers⟩ := (hfolds shareArray hshare).2 _ _ hknown
  have hsome : (shareArray.foldIn? Binary64.arithmetic (.zero false)
      [("n", Value.scalar (Binary64.ofInt 3))]).isSome := by decide +kernel
  exact hiff.2 ⟨hsome, hnumbers (by decide) (by decide) hsome⟩

/-- The unit folds, and after normalization it is refused. -/
theorem extract_flagUnit :
    (flagUnit.extract {}).toOption.map recordedNumbers =
      some [("n", [some 2]), ("share", [some 1, some 1, some 0]), ("flag", [some 1])] ∧
    ∃ t report, normalize { baseName := "unit", capacity := 6 } flagUnit = .ok (t, report) ∧
      t.extract {} = .error (.value "flag" .notConstant) := by
  refine ⟨by decide +kernel, ?_⟩
  have hok : ((normalize { baseName := "unit", capacity := 6 } flagUnit).toOption.map fun run =>
      run.1.extract {}) = some (.error (.value "flag" .notConstant)) := by decide +kernel
  obtain ⟨⟨t, report⟩, hrun, hextract⟩ := Option.map_eq_some_iff.1 hok
  exact ⟨t, report, Except.eq_ok_of_toOption hrun, hextract⟩

end MathKernel
