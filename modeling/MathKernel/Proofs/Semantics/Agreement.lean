import MathKernel.Proofs.Number.Digits
import MathKernel.Proofs.Semantics.Typing

/-!
# Operators under the two sets of rules

The implicit rules give truth values as integers, the explicit rules as truth values. Up to this,
an operator of the implicit rules is the operator of the explicit rules on operands that are
converted first; a quotient of integers is truncated afterwards.

## Main definitions

* `Scalar.Fits` — the values of a type by the implicit rules
* `Scalar.seenAs` — the same value by the explicit rules

## Main results

* `Rules.explicit_binary`, `Rules.explicit_div`, `Rules.remainderOf?_eq` — binary operators
* `Rules.explicit_unary` — unary operators
* `Literal.integer?_of_readInt?`, `Literal.rational?_toString` — a literal and its floating form
-/

namespace MathKernel

namespace Scalar

/-- A value of the given type by the implicit rules: a truth value may be an integer. -/
def Fits (t : ScalarType) (v : Scalar) : Prop :=
  v.type = t ∨ (t = .bool ∧ ∃ b, v = int (bit b))

/-- The value of the given type by the explicit rules. -/
def seenAs (t : ScalarType) (v : Scalar) : Scalar :=
  if t = .bool then v.convert .bool else v

@[simp] theorem convert_bool_bit (b : Bool) : (int (bit b)).convert .bool = bool b := by
  cases b <;> rfl

@[simp] theorem seenAs_bool (v : Scalar) : v.seenAs .bool = v.convert .bool := rfl

variable {s t : ScalarType} {v : Scalar}

theorem Fits.of_type (h : v.type = t) : v.Fits t :=
  .inl h

theorem Fits.type_eq (h : v.Fits t) (ht : t ≠ .bool) : v.type = t :=
  h.resolve_right fun hbool => ht hbool.1

theorem fits_bit (b : Bool) : (int (bit b)).Fits .bool :=
  .inr ⟨rfl, b, rfl⟩

theorem convert_of_type (h : v.type = t) : v.convert t = v := by
  subst h
  cases v <;> rfl

theorem seenAs_of_type (h : v.type = t) : v.seenAs t = v := by
  unfold seenAs
  split
  · next hbool => exact convert_of_type (h.trans hbool)
  · rfl

/-- What a value is seen as is its conversion. -/
theorem Fits.seenAs_eq (h : v.Fits t) : v.seenAs t = v.convert t := by
  by_cases hbool : t = .bool
  · rw [hbool, seenAs_bool]
  · rw [seenAs_of_type (h.type_eq hbool), convert_of_type (h.type_eq hbool)]

/-- A conversion does not tell a value from what it is seen as. -/
theorem Fits.convert_seenAs (h : v.Fits s) (t : ScalarType) :
    (v.seenAs s).convert t = v.convert t := by
  rcases h with rfl | ⟨rfl, b, rfl⟩
  · rw [seenAs_of_type rfl]
  · rw [seenAs_bool, convert_bool_bit]
    cases t <;> cases b <;> rfl

theorem Fits.ne_void (h : v.Fits s) (hs : s ≠ .void) : v ≠ void := by
  rintro rfl
  rcases h with rfl | ⟨-, b, hb⟩
  · exact hs rfl
  · cases hb

theorem type_convert (hv : v ≠ void) (t : ScalarType) : (v.convert t).type = t := by
  cases v <;> cases t <;> first | contradiction | rfl

theorem Fits.type_convert (h : v.Fits s) (hs : s ≠ .void) (t : ScalarType) :
    (v.convert t).type = t :=
  Scalar.type_convert (h.ne_void hs) t

theorem exists_int (h : v.type = .int) : ∃ n, v = int n := by
  cases v <;> first | contradiction | exact ⟨_, rfl⟩

theorem exists_float (h : v.type = .float) : ∃ q, v = float q := by
  cases v <;> first | contradiction | exact ⟨_, rfl⟩

theorem exists_bool (h : v.type = .bool) : ∃ b, v = bool b := by
  cases v <;> first | contradiction | exact ⟨_, rfl⟩

theorem Fits.type_eq_float_iff (h : v.Fits s) : v.type = .float ↔ s = .float := by
  rcases h with rfl | ⟨rfl, b, rfl⟩ <;> simp [type]

end Scalar

/-! ### Rules -/

namespace Rules

open Scalar

variable {s t : ScalarType} {v w : Scalar}

theorem implicit_expect? (hv : v.Fits s) (hs : s ≠ .void) (t : ScalarType) :
    implicit.expect? t v = some (v.convert t) :=
  if_pos (hv.type_convert hs t)

theorem explicit_expect? (hv : v.type = t) : explicit.expect? t v = some v :=
  if_pos hv

/-- A value that is expected in some type is converted to it. -/
theorem explicit_expect?_convert (hv : v.Fits s) (hs : s ≠ .void) (t : ScalarType) :
    explicit.expect? t (v.convert t) = implicit.expect? t v := by
  rw [implicit_expect? hv hs, explicit_expect? (hv.type_convert hs t)]

/-- A number is passed as it is where no parameter is declared. -/
theorem explicit_argument?_none (hv : v.Fits s) (hs : s ≠ .bool) :
    explicit.argument? none (v.seenAs s) = implicit.argument? none v := by
  have htype : v.type ≠ .bool := by
    rw [hv.type_eq hs]
    exact hs
  rw [seenAs_of_type (hv.type_eq hs)]
  simp only [argument?, explicit, implicit, if_neg htype]

theorem explicit_condition?_convert (v : Scalar) :
    explicit.condition? (v.convert .bool) = implicit.condition? v := rfl

/-- The implicit rules convert both operands to their common type. -/
theorem implicit_balance (hv : v.Fits s) (hw : w.Fits t) (hs : s ≠ .void) (ht : t ≠ .void) :
    implicit.balance v w =
      (v.convert (.arithmetic s t), w.convert (.arithmetic s t)) := by
  rw [ScalarType.arithmetic_eq hs ht]
  simp only [implicit, hv.type_eq_float_iff, hw.type_eq_float_iff]
  split_ifs <;> rfl

/-- Other than quotients and remainders, operators on integers agree up to truth values. -/
theorem explicit_onInts {op : BinaryOp} (hdiv : op ≠ .div) (hmod : op ≠ .mod) (a b : Int) :
    explicit.onInts op a b = (implicit.onInts op a b).map (seenAs (op.resultType .int .int)) := by
  cases op with
  | div => exact absurd rfl hdiv
  | mod => exact absurd rfl hmod
  | shl | shr =>
    by_cases hb : 0 ≤ b
    · simp only [onInts, hb]
      rfl
    · simp [onInts, hb]
  | lt | le | gt | ge | eq | ne =>
    simp [onInts, BinaryOp.compare?, implicit, explicit, BinaryOp.resultType, BinaryOp.isLogical,
      BinaryOp.isBitwise, BinaryOp.isComparison]
  | _ => rfl

theorem explicit_onFloats (op : BinaryOp) (a b : Rat) :
    explicit.onFloats op a b =
      (implicit.onFloats op a b).map (seenAs (op.resultType .float .float)) := by
  cases op with
  | div =>
    by_cases hb : b = 0
    · simp [onFloats, hb]
    · simp only [onFloats, hb]
      rfl
  | lt | le | gt | ge | eq | ne =>
    simp [onFloats, BinaryOp.compare?, implicit, explicit, BinaryOp.resultType,
      BinaryOp.isLogical, BinaryOp.isBitwise, BinaryOp.isComparison]
  | _ => rfl

theorem fits_of_onInts {op : BinaryOp} {a b : Int} (h : implicit.onInts op a b = some v) :
    v.Fits (op.resultType .int .int) := by
  cases op with
  | div | mod | shl | shr =>
    simp only [onInts] at h
    split at h <;> cases h
    exact .of_type rfl
  | lt | le | gt | ge | eq | ne =>
    cases h
    exact fits_bit _
  | and | or => cases h
  | _ =>
    cases h
    exact .of_type rfl

theorem fits_of_onFloats {op : BinaryOp} {a b : Rat} (h : implicit.onFloats op a b = some v) :
    v.Fits (op.resultType .float .float) := by
  cases op with
  | div =>
    simp only [onFloats] at h
    split at h <;> cases h
    exact .of_type rfl
  | lt | le | gt | ge | eq | ne =>
    cases h
    exact fits_bit _
  | add | sub | mul =>
    cases h
    exact .of_type rfl
  | _ => cases h

section Operands

variable (hv : v.Fits s) (hw : w.Fits t) (hs : s ≠ .void) (ht : t ≠ .void)
include hv hw hs ht

theorem implicit_binary_int (op : BinaryOp) (h : ScalarType.arithmetic s t = .int) :
    ∃ a b, v.convert .int = .int a ∧ w.convert .int = .int b ∧
      implicit.binary op v w = implicit.onInts op a b := by
  obtain ⟨a, ha⟩ := exists_int (hv.type_convert hs .int)
  obtain ⟨b, hb⟩ := exists_int (hw.type_convert ht .int)
  refine ⟨a, b, ha, hb, ?_⟩
  rw [binary, implicit_balance hv hw hs ht, h, ha, hb]

theorem implicit_binary_float (op : BinaryOp) (h : ScalarType.arithmetic s t = .float) :
    ∃ a b, v.convert .float = .float a ∧ w.convert .float = .float b ∧
      implicit.binary op v w = implicit.onFloats op a b := by
  obtain ⟨a, ha⟩ := exists_float (hv.type_convert hs .float)
  obtain ⟨b, hb⟩ := exists_float (hw.type_convert ht .float)
  refine ⟨a, b, ha, hb, ?_⟩
  rw [binary, implicit_balance hv hw hs ht, h, ha, hb]

/-- The result of an operator has the type that is found for it. -/
theorem fits_binary {op : BinaryOp} {r : Scalar} (h : implicit.binary op v w = some r) :
    r.Fits (op.resultType s t) := by
  rw [← BinaryOp.resultType_arithmetic op hs ht]
  rcases ScalarType.arithmetic_eq_or hs ht with hint | hfloat
  · obtain ⟨a, b, -, -, heq⟩ := implicit_binary_int hv hw hs ht op hint
    rw [hint]
    exact fits_of_onInts (heq.symm.trans h)
  · obtain ⟨a, b, -, -, heq⟩ := implicit_binary_float hv hw hs ht op hfloat
    rw [hfloat]
    exact fits_of_onFloats (heq.symm.trans h)

/-- An operator on operands that are converted to the arithmetic type. -/
theorem explicit_binary_arithmetic {op : BinaryOp}
    (hdiv : ¬(op = .div ∧ ScalarType.arithmetic s t = .int))
    (hmod : ¬(op = .mod ∧ ScalarType.arithmetic s t = .int)) :
    explicit.binary op (v.convert (.arithmetic s t)) (w.convert (.arithmetic s t)) =
      (implicit.binary op v w).map (seenAs (op.resultType s t)) := by
  rw [← BinaryOp.resultType_arithmetic op hs ht]
  rcases ScalarType.arithmetic_eq_or hs ht with hint | hfloat
  · obtain ⟨a, b, ha, hb, heq⟩ := implicit_binary_int hv hw hs ht op hint
    rw [hint, ha, hb, heq]
    exact explicit_onInts (fun h => hdiv ⟨h, hint⟩) (fun h => hmod ⟨h, hint⟩) a b
  · obtain ⟨a, b, ha, hb, heq⟩ := implicit_binary_float hv hw hs ht op hfloat
    rw [hfloat, ha, hb, heq]
    exact explicit_onFloats op a b

/-- Comparing truth values is comparing the integers that stand for them. -/
theorem explicit_binary_truth {op : BinaryOp} (hcomparison : op.isComparison)
    (hs' : s = .bool) (ht' : t = .bool) :
    explicit.binary op (v.convert .bool) (w.convert .bool) =
      (implicit.binary op v w).map (seenAs .bool) := by
  subst hs' ht'
  obtain ⟨a, ha⟩ := exists_bool (hv.type_convert hs .bool)
  obtain ⟨b, hb⟩ := exists_bool (hw.type_convert ht .bool)
  obtain ⟨i, j, hi, hj, heq⟩ := implicit_binary_int hv hw hs ht op rfl
  have hi' : i = bit a := by
    have := hv.convert_seenAs .int
    rw [seenAs_bool, ha, hi] at this
    exact (Scalar.int.inj this).symm
  have hj' : j = bit b := by
    have := hw.convert_seenAs .int
    rw [seenAs_bool, hb, hj] at this
    exact (Scalar.int.inj this).symm
  subst hi' hj'
  rw [ha, hb, heq]
  cases op with
  | lt | le | gt | ge | eq | ne => cases a <;> cases b <;> rfl
  | _ => cases hcomparison

/-- Other than quotients and remainders of integers, an operator is the same on operands that are
converted to their common type. -/
theorem explicit_binary {op : BinaryOp} (hlogical : op.isLogical = false)
    (hbits : op.isBitwise → s ≠ .float ∧ t ≠ .float)
    (hdiv : ¬(op = .div ∧ Expr.operandType op s t = .int))
    (hmod : ¬(op = .mod ∧ Expr.operandType op s t = .int)) :
    explicit.binary op (v.convert (Expr.operandType op s t)) (w.convert (Expr.operandType op s t)) =
      (implicit.binary op v w).map (seenAs (op.resultType s t)) := by
  by_cases htruth : op.isComparison ∧ s = .bool ∧ t = .bool
  · obtain ⟨hcomparison, rfl, rfl⟩ := htruth
    rw [Expr.operandType_truth hcomparison, BinaryOp.resultType_comparison hcomparison]
    exact explicit_binary_truth hv hw hs ht hcomparison rfl rfl
  · have hcommon : Expr.operandType op s t = .arithmetic s t :=
      Expr.operandType_eq_arithmetic hlogical hs ht hbits htruth
    rw [hcommon] at hdiv hmod ⊢
    exact explicit_binary_arithmetic hv hw hs ht hdiv hmod

/-- A quotient of integers is the truncated exact quotient. -/
theorem explicit_div (h : ScalarType.arithmetic s t = .int) :
    (explicit.binary .div (v.convert .int) (w.convert .int)).map (convert .int) =
      implicit.binary .div v w := by
  obtain ⟨a, b, ha, hb, heq⟩ := implicit_binary_int hv hw hs ht .div h
  rw [ha, hb, heq]
  change (if b = 0 then none else some (.float (a / b))).map (convert .int) =
    if b = 0 then none else some (.int (a.tdiv b))
  by_cases hzero : b = 0
  · rw [if_pos hzero, if_pos hzero]
    rfl
  · rw [if_neg hzero, if_neg hzero]
    exact congrArg (fun n => some (Scalar.int n)) (truncate_div a hzero)

/-- A remainder of integers is what the remainder function gives. -/
theorem remainderOf?_eq (h : ScalarType.arithmetic s t = .int) :
    remainderOf? [.scalar (v.convert .int), .scalar (w.convert .int)] =
      implicit.binary .mod v w := by
  obtain ⟨a, b, ha, hb, heq⟩ := implicit_binary_int hv hw hs ht .mod h
  rw [ha, hb, heq]
  rfl

end Operands

/-- The value of a branch is converted to the common type `unify s t` of the two branches. -/
theorem seenAs_join {r s' t' : ScalarType} (hs : s.Refines s') (ht : t.Refines t') (hs' : s ≠ .void)
    (ht' : t ≠ .void) (hr : r = s ∨ r = t) (hv : v.Fits r) :
    (implicit.join s' t' v).Fits (.unify s t) ∧
      (implicit.join s' t' v).seenAs (.unify s t) = v.convert (.unify s t) := by
  have hrvoid : r ≠ .void := by rcases hr with rfl | rfl <;> assumption
  have hjoin : implicit.join s' t' v =
      if s = .float ∨ t = .float then v.convert .float else v.convert .int := by
    simp only [hs.eq_float_iff, ht.eq_float_iff]
    rfl
  have hfits (u : ScalarType) (h : implicit.join s' t' v = v.convert u)
      (hu : ScalarType.unify s t = u) : (implicit.join s' t' v).Fits (.unify s t) ∧
        (implicit.join s' t' v).seenAs (.unify s t) = v.convert (.unify s t) := by
    rw [h, hu]
    exact ⟨.of_type (hv.type_convert hrvoid u), seenAs_of_type (hv.type_convert hrvoid u)⟩
  by_cases hfloat : s = .float ∨ t = .float
  · rw [if_pos hfloat] at hjoin
    refine hfits .float hjoin ?_
    rcases hfloat with rfl | rfl
    · simp [ScalarType.unify]
    · simp [ScalarType.unify]
  · rw [if_neg hfloat] at hjoin
    by_cases hbool : s = .bool ∧ t = .bool
    · obtain ⟨rfl, rfl⟩ := hbool
      obtain rfl : r = .bool := by simpa using hr
      -- Two truth values are joined as integers, which stand for truth values again.
      have hint : v.convert .int = (v.convert .bool).convert .int := (hv.convert_seenAs .int).symm
      obtain ⟨b, hb⟩ := exists_bool (hv.type_convert hrvoid .bool)
      rw [hjoin, ScalarType.unify_self, hint, hb]
      exact ⟨fits_bit b, convert_bool_bit b⟩
    · refine hfits .int hjoin ?_
      cases s <;> cases t <;> first | contradiction | rfl

theorem unary_not (rules : Rules) (v : Scalar) :
    rules.unary .not v = (rules.condition? v).map fun b => rules.truth !b := by
  cases rules.promote v <;> simp [unary]

/-- A unary operator is the same on an operand that is converted first. -/
theorem explicit_unary {op : UnaryOp} (hv : v.Fits s) (hbits : op = .bitNot → s ≠ .float)
    (hop : op.isMutating = false) :
    explicit.unary op (v.convert (op.operandType s)) =
      (implicit.unary op v).map (seenAs (op.resultType s)) := by
  cases op with
  | not =>
    rw [unary_not, unary_not, Option.map_map]
    refine congrArg (fun f => Option.map f (implicit.condition? v)) (funext fun b => ?_)
    exact (convert_bool_bit _).symm
  | bitNot =>
    cases v with
    | int | bool | void => rfl
    | float q => exact absurd (hv.type_eq_float_iff.1 rfl) (hbits rfl)
  | neg | plus =>
    -- A sign makes a truth value an integer and keeps the type of a number.
    rcases hv with rfl | ⟨rfl, b, rfl⟩
    · cases v <;> rfl
    · rfl
  | preInc | preDec | postInc | postDec => cases hop

theorem fits_unary {op : UnaryOp} {r : Scalar} (hv : v.Fits s)
    (h : implicit.unary op v = some r) : r.Fits (op.resultType s) := by
  cases op with
  | not =>
    rw [unary_not] at h
    obtain ⟨b, -, rfl⟩ := Option.map_eq_some_iff.1 h
    exact fits_bit _
  | bitNot => cases v <;> cases h <;> exact .of_type rfl
  | neg | plus =>
    rcases hv with rfl | ⟨rfl, b, rfl⟩
    · cases v <;> cases h <;> exact .of_type rfl
    · cases h
      exact .of_type rfl
  | preInc | preDec | postInc | postDec => cases v <;> cases h

/-- Counting a number up or down is the same by both sets of rules. -/
theorem explicit_step (op : UnaryOp) (hv : v.type ≠ .bool) :
    explicit.step op v = implicit.step op v ∧
      ∀ r, implicit.step op v = some r → r.type = v.type := by
  cases v with
  | int n | float q =>
    constructor
    · cases op <;> rfl
    · intro r h
      cases op <;> cases h <;> rfl
  | bool b => exact absurd rfl hv
  | void =>
    constructor
    · cases op <;> rfl
    · intro r h
      cases op <;> cases h

end Rules

/-! ### Literals -/

namespace Literal

/-- A signed integer is read, and then held against the bounds of 64 bits. -/
theorem readInt64?_eq (radix : Nat) (text : List Char) :
    readInt64? radix text =
      (signedInt? radix text).bind fun n => if InInt64 n then some n else none := by
  cases text with
  | nil => rfl
  | cons c rest =>
    by_cases hminus : c = '-'
    · subst hminus
      rfl
    · by_cases hplus : c = '+'
      · subst hplus
        rfl
      · simp [readInt64?, signedInt?, hminus, hplus, Option.bind]

theorem signedInt?_of_readInt64? {radix : Nat} {text : List Char} {n : Int}
    (h : readInt64? radix text = some n) : signedInt? radix text = some n := by
  rw [readInt64?_eq] at h
  obtain ⟨k, hk, h⟩ := Option.bind_eq_some_iff.1 h
  split at h <;> cases h
  exact hk

theorem type_of_scalar? {l : Literal} {v : Scalar} (h : l.scalar? = some v) :
    v.type = l.kind.scalar := by
  obtain ⟨kind, text⟩ := l
  cases kind with
  | string => cases h
  | int | char | float =>
    obtain ⟨x, -, rfl⟩ := Option.map_eq_some_iff.1 h
    rfl

theorem withRadix_imp {read read' : Nat → List Char → Option Int} {n : Int}
    (h : ∀ radix text, read radix text = some n → read' radix text = some n) (text : List Char) :
    withRadix read text = some n → withRadix read' text = some n := by
  simp only [withRadix]
  split
  · exact h 16 _
  · split
    · exact h 8 _
    · exact h 10 _

/-- A literal that fits 64 bits is read the same without this bound. -/
theorem integer?_of_readInt? {text : List Char} {n : Int} (h : readInt? text = some n) :
    integer? text = some n :=
  withRadix_imp (fun _ _ => signedInt?_of_readInt64?) text h

/-- The number before a point and a zero. -/
theorem readUnsigned?_toDigits (negative : Bool) (n : Nat) :
    Decimal.readUnsigned? negative (Nat.toDigits 10 n ++ ['.', '0']) =
      some ⟨negative, 10 * n, -1⟩ := by
  have hdigits : ∀ c ∈ Nat.toDigits 10 n, c.isDigit := fun c hc =>
    Nat.isDigit_of_mem_toDigits (by decide) (by decide) hc
  have htake : (Nat.toDigits 10 n ++ ['.', '0']).takeWhile Char.isDigit = Nat.toDigits 10 n := by
    rw [List.takeWhile_append_of_pos hdigits]
    simp
  have hdrop : (Nat.toDigits 10 n ++ ['.', '0']).dropWhile Char.isDigit = ['.', '0'] := by
    rw [List.dropWhile_append_of_pos hdigits]
    simp
  have hvalue : digitsToNat (Nat.toDigits 10 n ++ ['0']) = 10 * n := by
    rw [digitsToNat, List.foldl_append]
    change 10 * digitsToNat (Nat.toDigits 10 n) + 0 = 10 * n
    rw [digitsToNat_toDigits, Nat.add_zero]
  rw [Decimal.readUnsigned?, htake, hdrop]
  simp [Decimal.splitFraction, Decimal.readExponent?, hvalue]

theorem toRat_shifted (negative : Bool) (n : Nat) :
    Decimal.toRat ⟨negative, 10 * n, -1⟩ = if negative then -(n : Rat) else n := by
  change mkRat ((if negative then -1 else 1) * ((10 * n : Nat) : Int)) 10 = _
  rw [Rat.mkRat_eq_div]
  cases negative with
  | false => simp
  | true =>
    simp [neg_div]

theorem dropFloatSuffix_point (text : List Char) :
    dropFloatSuffix (text ++ ['.', '0']) = text ++ ['.', '0'] := by
  rw [dropFloatSuffix, dropTrailing, List.reverse_append]
  simp [isFloatSuffix]

/-- The text of an integer with a point and a zero is read as that integer. -/
theorem rational?_toString (n : Int) : rational? (toString n ++ ".0").toList = some (n : Rat) := by
  have htext : (toString n ++ ".0").toList = (toString n).toList ++ ['.', '0'] := by
    rw [String.toList_append]
    rfl
  rw [htext, rational?, dropFloatSuffix_point]
  cases n with
  | ofNat n =>
    have hdigits : (toString (Int.ofNat n)).toList = Nat.toDigits 10 n := Nat.toList_repr
    have hmem (c : Char) (h : c ∈ Nat.toDigits 10 n ++ ['.', '0']) : c.isDigit ∨ c = '.' := by
      rcases List.mem_append.1 h with h | h
      · exact .inl (Nat.isDigit_of_mem_toDigits (by decide) (by decide) h)
      · simp only [List.mem_cons, List.not_mem_nil, or_false] at h
        rcases h with rfl | rfl <;> decide
    have hsign : Decimal.splitSign (Nat.toDigits 10 n ++ ['.', '0']) =
        (false, Nat.toDigits 10 n ++ ['.', '0']) := by
      unfold Decimal.splitSign
      split
      · next h => exact absurd (hmem _ (by rw [h]; exact List.mem_cons_self)) (by decide)
      · next h => exact absurd (hmem _ (by rw [h]; exact List.mem_cons_self)) (by decide)
      · rfl
    simp only [hdigits, hsign, readUnsigned?_toDigits]
    simp [toRat_shifted]
  | negSucc n =>
    have hdigits : (toString (Int.negSucc n)).toList = '-' :: Nat.toDigits 10 (n + 1) := by
      change ("-" ++ Nat.repr (n + 1)).toList = _
      rw [String.toList_append, Nat.toList_repr]
      rfl
    rw [hdigits]
    change ((Decimal.readUnsigned? true (Nat.toDigits 10 (n + 1) ++ ['.', '0'])).map _) = _
    rw [readUnsigned?_toDigits]
    simp [toRat_shifted]

end Literal

end MathKernel
