import MathKernel.Proofs.Kernel.FoldedValues
import MathKernel.Proofs.Normalize.CoercedValues
import MathKernel.Proofs.Normalize.RewrittenConstants

/-!
# Values of converted constants

Folding knows no types: it divides exactly and stores what it is given. When the conversions of a
constant expression are written out, folding it in exact arithmetic still gives the number that
the expression has by the rules of C, where each quotient of integers is truncated.

## Main definitions

* `KnownAs`, `ConstantsAgree` — known numbers are those of the constants, which have their declared
  types
* `FoldsAs` — a constant and the number that is folded for it

## Main results

* `Expr.foldsAs_coercedWith` — converted constant expressions
* `Decl.foldIn?_coerced` — variables with converted initializers
-/

namespace MathKernel

open Scalar

/-! ### Numbers -/

namespace Scalar

variable {s t : ScalarType} {v w : Scalar}

theorem toRat_convert_float (v : Scalar) : (v.convert .float).toRat = v.toRat := by
  cases v <;> rfl

theorem toRat_convert_int (v : Scalar) : (v.convert .int).toRat = truncate v.toRat := by
  cases v with
  | int n => simp [convert, toRat]
  | float q => rfl
  | bool b => simp [convert, toRat]
  | void => rfl

theorem toRat_zero (t : ScalarType) : (zero t).toRat = 0 := by
  cases t <;> rfl

end Scalar

/-- The known numbers are those of a value of a type. Of an array only the first items may be
known. -/
structure KnownAs (type : ScalarType) (value : Value Scalar) (entry : Value (Option ℚ)) : Prop where
  ne_void : type ≠ .void
  typed : ∀ v ∈ value.numbers, v.type = type
  number : ∃ n, entry = (value.take n).map fun v => some v.toRat

/-- Known numbers are those of the constants, which have their declared types. -/
structure ConstantsAgree (env : TypeEnv) (values : ConstantValues)
    (known : KnownConstants (Option ℚ)) : Prop where
  notANumber : values notANumber = none
  known : ∀ {name value entry}, values name = some value → known.lookup name = some entry →
    KnownAs (env.variableType name) value entry

/-- A constant of a type and the number that is folded for it. The number may be an exact quotient
if it is truncated next. -/
structure FoldsAs (truncated : Bool) (t : ScalarType) (v : Scalar) (y : Option ℚ) : Prop where
  type : v.type = t
  ne_void : t ≠ .void
  truncates : ∃ q, y = some q ∧ truncate q = truncate v.toRat
  exact : truncated = false → y = some v.toRat

theorem FoldsAs.of_number {truncated : Bool} {t : ScalarType} {v : Scalar} {q : ℚ}
    (htype : v.type = t) (ht : t ≠ .void) (hq : q = v.toRat) : FoldsAs truncated t v (some q) := by
  subst hq
  exact ⟨htype, ht, ⟨_, rfl, rfl⟩, fun _ => rfl⟩

theorem FoldsAs.weaken {t : ScalarType} {v : Scalar} {y : Option ℚ} (h : FoldsAs false t v y)
    (truncated : Bool) : FoldsAs truncated t v y :=
  ⟨h.type, h.ne_void, h.truncates, fun _ => h.exact rfl⟩

theorem FoldsAs.value_ne_void {truncated : Bool} {t : ScalarType} {v : Scalar} {y : Option ℚ}
    (h : FoldsAs truncated t v y) : v ≠ .void := by
  rintro rfl
  exact h.ne_void h.type.symm

/-- What is folded for an integer conversion, by which quotients are truncated. -/
theorem FoldsAs.convert_int {truncated : Bool} {t : ScalarType} {v : Scalar} {y : Option ℚ}
    (h : FoldsAs truncated t v y) (truncated' : Bool) :
    FoldsAs truncated' .int (v.convert .int) (exactArithmetic.trunc y) := by
  obtain ⟨q, rfl, hq⟩ := h.truncates
  refine .of_number (type_convert h.value_ne_void .int) (by simp) ?_
  rw [toRat_convert_int]
  exact congrArg Int.cast hq

/-- Truncating the number that is folded for an integer gives the integer. -/
theorem FoldsAs.trunc {truncated : Bool} {v : Scalar} {y : Option ℚ}
    (h : FoldsAs truncated .int v y) (truncated' : Bool) :
    FoldsAs truncated' .int v (exactArithmetic.trunc y) := by
  have hconverted := h.convert_int truncated'
  rwa [convert_of_type h.type] at hconverted

theorem FoldsAs.convert_float {t : ScalarType} {v : Scalar} {y : Option ℚ}
    (h : FoldsAs false t v y) : FoldsAs false .float (v.convert .float) y := by
  rw [h.exact rfl]
  exact .of_number (type_convert h.value_ne_void .float) (by simp) (toRat_convert_float v).symm

namespace Expr

variable {env : TypeEnv} {values : ConstantValues} {known : KnownConstants (Option ℚ)}

/-! ### Conversions -/

/-- An integer literal and its floating form fold to one number. -/
theorem fold?_toFloatLiteral? {e e' : Expr} (h : e.toFloatLiteral? = some e') :
    ∃ n : Int, e.fold? exactArithmetic known = some (some (n : ℚ)) ∧
      ∀ y, e'.fold? exactArithmetic known = some y → y = some (n : ℚ) := by
  fun_induction toFloatLiteral? e generalizing e' with
  | case1 text c =>
    obtain ⟨n, hn, rfl⟩ := Option.map_eq_some_iff.1 h
    refine ⟨n, ?_, fun y hy => ?_⟩
    · simp [fold?, exactArithmetic, Literal.floatValue?, hn, Literal.scalar?,
        Literal.integer?_of_readInt? hn, toRat]
    · obtain ⟨x, -, rfl⟩ := Option.map_eq_some_iff.1 hy
      simp only [Literal.scalar?, Literal.rational?_toString]
      rfl
  | case2 operand c ih =>
    obtain ⟨operand', hoperand, rfl⟩ := Option.map_eq_some_iff.1 h
    obtain ⟨n, hn, hn'⟩ := ih hoperand
    refine ⟨-n, ?_, fun y hy => ?_⟩
    · rw [fold?, hn]
      simp [Arithmetic.unary?, exactArithmetic]
    · obtain ⟨z, hz, hy⟩ := Option.bind_eq_some_iff.1 hy
      obtain rfl := hn' z hz
      cases hy
      simp [exactArithmetic]
  | case3 => cases h

theorem fold?_conversion {t : ScalarType} {e : Expr} {c : Coord} {y : Option ℚ} {v : Scalar}
    (he : ∀ z, e.fold? exactArithmetic known = some z → z = some v.toRat) (ht : t ≠ .void)
    (hy : (call t.cName [e] c).fold? exactArithmetic known = some y) :
    y = some (v.convert t).toRat := by
  obtain ⟨z, hz, hy⟩ := Option.bind_eq_some_iff.1 hy
  obtain rfl := he z hz
  cases t with
  | int =>
    cases hy
    rw [toRat_convert_int]
    rfl
  | float =>
    cases hy
    rw [toRat_convert_float]
  | bool => cases hy
  | void => exact absurd rfl ht

/-- A converted expression folds to the number of the converted value. -/
theorem fold?_coerce {s t : ScalarType} {e : Expr} {y : Option ℚ} {v : Scalar}
    (he : ∀ z, e.fold? exactArithmetic known = some z → z = some v.toRat) (hv : v.type = s)
    (hs : s ≠ .void) (ht : t ≠ .void)
    (hy : (e.coerce s t).value.fold? exactArithmetic known = some y) :
    y = some (v.convert t).toRat := by
  by_cases heq : s = t
  · rw [heq, coerce_self] at hy
    rw [convert_of_type (hv.trans heq)]
    exact he y hy
  simp only [coerce, heq, hs, ht, or_self, if_false] at hy
  split at hy
  · next hfloat =>
    cases hliteral : e.toFloatLiteral? with
    | none =>
      rw [hliteral] at hy
      exact fold?_conversion he ht hy
    | some literal =>
      rw [hliteral] at hy
      obtain ⟨n, hn, hn'⟩ := fold?_toFloatLiteral? hliteral
      rw [hn' y hy, hfloat, toRat_convert_float]
      exact he _ hn
  · exact fold?_conversion he ht hy

/-- What is converted folds where the conversion does. -/
theorem exists_fold?_of_coerce {s t : ScalarType} {e : Expr} {y : Option ℚ}
    (h : (e.coerce s t).value.fold? exactArithmetic known = some y) :
    ∃ z, e.fold? exactArithmetic known = some z := by
  have hcall (h : (call t.cName [e] e.coord).fold? exactArithmetic known = some y) :
      ∃ z, e.fold? exactArithmetic known = some z := by
    obtain ⟨z, hz, -⟩ := Option.bind_eq_some_iff.1 h
    exact ⟨z, hz⟩
  unfold coerce at h
  split at h
  · exact ⟨y, h⟩
  dsimp only at h
  split at h
  · cases hliteral : e.toFloatLiteral? with
    | none =>
      rw [hliteral] at h
      exact hcall h
    | some literal =>
      obtain ⟨n, hn, -⟩ := fold?_toFloatLiteral? hliteral
      exact ⟨_, hn⟩
  · exact hcall h

/-! ### Operators -/

/-- The operands of an operation that folds do. -/
theorem exists_fold?_of_applyBinary {op : BinaryOp} {common : ScalarType} {truncated : Bool}
    {l r : Expr} {c : Coord} {y : Option ℚ}
    (h : (applyBinary op common truncated l r c).value.fold? exactArithmetic known = some y) :
    (∃ z, l.fold? exactArithmetic known = some z) ∧
      ∃ z, r.fold? exactArithmetic known = some z := by
  have hbinary {op : BinaryOp} {y : Option ℚ}
      (h : (binary op l r c).fold? exactArithmetic known = some y) :
      (∃ z, l.fold? exactArithmetic known = some z) ∧
        ∃ z, r.fold? exactArithmetic known = some z := by
    obtain ⟨x, hx, h⟩ := Option.bind_eq_some_iff.1 h
    obtain ⟨z, hz, -⟩ := Option.bind_eq_some_iff.1 h
    exact ⟨⟨x, hx⟩, z, hz⟩
  unfold applyBinary at h
  split at h
  · split at h
    · exact hbinary h
    · obtain ⟨x, hx, -⟩ := Option.bind_eq_some_iff.1 h
      exact hbinary hx
  · cases h
  · exact hbinary h

/-- The type of an operator that folds. -/
theorem operandType_of_binary? {op : BinaryOp} {x y z : Option ℚ}
    (h : exactArithmetic.binary? op x y = some z) (s t : ScalarType) :
    operandType op s t = .arithmetic s t ∧ op.resultType s t = .arithmetic s t := by
  cases op <;> first | exact ⟨rfl, rfl⟩ | cases h

/-- Operators on integers fold to their values, except that quotients are not truncated. -/
theorem foldsAs_onInts {op : BinaryOp} {a b : Int} {v : Scalar} {y : Option ℚ}
    (hv : Rules.implicit.onInts op a b = some v)
    (hy : exactArithmetic.binary? op (some (a : ℚ)) (some (b : ℚ)) = some y) :
    FoldsAs (op == .div) .int v y := by
  cases op with
  | add =>
    cases hv
    cases hy
    exact .of_number rfl (by simp) (Int.cast_add a b).symm
  | sub =>
    cases hv
    cases hy
    exact .of_number rfl (by simp) (Int.cast_sub a b).symm
  | mul =>
    cases hv
    cases hy
    exact .of_number rfl (by simp) (Int.cast_mul a b).symm
  | div =>
    -- The folded quotient is exact; truncated, it is that of the integers.
    simp only [Rules.onInts] at hv
    split at hv
    · cases hv
    · next hb =>
      cases hv
      cases hy
      have hzero : ¬some (b : ℚ) = some 0 := by simpa using hb
      refine ⟨rfl, by simp, ⟨a / b, if_neg hzero, ?_⟩, fun h => by cases h⟩
      rw [truncate_div a hb]
      exact (truncate_intCast _).symm
  | _ => cases hy

/-- Operators on rational numbers fold to their values. -/
theorem foldsAs_onFloats {op : BinaryOp} {a b : ℚ} {v : Scalar} {y : Option ℚ}
    (hv : Rules.implicit.onFloats op a b = some v)
    (hy : exactArithmetic.binary? op (some a) (some b) = some y) : FoldsAs false .float v y := by
  cases op with
  | add | sub | mul =>
    cases hv
    cases hy
    exact .of_number rfl (by simp) rfl
  | div =>
    simp only [Rules.onFloats] at hv
    split at hv
    · cases hv
    · next hb =>
      cases hv
      cases hy
      have hzero : ¬some b = some 0 := by simpa using hb
      have hquotient : exactArithmetic.div (some a) (some b) = some (a / b) := if_neg hzero
      rw [hquotient]
      exact .of_number rfl (by simp) rfl
  | _ => cases hy

section Operands

variable {op : BinaryOp} {s t : ScalarType} {l r : Expr} {v w result : Scalar} {y : Option ℚ}
  (hl : ∀ z, l.fold? exactArithmetic known = some z →
    z = some (v.convert (operandType op s t)).toRat)
  (hr : ∀ z, r.fold? exactArithmetic known = some z →
    z = some (w.convert (operandType op s t)).toRat)
  (hv : v.type = s) (hw : w.type = t) (hs : s ≠ .void) (ht : t ≠ .void)
  (hresult : Rules.implicit.binary op v w = some result)
include hl hr hv hw hs ht hresult

/-- An operator folds to its value, except that quotients of integers are not truncated. -/
theorem foldsAs_binary {c : Coord} (hy : (binary op l r c).fold? exactArithmetic known = some y) :
    FoldsAs (op == .div && operandType op s t == .int) (op.resultType s t) result y := by
  obtain ⟨x, hx, hy⟩ := Option.bind_eq_some_iff.1 hy
  obtain ⟨z, hz, hy⟩ := Option.bind_eq_some_iff.1 hy
  obtain ⟨hcommon, htype⟩ := operandType_of_binary? hy s t
  obtain rfl := hl x hx
  obtain rfl := hr z hz
  rw [hcommon] at hy ⊢
  rw [htype]
  rcases ScalarType.arithmetic_eq_or hs ht with hint | hfloat
  · obtain ⟨a, b, ha, hb, heq⟩ :=
      Rules.implicit_binary_int (.of_type hv) (.of_type hw) hs ht op hint
    rw [hint, ha, hb] at hy
    rw [hint, beq_self_eq_true, Bool.and_true]
    exact foldsAs_onInts (heq.symm.trans hresult) hy
  · obtain ⟨a, b, ha, hb, heq⟩ :=
      Rules.implicit_binary_float (.of_type hv) (.of_type hw) hs ht op hfloat
    rw [hfloat, ha, hb] at hy
    rw [hfloat]
    exact (foldsAs_onFloats (heq.symm.trans hresult) hy).weaken _

/-- An operation on converted operands folds to its value. -/
theorem foldsAs_applyBinary {truncated : Bool} {c : Coord}
    (hy : (applyBinary op (operandType op s t) truncated l r c).value.fold? exactArithmetic known =
      some y) : FoldsAs truncated (op.resultType s t) result y := by
  by_cases hdiv : op = .div ∧ operandType op s t = .int
  · obtain ⟨rfl, hint⟩ := hdiv
    have hfolds {z : Option ℚ} (hz : (binary .div l r c).fold? exactArithmetic known = some z) :
        FoldsAs true .int result z := by
      have hfolds := foldsAs_binary hl hr hv hw hs ht hresult hz
      rwa [hint, show BinaryOp.div.resultType s t = .int from hint] at hfolds
    rw [show BinaryOp.div.resultType s t = .int from hint]
    rw [hint] at hy
    cases truncated with
    | true => exact hfolds hy
    | false =>
      obtain ⟨z, hz, hy⟩ := Option.bind_eq_some_iff.1 hy
      cases hy
      exact (hfolds hz).trunc false
  by_cases hmod : op = .mod ∧ operandType op s t = .int
  · obtain ⟨rfl, hint⟩ := hmod
    rw [hint] at hy
    cases hy
  · rw [value_applyBinary hdiv hmod] at hy
    have hfolds := foldsAs_binary hl hr hv hw hs ht hresult hy
    have hquotient : (op == .div && operandType op s t == .int) = false := by
      simpa using hdiv
    rw [hquotient] at hfolds
    exact hfolds.weaken truncated

end Operands

/-- A sign of a converted operand folds to its value. -/
theorem foldsAs_unary {op : UnaryOp} {s : ScalarType} {e : Expr} {c : Coord} {v result : Scalar}
    {y : Option ℚ} (he : ∀ z, e.fold? exactArithmetic known = some z → z = some v.toRat)
    (hv : v.type = s) (hs : s ≠ .void) (hresult : Rules.implicit.unary op v = some result)
    (hy : (unary op (e.coerceOperand op s).value c).fold? exactArithmetic known = some y) :
    FoldsAs false (op.resultType s) result y := by
  subst hv
  obtain ⟨z, hz, hy⟩ := Option.bind_eq_some_iff.1 hy
  rw [coerceOperand_eq] at hz
  have hoperand (hsign : op.operandType v.type ≠ .void) :
      z = some (v.convert (op.operandType v.type)).toRat :=
    fold?_coerce he rfl hs hsign hz
  -- A sign is kept by the conversion of its operand.
  cases op with
  | neg | plus =>
    cases hy
    cases v with
    | void => exact absurd rfl hs
    | int n | float q | bool b =>
      cases hresult
      rw [hoperand (by simp [UnaryOp.operandType, type])]
      refine .of_number rfl (by simp [UnaryOp.resultType, type]) ?_
      simp [toRat, convert, UnaryOp.operandType, type]
  | _ => cases hy

/-! ### Elements of arrays -/

theorem constant?_of_intLiteral? {e : Expr} {i : Int} (h : e.intLiteral? = some i) :
    e.constant? values = some (.int i) := by
  cases e with
  | literal value c =>
    obtain ⟨kind, text⟩ := value
    cases kind with
    | int => exact congrArg (Option.map Scalar.int) (Literal.integer?_of_readInt? h)
    | char =>
      obtain ⟨code, hcode, rfl⟩ := Option.map_eq_some_iff.1 h
      simp only [constant?, Literal.scalar?, hcode]
      rfl
    | float | string => cases h
  | _ => cases h

/-- Only integer literals are converted to integer literals. -/
theorem intLiteral?_of_coerce {s : ScalarType} {e : Expr} {i : Int}
    (h : (e.coerce s .int).value.intLiteral? = some i) : e.intLiteral? = some i := by
  unfold coerce at h
  split at h
  · exact h
  · cases h

theorem intLiteral?_of_coercedWith {again : Expr → Counted Expr} {truncated : Bool} {e : Expr}
    {i : Int} (h : (e.coercedWith again env truncated).value.intLiteral? = some i) :
    e.intLiteral? = some i := by
  cases e with
  | literal => exact h
  | binary op l r c =>
    simp only [coercedWith, Counted.value_bind, applyBinary] at h
    split at h
    · split at h <;> cases h
    · cases h
    · cases h
  | assign op t v c =>
    simp only [coercedWith, Counted.value_bind] at h
    split at h
    · split at h <;> cases h
    · cases h
  | _ => cases h

/-- The known number of a name is that of the constant. -/
theorem foldsAs_named (hagree : ConstantsAgree env values known) {name : String} {v : Scalar}
    (hvalue : values name = some (.scalar v)) {c : Coord} {y : Option ℚ}
    (hy : (id name c).fold? exactArithmetic known = some y) (truncated : Bool) :
    FoldsAs truncated (env.variableType name) v y := by
  -- No constant has the name of the value that is no number.
  have hname : name ≠ MathKernel.notANumber := by
    rintro rfl
    rw [hagree.notANumber] at hvalue
    cases hvalue
  have hnumber : known.number? name = some y := by
    have hy : (if name = MathKernel.notANumber then some exactArithmetic.notANumber
      else known.number? name) = some y := hy
    rwa [if_neg hname] at hy
  unfold KnownConstants.number? at hnumber
  split at hnumber
  · next x hx =>
    cases hnumber
    obtain ⟨hvoid, htypes, n, hentry⟩ := hagree.known hvalue hx
    cases hentry
    exact .of_number (htypes v (by simp [Value.numbers])) hvoid rfl
  · cases hnumber

/-- A known element of an array is that of the constant. -/
theorem foldsAs_item (hagree : ConstantsAgree env values known) {name : String}
    {value : Value Scalar} (hvalue : values name = some value) {k : Int} {v : Scalar}
    (hv : value.itemAt? (.int k) = some v) {y : Option ℚ} (hy : known.item? name k = some y)
    (truncated : Bool) : FoldsAs truncated (env.variableType name) v y := by
  cases value with
  | scalar => cases hv
  | vector items =>
    obtain ⟨i, hi, hv⟩ := Option.bind_eq_some_iff.1 hv
    unfold KnownConstants.item? at hy
    split at hy
    · next entries j hentries hj =>
      obtain rfl : i = j := Option.some.inj (hi.symm.trans hj)
      obtain ⟨hvoid, htypes, n, hentry⟩ := hagree.known hvalue hentries
      cases hentry
      rw [List.getElem?_map, List.getElem?_take] at hy
      split at hy
      · rw [hv] at hy
        cases hy
        exact .of_number (htypes v (List.mem_of_getElem? hv)) hvoid rfl
      · cases hy
    · cases hy

/-! ### Converted expressions -/

variable (hagree : ConstantsAgree env values known)
  (hint : env.signature? ScalarType.int.cName = some ⟨.int, .unchecked⟩)
  (hfloat : env.signature? ScalarType.float.cName = some ⟨.float, .unchecked⟩)
include hagree hint hfloat

/-- A converted constant expression folds to the value that the expression has by the rules of
C. -/
theorem foldsAs_coercedWith (again : Expr → Counted Expr) {truncated : Bool} {e : Expr} {v : Scalar}
    {y : Option ℚ} (hv : e.constant? values = some v)
    (hy : (e.coercedWith again env truncated).value.fold? exactArithmetic known = some y) :
    FoldsAs truncated (e.typeIn env) v y := by
  fun_induction constant? values e generalizing truncated v y with
  | case1 value c =>
    obtain ⟨x, -, rfl⟩ := Option.map_eq_some_iff.1 hy
    rw [hv]
    refine .of_number (Literal.type_of_scalar? hv) ?_ rfl
    rw [typeIn]
    cases value.kind <;> simp [LiteralKind.scalar]
  | case2 name c =>
    obtain ⟨value, hvalue, hv⟩ := Option.bind_eq_some_iff.1 hv
    cases value with
    | vector => cases hv
    | scalar w =>
      cases hv
      exact foldsAs_named hagree hvalue hy truncated
  | case3 name c subscript c₂ ih =>
    obtain ⟨value, hvalue, hv⟩ := Option.bind_eq_some_iff.1 hv
    obtain ⟨i, hi, hv⟩ := Option.bind_eq_some_iff.1 hv
    change ((subscript.coercedWith again env false).value.coerce (subscript.typeIn env)
      .int).value.intLiteral?.bind (known.item? name) = some y at hy
    obtain ⟨k, hk, hy⟩ := Option.bind_eq_some_iff.1 hy
    have hliteral := intLiteral?_of_coercedWith (intLiteral?_of_coerce hk)
    -- Only a literal subscript folds, and it is the literal of the source.
    obtain rfl : Scalar.int k = i :=
      Option.some.inj ((constant?_of_intLiteral? hliteral).symm.trans hi)
    exact foldsAs_item hagree hvalue hv hy truncated
  | case4 op e c ih =>
    obtain ⟨w, hw, hv⟩ := Option.bind_eq_some_iff.1 hv
    have hfolds {z : Option ℚ} (hz : (e.coercedWith again env false).value.fold?
        exactArithmetic known = some z) : FoldsAs false (e.typeIn env) w z := ih hw hz
    obtain ⟨z, hz, -⟩ := Option.bind_eq_some_iff.1 hy
    simp only [coercedWith, Counted.value_bind, Counted.value_pure] at hy hz
    rw [coerceOperand_eq] at hz
    obtain ⟨z', hz'⟩ := exists_fold?_of_coerce hz
    have htypes := hfolds hz'
    refine (foldsAs_unary (fun z hz => ?_) htypes.type htypes.ne_void hv hy).weaken truncated
    exact (hfolds hz).exact rfl
  | case5 op l r c ihl ihr =>
    obtain ⟨v₁, hv₁, hv⟩ := Option.bind_eq_some_iff.1 hv
    obtain ⟨v₂, hv₂, hv⟩ := Option.bind_eq_some_iff.1 hv
    simp only [coercedWith, Counted.value_bind] at hy
    obtain ⟨⟨x, hx⟩, z, hz⟩ := exists_fold?_of_applyBinary hy
    obtain ⟨x', hx'⟩ := exists_fold?_of_coerce hx
    obtain ⟨z', hz'⟩ := exists_fold?_of_coerce hz
    have hl := ihl hv₁ hx'
    have hr := ihr hv₂ hz'
    obtain ⟨hcommon, -, -⟩ := operandType_self op hl.ne_void hr.ne_void
    exact foldsAs_applyBinary
      (fun z hz => fold?_coerce (fun z hz => (ihl hv₁ hz).exact rfl) hl.type hl.ne_void hcommon hz)
      (fun z hz => fold?_coerce (fun z hz => (ihr hv₂ hz).exact rfl) hr.type hr.ne_void hcommon hz)
      hl.type hr.type hl.ne_void hr.ne_void hv hy
  | case6 type e c ih => cases hy
  | case7 callee e c ih =>
    obtain ⟨type, htype, hcall⟩ := Option.bind_eq_some_iff.1 hv
    obtain ⟨w, hw, hconverted⟩ := Option.bind_eq_some_iff.1 hcall
    obtain rfl := ScalarType.eq_cName_of_ofCName? htype
    cases type with
    | int =>
      rw [value_coercedWith_conversion hint] at hy
      rw [typeIn_conversion hint]
      obtain ⟨z, hz, hy⟩ := Option.bind_eq_some_iff.1 hy
      cases hconverted
      cases hy
      exact (ih hw hz).convert_int truncated
    | float =>
      rw [value_coercedWith_conversion hfloat] at hy
      rw [typeIn_conversion hfloat]
      obtain ⟨z, hz, hy⟩ := Option.bind_eq_some_iff.1 hy
      cases hconverted
      cases hy
      exact (FoldsAs.convert_float (ih hw hz)).weaken truncated
    | bool =>
      -- A conversion to a truth value is a call that does not fold.
      obtain ⟨z, -, hy⟩ := Option.bind_eq_some_iff.1 hy
      cases hy
    | void => cases hconverted
  | case8 => cases hv

/-- A converted initializer folds to what a variable or an element gets. -/
theorem foldAs?_coercedAs {type : ScalarType} (htype : type ≠ .void) {e : Expr} {v : Scalar}
    {y : Option ℚ} (hv : e.assignedAs? values type = some v)
    (hy : (e.coercedAs env type).value.foldAs? exactArithmetic known type = some y) :
    v.type = type ∧ y = some v.toRat := by
  obtain ⟨w, hw, rfl⟩ := Option.map_eq_some_iff.1 hv
  obtain ⟨z, hz, rfl⟩ := Option.map_eq_some_iff.1 hy
  obtain ⟨again, -, heq⟩ := coerced_eq env e
  rw [coercedAs, Counted.value_bind, heq] at hz
  have hfolds {x : Option ℚ} (hx : (e.coercedWith again env false).value.fold?
      exactArithmetic known = some x) : FoldsAs false (e.typeIn env) w x :=
    foldsAs_coercedWith hagree hint hfloat again hw hx
  obtain ⟨x, hx⟩ := exists_fold?_of_coerce hz
  have htypes := hfolds hx
  have hconverted := type_convert htypes.value_ne_void type
  obtain rfl := fold?_coerce (fun z hz => (hfolds hz).exact rfl) htypes.type htypes.ne_void htype hz
  refine ⟨hconverted, ?_⟩
  split
  · next hint =>
    obtain ⟨n, hn⟩ := exists_int (hconverted.trans hint)
    rw [hn]
    exact congrArg some (congrArg Int.cast (truncate_intCast n))
  · rfl

/-- The items of a converted initializer list. -/
theorem foldAs?_coercedItems {type : ScalarType} (htype : type ≠ .void) {items : List Expr}
    {vs : List Scalar} {ys : List (Option ℚ)}
    (hvs : items.mapM (assignedAs? values type) = some vs)
    (hys : (coercedItems env type items).value.mapM (foldAs? exactArithmetic known type) =
      some ys) :
    (∀ v ∈ vs, v.type = type) ∧ ys = vs.map fun v => some v.toRat := by
  induction items generalizing vs ys with
  | nil =>
    cases hvs
    cases hys
    exact ⟨by simp, rfl⟩
  | cons e rest ih =>
    rw [List.mapM_cons] at hvs
    rw [coercedItems, Counted.value_bind, Counted.value_bind, Counted.value_pure,
      List.mapM_cons] at hys
    obtain ⟨v, hv, hvs⟩ := Option.bind_eq_some_iff.1 hvs
    obtain ⟨vs, hrest, hvs⟩ := Option.bind_eq_some_iff.1 hvs
    cases hvs
    obtain ⟨y, hy, hys⟩ := Option.bind_eq_some_iff.1 hys
    obtain ⟨ys, hrest', hys⟩ := Option.bind_eq_some_iff.1 hys
    cases hys
    obtain ⟨htypes, rfl⟩ := ih hrest hrest'
    obtain ⟨hvtype, rfl⟩ := foldAs?_coercedAs hagree hint hfloat htype hv hy
    exact ⟨List.forall_mem_cons.2 ⟨hvtype, htypes⟩, rfl⟩

omit hagree hint hfloat in
theorem length_coercedItems (env : TypeEnv) (type : ScalarType) (items : List Expr) :
    (coercedItems env type items).value.length = items.length := by
  induction items with
  | nil => rfl
  | cons e rest ih =>
    rw [coercedItems, Counted.value_bind, Counted.value_bind, Counted.value_pure]
    exact congrArg Nat.succ ih

end Expr

/-! ### Variables -/

theorem length_eq_of_mapM_eq_some {α β : Type} {f : α → Option β} {items : List α}
    {results : List β} (h : items.mapM f = some results) : results.length = items.length := by
  induction items generalizing results with
  | nil =>
    cases h
    rfl
  | cons a rest ih =>
    rw [List.mapM_cons] at h
    obtain ⟨b, -, h⟩ := Option.bind_eq_some_iff.1 h
    obtain ⟨bs, hbs, h⟩ := Option.bind_eq_some_iff.1 h
    cases h
    exact congrArg Nat.succ (ih hbs)

namespace Decl

section Folding

variable {ν : Type} {A : Arithmetic ν} {zero : ν} {known : KnownConstants ν} {d : Decl}

theorem foldIn?_of_element (hsizes : d.type.sizes? = some []) {e : Expr} (he : d.init = some e) :
    d.foldIn? A zero known = (e.foldAs? A known d.scalar).map .scalar := by
  obtain ⟨type, htype⟩ := Declarator.sizes?_eq_nil hsizes
  have harray : d.isArray = false := by rw [isArray, htype]
  rw [foldIn?, harray, he]
  rfl

theorem foldIn?_of_array {size : Option Expr} (hsizes : d.type.sizes? = some [size])
    {items : List Expr} {c : Coord} (hitems : d.init = some (.initList items c)) :
    d.foldIn? A zero known = d.arrayLen?.bind fun length =>
      ((items.take length).mapM (Expr.foldAs? A known d.scalar)).bind fun given =>
        some (.vector (given ++ List.replicate (length - given.length) zero)) := by
  obtain ⟨type, c', htype⟩ := Declarator.sizes?_eq_singleton hsizes
  have harray : d.isArray = true := by rw [isArray, htype]
  have hlist : d.initItems = .ok items := by rw [initItems, hitems]
  rw [foldIn?, harray, hlist]
  rfl

end Folding

section Conversions

variable {ν : Type} {A : Arithmetic ν} {zero : ν} {known : KnownConstants ν} {env : TypeEnv}
  {d : Decl}

theorem foldIn?_coerced_of_element (hsizes : d.type.sizes? = some []) {e : Expr}
    (he : d.init = some e) (hbraces : e.isBraced = false) :
    (d.coerced env).value.foldIn? A zero known =
      ((e.coercedAs env d.scalar).value.foldAs? A known d.scalar).map .scalar := by
  obtain ⟨type, htype⟩ := Declarator.sizes?_eq_nil hsizes
  have harray : d.isArray = false := by rw [isArray, htype]
  have hinit : (d.coerced env).value.init = some (e.coercedAs env d.scalar).value := by
    rw [Decl.coerced, Counted.value_bind, coercedInit, he, harray]
    cases e with
    | initList => cases hbraces
    | _ => rfl
  exact foldIn?_of_element (d := (d.coerced env).value) hsizes hinit

theorem foldIn?_coerced_of_items {size : Option Expr} (hsizes : d.type.sizes? = some [size])
    {items : List Expr} {c : Coord} (hitems : d.init = some (.initList items c)) :
    (d.coerced env).value.foldIn? A zero known = d.arrayLen?.bind fun length =>
      (((Expr.coercedItems env d.scalar items).value.take length).mapM
        (Expr.foldAs? A known d.scalar)).bind fun given =>
          some (.vector (given ++ List.replicate (length - given.length) zero)) := by
  have hinit : (d.coerced env).value.init =
      some (.initList (Expr.coercedItems env d.scalar items).value c) := by
    rw [Decl.coerced, Counted.value_bind, coercedInit, hitems]
    rfl
  have hlength : (d.coerced env).value.arrayLen? = d.arrayLen? := by
    have hinitLen : (d.coerced env).value.initLen? = d.initLen? := by
      rw [initLen?, initLen?, hinit, hitems]
      exact congrArg some (Expr.length_coercedItems env d.scalar items)
    unfold arrayLen?
    rw [hinitLen]
    rfl
  rw [← hlength]
  exact foldIn?_of_array (d := (d.coerced env).value) hsizes hinit

end Conversions

/-- The recorded length is that of the array if its size is a literal or left out. In any case it is
not greater, and no initializer is left out. -/
theorem exists_arrayLen? {values : ConstantValues} {d : Decl} {size : Option Expr}
    (hsizes : d.type.sizes? = some [size]) {items : List Expr} {c : Coord}
    (hitems : d.init = some (.initList items c)) {n : Nat}
    (hn : Expr.arrayLength? values items.length size = some n) (hle : items.length ≤ n) :
    ∃ length, d.arrayLen? = some length ∧ items.length ≤ length ∧ length ≤ n ∧
      (d.hasLiteralSize → length = n) := by
  obtain ⟨type, c', htype⟩ := Declarator.sizes?_eq_singleton hsizes
  have hinit : d.initLen? = some items.length := by rw [initLen?, hitems]
  cases size with
  | none =>
    cases hn
    exact ⟨_, by simp [arrayLen?, htype, hinit], le_rfl, le_rfl, fun _ => rfl⟩
  | some e =>
    cases hliteral : e.intLiteral? with
    | none =>
      refine ⟨items.length, by simp [arrayLen?, htype, hinit, hliteral], le_rfl, hle,
        fun hsize => ?_⟩
      rw [hasLiteralSize, size?, htype] at hsize
      simp [hliteral] at hsize
    | some k =>
      rw [Expr.arrayLength?, Expr.constant?_of_intLiteral? hliteral] at hn
      exact ⟨n, by simpa [arrayLen?, htype, hliteral] using hn, hle, le_rfl, fun _ => rfl⟩

/-- All of the value is recorded where the size of an array is a literal or left out. -/
theorem recordedPart_eq_self {values : ConstantValues} {d : Decl} {value : Value Scalar}
    (hvalue : d.assigned? values = some value) (hsize : d.hasLiteralSize) :
    d.recordedPart value = value := by
  unfold assigned? at hvalue
  split at hvalue
  · cases hvalue
  unfold Expr.assignedFor? at hvalue
  split at hvalue
  · obtain ⟨v, -, rfl⟩ := Option.map_eq_some_iff.1 hvalue
    rfl
  · next size items c hsizes he =>
    obtain ⟨vs, hvs, rfl⟩ := Option.map_eq_some_iff.1 hvalue
    obtain ⟨n, hn, hvs⟩ := Option.bind_eq_some_iff.1 hvs
    obtain ⟨given, hgiven, hvs⟩ := Option.bind_eq_some_iff.1 hvs
    split at hvs
    · next hle =>
      cases hvs
      have hcount : given.length = items.length := length_eq_of_mapM_eq_some hgiven
      obtain ⟨length, hlength, -, -, hsame⟩ := exists_arrayLen? hsizes he hn (hcount ▸ hle)
      -- The length that is recorded is the size, so nothing of the value is cut off.
      rw [recordedPart, hlength, Option.getD_some, hsame hsize, Value.take]
      refine congrArg Value.vector (List.take_of_length_le ?_)
      rw [List.length_append, List.length_replicate]
      omega
    · cases hvs
  · cases hvalue

/-- A converted declaration folds to what is recorded of the value that C gives the variable. -/
theorem foldIn?_coerced {env : TypeEnv} {values : ConstantValues}
    {known : KnownConstants (Option ℚ)} (hagree : ConstantsAgree env values known)
    (hint : env.signature? ScalarType.int.cName = some ⟨.int, .unchecked⟩)
    (hfloat : env.signature? ScalarType.float.cName = some ⟨.float, .unchecked⟩) {d : Decl}
    {value : Value Scalar} {w : Value (Option ℚ)} (hvalue : d.assigned? values = some value)
    (hw : (d.coerced env).value.foldIn? exactArithmetic (some 0) known = some w) :
    (∀ v ∈ value.numbers, v.type = d.scalar) ∧
      w = (d.recordedPart value).map fun v => some v.toRat := by
  unfold assigned? at hvalue
  split at hvalue
  · cases hvalue
  next hvoid =>
  unfold Expr.assignedFor? at hvalue
  split at hvalue
  · next e hsizes he =>
    obtain ⟨v, hv, rfl⟩ := Option.map_eq_some_iff.1 hvalue
    have hbraces : e.isBraced = false := by
      cases e with
      | initList => cases hv
      | _ => rfl
    rw [foldIn?_coerced_of_element hsizes he hbraces] at hw
    obtain ⟨y, hy, rfl⟩ := Option.map_eq_some_iff.1 hw
    obtain ⟨htype, rfl⟩ := Expr.foldAs?_coercedAs hagree hint hfloat hvoid hv hy
    exact ⟨by simpa [Value.numbers] using htype, rfl⟩
  · next size items c hsizes he =>
    obtain ⟨vs, hvs, rfl⟩ := Option.map_eq_some_iff.1 hvalue
    obtain ⟨n, hn, hvs⟩ := Option.bind_eq_some_iff.1 hvs
    obtain ⟨given, hgiven, hvs⟩ := Option.bind_eq_some_iff.1 hvs
    split at hvs
    · next hle =>
      cases hvs
      have hcount : given.length = items.length := length_eq_of_mapM_eq_some hgiven
      obtain ⟨length, hlength, hitems, hbound, -⟩ := exists_arrayLen? hsizes he hn (hcount ▸ hle)
      have htake : (Expr.coercedItems env d.scalar items).value.take length =
          (Expr.coercedItems env d.scalar items).value :=
        List.take_of_length_le (by rwa [Expr.length_coercedItems])
      rw [foldIn?_coerced_of_items hsizes he, hlength, Option.bind_some, htake] at hw
      obtain ⟨ys, hys, hw⟩ := Option.bind_eq_some_iff.1 hw
      obtain ⟨htypes, rfl⟩ := Expr.foldAs?_coercedItems hagree hint hfloat hvoid hgiven hys
      cases hw
      -- The items that are not given are zero in C, and so are those that pad the recorded part.
      rw [recordedPart, hlength]
      constructor
      · intro v hv
        rcases List.mem_append.1 hv with hv | hv
        · exact htypes v hv
        · rw [List.eq_of_mem_replicate hv, type_zero]
      · have hgiven : given.take length = given := List.take_of_length_le (hcount ▸ hitems)
        have hzeros : min (length - given.length) (n - given.length) = length - given.length := by
          omega
        simp only [Value.take, Value.map, Option.getD_some, List.take_append, hgiven,
          List.take_replicate, hzeros, List.map_append, List.map_replicate, List.length_map,
          toRat_zero]
    · cases hvs
  · cases hvalue

end Decl

end MathKernel
