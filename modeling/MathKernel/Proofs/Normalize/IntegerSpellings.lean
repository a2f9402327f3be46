import Mathlib.Data.Nat.Digits.Defs
import MathKernel.Proofs.Normalize.LiteralValues

/-!
# How integers are spelled

The literals of the language are spelled in three radices and may have suffixes. What they spell
is said here by the places of their digits, without reference to a reader. The reader gives this
number if it fits 64 bits, and nothing otherwise.

## Main definitions

* `placeValue` — the number that digits spell in a radix
* `IntegerSpelling` — a decimal, octal or hexadecimal literal, and its `value`
* `IsDecimalInteger` — an optional minus and decimal digits without leading zeros

## Main results

* `readDigits?_eq` — digits are read as the number that they spell
* `IntegerSpelling.readInt?_text` — literals are read as the number that they spell
* `Literal.canonical?_of_readInt?` — the canonical text of what can be read
-/

namespace MathKernel

/-- What holds of all characters with small codes is checked code by code. -/
theorem forall_char_of_lt {bound : Nat} {p : Char → Prop} (h : ∀ n < bound, p (Char.ofNat n))
    (c : Char) (hc : c.toNat < bound) : p c := by
  have hcode := h c.toNat hc
  rwa [Char.ofNat_toNat] at hcode

/-! ### Digits -/

/-- The digits in the order of their values. -/
def digitOrder : List Char := "0123456789abcdef".toList

/-- The value of a digit in letters of either case; what is no digit has the value sixteen. -/
def digitRank (c : Char) : Nat :=
  digitOrder.idxOf c.toLower

/-- The number that digits spell in a radix, by their places. -/
def placeValue (radix : Nat) (digits : List Char) : Nat :=
  Nat.ofDigits radix (digits.reverse.map digitRank)

section Digits

variable {radix : Nat} {c : Char} {digits : List Char}

/-- The digits in letters of both cases. -/
def digitLetters : List Char := "0123456789abcdefABCDEF".toList

theorem mem_digitLetters (h : digitRank c < 16) : c ∈ digitLetters := by
  have hmem : c.toLower ∈ digitOrder := List.idxOf_lt_length_iff.1 h
  have hcode : c.toNat < 103 := by
    have hbound : ∀ d ∈ digitOrder, d.toNat ≤ 102 := List.forall_iff_forall_mem.1 (by decide)
    have hlower := Literal.toNat_toLower c
    have := hbound _ hmem
    split at hlower <;> omega
  refine forall_char_of_lt (p := fun c => c.toLower ∈ digitOrder → c ∈ digitLetters) ?_ c hcode hmem
  decide +kernel

theorem code_lt_of_isDigit (h : c.isDigit = true) : c.toNat < 58 := by
  simp only [Char.isDigit, Bool.and_eq_true, decide_eq_true_eq] at h
  have hle : c.toNat ≤ 57 := h.2
  omega

/-- The value of a decimal digit is its distance from zero. -/
theorem digitRank_eq (h : c.isDigit = true) : digitRank c = c.toNat - '0'.toNat := by
  refine forall_char_of_lt
    (p := fun c => c.isDigit = true → digitRank c = c.toNat - '0'.toNat) ?_ c
    (code_lt_of_isDigit h) h
  decide +kernel

theorem digitValue?_sixteen : ∀ c ∈ digitLetters, digitValue? 16 c = some (digitRank c) :=
  List.forall_iff_forall_mem.1 (by decide +kernel)

theorem digitValue?_of_lt {value : Nat} (hradix : radix ≤ 16) (hvalue : value < radix)
    (h : digitValue? 16 c = some value) : digitValue? radix c = some value := by
  unfold digitValue? at h ⊢
  grind

/-- A digit of a radix is read as its value. -/
theorem digitValue?_eq (hradix : radix ≤ 16) (h : digitRank c < radix) :
    digitValue? radix c = some (digitRank c) :=
  digitValue?_of_lt hradix h (digitValue?_sixteen c (mem_digitLetters (by omega)))

theorem placeValue_eq_foldl (radix : Nat) (digits : List Char) :
    placeValue radix digits = digits.foldl (fun n c => radix * n + digitRank c) 0 := by
  rw [placeValue, Nat.ofDigits_eq_foldr, List.foldr_map, List.foldr_reverse]
  simp [Nat.add_comm]

/-- Decimal digits spell the same number to the reader of floating literals. -/
theorem digitsToNat_eq_placeValue (h : ∀ c ∈ digits, c.isDigit = true) :
    digitsToNat digits = placeValue 10 digits := by
  rw [placeValue_eq_foldl, digitsToNat]
  exact List.foldl_ext _ _ _ fun n c hc => by rw [digitRank_eq (h c hc)]

/-- Digits are read as the number that they spell. -/
theorem readDigits?_eq (hradix : radix ≤ 16) (hne : digits ≠ [])
    (h : ∀ c ∈ digits, digitRank c < radix) :
    readDigits? radix digits = some (placeValue radix digits) := by
  have hfold (n : Nat) : digits.foldlM (fun n c => (digitValue? radix c).map (radix * n + ·)) n =
      some (digits.foldl (fun n c => radix * n + digitRank c) n) := by
    clear hne
    induction digits generalizing n with
    | nil => rfl
    | cons c rest ih =>
      obtain ⟨hc, hrest⟩ := List.forall_mem_cons.1 h
      rw [List.foldlM_cons, digitValue?_eq hradix hc]
      exact ih hrest _
  rw [readDigits?, if_neg hne, hfold, placeValue_eq_foldl]

/-- Digits without a sign are read as the number that they spell, if it fits 64 bits. -/
theorem readInt64?_digits (hradix : radix ≤ 16) (hne : digits ≠ [])
    (h : ∀ c ∈ digits, digitRank c < radix) :
    readInt64? radix digits =
      if InInt64 (placeValue radix digits) then some (placeValue radix digits : Int) else none := by
  have hsigned : Literal.signedInt? radix digits = some (placeValue radix digits : Int) := by
    have hread := readDigits?_eq hradix hne h
    unfold Literal.signedInt?
    split
    · have hminus := h '-' List.mem_cons_self
      exact absurd (hminus.trans_le hradix) (by decide)
    · have hplus := h '+' List.mem_cons_self
      exact absurd (hplus.trans_le hradix) (by decide)
    · rw [hread]
      rfl
  rw [Literal.readInt64?_eq, hsigned]
  rfl

end Digits

/-! ### Literals -/

/-- How an integer literal shows its radix. -/
inductive IntegerForm where
  | decimal
  | octal
  | hexadecimal (capital : Bool)
  deriving DecidableEq

namespace IntegerForm

def radix : IntegerForm → Nat
  | decimal => 10
  | octal => 8
  | hexadecimal _ => 16

/-- What stands before the digits. -/
def lead : IntegerForm → List Char
  | decimal => []
  | octal => ['0']
  | hexadecimal capital => ['0', if capital then 'X' else 'x']

/-- Zero is octal, so decimal digits do not begin with one. -/
def Admits : IntegerForm → List Char → Prop
  | decimal, digits => digits ≠ [] ∧ digits.head? ≠ some '0'
  | octal, _ => True
  | hexadecimal _, digits => digits ≠ []

end IntegerForm

/-- An integer literal. -/
structure IntegerSpelling where
  form : IntegerForm
  digits : List Char
  suffix : List Char
  admits : form.Admits digits
  digits_lt : ∀ c ∈ digits, digitRank c < form.radix
  mem_suffix : ∀ c ∈ suffix, c ∈ ['u', 'U', 'l', 'L']

namespace IntegerSpelling

def text (l : IntegerSpelling) : List Char :=
  l.form.lead ++ l.digits ++ l.suffix

def value (l : IntegerSpelling) : Nat :=
  placeValue l.form.radix l.digits

end IntegerSpelling

/-- Suffixes are cut off from a text that does not end in a suffix letter. -/
theorem dropTrailing_append {p : Char → Bool} {text suffix : List Char}
    (hsuffix : ∀ c ∈ suffix, p c = true) (htext : ∀ c ∈ text.getLast?, p c = false) :
    dropTrailing p (text ++ suffix) = text := by
  rw [dropTrailing, List.reverse_append, List.dropWhile_append_of_pos (by simpa using hsuffix)]
  exact dropTrailing_eq_self htext

namespace Literal

/-! What the reader does with a text without its suffix. -/

variable {text digits : List Char} {c : Char}

theorem readInt?_of_hexMark (h : afterHexMark? (dropTrailing isIntSuffix text) = some digits) :
    readInt? text = readInt64? 16 digits := by
  simp only [readInt?, h]

theorem readInt?_of_zero (h : dropTrailing isIntSuffix text = '0' :: c :: digits)
    (hmark : ∀ mark ∈ ['x', 'X'], c ≠ mark) : readInt? text = readInt64? 8 (c :: digits) := by
  have hhex : afterHexMark? ('0' :: c :: digits) = none := by
    unfold afterHexMark?
    split <;> simp_all
  simp only [readInt?, h, hhex]

theorem readInt?_of_head?_ne_zero (h : dropTrailing isIntSuffix text = digits)
    (hhead : digits.head? ≠ some '0') : readInt? text = readInt64? 10 digits := by
  have hhex : afterHexMark? digits = none := by
    unfold afterHexMark?
    split <;> simp_all
  simp only [readInt?, h, hhex]
  split
  · exact absurd rfl hhead
  · rfl

end Literal

namespace IntegerSpelling

theorem radix_le (l : IntegerSpelling) : l.form.radix ≤ 16 := by
  cases l.form <;> simp [IntegerForm.radix]

theorem dropIntSuffix_text (l : IntegerSpelling) :
    dropTrailing Literal.isIntSuffix l.text = l.form.lead ++ l.digits := by
  refine dropTrailing_append (fun c hc => ?_) fun c hc => ?_
  · have hletters : ∀ c ∈ ['u', 'U', 'l', 'L'], Literal.isIntSuffix c = true :=
      List.forall_iff_forall_mem.1 (by decide)
    exact hletters c (l.mem_suffix c hc)
  · -- The last letter is a digit, or the zero that shows an octal literal.
    have hdigit {c : Char} (hc : c ∈ l.digits) : Literal.isIntSuffix c = false := by
      have hletters : ∀ c ∈ digitLetters, Literal.isIntSuffix c = false :=
        List.forall_iff_forall_mem.1 (by decide)
      exact hletters c (mem_digitLetters ((l.digits_lt c hc).trans_le l.radix_le))
    by_cases hnil : l.digits = []
    · have hadmits := l.admits
      cases hform : l.form with
      | decimal => exact absurd hnil (hform ▸ hadmits).1
      | hexadecimal capital =>
        rw [hform] at hadmits
        exact absurd hnil hadmits
      | octal =>
        rw [hnil, hform] at hc
        cases hc
        rfl
    · rw [List.getLast?_append_of_ne_nil _ hnil] at hc
      exact hdigit (List.mem_of_getLast? hc)

/-- A literal is read as the number that it spells, if it fits 64 bits. -/
theorem readInt?_text (l : IntegerSpelling) :
    Literal.readInt? l.text = if InInt64 l.value then some (l.value : Int) else none := by
  have htrim := l.dropIntSuffix_text
  have hread (hne : l.digits ≠ []) := readInt64?_digits l.radix_le hne l.digits_lt
  obtain ⟨form, digits, suffix, hadmits, hdigits, hsuffix⟩ := l
  cases form with
  | hexadecimal capital =>
    have hmark : Literal.afterHexMark? ('0' :: (if capital then 'X' else 'x') :: digits) =
        some digits := by
      cases capital <;> rfl
    exact (Literal.readInt?_of_hexMark (htrim ▸ hmark)).trans (hread hadmits)
  | octal =>
    cases digits with
    | nil =>
      -- The zero alone is read as a decimal digit.
      simp only [Literal.readInt?, htrim]
      rfl
    | cons c rest =>
      have hc := hdigits c List.mem_cons_self
      -- No octal digit is a hexadecimal mark.
      have hmark : ∀ mark ∈ ['x', 'X'], c ≠ mark := by
        rintro mark hmem rfl
        have hmarks : ∀ mark ∈ ['x', 'X'], ¬ digitRank mark < 8 :=
          List.forall_iff_forall_mem.1 (by decide)
        exact hmarks c hmem hc
      exact (Literal.readInt?_of_zero htrim hmark).trans (hread (List.cons_ne_nil c rest))
  | decimal =>
    obtain ⟨hne, hhead⟩ := hadmits
    exact (Literal.readInt?_of_head?_ne_zero htrim hhead).trans (hread hne)

end IntegerSpelling

/-! ### Canonical texts -/

/-- An optional minus and decimal digits without leading zeros. -/
def IsDecimalInteger (text : List Char) : Prop :=
  ∃ minus digits, text = minus ++ digits ∧ (minus = [] ∨ minus = ['-']) ∧ digits ≠ [] ∧
    (∀ c ∈ digits, c.isDigit = true) ∧ (digits.head? = some '0' → digits = ['0'])

theorem isDecimalInteger_toString (n : Int) : IsDecimalInteger (toString n).toList := by
  have hzero (m : Nat) (h : (Nat.toDigits 10 m).head? = some '0') : Nat.toDigits 10 m = ['0'] := by
    obtain ⟨rest, hrest⟩ := List.head?_eq_some_iff.1 h
    cases rest with
    | nil => exact hrest
    | cons c rest => exact (toDigits_head hrest).elim
  cases n with
  | ofNat m =>
    rw [Int.ofNat_eq_natCast, toList_toString_ofNat]
    exact ⟨[], _, rfl, .inl rfl, Nat.toDigits_ne_nil, fun c hc => isDigit_of_mem_toDigits hc,
      hzero m⟩
  | negSucc m =>
    rw [toList_toString_negSucc]
    exact ⟨['-'], _, rfl, .inr rfl, Nat.toDigits_ne_nil, fun c hc => isDigit_of_mem_toDigits hc,
      hzero (m + 1)⟩

/-- The canonical text of an integer that can be read is its decimal text. -/
theorem Literal.canonical?_of_readInt? {text : String} {n : Int}
    (h : readInt? text.toList = some n) :
    canonical? ⟨.int, text⟩ = some ⟨.int, toString n⟩ := by
  simp [canonical?, intValue?, h]

end MathKernel
