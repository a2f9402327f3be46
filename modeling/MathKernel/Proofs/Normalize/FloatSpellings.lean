import MathKernel.Proofs.Kernel.EmittedExpressions
import MathKernel.Proofs.Normalize.IntegerSpellings

/-!
# How floating numbers are spelled

A floating literal is made of digits with an optional point, an optional exponent and suffixes.
What it spells is said by the places of its digits. Its canonical form is spelled in the same way:
a zero stands where there are no digits, the mark of the exponent is a small letter, and there is
no suffix. Nothing that writes literals changes it any more.

The shading languages and the scripting language share fewer spellings than that, since numbers of
the scripting language have no leading zeros. The canonical form keeps those that it finds.

## Main definitions

* `ExponentSpelling`, `FloatSpelling` — floating literals, and their `value`
* `FloatSpelling.normal` — the canonical spelling of a literal
* `IsSharedFloat` — the spellings that both families of target languages have

## Main results

* `FloatSpelling.canonicalFloat?_text` — the canonical text of a literal
* `FloatSpelling.value_normal` — it spells the number of the literal
* `Literal.canonical_spells_value` — integers and floating numbers in their canonical forms
* `FloatSpelling.canonicalFloat?_shared` — which canonical texts both families have
-/

namespace MathKernel

/-! ### Parts of a literal -/

/-- What literals without suffixes are made of. -/
def floatLetters : List Char := "0123456789.eE+-".toList

theorem mem_floatLetters_of_isDigit {c : Char} (h : c.isDigit = true) : c ∈ floatLetters := by
  refine forall_char_of_lt (p := fun c => c.isDigit = true → c ∈ floatLetters) ?_ c
    (code_lt_of_isDigit h) h
  decide +kernel

/-- An exponent: its mark, an optional sign and digits. -/
structure ExponentSpelling where
  mark : Char
  sign : List Char
  digits : List Char
  isMark : mark = 'e' ∨ mark = 'E'
  isSign : sign = [] ∨ sign = ['+'] ∨ sign = ['-']
  digits_ne : digits ≠ []
  isDigit : ∀ c ∈ digits, c.isDigit = true

namespace ExponentSpelling

def text (e : ExponentSpelling) : List Char :=
  e.mark :: (e.sign ++ e.digits)

def value (e : ExponentSpelling) : Int :=
  if e.sign = ['-'] then -placeValue 10 e.digits else placeValue 10 e.digits

/-- The exponent with its mark in a small letter. -/
def normal (e : ExponentSpelling) : ExponentSpelling :=
  { e with mark := 'e', isMark := .inl rfl }

theorem readExponent?_text (e : ExponentSpelling) :
    Decimal.readExponent? e.text = some e.value := by
  obtain ⟨mark, sign, digits, hmark, hsign, hne, hdigits⟩ := e
  have hall : digits.all Char.isDigit = true := List.all_eq_true.2 hdigits
  have hsplit : Decimal.splitSign (sign ++ digits) = (decide (sign = ['-']), digits) := by
    rcases hsign with rfl | rfl | rfl
    · obtain ⟨c, rest, rfl⟩ := List.exists_cons_of_ne_nil hne
      have hc := hdigits c List.mem_cons_self
      rw [List.nil_append]
      unfold Decimal.splitSign
      split
      · next heq => cases heq; cases hc
      · next heq => cases heq; cases hc
      · rfl
    · rfl
    · rfl
  simp only [text, Decimal.readExponent?, hsplit, value, digitsToNat_eq_placeValue hdigits]
  simp [hmark, hne, hall]

theorem mem_floatLetters {e : ExponentSpelling} {c : Char} (hc : c ∈ e.text) :
    c ∈ floatLetters := by
  obtain ⟨mark, sign, digits, hmark, hsign, hne, hdigits⟩ := e
  simp only [text, List.mem_cons, List.mem_append] at hc
  rcases hc with rfl | hc | hc
  · rcases hmark with rfl | rfl <;> decide
  · rcases hsign with rfl | rfl | rfl
    · cases hc
    · obtain rfl := List.mem_singleton.1 hc
      decide
    · obtain rfl := List.mem_singleton.1 hc
      decide
  · exact mem_floatLetters_of_isDigit (hdigits c hc)

theorem map_toLower_text (e : ExponentSpelling) : e.text.map Char.toLower = e.normal.text := by
  obtain ⟨mark, sign, digits, hmark, hsign, hne, hdigits⟩ := e
  have hlower : digits.map Char.toLower = digits :=
    (List.map_congr_left fun c hc => Decimal.toLower_of_isDigit (hdigits c hc)).trans digits.map_id
  simp only [text, normal, List.map_cons, List.map_append, hlower]
  rcases hmark with rfl | rfl <;> rcases hsign with rfl | rfl | rfl <;> rfl

end ExponentSpelling

/-- A floating literal. -/
structure FloatSpelling where
  whole : List Char
  /-- The digits after the point, if there is a point. -/
  fraction : Option (List Char)
  exponent : Option ExponentSpelling
  suffix : List Char
  whole_digits : ∀ c ∈ whole, c.isDigit = true
  fraction_digits : ∀ digits ∈ fraction, ∀ c ∈ digits, c.isDigit = true
  has_digits : whole ≠ [] ∨ fraction.getD [] ≠ []
  mem_suffix : ∀ c ∈ suffix, c ∈ ['f', 'F', 'l', 'L']

/-- Digits, or a zero where there are none. -/
def orZero (digits : List Char) : List Char :=
  if digits = [] then ['0'] else digits

theorem orZero_ne_nil (digits : List Char) : orZero digits ≠ [] := by
  unfold orZero
  split <;> simp_all

theorem isDigit_of_mem_orZero {digits : List Char} (h : ∀ c ∈ digits, c.isDigit = true) :
    ∀ c ∈ orZero digits, c.isDigit = true := by
  unfold orZero
  split
  · exact List.forall_mem_singleton.2 rfl
  · exact h

namespace FloatSpelling

/-- The point and the digits after it. -/
def point (l : FloatSpelling) : List Char :=
  match l.fraction with
  | some digits => '.' :: digits
  | none => []

def exponentText (l : FloatSpelling) : List Char :=
  match l.exponent with
  | some e => e.text
  | none => []

/-- The literal without its suffixes. -/
def body (l : FloatSpelling) : List Char :=
  l.whole ++ l.point ++ l.exponentText

def text (l : FloatSpelling) : List Char :=
  l.body ++ l.suffix

def exponentValue (l : FloatSpelling) : Int :=
  match l.exponent with
  | some e => e.value
  | none => 0

/-- The number that the literal spells. -/
def value (l : FloatSpelling) : ℚ :=
  let digits := l.fraction.getD []
  (placeValue 10 l.whole + placeValue 10 digits / 10 ^ digits.length) * 10 ^ l.exponentValue

theorem isDigit_of_mem_fraction (l : FloatSpelling) :
    ∀ c ∈ l.fraction.getD [], c.isDigit = true := by
  cases h : l.fraction with
  | none => exact fun c hc => absurd hc List.not_mem_nil
  | some digits => exact l.fraction_digits digits h

/-- The canonical spelling. Without a point and an exponent it gets a point. -/
def normal (l : FloatSpelling) : FloatSpelling where
  whole := orZero l.whole
  fraction :=
    if l.fraction.isSome ∨ l.exponent = none then some (orZero (l.fraction.getD [])) else none
  exponent := l.exponent.map ExponentSpelling.normal
  suffix := []
  whole_digits := isDigit_of_mem_orZero l.whole_digits
  fraction_digits digits hdigits := by
    obtain ⟨-, hdigits⟩ := Option.ite_none_right_eq_some.1 hdigits
    cases hdigits
    exact isDigit_of_mem_orZero l.isDigit_of_mem_fraction
  has_digits := .inl (orZero_ne_nil l.whole)
  mem_suffix := nofun

/-! ### Reading -/

theorem mem_floatLetters {l : FloatSpelling} {c : Char} (hc : c ∈ l.body) : c ∈ floatLetters := by
  rcases List.mem_append.1 hc with hc | hc
  · rcases List.mem_append.1 hc with hc | hc
    · exact mem_floatLetters_of_isDigit (l.whole_digits c hc)
    · cases hfraction : l.fraction with
      | none => simp [point, hfraction] at hc
      | some digits =>
        simp only [point, hfraction, List.mem_cons] at hc
        rcases hc with rfl | hc
        · decide
        · exact mem_floatLetters_of_isDigit (l.fraction_digits digits hfraction c hc)
  · cases hexponent : l.exponent with
    | none => simp [exponentText, hexponent] at hc
    | some e =>
      simp only [exponentText, hexponent] at hc
      exact e.mem_floatLetters hc

theorem dropFloatSuffix_text (l : FloatSpelling) : Literal.dropFloatSuffix l.text = l.body := by
  refine dropTrailing_append (fun c hc => ?_) fun c hc => ?_
  · have hletters : ∀ c ∈ ['f', 'F', 'l', 'L'], Literal.isFloatSuffix c = true :=
      List.forall_iff_forall_mem.1 (by decide)
    exact hletters c (l.mem_suffix c hc)
  · have hletters : ∀ c ∈ floatLetters, Literal.isFloatSuffix c = false :=
      List.forall_iff_forall_mem.1 (by decide)
    exact hletters c (mem_floatLetters (List.mem_of_getLast? hc))

theorem readExponent?_exponentText (l : FloatSpelling) :
    Decimal.readExponent? l.exponentText = some l.exponentValue := by
  unfold exponentText exponentValue
  cases l.exponent with
  | none => rfl
  | some e => exact e.readExponent?_text

/-- A literal begins with a digit or its point. -/
theorem head_body (l : FloatSpelling) :
    ∃ c rest, l.body = c :: rest ∧ (c.isDigit = true ∧ l.whole ≠ [] ∨ c = '.' ∧ l.whole = []) := by
  cases hwhole : l.whole with
  | cons c rest =>
    have hc := l.whole_digits c (by simp [hwhole])
    exact ⟨c, _, by rw [body, hwhole, List.cons_append, List.cons_append], .inl ⟨hc, by simp⟩⟩
  | nil =>
    have hfraction := l.has_digits.resolve_left (not_not.2 hwhole)
    cases hpoint : l.fraction with
    | none => simp [hpoint] at hfraction
    | some digits =>
      exact ⟨'.', digits ++ l.exponentText, by simp [body, hwhole, point, hpoint], .inr ⟨rfl, rfl⟩⟩

theorem splitSign_body (l : FloatSpelling) : Decimal.splitSign l.body = (false, l.body) := by
  obtain ⟨c, rest, hbody, hc⟩ := l.head_body
  have hsign : c ≠ '-' ∧ c ≠ '+' := by
    rcases hc with ⟨hc, -⟩ | ⟨rfl, -⟩
    · constructor <;> rintro rfl <;> cases hc
    · decide
  rw [hbody]
  unfold Decimal.splitSign
  split <;> simp_all

/-- What is read of a literal spells its number. -/
theorem readUnsigned?_body (l : FloatSpelling) :
    ∃ d, Decimal.readUnsigned? false l.body = some d ∧ d.toRat = l.value := by
  have hexponent := l.readExponent?_exponentText
  cases hpoint : l.fraction with
  | none =>
    have hne : l.whole ≠ [] := l.has_digits.resolve_right (by simp [hpoint])
    have hbody : l.body = l.whole ++ l.exponentText := by simp [body, point, hpoint]
    have hread := Decimal.readUnsigned?_whole l.whole_digits hexponent false hne
    refine ⟨_, hbody ▸ hread, ?_⟩
    rw [Decimal.toRat_eq, digitsToNat_eq_placeValue l.whole_digits]
    simp [value, hpoint, Binary64.signed, placeValue]
  | some digits =>
    have hdigits := l.fraction_digits digits hpoint
    have hne : ¬(l.whole = [] ∧ digits = []) := by
      rintro ⟨hwhole, rfl⟩
      simpa [hwhole, hpoint] using l.has_digits
    have hbody : l.body = l.whole ++ '.' :: (digits ++ l.exponentText) := by
      simp [body, point, hpoint]
    have hread := Decimal.readUnsigned?_point l.whole_digits hexponent false hdigits hne
    refine ⟨_, hbody ▸ hread, ?_⟩
    rw [Decimal.toRat_eq, digitsToNat_append, digitsToNat_eq_placeValue l.whole_digits,
      digitsToNat_eq_placeValue hdigits]
    simp only [value, hpoint, Option.getD_some, Binary64.signed]
    have hten : (10 : ℚ) ≠ 0 := by norm_num
    push_cast
    rw [zpow_sub₀ hten, zpow_natCast]
    field_simp

/-- A literal is read as the number that it spells. -/
theorem rational?_text (l : FloatSpelling) : Literal.rational? l.text = some l.value := by
  obtain ⟨d, hd, hvalue⟩ := l.readUnsigned?_body
  rw [Literal.rational?_eq, l.dropFloatSuffix_text, l.splitSign_body, hd, Option.map_some, hvalue]

/-- A text spells one number only. -/
theorem value_eq_of_text_eq {l m : FloatSpelling} (h : l.text = m.text) : l.value = m.value := by
  have hread := l.rational?_text
  rw [h, m.rational?_text] at hread
  exact (Option.some.inj hread).symm

/-! ### Canonical texts -/

/-- Digits have no point. -/
theorem ne_point_of_isDigit {c : Char} (h : c.isDigit = true) : c ≠ '.' := by
  rintro rfl
  cases h

/-- A zero is put behind a point without digits after it. -/
theorem completeMantissa_point (whole : List Char) {digits : List Char} (hasExponent : Bool)
    (hdigits : ∀ c ∈ digits, c.isDigit = true) :
    Literal.completeMantissa (whole ++ '.' :: digits) hasExponent =
      whole ++ '.' :: orZero digits := by
  cases digits with
  | nil => simp [Literal.completeMantissa, orZero]
  | cons c rest =>
    have hlast : (whole ++ '.' :: c :: rest).getLast? ≠ some '.' := by
      intro hlast
      rw [List.getLast?_append_of_ne_nil _ (List.cons_ne_nil _ _), List.getLast?_cons_cons] at hlast
      exact ne_point_of_isDigit (hdigits '.' (List.mem_of_getLast? hlast)) rfl
    rw [Literal.completeMantissa, if_neg hlast, if_pos (by simp), orZero, if_neg (by simp)]

/-- A point and a zero are put behind digits without an exponent. -/
theorem completeMantissa_whole {whole : List Char} (hasExponent : Bool)
    (hwhole : ∀ c ∈ whole, c.isDigit = true) :
    Literal.completeMantissa whole hasExponent =
      if hasExponent then whole else whole ++ ['.', '0'] := by
  have hnone : '.' ∉ whole := fun hmem => ne_point_of_isDigit (hwhole '.' hmem) rfl
  have hlast : whole.getLast? ≠ some '.' := fun hlast => hnone (List.mem_of_getLast? hlast)
  simp [Literal.completeMantissa, hlast, hnone]

theorem completeMantissa_eq (l : FloatSpelling) :
    Literal.completeMantissa (orZero l.whole ++ l.point) (!l.exponentText.isEmpty) =
      l.normal.whole ++ l.normal.point := by
  cases hfraction : l.fraction with
  | some digits =>
    have hdigits := l.fraction_digits digits hfraction
    have hpoint : l.point = '.' :: digits := by simp [point, hfraction]
    have hnormal : l.normal.point = '.' :: orZero digits := by simp [point, normal, hfraction]
    rw [hpoint, hnormal, completeMantissa_point _ _ hdigits]
    rfl
  | none =>
    have hpoint : l.point = [] := by simp [point, hfraction]
    rw [hpoint, List.append_nil, completeMantissa_whole _ (isDigit_of_mem_orZero l.whole_digits)]
    cases hexponent : l.exponent with
    | none => simp [normal, point, exponentText, hfraction, hexponent, orZero]
    | some e => simp [normal, point, exponentText, hfraction, hexponent, ExponentSpelling.text]

theorem map_toLower_exponentText (l : FloatSpelling) :
    l.exponentText.map Char.toLower = l.normal.exponentText := by
  cases hexponent : l.exponent with
  | none => simp [exponentText, normal, hexponent]
  | some e => simp [exponentText, normal, hexponent, e.map_toLower_text]

/-- A zero is put before a point at the beginning. -/
theorem padded_body (l : FloatSpelling) :
    (if l.body.head? = some '.' then '0' :: l.body else l.body) =
      orZero l.whole ++ l.point ++ l.exponentText := by
  obtain ⟨c, rest, hbody, hc⟩ := l.head_body
  rcases hc with ⟨hc, hwhole⟩ | ⟨rfl, hwhole⟩
  · rw [if_neg (by simpa [hbody] using ne_point_of_isDigit hc), orZero, if_neg hwhole, body]
  · rw [if_pos (by simp [hbody]), orZero, if_pos hwhole, body, hwhole]
    rfl

/-- The canonical text of a literal. -/
theorem canonicalFloat?_text (l : FloatSpelling) :
    Literal.canonicalFloat? l.text = some l.normal.text := by
  -- The text is written only if it can be read, and hexadecimal texts cannot.
  have hhex : Literal.afterHexMark? (Literal.dropFloatSuffix l.text) = none := by
    have hletters : ∀ c ∈ floatLetters, c ≠ 'x' ∧ c ≠ 'X' :=
      List.forall_iff_forall_mem.1 (by decide)
    rw [l.dropFloatSuffix_text]
    exact Literal.afterHexMark?_of_forall fun c hc => hletters c (mem_floatLetters hc)
  have hread : (Literal.readFloat? l.text).isSome :=
    Literal.isSome_readFloat? hhex (by rw [l.rational?_text]; rfl)
  obtain ⟨x, hx⟩ := Option.isSome_iff_exists.1 hread
  -- So the first exponent mark is that of the exponent.
  have hmantissa : ∀ c ∈ orZero l.whole ++ l.point, Literal.isExponentMark c = false := by
    refine List.forall_mem_append.2 ⟨fun c hc => ?_, fun c hc => ?_⟩
    · exact Literal.isExponentMark_of_isDigit (isDigit_of_mem_orZero l.whole_digits c hc)
    · cases hfraction : l.fraction with
      | none => simp [point, hfraction] at hc
      | some digits =>
        simp only [point, hfraction, List.mem_cons] at hc
        rcases hc with rfl | hc
        · rfl
        · exact Literal.isExponentMark_of_isDigit (l.fraction_digits digits hfraction c hc)
  have hmark := Decimal.head?_of_readExponent? l.readExponent?_exponentText
  have hsuffix : l.normal.suffix = [] := rfl
  rw [Literal.canonicalFloat?_eq, hx, Option.map_some, l.dropFloatSuffix_text]
  dsimp only
  rw [l.padded_body, Literal.formatFloat_append hmantissa hmark, l.completeMantissa_eq,
    l.map_toLower_exponentText, text, body, hsuffix, List.append_nil]

theorem value_normal (l : FloatSpelling) : l.normal.value = l.value := by
  have hread := Literal.rational?_canonicalFloat? l.canonicalFloat?_text l.rational?_text
  rw [l.normal.rational?_text] at hread
  exact Option.some.inj hread

theorem point_or_exponent_normal (l : FloatSpelling) :
    l.normal.fraction.isSome ∨ l.normal.exponent.isSome := by
  cases hexponent : l.exponent <;> simp [normal, hexponent]

theorem text_normal (l : FloatSpelling) : l.normal.text = l.normal.body :=
  List.append_nil _

theorem hasPointOrExponent_text {l : FloatSpelling}
    (h : l.fraction.isSome ∨ l.exponent.isSome) : hasPointOrExponent l.text = true := by
  rw [hasPointOrExponent, List.any_eq_true]
  rcases h with h | h
  · obtain ⟨digits, hfraction⟩ := Option.isSome_iff_exists.1 h
    exact ⟨'.', by simp [text, body, point, hfraction], rfl⟩
  · obtain ⟨e, hexponent⟩ := Option.isSome_iff_exists.1 h
    refine ⟨e.mark, by simp [text, body, exponentText, hexponent, ExponentSpelling.text], ?_⟩
    rcases e.isMark with hmark | hmark <;> rw [hmark] <;> rfl

/-! ### Texts that are written as they are -/

theorem canonicalFloat?_normal (l : FloatSpelling) :
    Literal.canonicalFloat? l.normal.text = some l.normal.text := by
  have hagain := l.normal.canonicalFloat?_text
  rwa [Literal.canonicalFloat?_canonicalFloat? l.canonicalFloat?_text hagain] at hagain

theorem floatLiteral_normal (l : FloatSpelling) (family : Family) :
    family.floatLiteral (String.ofList l.normal.text) = String.ofList l.normal.text := by
  refine Literal.floatLiteral_eq_self family ?_
  rw [String.toList_ofList, l.canonicalFloat?_normal]

theorem literalText_normal (l : FloatSpelling) (target : Target) (type : ScalarType) :
    target.literalText type (String.ofList l.normal.text) = String.ofList l.normal.text := by
  have hnumber : String.ofList l.normal.text ≠ notANumber := by
    intro h
    have hletter : 'N' ∈ l.normal.body := by
      rw [← l.text_normal, ← String.toList_ofList (l := l.normal.text), h]
      decide
    exact absurd (mem_floatLetters hletter) (by decide)
  have hpoint := hasPointOrExponent_text l.point_or_exponent_normal
  simp [Target.literalText, hnumber, hpoint]

end FloatSpelling

/-- Literals in their canonical forms. An integer literal is read as the number that it spells if
it fits 64 bits. What can be read as an integer has a decimal text without leading zeros, which is
read as the same integer. A floating literal has a text without suffixes and with a point or an
exponent, which spells the same number and is not changed by anything that writes literals. -/
theorem Literal.canonical_spells_value :
    (∀ l : IntegerSpelling,
      readInt? l.text = if InInt64 l.value then some (l.value : Int) else none) ∧
    (∀ (text : String) (n : Int), readInt? text.toList = some n →
      ∃ t, canonical? ⟨.int, text⟩ = some ⟨.int, t⟩ ∧ IsDecimalInteger t.toList ∧
        readInt? t.toList = some n) ∧
    (∀ n, InInt64 n → readInt? (toString n).toList = some n) ∧
    ∀ l : FloatSpelling, ∃ m : FloatSpelling,
      canonicalFloat? l.text = some m.text ∧
      (∀ m' : FloatSpelling, m'.text = m.text → m'.value = l.value) ∧
      m.suffix = [] ∧ (m.fraction.isSome ∨ m.exponent.isSome) ∧
      canonicalFloat? m.text = some m.text ∧
      (∀ family : Family, family.floatLiteral (String.ofList m.text) = String.ofList m.text) ∧
      ∀ (target : Target) (type : ScalarType),
        target.literalText type (String.ofList m.text) = String.ofList m.text := by
  refine ⟨IntegerSpelling.readInt?_text, fun text n h => ?_, fun n hn => ?_, fun l => ?_⟩
  · exact ⟨_, canonical?_of_readInt? h, isDecimalInteger_toString n,
      readInt?_toString_of_inInt64 (inInt64_of_readInt? h)⟩
  · exact readInt?_toString_of_inInt64 hn
  · have hvalue (m : FloatSpelling) (hm : m.text = l.normal.text) : m.value = l.value :=
      (FloatSpelling.value_eq_of_text_eq hm).trans l.value_normal
    exact ⟨l.normal, l.canonicalFloat?_text, hvalue, rfl, l.point_or_exponent_normal,
      l.canonicalFloat?_normal, l.floatLiteral_normal, l.literalText_normal⟩

theorem Literal.canonical_spells_value_signedZeros :
    readInt? "-007".toList = some (-7) ∧
      (∃ t, canonical? ⟨.int, "-007"⟩ = some ⟨.int, t⟩ ∧ IsDecimalInteger t.toList ∧
        readInt? t.toList = some (-7)) ∧
      InInt64 int64Min ∧ readInt? (toString int64Min).toList = some int64Min := by
  have hread : readInt? "-007".toList = some (-7) := by decide
  have hrange : InInt64 int64Min := by decide
  obtain ⟨-, htexts, hdecimal, -⟩ := canonical_spells_value
  exact ⟨hread, htexts "-007" (-7) hread, hrange, hdecimal int64Min hrange⟩

/-! ### Spellings of both families -/

/-- `0` or digits that do not begin with it. -/
def IsSharedWhole (text : List Char) : Prop :=
  text ≠ [] ∧ (∀ c ∈ text, c.isDigit = true) ∧ (text.head? = some '0' → text = ['0'])

/-- Nothing, or a point with digits. -/
def IsSharedFraction (text : List Char) : Prop :=
  text = [] ∨ ∃ digits, text = '.' :: digits ∧ digits ≠ [] ∧ ∀ c ∈ digits, c.isDigit = true

/-- Nothing, or a small mark with an optional sign and digits. -/
def IsSharedExponent (text : List Char) : Prop :=
  text = [] ∨ ∃ sign digits, text = 'e' :: (sign ++ digits) ∧
    (sign = [] ∨ sign = ['+'] ∨ sign = ['-']) ∧ digits ≠ [] ∧ ∀ c ∈ digits, c.isDigit = true

/-- A floating literal of the shading languages and of the scripting language:
`(0 | [1-9][0-9]*) (. [0-9]+)? (e [+-]? [0-9]+)?` with a point or an exponent. -/
def IsSharedFloat (text : List Char) : Prop :=
  ∃ whole fraction exponent, text = whole ++ fraction ++ exponent ∧ IsSharedWhole whole ∧
    IsSharedFraction fraction ∧ IsSharedExponent exponent ∧ (fraction ≠ [] ∨ exponent ≠ [])

/-- The digits before the point and the exponent are those at the beginning. -/
theorem IsSharedFloat.whole {text : List Char} (h : IsSharedFloat text) :
    IsSharedWhole (text.takeWhile Char.isDigit) := by
  obtain ⟨whole, fraction, exponent, rfl, hwhole, hfraction, hexponent, -⟩ := h
  have hrest : ∀ c ∈ (fraction ++ exponent).head?, c.isDigit = false := by
    intro c hc
    rcases hfraction with rfl | ⟨digits, rfl, -⟩
    · rcases hexponent with rfl | ⟨sign, digits, rfl, -⟩
      · cases hc
      · cases hc
        rfl
    · cases hc
      rfl
  rwa [List.append_assoc, takeWhile_append_eq hwhole.2.1 hrest]

namespace FloatSpelling

theorem takeWhile_text_normal (l : FloatSpelling) :
    l.normal.text.takeWhile Char.isDigit = orZero l.whole := by
  have hrest : ∀ c ∈ (l.normal.point ++ l.normal.exponentText).head?, c.isDigit = false := by
    cases hfraction : l.normal.fraction with
    | some digits =>
      rintro c hc
      simp only [point, hfraction, List.cons_append, List.head?_cons, Option.mem_def,
        Option.some.injEq] at hc
      subst hc
      rfl
    | none =>
      have hmark := Decimal.head?_of_readExponent? l.normal.readExponent?_exponentText
      have hpoint : l.normal.point = [] := by simp [point, hfraction]
      rw [hpoint, List.nil_append]
      exact fun c hc => (Decimal.isDigit_of_isExponentMark (hmark c hc)).1
  rw [text_normal, body, List.append_assoc]
  exact takeWhile_append_eq l.normal.whole_digits hrest

theorem isSharedFraction_normal (l : FloatSpelling) : IsSharedFraction l.normal.point := by
  have hdigits (ds : List Char) (hds : ∀ c ∈ ds, c.isDigit = true) :
      IsSharedFraction ('.' :: orZero ds) :=
    .inr ⟨orZero ds, rfl, orZero_ne_nil ds, isDigit_of_mem_orZero hds⟩
  unfold point
  split
  · next digits heq =>
    obtain ⟨-, heq⟩ := Option.ite_none_right_eq_some.1 heq
    cases heq
    exact hdigits _ l.isDigit_of_mem_fraction
  · exact .inl rfl

theorem isSharedExponent_normal (l : FloatSpelling) :
    IsSharedExponent l.normal.exponentText := by
  cases hexponent : l.exponent with
  | none => exact .inl (by simp [exponentText, normal, hexponent])
  | some e =>
    have htext : l.normal.exponentText = 'e' :: (e.sign ++ e.digits) := by
      simp [exponentText, normal, hexponent, ExponentSpelling.normal, ExponentSpelling.text]
    exact .inr ⟨e.sign, e.digits, htext, e.isSign, e.digits_ne, e.isDigit⟩

theorem isSharedFloat_normal_iff (l : FloatSpelling) :
    IsSharedFloat l.normal.text ↔ (l.whole.head? = some '0' → l.whole = ['0']) := by
  have hwhole : IsSharedWhole (orZero l.whole) ↔ (l.whole.head? = some '0' → l.whole = ['0']) := by
    have hne := orZero_ne_nil l.whole
    have hdigits := isDigit_of_mem_orZero l.whole_digits
    by_cases hnil : l.whole = [] <;> simp_all [IsSharedWhole, orZero]
  rw [← hwhole]
  constructor
  · intro h
    rw [← l.takeWhile_text_normal]
    exact h.whole
  · intro h
    refine ⟨_, _, _, l.text_normal, h, l.isSharedFraction_normal, l.isSharedExponent_normal, ?_⟩
    rcases l.point_or_exponent_normal with hfraction | hexponent
    · obtain ⟨digits, hfraction⟩ := Option.isSome_iff_exists.1 hfraction
      exact .inl (by simp [point, hfraction])
    · obtain ⟨e, hexponent⟩ := Option.isSome_iff_exists.1 hexponent
      exact .inr (by simp [exponentText, hexponent, ExponentSpelling.text])

/-- The canonical text of a literal has a point or an exponent. Both families have it unless the
digits of the literal begin with a zero too many. -/
theorem canonicalFloat?_shared (l : FloatSpelling) :
    ∃ t, Literal.canonicalFloat? l.text = some t ∧ hasPointOrExponent t = true ∧
      (IsSharedFloat t ↔ (l.whole.head? = some '0' → l.whole = ['0'])) :=
  ⟨_, l.canonicalFloat?_text, hasPointOrExponent_text l.point_or_exponent_normal,
    l.isSharedFloat_normal_iff⟩

/-- A half with a zero too many. -/
def paddedHalf : FloatSpelling where
  whole := ['0', '0']
  fraction := some ['5']
  exponent := none
  suffix := ['f']
  whole_digits := List.forall_iff_forall_mem.1 (by decide)
  fraction_digits := by simp
  has_digits := by simp
  mem_suffix := by simp

/-- The zero stays, so the text is none that both families have. -/
theorem canonicalFloat?_paddedHalf :
    paddedHalf.text = "00.5f".toList ∧
      Literal.canonicalFloat? paddedHalf.text = some "00.5".toList ∧
      ¬ IsSharedFloat "00.5".toList := by
  refine ⟨by decide, by decide, fun h => ?_⟩
  have hwhole : IsSharedWhole ['0', '0'] := h.whole
  exact absurd (hwhole.2.2 rfl) (by decide)

end FloatSpelling

end MathKernel
