import MathKernel.Proofs.Normalize.Literals
import MathKernel.Proofs.Number.Nearest

/-!
# Values of canonical literals

The canonical form of a literal has the value of the literal. Integers are the same number in
decimal. A floating text gets a zero before or after its point, or a point and a zero, and its
exponent is marked by a small letter; none of this changes the number that it spells.

## Main results

* `Literal.rational?_canonicalFloat?` — floating texts
* `Literal.scalar?_canonical?` — all literals
-/

namespace MathKernel

/-! ### Parts of a decimal text -/

namespace Decimal

variable {negative : Bool} {whole fraction tail text : List Char} {d : Decimal} {k : Int}

/-- An exponent begins with its mark. -/
theorem head?_of_readExponent? (h : readExponent? tail = some k) :
    ∀ c ∈ tail.head?, Literal.isExponentMark c = true := by
  cases tail with
  | nil => exact nofun
  | cons mark rest =>
    rintro c ⟨⟩
    simp only [readExponent?] at h
    split at h
    · next hmark => simpa [Literal.isExponentMark] using hmark.1
    · cases h

theorem isDigit_of_isExponentMark {c : Char} (h : Literal.isExponentMark c = true) :
    c.isDigit = false ∧ c ≠ '.' := by
  simp only [Literal.isExponentMark, Bool.or_eq_true, beq_iff_eq] at h
  rcases h with rfl | rfl <;> decide

theorem toLower_of_isDigit {c : Char} (h : c.isDigit = true) : c.toLower = c := by
  refine Char.toNat_inj.1 ?_
  rw [Literal.toNat_toLower, if_neg]
  simp only [Char.isDigit, Bool.and_eq_true, decide_eq_true_eq] at h
  have hle : c.toNat ≤ 57 := h.2
  omega

/-- The sign of an exponent and its digits are the same in small letters. -/
theorem splitSign_map_toLower {text digits : List Char} (h : splitSign text = (negative, digits))
    (hdigits : ∀ c ∈ digits, c.isDigit = true) : text.map Char.toLower = text := by
  have hlower : digits.map Char.toLower = digits :=
    (List.map_congr_left fun c hc => toLower_of_isDigit (hdigits c hc)).trans digits.map_id
  unfold splitSign at h
  split at h
  all_goals
    cases h
    first | exact hlower | exact congrArg (List.cons _) hlower

theorem readExponent?_map_toLower (h : readExponent? tail = some k) :
    readExponent? (tail.map Char.toLower) = some k := by
  cases tail with
  | nil => exact h
  | cons mark rest =>
    have hmark := Literal.isExponentMark_toLower (head?_of_readExponent? h mark rfl)
    have hrest : rest.map Char.toLower = rest := by
      simp only [readExponent?] at h
      split at h
      · next hdigits => exact splitSign_map_toLower rfl (List.all_eq_true.1 hdigits.2.2)
      · cases h
    rw [List.map_cons, hmark, hrest]
    simp only [readExponent?] at h ⊢
    split at h
    · next hdigits => simpa [hdigits.2.1, hdigits.2.2] using h
    · cases h

section Parts

variable (hwhole : ∀ c ∈ whole, c.isDigit = true) (hexponent : readExponent? tail = some k)
include hwhole hexponent

/-- Digits with a point among or around them. -/
theorem readUnsigned?_point (negative : Bool) (hfraction : ∀ c ∈ fraction, c.isDigit = true)
    (hdigits : ¬(whole = [] ∧ fraction = [])) :
    readUnsigned? negative (whole ++ '.' :: (fraction ++ tail)) =
      some ⟨negative, digitsToNat (whole ++ fraction), k - fraction.length⟩ := by
  have hpoint : ∀ c ∈ ('.' :: (fraction ++ tail)).head?, c.isDigit = false := by
    rintro c ⟨⟩
    rfl
  have htail : ∀ c ∈ tail.head?, c.isDigit = false := fun c hc =>
    (isDigit_of_isExponentMark (head?_of_readExponent? hexponent c hc)).1
  rw [readUnsigned?, takeWhile_append_eq hwhole hpoint, dropWhile_append_eq hwhole hpoint,
    splitFraction_point hfraction htail]
  dsimp only
  rw [if_neg hdigits, hexponent]
  rfl

/-- Digits without a point. -/
theorem readUnsigned?_whole (negative : Bool) (hdigits : whole ≠ []) :
    readUnsigned? negative (whole ++ tail) = some ⟨negative, digitsToNat whole, k⟩ := by
  have hmark := head?_of_readExponent? hexponent
  have htail : ∀ c ∈ tail.head?, c.isDigit = false := fun c hc =>
    (isDigit_of_isExponentMark (hmark c hc)).1
  have hsplit : splitFraction tail = ([], tail) := by
    unfold splitFraction
    split
    · exact absurd rfl (isDigit_of_isExponentMark (hmark '.' rfl)).2
    · rfl
  rw [readUnsigned?, takeWhile_append_eq hwhole htail, dropWhile_append_eq hwhole htail, hsplit]
  dsimp only
  rw [if_neg fun h => hdigits h.1, hexponent, List.append_nil]
  simp

end Parts

/-- What is read of a text: digits, a point with digits or neither, and an exponent. -/
theorem exists_parts (h : readUnsigned? negative text = some d) :
    ∃ whole tail k, (∀ c ∈ whole, c.isDigit = true) ∧ readExponent? tail = some k ∧
      ((text = whole ++ tail ∧ whole ≠ [] ∧ d = ⟨negative, digitsToNat whole, k⟩) ∨
        ∃ fraction, (∀ c ∈ fraction, c.isDigit = true) ∧ ¬(whole = [] ∧ fraction = []) ∧
          text = whole ++ '.' :: (fraction ++ tail) ∧
          d = ⟨negative, digitsToNat (whole ++ fraction), k - fraction.length⟩) := by
  have hwhole : ∀ c ∈ text.takeWhile Char.isDigit, c.isDigit = true :=
    fun c hc => List.mem_takeWhile_imp hc
  have htext := List.takeWhile_append_dropWhile (p := Char.isDigit) (l := text)
  rw [readUnsigned?] at h
  revert h hwhole htext
  generalize text.takeWhile Char.isDigit = whole
  generalize text.dropWhile Char.isDigit = rest
  rintro h hwhole rfl
  -- With a point the digits after it count as well, without one the exponent follows at once.
  by_cases hpoint : ∃ after, rest = '.' :: after
  · obtain ⟨after, rfl⟩ := hpoint
    have hsplit : splitFraction ('.' :: after) =
        (after.takeWhile Char.isDigit, after.dropWhile Char.isDigit) := rfl
    rw [hsplit] at h
    dsimp only at h
    split at h
    · cases h
    · next hdigits =>
      obtain ⟨k, hk, heq⟩ := Option.bind_eq_some_iff.1 h
      refine ⟨whole, _, k, hwhole, hk, .inr ⟨_, fun c hc => List.mem_takeWhile_imp hc, hdigits, ?_,
        (Option.some.inj heq).symm⟩⟩
      rw [List.takeWhile_append_dropWhile]
  · have hsplit : splitFraction rest = ([], rest) := by
      unfold splitFraction
      split
      · next after => exact absurd ⟨after, rfl⟩ hpoint
      · rfl
    rw [hsplit] at h
    dsimp only at h
    split at h
    · cases h
    · next hdigits =>
      obtain ⟨k, hk, heq⟩ := Option.bind_eq_some_iff.1 h
      refine ⟨whole, rest, k, hwhole, hk, .inl ⟨rfl, fun hnil => hdigits ⟨hnil, rfl⟩, ?_⟩⟩
      rw [← Option.some.inj heq]
      simp

/-- A zero at the end of the digits goes with a smaller exponent. -/
theorem toRat_append_zero (negative : Bool) (digits : List Char) (k : Int) :
    toRat ⟨negative, digitsToNat (digits ++ ['0']), k - 1⟩ =
      toRat ⟨negative, digitsToNat digits, k⟩ := by
  have hdigits : digitsToNat (digits ++ ['0']) = digitsToNat digits * 10 := by
    rw [digitsToNat_append, mul_comm]
    rfl
  have hten : (10 : ℚ) ≠ 0 := by norm_num
  rw [toRat_eq, toRat_eq, hdigits]
  push_cast
  rw [zpow_sub_one₀ hten, mul_assoc, mul_comm (10 : ℚ), inv_mul_cancel_right₀ hten]

end Decimal

/-! ### Completed texts -/

namespace Literal

variable {mantissa tail text : List Char} {negative : Bool} {d : Decimal}

theorem formatFloat_append (hmantissa : ∀ c ∈ mantissa, isExponentMark c = false)
    (htail : ∀ c ∈ tail.head?, isExponentMark c = true) :
    formatFloat (mantissa ++ tail) =
      completeMantissa mantissa (!tail.isEmpty) ++ tail.map Char.toLower := by
  have hbefore : ∀ c ∈ mantissa, (!isExponentMark c) = true := fun c hc => by simp [hmantissa c hc]
  have hafter : ∀ c ∈ tail.head?, (!isExponentMark c) = false := fun c hc => by simp [htail c hc]
  rw [formatFloat, takeWhile_append_eq hbefore hafter, dropWhile_append_eq hbefore hafter]

theorem isExponentMark_of_isDigit {c : Char} (h : c.isDigit = true) : isExponentMark c = false := by
  by_contra hmark
  rw [(Decimal.isDigit_of_isExponentMark (Bool.not_eq_false _ ▸ hmark)).1] at h
  cases h

/-- A completed text spells the number of the text. -/
theorem readUnsigned?_formatFloat (h : Decimal.readUnsigned? negative text = some d) :
    ∃ d', Decimal.readUnsigned? negative (formatFloat text) = some d' ∧ d'.toRat = d.toRat := by
  obtain ⟨whole, tail, k, hwhole, hexponent, htext⟩ := Decimal.exists_parts h
  have hmark := Decimal.head?_of_readExponent? hexponent
  have hlower := Decimal.readExponent?_map_toLower hexponent
  have hwholeMark : ∀ c ∈ whole, isExponentMark c = false := fun c hc =>
    isExponentMark_of_isDigit (hwhole c hc)
  have hwholePoint : '.' ∉ whole := fun hmem => absurd (hwhole '.' hmem) (by decide)
  have hzero : ∀ c ∈ ['0'], c.isDigit = true := List.forall_mem_singleton.2 rfl
  rcases htext with ⟨rfl, hdigits, rfl⟩ | ⟨fraction, hfraction, hdigits, rfl, rfl⟩
  · rw [formatFloat_append hwholeMark hmark]
    have hlast : whole.getLast? ≠ some '.' := fun hlast =>
      hwholePoint (List.mem_of_getLast? hlast)
    cases tail with
    | nil =>
      -- Without an exponent a point and a zero are added.
      cases hexponent
      have hcomplete :
          completeMantissa whole (!([] : List Char).isEmpty) = whole ++ ['.', '0'] := by
        simp [completeMantissa, hlast, hwholePoint]
      rw [hcomplete, List.append_assoc]
      exact ⟨_, Decimal.readUnsigned?_point hwhole hlower negative hzero (by simp),
        Decimal.toRat_append_zero negative whole 0⟩
    | cons mark rest =>
      have hcomplete : completeMantissa whole (!(mark :: rest).isEmpty) = whole := by
        simp [completeMantissa, hlast]
      rw [hcomplete]
      exact ⟨_, Decimal.readUnsigned?_whole hwhole hlower negative hdigits, rfl⟩
  · have hmantissa : ∀ c ∈ whole ++ '.' :: fraction, isExponentMark c = false := by
      refine List.forall_mem_append.2 ⟨hwholeMark, List.forall_mem_cons.2 ⟨rfl, fun c hc => ?_⟩⟩
      exact isExponentMark_of_isDigit (hfraction c hc)
    have hsplit : whole ++ '.' :: (fraction ++ tail) = (whole ++ '.' :: fraction) ++ tail := by
      simp
    rw [hsplit, formatFloat_append hmantissa hmark]
    cases fraction with
    | nil =>
      -- A zero is added after the point.
      have hcomplete : completeMantissa (whole ++ ['.']) (!tail.isEmpty) =
          whole ++ '.' :: ['0'] := by
        simp [completeMantissa]
      rw [hcomplete, List.append_assoc]
      refine ⟨_, Decimal.readUnsigned?_point hwhole hlower negative hzero (by simp), ?_⟩
      simpa using Decimal.toRat_append_zero negative whole k
    | cons c rest =>
      have hlast : (whole ++ '.' :: c :: rest).getLast? ≠ some '.' := by
        intro hlast
        rw [List.getLast?_append_of_ne_nil _ (by simp), List.getLast?_cons_cons] at hlast
        exact absurd (hfraction '.' (List.mem_of_getLast? hlast)) (by decide)
      have hcomplete : completeMantissa (whole ++ '.' :: c :: rest) (!tail.isEmpty) =
          whole ++ '.' :: c :: rest := by
        rw [completeMantissa, if_neg hlast, if_pos (by simp)]
      rw [hcomplete, List.append_assoc]
      exact ⟨_, Decimal.readUnsigned?_point hwhole hlower negative hfraction hdigits, rfl⟩

theorem formatFloat_cons {c : Char} (hmark : isExponentMark c = false) (text : List Char) :
    ∃ rest, formatFloat (c :: text) = c :: rest := by
  unfold formatFloat
  rw [List.takeWhile_cons, List.dropWhile_cons, hmark]
  simp only [Bool.not_false, if_true]
  unfold completeMantissa
  split_ifs
  all_goals exact ⟨_, rfl⟩

/-- A sign stays before a completed text. -/
theorem formatFloat_sign {c : Char} (hc : c = '-' ∨ c = '+') (text : List Char) :
    formatFloat (c :: text) = c :: formatFloat text := by
  have hmark : isExponentMark c = false := by rcases hc with rfl | rfl <;> rfl
  have hpoint : c ≠ '.' := by rcases hc with rfl | rfl <;> decide
  unfold formatFloat
  rw [List.takeWhile_cons, List.dropWhile_cons, hmark]
  simp only [Bool.not_false, if_true]
  generalize text.takeWhile (fun c => !isExponentMark c) = mantissa
  rw [← List.cons_append]
  refine congrArg (· ++ _) ?_
  have hlast : (c :: mantissa).getLast? = some '.' ↔ mantissa.getLast? = some '.' := by
    cases mantissa with
    | nil => simp [hpoint]
    | cons d rest => rw [List.getLast?_cons_cons]
  have hmem : (c :: mantissa).contains '.' = mantissa.contains '.' := by
    simp [hpoint.symm]
  simp only [completeMantissa, hlast, hmem]
  split_ifs <;> rfl

/-- The text of a decimal begins with a digit or a point. -/
theorem head?_of_readUnsigned? (h : Decimal.readUnsigned? negative text = some d) :
    ∃ c rest, text = c :: rest ∧ (c.isDigit = true ∨ c = '.') := by
  obtain ⟨whole, tail, k, hwhole, -, htext⟩ := Decimal.exists_parts h
  cases whole with
  | cons c rest =>
    have hc := hwhole c List.mem_cons_self
    rcases htext with ⟨rfl, -, -⟩ | ⟨fraction, -, -, rfl, -⟩
    · exact ⟨c, _, rfl, .inl hc⟩
    · exact ⟨c, _, rfl, .inl hc⟩
  | nil =>
    rcases htext with ⟨-, hdigits, -⟩ | ⟨fraction, -, -, rfl, -⟩
    · exact absurd rfl hdigits
    · exact ⟨'.', _, rfl, .inr rfl⟩

/-- A signed decimal, completed, is the same number. -/
theorem ofSigned_formatFloat {q : ℚ}
    (h : (Decimal.readUnsigned? (Decimal.splitSign text).1 (Decimal.splitSign text).2).map
      Decimal.toRat = some q) :
    (Decimal.readUnsigned? (Decimal.splitSign (formatFloat text)).1
      (Decimal.splitSign (formatFloat text)).2).map Decimal.toRat = some q := by
  obtain ⟨d, hd, rfl⟩ := Option.map_eq_some_iff.1 h
  obtain ⟨d', hd', hvalue⟩ := readUnsigned?_formatFloat hd
  have hsplit : Decimal.splitSign (formatFloat text) =
      ((Decimal.splitSign text).1, formatFloat (Decimal.splitSign text).2) := by
    unfold Decimal.splitSign at hd ⊢
    split at hd
    · rw [formatFloat_sign (.inl rfl)]
      rfl
    · rw [formatFloat_sign (.inr rfl)]
      rfl
    · -- A number without a sign starts with a digit or a point, and so does its spelling.
      obtain ⟨c, rest, rfl, hc⟩ := head?_of_readUnsigned? hd
      have hmark : isExponentMark c = false := by
        rcases hc with hc | rfl
        · exact isExponentMark_of_isDigit hc
        · rfl
      obtain ⟨rest', hformat⟩ := formatFloat_cons hmark rest
      rw [hformat]
      split
      · next heq =>
        cases heq
        rcases hc with hc | hc <;> exact absurd hc (by decide)
      · next heq =>
        cases heq
        rcases hc with hc | hc <;> exact absurd hc (by decide)
      · rfl
  rw [hsplit, hd', Option.map_some, hvalue]

theorem rational?_eq (text : List Char) :
    rational? text = (Decimal.readUnsigned? (Decimal.splitSign (dropFloatSuffix text)).1
      (Decimal.splitSign (dropFloatSuffix text)).2).map Decimal.toRat :=
  rfl

/-- A zero before a point does not matter. -/
theorem readUnsigned?_zero_point (h : Decimal.readUnsigned? negative ('.' :: text) = some d) :
    Decimal.readUnsigned? negative ('0' :: '.' :: text) = some d := by
  obtain ⟨whole, tail, k, hwhole, hexponent, htext⟩ := Decimal.exists_parts h
  obtain rfl : whole = [] := by
    cases whole with
    | nil => rfl
    | cons c rest =>
      have hc := hwhole c List.mem_cons_self
      rcases htext with ⟨heq, -, -⟩ | ⟨fraction, -, -, heq, -⟩ <;> cases heq <;> cases hc
  rcases htext with ⟨-, hdigits, -⟩ | ⟨fraction, hfraction, -, htext, rfl⟩
  · exact absurd rfl hdigits
  · have hzero : ∀ c ∈ ['0'], c.isDigit = true := List.forall_mem_singleton.2 rfl
    have hread := Decimal.readUnsigned?_point hzero hexponent negative hfraction (by simp)
    rw [List.nil_append] at htext
    rw [htext]
    exact hread

/-- The canonical text of a floating literal spells the number of the literal. -/
theorem rational?_canonicalFloat? {t : List Char} {q : ℚ} (ht : canonicalFloat? text = some t)
    (h : rational? text = some q) : rational? t = some q := by
  rw [canonicalFloat?_eq] at ht
  obtain ⟨x, hx, rfl⟩ := Option.map_eq_some_iff.1 ht
  have hnonempty : dropFloatSuffix text ≠ [] := by
    intro hnil
    rw [readFloat?, hnil] at hx
    cases hx
  have hlast : ∀ c ∈ (dropFloatSuffix text).getLast?, isFloatSuffix c = false :=
    fun c hc => getLast?_dropTrailing hc
  rw [rational?_eq] at h ⊢
  revert h hnonempty hlast
  dsimp only
  generalize dropFloatSuffix text = trimmed
  intro h hnonempty hlast
  -- A completed text has no suffix.
  have hkept {padded : List Char} (hpadded : padded.getLast? = trimmed.getLast?) :
      dropFloatSuffix (formatFloat padded) = formatFloat padded :=
    dropTrailing_eq_self (getLast?_formatFloat (hpadded ▸ hlast))
  by_cases hpoint : trimmed.head? = some '.'
  · obtain ⟨rest, rfl⟩ := List.head?_eq_some_iff.1 hpoint
    rw [if_pos hpoint, hkept (List.getLast?_cons_of_ne_nil hnonempty)]
    refine ofSigned_formatFloat ?_
    obtain ⟨d, hd, rfl⟩ := Option.map_eq_some_iff.1 h
    exact congrArg (Option.map _) (readUnsigned?_zero_point hd)
  · rw [if_neg hpoint, hkept rfl]
    exact ofSigned_formatFloat h

/-- A text that is no hexadecimal number is read in 64 bits if it is read as an exact number. -/
theorem isSome_readFloat? {text : List Char} (hhex : afterHexMark? (dropFloatSuffix text) = none)
    (h : (rational? text).isSome) : (readFloat? text).isSome := by
  rw [rational?, Option.isSome_map] at h
  unfold readFloat? Binary64.ofText?
  simp only [hhex]
  split_ifs
  · rfl
  · rfl
  · rwa [Option.isSome_map]

theorem afterHexMark?_of_forall {text : List Char} (h : ∀ c ∈ text, c ≠ 'x' ∧ c ≠ 'X') :
    afterHexMark? text = none := by
  unfold afterHexMark?
  split
  · exact absurd rfl (h 'x' (by simp)).1
  · exact absurd rfl (h 'X' (by simp)).2
  · rfl

/-- The canonical form of a literal has the value of the literal. -/
theorem scalar?_canonical? {l normal : Literal} {v : Scalar} (hnormal : l.canonical? = some normal)
    (h : l.scalar? = some v) : normal.scalar? = some v := by
  obtain ⟨kind, text⟩ := l
  cases kind with
  | int =>
    obtain ⟨n, hn, rfl⟩ := Option.map_eq_some_iff.1 hnormal
    have hvalue : integer? text.toList = some n := integer?_of_readInt? hn
    rw [← h]
    change (integer? (toString n).toList).map Scalar.int = (integer? text.toList).map Scalar.int
    rw [integer?_toString, hvalue]
  | char =>
    obtain ⟨n, hn, rfl⟩ := Option.map_eq_some_iff.1 hnormal
    obtain ⟨code, hcode, rfl⟩ := Option.map_eq_some_iff.1 hn
    rw [← h]
    change (integer? (toString (Int.ofNat code)).toList).map Scalar.int =
      (readChar? text.toList).map fun code => Scalar.int code
    rw [integer?_toString, hcode]
    rfl
  | float =>
    obtain ⟨t, ht, rfl⟩ := Option.map_eq_some_iff.1 hnormal
    obtain ⟨q, hq, rfl⟩ := Option.map_eq_some_iff.1 h
    change (rational? (String.ofList t).toList).map Scalar.float = _
    rw [String.toList_ofList, rational?_canonicalFloat? ht hq]
    rfl
  | string => cases h

theorem inInt64_of_readInt? {text : List Char} {n : Int} (h : readInt? text = some n) :
    InInt64 n := by
  have hread {radix : Nat} {digits : List Char} (h : readInt64? radix digits = some n) :
      InInt64 n := by
    rw [readInt64?_eq] at h
    obtain ⟨k, -, h⟩ := Option.bind_eq_some_iff.1 h
    split at h
    · next hk =>
      cases h
      exact hk
    · cases h
  unfold readInt? at h
  dsimp only at h
  split at h
  · exact hread h
  · split at h <;> exact hread h

theorem escapeCode?_lt {c : Char} {code : Nat} (h : escapeCode? c = some code) :
    code < 1114112 := by
  unfold escapeCode? at h
  split at h <;> cases h <;> decide

-- The equations of this match are too deep for `simp` and `split` to find, so it is unfolded.
set_option linter.auxLemma false in
theorem charCode?_singleton (c : Char) : charCode? [c] = some c.toNat := by
  by_cases hc : c = '\\'
  · rw [hc]
    rfl
  · delta charCode? charCode?.match_1
    exact dif_neg hc

set_option linter.auxLemma false in
theorem charCode?_of_ne {c : Char} (hc : c ≠ '\\') (d : Char) (rest : List Char) :
    charCode? (c :: d :: rest) = none := by
  delta charCode? charCode?.match_1
  exact dif_neg hc

theorem charCode?_lt {inner : List Char} {code : Nat} (h : charCode? inner = some code) :
    code < 1114112 := by
  rcases inner with _ | ⟨c, _ | ⟨d, rest⟩⟩
  · cases h
  · rw [charCode?_singleton] at h
    cases h
    rcases c.valid with h | h
    · exact lt_trans h (by decide)
    · exact h.2
  · by_cases hc : c = '\\'
    · subst hc
      exact escapeCode?_lt h
    · rw [charCode?_of_ne hc] at h
      cases h

theorem readChar?_lt {text : List Char} {code : Nat} (h : readChar? text = some code) :
    code < 1114112 := by
  unfold readChar? at h
  split at h
  · split at h
    · exact charCode?_lt h
    · cases h
  · cases h

/-- The canonical form of a literal is the same integer. -/
theorem intValue?_canonical? {l normal : Literal} (h : l.canonical? = some normal) :
    normal.intValue? = l.intValue? := by
  obtain ⟨kind, text⟩ := l
  cases kind with
  | int =>
    obtain ⟨n, hn, rfl⟩ := Option.map_eq_some_iff.1 h
    exact (readInt?_toString_of_inInt64 (inInt64_of_readInt? hn)).trans hn.symm
  | char =>
    obtain ⟨n, hn, rfl⟩ := Option.map_eq_some_iff.1 h
    obtain ⟨code, hcode, rfl⟩ := Option.map_eq_some_iff.1 hn
    have hmin : int64Min ≤ 0 := by decide
    have hmax : 1114112 ≤ int64Max := by decide
    have hcode := readChar?_lt hcode
    have hbounds : InInt64 (Int.ofNat code) := ⟨by simp; omega, by simp; omega⟩
    exact (readInt?_toString_of_inInt64 hbounds).trans hn.symm
  | float =>
    obtain ⟨t, -, rfl⟩ := Option.map_eq_some_iff.1 h
    rfl
  | string => cases h

end Literal

end MathKernel
