import Mathlib.Data.List.Basic
import Mathlib.Data.List.TakeWhile
import MathKernel.Normalize.Spelling
import MathKernel.Proofs.Semantics.Agreement

/-!
# Canonical literals

A literal in its canonical form has no other one: a decimal integer is read as the number that it
spells, and a floating text keeps the point or exponent that it was given.

## Main definitions

* `Literal.IsCanonical` — a literal that is its own canonical form, or has none

## Main results

* `Literal.isCanonical_canonical?` — one step reaches the canonical form
* `Literal.isCanonical_int`, `Literal.isCanonical_float` — the literals that passes write
-/

namespace MathKernel

/-! ### Decimal integers -/

theorem digitValue?_ten {c : Char} (h : c.isDigit = true) :
    digitValue? 10 c = some (c.toNat - '0'.toNat) := by
  have hbound : c.toNat - '0'.toNat < 10 := by
    simp only [Char.isDigit, Bool.and_eq_true, decide_eq_true_eq, ge_iff_le] at h
    have hle : c.toNat ≤ 57 := h.2
    have hzero : '0'.toNat = 48 := rfl
    omega
  simp only [digitValue?, h, if_true, if_pos hbound]

theorem foldlM_digitValue? {digits : List Char} (h : ∀ c ∈ digits, c.isDigit = true) (n : Nat) :
    digits.foldlM (fun n c => (digitValue? 10 c).map (10 * n + ·)) n =
      some (digits.foldl (fun n c => 10 * n + (c.toNat - '0'.toNat)) n) := by
  induction digits generalizing n with
  | nil => rfl
  | cons c rest ih =>
    obtain ⟨hc, hrest⟩ := List.forall_mem_cons.1 h
    rw [List.foldlM_cons, digitValue?_ten hc, Option.map_some, Option.bind_eq_bind,
      Option.bind_some, ih hrest, List.foldl_cons]

theorem readDigits?_toDigits (n : Nat) : readDigits? 10 (Nat.toDigits 10 n) = some n := by
  rw [readDigits?, if_neg Nat.toDigits_ne_nil,
    foldlM_digitValue? fun c hc => isDigit_of_mem_toDigits hc, ← Nat.ofDigitChars_eq_foldl,
    Nat.ofDigitChars_ten_toDigits]

theorem dropTrailing_eq_self {p : Char → Bool} {text : List Char}
    (h : ∀ c ∈ text.getLast?, p c = false) : dropTrailing p text = text := by
  unfold dropTrailing
  rw [← List.head?_reverse] at h
  cases hrev : text.reverse with
  | nil => simpa using hrev.symm
  | cons c rest =>
    rw [List.dropWhile_cons, if_neg (by simp [h c (by simp [hrev])]), ← hrev, List.reverse_reverse]

theorem getLast?_dropTrailing {p : Char → Bool} {text : List Char} {c : Char}
    (h : (dropTrailing p text).getLast? = some c) : p c = false := by
  rw [dropTrailing, List.getLast?_reverse] at h
  have := List.head?_dropWhile_not p text.reverse
  rw [h] at this
  simpa using this

namespace Literal

/-- A digit is no suffix of an integer. -/
theorem dropIntSuffix_toDigits (before : List Char) (n : Nat) :
    dropTrailing isIntSuffix (before ++ Nat.toDigits 10 n) = before ++ Nat.toDigits 10 n := by
  refine dropTrailing_eq_self fun c hc => ?_
  rw [List.getLast?_append_of_ne_nil _ Nat.toDigits_ne_nil] at hc
  have hdigit := isDigit_of_mem_toDigits (List.mem_of_getLast? hc)
  by_contra hsuffix
  simp only [isIntSuffix, Bool.not_eq_false, Bool.or_eq_true, beq_iff_eq] at hsuffix
  rcases hsuffix with ((rfl | rfl) | rfl) | rfl <;> cases hdigit

/-- The decimal text of an integer is signed digits. -/
theorem signedInt?_toString (n : Int) : signedInt? 10 (toString n).toList = some n := by
  cases n with
  | ofNat n =>
    rw [Int.ofNat_eq_natCast, toList_toString_ofNat]
    unfold signedInt?
    split
    · next heq => exact absurd (isDigit_of_mem_toDigits (heq ▸ List.mem_cons_self)) (by decide)
    · next heq => exact absurd (isDigit_of_mem_toDigits (heq ▸ List.mem_cons_self)) (by decide)
    · rw [readDigits?_toDigits]
      rfl
  | negSucc n =>
    rw [toList_toString_negSucc]
    simp only [signedInt?, readDigits?_toDigits]
    rfl

/-- The decimal text of an integer has no suffix and shows no other radix. -/
theorem withRadix_toString (read : Nat → List Char → Option Int) (n : Int) :
    withRadix read (toString n).toList = read 10 (toString n).toList := by
  cases n with
  | ofNat n =>
    rw [Int.ofNat_eq_natCast, toList_toString_ofNat]
    have htrim : dropTrailing isIntSuffix (Nat.toDigits 10 n) = Nat.toDigits 10 n :=
      dropIntSuffix_toDigits [] n
    have hhex : afterHexMark? (Nat.toDigits 10 n) = none := by
      unfold afterHexMark?
      split
      · next heq => exact (toDigits_head heq).elim
      · next heq => exact (toDigits_head heq).elim
      · rfl
    simp only [withRadix, htrim, hhex]
    split
    · next heq => exact (toDigits_head heq).elim
    · rfl
  | negSucc n =>
    rw [toList_toString_negSucc]
    have htrim : dropTrailing isIntSuffix ('-' :: Nat.toDigits 10 (n + 1)) =
        '-' :: Nat.toDigits 10 (n + 1) := dropIntSuffix_toDigits ['-'] (n + 1)
    have hhex : afterHexMark? ('-' :: Nat.toDigits 10 (n + 1)) = none := by simp [afterHexMark?]
    simp [withRadix, htrim, hhex]

theorem integer?_toString (n : Int) : integer? (toString n).toList = some n :=
  (withRadix_toString signedInt? n).trans (signedInt?_toString n)

/-- The decimal text of an integer is read as this integer, if it fits 64 bits. -/
theorem readInt?_toString_eq_ite (n : Int) :
    readInt? (toString n).toList = if InInt64 n then some n else none := by
  change withRadix readInt64? _ = _
  rw [withRadix_toString, readInt64?_eq, signedInt?_toString, Option.bind_some]

theorem readInt?_toString {n m : Int} (h : readInt? (toString n).toList = some m) : m = n := by
  rw [readInt?_toString_eq_ite] at h
  split at h <;> cases h
  rfl

theorem readInt?_toString_of_inInt64 {n : Int} (h : InInt64 n) :
    readInt? (toString n).toList = some n := by
  rw [readInt?_toString_eq_ite, if_pos h]

/-! ### Floating texts -/

/-- A letter's code is 32 more than its capital's. -/
theorem toNat_toLower (c : Char) :
    c.toLower.toNat = if 65 ≤ c.toNat ∧ c.toNat ≤ 90 then c.toNat + 32 else c.toNat := by
  have hiff : c.val ≥ 'A'.val ∧ c.val ≤ 'Z'.val ↔ 65 ≤ c.toNat ∧ c.toNat ≤ 90 := by
    simp only [ge_iff_le, UInt32.le_iff_toNat_le]
    rfl
  unfold Char.toLower
  by_cases h : c.val ≥ 'A'.val ∧ c.val ≤ 'Z'.val
  · rw [dif_pos h, if_pos (hiff.1 h)]
    have hle := (hiff.1 h).2
    change (c.val + 32).toNat = c.val.toNat + 32
    change c.val.toNat ≤ 90 at hle
    rw [UInt32.toNat_add]
    change (c.val.toNat + 32) % 4294967296 = _
    omega
  · rw [dif_neg h, if_neg (mt hiff.2 h)]

theorem toLower_toLower (c : Char) : c.toLower.toLower = c.toLower := by
  refine Char.toNat_inj.1 ?_
  rw [toNat_toLower]
  have h := toNat_toLower c
  split at h <;> split <;> omega

/-- A letter that is a suffix in lower case is one in capitals. -/
theorem isFloatSuffix_of_toLower {c : Char} (h : isFloatSuffix c.toLower = true) :
    isFloatSuffix c = true := by
  have hcodes : ∀ d : Char, isFloatSuffix d = true ↔
      d.toNat = 102 ∨ d.toNat = 70 ∨ d.toNat = 108 ∨ d.toNat = 76 := by
    intro d
    simp only [isFloatSuffix, Bool.or_eq_true, beq_iff_eq, ← Char.toNat_inj, or_assoc]
    rfl
  rw [hcodes] at h ⊢
  have hlower := toNat_toLower c
  split at hlower <;> omega

/-- The text that is written for a floating literal without its suffix. -/
def formatFloat (padded : List Char) : List Char :=
  completeMantissa (padded.takeWhile fun c => !isExponentMark c)
      (!(padded.dropWhile fun c => !isExponentMark c).isEmpty) ++
    (padded.dropWhile fun c => !isExponentMark c).map Char.toLower

theorem canonicalFloat?_eq (text : List Char) :
    canonicalFloat? text = (readFloat? text).map fun _ =>
      let trimmed := dropFloatSuffix text
      formatFloat (if trimmed.head? = some '.' then '0' :: trimmed else trimmed) := by
  unfold canonicalFloat?
  cases readFloat? text <;> rfl

theorem completeMantissa_completeMantissa (mantissa : List Char) (hasExponent : Bool) :
    completeMantissa (completeMantissa mantissa hasExponent) hasExponent =
      completeMantissa mantissa hasExponent := by
  by_cases hpoint : mantissa.getLast? = some '.'
  · have hmem : '.' ∈ mantissa := List.mem_of_getLast? hpoint
    simp [completeMantissa, hpoint, hmem]
  · by_cases hkept : (mantissa.contains '.' || hasExponent) = true
    · simp only [completeMantissa, hpoint, hkept, if_true, if_false]
    · have hadded : completeMantissa mantissa hasExponent = mantissa ++ ['.', '0'] := by
        simp only [completeMantissa, hpoint, hkept, if_false, Bool.false_eq_true]
      rw [hadded]
      simp [completeMantissa]

theorem mem_completeMantissa {mantissa : List Char} {hasExponent : Bool} {c : Char}
    (h : c ∈ completeMantissa mantissa hasExponent) : c ∈ mantissa ∨ c = '.' ∨ c = '0' := by
  unfold completeMantissa at h
  split_ifs at h
  · simp only [List.mem_append, List.mem_singleton] at h
    exact h.imp_right .inr
  · exact .inl h
  · simpa only [List.mem_append, List.mem_cons, List.not_mem_nil, or_false] using h

theorem isExponentMark_toLower {c : Char} (h : isExponentMark c = true) : c.toLower = 'e' := by
  simp only [isExponentMark, Bool.or_eq_true, beq_iff_eq] at h
  rcases h with rfl | rfl <;> decide

/-- What the exponent of a text begins with. -/
theorem dropWhile_isExponentMark (padded : List Char) :
    padded.dropWhile (fun c => !isExponentMark c) = [] ∨
      ∃ rest, (padded.dropWhile fun c => !isExponentMark c).map Char.toLower = 'e' :: rest := by
  have hhead := List.head?_dropWhile_not (fun c => !isExponentMark c) padded
  cases hexponent : padded.dropWhile fun c => !isExponentMark c with
  | nil => exact .inl rfl
  | cons c rest =>
    rw [hexponent] at hhead
    have hmark : isExponentMark c = true := by simpa using hhead
    exact .inr ⟨rest.map Char.toLower, by rw [List.map_cons, isExponentMark_toLower hmark]⟩

/-- A text that has been written is written in the same way again. -/
theorem formatFloat_formatFloat (padded : List Char) :
    formatFloat (formatFloat padded) = formatFloat padded := by
  have hmantissa : ∀ c ∈ padded.takeWhile (fun c => !isExponentMark c), isExponentMark c = false :=
    fun c hc => by simpa using List.mem_takeWhile_imp hc
  have hlower : ((padded.dropWhile fun c => !isExponentMark c).map Char.toLower).map Char.toLower =
      (padded.dropWhile fun c => !isExponentMark c).map Char.toLower := by
    rw [List.map_map]
    exact List.map_congr_left fun c _ => toLower_toLower c
  have hsplit := dropWhile_isExponentMark padded
  unfold formatFloat
  revert hmantissa hlower hsplit
  generalize padded.takeWhile (fun c => !isExponentMark c) = mantissa
  generalize padded.dropWhile (fun c => !isExponentMark c) = exponent
  intro hmantissa hlower hsplit
  -- The written mantissa has no exponent mark and the written exponent begins with one.
  have hwritten : ∀ c ∈ completeMantissa mantissa (!exponent.isEmpty),
      (!isExponentMark c) = true := by
    intro c hc
    rcases mem_completeMantissa hc with hc | rfl | rfl
    · simp [hmantissa c hc]
    · decide
    · decide
  have htake : (exponent.map Char.toLower).takeWhile (fun c => !isExponentMark c) = [] := by
    rcases hsplit with rfl | ⟨rest, hrest⟩
    · rfl
    · rw [hrest]
      rfl
  have hdrop : (exponent.map Char.toLower).dropWhile (fun c => !isExponentMark c) =
      exponent.map Char.toLower := by
    rcases hsplit with rfl | ⟨rest, hrest⟩
    · rfl
    · rw [hrest]
      rfl
  have hempty : (exponent.map Char.toLower).isEmpty = exponent.isEmpty := by
    cases exponent <;> rfl
  simp only [List.takeWhile_append_of_pos hwritten, List.dropWhile_append_of_pos hwritten, htake,
    hdrop, List.append_nil, hempty, completeMantissa_completeMantissa, hlower]

theorem head?_formatFloat {padded : List Char} (hne : padded ≠ [])
    (hhead : padded.head? ≠ some '.') : (formatFloat padded).head? ≠ some '.' := by
  have hpadded := List.takeWhile_append_dropWhile (p := fun c => !isExponentMark c) (l := padded)
  have hsplit := dropWhile_isExponentMark padded
  unfold formatFloat
  revert hpadded hsplit
  generalize padded.takeWhile (fun c => !isExponentMark c) = mantissa
  generalize padded.dropWhile (fun c => !isExponentMark c) = exponent
  rintro rfl hsplit
  cases mantissa with
  | nil =>
    rcases hsplit with rfl | ⟨rest, hrest⟩
    · exact absurd rfl hne
    · have hexponent : exponent ≠ [] := by
        rintro rfl
        cases hrest
      simp [completeMantissa, hexponent, hrest]
  | cons c rest =>
    have hc : c ≠ '.' := by simpa using hhead
    unfold completeMantissa
    split_ifs <;> simpa using hc

theorem getLast?_formatFloat {padded : List Char}
    (hlast : ∀ c ∈ padded.getLast?, isFloatSuffix c = false) :
    ∀ c ∈ (formatFloat padded).getLast?, isFloatSuffix c = false := by
  have hpadded := List.takeWhile_append_dropWhile (p := fun c => !isExponentMark c) (l := padded)
  unfold formatFloat
  revert hpadded
  generalize padded.takeWhile (fun c => !isExponentMark c) = mantissa
  generalize padded.dropWhile (fun c => !isExponentMark c) = exponent
  rintro rfl c hc
  -- The last character is that of the completed mantissa, or one of the exponent in lower case.
  by_cases hexponent : exponent = []
  · subst hexponent
    rw [List.map_nil, List.append_nil] at hc
    rw [List.append_nil] at hlast
    unfold completeMantissa at hc
    split_ifs at hc
    · simp only [List.getLast?_append, List.getLast?_singleton, Option.mem_def, Option.some_or,
        Option.some.injEq] at hc
      subst hc
      rfl
    · exact hlast c hc
    · simp only [List.getLast?_append, List.getLast?_cons_cons, List.getLast?_singleton,
        Option.mem_def, Option.some_or, Option.some.injEq] at hc
      subst hc
      rfl
  · rw [List.getLast?_append_of_ne_nil _ (by simpa using hexponent), List.getLast?_map] at hc
    obtain ⟨d, hd, rfl⟩ := Option.map_eq_some_iff.1 hc
    have hd' := hlast d (by rw [List.getLast?_append_of_ne_nil _ hexponent]; exact hd)
    by_contra hsuffix
    rw [isFloatSuffix_of_toLower (by simpa using hsuffix)] at hd'
    cases hd'

/-- The canonical text of a floating literal has no other canonical text. -/
theorem canonicalFloat?_canonicalFloat? {text t t' : List Char} (h : canonicalFloat? text = some t)
    (h' : canonicalFloat? t = some t') : t' = t := by
  rw [canonicalFloat?_eq] at h h'
  obtain ⟨x, hx, rfl⟩ := Option.map_eq_some_iff.1 h
  obtain ⟨y, -, rfl⟩ := Option.map_eq_some_iff.1 h'
  have hnonempty : dropFloatSuffix text ≠ [] := by
    intro hnil
    rw [readFloat?, hnil] at hx
    cases hx
  have hlast : ∀ c ∈ (dropFloatSuffix text).getLast?, isFloatSuffix c = false :=
    fun c hc => getLast?_dropTrailing hc
  revert hnonempty hlast
  dsimp only
  generalize dropFloatSuffix text = trimmed
  intro hnonempty hlast
  generalize hpadded : (if trimmed.head? = some '.' then '0' :: trimmed else trimmed) = padded
  have hne : padded ≠ [] := by
    rw [← hpadded]
    split_ifs
    · simp
    · exact hnonempty
  have hhead : padded.head? ≠ some '.' := by
    rw [← hpadded]
    split_ifs with hpoint
    · simp
    · exact hpoint
  have hlast : ∀ c ∈ padded.getLast?, isFloatSuffix c = false := by
    rw [← hpadded]
    split_ifs
    · rw [List.getLast?_cons_of_ne_nil hnonempty]
      exact hlast
    · exact hlast
  have hkept : dropFloatSuffix (formatFloat padded) = formatFloat padded :=
    dropTrailing_eq_self (getLast?_formatFloat hlast)
  rw [hkept, if_neg (head?_formatFloat hne hhead), formatFloat_formatFloat]

/-! ### Canonical literals -/

/-- The literal is its own canonical form, or has none. -/
def IsCanonical (l : Literal) : Prop :=
  ∀ normal, l.canonical? = some normal → normal = l

theorem isCanonical_int (n : Int) : IsCanonical ⟨.int, toString n⟩ := by
  intro normal h
  obtain ⟨m, hm, rfl⟩ := Option.map_eq_some_iff.1 h
  rw [readInt?_toString hm]

/-- A point and a zero after digits are all that a text needs. -/
theorem formatFloat_point {digits : List Char} (h : ∀ c ∈ digits, isExponentMark c = false) :
    formatFloat (digits ++ ['.', '0']) = digits ++ ['.', '0'] := by
  have hplain : ∀ c ∈ digits ++ ['.', '0'], (!isExponentMark c) = true := by
    refine List.forall_mem_append.2 ⟨fun c hc => by simp [h c hc], ?_⟩
    exact List.forall_mem_cons.2 ⟨rfl, List.forall_mem_singleton.2 rfl⟩
  have htake : (digits ++ ['.', '0']).takeWhile (fun c => !isExponentMark c) =
      digits ++ ['.', '0'] := List.takeWhile_eq_self_iff.2 hplain
  have hdrop : (digits ++ ['.', '0']).dropWhile (fun c => !isExponentMark c) = [] :=
    List.dropWhile_eq_nil_iff.2 hplain
  rw [formatFloat, htake, hdrop]
  simp [completeMantissa]

theorem isCanonical_float (n : Int) : IsCanonical ⟨.float, toString n ++ ".0"⟩ := by
  intro normal h
  obtain ⟨t, ht, rfl⟩ := Option.map_eq_some_iff.1 h
  have htext : (toString n ++ ".0").toList = (toString n).toList ++ ['.', '0'] := by
    rw [String.toList_append]
    rfl
  have hmark : ∀ c ∈ (toString n).toList, isExponentMark c = false := by
    intro c hc
    by_contra hmark
    simp only [isExponentMark, Bool.not_eq_false, Bool.or_eq_true, beq_iff_eq] at hmark
    rcases hmark with rfl | rfl <;> exact absurd (mem_toString hc) (by decide)
  have hhead : ((toString n).toList ++ ['.', '0']).head? ≠ some '.' := by
    cases htoList : (toString n).toList with
    | nil => exact absurd htoList (toList_toString_ne_nil n)
    | cons c rest =>
      rintro ⟨⟩
      exact absurd (mem_toString (n := n) (htoList ▸ List.mem_cons_self)) (by decide)
  rw [canonicalFloat?_eq, htext] at ht
  obtain ⟨x, -, rfl⟩ := Option.map_eq_some_iff.1 ht
  simp only [dropFloatSuffix_point, if_neg hhead, formatFloat_point hmark]
  rw [← htext, String.ofList_toList]

theorem isCanonical_canonical? {l normal : Literal} (h : l.canonical? = some normal) :
    normal.IsCanonical := by
  obtain ⟨kind, text⟩ := l
  cases kind with
  | int | char =>
    obtain ⟨n, -, rfl⟩ := Option.map_eq_some_iff.1 h
    exact isCanonical_int n
  | float =>
    obtain ⟨t, ht, rfl⟩ := Option.map_eq_some_iff.1 h
    intro normal h
    obtain ⟨t', ht', rfl⟩ := Option.map_eq_some_iff.1 h
    rw [String.toList_ofList] at ht'
    rw [canonicalFloat?_canonicalFloat? ht ht']
  | string => cases h

end Literal

end MathKernel
