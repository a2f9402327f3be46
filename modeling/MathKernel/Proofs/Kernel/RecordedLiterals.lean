import MathKernel.Normalize.Pipeline
import MathKernel.Proofs.Kernel.Extraction
import MathKernel.Proofs.Number.IntegerParts
import MathKernel.Proofs.Number.Rendering
import MathKernel.Proofs.Syntax.Walks

/-!
# Literals of recorded values

A kernel of a constant or variable holds its numbers and, beside them, their texts. Each text
denotes its number: decimals are read as the number and are nearest to it, and integers are
written in full as long as they fit 64 bits. There are two exceptions. An integer that does not
fit is written as the bound that it exceeds, and a minus sign may be written before a text that
has one.

## Main definitions

* `Decimal.ofText?` — the decimal number that a text spells
* `Denotes` — what the text of a number says

## Main results

* `Expr.denotes_of_foldNumber` — the text of a folded initializer
* `SourceUnit.extract_denotes` — the texts of all constants and variables of a unit
-/

namespace MathKernel

open Binary64 (IsNearest)

/-! ### Decimal texts -/

namespace Binary64

theorem pack_not (negative : Bool) (m : Nat) (e : Int) :
    pack (!negative) m e = (pack negative m e).neg := by
  unfold pack
  dsimp only
  split <;> split <;> rfl

theorem ofRatio_not (negative : Bool) (num den : Nat) :
    ofRatio (!negative) num den = (ofRatio negative num den).neg := by
  unfold ofRatio
  split
  · rfl
  · exact pack_not negative _ _

theorem isZero_iff {x : Binary64} : x.isZero = true ↔ x.toRat? = some 0 := by
  match x with
  | .nan | .infinity _ => simp [isZero, toRat?]
  | .finite s 0 e h => cases s <;> simp [isZero, toRat?, signed]
  | .finite s (m + 1) e h =>
    have hpos : ((m + 1 : Nat) : ℚ) * 2 ^ e ≠ 0 :=
      mul_ne_zero (Nat.cast_ne_zero.2 (Nat.succ_ne_zero m)) (two_zpow_pos e).ne'
    cases s <;> simpa [isZero, toRat?, signed] using hpos

end Binary64

namespace Decimal

/-- The decimal number that a text spells, with a sign or without. -/
def ofText? (text : List Char) : Option Decimal :=
  let (negative, rest) := splitSign text
  readUnsigned? negative rest

theorem splitSign_eq {text : List Char} (hminus : text.head? ≠ some '-')
    (hplus : text.head? ≠ some '+') : splitSign text = (false, text) := by
  unfold splitSign
  split
  · exact absurd rfl hminus
  · exact absurd rfl hplus
  · rfl

/-- A text with a finite value is a decimal. -/
theorem exists_ofText? {text : List Char} {x : Binary64} (h : Binary64.ofText? text = some x)
    (hfinite : x.toRat? ≠ none) : ∃ d, ofText? text = some d ∧ d.toBinary64 = x := by
  unfold Binary64.ofText? at h
  unfold ofText?
  dsimp only at h ⊢
  split at h
  · cases h
    exact absurd rfl hfinite
  · split at h
    · cases h
      exact absurd rfl hfinite
    · exact Option.map_eq_some_iff.1 h

/-- A decimal with the other sign is read as the opposite number. -/
theorem toBinary64_not (negative : Bool) (c : Nat) (g : Int) :
    toBinary64 ⟨!negative, c, g⟩ = (toBinary64 ⟨negative, c, g⟩).neg := by
  unfold toBinary64
  dsimp only
  split_ifs
  · rfl
  · rfl
  · rfl
  · cases g with
    | ofNat k => exact Binary64.ofRatio_not negative _ _
    | negSucc k => exact Binary64.ofRatio_not negative _ _

/-- Where a number has no sign of its own, a minus sign gives the opposite number. -/
theorem readUnsigned?_true {text : List Char} {d : Decimal}
    (h : readUnsigned? false text = some d) :
    ∃ d', readUnsigned? true text = some d' ∧ d'.toBinary64 = d.toBinary64.neg := by
  unfold readUnsigned? at h ⊢
  dsimp only at h ⊢
  split at h
  · cases h
  · next hdigits =>
    rw [if_neg hdigits]
    obtain ⟨exponent, hexponent, heq⟩ := Option.bind_eq_some_iff.1 h
    cases heq
    exact ⟨_, by rw [hexponent]; rfl, toBinary64_not false _ _⟩

end Decimal

/-! ### What a text denotes -/

/-- The text begins with a minus sign before another sign. -/
def hasTwoSigns : List Char → Bool
  | '-' :: '-' :: _ | '-' :: '+' :: _ => true
  | _ => false

/-- What the text of a number of a type says. -/
structure Denotes (type : ScalarType) (literal : String) (x : Binary64) : Prop where
  notANumber_iff : literal = notANumber ↔ x = .nan
  /-- An integer is written in decimal, or as the bound of 64 bits that it exceeds. -/
  int : type = .int → x ≠ .nan → ∃ n : Int, x.toRat? = some (n : ℚ) ∧
    literal = toString (clampInt64 n)
  bool : type = .bool → x ≠ .nan → (literal = "true" ↔ x.toRat? ≠ some 0) ∧
    (literal = "false" ↔ x.toRat? = some 0)
  /-- A floating text is a decimal that is read as the number and nearest to it. -/
  float : type = .float → x ≠ .nan → hasTwoSigns literal.toList = true ∨
    ∃ d, Decimal.ofText? literal.toList = some d ∧ d.toBinary64 = x ∧ IsNearest d.toRat x

namespace Denotes

theorem nan (type : ScalarType) : Denotes type notANumber .nan where
  notANumber_iff := ⟨fun _ => rfl, fun _ => rfl⟩
  int _ h := absurd rfl h
  bool _ h := absurd rfl h
  float _ h := absurd rfl h

theorem toString_ne_notANumber (n : Int) : toString n ≠ notANumber := by
  intro h
  have hmem : 'N' ∈ (toString n).toList := by
    rw [h]
    decide
  exact absurd (mem_toString hmem) (by decide)

/-- The text of an integer. -/
theorem of_int {x : Binary64} {n : Int} (h : x.toRat? = some (n : ℚ)) :
    Denotes .int (toString x.toInt64) x where
  notANumber_iff := by
    refine ⟨fun hname => absurd hname (toString_ne_notANumber _), ?_⟩
    rintro rfl
    cases h
  int _ _ := ⟨n, h, by rw [Binary64.toInt64_of_toRat? h]⟩
  bool := nofun
  float := nofun

/-- A text without a type that it has to denote a value of. -/
theorem of_void {x : Binary64} (h : x.toRat? ≠ none) : Denotes .void (toString x.toInt64) x where
  notANumber_iff := by
    refine ⟨fun hname => absurd hname (toString_ne_notANumber _), ?_⟩
    rintro rfl
    exact absurd rfl h
  int := nofun
  bool := nofun
  float := nofun

theorem of_bool {x : Binary64} (h : x.toRat? ≠ none) :
    Denotes .bool (if x.isZero then "false" else "true") x where
  notANumber_iff := by
    refine ⟨fun hname => ?_, ?_⟩
    · split at hname <;> exact absurd hname (by decide)
    · rintro rfl
      exact absurd rfl h
  int := nofun
  bool _ _ := by
    rw [Ne, ← Binary64.isZero_iff]
    split <;> simp [*]
  float := nofun

/-- The text of a decimal that is read as the number. -/
theorem of_float {literal : String} {x : Binary64} (hfinite : x.toRat? ≠ none)
    (h : hasTwoSigns literal.toList = true ∨
      ∃ d, Decimal.ofText? literal.toList = some d ∧ d.toBinary64 = x) :
    Denotes .float literal x where
  notANumber_iff := by
    refine ⟨?_, ?_⟩
    · rintro rfl
      rcases h with h | ⟨d, hd, -⟩
      · cases h
      · have hnone : Decimal.ofText? notANumber.toList = none := by decide
        rw [hnone] at hd
        cases hd
    · rintro rfl
      exact absurd rfl hfinite
  int := nofun
  bool := nofun
  float _ _ := h.imp_right fun ⟨d, hd, hvalue⟩ =>
    ⟨d, hd, hvalue, hvalue ▸ Decimal.isNearest_toBinary64 (hvalue ▸ hfinite)⟩

/-- The zeros that fill up an initializer. -/
theorem zero (type : ScalarType) : Denotes type (zeroLiteral type) (.zero false) := by
  have hvalue : (Binary64.zero false).toRat? = some ((0 : Int) : ℚ) := by
    rw [Int.cast_zero, ← Binary64.isZero_iff]
    rfl
  have hfinite : (Binary64.zero false).toRat? ≠ none := by
    rw [hvalue]
    exact nofun
  have htext : toString (Binary64.zero false).toInt64 = "0" := by
    rw [Binary64.toInt64_of_toRat? hvalue]
    decide
  cases type with
  | int =>
    change Denotes .int "0" _
    rw [← htext]
    exact of_int hvalue
  | float => exact of_float hfinite (.inr ⟨⟨false, 0, -1⟩, by decide, by decide⟩)
  | bool => exact of_bool hfinite
  | void =>
    change Denotes .void "0" _
    rw [← htext]
    exact of_void hfinite

end Denotes

/-! ### Folded initializers -/

namespace Expr

variable {known : KnownConstants Binary64} {type : ScalarType} {e : Expr} {x : Binary64}

/-- The text of a floating literal is read as its value. -/
theorem exists_ofText?_of_readFloat? {text : List Char}
    (h : Literal.readFloat? text = some x) (hfinite : x.toRat? ≠ none) :
    ∃ d, Decimal.ofText? (Literal.dropFloatSuffix text) = some d ∧ d.toBinary64 = x := by
  unfold Literal.readFloat? at h
  dsimp only at h
  split at h
  · cases h
  · exact Decimal.exists_ofText? h hfinite

theorem toRat?_neg_ne_none {y : Binary64} (h : y.neg.toRat? ≠ none) : y.toRat? ≠ none := by
  cases y with
  | nan | infinity => exact h
  | finite => exact nofun

/-- A minus sign before the text of a number gives the text of the opposite number, if that text
has no sign. -/
theorem exists_ofText?_minus {text : List Char} {d : Decimal}
    (h : Decimal.ofText? text = some d) :
    hasTwoSigns ('-' :: text) = true ∨
      ∃ d', Decimal.ofText? ('-' :: text) = some d' ∧ d'.toBinary64 = d.toBinary64.neg := by
  by_cases hminus : text.head? = some '-'
  · obtain ⟨rest, rfl⟩ := List.head?_eq_some_iff.1 hminus
    exact .inl rfl
  · by_cases hplus : text.head? = some '+'
    · obtain ⟨rest, rfl⟩ := List.head?_eq_some_iff.1 hplus
      exact .inl rfl
    · right
      unfold Decimal.ofText? at h
      rw [Decimal.splitSign_eq hminus hplus] at h
      exact Decimal.readUnsigned?_true h

/-- A floating literal that keeps its spelling is read as its value. -/
theorem ofText?_floatSpelling {text : String}
    (hfold : e.fold? Binary64.arithmetic known = some x) (hfinite : x.toRat? ≠ none)
    (htext : e.floatSpelling? = some text) :
    hasTwoSigns text.toList = true ∨
      ∃ d, Decimal.ofText? text.toList = some d ∧ d.toBinary64 = x := by
  unfold floatSpelling? at htext
  split at htext
  · next spelling c =>
    cases htext
    rw [String.toList_ofList]
    exact .inr (exists_ofText?_of_readFloat? hfold hfinite)
  · next spelling c c' =>
    cases htext
    obtain ⟨y, hy, hneg⟩ := Option.bind_eq_some_iff.1 hfold
    have hx : y.neg = x := Option.some.inj hneg
    subst hx
    obtain ⟨d, hd, hvalue⟩ := exists_ofText?_of_readFloat? hy (toRat?_neg_ne_none hfinite)
    have hminus : ("-" ++ String.ofList (Literal.dropFloatSuffix spelling.toList)).toList =
        '-' :: Literal.dropFloatSuffix spelling.toList := by simp
    rw [hminus, ← hvalue]
    exact exists_ofText?_minus hd
  · cases htext

/-- The text that is written for a finite number is a decimal that is read as the number. -/
theorem ofText?_foldedLayout (hfinite : x.toRat? ≠ none) :
    ∃ d, Decimal.ofText? (foldedLayout.render x).toList = some d ∧ d.toBinary64 = x := by
  cases x with
  | nan | infinity => exact absurd rfl hfinite
  | finite negative m f h =>
    obtain ⟨n, htext, hvalue⟩ := foldedLayout.render_finite negative h
    refine ⟨n.decimal negative, ?_, hvalue⟩
    rw [htext]
    cases negative with
    | true => exact n.readUnsigned?_text true
    | false =>
      obtain ⟨c, more, hcons, hc⟩ := n.exists_text_eq_cons
      have hsign : Decimal.splitSign n.text = (false, n.text) := by
        rw [hcons]
        apply Decimal.splitSign_eq <;> rintro ⟨⟩ <;> cases hc
      rw [if_neg Bool.false_ne_true, List.nil_append, Decimal.ofText?, hsign]
      exact n.readUnsigned?_text false

theorem isNaN_of_finite (hfinite : x.toRat? ≠ none) : x.isNaN = false := by
  cases x with
  | nan => exact absurd rfl hfinite
  | infinity | finite => rfl

/-- The text of a finite number that is an integer where one is asked for. -/
theorem denotes_foldedLiteral (hfinite : x.toRat? ≠ none)
    (hint : type = .int → ∃ n : Int, x.toRat? = some (n : ℚ))
    (hspelling : type = .float → ∀ text, e.floatSpelling? = some text →
      hasTwoSigns text.toList = true ∨
        ∃ d, Decimal.ofText? text.toList = some d ∧ d.toBinary64 = x) :
    Denotes type (foldedLiteral type e x) x := by
  unfold foldedLiteral
  rw [isNaN_of_finite hfinite, if_neg Bool.false_ne_true]
  cases type with
  | int =>
    obtain ⟨n, hn⟩ := hint rfl
    exact .of_int hn
  | float =>
    refine .of_float hfinite ?_
    cases htext : e.floatSpelling? with
    | none => exact .inr (ofText?_foldedLayout hfinite)
    | some text => exact hspelling rfl text htext
  | bool => exact .of_bool hfinite
  | void => exact .of_void hfinite

/-- The text of a folded initializer denotes its number. -/
theorem denotes_of_foldNumber {literal : String}
    (h : e.foldNumber known type = .ok (x, literal)) : Denotes type literal x := by
  unfold foldNumber at h
  split at h
  · cases h
  · next y hfold =>
    split at h
    · cases h
    · next hinfinite =>
      rw [Except.ok.injEq, Prod.mk.injEq] at h
      obtain ⟨rfl, rfl⟩ := h
      -- Only an integer is truncated, which leaves it without a fraction.
      by_cases htype : type = .int
      · subst htype
        rw [if_pos rfl]
        cases y with
        | nan => exact .nan .int
        | infinity => exact absurd rfl hinfinite
        | finite s m f hcanonical =>
          have hvalue := Binary64.toRat?_trunc (s := s) hcanonical
          refine denotes_foldedLiteral (by rw [hvalue]; exact nofun) (fun _ => ?_) nofun
          cases s with
          | false => exact ⟨Binary64.integerPart m f, by rw [hvalue]; rfl⟩
          | true =>
            refine ⟨-(Binary64.integerPart m f : Int), ?_⟩
            rw [hvalue, Int.cast_neg, Int.cast_natCast]
            rfl
      · rw [if_neg htype]
        cases y with
        | nan => exact .nan type
        | infinity => exact absurd rfl hinfinite
        | finite s m f hcanonical =>
          have hfinite : (Binary64.finite s m f hcanonical).toRat? ≠ none := nofun
          exact denotes_foldedLiteral hfinite (absurd · htype) fun _ text htext =>
            ofText?_floatSpelling hfold hfinite htext

end Expr

/-! ### Recorded values -/

/-- There is a text for a single number, or for each item of an array, and it denotes the
number. -/
structure ValueKernel.IsDenoted (k : ValueKernel) : Prop where
  length : k.literals.length = k.value.arrayLen?.getD 1
  denotes : List.Forall₂ (Denotes k.type) k.literals k.value.numbers

namespace Decl

variable {known : KnownConstants Binary64} {d : Decl}

theorem denotes_of_foldNumbers {value : Value (Binary64 × String)}
    (h : d.foldNumbers known = .ok value) :
    ∀ entry ∈ value.numbers, Denotes d.scalar entry.2 entry.1 := by
  unfold foldNumbers at h
  dsimp only at h
  split at h
  · split at h
    · cases h
    · next len _ =>
      obtain ⟨items, -, h⟩ := Except.bind_eq_ok h
      obtain ⟨numbers, hnumbers, h⟩ := Except.bind_eq_ok h
      cases h
      refine List.forall_mem_append.2 ⟨fun entry hentry => ?_, fun entry hentry => ?_⟩
      · -- Each number is that of an item.
        have horigin : Ensures ((items.take len).mapM (Expr.foldNumber known d.scalar))
            (List.Forall₂ (fun e entry => e.foldNumber known d.scalar = .ok entry)
              (items.take len)) :=
          ensures_mapM _ fun e _ entry hentry => hentry
        exact forall_of_forall₂ (horigin numbers hnumbers)
          (fun e _ entry hentry => Expr.denotes_of_foldNumber hentry) entry hentry
      · rw [List.eq_of_mem_replicate hentry]
        exact .zero d.scalar
  · split at h
    · next e _ =>
      obtain ⟨entry, hentry, rfl⟩ := Except.map_eq_ok h
      exact List.forall_mem_singleton.2 (Expr.denotes_of_foldNumber hentry)
    · cases h
      exact List.forall_mem_singleton.2 (.zero d.scalar)

theorem isDenoted_of_foldValue {name : String} {k : ValueKernel}
    (h : d.foldValue known name = .ok k) : k.IsDenoted := by
  obtain ⟨value, hvalue, h⟩ := Except.bind_eq_ok h
  cases h
  have hnumbers : (value.map Prod.fst).numbers = value.numbers.map Prod.fst := by
    cases value <;> rfl
  refine ⟨?_, ?_⟩
  · cases value <;> simp [Value.numbers, Value.map, Value.arrayLen?]
  · rw [hnumbers, List.forall₂_map_left_iff, List.forall₂_map_right_iff, List.forall₂_same]
    exact denotes_of_foldNumbers hvalue

end Decl

/-- The record of each constant and variable comes from the initializer of a declaration. -/
theorem exists_foldValue_of_mem_extractItems {globals : GlobalNames}
    {known : KnownConstants Binary64} {items : List Item} {kernels : List Kernel}
    (h : extractItems globals known items = .ok kernels) {k : Kernel} (hk : k ∈ kernels)
    {v : ValueKernel} (hv : k.value? = some v) :
    ∃ (d : Decl) (known : KnownConstants Binary64), d.foldValue known v.name = .ok v := by
  induction items generalizing known kernels with
  | nil =>
    cases h
    cases hk
  | cons item rest ih =>
    obtain ⟨-, h⟩ | ⟨first, others, hgives, hothers, rfl⟩ := extractItems_cons_eq_ok h
    · exact ih h hk
    rcases List.mem_cons.1 hk with rfl | hk
    · obtain ⟨d, -, -, hfold⟩ := hgives.of_value? hv
      exact ⟨d, known, hfold⟩
    · exact ih hothers hk

/-- Every number of the constants and variables of a unit has a text that denotes it. -/
theorem SourceUnit.extract_denotes {u : SourceUnit} {config : ExtractConfig}
    {kernels : List Kernel} (h : u.extract config = .ok kernels) :
    ∀ k ∈ kernels, ∀ v, k.value? = some v → v.IsDenoted := by
  obtain ⟨all, hall, h⟩ := Except.bind_eq_ok h
  have hsub : ∀ k ∈ kernels, k ∈ all := by
    cases hexports : config.exports with
    | none =>
      rw [hexports] at h
      cases h
      exact fun k hk => hk
    | some exports =>
      rw [hexports] at h
      cases h
      exact fun k hk => (List.mem_filter.1 hk).1
  intro k hk v hv
  obtain ⟨d, known, hfold⟩ := exists_foldValue_of_mem_extractItems hall (hsub k hk) hv
  exact Decl.isDenoted_of_foldValue hfold

/-- An array of spelled, negated, folded and missing numbers, and a truncated quotient. -/
def weightsUnit : SourceUnit :=
  let items : List Expr :=
    [.float "1.50f" none, .unary .neg (.float "2." none) none,
      .binary .div (.int 1 none) (.float "3.0" none) none, .id notANumber none]
  ⟨[.decl (.ofArray "weights" .float (some 5) (some (.initList items none))),
    .decl (.ofScalar "half" .int (some (.binary .div (.int 7 none) (.int 2 none) none)))], none⟩

theorem extract_denotes_weightsUnit :
    ∃ v report kernels,
      normalize { baseName := "unit", capacity := 6 } weightsUnit = .ok (v, report) ∧
      v.extract {} = .ok kernels ∧
      kernels.map (fun k => (k.value?.map ValueKernel.literals).getD []) =
        [["1.50", "-2.0", "0.3333333333333333", "NAN", "0.0"], ["3"]] ∧
      ∀ k ∈ kernels, ∀ w, k.value? = some w → w.IsDenoted := by
  have hok : ((normalize { baseName := "unit", capacity := 6 } weightsUnit).toOption.bind fun run =>
      (run.1.extract {}).toOption.map fun kernels =>
        kernels.map (fun k => (k.value?.map ValueKernel.literals).getD [])) =
      some [["1.50", "-2.0", "0.3333333333333333", "NAN", "0.0"], ["3"]] := by
    decide +kernel
  obtain ⟨⟨v, report⟩, hrun, hextract⟩ := Option.bind_eq_some_iff.1 hok
  obtain ⟨kernels, hkernels, hliterals⟩ := Option.map_eq_some_iff.1 hextract
  have hkernels := Except.eq_ok_of_toOption hkernels
  exact ⟨v, report, kernels, Except.eq_ok_of_toOption hrun, hkernels, hliterals,
    SourceUnit.extract_denotes hkernels⟩

/-- The greatest integer of 64 bits, which is rounded up to the next power of two. -/
def greatestUnit : SourceUnit :=
  ⟨[.decl (.ofScalar "greatest" .int (some (.int 9223372036854775807 none)))], none⟩

/-- An integer beyond 64 bits is not written with its own digits. -/
theorem extract_greatestUnit :
    ∃ v report w x, normalize { baseName := "unit", capacity := 6 } greatestUnit = .ok (v, report) ∧
      v.extract {} = .ok [.constant w] ∧ w.type = .int ∧ w.value = .scalar x ∧
      x.toRat? = some ((9223372036854775808 : Int) : ℚ) ∧
      w.literals ≠ [toString (9223372036854775808 : Int)] := by
  have hok : ((normalize { baseName := "unit", capacity := 6 } greatestUnit).toOption.bind
      fun run => (run.1.extract {}).toOption) =
      some [.constant ⟨"greatest", .int, .scalar (.finite false 4503599627370496 11 (by decide)),
        ["9223372036854775807"]⟩] := by
    decide +kernel
  obtain ⟨⟨v, report⟩, hrun, hextract⟩ := Option.bind_eq_some_iff.1 hok
  refine ⟨v, report, _, _, Except.eq_ok_of_toOption hrun, Except.eq_ok_of_toOption hextract, rfl,
    rfl, ?_, by decide⟩
  norm_num [Binary64.toRat?, Binary64.signed]

end MathKernel
