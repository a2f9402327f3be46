import Mathlib.Tactic.FinCases
import MathKernel.Data.Json.Reader
import MathKernel.Data.Json.Writer
import MathKernel.Proofs.Number.Rendering

/-!
# The tokens of a written value

A text that is written for a value is split into the tokens of this value. Strings are read with
their escapes undone and numbers with their value; a number ends before the comma, bracket or line
break that follows it.

## Main definitions

* `Json.ReadsBack` — a number that is read back from its text
* `Json.Printable` — a value whose numbers are read back
* `Json.tokensOf` — the tokens of a value
* `Json.Scans` — a text that is split into given tokens, whatever follows

## Main results

* `Json.readString_escaped` — a string with its escapes undone
* `Json.scans_indented` — an indented text is split into the tokens of its value
* `Json.tokens_pretty` — the tokens of a whole text
-/

namespace MathKernel

namespace Json

/-! ### Strings -/

/-- The code of a control character is read from its four digits. -/
theorem hexValue?_hexFour {n : Nat} (h : n < 32) :
    ∃ a b c d, hexFour n = [a, b, c, d] ∧ hexValue? a b c d = some n := by
  have hall : ∀ n < 32, (hexFour n).length = 4 ∧ readDigits? 16 (hexFour n) = some n := by decide
  obtain ⟨hlength, hvalue⟩ := hall n h
  obtain ⟨a, b, c, d, heq⟩ := List.length_eq_four.1 hlength
  rw [heq] at hvalue
  exact ⟨a, b, c, d, heq, hvalue⟩

theorem readString_simpleEscape {e c : Char} (h : simpleEscape? e = some c) (paired : Bool)
    (reversed rest : List Char) :
    readString paired reversed ('\\' :: e :: rest) = readString paired (c :: reversed) rest := by
  have hu : e ≠ 'u' := by
    rintro rfl
    cases h
  rw [readString.eq_def]
  split
  · next heq => cases heq
  · next heq => cases heq
  · next heq => exact absurd (List.cons.inj (List.cons.inj heq).2).1 hu
  · next heq =>
    cases heq
    rw [h]
  · next hnot heq =>
    cases heq
    exact (hnot e rest rfl rfl).elim

/-- An escaped character is read as this character. -/
theorem readString_escapeChar (paired : Bool) (reversed : List Char) (c : Char)
    (rest : List Char) :
    readString paired reversed (escapeChar c ++ rest) = readString paired (c :: reversed) rest := by
  unfold escapeChar
  split_ifs with hquote hslash hnewline hreturn htab hback hfeed hcontrol
  · subst hquote
    exact readString_simpleEscape rfl _ _ _
  · subst hslash
    exact readString_simpleEscape rfl _ _ _
  · subst hnewline
    exact readString_simpleEscape rfl _ _ _
  · subst hreturn
    exact readString_simpleEscape rfl _ _ _
  · subst htab
    exact readString_simpleEscape rfl _ _ _
  · obtain rfl : c = '\x08' := by rw [← Char.ofNat_toNat c, hback]
    exact readString_simpleEscape rfl _ _ _
  · obtain rfl : c = '\x0c' := by rw [← Char.ofNat_toNat c, hfeed]
    exact readString_simpleEscape rfl _ _ _
  · -- A control character is written by its code, which is no half of a surrogate pair.
    obtain ⟨x, y, z, w, heq, hvalue⟩ := hexValue?_hexFour hcontrol
    have hhigh : isHighSurrogate c.toNat = false := by
      simp only [isHighSurrogate, Bool.and_eq_false_iff, decide_eq_false_iff_not]
      omega
    have hlow : isLowSurrogate c.toNat = false := by
      simp only [isLowSurrogate, Bool.and_eq_false_iff, decide_eq_false_iff_not]
      omega
    rw [heq]
    simp [readString, hvalue, hhigh, hlow]
  · rw [List.cons_append, List.nil_append, readString.eq_def]
    split <;> simp_all

/-- A string is read with its escapes undone. -/
theorem readString_escaped (paired : Bool) (reversed text rest : List Char) :
    readString paired reversed (text.flatMap escapeChar ++ '"' :: rest) =
      readString paired (text.reverse ++ reversed) ('"' :: rest) := by
  induction text generalizing reversed with
  | nil => rfl
  | cons c text ih =>
    rw [List.flatMap_cons, List.append_assoc, readString_escapeChar, ih, List.reverse_cons,
      List.append_assoc]
    rfl

theorem nextToken_quote (s : String) (rest : List Char) :
    nextToken ((quote s).toList ++ rest) = .ok (.string (some s), rest) := by
  have htext : (quote s).toList ++ rest =
      '"' :: (s.toList.flatMap escapeChar ++ '"' :: rest) := by
    simp [quote]
  rw [htext]
  simp [nextToken, readString_escaped, readString, Except.map]

/-! ### Numbers -/

/-- The number is read back from its text. -/
def ReadsBack (n : JsonNumber) : Prop :=
  readNumber (numberText n).toList = .ok (some n)

instance (n : JsonNumber) : Decidable (ReadsBack n) :=
  inferInstanceAs (Decidable (_ = _))

theorem le_foldl_digits (digits : List Char) (n : Nat) :
    n ≤ digits.foldl (fun n c => 10 * n + (c.toNat - '0'.toNat)) n := by
  induction digits generalizing n with
  | nil => exact le_rfl
  | cons c rest ih =>
    rw [List.foldl_cons]
    exact le_trans (by omega) (ih (10 * n + (c.toNat - '0'.toNat)))

/-- Digits of a number that has 64 bits are collected without rest. -/
theorem collectDigits_eq {digits : List Char} {n : Nat}
    (h : digits.foldl (fun n c => 10 * n + (c.toNat - '0'.toNat)) n < pow2 64) :
    collectDigits n digits =
      (digits.foldl (fun n c => 10 * n + (c.toNat - '0'.toNat)) n, []) := by
  induction digits generalizing n with
  | nil => rfl
  | cons c rest ih =>
    rw [List.foldl_cons] at h ⊢
    rw [collectDigits, if_pos (lt_of_le_of_lt (le_foldl_digits rest _) h), ih h]

theorem collectDigits_toDigits {k : Nat} (h : k < pow2 64) :
    collectDigits 0 (Nat.toDigits 10 k) = (k, []) := by
  have heq := digitsToNat_toDigits k
  rw [digitsToNat] at heq
  rw [collectDigits_eq (by rwa [heq]), heq]

theorem wellFormedWhole_of_head {whole : List Char} (hne : whole ≠ [])
    (hdigits : ∀ c ∈ whole, c.isDigit = true) (hhead : whole = ['0'] ∨ whole.head? ≠ some '0') :
    wellFormedWhole whole = true := by
  unfold wellFormedWhole
  split
  · exact absurd rfl hne
  · rfl
  · next c rest hzero =>
    have hc : c ≠ '0' := by
      rintro rfl
      rcases hhead with heq | hhead
      · cases heq
        exact hzero rfl rfl
      · exact hhead rfl
    simpa [hc] using hdigits

theorem wellFormedWhole_toDigits (n : Nat) : wellFormedWhole (Nat.toDigits 10 n) = true := by
  apply wellFormedWhole_of_head Nat.toDigits_ne_nil fun c => isDigit_of_mem_toDigits
  rcases Nat.eq_zero_or_pos n with rfl | hpos
  · exact .inl (Nat.toDigits_zero 10)
  · exact .inr (toDigits_ne_zero_head hpos)

/-- An integer of 64 bits is read back. -/
theorem readsBack_int {n : Int} (hlower : -(pow2 63 : Int) ≤ n) (hupper : n < pow2 64) :
    ReadsBack (.int n) := by
  change readNumber (toString n).toList = _
  have hall (k : Nat) : ∀ c ∈ Nat.toDigits 10 k, c.isDigit = true := fun c =>
    isDigit_of_mem_toDigits
  have htake (k : Nat) : (Nat.toDigits 10 k).takeWhile Char.isDigit = Nat.toDigits 10 k :=
    List.takeWhile_eq_self_iff.2 (hall k)
  have hdrop (k : Nat) : (Nat.toDigits 10 k).dropWhile Char.isDigit = [] :=
    List.dropWhile_eq_nil_iff.2 (hall k)
  cases n with
  | ofNat k =>
    rw [Int.ofNat_eq_natCast] at hupper ⊢
    rw [toList_toString_ofNat]
    have hbound : k < pow2 64 := by exact_mod_cast hupper
    -- A digit is no sign, so the whole text is digits.
    unfold readNumber
    split
    next negative body heq =>
    split at heq
    · next hminus => exact absurd (hall k '-' (hminus ▸ List.mem_cons_self)) (by decide)
    · cases heq
      simp [htake, hdrop, wellFormedWhole_toDigits, Decimal.splitFraction, Decimal.readExponent?,
        collectDigits_toDigits hbound, integerNumber]
  | negSucc k =>
    rw [toList_toString_negSucc]
    have hbound : k + 1 ≤ pow2 63 := by omega
    have hword : k + 1 < pow2 64 := lt_of_le_of_lt hbound (by decide)
    simp [readNumber, htake, hdrop, wellFormedWhole_toDigits, Decimal.splitFraction,
      Decimal.readExponent?, collectDigits_toDigits hword, integerNumber, hbound, Int.negSucc_eq]

/-- The text after a value starts with nothing that belongs to a number. -/
def Delimited (rest : List Char) : Prop :=
  ∀ c ∈ rest.head?, isNumberChar c = false

theorem ne_of_isNumberStart {c d : Char} (hc : c.isDigit = true ∨ c = '-')
    (hd : (d.isDigit || d == '-') = false) : c ≠ d := by
  rintro rfl
  simp_all

/-- A number ends before what follows. -/
theorem nextToken_number {text rest : List Char} {n : Option JsonNumber}
    (hstart : ∃ c more, text = c :: more ∧ (c.isDigit = true ∨ c = '-'))
    (hall : ∀ c ∈ text, isNumberChar c = true) (hrest : Delimited rest)
    (hread : readNumber text = .ok n) :
    nextToken (text ++ rest) = .ok (.number n, rest) := by
  obtain ⟨c, more, rfl, hc⟩ := hstart
  have hmore : ∀ x ∈ more, isNumberChar x = true := fun x hx => hall x (List.mem_cons_of_mem c hx)
  have hpunctuation : punctuation? c = none := by
    unfold punctuation?
    rw [if_neg, if_neg, if_neg, if_neg, if_neg, if_neg] <;>
      exact ne_of_isNumberStart hc rfl
  rw [List.cons_append, nextToken.eq_def]
  -- Neither a quote nor a word starts like a number.
  split
  · next heq => cases heq
  · next heq => exact absurd (List.cons.inj heq).1 (ne_of_isNumberStart hc rfl)
  · next heq => exact absurd (List.cons.inj heq).1 (ne_of_isNumberStart hc rfl)
  · next heq => exact absurd (List.cons.inj heq).1 (ne_of_isNumberStart hc rfl)
  · next heq => exact absurd (List.cons.inj heq).1 (ne_of_isNumberStart hc rfl)
  · next heq =>
    cases heq
    rw [hpunctuation]
    have hstart : (c.isDigit || c == '-') = true := by simpa using hc
    simp [hstart, takeWhile_append_eq hmore hrest, dropWhile_append_eq hmore hrest, hread,
      Except.map]

theorem isNumberChar_of_isDigit {c : Char} (h : c.isDigit = true) : isNumberChar c = true := by
  simp [isNumberChar, h]

theorem nextToken_numberText {n : JsonNumber} (h : ReadsBack n) {rest : List Char}
    (hrest : Delimited rest) :
    nextToken ((numberText n).toList ++ rest) = .ok (.number (some n), rest) := by
  cases n with
  | int n =>
    refine nextToken_number ?_ ?_ hrest h
    · obtain ⟨c, more, htext⟩ := List.exists_cons_of_ne_nil (toList_toString_ne_nil n)
      exact ⟨c, more, htext, mem_toString (htext ▸ List.mem_cons_self)⟩
    · intro c hc
      rcases mem_toString hc with hdigit | rfl
      · exact isNumberChar_of_isDigit hdigit
      · rfl
  | float x =>
    cases x with
    | nan => exact absurd h (by decide)
    | infinity negative => cases negative <;> exact absurd h (by decide)
    | finite negative m e hcanonical =>
      obtain ⟨n, htext, -⟩ := floatLayout.render_finite negative hcanonical
      change readNumber (floatLayout.render (.finite negative m e hcanonical)).toList = _ at h
      change nextToken ((floatLayout.render (.finite negative m e hcanonical)).toList ++ rest) = _
      rw [htext] at h ⊢
      refine nextToken_number ?_ ?_ hrest h
      · obtain ⟨c, more, hcons, hc⟩ := n.exists_text_eq_cons
        cases negative with
        | false => exact ⟨c, more, hcons, .inl hc⟩
        | true => exact ⟨'-', n.text, rfl, .inr rfl⟩
      · intro c hc
        rcases List.mem_append.1 hc with hsign | hmem
        · split at hsign
          · rw [List.mem_singleton.1 hsign]
            rfl
          · cases hsign
        · rcases Numeral.mem_text hmem with hdigit | hmark
          · exact isNumberChar_of_isDigit hdigit
          · fin_cases hmark <;> rfl

/-! ### Composing texts -/

/-- The text is split into the tokens, whatever follows, and has a character for each. -/
structure Scans (text : List Char) (found : List Token) : Prop where
  length_le : found.length ≤ text.length
  tokensFrom_eq : ∀ (fuel : Nat) (before : List Token) (rest : List Char), Delimited rest →
    tokensFrom (fuel + found.length) before (text ++ rest) =
      tokensFrom fuel (found.reverse ++ before) rest

theorem Delimited.append {left right : List Char} (hleft : Delimited left)
    (hright : Delimited right) : Delimited (left ++ right) := by
  cases left with
  | nil => exact hright
  | cons c left => exact hleft

theorem tokensFrom_blank {c : Char} (hc : isBlank c = true) (fuel : Nat) (before : List Token)
    (text : List Char) : tokensFrom fuel before (c :: text) = tokensFrom fuel before text := by
  cases fuel with
  | zero => rfl
  | succ fuel => simp only [tokensFrom, List.dropWhile_cons, hc, if_true]

theorem tokensFrom_succ {c : Char} {text rest : List Char} {token : Token}
    (hc : isBlank c = false) (h : nextToken (c :: text) = .ok (token, rest)) (fuel : Nat)
    (before : List Token) :
    tokensFrom (fuel + 1) before (c :: text) = tokensFrom fuel (token :: before) rest := by
  simp only [tokensFrom, List.dropWhile_cons, hc, Bool.false_eq_true, if_false, h]

/-- A token starts with no blank. -/
theorem isBlank_of_nextToken {c : Char} {text : List Char} {r : Token × List Char}
    (h : nextToken (c :: text) = .ok r) : isBlank c = false := by
  by_contra hblank
  simp only [isBlank, Bool.not_eq_false, Bool.or_eq_true, beq_iff_eq] at hblank
  rcases hblank with ((rfl | rfl) | rfl) | rfl <;> cases h

theorem nextToken_punctuation {c : Char} {token : Token} (h : punctuation? c = some token)
    (rest : List Char) : nextToken (c :: rest) = .ok (token, rest) := by
  unfold punctuation? at h
  split_ifs at h <;> cases h <;> subst c <;> rfl

namespace Scans

theorem nil : Scans [] [] :=
  ⟨le_rfl, fun _ _ _ _ => rfl⟩

/-- A single token. -/
theorem single {text : List Char} {token : Token}
    (h : ∀ rest, Delimited rest → nextToken (text ++ rest) = .ok (token, rest)) :
    Scans text [token] := by
  have hself := h [] (by simp [Delimited])
  cases text with
  | nil => cases hself
  | cons c text =>
    refine ⟨by simp, fun fuel before rest hrest => ?_⟩
    exact tokensFrom_succ (isBlank_of_nextToken hself) (h rest hrest) fuel before

theorem blank {c : Char} {text : List Char} {found : List Token} (hc : isBlank c = true)
    (h : Scans text found) : Scans (c :: text) found where
  length_le := h.length_le.trans (Nat.le_succ _)
  tokensFrom_eq fuel before rest hrest := by
    rw [List.cons_append, tokensFrom_blank hc, h.tokensFrom_eq fuel before rest hrest]

theorem blanks {space text : List Char} {found : List Token} (hspace : space.all isBlank = true)
    (h : Scans text found) : Scans (space ++ text) found := by
  induction space with
  | nil => exact h
  | cons c space ih =>
    rw [List.all_cons, Bool.and_eq_true] at hspace
    exact (ih hspace.2).blank hspace.1

theorem append {left right : List Char} {first second : List Token} (hleft : Scans left first)
    (hright : Scans right second) (hstart : Delimited right) :
    Scans (left ++ right) (first ++ second) where
  length_le := by
    rw [List.length_append, List.length_append]
    exact Nat.add_le_add hleft.length_le hright.length_le
  tokensFrom_eq fuel before rest hrest := by
    rw [List.length_append, Nat.add_comm first.length, ← Nat.add_assoc, List.append_assoc,
      hleft.tokensFrom_eq _ before _ (hstart.append hrest), hright.tokensFrom_eq _ _ _ hrest,
      List.reverse_append, List.append_assoc]

/-- After a punctuation character anything may follow. -/
theorem punctuation {c : Char} {token : Token} {text : List Char} {found : List Token}
    (h : Scans text found) (hc : punctuation? c = some token) :
    Scans (c :: text) (token :: found) where
  length_le := Nat.succ_le_succ h.length_le
  tokensFrom_eq fuel before rest hrest := by
    have htoken := nextToken_punctuation hc (text ++ rest)
    rw [List.length_cons, ← Nat.add_assoc, List.cons_append,
      tokensFrom_succ (isBlank_of_nextToken htoken) htoken, h.tokensFrom_eq fuel _ rest hrest,
      List.reverse_cons, List.append_assoc]
    rfl

end Scans

/-! ### Values -/

mutual

/-- Every number of the value is read back from its text. -/
def Printable : Json → Prop
  | null | bool _ | string _ => True
  | number n => ReadsBack n
  | array items => ItemsPrintable items
  | object members => MembersPrintable members

/-- Every number of an array's items is read back from its text. -/
def ItemsPrintable : List Json → Prop
  | [] => True
  | j :: rest => j.Printable ∧ ItemsPrintable rest

/-- Every number of an object's values is read back from its text. -/
def MembersPrintable : List (String × Json) → Prop
  | [] => True
  | (_, j) :: rest => j.Printable ∧ MembersPrintable rest

end

mutual

/-- The tokens of a value. -/
def tokensOf : Json → List Token
  | null => [.null]
  | bool b => [.bool b]
  | number n => [.number (some n)]
  | string s => [.string (some s)]
  | array items => .openArray :: ([.comma].intercalate (itemTokens items) ++ [.closeArray])
  | object members =>
    .openObject :: ([.comma].intercalate (memberTokens members) ++ [.closeObject])

/-- The tokens of each of an array's items. -/
def itemTokens : List Json → List (List Token)
  | [] => []
  | j :: rest => j.tokensOf :: itemTokens rest

/-- The tokens of each of an object's members. -/
def memberTokens : List (String × Json) → List (List Token)
  | [] => []
  | (k, j) :: rest => (.string (some k) :: .colon :: j.tokensOf) :: memberTokens rest

end

/-- A line break and blanks. -/
theorem newline_blanks (depth : Nat) : (newline depth).toList.all isBlank = true := by
  simp [newline, isBlank]

theorem delimited_newline (depth : Nat) (rest : List Char) :
    Delimited ((newline depth).toList ++ rest) := by
  simp [newline, Delimited, isNumberChar]

/-- Parts that are separated by commas, each on a line of its own. -/
theorem scans_separated (depth : Nat) {texts : List String} {found : List (List Token)}
    {tail : List Char} {after : List Token}
    (h : List.Forall₂ (fun text found => Scans text.toList found) texts found) (hne : texts ≠ [])
    (htail : Scans tail after) (hstart : Delimited tail) :
    Scans ((("," ++ newline depth).intercalate texts).toList ++ tail)
      ([.comma].intercalate found ++ after) := by
  induction h with
  | nil => exact absurd rfl hne
  | @cons text tokens texts found hfirst hrest ih =>
    cases hrest with
    | nil =>
      rw [String.intercalate_singleton, List.intercalate_singleton]
      exact hfirst.append htail hstart
    | @cons next nextTokens texts found hnext hrest =>
      have hmore := ih (List.cons_ne_nil next texts)
      have hseparated := (hmore.blanks (newline_blanks depth)).punctuation
        (show punctuation? ',' = some .comma from rfl)
      rw [String.intercalate_cons_cons, List.intercalate_cons_cons]
      simp only [String.toList_append, List.append_assoc]
      exact hfirst.append hseparated (by simp [Delimited, isNumberChar])

/-- Items between two brackets. -/
theorem scans_bracketed {depth : Nat} {left right : Char} {opening closing : Token}
    {texts : List String} {found : List (List Token)}
    (h : List.Forall₂ (fun text found => Scans text.toList found) texts found)
    (hleft : punctuation? left = some opening) (hright : punctuation? right = some closing) :
    Scans (bracketed depth left right texts).toList
      (opening :: ([.comma].intercalate found ++ [closing])) := by
  have htext (c : Char) : c.toString.toList = [c] := by simp
  have hclose : Scans [right] [closing] := Scans.nil.punctuation hright
  unfold bracketed
  split
  · next hempty =>
    rw [List.isEmpty_iff] at hempty
    subst hempty
    cases h
    rw [String.toList_append, htext, htext]
    exact hclose.punctuation hleft
  · next hempty =>
    rw [List.isEmpty_iff] at hempty
    -- The items are followed by a line break, so the last of them ends there.
    have hitems := scans_separated (depth + 1) h hempty (hclose.blanks (newline_blanks depth))
      (delimited_newline depth [right])
    have hscans := (hitems.blanks (newline_blanks (depth + 1))).punctuation hleft
    simp only [String.toList_append, htext, List.append_assoc]
    exact hscans

/-! ### Whole values -/

mutual

/-- An indented text is split into the tokens of its value. -/
theorem scans_indented : ∀ (j : Json) (depth : Nat), j.Printable →
    Scans (j.indented depth).toList j.tokensOf
  | null, _, _ => Scans.single fun _ _ => by simp [indented, nextToken]
  | bool true, _, _ => Scans.single fun _ _ => by simp [indented, nextToken]
  | bool false, _, _ => Scans.single fun _ _ => by simp [indented, nextToken]
  | number _, _, h => Scans.single fun _ hrest => nextToken_numberText h hrest
  | string s, _, _ => Scans.single fun rest _ => nextToken_quote s rest
  | array items, depth, h =>
    scans_bracketed (scans_indentedItems items (depth + 1) h) rfl rfl
  | object members, depth, h =>
    scans_bracketed (scans_indentedMembers members (depth + 1) h) rfl rfl

theorem scans_indentedItems : ∀ (items : List Json) (depth : Nat), ItemsPrintable items →
    List.Forall₂ (fun text found => Scans text.toList found) (indentedItems depth items)
      (itemTokens items)
  | [], _, _ => .nil
  | j :: rest, depth, h =>
    .cons (scans_indented j depth h.1) (scans_indentedItems rest depth h.2)

theorem scans_indentedMembers : ∀ (members : List (String × Json)) (depth : Nat),
    MembersPrintable members →
    List.Forall₂ (fun text found => Scans text.toList found) (indentedMembers depth members)
      (memberTokens members)
  | [], _, _ => .nil
  | (k, j) :: rest, depth, h => by
    refine .cons ?_ (scans_indentedMembers rest depth h.2)
    -- A key, a colon and a blank stand before the value.
    have hvalue := (scans_indented j depth h.1).blank (show isBlank ' ' = true from rfl)
    have hcolon := hvalue.punctuation (show punctuation? ':' = some .colon from rfl)
    have hkey : Scans (quote k).toList [.string (some k)] :=
      Scans.single fun rest _ => nextToken_quote k rest
    have hmember := hkey.append hcolon (by simp [Delimited, isNumberChar])
    simp only [String.toList_append, List.append_assoc]
    exact hmember

end

/-- The tokens of a whole text. -/
theorem tokens_pretty {j : Json} (h : j.Printable) : tokens j.pretty.toList = .ok j.tokensOf := by
  have hscans := scans_indented j 0 h
  -- There are more steps than tokens, since each token has a character.
  have hfuel : j.pretty.toList.length + 1 =
      (j.pretty.toList.length - j.tokensOf.length) + 1 + j.tokensOf.length := by
    have : j.tokensOf.length ≤ j.pretty.toList.length := hscans.length_le
    omega
  have htokens := hscans.tokensFrom_eq (j.pretty.toList.length - j.tokensOf.length + 1) [] []
    (by simp [Delimited])
  rw [List.append_nil, List.append_nil] at htokens
  rw [tokens, hfuel]
  refine htokens.trans ?_
  simp [tokensFrom]

end Json

end MathKernel
