import MathKernel.Proofs.Data.Json.Scanning

/-!
# Written values are read back

The tokens of a value are read as this value, with as many steps as there are tokens, if the value
nests no deeper than it may. So the text that is written for a value is parsed as the value, also
if only some members of a record are wanted and the record has no others.

## Main results

* `Json.readValue_tokensOf` — the tokens of a value are read as the value
* `Json.parseRecord_pretty` — a text is parsed as the value that it was written for
-/

namespace MathKernel

namespace Json

/-- A value starts with no closing bracket. -/
theorem tokensOf_head (j : Json) :
    ∃ token rest, j.tokensOf = token :: rest ∧ token ≠ .closeArray := by
  cases j <;> exact ⟨_, _, by rw [tokensOf], by simp⟩

theorem intercalate_itemTokens_head (j : Json) (items : List Json) :
    ∃ token rest, [Token.comma].intercalate (itemTokens (j :: items)) = token :: rest ∧
      token ≠ .closeArray := by
  obtain ⟨token, rest, htokens, htoken⟩ := j.tokensOf_head
  cases items with
  | nil => exact ⟨token, rest, by rw [itemTokens, itemTokens, List.intercalate_singleton, htokens],
      htoken⟩
  | cons next items =>
    refine ⟨token, rest ++ [.comma] ++ [Token.comma].intercalate (itemTokens (next :: items)), ?_,
      htoken⟩
    simp only [itemTokens, List.intercalate_cons_cons, htokens, List.cons_append]

theorem intercalate_memberTokens_head (k : String) (j : Json) (members : List (String × Json)) :
    ∃ rest, [Token.comma].intercalate (memberTokens ((k, j) :: members)) =
      .string (some k) :: rest := by
  cases members with
  | nil => exact ⟨_, by rw [memberTokens, memberTokens, List.intercalate_singleton]⟩
  | cons next members =>
    obtain ⟨key, value⟩ := next
    exact ⟨.colon :: j.tokensOf ++ [.comma] ++
      [Token.comma].intercalate (memberTokens ((key, value) :: members)), by
        simp only [memberTokens, List.intercalate_cons_cons, List.cons_append]⟩

/-! ### One step of a reader -/

theorem readItems_last {fuel : Nat} {how : Scrutiny} {found : List Json} {j : Json}
    {input rest : List Token} (h : readValue fuel how input = .ok (j, .closeArray :: rest)) :
    readItems (fuel + 1) how found input = .ok (.array (found.reverse ++ [j]), rest) := by
  simp only [readItems, h, List.reverse_cons]

theorem readItems_more {fuel : Nat} {how : Scrutiny} {found : List Json} {j : Json}
    {input rest : List Token} (h : readValue fuel how input = .ok (j, .comma :: rest)) :
    readItems (fuel + 1) how found input = readItems fuel how (j :: found) rest := by
  simp only [readItems, h]

theorem readMembers_last {fuel : Nat} {how : Scrutiny} {member : String → Scrutiny}
    {found : List (String × Json)} {k : String} {j : Json} {input rest : List Token}
    (h : readValue fuel (member k) input = .ok (j, .closeObject :: rest)) :
    readMembers (fuel + 1) how member found (.string (some k) :: .colon :: input) =
      .ok (.object (found.reverse ++ [(k, j)]), rest) := by
  simp only [readMembers, Scrutiny.value, h, List.reverse_cons]

theorem readMembers_more {fuel : Nat} {how : Scrutiny} {member : String → Scrutiny}
    {found : List (String × Json)} {k : String} {j : Json} {input rest : List Token}
    (h : readValue fuel (member k) input = .ok (j, .comma :: rest)) :
    readMembers (fuel + 1) how member found (.string (some k) :: .colon :: input) =
      readMembers fuel how member ((k, j) :: found) rest := by
  simp only [readMembers, Scrutiny.value, h]

/-- A container other than the empty one may be opened. -/
theorem inside_checked {limit depth : Nat} (h : 1 + depth ≤ limit) :
    ∃ inner, Scrutiny.inside (.checked limit) = .ok (.checked inner) ∧ depth ≤ inner := by
  obtain ⟨inner, rfl⟩ := Nat.exists_eq_add_of_le h
  refine ⟨depth + inner, ?_, Nat.le_add_right depth inner⟩
  rw [show 1 + depth + inner = depth + inner + 1 by omega]
  rfl

/-! ### Whole values -/

-- By structural recursion on values, items and members. Each step takes a token, so as many steps
-- as there are tokens suffice for a value and one more for the parts of a container.
mutual

/-- The tokens of a value are read as the value. -/
theorem readValue_tokensOf : ∀ (j : Json) (limit fuel : Nat) (rest : List Token),
    j.depth ≤ limit → j.tokensOf.length ≤ fuel →
      readValue fuel (.checked limit) (j.tokensOf ++ rest) = .ok (j, rest)
  | null, limit, fuel, rest, _, hfuel => by
    obtain ⟨fuel, rfl⟩ := Nat.exists_eq_add_one.2 (hfuel : 0 < fuel)
    rfl
  | bool b, limit, fuel, rest, _, hfuel => by
    obtain ⟨fuel, rfl⟩ := Nat.exists_eq_add_one.2 (hfuel : 0 < fuel)
    rfl
  | number n, limit, fuel, rest, _, hfuel => by
    obtain ⟨fuel, rfl⟩ := Nat.exists_eq_add_one.2 (hfuel : 0 < fuel)
    rfl
  | string s, limit, fuel, rest, _, hfuel => by
    obtain ⟨fuel, rfl⟩ := Nat.exists_eq_add_one.2 (hfuel : 0 < fuel)
    rfl
  | array [], limit, fuel, rest, hdepth, hfuel => by
    obtain ⟨inner, hinside, -⟩ := inside_checked hdepth
    obtain ⟨fuel, rfl⟩ := Nat.exists_eq_add_one.2 (Nat.lt_of_lt_of_le Nat.two_pos hfuel)
    simp [tokensOf, itemTokens, readValue, hinside]
  | array (j :: items), limit, fuel, rest, hdepth, hfuel => by
    obtain ⟨inner, hinside, hinner⟩ := inside_checked hdepth
    rw [tokensOf, List.length_cons, List.length_append] at hfuel
    obtain ⟨fuel, rfl⟩ := Nat.exists_eq_add_one.2 (Nat.lt_of_lt_of_le (Nat.succ_pos _) hfuel)
    rw [List.length_singleton] at hfuel
    have hitems := readItems_tokens (j :: items) inner fuel [] rest (List.cons_ne_nil j items)
      hinner (by omega)
    -- The first token opens an item, so the reader does not take the array for an empty one.
    obtain ⟨token, others, htokens, htoken⟩ := intercalate_itemTokens_head j items
    rw [htokens, List.cons_append] at hitems
    simp only [tokensOf, htokens, List.cons_append, List.append_assoc, List.nil_append, readValue,
      hinside]
    split
    · next heq => exact absurd (List.cons.inj heq).1 htoken
    · exact hitems
  | object [], limit, fuel, rest, hdepth, hfuel => by
    obtain ⟨inner, hinside, -⟩ := inside_checked hdepth
    obtain ⟨fuel, rfl⟩ := Nat.exists_eq_add_one.2 (Nat.lt_of_lt_of_le Nat.two_pos hfuel)
    simp [tokensOf, memberTokens, readValue, hinside]
  | object ((k, j) :: members), limit, fuel, rest, hdepth, hfuel => by
    obtain ⟨inner, hinside, hinner⟩ := inside_checked hdepth
    rw [tokensOf, List.length_cons, List.length_append] at hfuel
    obtain ⟨fuel, rfl⟩ := Nat.exists_eq_add_one.2 (Nat.lt_of_lt_of_le (Nat.succ_pos _) hfuel)
    rw [List.length_singleton] at hfuel
    have hmembers := readMembers_tokens ((k, j) :: members) (.checked inner)
      (fun _ => .checked inner) inner fuel [] rest (List.cons_ne_nil _ members) (fun _ _ => rfl)
      hinner (by omega)
    obtain ⟨others, htokens⟩ := intercalate_memberTokens_head k j members
    rw [htokens, List.cons_append] at hmembers
    simp only [tokensOf, htokens, List.cons_append, List.append_assoc, List.nil_append, readValue,
      hinside]
    exact hmembers

/-- The tokens of items, with commas between them, are read as the items. -/
theorem readItems_tokens : ∀ (items : List Json) (limit fuel : Nat) (found : List Json)
    (rest : List Token), items ≠ [] → itemsDepth items ≤ limit →
      ([Token.comma].intercalate (itemTokens items)).length < fuel →
      readItems fuel (.checked limit) found
          ([Token.comma].intercalate (itemTokens items) ++ .closeArray :: rest) =
        .ok (.array (found.reverse ++ items), rest)
  | [], _, _, _, _, hne, _, _ => absurd rfl hne
  | [j], limit, fuel, found, rest, _, hdepth, hfuel => by
    obtain ⟨fuel, rfl⟩ := Nat.exists_eq_add_one.2 (Nat.zero_lt_of_lt hfuel)
    simp only [itemTokens, List.intercalate_singleton] at hfuel ⊢
    apply readItems_last
    exact readValue_tokensOf j limit fuel _ (le_of_max_le_left hdepth) (Nat.le_of_lt_succ hfuel)
  | j :: next :: items, limit, fuel, found, rest, _, hdepth, hfuel => by
    obtain ⟨fuel, rfl⟩ := Nat.exists_eq_add_one.2 (Nat.zero_lt_of_lt hfuel)
    have hmore := readItems_tokens (next :: items) limit fuel (j :: found) rest
      (List.cons_ne_nil next items) (le_of_max_le_right hdepth)
    simp only [itemTokens, List.intercalate_cons_cons, List.append_assoc, List.length_append,
      List.length_cons, List.cons_append, List.nil_append] at hfuel hmore ⊢
    rw [readItems_more (readValue_tokensOf j limit fuel _ (le_of_max_le_left hdepth) (by omega)),
      hmore (by omega)]
    simp

/-- The tokens of members, with commas between them, are read as the members. -/
theorem readMembers_tokens : ∀ (members : List (String × Json)) (how : Scrutiny)
    (member : String → Scrutiny) (limit fuel : Nat) (found : List (String × Json))
    (rest : List Token), members ≠ [] → (∀ m ∈ members, member m.1 = .checked limit) →
      membersDepth members ≤ limit →
      ([Token.comma].intercalate (memberTokens members)).length < fuel →
      readMembers fuel how member found
          ([Token.comma].intercalate (memberTokens members) ++ .closeObject :: rest) =
        .ok (.object (found.reverse ++ members), rest)
  | [], _, _, _, _, _, _, hne, _, _, _ => absurd rfl hne
  | [(k, j)], how, member, limit, fuel, found, rest, _, hmember, hdepth, hfuel => by
    obtain ⟨fuel, rfl⟩ := Nat.exists_eq_add_one.2 (Nat.zero_lt_of_lt hfuel)
    have hk : member k = .checked limit := hmember (k, j) List.mem_cons_self
    simp only [memberTokens, List.intercalate_singleton, List.length_cons] at hfuel ⊢
    apply readMembers_last
    rw [hk]
    exact readValue_tokensOf j limit fuel _ (le_of_max_le_left hdepth) (by omega)
  | (k, j) :: (key, value) :: members, how, member, limit, fuel, found, rest, _, hmember, hdepth,
      hfuel => by
    obtain ⟨fuel, rfl⟩ := Nat.exists_eq_add_one.2 (Nat.zero_lt_of_lt hfuel)
    have hk : member k = .checked limit := hmember (k, j) List.mem_cons_self
    have hmore := readMembers_tokens ((key, value) :: members) how member limit fuel
      ((k, j) :: found) rest (List.cons_ne_nil _ members)
      (fun m hm => hmember m (List.mem_cons_of_mem _ hm)) (le_of_max_le_right hdepth)
    simp only [memberTokens, List.intercalate_cons_cons, List.append_assoc, List.length_append,
      List.length_cons, List.cons_append, List.nil_append] at hfuel hmore ⊢
    have hvalue := readValue_tokensOf j limit fuel
      (.comma :: ([Token.comma].intercalate ((.string (some key) :: .colon :: value.tokensOf) ::
        memberTokens members) ++ .closeObject :: rest)) (le_of_max_le_left hdepth) (by omega)
    rw [← hk] at hvalue
    rw [readMembers_more hvalue, hmore (by omega)]
    simp

end

/-! ### Texts -/

/-- The keys of an object. -/
def keys : Json → List String
  | object members => members.map Prod.fst
  | _ => []

/-- A value is an object with members, or its tokens do not start like one. -/
theorem tokensOf_ne_or (j : Json) :
    (∀ key rest, j.tokensOf ≠ .openObject :: .string key :: rest) ∨
      ∃ k v members, j = object ((k, v) :: members) := by
  cases j with
  | object members =>
    cases members with
    | nil =>
      refine .inl fun key rest h => ?_
      cases (List.cons.inj h).2
    | cons m members => exact .inr ⟨m.1, m.2, members, rfl⟩
  | _ =>
    refine .inl fun key rest h => ?_
    cases (List.cons.inj h).1

/-- A text is parsed as the value that it was written for, if this is no record or all its members
are wanted. -/
theorem parseRecord_pretty {fields : List String} {j : Json} {limit : Nat} (h : j.Printable)
    (hdepth : j.depth ≤ limit) (hfields : ∀ key ∈ j.keys, key ∈ fields) :
    parseRecord fields limit j.pretty = .ok j := by
  rcases j.tokensOf_ne_or with hrecord | ⟨k, v, members, rfl⟩
  · have hread := readValue_tokensOf j limit (stepsFor j.tokensOf) [] hdepth (by
      unfold stepsFor
      omega)
    rw [List.append_nil] at hread
    simp only [parseRecord, tokens_pretty h, bind, Except.bind, hread, wholeValue]
  · obtain ⟨inner, hinside, hinner⟩ := inside_checked hdepth
    obtain ⟨others, htokens⟩ := intercalate_memberTokens_head k v members
    -- Every key is a field, so no member is skipped.
    have hread := readMembers_tokens ((k, v) :: members) (.checked inner)
      (fun key => if fields.contains key then .checked inner else .skipped) inner
      (stepsFor (object ((k, v) :: members)).tokensOf) [] [] (List.cons_ne_nil _ members)
      (fun m hm => if_pos (List.contains_iff_mem.2 (hfields _ (List.mem_map_of_mem hm)))) hinner (by
        rw [stepsFor, tokensOf, List.length_cons, List.length_append]
        omega)
    rw [htokens, List.cons_append] at hread
    have htokensOf : (object ((k, v) :: members)).tokensOf =
        .openObject :: .string (some k) :: (others ++ [.closeObject]) := by
      rw [tokensOf, htokens, List.cons_append]
    simp only [parseRecord, tokens_pretty h, bind, Except.bind]
    rw [htokensOf] at hread ⊢
    simp only [hinside]
    rw [hread]
    rfl

end Json

end MathKernel
