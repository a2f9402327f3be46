import Mathlib.Data.List.Induction
import MathKernel.Proofs.Normalize.CountedLoops
import MathKernel.Proofs.Normalize.IntegerSpellings
import MathKernel.Proofs.Number.Rendering

/-!
# The names of a pool

However a pool is asked for names and reset, it issues the names with the numbers below its capacity
and no others. Between two resets no name is issued twice, and a pool without further names stays as
it is when it is asked for one.

A pool recognizes a name by reading what follows its stem as a number. The reader lets a plus sign
and zeros stand before the digits, so names are recognized that the pool never issues: its own ones
with such letters put in after the stem.

## Main definitions

* `NamePool.takeNext` — issuing a name of the pool at hand, which stays in use also after a failure
* `NamePool.Session`, `NamePool.session` — a pool in use, and what it has issued after some requests
* `NamePool.CanIssue` — some requests make the pool issue the name
* `NamePool.IsPadded` — a name of the pool with a plus sign or zeros before its number

## Main results

* `readNat64?_eq_some_iff` — the texts that are read as a number
* `NamePool.isSound_session` — what holds of a pool after any requests
* `NamePool.canIssue_iff` — the names that a pool issues
* `NamePool.owns_iff_issued_or_padded` — the names that a pool recognizes
-/

namespace MathKernel

/-! ### Numbers with zeros before them -/

section Digits

variable {digits : List Char} {n : Nat}

theorem digitChar_of_isDigit {c : Char} (h : c.isDigit = true) :
    Nat.digitChar (c.toNat - '0'.toNat) = c := by
  refine forall_char_of_lt
    (p := fun c => c.isDigit = true → Nat.digitChar (c.toNat - '0'.toNat) = c) ?_ c
    (code_lt_of_isDigit h) h
  decide +kernel

/-- Digits are those of their number behind some zeros. -/
theorem exists_zeros_append_toDigits (hne : digits ≠ []) (h : ∀ c ∈ digits, c.isDigit = true) :
    ∃ zeros, digits = List.replicate zeros '0' ++ Nat.toDigits 10 (digitsToNat digits) := by
  induction digits using List.reverseRecOn with
  | nil => exact absurd rfl hne
  | append_singleton digits c ih =>
    have hc := h c (by simp)
    have hdigit := digitChar_of_isDigit hc
    have hlt : c.toNat - '0'.toNat < 10 := by
      have hcode := code_lt_of_isDigit hc
      have hzero : '0'.toNat = 48 := rfl
      omega
    have hvalue : digitsToNat (digits ++ [c]) =
        10 * digitsToNat digits + (c.toNat - '0'.toNat) := by
      simp [digitsToNat, List.foldl_append]
    have hlast : Nat.toDigits 10 (c.toNat - '0'.toNat) = [c] := by
      rw [Nat.toDigits_of_lt_base hlt, hdigit]
    rw [hvalue]
    by_cases hnil : digits = []
    · subst hnil
      exact ⟨0, by simpa [digitsToNat] using hlast.symm⟩
    obtain ⟨zeros, hzeros⟩ := ih hnil fun d hd => h d (List.mem_append_left _ hd)
    rcases Nat.eq_zero_or_pos (digitsToNat digits) with hzero | hpos
    · -- Zero has a digit of its own, which becomes one of the zeros.
      rw [hzero, Nat.toDigits_zero] at hzeros
      refine ⟨zeros + 1, ?_⟩
      rw [hzero, Nat.mul_zero, Nat.zero_add, hlast, List.replicate_succ', ← hzeros]
    · refine ⟨zeros, ?_⟩
      rw [← Nat.toDigits_append_toDigits (by decide) hpos hlt, hlast, ← List.append_assoc, ← hzeros]

theorem isDigit_of_digitValue? {c : Char} {value : Nat} (h : digitValue? 10 c = some value) :
    c.isDigit = true := by
  unfold digitValue? at h
  grind

theorem isDigit_of_foldlM {start : Nat}
    (h : digits.foldlM (fun n c => (digitValue? 10 c).map (10 * n + ·)) start = some n) :
    ∀ c ∈ digits, c.isDigit = true := by
  induction digits generalizing start with
  | nil => exact List.forall_mem_nil _
  | cons c rest ih =>
    rw [List.foldlM_cons] at h
    obtain ⟨next, hnext, hrest⟩ := Option.bind_eq_some_iff.1 h
    obtain ⟨value, hvalue, -⟩ := Option.map_eq_some_iff.1 hnext
    exact List.forall_mem_cons.2 ⟨isDigit_of_digitValue? hvalue, ih hrest⟩

/-- What is read as a number in decimal is the number's digits behind some zeros. -/
theorem readDigits?_eq_some_iff :
    readDigits? 10 digits = some n ↔
      ∃ zeros, digits = List.replicate zeros '0' ++ Nat.toDigits 10 n := by
  have hread (h : ∀ c ∈ digits, c.isDigit = true) (hne : digits ≠ []) :
      readDigits? 10 digits = some (digitsToNat digits) := by
    rw [readDigits?, if_neg hne, foldlM_digitValue? h]
    rfl
  constructor
  · intro h
    have hne : digits ≠ [] := by
      rintro rfl
      cases h
    have hdigits : ∀ c ∈ digits, c.isDigit = true := by
      rw [readDigits?, if_neg hne] at h
      exact isDigit_of_foldlM h
    obtain rfl := Option.some.inj ((hread hdigits hne).symm.trans h)
    exact exists_zeros_append_toDigits hne hdigits
  · rintro ⟨zeros, rfl⟩
    rw [hread ?_ ?_, digitsToNat_append, digitsToNat_zeros, Nat.mul_zero, Nat.zero_add,
      digitsToNat_toDigits]
    · exact List.forall_mem_append.2
        ⟨fun c => isDigit_of_mem_zeros, fun c => isDigit_of_mem_toDigits⟩
    · exact List.append_ne_nil_of_right_ne_nil _ Nat.toDigits_ne_nil

/-- What is read as an unsigned number: the number's digits behind some zeros, and a plus sign at
most before them. -/
theorem readNat64?_eq_some_iff {text : List Char} :
    readNat64? text = some n ↔ n < pow2 64 ∧ ∃ plus zeros, (plus = [] ∨ plus = ['+']) ∧
      text = plus ++ (List.replicate zeros '0' ++ Nat.toDigits 10 n) := by
  have hbound (x : Option Nat) :
      (x.bind fun k => if k < pow2 64 then some k else none) = some n ↔
        n < pow2 64 ∧ x = some n := by
    cases x <;> grind
  -- A number's digits do not begin with a plus sign.
  have hplus (zeros : Nat) (rest : List Char) :
      '+' :: rest ≠ List.replicate zeros '0' ++ Nat.toDigits 10 n := by
    intro h
    have hmem : '+' ∈ List.replicate zeros '0' ++ Nat.toDigits 10 n := h ▸ List.mem_cons_self
    rcases List.mem_append.1 hmem with hzero | hdigit
    · exact absurd (isDigit_of_mem_zeros hzero) (by decide)
    · exact absurd (isDigit_of_mem_toDigits hdigit) (by decide)
  unfold readNat64?
  split
  · next digits =>
    refine (hbound _).trans (and_congr_right fun _ => readDigits?_eq_some_iff.trans ?_)
    constructor
    · rintro ⟨zeros, rfl⟩
      exact ⟨['+'], zeros, .inr rfl, rfl⟩
    · rintro ⟨plus, zeros, rfl | rfl, h⟩
      · exact absurd h (hplus zeros digits)
      · exact ⟨zeros, (List.cons.inj h).2⟩
  · next hhead =>
    refine (hbound _).trans (and_congr_right fun _ => readDigits?_eq_some_iff.trans ?_)
    constructor
    · rintro ⟨zeros, rfl⟩
      exact ⟨[], zeros, .inl rfl, rfl⟩
    · rintro ⟨plus, zeros, rfl | rfl, rfl⟩
      · exact ⟨zeros, rfl⟩
      · exact absurd rfl (hhead _)

end Digits

namespace NamePool

variable {p : NamePool} {s : String} {n : Nat}

/-! ### What a pool recognizes -/

/-- The name with the given number, with a plus sign and zeros before the number. -/
def paddedName (p : NamePool) (plus : Bool) (zeros n : Nat) : String :=
  p.stem ++ ((if plus then "+" else "") ++ (String.ofList (List.replicate zeros '0') ++ toString n))

/-- The text is a name of the pool in which a plus sign or zeros stand before the number. -/
def IsPadded (p : NamePool) (s : String) : Prop :=
  ∃ plus zeros n, (plus = true ∨ 0 < zeros) ∧ n < p.capacity ∧ s = p.paddedName plus zeros n

theorem toList_paddedName (plus : Bool) (zeros n : Nat) :
    (p.paddedName plus zeros n).toList = p.stem.toList ++
      ((if plus then ['+'] else []) ++ (List.replicate zeros '0' ++ Nat.toDigits 10 n)) := by
  cases plus <;> simp [paddedName]

theorem paddedName_zero (n : Nat) : p.paddedName false 0 n = p.name n := by
  simp [paddedName, name]

theorem afterStem?_eq_some_iff {tail : List Char} :
    p.afterStem? s = some tail ↔ s.toList = p.stem.toList ++ tail := by
  unfold afterStem?
  split
  · next hprefix =>
    obtain ⟨rest, hrest⟩ := List.isPrefixOf_iff_prefix.1 hprefix
    rw [← hrest, List.drop_left, Option.some.injEq, List.append_cancel_left_eq]
  · next hprefix =>
    refine iff_of_false nofun fun h => hprefix ?_
    exact List.isPrefixOf_iff_prefix.2 ⟨tail, h.symm⟩

/-- A pool recognizes its names, with or without a plus sign and zeros before their numbers. -/
theorem owns_iff_paddedName (hcapacity : p.capacity < pow2 64) :
    p.owns s = true ↔ ∃ plus zeros n, n < p.capacity ∧ s = p.paddedName plus zeros n := by
  have howns : p.owns s = true ↔
      ∃ tail n, s.toList = p.stem.toList ++ tail ∧ readNat64? tail = some n ∧ n < p.capacity := by
    unfold owns
    cases hread : (p.afterStem? s).bind readNat64? with
    | none =>
      refine iff_of_false (by simp) ?_
      rintro ⟨tail, n, htail, hn, -⟩
      rw [afterStem?_eq_some_iff.2 htail, Option.bind_some, hn] at hread
      cases hread
    | some n =>
      obtain ⟨tail, htail, hn⟩ := Option.bind_eq_some_iff.1 hread
      rw [afterStem?_eq_some_iff] at htail
      rw [decide_eq_true_iff]
      constructor
      · exact fun hlt => ⟨tail, n, htail, hn, hlt⟩
      · rintro ⟨tail', n', htail', hn', hlt⟩
        obtain rfl := List.append_cancel_left (htail.symm.trans htail')
        rwa [Option.some.inj (hn.symm.trans hn')]
  rw [howns]
  constructor
  · rintro ⟨tail, n, htail, hread, hlt⟩
    obtain ⟨-, plus, zeros, hplus, rfl⟩ := readNat64?_eq_some_iff.1 hread
    refine ⟨!plus.isEmpty, zeros, n, hlt, String.toList_inj.1 ?_⟩
    rw [htail, toList_paddedName]
    rcases hplus with rfl | rfl <;> rfl
  · rintro ⟨plus, zeros, n, hlt, rfl⟩
    refine ⟨_, n, toList_paddedName plus zeros n, readNat64?_eq_some_iff.2 ?_, hlt⟩
    refine ⟨hlt.trans hcapacity, _, zeros, ?_, rfl⟩
    cases plus
    · exact .inl rfl
    · exact .inr rfl

/-- A plus sign or a zero before the number makes a text that is no name of the pool. -/
theorem IsPadded.ne_name (h : p.IsPadded s) (n : Nat) : s ≠ p.name n := by
  obtain ⟨plus, zeros, m, hpadded, -, rfl⟩ := h
  intro heq
  rw [← paddedName_zero, ← String.toList_inj, toList_paddedName, toList_paddedName,
    List.append_cancel_left_eq] at heq
  change _ = Nat.toDigits 10 n at heq
  -- The digits of a number have no sign, and no zero in front of others.
  cases plus with
  | true =>
    have hplus : '+' ∈ Nat.toDigits 10 n := heq ▸ List.mem_cons_self
    exact absurd (isDigit_of_mem_toDigits hplus) (by decide)
  | false =>
    obtain ⟨k, rfl⟩ := Nat.exists_eq_add_of_lt (hpadded.resolve_left Bool.false_ne_true)
    have hrest : List.replicate k '0' ++ Nat.toDigits 10 m ≠ [] :=
      List.append_ne_nil_of_right_ne_nil _ Nat.toDigits_ne_nil
    obtain ⟨c, rest, hcons⟩ := List.exists_cons_of_ne_nil hrest
    have hhead : Nat.toDigits 10 n = '0' :: c :: rest := by
      rw [← heq, ← hcons, Nat.zero_add]
      rfl
    exact toDigits_head hhead

/-! ### What a pool issues -/

/-- Issue the next name of the pool at hand. -/
def takeNext : ExceptT NormalizeError (StateM NamePool) String := do
  let p ← get
  if p.capacity ≤ p.next then throw (.namePoolExhausted p.capacity)
  set { p with next := p.next + 1 }
  return p.stem ++ toString p.next

/-- What is asked of a pool. -/
inductive Request where
  | fresh
  | reset
  deriving DecidableEq, Repr

/-- A pool in use. -/
structure Session where
  pool : NamePool
  /-- Names issued since the last reset, in order. -/
  current : List String
  /-- All names issued. -/
  issued : List String

/-- What a request makes of a pool in use. -/
def Session.serve (u : Session) : Request → Session
  | .fresh =>
    match takeNext.run.run u.pool with
    | (.ok name, pool) => ⟨pool, u.current ++ [name], u.issued ++ [name]⟩
    | (.error _, pool) => { u with pool }
  | .reset => { u with pool := u.pool.reset, current := [] }

/-- The pool in use after some requests. -/
def session (p : NamePool) (requests : List Request) : Session :=
  requests.foldl Session.serve ⟨p, [], []⟩

/-- Some requests make the pool issue the name. -/
def CanIssue (p : NamePool) (s : String) : Prop :=
  ∃ requests, s ∈ (p.session requests).issued

/-- The pool goes on as it is if it has no name left. -/
theorem takeNext_run (p : NamePool) :
    takeNext.run.run p =
      if p.next < p.capacity then (.ok (p.name p.next), { p with next := p.next + 1 })
      else (.error (.namePoolExhausted p.capacity), p) := by
  have hrun : takeNext.run.run p =
      if p.capacity ≤ p.next then (.error (.namePoolExhausted p.capacity), p)
      else (.ok (p.stem ++ toString p.next), { p with next := p.next + 1 }) := by
    change (ite _ _ _ : ExceptT NormalizeError (StateM NamePool) String).run.run p = _
    split <;> rfl
  simp only [hrun, ← Nat.not_lt, ite_not]
  rfl

/-- Issuing a name is the same with a pool at hand and with a pool that is passed on. -/
theorem takeNext_run_eq_fresh (p : NamePool) :
    takeNext.run.run p =
      match p.fresh with
      | .ok (name, next) => (.ok name, next)
      | .error e => (.error e, p) := by
  rw [takeNext_run, fresh]
  split <;> rfl

theorem Session.serve_fresh_of_lt {u : Session} (h : u.pool.next < u.pool.capacity) :
    u.serve .fresh =
      ⟨{ u.pool with next := u.pool.next + 1 }, u.current ++ [u.pool.name u.pool.next],
        u.issued ++ [u.pool.name u.pool.next]⟩ := by
  rw [Session.serve, takeNext_run, if_pos h]

theorem Session.serve_fresh_of_le {u : Session} (h : u.pool.capacity ≤ u.pool.next) :
    u.serve .fresh = u := by
  rw [Session.serve, takeNext_run, if_neg (Nat.not_lt.2 h)]

/-- What holds of a pool in use that was new at first. -/
structure Session.IsSound (p : NamePool) (u : Session) : Prop where
  pool : u.pool = { p with next := u.current.length }
  current : u.current = (List.range u.current.length).map p.name
  le_capacity : u.current.length ≤ p.capacity
  issued : ∀ x ∈ u.issued, ∃ n < p.capacity, x = p.name n

/-- The pool stays sound with each request. -/
theorem Session.IsSound.serve {u : Session} (h : u.IsSound p) (request : Request) :
    (u.serve request).IsSound p := by
  have hnext : u.pool.next = u.current.length := by rw [h.pool]
  have hcapacity : u.pool.capacity = p.capacity := by rw [h.pool]
  have hname : u.pool.name = p.name := by
    rw [h.pool]
    rfl
  cases request with
  | fresh =>
    rcases Nat.lt_or_ge u.pool.next u.pool.capacity with hlt | hle
    · rw [Session.serve_fresh_of_lt hlt, hname, hnext]
      rw [hnext, hcapacity] at hlt
      refine ⟨?_, ?_, ?_, ?_⟩
      · rw [h.pool, List.length_append, List.length_singleton]
      · rw [List.length_append, List.length_singleton, List.range_succ, List.map_append,
          ← h.current, List.map_singleton]
      · rwa [List.length_append, List.length_singleton]
      · exact List.forall_mem_append.2
          ⟨h.issued, List.forall_mem_singleton.2 ⟨u.current.length, hlt, rfl⟩⟩
    · rwa [Session.serve_fresh_of_le hle]
  | reset =>
    exact ⟨by rw [Session.serve, h.pool]; rfl, rfl, Nat.zero_le _, h.issued⟩

section New

variable (stem : String) (capacity : Nat)

/-- A new pool is sound after any requests. -/
theorem isSound_session (requests : List Request) :
    ((new stem capacity).session requests).IsSound (new stem capacity) := by
  refine List.foldlRecOn requests Session.serve ?_ fun u hu request _ => hu.serve request
  exact ⟨rfl, rfl, Nat.zero_le _, List.forall_mem_nil _⟩

theorem session_replicate_fresh {n : Nat} (hn : n ≤ capacity) :
    (new stem capacity).session (List.replicate n .fresh) =
      ⟨{ new stem capacity with next := n }, (List.range n).map (new stem capacity).name,
        (List.range n).map (new stem capacity).name⟩ := by
  induction n with
  | zero => rfl
  | succ n ih =>
    rw [List.replicate_succ', session, List.foldl_append]
    change Session.serve (session _ _) .fresh = _
    rw [ih (by omega), Session.serve_fresh_of_lt, List.range_succ, List.map_append]
    · rfl
    · exact hn

/-- A new pool issues the names with the numbers below its capacity. -/
theorem canIssue_iff :
    (new stem capacity).CanIssue s ↔ ∃ n < capacity, s = (new stem capacity).name n := by
  constructor
  · rintro ⟨requests, hs⟩
    exact (isSound_session stem capacity requests).issued s hs
  · rintro ⟨n, hn, rfl⟩
    refine ⟨List.replicate (n + 1) .fresh, ?_⟩
    rw [session_replicate_fresh stem capacity hn, List.range_succ, List.map_append]
    exact List.mem_append_right _ (List.mem_singleton_self _)

theorem IsPadded.not_canIssue (h : (new stem capacity).IsPadded s) :
    ¬ (new stem capacity).CanIssue s := by
  rw [canIssue_iff]
  rintro ⟨n, -, hn⟩
  exact h.ne_name n hn

theorem owns_iff_canIssue_or_isPadded (hcapacity : capacity < pow2 64) :
    (new stem capacity).owns s = true ↔
      (new stem capacity).CanIssue s ∨ (new stem capacity).IsPadded s := by
  rw [owns_iff_paddedName hcapacity, canIssue_iff]
  constructor
  · rintro ⟨plus, zeros, n, hn, rfl⟩
    by_cases hpadded : plus = true ∨ 0 < zeros
    · exact .inr ⟨plus, zeros, n, hpadded, hn, rfl⟩
    · obtain ⟨hplus, hzeros⟩ := not_or.1 hpadded
      obtain rfl := Bool.eq_false_of_not_eq_true hplus
      obtain rfl := Nat.eq_zero_of_not_pos hzeros
      exact .inl ⟨n, hn, paddedName_zero n⟩
  · rintro (⟨n, hn, rfl⟩ | ⟨plus, zeros, n, -, hn, rfl⟩)
    · exact ⟨false, 0, n, hn, (paddedName_zero n).symm⟩
    · exact ⟨plus, zeros, n, hn, rfl⟩

end New

/-- Whatever has been issued, a pool recognizes the names that it issues and these names with a plus
sign or zeros before their numbers, which it never issues. It issues no more names than its capacity
between two resets, all of them different, and stays as it is when it has none left. -/
theorem owns_iff_issued_or_padded (stem : String) (capacity : UInt64) (requests : List Request) :
    let p := new stem capacity.toNat
    let u := p.session requests
    (∀ s, u.pool.owns s = true ↔ p.CanIssue s ∨ p.IsPadded s) ∧
    (∀ s, p.IsPadded s → ¬ p.CanIssue s) ∧
    u.pool.next ≤ capacity.toNat ∧ u.current.length = u.pool.next ∧ u.current.Nodup ∧
    ∀ e, u.pool.fresh = .error e → takeNext.run.run u.pool = (.error e, u.pool) := by
  intro p u
  have hu : u.IsSound p := isSound_session stem capacity.toNat requests
  have hnext : u.pool.next = u.current.length := by rw [hu.pool]
  have howns (s : String) : u.pool.owns s = p.owns s := by
    rw [hu.pool]
    rfl
  refine ⟨fun s => ?_, fun s => IsPadded.not_canIssue stem capacity.toNat, ?_, hnext.symm, ?_, ?_⟩
  · rw [howns]
    exact owns_iff_canIssue_or_isPadded stem capacity.toNat capacity.toNat_lt
  · exact hnext ▸ hu.le_capacity
  · rw [hu.current]
    exact List.Nodup.map p.name_injective List.nodup_range
  · intro e he
    rw [takeNext_run_eq_fresh, he]

/-- The pool of loop counters recognizes names that it never issues. -/
theorem counters_owns_padded :
    (counters.owns "_li03" = true ∧ ¬ counters.CanIssue "_li03") ∧
      (counters.owns "_li+3" = true ∧ ¬ counters.CanIssue "_li+3") := by
  have hzero : counters.IsPadded "_li03" := ⟨false, 1, 3, by decide, by decide, by decide +kernel⟩
  have hplus : counters.IsPadded "_li+3" := ⟨true, 0, 3, by decide, by decide, by decide +kernel⟩
  exact ⟨⟨by decide +kernel, hzero.not_canIssue⟩, by decide +kernel, hplus.not_canIssue⟩

end NamePool

end MathKernel
