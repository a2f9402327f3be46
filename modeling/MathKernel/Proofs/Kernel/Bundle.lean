import Mathlib.Tactic.FinCases
import MathKernel.Kernel.Bundle
import MathKernel.Link.Program
import MathKernel.Proofs.Kernel.Codec

/-!
# Bundles are read back from their texts

The text of a bundle of kernels is read as this bundle and passes its own check, whatever the
kernels are, as long as no value is an infinity, which has no text. Kernels that were stored and
loaded hence link to the same programs. Of the encoding only this is assumed: it gives back the
values that it wrote, if they have numbers that it keeps. The hash may be any function.

## Main definitions

* `Json.Fits`, `Encoding.Keeps` — what an encoding has to give back
* `Kernel.Storable` — every number is kept or not a number, and sizes are machine words

## Main results

* `Encoding.standard_keeps` — the tool's encoding keeps the numbers that are read from their texts
* `Bundle.ofText_text` — a new bundle is read back from its text
* `Bundle.loaded_links_alike` — loaded kernels link like the ones that were stored
-/

namespace MathKernel

/-! ### Values that are given back -/

namespace Json

/-- A value for a text: at most `n` containers are nested, the keys of an object differ, integers
have 64 bits, and other numbers are finite and among those that are kept. -/
inductive Fits (kept : Binary64 → Prop) : Nat → Json → Prop
  | null {n : Nat} : Fits kept n null
  | bool {n : Nat} (b : Bool) : Fits kept n (bool b)
  | int {n : Nat} {k : Int} (hlower : -(pow2 63 : Int) ≤ k) (hupper : k < pow2 64) :
      Fits kept n (ofInt k)
  | float {n : Nat} {x : Binary64} (hnumber : x.isNaN = false) (hfinite : x.isInfinite = false)
      (hkept : kept x) : Fits kept n (number (.float x))
  | string {n : Nat} (s : String) : Fits kept n (string s)
  | array {n : Nat} {items : List Json} (h : ∀ j ∈ items, Fits kept n j) :
      Fits kept (n + 1) (array items)
  | object {n : Nat} {members : List (String × Json)} (hkeys : (members.map Prod.fst).Nodup)
      (h : ∀ m ∈ members, Fits kept n m.2) : Fits kept (n + 1) (object members)

variable {kept : Binary64 → Prop}

theorem Fits.mono {m n : Nat} {j : Json} (h : j.Fits kept m) (hle : m ≤ n) : j.Fits kept n := by
  induction h generalizing n with
  | null => exact .null
  | bool b => exact .bool b
  | int hlower hupper => exact .int hlower hupper
  | float hnumber hfinite hkept => exact .float hnumber hfinite hkept
  | string s => exact .string s
  | array _ ih =>
    obtain ⟨n, rfl⟩ := Nat.exists_eq_add_of_le' hle
    exact .array fun j hj => ih j hj (Nat.le_add_left _ n)
  | object hkeys _ ih =>
    obtain ⟨n, rfl⟩ := Nat.exists_eq_add_of_le' hle
    exact .object hkeys fun m hm => ih m hm (Nat.le_add_left _ n)

theorem fits_ofNat {k : Nat} (hk : k < pow2 64) (n : Nat) : (ofNat k).Fits kept n :=
  .int (by omega) (by exact_mod_cast hk)

theorem fits_array_map {α : Type} {n : Nat} {encode : α → Json} {values : List α}
    (h : ∀ a ∈ values, (encode a).Fits kept n) :
    (Json.array (values.map encode)).Fits kept (n + 1) := by
  refine .array fun j hj => ?_
  obtain ⟨a, ha, rfl⟩ := List.mem_map.1 hj
  exact h a ha

theorem fits_ofStrings (items : List String) : (ofStrings items).Fits kept 1 :=
  fits_array_map fun s _ => .string s

theorem printable_items {n : Nat} {items : List Json} (h : ∀ j ∈ items, j.Printable ∧ j.depth ≤ n) :
    ItemsPrintable items ∧ itemsDepth items ≤ n := by
  induction items with
  | nil => exact ⟨trivial, Nat.zero_le n⟩
  | cons j rest ih =>
    obtain ⟨hj, hrest⟩ := List.forall_mem_cons.1 h
    exact ⟨⟨hj.1, (ih hrest).1⟩, max_le hj.2 (ih hrest).2⟩

theorem printable_members {n : Nat} {members : List (String × Json)}
    (h : ∀ m ∈ members, m.2.Printable ∧ m.2.depth ≤ n) :
    MembersPrintable members ∧ membersDepth members ≤ n := by
  induction members with
  | nil => exact ⟨trivial, Nat.zero_le n⟩
  | cons m rest ih =>
    obtain ⟨hm, hrest⟩ := List.forall_mem_cons.1 h
    exact ⟨⟨hm.1, (ih hrest).1⟩, max_le hm.2 (ih hrest).2⟩

/-- A value is printable if its numbers are read back. -/
theorem Fits.printable (hkept : ∀ x, kept x → ReadsBack (.float x)) {n : Nat} {j : Json}
    (h : j.Fits kept n) : j.Printable ∧ j.depth ≤ n := by
  induction h with
  | null | bool | string => exact ⟨trivial, Nat.zero_le _⟩
  | int hlower hupper => exact ⟨readsBack_int hlower hupper, Nat.zero_le _⟩
  | float _ _ hx => exact ⟨hkept _ hx, Nat.zero_le _⟩
  | array _ ih =>
    have hitems := printable_items ih
    rw [depth, Nat.add_comm]
    exact ⟨hitems.1, Nat.succ_le_succ hitems.2⟩
  | object _ _ ih =>
    have hmembers := printable_members ih
    rw [depth, Nat.add_comm]
    exact ⟨hmembers.1, Nat.succ_le_succ hmembers.2⟩

end Json

/-- Of every value whose numbers are kept, nested no deeper than stored files may be, the text on
lines of its own is read as the value, if all members of a record are wanted. -/
def Encoding.Keeps (encoding : Encoding) (kept : Binary64 → Prop) : Prop :=
  ∀ (fields : List String) (j : Json), j.Fits kept Json.fileDepthLimit →
    (∀ key ∈ j.keys, key ∈ fields) → encoding.parse fields (encoding.pretty j) = .ok j

/-- The tool's encoding keeps the numbers that are read back from their texts. -/
theorem Encoding.standard_keeps : standard.Keeps fun x => Json.ReadsBack (.float x) := by
  intro fields j hj hfields
  obtain ⟨hprintable, hdepth⟩ := hj.printable fun _ h => h
  exact Json.parseRecord_pretty hprintable hdepth hfields

/-- One digit may be too many: of this number a neighbour is read. -/
example : ¬ Json.ReadsBack (.float (.ofRatio false 20744822764843598 (pow10 17))) := by
  decide +kernel

/-! ### Kernels that are given back -/

variable {kept : Binary64 → Prop}

/-- Every number is finite and kept, or it is not a number. -/
def Value.IsKept (kept : Binary64 → Prop) (v : Value Binary64) : Prop :=
  ∀ x ∈ v.numbers, x.isNaN = true ∨ x.isInfinite = false ∧ kept x

instance [DecidablePred kept] (v : Value Binary64) : Decidable (v.IsKept kept) :=
  inferInstanceAs (Decidable (∀ x ∈ v.numbers, _))

/-- The position and the length of a parameter are 64-bit words. -/
def KernelArg.FitsWord (a : KernelArg) : Prop :=
  a.index < pow2 64 ∧ ∀ n ∈ a.arrayLen, n < pow2 64

instance (a : KernelArg) : Decidable a.FitsWord :=
  inferInstanceAs (Decidable (_ ∧ ∀ n ∈ a.arrayLen, _))

/-- Every number is kept or not a number, and sizes are 64-bit words. -/
def Kernel.Storable (kept : Binary64 → Prop) : Kernel → Prop
  | .constant v | .var v => v.value.IsKept kept
  | .function f => ∀ a ∈ f.args, a.FitsWord

instance [DecidablePred kept] : DecidablePred (Kernel.Storable kept)
  | .constant v | .var v => inferInstanceAs (Decidable (v.value.IsKept kept))
  | .function f => inferInstanceAs (Decidable (∀ a ∈ f.args, a.FitsWord))

theorem Binary64.fits_toJson {x : Binary64} (h : x.isNaN = true ∨ x.isInfinite = false ∧ kept x) :
    x.toJson.Fits kept 0 := by
  unfold toJson
  split
  · exact .null
  · next hnumber =>
    obtain ⟨hfinite, hx⟩ := h.resolve_left hnumber
    exact .float (Bool.eq_false_iff.2 hnumber) hfinite hx

theorem Value.fits_toJson {v : Value Binary64} (h : v.IsKept kept) : v.toJson.Fits kept 1 := by
  cases v with
  | scalar x => exact (Binary64.fits_toJson (h x List.mem_cons_self)).mono (Nat.zero_le 1)
  | vector items => exact Json.fits_array_map fun x hx => Binary64.fits_toJson (h x hx)

theorem KernelArg.fits_toJson {a : KernelArg} (h : a.FitsWord) : a.toJson.Fits kept 1 := by
  have hkeys : (([("name", Json.string a.name), ("ty", .string a.type.cName),
      ("index", .ofNat a.index)] ++ Json.presentMember "array_len" (a.arrayLen.map Json.ofNat)).map
        Prod.fst).Nodup := by
    cases a.arrayLen <;> simp [Json.presentMember]
  refine .object hkeys fun m hm => ?_
  rcases List.mem_append.1 hm with hfixed | hlen
  · fin_cases hfixed
    · exact Json.Fits.string _
    · exact Json.Fits.string _
    · exact Json.fits_ofNat h.1 0
  · obtain ⟨j, hj, rfl⟩ := List.mem_map.1 hlen
    obtain ⟨n, hn, rfl⟩ := Option.map_eq_some_iff.1 (Option.mem_toList.1 hj)
    exact Json.fits_ofNat (h.2 n hn) 0

theorem Dependencies.fits_toJson (d : Dependencies) : d.toJson.Fits kept 2 := by
  refine .object (by simp) fun m hm => ?_
  fin_cases hm <;> exact Json.fits_ofStrings _

theorem FunctionCode.fits_toJson (c : FunctionCode) : c.toJson.Fits kept 1 := by
  have hkeys : ((Json.presentMember "prototype" (c.prototype.map Json.string) ++
      [("body", Json.string c.body)]).map Prod.fst).Nodup := by
    cases c.prototype <;> simp [Json.presentMember]
  refine .object hkeys fun m hm => ?_
  rcases List.mem_append.1 hm with hprototype | hbody
  · obtain ⟨j, hj, rfl⟩ := List.mem_map.1 hprototype
    obtain ⟨s, -, rfl⟩ := Option.map_eq_some_iff.1 (Option.mem_toList.1 hj)
    exact Json.Fits.string s
  · rw [List.mem_singleton.1 hbody]
    exact Json.Fits.string c.body

theorem FunctionCode.fits_optional (c : Option FunctionCode) :
    ((c.map FunctionCode.toJson).getD .null).Fits kept 2 := by
  cases c with
  | none => exact .null
  | some c => exact c.fits_toJson.mono (Nat.le_succ 1)

theorem ValueKernel.fits_members {v : ValueKernel} (h : v.value.IsKept kept) :
    ∀ m ∈ v.members, m.2.Fits kept 2 := by
  intro m hm
  fin_cases hm
  · exact Json.Fits.string _
  · exact Json.Fits.string _
  · exact (Value.fits_toJson h).mono (Nat.le_succ 1)
  · exact (Json.fits_ofStrings _).mono (Nat.le_succ 1)

theorem FunctionKernel.fits_members {f : FunctionKernel} (h : ∀ a ∈ f.args, a.FitsWord) :
    ∀ m ∈ f.members, m.2.Fits kept 2 := by
  intro m hm
  fin_cases hm
  · exact Json.Fits.string _
  · exact Json.fits_array_map fun a ha => KernelArg.fits_toJson (h a ha)
  · exact Json.Fits.string _
  · exact f.deps.fits_toJson
  · exact FunctionCode.fits_optional f.shader
  · exact FunctionCode.fits_optional f.scalar

theorem Kernel.fits_toJson {k : Kernel} (h : k.Storable kept) : k.toJson.Fits kept 3 := by
  cases k with
  | constant v =>
    exact .object (by simp [ValueKernel.members])
      (List.forall_mem_cons.2 ⟨Json.Fits.string _, ValueKernel.fits_members h⟩)
  | var v =>
    exact .object (by simp [ValueKernel.members])
      (List.forall_mem_cons.2 ⟨Json.Fits.string _, ValueKernel.fits_members h⟩)
  | function f =>
    exact .object (by simp [FunctionKernel.members])
      (List.forall_mem_cons.2 ⟨Json.Fits.string _, FunctionKernel.fits_members h⟩)

/-! ### Bundles -/

namespace Bundle

theorem verify_new (encoding : Encoding) (source : String) (kernels : List Kernel) :
    (new source kernels encoding).verify encoding = .ok () := by
  simp [verify, new]

/-- A bundle is read back from its record. -/
theorem ofJson_toJson {b : Bundle} (h : b.version < pow2 32) : ofJson b.toJson = .ok b := by
  have hversion : Json.expect version? (.ofNat b.version) = .ok b.version := by
    apply Json.expect_eq
    change Option.filter (fun n => decide (n < pow2 32)) (some b.version) = some b.version
    rw [Option.filter_some, if_pos (decide_eq_true h)]
  have hkernels : Json.items Kernel.ofJson (.array (b.kernels.map Kernel.toJson)) =
      .ok b.kernels := Json.items_map fun k _ => k.ofJson_toJson
  simp [toJson, ofJson, Json.record, Json.field, Json.field?, bind, Except.bind, pure, Except.pure,
    Json.expect_string?, hversion, hkernels]

theorem fits_toJson {b : Bundle} (hversion : b.version < pow2 64)
    (hkernels : ∀ k ∈ b.kernels, k.Storable kept) : b.toJson.Fits kept 5 := by
  refine .object (by simp) fun m hm => ?_
  fin_cases hm
  · exact Json.Fits.string _
  · exact Json.fits_ofNat hversion 4
  · exact Json.Fits.string _
  · exact Json.fits_array_map fun k hk => Kernel.fits_toJson (hkernels k hk)
  · exact Json.Fits.string _

variable {encoding : Encoding} {source : String} {kernels : List Kernel}

/-- A new bundle is read back from its text. -/
theorem ofText_text (hencoding : encoding.Keeps kept) (h : ∀ k ∈ kernels, k.Storable kept) :
    ofText ((new source kernels encoding).text encoding) encoding =
      .ok (new source kernels encoding) := by
  have hversion : currentVersion < pow2 64 := by decide
  have hfits := (fits_toJson (b := new source kernels encoding) hversion h).mono
    (show 5 ≤ Json.fileDepthLimit by decide)
  -- The text gives the record, the record the bundle, and the bundle passes its own check.
  have hparse := hencoding fieldNames _ hfits fun _ hkey => hkey
  have hrecord : ofJson (new source kernels encoding).toJson = .ok (new source kernels encoding) :=
    ofJson_toJson (show currentVersion < pow2 32 by decide)
  simp only [ofText, text, hparse, hrecord, Except.mapError, verify_new, bind, Except.bind]
  rfl

/-- The text of a bundle is read as the bundle by every encoding that keeps the numbers in it,
and the kernels that were loaded link to the programs of those that were stored. -/
theorem loaded_links_alike (hencoding : encoding.Keeps kept)
    (h : ∀ k ∈ kernels, k.Storable kept) :
    ∃ b, ofText ((new source kernels encoding).text encoding) encoding = .ok b ∧
      b = new source kernels encoding ∧
      ∀ (l : Linker) (entry : String) (target : Target),
        (l.registerAll b.kernels).program entry target =
          (l.registerAll kernels).program entry target := by
  refine ⟨new source kernels encoding, ofText_text hencoding h, rfl, ?_⟩
  intro l entry target
  rfl

/-- A constant that is no number, a variable with a negative zero and a tenth, and a function that
reads both. -/
def tenthKernels : List Kernel :=
  [.constant ⟨"missing", .float, .scalar .nan, ["NAN"]⟩,
    .var ⟨"table", .float, .vector [.zero true, .ofRatio false 1 10, .nan],
      ["-0.0", "0.1", "NAN"]⟩,
    .function
      { name := "f"
        args := [⟨"x", .float, 0, none⟩, ⟨"w", .float, 1, some 3⟩]
        returnType := .float
        deps := ⟨.empty, .ofList ["missing"], .ofList ["table"]⟩
        shader := some ⟨some "float f(float x, float w[3]);", "float f(float x, float w[3]) {}"⟩
        scalar := none }]

theorem loaded_links_alike_tenthKernels :
    Encoding.standard.Keeps (fun x => Json.ReadsBack (.float x)) ∧
      (∀ k ∈ tenthKernels, k.Storable fun x => Json.ReadsBack (.float x)) ∧
      ∃ b, ofText ((new "say \"f\"\n" tenthKernels .standard).text .standard) .standard = .ok b ∧
        b = new "say \"f\"\n" tenthKernels .standard ∧
        ∀ (l : Linker) (entry : String) (target : Target),
          (l.registerAll b.kernels).program entry target =
            (l.registerAll tenthKernels).program entry target := by
  have hstorable : ∀ k ∈ tenthKernels, k.Storable fun x => Json.ReadsBack (.float x) := by
    decide +kernel
  exact ⟨Encoding.standard_keeps, hstorable, loaded_links_alike Encoding.standard_keeps hstorable⟩

end Bundle

end MathKernel
