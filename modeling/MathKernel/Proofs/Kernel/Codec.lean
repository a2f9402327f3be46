import Mathlib.Data.List.Nodup
import MathKernel.Kernel.Codec
import MathKernel.Proofs.Data.Json.RoundTrip

/-!
# Kernels are read back from their records

The record of a kernel is read as the kernel: names of members do not repeat, a set of names is
listed in order, an absent array length or prototype has no member, absent code is null, and
not-a-number is null. A record may have further members, as that of a kernel has its kind.

## Main results

* `NameSet.ofList_toList` — a set is the set of its names
* `Json.field_eq`, `Json.items_map` — reading a member and reading a list
* `Kernel.ofJson_toJson` — a kernel is read back from its record
-/

namespace MathKernel

/-! ### Sets of names -/

theorem insertName_of_forall_lt {name : String} {names : List String}
    (h : ∀ x ∈ names, x < name) : insertName name names = names ++ [name] := by
  induction names with
  | nil => rfl
  | cons x rest ih =>
    obtain ⟨hx, hrest⟩ := List.forall_mem_cons.1 h
    have hne : name ≠ x := fun heq => String.lt_irrefl x (heq ▸ hx)
    rw [insertName, if_neg hne, if_neg (String.lt_asymm hx), ih hrest, List.cons_append]

theorem toList_foldl_insert {names : List String} {s : NameSet}
    (h : (s.toList ++ names).Pairwise (· < ·)) :
    (names.foldl NameSet.insert s).toList = s.toList ++ names := by
  induction names generalizing s with
  | nil => simp
  | cons name names ih =>
    -- The next name is greater than all before it.
    have hlast : (s.insert name).toList = s.toList ++ [name] :=
      insertName_of_forall_lt fun x hx =>
        (List.pairwise_append.1 h).2.2 x hx name List.mem_cons_self
    rw [List.foldl_cons, ih, hlast, List.append_assoc]
    · rfl
    · rw [hlast, List.append_assoc]
      exact h

theorem NameSet.ext {s t : NameSet} (h : s.toList = t.toList) : s = t := by
  cases s
  cases t
  cases h
  rfl

/-- A set is the set of its names. -/
theorem NameSet.ofList_toList (s : NameSet) : NameSet.ofList s.toList = s :=
  NameSet.ext (toList_foldl_insert s.increasing)

/-! ### Records -/

namespace Json

theorem filter_eq_nil {members : List (String × Json)} {name : String}
    (h : name ∉ members.map Prod.fst) : members.filter (·.1 == name) = [] := by
  rw [List.filter_eq_nil_iff]
  intro m hm heq
  exact h (List.mem_map.2 ⟨m, hm, beq_iff_eq.1 heq⟩)

/-- Where names do not repeat, a name has one member. -/
theorem filter_eq_singleton {members : List (String × Json)} {name : String} {j : Json}
    (hnodup : (members.map Prod.fst).Nodup) (hmem : (name, j) ∈ members) :
    members.filter (·.1 == name) = [(name, j)] := by
  induction members with
  | nil => cases hmem
  | cons m rest ih =>
    rw [List.map_cons, List.nodup_cons] at hnodup
    rcases List.mem_cons.1 hmem with rfl | hrest
    · rw [List.filter_cons, if_pos (beq_self_eq_true name), filter_eq_nil hnodup.1]
    · have hne : ¬(m.1 == name) = true := by
        intro heq
        exact hnodup.1 (List.mem_map.2 ⟨(name, j), hrest, (beq_iff_eq.1 heq).symm⟩)
      rw [List.filter_cons, if_neg hne, ih hnodup.2 hrest]

section

variable {α : Type} {members : List (String × Json)} {name : String} {j : Json}
  {read : Json → Except RecordError α}

theorem field_eq (hnodup : (members.map Prod.fst).Nodup) (hmem : (name, j) ∈ members) :
    field members name read = read j := by
  simp only [field, field?, filter_eq_singleton hnodup hmem, bind, Except.bind]

theorem optionalField_eq (hnodup : (members.map Prod.fst).Nodup) (hmem : (name, j) ∈ members)
    (hj : j ≠ null) : optionalField members name read = (read j).map some := by
  simp only [optionalField, field?, filter_eq_singleton hnodup hmem, bind, Except.bind]

theorem optionalField_null (hnodup : (members.map Prod.fst).Nodup)
    (hmem : (name, null) ∈ members) : optionalField members name read = .ok none := by
  simp only [optionalField, field?, filter_eq_singleton hnodup hmem, bind, Except.bind]

/-- A list is read item by item. -/
theorem items_map {encode : α → Json} {values : List α}
    (h : ∀ a ∈ values, read (encode a) = .ok a) :
    items read (.array (values.map encode)) = .ok values := by
  change (values.map encode).mapM read = .ok values
  induction values with
  | nil => rfl
  | cons a rest ih =>
    obtain ⟨ha, hrest⟩ := List.forall_mem_cons.1 h
    rw [List.map_cons, List.mapM_cons, ha, ih hrest]
    rfl

end

end Json

/-! ### Parts of kernels -/

theorem Binary64.ofJson?_toJson (x : Binary64) : Binary64.ofJson? x.toJson = some x := by
  cases x <;> rfl

theorem Value.ofJson?_toJson (v : Value Binary64) : Value.ofJson? v.toJson = some v := by
  cases v with
  | scalar x => cases x <;> rfl
  | vector items =>
    have hitems : (items.map Binary64.toJson).mapM Binary64.ofJson? = some items := by
      induction items with
      | nil => rfl
      | cons x rest ih =>
        rw [List.map_cons, List.mapM_cons, Binary64.ofJson?_toJson, ih]
        rfl
    rw [Value.toJson, Value.ofJson?, hitems]
    rfl

theorem ScalarType.ofJson?_cName (t : ScalarType) :
    ScalarType.ofJson? (.string t.cName) = some t := by
  cases t <;> decide

theorem NameSet.ofJson_toList (s : NameSet) : NameSet.ofJson (.ofStrings s.toList) = .ok s := by
  have hnames : Json.items (Json.expect Json.string?) (.array (s.toList.map Json.string)) =
      .ok s.toList := Json.items_map fun _ _ => rfl
  rw [NameSet.ofJson, Json.ofStrings, hnames, Except.map, NameSet.ofList_toList]

theorem Json.expect_nat? (n : Nat) : Json.expect Json.nat? (.number (.int n)) = .ok n := rfl

theorem Json.expect_string? (s : String) : Json.expect Json.string? (.string s) = .ok s := rfl

theorem Json.expect_eq {α : Type} {read : Json → Option α} {j : Json} {a : α}
    (h : read j = some a) : Json.expect read j = .ok a := by
  rw [Json.expect, h]

/-! ### Parameters, dependencies and code -/

theorem KernelArg.ofJson_toJson (a : KernelArg) : KernelArg.ofJson a.toJson = .ok a := by
  obtain ⟨name, type, index, arrayLen⟩ := a
  have htype := Json.expect_eq (ScalarType.ofJson?_cName type)
  cases arrayLen <;>
    simp [KernelArg.toJson, KernelArg.ofJson, Json.presentMember, Json.ofNat, Json.record,
      Json.field, Json.optionalField, Json.field?, bind, Except.bind, pure, Except.pure, Except.map,
      htype, Json.expect_nat?, Json.expect_string?]

theorem Dependencies.ofJson_toJson (d : Dependencies) : Dependencies.ofJson d.toJson = .ok d := by
  simp [Dependencies.toJson, Dependencies.ofJson, Json.record, Json.field, Json.field?, bind,
    Except.bind, pure, Except.pure, NameSet.ofJson_toList]

theorem FunctionCode.ofJson_toJson (c : FunctionCode) : FunctionCode.ofJson c.toJson = .ok c := by
  obtain ⟨prototype, body⟩ := c
  cases prototype <;>
    simp [FunctionCode.toJson, FunctionCode.ofJson, Json.presentMember, Json.record, Json.field,
      Json.optionalField, Json.field?, bind, Except.bind, pure, Except.pure, Except.map,
      Json.expect_string?]

/-! ### Kernels -/

/-- A constant or variable is read from a record that has its members. -/
theorem ValueKernel.ofJson_object {v : ValueKernel} {members : List (String × Json)}
    (hnodup : (members.map Prod.fst).Nodup) (hsub : v.members ⊆ members) :
    ValueKernel.ofJson (.object members) = .ok v := by
  have hname : ("name", Json.string v.name) ∈ members := hsub (by simp [ValueKernel.members])
  have htype : ("ty", Json.string v.type.cName) ∈ members := hsub (by simp [ValueKernel.members])
  have hvalue : ("value", v.value.toJson) ∈ members := hsub (by simp [ValueKernel.members])
  have hliterals : ("literals", Json.ofStrings v.literals) ∈ members :=
    hsub (by simp [ValueKernel.members])
  have hitems : Json.items (Json.expect Json.string?) (.ofStrings v.literals) = .ok v.literals :=
    Json.items_map fun _ _ => rfl
  simp only [ValueKernel.ofJson, Json.record, bind, Except.bind, Json.field_eq hnodup hname,
    Json.field_eq hnodup htype, Json.field_eq hnodup hvalue, Json.field_eq hnodup hliterals,
    Json.expect_eq (ScalarType.ofJson?_cName v.type), Json.expect_eq (Value.ofJson?_toJson v.value),
    hitems]
  rfl

/-- Code that is null is absent. -/
theorem optionalField_code {members : List (String × Json)} {name : String}
    {code : Option FunctionCode} (hnodup : (members.map Prod.fst).Nodup)
    (hmem : (name, (code.map FunctionCode.toJson).getD .null) ∈ members) :
    Json.optionalField members name FunctionCode.ofJson = .ok code := by
  cases code with
  | none => exact Json.optionalField_null hnodup hmem
  | some c =>
    have hnull : (c.toJson : Json) ≠ .null := by simp [FunctionCode.toJson]
    rw [Json.optionalField_eq hnodup hmem hnull]
    change (FunctionCode.ofJson c.toJson).map some = _
    rw [FunctionCode.ofJson_toJson]
    rfl

/-- A function is read from a record that has its members. -/
theorem FunctionKernel.ofJson_object {f : FunctionKernel} {members : List (String × Json)}
    (hnodup : (members.map Prod.fst).Nodup) (hsub : f.members ⊆ members) :
    FunctionKernel.ofJson (.object members) = .ok f := by
  have hname : ("name", Json.string f.name) ∈ members := hsub (by simp [FunctionKernel.members])
  have hargs : ("args", Json.array (f.args.map KernelArg.toJson)) ∈ members :=
    hsub (by simp [FunctionKernel.members])
  have htype : ("return_type", Json.string f.returnType.cName) ∈ members :=
    hsub (by simp [FunctionKernel.members])
  have hdeps : ("deps", f.deps.toJson) ∈ members := hsub (by simp [FunctionKernel.members])
  have hshader : Json.optionalField members "shader" FunctionCode.ofJson = .ok f.shader :=
    optionalField_code hnodup (hsub (by simp [FunctionKernel.members]))
  have hscalar : Json.optionalField members "scalar" FunctionCode.ofJson = .ok f.scalar :=
    optionalField_code hnodup (hsub (by simp [FunctionKernel.members]))
  have hitems : Json.items KernelArg.ofJson (.array (f.args.map KernelArg.toJson)) = .ok f.args :=
    Json.items_map fun a _ => a.ofJson_toJson
  simp only [FunctionKernel.ofJson, Json.record, bind, Except.bind, Json.field_eq hnodup hname,
    Json.field_eq hnodup hargs, Json.field_eq hnodup htype, Json.field_eq hnodup hdeps, hitems,
    Json.expect_eq (ScalarType.ofJson?_cName f.returnType), f.deps.ofJson_toJson, hshader, hscalar]
  rfl

/-- The kind of a kernel says how the other members are read. -/
theorem Kernel.ofJson_object (kind : KernelKind) {members : List (String × Json)}
    (hnodup : (members.map Prod.fst).Nodup) (hmem : ("kind", Json.string kind.name) ∈ members) :
    Kernel.ofJson (.object members) = Kernel.ofKind (.object members) kind := by
  have hkind : Json.expect KernelKind.ofJson? (.string kind.name) = .ok kind := by
    cases kind <;> rfl
  simp only [Kernel.ofJson, Json.field_eq hnodup hmem, hkind, bind, Except.bind]

/-- A kernel is read back from its record. -/
theorem Kernel.ofJson_toJson (k : Kernel) : Kernel.ofJson k.toJson = .ok k := by
  cases k with
  | constant v =>
    have hnodup : ((("kind", Json.string "constant") :: v.members).map Prod.fst).Nodup := by
      simp [ValueKernel.members]
    refine (ofJson_object .constant hnodup List.mem_cons_self).trans ?_
    rw [ofKind, ValueKernel.ofJson_object hnodup (List.subset_cons_self _ _)]
    rfl
  | var v =>
    have hnodup : ((("kind", Json.string "variable") :: v.members).map Prod.fst).Nodup := by
      simp [ValueKernel.members]
    refine (ofJson_object .var hnodup List.mem_cons_self).trans ?_
    rw [ofKind, ValueKernel.ofJson_object hnodup (List.subset_cons_self _ _)]
    rfl
  | function f =>
    have hnodup : ((("kind", Json.string "function") :: f.members).map Prod.fst).Nodup := by
      simp [FunctionKernel.members]
    refine (ofJson_object .function hnodup List.mem_cons_self).trans ?_
    rw [ofKind, FunctionKernel.ofJson_object hnodup (List.subset_cons_self _ _)]
    rfl

end MathKernel
