/-!
# Finite sets of names

A set is held as its strictly increasing list, so equal sets are equal values and listing a set
lists it in order.

## Main definitions

* `NameSet`, `NameSet.insert`, `NameSet.ofList`, `NameSet.contains`.

## Main results

* `NameSet.mem_toList_insert`, `NameSet.mem_toList_ofList`: what a set holds.
-/

namespace MathKernel

/-- Put a name in its place in an increasing list, unless it is there. -/
def insertName (name : String) : List String → List String
  | [] => [name]
  | x :: rest =>
    if name = x then x :: rest
    else if name < x then name :: x :: rest
    else x :: insertName name rest

theorem mem_insertName {name x : String} {names : List String} :
    x ∈ insertName name names ↔ x = name ∨ x ∈ names := by
  induction names with
  | nil => simp [insertName]
  | cons y rest ih =>
    unfold insertName
    split
    · simp_all
    · split
      · simp
      · simp only [List.mem_cons, ih]
        grind

theorem insertName_increasing {name : String} {names : List String}
    (h : names.Pairwise (· < ·)) : (insertName name names).Pairwise (· < ·) := by
  induction names with
  | nil => simp [insertName]
  | cons y rest ih =>
    have hy := List.pairwise_cons.1 h
    unfold insertName
    split
    · exact h
    · split
      · refine List.pairwise_cons.2 ⟨fun x hx => ?_, h⟩
        rcases List.mem_cons.1 hx with rfl | hx
        · assumption
        · exact String.lt_trans ‹_› (hy.1 x hx)
      · refine List.pairwise_cons.2 ⟨fun x hx => ?_, ih hy.2⟩
        rcases mem_insertName.1 hx with rfl | hx
        · grind
        · exact hy.1 x hx

theorem nil_increasing : ([] : List String).Pairwise (· < ·) :=
  .nil

/-- A set of names. -/
structure NameSet where
  toList : List String
  increasing : toList.Pairwise (· < ·)
  deriving DecidableEq, Repr

namespace NameSet

/-- The set without names. -/
def empty : NameSet := ⟨[], nil_increasing⟩

/-- Add a name. -/
def insert (s : NameSet) (name : String) : NameSet :=
  ⟨insertName name s.toList, insertName_increasing s.increasing⟩

/-- The set of the names in a list. -/
def ofList (names : List String) : NameSet :=
  names.foldl insert empty

/-- Whether a name is in the set. -/
def contains (s : NameSet) (name : String) : Bool :=
  s.toList.contains name

/-- The number of names. -/
def size (s : NameSet) : Nat :=
  s.toList.length

@[simp]
theorem mem_toList_insert {s : NameSet} {name x : String} :
    x ∈ (s.insert name).toList ↔ x = name ∨ x ∈ s.toList :=
  mem_insertName

theorem mem_toList_foldl_insert {names : List String} {s : NameSet} {x : String} :
    x ∈ (names.foldl insert s).toList ↔ x ∈ names ∨ x ∈ s.toList := by
  induction names generalizing s with
  | nil => simp
  | cons y rest ih =>
    simp only [List.foldl_cons, ih, mem_toList_insert, List.mem_cons]
    grind

@[simp]
theorem mem_toList_ofList {names : List String} {x : String} :
    x ∈ (ofList names).toList ↔ x ∈ names := by
  simp [ofList, mem_toList_foldl_insert, empty]

end NameSet

end MathKernel
