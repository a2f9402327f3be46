/-!
# Finite maps from names

A map is held as its entries in increasing order of names, so listing a map lists it in order.

## Main definitions

* `NameMap`, `NameMap.insert`, `NameMap.get?`, `NameMap.keys`.

## Main results

* `NameMap.contains_iff_mem_keys`: a map has values under its names.
* `NameMap.get?_insert`: a map holds what was inserted last under a name.
-/

namespace MathKernel

variable {α : Type}

/-- Put an entry in its place in an increasing list, over one of the same name. -/
def insertEntry (name : String) (value : α) : List (String × α) → List (String × α)
  | [] => [(name, value)]
  | (k, v) :: rest =>
    if name = k then (name, value) :: rest
    else if name < k then (name, value) :: (k, v) :: rest
    else (k, v) :: insertEntry name value rest

theorem mem_keys_insertEntry {name x : String} {value : α} {entries : List (String × α)} :
    x ∈ (insertEntry name value entries).map Prod.fst ↔
      x = name ∨ x ∈ entries.map Prod.fst := by
  induction entries with
  | nil => simp [insertEntry]
  | cons entry rest ih =>
    obtain ⟨k, v⟩ := entry
    unfold insertEntry
    split
    · subst name
      simp
    · split
      · simp
      · simp only [List.map_cons, List.mem_cons, ih]
        grind

theorem insertEntry_increasing {name : String} {value : α} {entries : List (String × α)}
    (h : (entries.map Prod.fst).Pairwise (· < ·)) :
    ((insertEntry name value entries).map Prod.fst).Pairwise (· < ·) := by
  induction entries with
  | nil => simp [insertEntry]
  | cons entry rest ih =>
    obtain ⟨k, v⟩ := entry
    have hk := List.pairwise_cons.1 h
    unfold insertEntry
    split
    · subst name
      exact h
    · split
      · refine List.pairwise_cons.2 ⟨fun x hx => ?_, h⟩
        rcases List.mem_cons.1 hx with rfl | hx
        · assumption
        · exact String.lt_trans ‹_› (hk.1 x hx)
      · refine List.pairwise_cons.2 ⟨fun x hx => ?_, ih hk.2⟩
        rcases mem_keys_insertEntry.1 hx with rfl | hx
        · grind
        · exact hk.1 x hx

theorem lookup_insertEntry {name x : String} {value : α} {entries : List (String × α)} :
    (insertEntry name value entries).lookup x =
      if x = name then some value else entries.lookup x := by
  induction entries with
  | nil =>
    simp only [insertEntry, List.lookup_cons, List.lookup_nil]
    grind
  | cons entry rest ih =>
    obtain ⟨k, v⟩ := entry
    unfold insertEntry
    split
    · subst name
      simp only [List.lookup_cons]
      grind
    · split
      · simp only [List.lookup_cons]
        grind
      · simp only [List.lookup_cons, ih]
        grind

/-- A map from names. -/
structure NameMap (α : Type) where
  entries : List (String × α)
  increasing : (entries.map Prod.fst).Pairwise (· < ·)

namespace NameMap

/-- The map without entries. -/
def empty : NameMap α := ⟨[], .nil⟩

/-- Enter a value under a name, over one that was there. -/
def insert (m : NameMap α) (name : String) (value : α) : NameMap α :=
  ⟨insertEntry name value m.entries, insertEntry_increasing m.increasing⟩

/-- The map of a list of entries; the last of a name counts. -/
def ofList (entries : List (String × α)) : NameMap α :=
  entries.foldl (fun m (name, value) => m.insert name value) empty

/-- The value under a name. -/
def get? (m : NameMap α) (name : String) : Option α :=
  m.entries.lookup name

/-- Whether there is a value under a name. -/
def contains (m : NameMap α) (name : String) : Bool :=
  (m.get? name).isSome

/-- The names in order. -/
def keys (m : NameMap α) : List String :=
  m.entries.map Prod.fst

/-- The number of entries. -/
def size (m : NameMap α) : Nat :=
  m.entries.length

@[simp]
theorem get?_empty (name : String) : (empty : NameMap α).get? name = none := rfl

theorem contains_iff_mem_keys {m : NameMap α} {name : String} :
    m.contains name ↔ name ∈ m.keys := by
  simp only [contains, get?, List.lookup_isSome_iff, keys, List.mem_map]
  grind

theorem get?_insert {m : NameMap α} {name x : String} {value : α} :
    (m.insert name value).get? x = if x = name then some value else m.get? x :=
  lookup_insertEntry

end NameMap

end MathKernel
