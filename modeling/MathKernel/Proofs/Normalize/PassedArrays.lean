import MathKernel.Proofs.Normalize.CoefficientArrays
import MathKernel.Proofs.Syntax.Occurrences

/-!
# The arrays that helper calls pass

One table of lengths by name serves all calls in a function: file-level arrays, then the function's
parameters, then the arrays declared by the statements of its body, whatever block they are in. So a
call gets the variant for the array that it passes where the name is clear, and may get one of
another length where a name is declared twice.

## Main definitions

* `boundDecl?` — the declaration that a name is bound to
* `FuncDef.places` — the expressions of a body with the declarations around them
* `SourceUnit.IsClear` — the declarations that the table holds for a name agree with the bound one

## Main results

* `SourceUnit.specializeHelpers_lengths` — each helper call goes to a variant, the one for the array
  that it passes if the name of the array is clear
* `SourceUnit.specializeHelpers_mixes_lengths` — not so in general
-/

namespace MathKernel

/-! ### Rebuilt code and its scopes -/

section Rebuilt

variable (g : Expr → Expr)

/-- Rebuild an occurrence and the declarations around it. -/
def Placed.rebuild : Placed → Placed
  | (ds, .expr e) => (ds.map (Decl.rebuild g), .expr (e.rebuild g))
  | (ds, .jump l) => (ds.map (Decl.rebuild g), .jump l)

namespace Placed

theorem plain_rebuild (es : List Expr) :
    plain (es.map (Expr.rebuild g)) = (plain es).map (rebuild g) := by
  simp [plain, rebuild]

theorem under_rebuild (ds : List Decl) (found : List Placed) :
    under (ds.map (Decl.rebuild g)) (found.map (rebuild g)) = (under ds found).map (rebuild g) := by
  rw [under, under, List.map_map, List.map_map]
  refine List.map_congr_left fun p _ => ?_
  obtain ⟨es, e | l⟩ := p <;> simp [rebuild]

end Placed

open Placed

namespace Decl

theorem occurrences_rebuild (d : Decl) :
    (d.rebuild g).occurrences = d.occurrences.map (Placed.rebuild g) := by
  have hsize : (d.rebuild g).size?.toList = d.size?.toList.map (Expr.rebuild g) := by
    rw [size?_rebuild, Option.toList_map]
  have hinit : (d.rebuild g).init.toList = d.init.toList.map (Expr.rebuild g) := by
    rw [init_rebuild, Option.toList_map]
  rw [occurrences, occurrences, hsize, hinit, plain_rebuild, plain_rebuild, List.map_append,
    ← under_rebuild]
  rfl

theorem occurrencesList_rebuild (ds : List Decl) :
    occurrencesList (ds.map (rebuild g)) = (occurrencesList ds).map (Placed.rebuild g) := by
  induction ds with
  | nil => rfl
  | cons d rest ih =>
    rw [List.map_cons, occurrencesList, occurrencesList, ih, occurrences_rebuild,
      List.map_append, ← under_rebuild]
    rfl

end Decl

namespace Stmt

theorem declared?_rebuild (s : Stmt) :
    (s.rebuild g).declared? = s.declared?.map (Decl.rebuild g) := by
  fun_induction declared? s with
  | case1 => rfl
  | case2 n s c ih => exact ih
  | case3 s hdecl hlabel =>
    cases s with
    | decl d c => exact absurd rfl (hdecl d c)
    | label n s c => exact absurd rfl (hlabel n s c)
    | _ => rfl

/-- The condition of a loop and what follows each round. -/
theorem plain_head_rebuild (cond next : Option Expr) :
    plain ((mapOptionM (m := Id) (Expr.rebuild g) cond).toList ++
        (mapOptionM (m := Id) (Expr.rebuild g) next).toList) =
      (plain (cond.toList ++ next.toList)).map (Placed.rebuild g) := by
  cases cond <;> cases next <;> rfl

mutual

theorem occurrences_rebuild (s : Stmt) :
    (s.rebuild g).occurrences = s.occurrences.map (Placed.rebuild g) := by
  cases s with
  | decl d c => exact d.occurrences_rebuild g
  | block items b c => exact occurrencesList_rebuild items
  | ifThen p t c =>
    rw [occurrences, List.map_append, ← occurrences_rebuild t]
    rfl
  | ifElse p t e c =>
    rw [occurrences, List.map_append, List.map_append, ← occurrences_rebuild t,
      ← occurrences_rebuild e]
    rfl
  | forLoop init cond next body c =>
    have htail := congrArg₂ (· ++ ·) (plain_head_rebuild g cond next) (occurrences_rebuild body)
    simp only [← List.map_append] at htail
    match init with
    | none => exact htail
    | some (.expr e) =>
      rw [occurrences, List.append_assoc, List.map_append, ← htail]
      exact List.append_assoc _ _ _
    | some (.decls ds) =>
      rw [occurrences, List.map_append, ← under_rebuild, ← htail, ← Decl.occurrencesList_rebuild,
        ← Decl.mapExprsListM_rebuild]
      rfl
  | whileLoop p body c | doWhile p body c =>
    rw [occurrences, List.map_append, ← occurrences_rebuild body]
    rfl
  | ret value c => cases value <;> rfl
  | label n s c => exact occurrences_rebuild s
  | expr | brk | cont | goto | empty => rfl

theorem occurrencesList_rebuild (items : List Stmt) :
    occurrencesList (mapExprsListM (m := Id) (Expr.rebuild g) items) =
      (occurrencesList items).map (Placed.rebuild g) := by
  cases items with
  | nil => rfl
  | cons s rest =>
    rw [occurrencesList, List.map_append, ← occurrences_rebuild s, ← under_rebuild,
      ← occurrencesList_rebuild rest, ← Option.toList_map, ← declared?_rebuild]
    rfl

end

end Stmt

end Rebuilt

/-! ### Expressions in their places -/

/-- The declaration that a name is bound to: the last one of the name. -/
def boundDecl? (ds : List Decl) (x : String) : Option Decl :=
  ds.reverse.find? (·.name == some x)

namespace Placed

/-- The expressions of an occurrence, each with the declarations that are in scope. -/
def exprs : Placed → List (List Decl × Expr)
  | (ds, .expr e) => e.subexprs.map (ds, ·)
  | (_, .jump _) => []

/-- The expressions of occurrences without their places. -/
def nodes (found : List Placed) : List Expr :=
  (found.flatMap exprs).map Prod.snd

@[simp] theorem nodes_append (found more : List Placed) :
    nodes (found ++ more) = nodes found ++ nodes more := by
  simp [nodes]

@[simp] theorem nodes_plain (es : List Expr) : nodes (plain es) = es.flatMap Expr.subexprs := by
  induction es with
  | nil => rfl
  | cons e rest ih =>
    change nodes (plain [e] ++ plain rest) = _
    rw [nodes_append, ih, List.flatMap_cons]
    simp [nodes, plain, exprs, Function.comp_def]

@[simp] theorem nodes_under (ds : List Decl) (found : List Placed) :
    nodes (under ds found) = nodes found := by
  rw [nodes, nodes, under, List.flatMap_map, List.map_flatMap, List.map_flatMap]
  refine List.flatMap_congr fun p _ => ?_
  obtain ⟨es, e | l⟩ := p <;> simp [exprs, Function.comp_def]

end Placed

open Placed

theorem Decl.nodes_occurrences (d : Decl) :
    nodes d.occurrences = d.rootExprs.flatMap Expr.subexprs := by
  simp [occurrences, rootExprs]

theorem Decl.nodes_occurrencesList (ds : List Decl) :
    nodes (occurrencesList ds) = (ds.flatMap rootExprs).flatMap Expr.subexprs := by
  induction ds with
  | nil => rfl
  | cons d rest ih => simp [occurrencesList, nodes_occurrences, ih]

namespace Stmt

mutual

theorem nodes_occurrences (s : Stmt) :
    nodes s.occurrences = s.substmts.flatMap fun t => t.ownExprs.flatMap Expr.subexprs := by
  cases s with
  | decl d c => simp [occurrences, substmts, ownExprs, d.nodes_occurrences]
  | block items b c => simp [occurrences, substmts, ownExprs, nodes_occurrencesList items]
  | ifThen p t c => simp [occurrences, substmts, ownExprs, nodes_occurrences t]
  | ifElse p t e c =>
    simp [occurrences, substmts, ownExprs, nodes_occurrences t, nodes_occurrences e]
  | forLoop init cond next body c =>
    match init with
    | none => simp [occurrences, substmts, ownExprs, nodes_occurrences body]
    | some (.expr e) =>
      simp [occurrences, substmts, ownExprs, ForInit.rootExprs, nodes_occurrences body]
    | some (.decls ds) =>
      simp [occurrences, substmts, ownExprs, ForInit.rootExprs, nodes_occurrences body,
        Decl.nodes_occurrencesList]
  | whileLoop p body c | doWhile p body c =>
    simp [occurrences, substmts, ownExprs, nodes_occurrences body]
  | label n s c => simp [occurrences, substmts, ownExprs, nodes_occurrences s]
  | expr | ret => simp [occurrences, substmts, ownExprs]
  | brk | cont | goto | empty => rfl

theorem nodes_occurrencesList (items : List Stmt) :
    nodes (occurrencesList items) =
      (substmtsList items).flatMap fun t => t.ownExprs.flatMap Expr.subexprs := by
  cases items with
  | nil => rfl
  | cons s rest =>
    simp [occurrencesList, substmtsList, nodes_occurrences s, nodes_occurrencesList rest]

end

end Stmt

/-- The expressions of a body, each with the declarations of the body that are in scope. -/
def Block.places (b : Block) : List (List Decl × Expr) :=
  (Stmt.occurrencesList b.items).flatMap Placed.exprs

theorem Block.places_rebuild {g : Expr → Expr} (hg : ∀ e, (g e).parts = e.parts) (b : Block) :
    (b.rebuild g).places =
      b.places.map (Prod.map (List.map (Decl.rebuild g)) (Expr.rebuild g)) := by
  have hitems : Stmt.occurrencesList (b.rebuild g).items = _ :=
    Stmt.occurrencesList_rebuild g b.items
  rw [places, hitems, places, List.flatMap_map, List.map_flatMap]
  refine List.flatMap_congr fun p _ => ?_
  obtain ⟨ds, e | l⟩ := p
  · simp [Placed.rebuild, Placed.exprs, e.subexprs_rebuild hg]
  · rfl

/-- The places are those of all the expressions of a body, in order. -/
theorem Block.map_snd_places (b : Block) : b.places.map Prod.snd = b.exprs :=
  Stmt.nodes_occurrencesList b.items

/-- Functions among the items, each with the declarations that are in scope in its body when the
given ones stand before. -/
def Item.scopedFuncs (before : List Decl) : List Item → List (List Decl × FuncDef)
  | [] => []
  | .decl d :: rest => scopedFuncs (before ++ [d]) rest
  | .func f :: rest => (before ++ [f.decl], f) :: scopedFuncs (before ++ [f.decl]) rest

/-- The functions of a unit, each with the file-level declarations that are in scope in it. -/
def SourceUnit.scopedFuncs (u : SourceUnit) : List (List Decl × FuncDef) :=
  Item.scopedFuncs [] u.items

/-! ### Names that are clear -/

/-- A name is bound to an array that the lengths of a function do not mix up with another, at a
place with the given file-level declarations and the given ones of the function in scope. -/
inductive SourceUnit.IsClear (u : SourceUnit) (f : FuncDef) (outer inner : List Decl) (x : String) :
    Prop
  /-- An array of the function, as long as all the others of the name in it. -/
  | ofFunction {d : Decl} (hbound : boundDecl? inner x = some d) (harray : d ∈ f.arrays)
      (hothers : ∀ d' ∈ f.arrays, d'.name = some x → d'.arrayLen? = d.arrayLen?)
  /-- An array of the file, as long as all the others of the name, which no array of the function
  has. -/
  | ofUnit {d : Decl} (hunbound : boundDecl? inner x = none)
      (hhidden : ∀ d' ∈ f.arrays, d'.name ≠ some x)
      (hbound : boundDecl? outer x = some d) (harray : d ∈ u.arrays)
      (hothers : ∀ d' ∈ u.arrays, d'.name = some x → d'.arrayLen? = d.arrayLen?)

/-- The helper call in the first place, if there is one, has become the call in the second of a
variant, which is the one for the array that it passes if the name of the array is clear. -/
def SourceUnit.PicksLength (f : FuncDef) (outer : List Decl) (clear : List Decl → String → Prop)
    (place place' : List Decl × Expr) : Prop :=
  ∀ helper ∈ arrayHelpers, ∀ args c, place.2 = .call helper args c →
    ∃ x c' n args', args[1]? = some (.id x c') ∧
      place'.2 = .call (variantName helper n) args' c ∧
      (clear (f.params ++ place.1) x →
        ∃ d, boundDecl? (outer ++ f.params ++ place.1) x = some d ∧ d.arrayLen? = some n)

/-! ### Lengths of clear names -/

theorem boundDecl?_append (outer inner : List Decl) (x : String) :
    boundDecl? (outer ++ inner) x = (boundDecl? inner x).or (boundDecl? outer x) := by
  rw [boundDecl?, List.reverse_append, List.find?_append]
  rfl

theorem name_of_boundDecl? {ds : List Decl} {x : String} {d : Decl} (h : boundDecl? ds x = some d) :
    d.name = some x :=
  beq_iff_eq.1 (List.find?_some (p := fun d : Decl => d.name == some x) h)

theorem mem_lengthEntries {ds : List Decl} {x : String} {length : Option Nat} :
    (x, length) ∈ ds.filterMap Decl.namedLength? ↔
      ∃ d ∈ ds, d.name = some x ∧ d.arrayLen? = length := by
  simp [Decl.namedLength?]

/-- An entry that agrees with all entries of its name is the one that counts. -/
theorem lookup_reverse_of_mem {lengths : ArrayLengths} {x : String} {length : Option Nat}
    (h : (x, length) ∈ lengths) (hall : ∀ other, (x, other) ∈ lengths → other = length) :
    lengths.reverse.lookup x = some length := by
  cases hfound : lengths.reverse.lookup x with
  | none =>
    have hne := List.lookup_eq_none_iff.1 hfound _ (List.mem_reverse.2 h)
    simp at hne
  | some other =>
    obtain ⟨before, after, heq, -⟩ := List.lookup_eq_some_iff.1 hfound
    have hmem : (x, other) ∈ lengths := by
      rw [← List.mem_reverse, heq]
      simp
    rw [hall other hmem]

/-- A name without an entry has no length. -/
theorem lookup_reverse_of_notMem {lengths : ArrayLengths} {x : String}
    (h : ∀ length, (x, length) ∉ lengths) : lengths.reverse.lookup x = none := by
  refine List.lookup_eq_none_iff.2 fun entry hentry => bne_iff_ne.2 ?_
  rintro rfl
  exact h entry.2 (List.mem_reverse.1 hentry)

/-- The length that counts for a clear name is that of the bound array. -/
theorem SourceUnit.IsClear.known? {u : SourceUnit} {f : FuncDef} {outer inner : List Decl}
    {x : String} (h : u.IsClear f outer inner x) :
    ∃ d, boundDecl? (outer ++ inner) x = some d ∧
      (u.arrayLengths f).known? x = d.arrayLen? := by
  rw [boundDecl?_append, ArrayLengths.known?, SourceUnit.arrayLengths, List.reverse_append,
    List.lookup_append]
  cases h with
  | @ofFunction d hbound harray hothers =>
    have hlookup : f.localArrays.reverse.lookup x = some d.arrayLen? := by
      refine lookup_reverse_of_mem ?_ fun other hother => ?_
      · exact mem_lengthEntries.2 ⟨d, harray, name_of_boundDecl? hbound, rfl⟩
      · obtain ⟨d', hd', hname, rfl⟩ := mem_lengthEntries.1 hother
        exact hothers d' hd' hname
    exact ⟨d, by rw [hbound]; rfl, by rw [hlookup]; rfl⟩
  | @ofUnit d hunbound hhidden hbound harray hothers =>
    -- No array of the function has the name, so the search reaches those of the unit.
    have hlocal : f.localArrays.reverse.lookup x = none := by
      refine lookup_reverse_of_notMem fun length hlength => ?_
      obtain ⟨d', hd', hname, -⟩ := mem_lengthEntries.1 hlength
      exact hhidden d' hd' hname
    have hglobal : u.globalArrays.reverse.lookup x = some d.arrayLen? := by
      refine lookup_reverse_of_mem ?_ fun other hother => ?_
      · exact mem_lengthEntries.2 ⟨d, harray, name_of_boundDecl? hbound, rfl⟩
      · obtain ⟨d', hd', hname, rfl⟩ := mem_lengthEntries.1 hother
        exact hothers d' hd' hname
    exact ⟨d, by rw [hunbound, hbound]; rfl, by rw [hlocal, hglobal]; rfl⟩

/-! ### Functions before and after -/

theorem Item.map_snd_scopedFuncs (before : List Decl) (items : List Item) (c : Coord) :
    (scopedFuncs before items).map Prod.snd = (SourceUnit.mk items c).funcs := by
  induction items generalizing before with
  | nil => rfl
  | cons item rest ih =>
    cases item with
    | decl d => exact ih _
    | func f => exact congrArg (f :: ·) (ih _)

namespace SourceUnit

variable {u u' : SourceUnit}

/-- A function with its helper calls sent to variants. -/
def specializedFunc (u : SourceUnit) (f : FuncDef) : FuncDef :=
  { f with body := f.body.rebuild (Expr.toVariant (u.arrayLengths f)) }

/-- The functions that are no helpers, in order. -/
theorem funcs_specialized (u : SourceUnit) (before : List Decl) (items : List Item) (c : Coord) :
    (SourceUnit.mk ((items.filter fun item => !item.name?.any arrayHelpers.contains).map
        (Item.specialized u.globalArrays)) c).funcs =
      ((Item.scopedFuncs before items).filter (·.2.name ∉ arrayHelpers)).map
        fun entry => u.specializedFunc entry.2 := by
  induction items generalizing before with
  | nil => rfl
  | cons item rest ih =>
    cases item with
    | decl d =>
      rw [Item.scopedFuncs, ← ih, List.filter_cons]
      split <;> rfl
    | func f =>
      rw [Item.scopedFuncs, List.filter_cons, List.filter_cons, Item.isOther_func]
      by_cases hname : f.name ∈ arrayHelpers
      · rw [if_neg (by simpa using hname), if_neg (by simpa using hname), ih]
      · rw [if_pos (by simpa using hname), if_pos (by simpa using hname), List.map_cons,
          List.map_cons, ← ih (before ++ [f.decl]), Item.specialized, if_neg hname]
        rfl

theorem IsSpecialized.funcs (h : u.IsSpecialized u') :
    u'.funcs = (u.scopedFuncs.filter (·.2.name ∉ arrayHelpers)).map
      fun entry => u.specializedFunc entry.2 := by
  obtain ⟨variants, hitems, -⟩ := h.items
  have hprototypes : (SourceUnit.mk (variants.map fun v => .decl v.prototype) none).funcs = [] :=
    List.filterMap_eq_nil_iff.2 fun item hitem => by
      obtain ⟨v, -, rfl⟩ := List.mem_map.1 hitem
      rfl
  rw [SourceUnit.funcs, hitems, List.filterMap_append]
  exact congrArg₂ (· ++ ·) hprototypes (u.funcs_specialized [] u.items none)

/-- A helper call that passes an array of known length picks that length. -/
theorem picksLength_rebuild (hsized : ¬u.HasUnsizedCall) {f : FuncDef} (hf : f ∈ u.funcs)
    (hname : f.name ∉ arrayHelpers) (outer : List Decl) {place : List Decl × Expr}
    (hplace : place ∈ f.body.places) (ds : List Decl) :
    PicksLength f outer (u.IsClear f outer) place
      (ds, place.2.rebuild (Expr.toVariant (u.arrayLengths f))) := by
  intro helper hhelper args c hcall
  have hbody : place.2 ∈ f.body.exprs := by
    rw [← Block.map_snd_places]
    exact List.mem_map_of_mem hplace
  cases hpassed : Expr.passedLength? (u.arrayLengths f) args with
  | none =>
    refine absurd ⟨f, hf, hname, place.2, hbody, helper, hhelper, args, c, hcall, ?_⟩ hsized
    exact Expr.passedLength?_eq_none.1 hpassed
  | some n =>
    obtain ⟨x, c', harg, hknown⟩ := Expr.passedLength?_eq_some.1 hpassed
    refine ⟨x, c', n, args.map (Expr.rebuild (Expr.toVariant (u.arrayLengths f))), harg, ?_,
      fun hclear => ?_⟩
    · rw [hcall]
      exact Expr.rebuild_helperCall hhelper hpassed
    · obtain ⟨d, hbound, hlength⟩ := hclear.known?
      rw [List.append_assoc]
      exact ⟨d, hbound, hlength.symm.trans (ArrayLengths.known?_eq_some.2 hknown)⟩

/-- Each helper call in a unit goes to a variant, and if the name of the array that it passes is
clear, to the one for the length of this array. -/
theorem specializeHelpers_lengths {tally : Tally} (h : u.specializeHelpers = .ok (u', tally)) :
    List.Forall₂
      (fun (outer, f) f' => f'.decl = f.decl ∧
        List.Forall₂ (PicksLength f outer (u.IsClear f outer)) f.body.places f'.body.places)
      (u.scopedFuncs.filter (·.2.name ∉ arrayHelpers)) u'.funcs := by
  have hsized : ¬u.HasUnsizedCall := fun hunsized => by
    obtain ⟨error, herror⟩ := specializeHelpers_of_unsized hunsized
    rw [herror] at h
    cases h
  obtain ⟨_, _, hresult, hspecialized⟩ := specializeHelpers_of_sized hsized
  rw [h] at hresult
  cases hresult
  rw [hspecialized.funcs, List.forall₂_map_right_iff, List.forall₂_same]
  rintro ⟨outer, f⟩ hentry
  obtain ⟨hmem, hname⟩ := List.mem_filter.1 hentry
  have hf : f ∈ u.funcs := by
    rw [← Item.map_snd_scopedFuncs [] u.items u.coord]
    exact List.mem_map_of_mem hmem
  refine ⟨rfl, ?_⟩
  rw [specializedFunc, Block.places_rebuild Expr.parts_toVariant, List.forall₂_map_right_iff,
    List.forall₂_same]
  exact fun place hplace =>
    picksLength_rebuild hsized hf (of_decide_eq_true hname) outer hplace _

/-- The unit `float A[3]; float f(float x) { { float B[5]; polevlf(x, B, 4); } return
p1evlf(x, A, 3); }`. -/
def nestedArrays : SourceUnit :=
  ⟨[.decl (Decl.ofArray "A" .float (some 3) none),
    .func ⟨Decl.prototype "f" .float [Decl.ofScalar "x" .float none],
      ⟨[.block [.decl (Decl.ofArray "B" .float (some 5) none) none,
          .expr (.call "polevlf" [.id "x" none, .id "B" none, .int 4 none] none) none] none none,
        .ret (some (.call "p1evlf" [.id "x" none, .id "A" none, .int 3 none] none)) none], none⟩,
      none⟩], none⟩

/-- Both names are clear there. -/
theorem specializeHelpers_lengths_nestedArrays :
    ∃ u' tally, nestedArrays.specializeHelpers = .ok (u', tally) ∧
      (∀ f ∈ nestedArrays.funcs, ∀ B ∈ f.body.decls,
        nestedArrays.IsClear f [.ofArray "A" .float (some 3) none, f.decl] (f.params ++ [B]) "B" ∧
        nestedArrays.IsClear f [.ofArray "A" .float (some 3) none, f.decl] f.params "A") ∧
      List.Forall₂
        (fun (outer, f) f' => f'.decl = f.decl ∧
          List.Forall₂ (PicksLength f outer (nestedArrays.IsClear f outer)) f.body.places
            f'.body.places)
        (nestedArrays.scopedFuncs.filter (·.2.name ∉ arrayHelpers)) u'.funcs := by
  refine ⟨_, _, rfl, ?_, specializeHelpers_lengths rfl⟩
  intro f hf B hB
  obtain rfl := List.mem_singleton.1 hf
  obtain rfl := List.mem_singleton.1 hB
  constructor
  · refine .ofFunction rfl (List.mem_singleton_self _) fun d hd _ => ?_
    rw [List.mem_singleton.1 hd]
  · refine .ofUnit rfl (fun d hd => ?_) rfl (List.mem_singleton_self _) fun d hd _ => ?_
    · rw [List.mem_singleton.1 hd]
      decide
    · rw [List.mem_singleton.1 hd]

/-- The unit `float A[3]; float f(float x) { { float A[5]; polevlf(x, A, 4); } return
polevlf(x, A, 2); }`. -/
def twinArrays : SourceUnit :=
  ⟨[.decl (Decl.ofArray "A" .float (some 3) none),
    .func ⟨Decl.prototype "f" .float [Decl.ofScalar "x" .float none],
      ⟨[.block [.decl (Decl.ofArray "A" .float (some 5) none) none,
          .expr (.call "polevlf" [.id "x" none, .id "A" none, .int 4 none] none) none] none none,
        .ret (some (.call "polevlf" [.id "x" none, .id "A" none, .int 2 none] none)) none], none⟩,
      none⟩], none⟩

/-- The length of an array in a block is picked for the array of its name outside the block. -/
theorem specializeHelpers_mixes_lengths :
    ¬ ∀ (u u' : SourceUnit) (tally : Tally), u.specializeHelpers = .ok (u', tally) →
      List.Forall₂
        (fun (outer, f) f' =>
          List.Forall₂ (PicksLength f outer fun _ _ => True) f.body.places f'.body.places)
        (u.scopedFuncs.filter (·.2.name ∉ arrayHelpers)) u'.funcs := by
  intro h
  obtain ⟨hplaces, -⟩ := List.forall₂_cons.1 (h twinArrays _ _ rfl)
  -- The call of the return statement comes after the size, the first call and its arguments.
  obtain ⟨x, c, n, args, harg, hcall, hbound⟩ :=
    hplaces.get (i := 5) (by decide) (by decide) "polevlf" (by decide) _ _ rfl
  obtain ⟨d, hd, hn⟩ := hbound trivial
  cases harg
  cases hd
  cases hn
  have hcallee : some "polevlf_5" = some "polevlf_3" := congrArg Expr.callee? hcall
  exact absurd hcallee (by decide)

end SourceUnit

end MathKernel
