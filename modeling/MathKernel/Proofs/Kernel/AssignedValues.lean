import MathKernel.Proofs.Normalize.CoercedConstants
import MathKernel.Proofs.Normalize.RenamedGlobals
import MathKernel.Proofs.Normalize.UnrolledUnits

/-!
# Recorded values of constants

The value that is recorded for an initialized variable of a normalized unit is the one that C gives
the variable of the original, read in exact numbers. Folding knows no types, and it sees the unit
only after conversions are written out and static variables are renamed. It gives the right number
for one variable if it gives the right numbers for those before it, which is an induction over the
variables of the original.

## Main definitions

* `Decl.RecordsAs` — what is recorded for a variable that has a value
* `SourceUnit.Records` — what is recorded for the variable of a name

## Main results

* `SourceUnit.records_assigned` — folding a converted unit gives the values of the original
* `SourceUnit.extract_assigned` — so do normalization and extraction
-/

namespace MathKernel

/-! ### Names and types -/

/-- Of variables that have different names, there is one for each name. -/
theorem Decl.eq_of_name_eq {ds : List Decl} (honce : (ds.filterMap Decl.name).Nodup) {d e : Decl}
    (hd : d ∈ ds) (he : e ∈ ds) {x : String} (hdx : d.name = some x) (hex : e.name = some x) :
    d = e := by
  induction ds with
  | nil => cases hd
  | cons first rest ih =>
    have hrest : (rest.filterMap Decl.name).Nodup :=
      ((List.sublist_cons_self first rest).filterMap Decl.name).nodup honce
    have hfirst (hname : first.name = some x) (e : Decl) (he : e ∈ rest) : e.name ≠ some x := by
      rw [List.filterMap_cons_some hname, List.nodup_cons] at honce
      exact fun hex => honce.1 (List.mem_filterMap.2 ⟨e, he, hex⟩)
    rcases List.mem_cons.1 hd with rfl | hdrest <;> rcases List.mem_cons.1 he with rfl | herest
    · rfl
    · exact absurd hex (hfirst hdx e herest)
    · exact absurd hdx (hfirst hex d hdrest)
    · exact ih hrest hdrest herest

/-- A variable has its declared type where functions are defined by declarators of functions. -/
theorem TypeEnv.variableType_ofUnit {w : SourceUnit} (hw : w.DefinesFunctions) {d : Decl}
    (hd : d ∈ w.globals) {y : String} (hname : d.name = some y)
    (honce : ∀ e ∈ w.globals, e.name = some y → e.scalar = d.scalar) :
    (TypeEnv.ofUnit w).variableType y = d.scalar := by
  -- All declarations of the name agree, so it does not matter that the last one counts.
  have hlookup : (TypeEnv.ofUnit w).vars.lookup y = some d.scalar := by
    refine lookup_eq_some_of_forall (List.mem_filterMap.2 ⟨d, ?_, ?_⟩) fun s hs => ?_
    · obtain ⟨hitem, -⟩ := SourceUnit.mem_globals.1 hd
      exact List.mem_reverse.2 (List.mem_map.2 ⟨_, hitem, rfl⟩)
    · rw [(SourceUnit.mem_globals.1 hd).2, hname]
      rfl
    · obtain ⟨e, he, hes⟩ := List.mem_filterMap.1 hs
      obtain ⟨item, hitem, rfl⟩ := List.mem_map.1 (List.mem_reverse.1 he)
      split at hes
      · cases hes
      · next hvariable =>
        obtain ⟨z, hz, hpair⟩ := Option.map_eq_some_iff.1 hes
        cases hpair
        cases item with
        | decl e =>
          exact honce e (SourceUnit.mem_globals.2 ⟨hitem, Bool.eq_false_iff.2 hvariable⟩) hz
        | func f =>
          exact absurd (SourceUnit.definesFunctions_iff.1 hw f (SourceUnit.mem_funcs.2 hitem))
            hvariable
  rw [variableType, hlookup]
  rfl

/-- Constants under new names. -/
def KnownConstants.rename {ν : Type} (f : String → String) (known : KnownConstants ν) :
    KnownConstants ν :=
  known.map fun (x, value) => (f x, value)

theorem KnownConstants.mem_rename {ν : Type} {f : String → String} {known : KnownConstants ν}
    {y : String} {value : Value ν} (h : (y, value) ∈ known.rename f) :
    ∃ x, (x, value) ∈ known ∧ f x = y := by
  obtain ⟨⟨x, value⟩, hx, heq⟩ := List.mem_map.1 h
  cases heq
  exact ⟨x, hx, rfl⟩

/-- A constant is found by its new name if no other constant has that name. -/
theorem KnownConstants.lookup_rename {ν : Type} {f : String → String} {known : KnownConstants ν}
    {x : String} (hinjective : ∀ entry ∈ known, f x = f entry.1 → x = entry.1) :
    (known.rename f).lookup (f x) = known.lookup x := by
  induction known with
  | nil => rfl
  | cons entry rest ih =>
    obtain ⟨hentry, hrest⟩ := List.forall_mem_cons.1 hinjective
    have hsame : (f x == f entry.1) = (x == entry.1) := by
      rw [Bool.eq_iff_iff, beq_iff_eq, beq_iff_eq]
      exact ⟨hentry, congrArg f⟩
    rw [rename, List.map_cons, List.lookup_cons, List.lookup_cons, hsame]
    cases x == entry.1 with
    | true => rfl
    | false => exact ih hrest

/-! ### Records of values -/

/-- What is folded for a variable is what is recorded of its value, which has the type of the
variable. -/
structure Decl.RecordsAs (d : Decl) (value : Value Scalar) (entry : Value (Option ℚ)) : Prop where
  ne_void : d.scalar ≠ .void
  typed : ∀ v ∈ value.numbers, v.type = d.scalar
  number : entry = (d.recordedPart value).map fun v => some v.toRat

namespace SourceUnit

/-- The entries under the new name of a variable are what is recorded of a value that an initializer
gives it. -/
def Records (u : SourceUnit) (rename : String → String) (entries : KnownConstants (Option ℚ))
    (x : String) (value : Value Scalar) : Prop :=
  ∃ d ∈ u.globals, d.name = some x ∧ (∃ values, d.assigned? values = some value) ∧
    ∀ entry, (rename x, entry) ∈ entries → d.RecordsAs value entry

section Records

variable {u w : SourceUnit} {rename : String → String} {vars : List String}
  {entries : KnownConstants (Option ℚ)}
  (honce : (u.globals.filterMap Decl.name).Nodup)
  (hnan : notANumber ∉ u.globals.filterMap Decl.name)
  (hbecome : u.GlobalsBecome rename w)
include honce hbecome

/-- The only declaration of a new name is that of the variable. -/
theorem keepsValue_of_name {d d' : Decl} (hd : d ∈ u.globals) {x : String} (hx : d.name = some x)
    (hd' : d' ∈ w.globals) (hx' : d'.name = some (rename x)) : d.KeepsValue rename d' := by
  have hmem {e : Decl} {y : String} (he : e ∈ u.globals) (hy : e.name = some y) :
      y ∈ u.globals.filterMap Decl.name := List.mem_filterMap.2 ⟨e, he, hy⟩
  obtain ⟨e, he, hkept⟩ := hbecome.origin d' hd' x (hmem hd hx) hx'
  obtain ⟨y, hy, hsame⟩ := Option.map_eq_some_iff.1 (hkept.name.symm.trans hx')
  obtain rfl := hbecome.injective y (hmem he hy) x (hmem hd hx) hsame
  rwa [Decl.eq_of_name_eq honce hd he hx hy]

variable (hdefinitions : w.DefinesFunctions)
  (hint : (TypeEnv.ofUnit w).signature? ScalarType.int.cName = some ⟨.int, .unchecked⟩)
  (hfloat : (TypeEnv.ofUnit w).signature? ScalarType.float.cName = some ⟨.float, .unchecked⟩)
  (hentries : foldDecls exactArithmetic (some 0) vars [] w.coerced.1.globals = some entries)
include hentries

/-- An entry under the new name of a variable is what a declaration of it folds to. -/
theorem exists_foldIn?_of_mem {d : Decl} (hd : d ∈ u.globals) {x : String} (hx : d.name = some x)
    {entry : Value (Option ℚ)} (hentry : (rename x, entry) ∈ entries) :
    ∃ d' ∈ w.globals, d'.name = some (rename x) ∧ d.KeepsValue rename d' ∧
      ∃ before ⊆ entries,
        (d'.coerced (TypeEnv.ofUnit w)).value.foldIn? exactArithmetic (some 0) before =
          some entry := by
  obtain ⟨e, he, -, hname, before, hfold, hbefore⟩ := exists_decl_of_mem_foldDecls hentries hentry
  rw [globals_coerced] at he
  obtain ⟨d', hd', rfl⟩ := List.mem_map.1 he
  exact ⟨d', hd', hname, keepsValue_of_name honce hbecome hd hx hd' hname, before, hbefore, hfold⟩

include hnan hdefinitions hint hfloat in
/-- A variable records the value that C gives it if those before it do. -/
theorem records_of_assigned? {known : KnownConstants Scalar}
    (hknown : ∀ entry ∈ known, u.Records rename entries entry.1 entry.2) {d : Decl}
    (hd : d ∈ u.globals) {x : String} (hx : d.name = some x) {value : Value Scalar}
    (hvalue : d.assigned? (fun y => known.lookup y) = some value) :
    u.Records rename entries x value := by
  refine ⟨d, hd, hx, ⟨_, hvalue⟩, fun entry hentry => ?_⟩
  obtain ⟨d', hd', hname, hkept, before, hbefore, hfold⟩ :=
    exists_foldIn?_of_mem honce hbecome hentries hd hx hentry
  -- The constants are known under their new names.
  have hmem {y : String} {v : Value Scalar} (hy : (y, v) ∈ known) :
      y ∈ u.globals.filterMap Decl.name := by
    obtain ⟨e, he, hey, -⟩ := hknown _ hy
    exact List.mem_filterMap.2 ⟨e, he, hey⟩
  have hrenamed (y : String) (v : Value Scalar) (hy : known.lookup y = some v) :
      (known.rename rename).lookup (rename y) = some v := by
    have hyknown := mem_of_lookup_eq_some hy
    rw [KnownConstants.lookup_rename fun other hother =>
      hbecome.injective y (hmem hyknown) other.1 (hmem hother)]
    exact hy
  have hagree : ConstantsAgree (TypeEnv.ofUnit w) (fun y => (known.rename rename).lookup y)
      before := by
    refine ⟨Option.eq_none_iff_forall_ne_some.2 fun v hv => ?_, fun {y v w'} hv hw' => ?_⟩
    · obtain ⟨y, hy, hsame⟩ := KnownConstants.mem_rename (mem_of_lookup_eq_some hv)
      exact hnan (hbecome.notANumber y hsame ▸ hmem hy)
    · obtain ⟨y, hy, rfl⟩ := KnownConstants.mem_rename (mem_of_lookup_eq_some hv)
      obtain ⟨e, he, hey, -, hrecords⟩ := hknown _ hy
      have hw' := hbefore (mem_of_lookup_eq_some hw')
      obtain ⟨e', he', hey', hkept', -⟩ := exists_foldIn?_of_mem honce hbecome hentries he hey hw'
      have htype : (TypeEnv.ofUnit w).variableType (rename y) = e.scalar := by
        rw [TypeEnv.variableType_ofUnit hdefinitions he' hey' fun other hother hsame => ?_]
        · exact hkept'.scalar
        · have hother := keepsValue_of_name honce hbecome he hey hother hsame
          exact hother.scalar.trans hkept'.scalar.symm
      have hrecorded := hrecords w' hw'
      rw [htype]
      exact ⟨hrecorded.ne_void, hrecorded.typed, _, hrecorded.number⟩
  obtain ⟨hassigned, hlength⟩ : d'.assigned? (fun y => (known.rename rename).lookup y) =
      some value ∧ d'.arrayLen? = d.arrayLen? := hkept.assigned hrenamed hvalue
  obtain ⟨htypes, hnumber⟩ := Decl.foldIn?_coerced hagree hint hfloat hassigned hfold
  rw [hkept.scalar] at htypes
  refine ⟨?_, htypes, ?_⟩
  · intro hvoid
    rw [Decl.assigned?, if_pos hvoid] at hvalue
    cases hvalue
  · rw [hnumber, Decl.recordedPart, hlength]
    rfl

include hnan hdefinitions hint hfloat in
/-- The records are those of the values that C gives the variables. -/
theorem records_assigned {x : String} {value : Value Scalar} (hx : (x, value) ∈ u.assigned) :
    u.Records rename entries x value := by
  -- An induction over the variables, which keeps that all values so far are recorded.
  have hafter : ∀ (ds : List Decl) (known : KnownConstants Scalar), ds ⊆ u.globals →
      (∀ entry ∈ known, u.Records rename entries entry.1 entry.2) →
        ∀ entry ∈ assignedAfter known ds, u.Records rename entries entry.1 entry.2 := by
    intro ds
    induction ds with
    | nil => exact fun known _ hknown => hknown
    | cons d rest ih =>
      intro known hsub hknown
      obtain ⟨hd, hrest⟩ := List.cons_subset.1 hsub
      rw [assignedAfter]
      split
      · next name v hname hv =>
        refine ih _ hrest (List.forall_mem_cons.2 ⟨?_, hknown⟩)
        exact records_of_assigned? honce hnan hbecome hdefinitions hint hfloat hentries hknown hd
          hname hv
      · exact ih known hrest hknown
  exact hafter u.globals [] (List.Subset.refl _) (List.forall_mem_nil _) _ hx

end Records

/-- A conversion to a number has its meaning where no function takes its name. -/
theorem signature?_conversion {w : SourceUnit}
    (h : w.avoids [ScalarType.int.cName, ScalarType.float.cName]) {t : ScalarType}
    (ht : t = .int ∨ t = .float) :
    (TypeEnv.ofUnit w).signature? t.cName = some ⟨t, .unchecked⟩ := by
  rw [← typeEnv_context, Context.signature?_typeEnv]
  rcases ht with rfl | rfl
  · rw [signature?_context h (by simp)]
    decide
  · rw [signature?_context h (by simp)]
    decide

/-- Extraction folds the variables of a normalized unit to the values that C gives them. What
kernels record is folded in 64 bits; in exact numbers the same folding gives, for each variable
with a constant initializer and under its new name, its value by the rules of C. Of an array whose
size is no literal it gives the items that have initializers. Every such variable has an entry,
unless it is external or normalization takes its name for that of a routine. -/
theorem extract_assigned {u t : SourceUnit} {base : String} {capacity : Nat} {report : Report}
    {config : ExtractConfig} {kernels : List Kernel}
    (honce : (u.globals.filterMap Decl.name).Nodup)
    (hnan : notANumber ∉ u.globals.filterMap Decl.name)
    (hdefinitions : ∀ f ∈ u.funcs, f.decl.isFunction = true)
    (hnames : u.avoids [ScalarType.int.cName, ScalarType.float.cName])
    (h : normalize { baseName := base, capacity } u = .ok (t, report))
    (hkernels : t.extract config = .ok kernels) :
    ∃ recorded exact,
      t.foldedIn Binary64.arithmetic (.zero false) config.vars = some recorded ∧
      (recordedValues kernels).Sublist recorded ∧
      (config.exports = none → recordedValues kernels = recorded) ∧
      t.foldedIn exactArithmetic (some 0) config.vars = some exact ∧
      List.Forall₂ SameShape recorded exact ∧
      ∀ d ∈ u.globals, ∀ x value, d.name = some x → (x, value) ∈ u.assigned →
        (∀ entry, ((u.fileRenames base).image x, entry) ∈ exact →
          entry = (d.recordedPart value).map fun v => some v.toRat) ∧
        (d.hasLiteralSize → d.recordedPart value = value) ∧
        (d.isExternal = false → x ≠ errorRoutine →
          (u.fileRenames base).image x ∉ arrayHelpers →
            ∃ entry, ((u.fileRenames base).image x, entry) ∈ exact) := by
  have hdefinitions : u.DefinesFunctions := definesFunctions_iff.2 hdefinitions
  obtain ⟨recorded, hrecorded, hsub, hall⟩ := foldedIn_extract hkernels
  obtain ⟨exact, hexact, hshapes⟩ : ∃ exact,
      t.foldedIn exactArithmetic (some 0) config.vars = some exact ∧
        List.Forall₂ SameShape recorded exact :=
    exists_foldedIn (fun literal hliteral => by
      obtain ⟨x, hx⟩ := Option.isSome_iff_exists.1 hliteral
      have hx : literal.floatValue? = some x := hx
      simp [exactArithmetic, hx]) hrecorded
  refine ⟨recorded, exact, hrecorded, hsub, hall, hexact, hshapes,
    fun d hd x value hx hvalue => ?_⟩
  obtain ⟨w, rfl, hbecome⟩ := exists_coerced_of_normalize honce hdefinitions h
  -- The unit before the last pass has the same functions.
  have hw : w.DefinesFunctions :=
    (normalize_definesFunctions hdefinitions h).of_heads w.heads_coerced.symm
  have havoids : w.avoids [ScalarType.int.cName, ScalarType.float.cName] := by
    have ht := normalize_avoids (by decide) (by decide) hnames h
    rw [avoids_iff, heads_coerced] at ht
    exact avoids_iff.2 ht
  have hint := signature?_conversion havoids (.inl rfl)
  have hfloat := signature?_conversion havoids (.inr rfl)
  obtain ⟨e, he, hex, ⟨values, hassigned⟩, hrecords⟩ :=
    records_assigned honce hnan hbecome hw hint hfloat hexact hvalue
  obtain rfl := Decl.eq_of_name_eq honce hd he hx hex
  refine ⟨fun entry hentry => (hrecords entry hentry).number,
    Decl.recordedPart_eq_self hassigned, fun hexternal herror hhelper => ?_⟩
  obtain ⟨d', hd', hkept⟩ := hbecome.kept d hd fun y hy => by
    obtain rfl := Option.some.inj (hx.symm.trans hy)
    exact ⟨herror, hhelper⟩
  have hd' : (d'.coerced (TypeEnv.ofUnit w)).value ∈ w.coerced.1.globals := by
    rw [globals_coerced]
    exact List.mem_map_of_mem hd'
  have hname : d'.name = some ((u.fileRenames base).image x) := by
    rw [hkept.name, hx]
    rfl
  exact exists_mem_foldDecls hexact hd' (hkept.isExternal.trans hexternal) hname

end SourceUnit

/-! ### Examples -/

/-- The numbers that kernels record under their names. -/
def recordedNumbers (kernels : List Kernel) : List (String × List (Option ℚ)) :=
  (recordedValues kernels).map fun (name, value) => (name, value.numbers.map Binary64.toRat?)

/-- The array `int weights[4] = {n, 2.9, (int) 3.7 * 2};`. -/
def scaledWeights : Decl :=
  let double (e : Expr) : Expr := .binary .mul e (.int 2 none) none
  .ofArray "weights" .int (some 4) (some (.initList
    [.id "n" none, .float "2.9" none, double (.cast .int (.float "3.7" none) none)] none))

/-- The array after `static int n = 7 / 2; float half = 1 / 2 + 0.5;` and before
`static float scale = weights[1] / 4 + (float) n / 2;`. -/
def scaledUnit : SourceUnit :=
  let quotient (e : Expr) (k : Nat) : Expr := .binary .div e (.int k none) none
  let item : Expr := .index (.id "weights" none) (.int 1 none) none
  let static (d : Decl) : Item := .decl { d with storage := [.static] }
  ⟨[static (.ofScalar "n" .int (some (quotient (.int 7 none) 2))),
    .decl (.ofScalar "half" .float (some (.binary .add (quotient (.int 1 none) 2)
      (.float "0.5" none) none))),
    .decl scaledWeights,
    static (.ofScalar "scale" .float (some (.binary .add (quotient item 4)
      (quotient (.cast .float (.id "n" none) none) 2) none)))], none⟩

theorem extract_assigned_scaledUnit :
    scaledUnit.assigned = [("scale", .scalar (.float (3 / 2))),
      ("weights", .vector [.int 3, .int 2, .int 6, .int 0]), ("half", .scalar (.float (1 / 2))),
      ("n", .scalar (.int 3))] ∧
    ∃ t report kernels exact,
      normalize { baseName := "unit", capacity := 6 } scaledUnit = .ok (t, report) ∧
      t.extract {} = .ok kernels ∧
      recordedNumbers kernels = [("unit_n", [some 3]), ("half", [some (1 / 2)]),
        ("weights", [some 3, some 2, some 6, some 0]), ("unit_scale", [some (3 / 2)])] ∧
      t.foldedIn exactArithmetic (some 0) ["sgngamf"] = some exact ∧
      ("weights", .vector [some 3, some 2, some 6, some 0]) ∈ exact := by
  have hassigned : scaledUnit.assigned = [("scale", .scalar (.float (3 / 2))),
      ("weights", .vector [.int 3, .int 2, .int 6, .int 0]), ("half", .scalar (.float (1 / 2))),
      ("n", .scalar (.int 3))] := by decide +kernel
  have hok : ((normalize { baseName := "unit", capacity := 6 } scaledUnit).toOption.bind fun run =>
      (run.1.extract {}).toOption.map recordedNumbers) =
      some [("unit_n", [some 3]), ("half", [some (1 / 2)]),
        ("weights", [some 3, some 2, some 6, some 0]), ("unit_scale", [some (3 / 2)])] := by
    decide +kernel
  obtain ⟨⟨t, report⟩, hrun, hextract⟩ := Option.bind_eq_some_iff.1 hok
  obtain ⟨kernels, hkernels, hnumbers⟩ := Option.map_eq_some_iff.1 hextract
  have hrun := Except.eq_ok_of_toOption hrun
  have hkernels := Except.eq_ok_of_toOption hkernels
  obtain ⟨-, exact, -, -, -, hexact, -, hvalues⟩ :=
    SourceUnit.extract_assigned (by decide) (by decide) (by decide) (by decide) hrun hkernels
  have hmem : scaledWeights ∈ scaledUnit.globals :=
    SourceUnit.mem_globals.2 ⟨by simp [scaledUnit], rfl⟩
  obtain ⟨hentries, -, hexists⟩ := hvalues scaledWeights hmem "weights" _ rfl
    (by rw [hassigned]; exact .tail _ (.head _))
  have hname : (scaledUnit.fileRenames "unit").image "weights" = "weights" := by decide +kernel
  rw [hname] at hentries hexists
  obtain ⟨entry, hentry⟩ := hexists (by decide) (by decide) (by decide)
  obtain rfl : entry = .vector [some 3, some 2, some 6, some 0] := hentries entry hentry
  exact ⟨hassigned, t, report, kernels, exact, hrun, hkernels, hnumbers, hexact, hentry⟩

/-- The unit `float a[1 + 1] = {1.0};`. -/
def computedLength : SourceUnit :=
  let size : Expr := .binary .add (.int 1 none) (.int 1 none) none
  let array := Decl.ofArray "a" .float none (some (.initList [.float "1.0" none] none))
  ⟨[.decl { array with
    type := .array (.element (.ofScalar (some "a") .float)) (some size) none }], none⟩

/-- The unit `int float(int n); float x = (float) 1 / 2;`. -/
def takenConversion : SourceUnit :=
  let half : Expr := .binary .div (.cast .float (.int 1 none) none) (.int 2 none) none
  ⟨[.decl (.prototype "float" .int [.ofScalar "n" .int none]),
    .decl (.ofScalar "x" .float (some half))], none⟩

/-- The unit `extern int limit = 3; int mtherr = 1; int polevlf = 2;`. -/
def unrecordedUnit : SourceUnit :=
  ⟨[.decl { Decl.ofScalar "limit" .int (some (.int 3 none)) with storage := [.external] },
    .decl (.ofScalar "mtherr" .int (some (.int 1 none))),
    .decl (.ofScalar "polevlf" .int (some (.int 2 none)))], none⟩

/-- The last item of the array is missing, the cast has become the call of a function, and external
variables and those with the names of removed routines are not recorded. -/
theorem extract_unassigned :
    (∃ t report kernels,
      normalize { baseName := "unit", capacity := 6 } computedLength = .ok (t, report) ∧
      t.extract {} = .ok kernels ∧
      computedLength.assigned = [("a", .vector [.float 1, .float 0])] ∧
      recordedNumbers kernels = [("a", [some 1])]) ∧
    (∃ t report kernels,
      normalize { baseName := "unit", capacity := 6 } takenConversion = .ok (t, report) ∧
      t.extract {} = .ok kernels ∧
      takenConversion.assigned = [("x", .scalar (.float (1 / 2)))] ∧
      recordedNumbers kernels = [("x", [some 0])]) ∧
    ∃ t report kernels,
      normalize { baseName := "unit", capacity := 6 } unrecordedUnit = .ok (t, report) ∧
      t.extract {} = .ok kernels ∧
      unrecordedUnit.assigned = [("polevlf", .scalar (.int 2)), ("mtherr", .scalar (.int 1)),
        ("limit", .scalar (.int 3))] ∧
      recordedNumbers kernels = [] := by
  have hrecorded {u : SourceUnit} {numbers : List (String × List (Option ℚ))}
      {values : KnownConstants Scalar} (hvalues : u.assigned = values)
      (hok : ((normalize { baseName := "unit", capacity := 6 } u).toOption.bind fun run =>
        (run.1.extract {}).toOption.map recordedNumbers) = some numbers) :
      ∃ t report kernels, normalize { baseName := "unit", capacity := 6 } u = .ok (t, report) ∧
        t.extract {} = .ok kernels ∧ u.assigned = values ∧
        recordedNumbers kernels = numbers := by
    obtain ⟨⟨t, report⟩, hrun, hextract⟩ := Option.bind_eq_some_iff.1 hok
    obtain ⟨kernels, hkernels, hnumbers⟩ := Option.map_eq_some_iff.1 hextract
    exact ⟨t, report, kernels, Except.eq_ok_of_toOption hrun, Except.eq_ok_of_toOption hkernels,
      hvalues, hnumbers⟩
  refine ⟨hrecorded ?_ ?_, hrecorded ?_ ?_, hrecorded ?_ ?_⟩ <;> decide +kernel

end MathKernel
