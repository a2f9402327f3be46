import MathKernel.Proofs.Link.Program
import MathKernel.Proofs.Normalize.Recursion

/-!
# Uniforms of a program

A program in GLSL ES 1.00 declares some of its constants and variables as uniforms, and their
values are given apart from the text. The text and the values come from one resolution, which
lists no name twice, so the uniforms that are declared are those that have values.

## Main definitions

* `Linker.declaredLines` — the names of a program with the lines that declare them
* `IsUniformLine`, `uniformLine` — the lines that declare uniforms

## Main results

* `Linker.resolve_nodup` — no name is resolved twice as a constant or variable
* `ValueKernel.declaration_of_isRuntimeUniform` — the line of a uniform has the form of its value
* `Linker.runtimeUniforms_declared` — the uniforms of a text and the values beside it
-/

namespace MathKernel

/-! ### Maps of lists -/

namespace NameMap

variable {α : Type} {entries : List (String × α)} {name : String} {value : α}

/-- Entering the items of a list without repetition leaves what was under other names. -/
theorem get?_foldl_insert (h : (entries.map Prod.fst).Nodup) (m : NameMap α) :
    (entries.foldl (fun m (name, value) => m.insert name value) m).get? name = some value ↔
      (name, value) ∈ entries ∨ name ∉ entries.map Prod.fst ∧ m.get? name = some value := by
  induction entries generalizing m with
  | nil => simp
  | cons entry rest ih =>
    obtain ⟨k, v⟩ := entry
    obtain ⟨hk, hrest⟩ := List.nodup_cons.1 h
    rw [List.foldl_cons, ih hrest, get?_insert, List.map_cons, List.mem_cons, List.mem_cons,
      Prod.mk.injEq]
    by_cases hname : name = k
    · subst hname
      have hout : ¬ (name, value) ∈ rest := fun hmem => hk (List.mem_map.2 ⟨_, hmem, rfl⟩)
      simp [hk, hout, eq_comm]
    · simp [hname]

theorem get?_ofList (h : (entries.map Prod.fst).Nodup) :
    (ofList entries).get? name = some value ↔ (name, value) ∈ entries := by
  rw [ofList, get?_foldl_insert h]
  simp

end NameMap

/-! ### Lines of declarations -/

/-- The line begins with the word for uniforms. -/
def IsUniformLine (line : String) : Prop :=
  ∃ rest, line = "uniform " ++ rest

/-- The brackets with the length of an array; nothing for a single number. -/
def lengthText : Option Nat → String
  | none => ""
  | some n => "[" ++ toString n ++ "]"

theorem lengthText_injective : Function.Injective lengthText := by
  intro len len' h
  cases len with
  | none =>
    cases len' with
    | none => rfl
    | some n => simpa [lengthText] using congrArg String.toList h
  | some n =>
    cases len' with
    | none => simpa [lengthText] using congrArg String.toList h
    | some m =>
      have hdigits := (String.append_right_inj _).1 ((String.append_left_inj _).1 h)
      rw [toString_nat_injective hdigits]

/-- The declaration of a uniform: of one number, or of an array of the given length. -/
def uniformLine (type : ScalarType) (name : String) (len : Option Nat) : String :=
  "uniform " ++ type.cName ++ " " ++ name ++ lengthText len ++ ";"

theorem isUniformLine_uniformLine (type : ScalarType) (name : String) (len : Option Nat) :
    IsUniformLine (uniformLine type name len) :=
  ⟨type.cName ++ " " ++ name ++ lengthText len ++ ";", by
    simp only [uniformLine, String.append_assoc]⟩

/-- No type's name is the beginning of another's. -/
theorem ScalarType.cName_append_inj {s t : ScalarType} {rest rest' : String}
    (h : s.cName ++ rest = t.cName ++ rest') : s = t ∧ rest = rest' := by
  have heq : s = t := by
    have hchars := congrArg String.toList h
    simp only [String.toList_append] at hchars
    cases s <;> cases t <;> first | rfl | exact absurd hchars (by simp [cName])
  subst heq
  exact ⟨rfl, (String.append_right_inj _).1 h⟩

/-- The line for a name says whether it is an array, and of which length. -/
theorem uniformLine_inj {type type' : ScalarType} {name : String} {len len' : Option Nat}
    (h : uniformLine type name len = uniformLine type' name len') : len = len' := by
  have hhead := (String.append_left_inj _).1 h
  simp only [String.append_assoc] at hhead
  obtain ⟨-, htail⟩ := ScalarType.cName_append_inj ((String.append_right_inj _).1 hhead)
  exact lengthText_injective ((String.append_right_inj _).1 ((String.append_right_inj _).1 htail))

namespace ValueKernel

variable {k : ValueKernel} {target : Target} {constant : Bool}

theorem sizeText_eq (k : ValueKernel) : k.sizeText = lengthText k.value.arrayLen? := by
  rw [sizeText]
  cases k.value.arrayLen? <;> rfl

/-- A uniform is declared by the form of its value. -/
theorem declaration_of_isRuntimeUniform (h : k.isRuntimeUniform target) :
    k.declaration target constant = uniformLine k.type k.name k.value.arrayLen? := by
  rw [declaration, if_pos h, sizeText_eq]
  rfl

/-- Only uniforms are declared as such. -/
theorem isUniformLine_declaration :
    IsUniformLine (k.declaration target constant) ↔ k.isRuntimeUniform target := by
  constructor
  · rintro ⟨rest, hline⟩
    by_contra hnot
    rw [declaration, if_neg hnot] at hline
    -- The first letter of any other declaration is that of a type or of another word.
    cases hfamily : target.family with
    | shader =>
      simp only [hfamily] at hline
      have hchars := congrArg String.toList hline
      cases constant <;> cases htype : k.type <;>
        simp [String.toList_append, htype, ScalarType.cName] at hchars
    | scalar =>
      simp only [hfamily] at hline
      have hchars := congrArg String.toList hline
      cases constant <;> simp [String.toList_append] at hchars
  · intro h
    rw [declaration_of_isRuntimeUniform h]
    exact isUniformLine_uniformLine _ _ _

/-- A value that is declared as a uniform has the declared length. -/
theorem arrayLen?_of_uniformLine {type : ScalarType} {len : Option Nat}
    (h : k.declaration target constant = uniformLine type k.name len) :
    k.isRuntimeUniform target ∧ k.value.arrayLen? = len := by
  have huniform : k.isRuntimeUniform target :=
    isUniformLine_declaration.1 (h ▸ isUniformLine_uniformLine type k.name len)
  rw [declaration_of_isRuntimeUniform huniform] at h
  exact ⟨huniform, uniformLine_inj h⟩

/-- A uniform of one number is not-a-number. -/
theorem value_eq_nan (h : k.isRuntimeUniform target) (hlen : k.value.arrayLen? = none) :
    k.value = .scalar .nan := by
  simp only [isRuntimeUniform, Bool.and_eq_true] at h
  cases hvalue : k.value with
  | scalar x =>
    rw [hvalue] at h
    cases x with
    | nan => rfl
    | infinity | finite => cases h.2
  | vector items => rw [hvalue] at hlen; cases hlen

end ValueKernel

/-- The uniforms that lines declare, each with its name, are those that have values. -/
structure BindsUniforms (lines : List (String × String)) (uniforms : NameMap (List Binary64)) :
    Prop where
  /-- No name is declared twice. -/
  nodup : (lines.map Prod.fst).Nodup
  mem_keys : ∀ name, name ∈ uniforms.keys ↔ ∃ line, (name, line) ∈ lines ∧ IsUniformLine line
  /-- A uniform is one number or an array. -/
  form : ∀ name line, (name, line) ∈ lines → IsUniformLine line →
    ∃ type len, line = uniformLine type name len
  array : ∀ name type n, (name, uniformLine type name (some n)) ∈ lines →
    ∃ values, uniforms.get? name = some values ∧ values.length = n
  number : ∀ name type, (name, uniformLine type name none) ∈ lines →
    uniforms.get? name = some [.nan]

/-! ### What a program declares -/

namespace Linker

variable {l : Linker} {r : Resolution} {entry : String} {target : Target}

/-- The name of each resolved constant and variable with the line that declares it. -/
def declaredLines (l : Linker) (r : Resolution) (target : Target) : List (String × String) :=
  (r.constants.filterMap l.constant?).map (fun k => (k.name, k.declaration target true)) ++
    (r.vars.filterMap l.var?).map (fun k => (k.name, k.declaration target false))

theorem snd_declaredLines (l : Linker) (r : Resolution) (target : Target) :
    (l.declaredLines r target).map Prod.snd = l.declarations r target := by
  simp [declaredLines, declarations, Function.comp_def]

theorem fst_declaredLines (l : Linker) (r : Resolution) (target : Target) :
    (l.declaredLines r target).map Prod.fst = l.declaredNames r := by
  simp [declaredLines, declaredNames, resolvedValues, Function.comp_def]

/-- No name is resolved twice as a constant or variable, and each that is resolved was met. -/
structure Progress.ListsOnce (p : Progress) : Prop where
  nodup : (p.found.constants ++ p.found.vars).Nodup
  subset_seen : p.found.constants ++ p.found.vars ⊆ p.seen

/-- A visit lists only what was not met before. -/
theorem Progress.ListsOnce.visit {p : Progress} (hp : p.ListsOnce) (name : String)
    (f : FunctionKernel) : (Progress.visit p name f).ListsOnce := by
  let functions := f.deps.functions.toList.filter (!p.seen.contains ·)
  let constants := f.deps.constants.toList.filter (!(p.seen ++ functions).contains ·)
  let vars := f.deps.vars.toList.filter (!(p.seen ++ functions ++ constants).contains ·)
  have hconstants : ∀ x ∈ constants, x ∉ p.seen := fun x hx hseen => by
    simpa [hseen] using (List.mem_filter.1 hx).2
  have hvars : ∀ x ∈ vars, x ∉ p.seen ∧ x ∉ constants := fun x hx => by
    have hnew : x ∉ p.seen ++ functions ++ constants := by simpa using (List.mem_filter.1 hx).2
    simp only [List.mem_append, not_or] at hnew
    exact ⟨hnew.1.1, hnew.2⟩
  have hadded : (constants ++ vars).Nodup :=
    ((f.deps.nodup_ofKind .constant).filter _).append ((f.deps.nodup_ofKind .var).filter _)
      fun x hx hx' => (hvars x hx').2 hx
  have hfresh : ∀ x ∈ constants ++ vars, x ∉ p.seen :=
    List.forall_mem_append.2 ⟨hconstants, fun x hx => (hvars x hx).1⟩
  refine ⟨?_, ?_⟩
  · change ((p.found.constants ++ constants) ++ (p.found.vars ++ vars)).Nodup
    have hperm : ((p.found.constants ++ constants) ++ (p.found.vars ++ vars)).Perm
        ((p.found.constants ++ p.found.vars) ++ (constants ++ vars)) := by
      simpa only [List.append_assoc] using
        (List.perm_append_comm_assoc constants p.found.vars vars).append_left p.found.constants
    exact hperm.nodup_iff.2 <| hp.nodup.append hadded fun x hx hnew =>
      hfresh x hnew (hp.subset_seen hx)
  · change (p.found.constants ++ constants) ++ (p.found.vars ++ vars) ⊆
      p.seen ++ functions ++ constants ++ vars
    have hold := List.append_subset.1 hp.subset_seen
    intro x hx
    simp only [List.mem_append] at hx ⊢
    rcases hx with (hx | hx) | hx | hx
    · exact .inl (.inl (.inl (hold.1 hx)))
    · exact .inl (.inr hx)
    · exact .inl (.inl (.inl (hold.2 hx)))
    · exact .inr hx

theorem resolveSteps_listsOnce {p : Progress} (hp : p.ListsOnce) {n : Nat}
    (h : l.resolveSteps n p = .ok r) : (r.constants ++ r.vars).Nodup := by
  induction n generalizing p with
  | zero =>
    cases h
    exact hp.nodup
  | succ n ih =>
    simp only [resolveSteps] at h
    split at h
    · cases h
      exact hp.nodup
    · next name rest hqueue =>
      split at h
      · exact ih (p := { p with queue := rest }) ⟨hp.nodup, hp.subset_seen⟩ h
      · next f hf =>
        obtain ⟨-, -, h⟩ := Except.bind_eq_ok h
        exact ih (Progress.ListsOnce.visit (p := { p with queue := rest })
          ⟨hp.nodup, hp.subset_seen⟩ name f) h

/-- No name is resolved twice as a constant or variable. -/
theorem resolve_nodup (h : l.resolve entry = .ok r) : (r.constants ++ r.vars).Nodup := by
  unfold resolve at h
  split at h
  · exact resolveSteps_listsOnce (p := Progress.initial entry) ⟨List.nodup_nil, List.nil_subset _⟩ h
  · cases h

variable {kernels : List Kernel}

/-- What is registered has the name that it is registered under. -/
theorem name_of_kernel? {kind : KernelKind} {name : String} {k : Kernel}
    (h : (empty.registerAll kernels).kernel? kind name = some k) : k.name = name := by
  rcases kernel?_registerAll h with ⟨-, -, hname⟩ | h
  · exact hname
  · cases kind <;> cases h

/-- Found items stand in the order of their names. -/
theorem map_filterMap_sublist {α : Type} {names : List String} {find : String → Option α}
    {nameOf : α → String} (h : ∀ x a, find x = some a → nameOf a = x) :
    ((names.filterMap find).map nameOf).Sublist names := by
  induction names with
  | nil => exact .slnil
  | cons x rest ih =>
    cases hx : find x with
    | none =>
      rw [List.filterMap_cons_none hx]
      exact ih.cons x
    | some a =>
      rw [List.filterMap_cons_some hx, List.map_cons, h x a hx]
      exact ih.cons_cons x

/-- No name is declared twice. -/
theorem declaredNames_nodup (h : (empty.registerAll kernels).resolve entry = .ok r) :
    ((empty.registerAll kernels).declaredNames r).Nodup := by
  refine (resolve_nodup h).sublist ?_
  rw [declaredNames, resolvedValues, List.map_append]
  refine (map_filterMap_sublist fun x k hk => ?_).append (map_filterMap_sublist fun x k hk => ?_)
  · have hconstant : (empty.registerAll kernels).kernel? .constant x = some (.constant k) := by
      simp [kernel?, hk]
    exact name_of_kernel? hconstant
  · have hvar : (empty.registerAll kernels).kernel? .var x = some (.var k) := by
      simp [kernel?, hk]
    exact name_of_kernel? hvar

/-- A line declares a resolved constant or variable. -/
theorem exists_of_mem_declaredLines {name line : String}
    (h : (name, line) ∈ l.declaredLines r target) :
    ∃ k ∈ l.resolvedValues r, ∃ constant, k.name = name ∧ k.declaration target constant = line := by
  rcases List.mem_append.1 h with h | h
  · obtain ⟨k, hk, heq⟩ := List.mem_map.1 h
    cases heq
    exact ⟨k, List.mem_append_left _ hk, true, rfl, rfl⟩
  · obtain ⟨k, hk, heq⟩ := List.mem_map.1 h
    cases heq
    exact ⟨k, List.mem_append_right _ hk, false, rfl, rfl⟩

/-- Each resolved constant and variable has a line. -/
theorem exists_mem_declaredLines {k : ValueKernel} (h : k ∈ l.resolvedValues r) (target : Target) :
    ∃ constant, (k.name, k.declaration target constant) ∈ l.declaredLines r target := by
  rcases List.mem_append.1 h with h | h
  · exact ⟨true, List.mem_append_left _ (List.mem_map.2 ⟨k, h, rfl⟩)⟩
  · exact ⟨false, List.mem_append_right _ (List.mem_map.2 ⟨k, h, rfl⟩)⟩

/-- The names with values are those of the resolved uniforms. -/
theorem runtimeUniforms_eq (h : l.resolve entry = .ok r) :
    l.runtimeUniforms entry = .ok (.ofList (((l.resolvedValues r).filter
      (·.isRuntimeUniform .glsl100)).map fun k => (k.name, k.value.numbers))) := by
  rw [runtimeUniforms, h]
  rfl

/-- The program of an entry point consists of its lines of declarations, of prototypes and of
bodies. -/
theorem program_eq_ok {text : String} (hresolve : l.resolve entry = .ok r)
    (h : l.program entry target = .ok text) :
    text = "\n".intercalate (lineSection ((l.declaredLines r target).map Prod.snd) ++
      lineSection ((l.codes r target.family).filterMap FunctionCode.prototype) ++
      (l.codes r target.family).map FunctionCode.body) := by
  rw [program, hresolve] at h
  simp only [Except.bind, bind] at h
  split at h
  · cases h
  · cases h
    rw [snd_declaredLines]
    rfl

section Bound

variable {uniforms : NameMap (List Binary64)} {name line : String}
  (hresolve : (empty.registerAll kernels).resolve entry = .ok r)
  (huniforms : (empty.registerAll kernels).runtimeUniforms entry = .ok uniforms)

include hresolve huniforms

/-- The values under a name are the numbers of the resolved uniform of this name. -/
theorem get?_runtimeUniforms {values : List Binary64} :
    uniforms.get? name = some values ↔ ∃ k ∈ (empty.registerAll kernels).resolvedValues r,
      k.isRuntimeUniform .glsl100 ∧ k.name = name ∧ k.value.numbers = values := by
  rw [runtimeUniforms_eq hresolve, Except.ok.injEq] at huniforms
  have hnodup : ((((empty.registerAll kernels).resolvedValues r).filter
      (·.isRuntimeUniform .glsl100)).map ValueKernel.name).Nodup :=
    (declaredNames_nodup hresolve).sublist (List.filter_sublist.map _)
  rw [← huniforms, NameMap.get?_ofList (by rw [List.map_map]; exact hnodup)]
  simp [List.mem_map, List.mem_filter, and_assoc]

/-- A declared uniform comes from one resolved value, which has its line and its numbers. -/
theorem exists_of_isUniformLine
    (hmem : (name, line) ∈ (empty.registerAll kernels).declaredLines r .glsl100)
    (hline : IsUniformLine line) :
    ∃ k : ValueKernel, ∃ constant, k.isRuntimeUniform .glsl100 ∧ k.name = name ∧
      k.declaration .glsl100 constant = line ∧ uniforms.get? name = some k.value.numbers := by
  obtain ⟨k, hk, constant, hname, rfl⟩ := exists_of_mem_declaredLines hmem
  have huniform := ValueKernel.isUniformLine_declaration.1 hline
  exact ⟨k, constant, huniform, hname, rfl,
    (get?_runtimeUniforms hresolve huniforms).2 ⟨k, hk, huniform, hname, rfl⟩⟩

/-- The uniforms of a resolution are bound. -/
theorem bindsUniforms :
    BindsUniforms ((empty.registerAll kernels).declaredLines r .glsl100) uniforms where
  nodup := fst_declaredLines (empty.registerAll kernels) r .glsl100 ▸ declaredNames_nodup hresolve
  mem_keys name := by
    rw [← NameMap.contains_iff_mem_keys, NameMap.contains, Option.isSome_iff_exists]
    constructor
    · rintro ⟨values, hvalues⟩
      obtain ⟨k, hk, huniform, rfl, -⟩ := (get?_runtimeUniforms hresolve huniforms).1 hvalues
      obtain ⟨constant, hmem⟩ := exists_mem_declaredLines hk .glsl100
      exact ⟨_, hmem, ValueKernel.isUniformLine_declaration.2 huniform⟩
    · rintro ⟨line, hmem, hline⟩
      obtain ⟨k, -, -, -, -, hvalues⟩ := exists_of_isUniformLine hresolve huniforms hmem hline
      exact ⟨_, hvalues⟩
  form name line hmem hline := by
    obtain ⟨k, constant, huniform, rfl, rfl, -⟩ :=
      exists_of_isUniformLine hresolve huniforms hmem hline
    exact ⟨k.type, k.value.arrayLen?, ValueKernel.declaration_of_isRuntimeUniform huniform⟩
  array name type n hmem := by
    obtain ⟨k, constant, -, rfl, hline, hvalues⟩ := exists_of_isUniformLine hresolve huniforms hmem
      (isUniformLine_uniformLine type name (some n))
    obtain ⟨-, hlen⟩ := ValueKernel.arrayLen?_of_uniformLine hline
    refine ⟨_, hvalues, ?_⟩
    cases hvalue : k.value with
    | scalar x => rw [hvalue] at hlen; cases hlen
    | vector items => rw [hvalue] at hlen; exact Option.some.inj hlen
  number name type hmem := by
    obtain ⟨k, constant, -, rfl, hline, hvalues⟩ := exists_of_isUniformLine hresolve huniforms hmem
      (isUniformLine_uniformLine type name none)
    obtain ⟨huniform, hlen⟩ := ValueKernel.arrayLen?_of_uniformLine hline
    rw [hvalues, ValueKernel.value_eq_nan huniform hlen, Value.numbers]

end Bound

/-- The uniforms that a program in GLSL ES 1.00 declares are those that it has values for, each
declared once and by the form of its value. Programs of the entry point in other targets declare
no uniform. -/
theorem runtimeUniforms_declared {text : String}
    (h : (empty.registerAll kernels).program entry .glsl100 = .ok text) :
    ∃ r uniforms, (empty.registerAll kernels).resolve entry = .ok r ∧
      (empty.registerAll kernels).runtimeUniforms entry = .ok uniforms ∧
      BindsUniforms ((empty.registerAll kernels).declaredLines r .glsl100) uniforms ∧
      (∀ target, target ≠ .glsl100 → ∀ name line,
        (name, line) ∈ (empty.registerAll kernels).declaredLines r target → ¬ IsUniformLine line) ∧
      ∀ target text, (empty.registerAll kernels).program entry target = .ok text →
        text = "\n".intercalate
          (lineSection (((empty.registerAll kernels).declaredLines r target).map Prod.snd) ++
            lineSection (((empty.registerAll kernels).codes r target.family).filterMap
              FunctionCode.prototype) ++
            ((empty.registerAll kernels).codes r target.family).map FunctionCode.body) := by
  obtain ⟨r, hresolve, -⟩ := Except.bind_eq_ok h
  refine ⟨r, _, hresolve, runtimeUniforms_eq hresolve,
    bindsUniforms hresolve (runtimeUniforms_eq hresolve),
    fun target htarget name line hmem hline => ?_, fun target text h => program_eq_ok hresolve h⟩
  obtain ⟨k, -, constant, -, rfl⟩ := exists_of_mem_declaredLines hmem
  have huniform := ValueKernel.isUniformLine_declaration.1 hline
  cases target with
  | glsl100 => exact htarget rfl
  | glsl300 | js => cases huniform

/-- A function that reads an array, not-a-number and a count. -/
def seriesKernels : List Kernel :=
  [.constant ⟨"coef", .float, .vector [.ofInt 1, .ofInt 2], ["1.0", "2.0"]⟩, notANumberKernel,
    .var ⟨"count", .int, .scalar (.ofInt 0), ["0"]⟩,
    .function
      { name := "f", args := [], returnType := .float,
        deps := ⟨.empty, .ofList ["coef", notANumber], .ofList ["count"]⟩,
        shader := some ⟨none, "float f() { return coef[count]; }\n"⟩, scalar := none }]

theorem runtimeUniforms_seriesKernels :
    ∃ uniforms, (empty.registerAll seriesKernels).runtimeUniforms "f" = .ok uniforms ∧
      (∃ values, uniforms.get? "coef" = some values ∧ values.length = 2) ∧
      uniforms.get? notANumber = some [.nan] ∧ "count" ∉ uniforms.keys := by
  have hok : ((empty.registerAll seriesKernels).program "f" .glsl100).toOption.isSome ∧
      (empty.registerAll seriesKernels).resolve "f" = .ok ⟨["f"], [notANumber, "coef"], ["count"]⟩ ∧
      (empty.registerAll seriesKernels).declaredLines ⟨["f"], [notANumber, "coef"], ["count"]⟩
        .glsl100 = [(notANumber, uniformLine .float notANumber none),
          ("coef", uniformLine .float "coef" (some 2)), ("count", "int count = 0;")] := by
    decide +kernel
  obtain ⟨hprogram, hresolve, hlines⟩ := hok
  obtain ⟨text, htext⟩ := Option.isSome_iff_exists.1 hprogram
  obtain ⟨r, uniforms, hr, huniforms, hbinds, -⟩ :=
    runtimeUniforms_declared (Except.eq_ok_of_toOption htext)
  obtain rfl := Except.ok.inj (hresolve.symm.trans hr)
  rw [hlines] at hbinds
  refine ⟨uniforms, huniforms, hbinds.array _ .float 2 (by simp), hbinds.number _ .float (by simp),
    fun hcount => ?_⟩
  obtain ⟨line, hmem, rest, rfl⟩ := (hbinds.mem_keys _).1 hcount
  have hword : "uniform " ++ rest = "int count = 0;" := by simpa [notANumber] using hmem
  simpa using congrArg String.toList hword

end Linker

end MathKernel
