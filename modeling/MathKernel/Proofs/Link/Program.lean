import MathKernel.Proofs.Kernel.Extraction
import MathKernel.Proofs.Link.Tables

/-!
# Programs are self-contained

A unit is extracted, registered over the built-in kernels and linked from an entry point. In the
program that results, every identifier that is free in the code of one of the unit's functions is
declared exactly once, and every function that this code calls is there with its code, unless the
target has it built in.

Three things have to meet: the dependencies hold every free identifier and every called name, the
tables of the linker hold a name under one kind only, and a resolution is closed.

## Main definitions

* `SourceUnit.IdentifiersDeclared`, `SourceUnit.NamesApart`, `SourceUnit.NoBuiltinNames`
* `Linker.ResolvedFrom` — a resolved function is that of a definition of the unit
* `Linker.Supplies` — a program has all that a function's code refers to

## Main results

* `Linker.program_selfContained`
* `Linker.program_loneDeclaration` — a declaration as a branch of its own breaks it
-/

namespace MathKernel

/-! ### What a unit has to satisfy -/

namespace SourceUnit

/-- Every identifier of a body is bound there, names a variable of the file or is
not-a-number. -/
def IdentifiersDeclared (u : SourceUnit) : Prop :=
  ∀ f ∈ u.funcs, ∀ x ∈ f.freeIds, (∃ d ∈ u.globals, d.name = some x) ∨ x = notANumber

/-- No name is both a variable's and a function's at file level. -/
def NamesApart (u : SourceUnit) : Prop :=
  ∀ d ∈ u.globals, ∀ f ∈ u.funcs, d.name ≠ some f.name

/-- No variable or function of the file has the name of a built-in kernel. -/
def NoBuiltinNames (u : SourceUnit) : Prop :=
  ∀ k ∈ builtinKernels,
    (∀ d ∈ u.globals, d.name ≠ some k.name) ∧ ∀ f ∈ u.funcs, f.name ≠ k.name

/-- Every declaration inside a function is an item of a block or stands in a `for` clause. -/
def DeclsInBlocks (u : SourceUnit) : Prop :=
  ∀ f ∈ u.funcs, Stmt.declsInBlocksList f.body.items

end SourceUnit

/-! ### Names of a unit's kernels -/

section UnitKernels

variable {u : SourceUnit} {config : ExtractConfig} {kernels : List Kernel} {k k' : Kernel}

/-- A kernel of a unit has the name of a function or variable of the file. -/
theorem Kernel.IsFrom.name_mem {globals : GlobalNames} (h : k.IsFrom globals u.items) :
    (k.kind = .function ∧ ∃ f ∈ u.funcs, f.name = k.name) ∨
      (k.kind ≠ .function ∧ ∃ d ∈ u.globals, d.name = some k.name) := by
  cases k with
  | function k =>
    obtain ⟨f, hf, hk⟩ := h
    exact .inl ⟨rfl, f, SourceUnit.mem_funcs.2 hf, (FuncDef.toKernel_eq hk).1.symm⟩
  | constant v | var v =>
    obtain ⟨-, d, hd, hfunction, hname⟩ := h
    exact .inr ⟨by simp [Kernel.kind], d, SourceUnit.mem_globals.2 ⟨hd, hfunction⟩, hname⟩

theorem Kernel.IsFrom.kind_eq (hapart : u.NamesApart) {globals : GlobalNames}
    (h : k.IsFrom globals u.items) (h' : k'.IsFrom globals u.items) (hname : k.name = k'.name) :
    k.kind = k'.kind := by
  rcases h.name_mem with ⟨hk, f, hf, hfname⟩ | ⟨hk, d, hd, hdname⟩ <;>
    rcases h'.name_mem with ⟨hk', f', hf', hfname'⟩ | ⟨hk', d', hd', hdname'⟩
  · rw [hk, hk']
  · exact absurd (by rw [hdname', hfname, hname]) (hapart d' hd' f hf)
  · exact absurd (by rw [hdname, hfname', hname]) (hapart d hd f' hf')
  · -- A variable and a constant of one name would classify it in two ways.
    cases k <;> cases k' <;> simp_all [Kernel.kind, Kernel.IsFrom, Kernel.name]

/-- Among the built-in kernels and those of a unit, a name has one kind. -/
theorem kind_eq_of_name_eq (hapart : u.NamesApart) (hbuiltin : u.NoBuiltinNames)
    (hexports : config.exports = none) (hextract : u.extract config = .ok kernels)
    (hk : k ∈ builtinKernels ++ kernels) (hk' : k' ∈ builtinKernels ++ kernels)
    (hname : k.name = k'.name) : k.kind = k'.kind := by
  have hfresh {k k' : Kernel} (hk : k ∈ builtinKernels) (hk' : k' ∈ kernels) :
      k.name ≠ k'.name := by
    intro hname
    obtain ⟨hglobals, hfuncs⟩ := hbuiltin k hk
    rcases (SourceUnit.origin_of_mem_extract hexports hextract hk').name_mem with
      ⟨-, f, hf, hfname⟩ | ⟨-, d, hd, hdname⟩
    · exact hfuncs f hf (hfname.trans hname.symm)
    · exact hglobals d hd (hname ▸ hdname)
  rcases List.mem_append.1 hk with hk | hk <;> rcases List.mem_append.1 hk' with hk' | hk'
  · rw [builtinKernels_kind k hk, builtinKernels_kind k' hk', hname]
  · exact absurd hname (hfresh hk hk')
  · exact absurd hname.symm (hfresh hk' hk)
  · exact (SourceUnit.origin_of_mem_extract hexports hextract hk).kind_eq hapart
      (SourceUnit.origin_of_mem_extract hexports hextract hk') hname

end UnitKernels

/-! ### What a program declares and holds -/

namespace Linker

variable {l : Linker} {r : Resolution} {entry : String} {kernels : List Kernel}

/-- The names that the declarations of a program declare, in order. -/
def declaredNames (l : Linker) (r : Resolution) : List String :=
  (l.resolvedValues r).map ValueKernel.name

theorem map_filterMap_eq {α : Type} {names : List String} {find : String → Option α}
    {nameOf : α → String} (h : ∀ x ∈ names, ∃ a, find x = some a ∧ nameOf a = x) :
    (names.filterMap find).map nameOf = names := by
  induction names with
  | nil => rfl
  | cons x rest ih =>
    obtain ⟨a, ha, hname⟩ := h x (by simp)
    rw [List.filterMap_cons_some ha, List.map_cons, hname,
      ih fun y hy => h y (List.mem_cons_of_mem _ hy)]

/-- Over the built-in kernels, a program declares its resolved constants and variables. -/
theorem declaredNames_eq (h : (withBuiltins.registerAll kernels).IsClosure entry r)
    (hclosed : (withBuiltins.registerAll kernels).IsClosed entry) :
    (withBuiltins.registerAll kernels).declaredNames r = r.constants ++ r.vars := by
  have hconstant (x : String) (hx : x ∈ r.constants) :
      ∃ v, (withBuiltins.registerAll kernels).constant? x = some v ∧ v.name = x := by
    obtain ⟨f, hf, hx⟩ := (h.mem_constants x).1 hx
    obtain ⟨k, hk⟩ := has_iff_kernel?.1 (hclosed.2 f hf .constant x hx)
    obtain ⟨v, hv, rfl⟩ := Option.map_eq_some_iff.1 hk
    exact ⟨v, hv, (kernel?_withBuiltins hk).2.2⟩
  have hvar (x : String) (hx : x ∈ r.vars) :
      ∃ v, (withBuiltins.registerAll kernels).var? x = some v ∧ v.name = x := by
    obtain ⟨f, hf, hx⟩ := (h.mem_vars x).1 hx
    obtain ⟨k, hk⟩ := has_iff_kernel?.1 (hclosed.2 f hf .var x hx)
    obtain ⟨v, hv, rfl⟩ := Option.map_eq_some_iff.1 hk
    exact ⟨v, hv, (kernel?_withBuiltins hk).2.2⟩
  rw [declaredNames, resolvedValues, List.map_append, map_filterMap_eq hconstant,
    map_filterMap_eq hvar]

/-- The names that a closed resolution lists as constants and variables are distinct. -/
theorem IsClosure.nodup_values (h : l.IsClosure entry r) (hclosed : l.IsClosed entry)
    (apart : l.TablesApart entry) : (r.constants ++ r.vars).Nodup := by
  refine List.nodup_append.2 ⟨h.nodup_constants, h.nodup_vars, fun x hx y hy hxy => ?_⟩
  subst hxy
  obtain ⟨f, hf, hx⟩ := (h.mem_constants x).1 hx
  obtain ⟨g, hg, hy⟩ := (h.mem_vars x).1 hy
  have := apart x .constant .var (hf.uses hx) (hg.uses hy) (hclosed.2 f hf .constant x hx)
    (hclosed.2 g hg .var x hy)
  cases this

/-- A resolved function is that of a definition of the unit. -/
def ResolvedFrom (l : Linker) (r : Resolution) (u : SourceUnit) (config : ExtractConfig)
    (f : FuncDef) : Prop :=
  f ∈ u.funcs ∧ f.name ∈ r.functions ∧
    ∃ k, l.function? f.name = some k ∧ f.toKernel (u.globalNames config.vars) = .ok k

/-- A program has what a function's code refers to: one declaration for each free identifier,
and each called function, with code unless the family has it built in. -/
structure Supplies (l : Linker) (r : Resolution) (family : Family) (f : FuncDef) : Prop where
  code : ∃ code ∈ l.codes r family, f.emit family = .ok code
  declared : ∀ x ∈ f.freeIds, (l.declaredNames r).count x = 1
  called : ∀ g ∈ f.calledNames, g ∈ r.functions ∧ ∃ k, l.function? g = some k ∧
    ((∃ code ∈ l.codes r family, k.code? family = some code) ∨
      (.function k ∈ builtinKernels ∧ k.code? family = none))

theorem mem_codes {family : Family} {name : String} {k : FunctionKernel} {code : FunctionCode}
    (hname : name ∈ r.functions) (hk : l.function? name = some k)
    (hcode : k.code? family = some code) : code ∈ l.codes r family :=
  List.mem_filterMap.2 ⟨k, List.mem_filterMap.2 ⟨name, hname, hk⟩, hcode⟩

section Unit

variable {u : SourceUnit} {config : ExtractConfig}

/-- A registered function is built in or that of a definition of the unit. -/
theorem function?_origin (hexports : config.exports = none)
    (hextract : u.extract config = .ok kernels) {name : String} {k : FunctionKernel}
    (hk : (withBuiltins.registerAll kernels).function? name = some k) :
    .function k ∈ builtinKernels ∨
      ∃ f ∈ u.funcs, f.name = name ∧ f.toKernel (u.globalNames config.vars) = .ok k := by
  have hkernel : (withBuiltins.registerAll kernels).kernel? .function name =
      some (.function k) := by simp [kernel?, hk]
  obtain ⟨hmem, -, hname⟩ := kernel?_withBuiltins hkernel
  rcases List.mem_append.1 hmem with hmem | hmem
  · exact .inl hmem
  · obtain ⟨f, hf, htoKernel⟩ := SourceUnit.origin_of_mem_extract hexports hextract hmem
    refine .inr ⟨f, SourceUnit.mem_funcs.2 hf, ?_, htoKernel⟩
    exact (FuncDef.toKernel_eq htoKernel).1.symm.trans hname

/-- A closed resolution supplies each resolved function of the unit. -/
theorem IsClosure.supplies (hdeclared : u.IdentifiersDeclared) (hblocks : u.DeclsInBlocks)
    (hexports : config.exports = none) (hextract : u.extract config = .ok kernels)
    (apart : (withBuiltins.registerAll kernels).TablesApart entry)
    (h : (withBuiltins.registerAll kernels).IsClosure entry r)
    (hclosed : (withBuiltins.registerAll kernels).IsClosed entry) {f : FuncDef}
    (hf : (withBuiltins.registerAll kernels).ResolvedFrom r u config f) (family : Family) :
    (withBuiltins.registerAll kernels).Supplies r family f := by
  obtain ⟨hfunc, hname, k, hk, htoKernel⟩ := hf
  obtain ⟨-, hdeps, hcode⟩ := FuncDef.toKernel_eq htoKernel
  have hreach := (h.mem_functions f.name).1 hname
  have hrefs (kind : KernelKind) : (withBuiltins.registerAll kernels).refs kind f.name =
      (f.dependencies (u.globalNames config.vars)).ofKind kind := by
    rw [refs_eq hk, hdeps]
  refine ⟨?_, fun x hx => ?_, fun g hg => ?_⟩
  · obtain ⟨code, hemit, hcode⟩ := hcode family
    exact ⟨code, mem_codes hname hk hcode, hemit⟩
  · -- A free name is declared in the unit or built in; either way the function depends on it.
    have hglobal : x ∈ (u.globalNames config.vars).vars ∨
        x ∈ (u.globalNames config.vars).constants ∨ x ∈ builtinConstants := by
      rcases hdeclared f hfunc x hx with hd | rfl
      · exact or_assoc.1 (.inl (SourceUnit.mem_globalNames.2 hd))
      · exact .inr (.inr (by simp [builtinConstants]))
    have hmem : x ∈ r.constants ++ r.vars := by
      rcases FuncDef.mem_dependencies_of_mem_freeIds (hblocks f hfunc) hx hglobal with hx | hx
      · exact List.mem_append_right _ ((h.mem_vars x).2 ⟨_, hreach, hrefs .var ▸ hx⟩)
      · exact List.mem_append_left _ ((h.mem_constants x).2 ⟨_, hreach, hrefs .constant ▸ hx⟩)
    rw [declaredNames_eq h hclosed]
    exact List.count_eq_one_of_mem (h.nodup_values hclosed apart) hmem
  · have hg : g ∈ (withBuiltins.registerAll kernels).refs .function f.name :=
      hrefs .function ▸ FuncDef.mem_dependencies_of_mem_calledNames hg
    have hgreach := (h.mem_functions g).2 (hreach.tail hg)
    obtain ⟨kg, hkg⟩ := function?_of_has (hclosed.2 _ hreach .function g hg)
    refine ⟨hgreach, kg, hkg, ?_⟩
    cases hcode : kg.code? family with
    | some code => exact .inl ⟨code, mem_codes hgreach hkg hcode, rfl⟩
    | none =>
      rcases function?_origin hexports hextract hkg with hbuiltin | ⟨f', -, -, htoKernel'⟩
      · exact .inr ⟨hbuiltin, rfl⟩
      · obtain ⟨code, -, hsome⟩ := (FuncDef.toKernel_eq htoKernel').2.2 family
        rw [hcode] at hsome
        cases hsome

/-- In a program, every function is built in or the unit's, and the code of each of the unit's
functions finds what it refers to: a free identifier is declared exactly once, and a called
function is there with its code, unless it is built into the target. -/
theorem program_selfContained {target : Target} {text : String}
    (hdeclared : u.IdentifiersDeclared) (hapart : u.NamesApart) (hbuiltin : u.NoBuiltinNames)
    (hblocks : u.DeclsInBlocks) (hexports : config.exports = none)
    (hextract : u.extract config = .ok kernels)
    (hprogram : (withBuiltins.registerAll kernels).program entry target = .ok text) :
    ∃ r, (withBuiltins.registerAll kernels).resolve entry = .ok r ∧
      text = "\n".intercalate ((withBuiltins.registerAll kernels).sections r target) ∧
      (∀ name ∈ r.functions, ∃ k, (withBuiltins.registerAll kernels).function? name = some k ∧
        (.function k ∈ builtinKernels ∨ ∃ f, f.name = name ∧
          (withBuiltins.registerAll kernels).ResolvedFrom r u config f)) ∧
      ∀ f, (withBuiltins.registerAll kernels).ResolvedFrom r u config f →
        (withBuiltins.registerAll kernels).Supplies r target.family f := by
  have apart : (withBuiltins.registerAll kernels).TablesApart entry :=
    tablesApart_withBuiltins entry fun k hk k' hk' =>
      kind_eq_of_name_eq hapart hbuiltin hexports hextract hk hk'
  obtain ⟨r, hr, hprogram⟩ := Except.bind_eq_ok hprogram
  have hspec := resolve_spec apart
  rw [hr] at hspec
  obtain ⟨hclosure, hclosed⟩ := hspec
  refine ⟨r, hr, ?_, fun name hname => ?_, fun f hf => ?_⟩
  · split at hprogram
    · cases hprogram
    · exact (Except.ok.inj hprogram).symm
  · have hhas : (withBuiltins.registerAll kernels).has .function name := by
      rcases Relation.ReflTransGen.cases_tail ((hclosure.mem_functions name).1 hname) with
        rfl | ⟨caller, hcaller, hcall⟩
      · exact hclosed.1
      · exact hclosed.2 caller hcaller .function name hcall
    obtain ⟨k, hk⟩ := function?_of_has hhas
    refine ⟨k, hk, ?_⟩
    rcases function?_origin hexports hextract hk with hbuiltin | ⟨f, hf, rfl, htoKernel⟩
    · exact .inl hbuiltin
    · exact .inr ⟨f, rfl, hf, hname, k, hk, htoKernel⟩
  · exact hclosure.supplies hdeclared hblocks hexports hextract apart hclosed hf target.family

/-- A variable that one function uses and another hides in a block, from its initializer on:
`float g = 2.0; float h(float a) { return sqrt(a) * g; }` and
`float f(float a) { { float g = g; a = h(g); } return a + g; }`. -/
def hidingUnit : SourceUnit where
  items := [
    .decl (.ofScalar "g" .float (some (.float "2.0" none))),
    .func {
      decl := .prototype "h" .float [.ofScalar "a" .float none]
      body.items := [
        .ret (some (.binary .mul (.call "sqrt" [.id "a" none] none) (.id "g" none) none)) none]
      body.coord := none
      coord := none },
    .func {
      decl := .prototype "f" .float [.ofScalar "a" .float none]
      body.items := [
        .block [
          .decl (.ofScalar "g" .float (some (.id "g" none))) none,
          .expr (.assign .assign (.id "a" none) (.call "h" [.id "g" none] none) none) none]
          none none,
        .ret (some (.binary .add (.id "a" none) (.id "g" none) none)) none]
      body.coord := none
      coord := none }]
  coord := none

theorem program_selfContained_hidingUnit :
    hidingUnit.IdentifiersDeclared ∧ hidingUnit.NamesApart ∧ hidingUnit.NoBuiltinNames ∧
      hidingUnit.DeclsInBlocks ∧
      ∃ kernels r text, hidingUnit.extract {} = .ok kernels ∧
        (withBuiltins.registerAll kernels).program "f" .glsl300 = .ok text ∧
        (withBuiltins.registerAll kernels).resolve "f" = .ok r ∧
        ∀ f, (withBuiltins.registerAll kernels).ResolvedFrom r hidingUnit {} f →
          (withBuiltins.registerAll kernels).Supplies r .shader f := by
  have hdeclared : hidingUnit.IdentifiersDeclared := by
    unfold SourceUnit.IdentifiersDeclared
    decide +kernel
  have hapart : hidingUnit.NamesApart := by
    unfold SourceUnit.NamesApart
    decide +kernel
  have hbuiltin : hidingUnit.NoBuiltinNames := by
    unfold SourceUnit.NoBuiltinNames
    decide +kernel
  have hblocks : hidingUnit.DeclsInBlocks := by
    unfold SourceUnit.DeclsInBlocks
    decide +kernel
  have hok : (do
      let kernels ← hidingUnit.extract {} |>.toOption
      guard ("f" ∈ kernels.map Kernel.name)
      (empty.registerAll (namedBuiltins kernels ++ kernels)).program "f" .glsl300 |>.toOption
      ).isSome := by
    decide +kernel
  obtain ⟨text, hok⟩ := Option.isSome_iff_exists.1 hok
  obtain ⟨kernels, hextract, hok⟩ := Option.bind_eq_some_iff.1 hok
  obtain ⟨_, hguard, hprogram⟩ := Option.bind_eq_some_iff.1 hok
  have hentry : "f" ∈ kernels.map Kernel.name := by simpa [guard] using hguard
  replace hextract := Except.eq_ok_of_toOption hextract
  replace hprogram := ((agrees_namedBuiltins hentry).program_eq .glsl300).trans
    (Except.eq_ok_of_toOption hprogram)
  obtain ⟨r, hr, -, -, hsupplies⟩ :=
    program_selfContained hdeclared hapart hbuiltin hblocks rfl hextract hprogram
  exact ⟨hdeclared, hapart, hbuiltin, hblocks, kernels, r, text, hextract, hprogram, hr,
    hsupplies⟩

end Unit

/-- The function `float f(float a) { if (a) float g = 2.0; return g; }`, in which a declaration is
a branch of its own. -/
def loneBranchFunc : FuncDef where
  decl := .prototype "f" .float [.ofScalar "a" .float none]
  body.items := [
    .ifThen (.id "a" none) (.decl (.ofScalar "g" .float (some (.float "2.0" none))) none) none,
    .ret (some (.id "g" none)) none]
  body.coord := none
  coord := none

/-- The same function after the variable `float g = 1.0;` of the file. -/
def loneBranchUnit : SourceUnit where
  items := [.decl (.ofScalar "g" .float (some (.float "1.0" none))), .func loneBranchFunc]
  coord := none

/-- The program of the function, in which the branch is in braces. -/
def loneBranchProgram : String :=
  "float f(float a);\n\nfloat f(float a) " ++ openBrace ++ "\n    if (a) " ++ openBrace ++
    "\n        float g = 2.0;\n    " ++ closeBrace ++ "\n    return g;\n" ++ closeBrace ++ "\n"

/-- With a declaration as a branch of its own, a free identifier is left without a declaration:
the dependencies take the name as bound up to the end of the block, and the code has the branch
in braces. -/
theorem program_loneDeclaration :
    loneBranchUnit.IdentifiersDeclared ∧ loneBranchUnit.NamesApart ∧
      loneBranchUnit.NoBuiltinNames ∧
      ∃ kernels r, loneBranchUnit.extract {} = .ok kernels ∧
        (withBuiltins.registerAll kernels).resolve "f" = .ok r ∧
        (withBuiltins.registerAll kernels).program "f" .glsl300 = .ok loneBranchProgram ∧
        (withBuiltins.registerAll kernels).ResolvedFrom r loneBranchUnit {} loneBranchFunc ∧
        "g" ∈ loneBranchFunc.freeIds ∧
        ((withBuiltins.registerAll kernels).declaredNames r).count "g" = 0 := by
  have hok : ((loneBranchUnit.extract {}).toOption.bind fun kernels =>
      let l := empty.registerAll (namedBuiltins kernels ++ kernels)
      let code := loneBranchFunc.toKernel (loneBranchUnit.globalNames ({} : ExtractConfig).vars)
      if "f" ∈ kernels.map Kernel.name ∧ l.resolve "f" = .ok ⟨["f"], [], []⟩ ∧
        l.program "f" .glsl300 = .ok loneBranchProgram ∧
        (l.declaredNames ⟨["f"], [], []⟩).count "g" = 0 ∧ l.function? "f" = code.toOption
      then code.toOption else none).isSome := by
    decide +kernel
  obtain ⟨k, hok⟩ := Option.isSome_iff_exists.1 hok
  obtain ⟨kernels, hextract, hok⟩ := Option.bind_eq_some_iff.1 hok
  obtain ⟨⟨hentry, hresolve, hprogram, hcount, hfunction⟩, hcode⟩ :=
    Option.ite_none_right_eq_some.1 hok
  have hagrees := agrees_namedBuiltins hentry
  replace hfunction := (hagrees.function?_eq "f" (.inl ⟨rfl, rfl⟩)).trans hfunction
  rw [declaredNames, ← hagrees.resolvedValues_eq hresolve] at hcount
  refine ⟨?_, ?_, ?_, kernels, ⟨["f"], [], []⟩, Except.eq_ok_of_toOption hextract,
    (resolve_congr hagrees).trans hresolve, (hagrees.program_eq .glsl300).trans hprogram,
    ⟨?_, by decide, k, ?_, Except.eq_ok_of_toOption hcode⟩, by decide, hcount⟩
  · unfold SourceUnit.IdentifiersDeclared
    decide +kernel
  · unfold SourceUnit.NamesApart
    decide +kernel
  · unfold SourceUnit.NoBuiltinNames
    decide +kernel
  · exact SourceUnit.mem_funcs.2 (by simp [loneBranchUnit])
  · exact hfunction.trans hcode

end Linker

end MathKernel
