import MathKernel.Proofs.Link.SharedVariables
import MathKernel.Proofs.Link.Walk
import MathKernel.Proofs.Normalize.StaticWrites

/-!
# Written variables of a file

Which variables of a file are constants is decided by their declarations and by a list of names.
What the bodies of functions do with them is not looked at. So a variable that a body writes to is
a variable in a batch, in the dependencies of the function and in each program, if the list has its
name or if one of its definitions has no initializer, and it is a constant otherwise.

## Main definitions

* `Write.freeNames`, `FuncDef.freeWrites` — what a body writes to that it does not declare
* `FuncDef.WritesGlobal` — a body writes to a variable of the file
* `SourceUnit.DeclaresVariable` — the name is listed or a definition of it has no initializer

## Main results

* `FuncDef.freeWrites_subset` — what is written is referred to
* `SourceUnit.extract_writes` — the kernels, dependencies and declarations of a written variable
-/

namespace MathKernel

/-! ### Free written names -/

namespace Expr

theorem exists_id_of_lvalueRoot? {e : Expr} {x : String} (h : e.lvalueRoot? = some x) :
    ∃ c, id x c ∈ e.subexprs := by
  fun_induction lvalueRoot? e with
  | case1 name c =>
    obtain rfl := Option.some.inj h
    exact ⟨c, List.mem_cons_self⟩
  | case2 array i c ih =>
    obtain ⟨c', hc'⟩ := ih h
    refine ⟨c', ?_⟩
    rw [subexprs_eq]
    exact List.mem_cons_of_mem _ (List.mem_flatMap.2 ⟨array, List.mem_cons_self, hc'⟩)
  | case3 => cases h

theorem mem_parts_of_writeTarget? {e t : Expr} (h : e.writeTarget? = some t) : t ∈ e.parts := by
  cases e with
  | assign op target value c => exact Option.some.inj h ▸ List.mem_cons_self
  | unary op operand c =>
    have h : (if op.isMutating then some operand else none) = some t := h
    split at h
    · exact Option.some.inj h ▸ List.mem_cons_self
    · cases h
  | _ => cases h

/-- What an expression writes to is an identifier in it. -/
theorem writtenNames_subset_ids (e : Expr) : e.writtenNames ⊆ e.ids := by
  intro x hx
  obtain ⟨s, hs, hwritten⟩ := List.mem_filterMap.1 hx
  obtain ⟨t, ht, hroot⟩ := Option.bind_eq_some_iff.1 hwritten
  obtain ⟨c, hid⟩ := exists_id_of_lvalueRoot? hroot
  have hnode : id x c ∈ s.subexprs := by
    rw [subexprs_eq]
    have hpart := mem_parts_of_writeTarget? ht
    exact List.mem_cons_of_mem _ (List.mem_flatMap.2 ⟨t, hpart, hid⟩)
  exact List.mem_filterMap.2 ⟨id x c, subexprs_subset hs hnode, rfl⟩

end Expr

namespace Write

/-- The names of the writes that go to no declaration of the code. -/
def freeNames (found : List Write) : List String :=
  found.filterMap fun w => if w.2 ∈ w.1.filterMap Decl.name then none else some w.2

theorem mem_freeNames {found : List Write} {x : String} :
    x ∈ freeNames found ↔ ∃ ds, (ds, x) ∈ found ∧ x ∉ ds.filterMap Decl.name := by
  simp only [freeNames, List.mem_filterMap, Option.ite_none_left_eq_some, Option.some.injEq]
  constructor
  · rintro ⟨⟨ds, y⟩, hw, hfree, rfl⟩
    exact ⟨ds, hw, by simpa using hfree⟩
  · rintro ⟨ds, hw, hfree⟩
    exact ⟨(ds, x), hw, by simpa using hfree, rfl⟩

@[simp] theorem freeNames_append (found more : List Write) :
    freeNames (found ++ more) = freeNames found ++ freeNames more :=
  List.filterMap_append

theorem freeNames_plain_subset (es : List Expr) : freeNames (plain es) ⊆ es.flatMap Expr.ids := by
  intro x hx
  obtain ⟨ds, hw, -⟩ := mem_freeNames.1 hx
  obtain ⟨y, hy, heq⟩ := List.mem_map.1 hw
  cases heq
  obtain ⟨e, he, hx⟩ := List.mem_flatMap.1 hy
  exact List.mem_flatMap.2 ⟨e, he, e.writtenNames_subset_ids hx⟩

/-- Further declarations take writes to their names. -/
theorem mem_freeNames_under {ds : List Decl} {found : List Write} {x : String} :
    x ∈ freeNames (under ds found) ↔ x ∈ freeNames found ∧ x ∉ ds.filterMap Decl.name := by
  simp only [mem_freeNames, under, List.mem_map, Prod.mk.injEq]
  constructor
  · rintro ⟨_, ⟨⟨inner, y⟩, hw, rfl, rfl⟩, hfree⟩
    rw [List.filterMap_append, List.mem_append, not_or] at hfree
    exact ⟨⟨inner, hw, hfree.2⟩, hfree.1⟩
  · rintro ⟨⟨inner, hw, hfree⟩, hds⟩
    refine ⟨_, ⟨_, hw, rfl, rfl⟩, ?_⟩
    rw [List.filterMap_append, List.mem_append, not_or]
    exact ⟨hds, hfree⟩

end Write

open Write

theorem Decl.freeNames_writes_subset (d : Decl) : freeNames d.writes ⊆ d.ids := by
  intro x hx
  rw [writes_eq, freeNames_append, List.mem_append, mem_freeNames_under] at hx
  rw [ids, rootExprs, List.flatMap_append, List.mem_append]
  exact hx.imp (freeNames_plain_subset _ ·) fun h => freeNames_plain_subset _ h.1

/-- What is written in a loop that declares variables is an identifier in the declarations, or one
further inside that these do not bind. -/
theorem Decl.freeNames_writesList_subset {found : List Write} {inner : List String}
    (hinner : freeNames found ⊆ inner) (ds : List Decl) :
    freeNames (writesList ds ++ under ds found) ⊆ freeIdsBefore inner ds := by
  induction ds with
  | nil => simpa [writesList, occurrencesList, under, freeIdsBefore] using hinner
  | cons d rest ih =>
    intro x hx
    simp only [writesList_cons, freeNames_append, List.mem_append, mem_freeNames_under] at hx
    rw [freeIdsBefore, List.mem_append]
    have hlater (hx : x ∈ freeNames (writesList rest ++ under rest found))
        (hd : x ∉ [d].filterMap Decl.name) :
        x ∈ (freeIdsBefore inner rest).filter (!d.name.toList.contains ·) := by
      refine List.mem_filter.2 ⟨ih hx, ?_⟩
      cases hname : d.name <;> simp_all
    rcases hx with (hx | ⟨hx, hd⟩) | ⟨hx, hds⟩
    · exact .inl (d.freeNames_writes_subset hx)
    · exact .inr (hlater (by simp [hx]) hd)
    · rw [← List.singleton_append, List.filterMap_append, List.mem_append, not_or] at hds
      refine .inr (hlater ?_ hds.1)
      rw [freeNames_append, List.mem_append, mem_freeNames_under]
      exact .inr ⟨hx, hds.2⟩

namespace Stmt

mutual

/-- What a statement writes to and does not declare is free in it. -/
theorem freeNames_writes_subset (s : Stmt) : freeNames s.writes ⊆ s.freeIds := by
  intro x hx
  have hone {e : Expr} (hx : x ∈ freeNames (plain [e])) : x ∈ e.ids := by
    simpa using freeNames_plain_subset _ hx
  cases s with
  | decl d c => exact d.freeNames_writes_subset hx
  | block items b c => exact freeNames_writesList_subset items hx
  | expr e c =>
    rw [writes_expr] at hx
    exact hone hx
  | ifThen p t c =>
    rw [writes_ifThen, freeNames_append] at hx
    exact List.mem_append.2 ((List.mem_append.1 hx).imp hone (freeNames_writes_subset t ·))
  | ifElse p t e c =>
    simp only [writes_ifElse, freeNames_append, List.mem_append] at hx
    simp only [freeIds, List.mem_append]
    exact hx.imp (Or.imp hone (freeNames_writes_subset t ·)) (freeNames_writes_subset e ·)
  | forLoop init cond next body c =>
    have hinner : freeNames (plain (cond.toList ++ next.toList) ++ body.writes) ⊆
        Expr.idsOption cond ++ Expr.idsOption next ++ body.freeIds := by
      intro y hy
      rw [freeNames_append] at hy
      refine List.mem_append.2 ((List.mem_append.1 hy).imp (fun hy => ?_)
        (freeNames_writes_subset body ·))
      simpa [Expr.idsOption] using freeNames_plain_subset _ hy
    rcases init with _ | ds | e
    · rw [writes_forLoop_none] at hx
      exact hinner hx
    · rw [writes_forLoop_decls] at hx
      exact Decl.freeNames_writesList_subset hinner ds hx
    · rw [writes_forLoop_expr, List.append_assoc, freeNames_append] at hx
      exact List.mem_append.2 ((List.mem_append.1 hx).imp hone (hinner ·))
  | whileLoop p body c =>
    rw [writes_whileLoop, freeNames_append] at hx
    exact List.mem_append.2 ((List.mem_append.1 hx).imp hone (freeNames_writes_subset body ·))
  | doWhile p body c =>
    rw [writes_doWhile, freeNames_append] at hx
    exact List.mem_append.2 ((List.mem_append.1 hx).imp hone (freeNames_writes_subset body ·))
  | ret value c =>
    rw [writes_ret] at hx
    exact freeNames_plain_subset _ hx
  | label n s c => exact freeNames_writes_subset s hx
  | brk | cont | goto | empty => cases hx

/-- What the items of a block write to and do not declare is free in them. -/
theorem freeNames_writesList_subset (items : List Stmt) :
    freeNames (writesList items) ⊆ freeIdsList items := by
  intro x hx
  cases items with
  | nil => cases hx
  | cons s rest =>
    rw [writesList_cons, freeNames_append, List.mem_append, mem_freeNames_under] at hx
    refine List.mem_append.2 (hx.imp (freeNames_writes_subset s ·) fun ⟨hx, hs⟩ => ?_)
    refine List.mem_filter.2 ⟨freeNames_writesList_subset rest hx, ?_⟩
    rw [binds_eq]
    cases hd : s.declared? with
    | none => simp
    | some d => cases hname : d.name <;> simp_all

end

end Stmt

/-! ### Writes of functions -/

namespace FuncDef

/-- The names that the body of a function writes to and that neither a declaration of it nor a
parameter binds. -/
def freeWrites (f : FuncDef) : List String :=
  (freeNames f.writes).filter (!f.paramNames.contains ·)

theorem freeWrites_subset (f : FuncDef) : f.freeWrites ⊆ f.freeIds := by
  intro x hx
  obtain ⟨hx, hparams⟩ := List.mem_filter.1 hx
  exact List.mem_filter.2 ⟨Stmt.freeNames_writesList_subset f.body.items hx, hparams⟩

/-- An assignment or increment in the body goes to a variable of the file. -/
def WritesGlobal (u : SourceUnit) (f : FuncDef) (x : String) : Prop :=
  x ∈ f.freeWrites ∧ ∃ d ∈ u.globals, d.name = some x

end FuncDef

/-- The name is listed, or a declaration of it that is not external has no initializer. -/
def SourceUnit.DeclaresVariable (listed : List String) (u : SourceUnit) (x : String) : Prop :=
  x ∈ listed ∨ ∃ d ∈ u.globals, d.name = some x ∧ d.init = none ∧ d.isExternal = false

section Units

variable {u : SourceUnit} {config : ExtractConfig} {batch : List Kernel} {f : FuncDef} {x : String}

theorem SourceUnit.declaresVariable_iff {listed : List String}
    (hx : ∃ d ∈ u.globals, d.name = some x) :
    u.DeclaresVariable listed x ↔ x ∈ (u.globalNames listed).vars := by
  rw [mem_vars_globalNames]
  constructor
  · rintro (hlisted | ⟨d, hd, hname, hvar⟩)
    · obtain ⟨d, hd, hname⟩ := hx
      exact ⟨d, hd, hname, .inl hlisted⟩
    · exact ⟨d, hd, hname, .inr hvar⟩
  · rintro ⟨d, hd, hname, hlisted | hvar⟩
    · exact .inl hlisted
    · exact .inr ⟨d, hd, hname, hvar⟩

/-- A function depends on a variable that it writes to, under the kind that the variable has. -/
theorem FuncDef.WritesGlobal.mem_dependencies (hx : f.WritesGlobal u x) (listed : List String)
    (hblocks : Stmt.declsInBlocksList f.body.items) :
    (x ∈ (f.dependencies (u.globalNames listed)).ofKind .var ↔
      x ∈ (u.globalNames listed).vars) ∧
    (x ∈ (f.dependencies (u.globalNames listed)).ofKind .constant ↔
      x ∉ (u.globalNames listed).vars) := by
  have hglobal : x ∈ (u.globalNames listed).vars ∨ x ∈ (u.globalNames listed).constants :=
    SourceUnit.mem_globalNames.2 hx.2
  have hdep := FuncDef.mem_dependencies_of_mem_freeIds hblocks (f.freeWrites_subset hx.1)
    (or_assoc.1 (.inl hglobal))
  refine ⟨⟨mem_vars_of_mem_dependencies, fun hvar => ?_⟩,
    ⟨not_mem_vars_of_mem_dependencies, fun hvar => ?_⟩⟩
  · exact hdep.resolve_right fun h => not_mem_vars_of_mem_dependencies h hvar
  · exact hdep.resolve_left fun h => hvar (mem_vars_of_mem_dependencies h)

/-- The kernel of a name is a variable's if the name is classified as one. -/
theorem SourceUnit.kind_eq_var_iff (h : u.extract config = .ok batch) {k : Kernel} (hk : k ∈ batch)
    {v : ValueKernel} (hv : k.value? = some v) :
    k.kind = .var ↔ v.name ∈ (u.globalNames config.vars).vars := by
  have horigin := isFrom_of_mem_batch h hk
  cases k with
  | constant v' =>
    cases hv
    exact iff_of_false nofun horigin.1
  | var v' =>
    cases hv
    exact iff_of_true rfl horigin.1
  | function k => cases hv

/-! ### Programs -/

namespace Linker

/-- The names that a program declares constant. -/
def constantNames (l : Linker) (r : Resolution) : List String :=
  (r.constants.filterMap l.constant?).map ValueKernel.name

/-- No program over the kernels of a unit declares a variable of the unit constant. -/
theorem not_mem_constantNames (h : u.extract config = .ok batch)
    (hvar : x ∈ (u.globalNames config.vars).vars) {entry : String} {r : Resolution}
    (hr : (withBuiltins.registerAll batch).resolve entry = .ok r) :
    x ∉ (withBuiltins.registerAll batch).constantNames r := by
  intro hx
  obtain ⟨v, hv, rfl⟩ := List.mem_map.1 hx
  obtain ⟨y, hy, hconstant⟩ := List.mem_filterMap.1 hv
  obtain ⟨-, -, rfl⟩ : .constant v ∈ builtinKernels ++ batch ∧
      (Kernel.constant v).kind = .constant ∧ (Kernel.constant v).name = y := by
    refine kernel?_withBuiltins ?_
    rw [kernel?, hconstant]
    rfl
  obtain ⟨hkind, -⟩ | ⟨f, -, href⟩ := (resolve_uses hr).2.1 _ hy
  · cases hkind
  -- Only functions of the unit refer to anything, and to the name as that of a variable.
  unfold refs at href
  split at href
  · next k hk =>
    have hkernel : (withBuiltins.registerAll batch).kernel? .function f = some (.function k) := by
      rw [kernel?, hk]
      rfl
    rcases List.mem_append.1 (kernel?_withBuiltins hkernel).1 with hbuiltin | hbatch
    · rw [builtinKernels_deps hbuiltin] at href
      cases href
    · obtain ⟨hkind, -⟩ := SourceUnit.kind_of_mem_deps h hbatch (by simp) href
      have hkind : KernelKind.constant =
          if v.name ∈ (u.globalNames config.vars).vars then .var else .constant := hkind
      rw [if_pos hvar] at hkind
      cases hkind
  · cases href

end Linker

/-- Where the body of a function writes to a variable of the file, all kernels of the variable and
the dependencies of the function take it for a variable if its name is listed or one of its
definitions has no initializer, and for a constant otherwise. So if all written variables are
listed or defined without an initializer, no body writes to a constant, and no program over the
kernels of the unit declares a written variable constant. -/
theorem SourceUnit.extract_writes (h : u.extract config = .ok batch) :
    ∀ f ∈ u.funcs, ∀ x, f.WritesGlobal u x →
      (∀ k ∈ batch, ∀ v, k.value? = some v → v.name = x →
        (k.kind = .var ↔ u.DeclaresVariable config.vars x)) ∧
      (Stmt.declsInBlocksList f.body.items →
        (x ∈ (f.dependencies (u.globalNames config.vars)).ofKind .var ↔
          u.DeclaresVariable config.vars x) ∧
        (x ∈ (f.dependencies (u.globalNames config.vars)).ofKind .constant ↔
          ¬u.DeclaresVariable config.vars x)) ∧
      (u.DeclaresVariable config.vars x → ∀ entry target text,
        (Linker.withBuiltins.registerAll batch).program entry target = .ok text →
          ∃ r, (Linker.withBuiltins.registerAll batch).resolve entry = .ok r ∧
            text = "\n".intercalate ((Linker.withBuiltins.registerAll batch).sections r target) ∧
            x ∉ (Linker.withBuiltins.registerAll batch).constantNames r) := by
  intro f _ x hx
  rw [declaresVariable_iff hx.2]
  refine ⟨fun k hk v hv hname => ?_, fun hblocks => hx.mem_dependencies _ hblocks,
    fun hvar entry target text hprogram => ?_⟩
  · rw [← hname]
    exact kind_eq_var_iff h hk hv
  · obtain ⟨r, hr, hprogram⟩ := Except.bind_eq_ok hprogram
    refine ⟨r, hr, ?_, Linker.not_mem_constantNames h hvar hr⟩
    split at hprogram
    · cases hprogram
    · exact (Except.ok.inj hprogram).symm

end Units

/-! ### Examples -/

/-- The function `float f(float x) { g = x; return g; }`. -/
def storingFunc : FuncDef where
  decl := .prototype "f" .float [.ofScalar "x" .float none]
  body.items := [
    .expr (.assign .assign (.id "g" none) (.id "x" none) none) none,
    .ret (some (.id "g" none)) none]
  body.coord := none
  coord := none

/-- The function after `float g = 1.0;`. -/
def storingUnit : SourceUnit :=
  ⟨[.decl (.ofScalar "g" .float (some (.float "1.0" none))), .func storingFunc], none⟩

theorem storingFunc_writesGlobal : storingFunc.WritesGlobal storingUnit "g" := by
  refine ⟨by decide +kernel, .ofScalar "g" .float (some (.float "1.0" none)), ?_, rfl⟩
  exact SourceUnit.mem_globals.2 ⟨List.mem_cons_self, rfl⟩

theorem extract_writes_storingUnit :
    ∃ batch r text, storingUnit.extract { vars := ["g"] } = .ok batch ∧
      (∀ v, .constant v ∈ batch → v.name ≠ "g") ∧
      (Linker.withBuiltins.registerAll batch).program "f" .js = .ok text ∧
      (Linker.withBuiltins.registerAll batch).resolve "f" = .ok r ∧
      "g" ∉ (Linker.withBuiltins.registerAll batch).constantNames r := by
  have hok : (do
      let batch ← storingUnit.extract { vars := ["g"] } |>.toOption
      guard (Linker.AvoidsBuiltins batch ∧ "f" ∈ batch.map Kernel.name)
      (Linker.empty.registerAll batch).program "f" .js |>.toOption).isSome := by
    decide +kernel
  obtain ⟨text, hok⟩ := Option.isSome_iff_exists.1 hok
  obtain ⟨batch, hextract, hok⟩ := Option.bind_eq_some_iff.1 hok
  obtain ⟨_, hguard, hprogram⟩ := Option.bind_eq_some_iff.1 hok
  obtain ⟨havoids, hentry⟩ : Linker.AvoidsBuiltins batch ∧ "f" ∈ batch.map Kernel.name := by
    simpa [guard] using hguard
  replace hextract := Except.eq_ok_of_toOption hextract
  replace hprogram := ((havoids.agrees hentry).program_eq .js).trans
    (Except.eq_ok_of_toOption hprogram)
  obtain ⟨hkinds, -, hprograms⟩ := SourceUnit.extract_writes hextract storingFunc
    (by simp [storingUnit, SourceUnit.funcs]) "g" storingFunc_writesGlobal
  have hlisted : storingUnit.DeclaresVariable ["g"] "g" := .inl List.mem_cons_self
  obtain ⟨r, hr, -, hconstant⟩ := hprograms hlisted _ _ _ hprogram
  refine ⟨batch, r, text, hextract, fun v hv hname => ?_, hprogram, hr, hconstant⟩
  cases (hkinds _ hv v rfl hname).2 hlisted

/-- The program of the function with the variable as a constant. -/
def storingProgram : String :=
  "const g = 1.0;\n\nfunction f(x) " ++ openBrace ++ "\n    g = x;\n    return g;\n" ++
    closeBrace ++ "\n"

/-- A variable that is initialized and not listed is a constant, and the program of a function that
writes to it declares it so. -/
theorem program_storingUnit :
    ∃ batch v, storingUnit.extract {} = .ok batch ∧ .constant v ∈ batch ∧ v.name = "g" ∧
      storingFunc ∈ storingUnit.funcs ∧ storingFunc.WritesGlobal storingUnit "g" ∧
      (Linker.withBuiltins.registerAll batch).program "f" .js =
        .ok storingProgram := by
  have hok : (do
      let batch ← storingUnit.extract {} |>.toOption
      let k ← batch.head?
      guard (k.kind = .constant ∧ k.name = "g" ∧ Linker.AvoidsBuiltins batch ∧
        "f" ∈ batch.map Kernel.name)
      (Linker.empty.registerAll batch).program "f" .js |>.toOption) =
        some storingProgram := by
    decide +kernel
  obtain ⟨batch, hextract, hok⟩ := Option.bind_eq_some_iff.1 hok
  obtain ⟨k, hhead, hok⟩ := Option.bind_eq_some_iff.1 hok
  obtain ⟨_, hguard, hprogram⟩ := Option.bind_eq_some_iff.1 hok
  obtain ⟨hkind, hname, havoids, hentry⟩ : k.kind = .constant ∧ k.name = "g" ∧
      Linker.AvoidsBuiltins batch ∧ "f" ∈ batch.map Kernel.name := by
    simpa [guard] using hguard
  cases k with
  | constant v =>
    exact ⟨batch, v, Except.eq_ok_of_toOption hextract, List.mem_of_mem_head? hhead, hname,
      by simp [storingUnit, SourceUnit.funcs], storingFunc_writesGlobal,
      ((havoids.agrees hentry).program_eq .js).trans (Except.eq_ok_of_toOption hprogram)⟩
  | var | function => cases hkind

end MathKernel
