import MathKernel.Kernel.Dependencies
import MathKernel.Normalize.Recursion
import MathKernel.Proofs.Syntax.FreeNames

/-!
# What the dependencies of a function hold

A function depends on a name under a kind exactly when some node of its body refers to it there:
a call to a function, or an identifier that is not hidden to a variable or constant of the file.
So the dependencies hold every called name and every free identifier that the file declares.

## Main definitions

* `Dependencies.ofKind` — the names of one kind
* `Expr.reference?` — what one node refers to
* `Block.calledNames`, `FuncDef.calledNames` — the names that a body calls

## Main results

* `FuncDef.mem_dependencies` — the dependencies, node by node
* `FuncDef.mem_dependencies_of_mem_freeIds`, `FuncDef.mem_dependencies_of_mem_calledNames`
-/

namespace MathKernel

namespace Dependencies

/-- The names of one kind that a function refers to. -/
def ofKind (d : Dependencies) : KernelKind → List String
  | .constant => d.constants.toList
  | .var => d.vars.toList
  | .function => d.functions.toList

theorem nodup_ofKind (d : Dependencies) (kind : KernelKind) : (d.ofKind kind).Nodup := by
  have hset (s : NameSet) : s.toList.Nodup := s.increasing.imp fun h => String.ne_of_lt h
  cases kind <;> exact hset _

@[simp] theorem ofKind_none (kind : KernelKind) : none.ofKind kind = [] := by
  cases kind <;> rfl

end Dependencies

/-- What a node refers to where the given names are hidden. -/
def Expr.reference? (globals : GlobalNames) (hidden : List String) :
    Expr → Option (KernelKind × String)
  | .call callee _ _ => some (.function, callee)
  | .id name _ =>
    if hidden.contains name then none
    else if globals.vars.contains name then some (.var, name)
    else if globals.constants.contains name || builtinConstants.contains name then
      some (.constant, name)
    else none
  | _ => none

namespace Dependencies

variable {globals : GlobalNames} {hidden : List String} {kind : KernelKind} {x : String}

theorem mem_addNode {d : Dependencies} {e : Expr} :
    x ∈ (d.addNode globals hidden e).ofKind kind ↔
      x ∈ d.ofKind kind ∨ e.reference? globals hidden = some (kind, x) := by
  cases e with
  | call callee args c =>
    cases kind <;> simp [addNode, Expr.reference?, ofKind, eq_comm, or_comm]
  | id name c =>
    simp only [addNode, Expr.reference?, addGlobal]
    split
    · simp
    · split
      · cases kind <;> simp [ofKind, eq_comm, or_comm]
      · split
        · cases kind <;> simp [ofKind, eq_comm, or_comm]
        · simp
  | _ => simp [addNode, Expr.reference?]

theorem mem_foldl_addNode {nodes : List (List String × Expr)} {d : Dependencies} :
    x ∈ (nodes.foldl (fun d (hidden, e) => d.addNode globals hidden e) d).ofKind kind ↔
      x ∈ d.ofKind kind ∨ ∃ p ∈ nodes, p.2.reference? globals p.1 = some (kind, x) := by
  induction nodes generalizing d with
  | nil => simp
  | cons p rest ih =>
    rw [List.foldl_cons, ih, mem_addNode]
    simp [or_assoc]

end Dependencies

namespace FuncDef

variable {globals : GlobalNames} {kind : KernelKind} {f : FuncDef} {x : String}

/-- A function depends on what its nodes refer to. -/
theorem mem_dependencies :
    x ∈ (f.dependencies globals).ofKind kind ↔
      ∃ p ∈ f.scopedNodes, p.2.reference? globals p.1 = some (kind, x) := by
  simp [dependencies, Dependencies.mem_foldl_addNode]

theorem mem_vars_of_mem_dependencies (h : x ∈ (f.dependencies globals).ofKind .var) :
    x ∈ globals.vars := by
  obtain ⟨⟨hidden, e⟩, -, href⟩ := mem_dependencies.1 h
  cases e with
  | id name c => grind [Expr.reference?]
  | _ => simp [Expr.reference?] at href

theorem not_mem_vars_of_mem_dependencies (h : x ∈ (f.dependencies globals).ofKind .constant) :
    x ∉ globals.vars := by
  obtain ⟨⟨hidden, e⟩, -, href⟩ := mem_dependencies.1 h
  cases e with
  | id name c => grind [Expr.reference?]
  | _ => simp [Expr.reference?] at href

/-- The walk meets a free identifier at a node of its own. -/
theorem exists_scopedNodes_of_mem_freeIds (h : Stmt.declsInBlocksList f.body.items)
    (hx : x ∈ f.freeIds) : ∃ hidden c, (hidden, .id x c) ∈ f.scopedNodes ∧ x ∉ hidden := by
  obtain ⟨hbody, hparams⟩ := List.mem_filter.1 hx
  have hparams : x ∉ f.paramNames := by simpa using hparams
  obtain ⟨⟨hidden, e⟩, he, hxe, hhidden⟩ :=
    Stmt.exists_scopedExprs_of_mem_freeIdsList f.body.items f.paramNames x h hbody hparams
  obtain ⟨node, hnode, hid⟩ := List.mem_filterMap.1 hxe
  cases node with
  | id name c =>
    obtain rfl : name = x := by simpa [Expr.idName?] using hid
    exact ⟨hidden, c, List.mem_flatMap.2 ⟨_, he, List.mem_map_of_mem hnode⟩, hhidden⟩
  | _ => simp [Expr.idName?] at hid

/-- A free identifier that the file declares, or not-a-number, is a dependency. -/
theorem mem_dependencies_of_mem_freeIds (h : Stmt.declsInBlocksList f.body.items)
    (hx : x ∈ f.freeIds)
    (hglobal : x ∈ globals.vars ∨ x ∈ globals.constants ∨ x ∈ builtinConstants) :
    x ∈ (f.dependencies globals).ofKind .var ∨
      x ∈ (f.dependencies globals).ofKind .constant := by
  obtain ⟨hidden, c, hnode, hhidden⟩ := exists_scopedNodes_of_mem_freeIds h hx
  by_cases hvar : x ∈ globals.vars
  · exact .inl (mem_dependencies.2 ⟨_, hnode, by simp [Expr.reference?, hhidden, hvar]⟩)
  · have hconstant : x ∈ globals.constants ∨ x ∈ builtinConstants := hglobal.resolve_left hvar
    refine .inr (mem_dependencies.2 ⟨_, hnode, ?_⟩)
    simpa [Expr.reference?, hhidden, hvar] using hconstant.resolve_left

end FuncDef

/-- The names that a body calls. -/
def Block.calledNames (b : Block) : List String :=
  b.exprs.filterMap Expr.callee?

/-- The names that a function's body calls. -/
def FuncDef.calledNames (f : FuncDef) : List String :=
  f.body.calledNames

/-- A called name is a dependency. -/
theorem FuncDef.mem_dependencies_of_mem_calledNames {globals : GlobalNames} {f : FuncDef}
    {x : String} (hx : x ∈ f.calledNames) : x ∈ (f.dependencies globals).ofKind .function := by
  obtain ⟨node, hnode, hcallee⟩ := List.mem_filterMap.1 hx
  obtain ⟨part, hpart, hnode⟩ := List.mem_flatMap.1 hnode
  obtain ⟨e, he, hnode⟩ := List.mem_flatMap.1 hnode
  obtain ⟨hidden, hseen⟩ : ∃ hidden, (hidden, e) ∈
      (Stmt.scopedExprsList declareName f.paramNames f.body.items).1 :=
    Stmt.exists_scopedExprs_of_mem_substmtsList f.body.items f.paramNames hpart he
  have hmem : (hidden, node) ∈ f.scopedNodes :=
    List.mem_flatMap.2 ⟨_, hseen, List.mem_map_of_mem hnode⟩
  cases node with
  | call callee args c =>
    obtain rfl : callee = x := by simpa [Expr.callee?] using hcallee
    exact mem_dependencies.2 ⟨_, hmem, rfl⟩
  | _ => simp [Expr.callee?] at hcallee

end MathKernel
