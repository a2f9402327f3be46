import MathKernel.Normalize.Idioms
import MathKernel.Proofs.Syntax.FreeNames
import MathKernel.Proofs.Syntax.Recordings

/-!
# Expressions with idioms folded

An idiom is folded into the call of a function on its operand, which is a part of the idiom. So what
holds everywhere in an expression and of such calls holds everywhere in the folded expression.

## Main definitions

* `Expr.idiomNode` — a node, folded if it is the idiom
* `Expr.OperandBelow` — the operand of an idiom is below its node

## Main results

* `Expr.everywhere_idioms` — properties of folded expressions
* `Expr.ids_idioms` — folding adds no names
-/

namespace MathKernel

namespace Expr

/-- The call that a node is folded into if it is the idiom, or else the node. -/
def idiomNode (operand? : Expr → Option Expr) (callee : String) (e : Expr) : Expr :=
  (foldIdiom? operand? callee e).getD e

/-- The operand of the idiom is below its node. -/
def OperandBelow (operand? : Expr → Option Expr) : Prop :=
  ∀ e x, operand? e = some x → ∀ part ∈ x.subexprs, part ∈ e.parts.flatMap subexprs

variable {operand? : Expr → Option Expr} {callee : String} {p q : Expr → Prop}

/-- A property holds everywhere in a folded expression if it holds of the calls, and of the nodes
that are not folded. -/
theorem everywhere_idioms (hoperand : OperandBelow operand?) (hcall : ∀ x c, q (call callee [x] c))
    (hnode : ∀ e, p e → q (e.withParts (e.parts.map (rebuild (idiomNode operand? callee)))))
    {e : Expr} (h : e.Everywhere p) : (e.rebuild (idiomNode operand? callee)).Everywhere q := by
  induction e using parts_induction with
  | h e ih =>
    obtain ⟨he, hparts⟩ := everywhere_iff.1 h
    rw [rebuild_eq]
    have hbelow : ∀ part ∈ (e.withParts (e.parts.map (rebuild (idiomNode operand? callee)))).parts,
        part.Everywhere q := by
      rw [parts_withParts (List.length_map _), List.forall_mem_map]
      exact fun part hpart => ih part hpart (hparts part hpart)
    revert hbelow
    specialize hnode e he
    generalize e.withParts (e.parts.map (rebuild (idiomNode operand? callee))) = node at hnode ⊢
    intro hbelow
    rw [idiomNode, foldIdiom?]
    cases hx : operand? node with
    | none => exact everywhere_iff.2 ⟨hnode, hbelow⟩
    | some x =>
      refine everywhere_call.2 ⟨hcall x _, List.forall_mem_singleton.2 fun s hs => ?_⟩
      obtain ⟨part, hpart, hs⟩ := List.mem_flatMap.1 (hoperand node x hx s hs)
      exact hbelow part hpart s hs

/-- Folding adds no names. -/
theorem ids_idioms (hoperand : OperandBelow operand?) {e : Expr} {name : String}
    (h : name ∈ (e.rebuild (idiomNode operand? callee)).ids) : name ∈ e.ids := by
  have hids : e.Everywhere fun s => ∀ x, s.idName? = some x → x ∈ e.ids := fun s hs x hx =>
    List.mem_filterMap.2 ⟨s, hs, hx⟩
  have hfolded : (e.rebuild (idiomNode operand? callee)).Everywhere
      fun s => ∀ x, s.idName? = some x → x ∈ e.ids := by
    refine everywhere_idioms hoperand (fun _ _ _ hx => ?_) (fun s => ?_) hids
    · cases hx
    · exact isHeadProperty_idName? (fun name => ∀ x, name = some x → x ∈ e.ids) s _
  obtain ⟨s, hs, hname⟩ := List.mem_filterMap.1 h
  exact hfolded s hs name hname

end Expr

end MathKernel
