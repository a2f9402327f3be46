import MathKernel.Normalize.Recursion
import MathKernel.Proofs.Normalize.CoercedBodies
import MathKernel.Proofs.Semantics.Activations

/-!
# Calls that are sent elsewhere

A call is sent to another function, or is cut off: not-a-number stands in its place. If the
functions that calls are sent to do at least what the called ones do, and calls that are cut off
would get stuck, then an expression evaluates below its new form. What a cut call leaves behind is
never evaluated, but its type matters: in a conditional it decides about the type of the other
branch.

## Main definitions

* `Expr.sendCall` — the call that stands for a call
* `CallBelow`, `Sends` — what is asked of the functions that calls are sent to
* `Expr.Sendable` — what is asked of a node

## Main results

* `Expr.eval_sent` — the evaluation of expressions whose calls are sent
* `Expr.sendable_of_forall_some`, `Expr.sendable_of_joins` — when nodes can be sent
-/

namespace MathKernel

open MathKernel.Action

/-! ### Calls -/

/-- Send a call to the function that is given for its callee, or cut it off if there is none. -/
def Expr.sendCall (target : String → Option String) : Expr → Expr
  | .call callee args c =>
    match target callee with
    | some new => .call new args c
    | none => .id notANumber c
  | e => e

/-- Whether applying a function is calling it. Conversions and the remainder are computed. -/
def isCalled (name : String) : Bool :=
  (ScalarType.ofCName? name).isNone && name != remainderFunction

namespace Context

variable {calls calls' : Calls} {name : String}

theorem apply_of_isCalled (h : isCalled name) (ctx : Context) (args : List Argument) :
    ctx.apply calls name args =
      match ctx.signature? name with
      | none => .stuck
      | some s => calls name args >>= fun v => if v.type = s.result then pure v else .stuck := by
  rw [isCalled, Bool.and_eq_true, Option.isNone_iff_eq_none, bne_iff_ne] at h
  rw [apply, h.1]
  exact if_neg h.2

theorem apply_of_not_isCalled (h : ¬isCalled name) (ctx ctx' : Context) (args : List Argument) :
    ctx.apply calls name args = ctx'.apply calls' name args := by
  unfold apply
  split
  · rfl
  · next hname =>
    have hremainder : name = remainderFunction := by simpa [isCalled, hname] using h
    rw [if_pos hremainder, if_pos hremainder]

/-- A function that gets stuck is stuck where it is applied. -/
theorem apply_stuck (h : isCalled name) (hstuck : ∀ args, calls name args = stuck) (ctx : Context)
    (args : List Argument) : ctx.apply calls name args = stuck := by
  rw [apply_of_isCalled h, hstuck]
  cases ctx.signature? name <;> rfl

end Context

/-- What calls of a function do among the names of one file, calls of another function do among
those of another file. -/
structure CallBelow (calls calls' : Calls) (file file' : Context) (name new : String) : Prop where
  signature : file'.signature? new = file.signature? name
  applied : new = name ∨ (isCalled name ∧ isCalled new)
  below (args : List Argument) : (calls name args).Below (calls' new args)

/-- Calls of the named functions are sent to functions that do what they do, or are cut off and
would get stuck. The other file knows the functions of the first one. -/
structure Sends (calls calls' : Calls) (file file' : Context) (names : List String)
    (target : String → Option String) : Prop where
  known {name : String} {s : Signature} :
    file.signature? name = some s → file'.signature? name = some s
  kept {name new : String} :
    name ∈ names → target name = some new → CallBelow calls calls' file file' name new
  cut {name : String} :
    name ∈ names → target name = none → isCalled name ∧ ∀ args, calls name args = stuck

section Calls

variable {calls calls' : Calls} {file file' ctx : Context} {names : List String}
  {target : String → Option String} {name new : String}

theorem CallBelow.apply (h : CallBelow calls calls' file file' name new)
    (hctx : ctx.functions = file.functions) (args : List Argument) :
    (ctx.apply calls name args).Below ((ctx.withFunctions file').apply calls' new args) := by
  have hsignature : (ctx.withFunctions file').signature? new = ctx.signature? name :=
    h.signature.trans (congrArg (List.lookup name) hctx.symm)
  by_cases hname : isCalled name
  · have hnew : isCalled new := by
      rcases h.applied with rfl | ⟨-, hnew⟩
      · exact hname
      · exact hnew
    rw [Context.apply_of_isCalled hname, Context.apply_of_isCalled hnew, hsignature]
    cases ctx.signature? name with
    | none => exact matched_stuck _
    | some s => exact (h.below args).bind fun v => below_refl _
  · obtain rfl : new = name := h.applied.resolve_right fun h => hname h.1
    rw [Context.apply_of_not_isCalled hname ctx (ctx.withFunctions file')]
    exact below_refl _

end Calls

/-! ### Expressions -/

namespace Expr

/-- Whether a conditional makes floating numbers of its values. -/
def joinsFloat (ctx : Context) : Expr → Bool
  | ternary _ t e _ => t.ctype ctx == .float || e.ctype ctx == .float
  | _ => false

/-- A call is one of a named function, and a conditional joins its branches as its new form does. -/
structure Sendable (names : List String) (target : String → Option String) (ctx file' : Context)
    (e : Expr) : Prop where
  callee : ∀ name ∈ e.callee?, name ∈ names
  joins : (e.rebuild (sendCall target)).joinsFloat (ctx.withFunctions file') = e.joinsFloat ctx

theorem implicit_join_eq {s t s' t' : ScalarType}
    (h : (s == .float || t == .float) = (s' == .float || t' == .float)) :
    Rules.implicit.join s t = Rules.implicit.join s' t' := by
  rw [Bool.eq_iff_iff] at h
  simp only [Bool.or_eq_true, beq_iff_eq] at h
  funext v
  simp only [Rules.implicit, h]

section Sent

variable {calls calls' : Calls} {file file' ctx : Context} {names : List String}
  {target : String → Option String}

/-- A call that is cut off gets stuck. -/
theorem eval_cut (h : Sends calls calls' file file' names target) (rules : Rules) {callee : String}
    (hcallee : callee ∈ names) (htarget : target callee = none) (args : List Expr) (c : Coord) :
    (call callee args c).eval rules calls ctx = stuck := by
  obtain ⟨hcalled, hstuck⟩ := h.cut hcallee htarget
  rw [eval]
  simp only [Context.apply_stuck hcalled hstuck]
  exact bind_stuck _

/-- An expression names the same array and is the same text as its new form, or it is a call that
gets stuck. -/
theorem sent_cases (ctx : Context) (h : Sends calls calls' file file' names target)
    (rules : Rules) {e : Expr} (hcallee : ∀ name ∈ e.callee?, name ∈ names) :
    ((ctx.withFunctions file').array? (e.rebuild (sendCall target)) = ctx.array? e ∧
        (e.rebuild (sendCall target)).text? = e.text?) ∨
      (e.eval rules calls ctx = stuck ∧ ctx.array? e = none ∧ e.text? = none) := by
  cases e with
  | call callee args c =>
    rw [rebuild_call, sendCall]
    cases htarget : target callee with
    | some new => exact .inl ⟨rfl, rfl⟩
    | none => exact .inr ⟨eval_cut h rules (hcallee callee rfl) htarget args c, rfl, rfl⟩
  | initList | comma => simp [sendCall, Context.array?, text?]
  | _ => exact .inl ⟨rfl, rfl⟩

theorem element_sent (h : Sends calls calls' file file' names target) {rules : Rules} {a i : Expr}
    (ha : ∀ name ∈ a.callee?, name ∈ names) (hi : ∀ name ∈ i.callee?, name ∈ names)
    {evalA evalI : Action Scalar} (hevalA : (a.eval rules calls ctx).Below evalA)
    (hevalI : (i.eval rules calls ctx).Below evalI) :
    (ctx.element rules a i (a.eval rules calls ctx) (i.eval rules calls ctx)).Below
      ((ctx.withFunctions file').element rules (a.rebuild (sendCall target))
        (i.rebuild (sendCall target)) evalA evalI) := by
  unfold Context.element
  rcases sent_cases ctx h rules ha with ⟨harray, -⟩ | ⟨hstuck, harray, -⟩
  · rw [harray]
    cases ctx.array? a with
    | some b => exact hevalI.bind fun v => below_refl _
    | none =>
      rcases sent_cases ctx h rules hi with ⟨hindex, -⟩ | ⟨-, hindex, -⟩
      · rw [hindex]
        cases ctx.array? i with
        | some b => exact hevalA.bind fun v => below_refl _
        | none => exact matched_stuck _
      · rw [hindex]
        exact matched_stuck _
  · rw [harray, hstuck]
    cases ctx.array? i <;> exact matched_stuck _

theorem argument_sent (h : Sends calls calls' file file' names target) {rules : Rules} {e : Expr}
    (he : ∀ name ∈ e.callee?, name ∈ names) {evalE : Action Scalar}
    (heval : (e.eval rules calls ctx).Below evalE) (param : Option ScalarType) :
    (ctx.argument rules param e (e.eval rules calls ctx)).Below
      ((ctx.withFunctions file').argument rules param (e.rebuild (sendCall target)) evalE) := by
  unfold Context.argument
  rcases sent_cases ctx h rules he with ⟨harray, htext⟩ | ⟨hstuck, harray, htext⟩
  · rw [harray, htext]
    split
    · exact below_refl _
    · exact below_refl _
    · exact heval.bind fun v => below_refl _
  · rw [harray, htext, hstuck]
    exact matched_stuck _

mutual

/-- An expression evaluates below its new form. -/
theorem eval_sent (h : Sends calls calls' file file' names target)
    (hctx : ctx.functions = file.functions) (e : Expr)
    (he : e.Everywhere (Sendable names target ctx file')) :
    (e.eval .implicit calls ctx).Below
      ((e.rebuild (sendCall target)).eval .implicit calls' (ctx.withFunctions file')) := by
  cases e with
  | id n c => exact below_refl _
  | literal v c => exact below_refl _
  | binary op l r c =>
    obtain ⟨-, hl, hr⟩ := everywhere_binary.1 he
    have hr := eval_sent h hctx r hr
    simp only [rebuild_binary, sendCall, eval]
    refine (eval_sent h hctx l hl).bind fun v => matched_ite ?_ (hr.bind fun w => below_refl _)
    exact matched_bind _ fun b => matched_ite (below_refl _) (hr.bind fun w => below_refl _)
  | unary op e c =>
    obtain ⟨-, he⟩ := everywhere_unary.1 he
    simp only [rebuild_unary, sendCall, eval]
    exact matched_ite ((evalCell_sent h hctx e he).bind fun cell => below_refl _)
      ((eval_sent h hctx e he).bind fun v => below_refl _)
  | assign op t v c =>
    obtain ⟨-, ht, hv⟩ := everywhere_assign.1 he
    have hv := eval_sent h hctx v hv
    simp only [rebuild_assign, sendCall, eval]
    refine (evalCell_sent h hctx t ht).bind fun cell => ?_
    cases op.binary? with
    | none => exact hv.bind fun w => below_refl _
    | some b => exact matched_bind _ fun old => hv.bind fun w => below_refl _
  | ternary p t e c =>
    obtain ⟨⟨-, hjoins⟩, hp, ht, he⟩ := everywhere_ternary.1 he
    simp only [rebuild_ternary, sendCall, joinsFloat] at hjoins
    simp only [rebuild_ternary, sendCall, eval, implicit_join_eq hjoins]
    refine (eval_sent h hctx p hp).bind fun v => matched_bind _ fun b => ?_
    exact matched_ite ((eval_sent h hctx t ht).bind fun w => below_refl _)
      ((eval_sent h hctx e he).bind fun w => below_refl _)
  | call callee args c =>
    obtain ⟨⟨hcallee, -⟩, hargs⟩ := everywhere_call.1 he
    have hcallee := hcallee callee rfl
    rw [rebuild_call, sendCall]
    cases htarget : target callee with
    | none =>
      -- A call that is cut off has no value, so there is nothing to compare.
      rw [eval_cut h .implicit hcallee htarget]
      exact matched_stuck _
    | some new =>
      have hkept := h.kept hcallee htarget
      have hsignature : (ctx.withFunctions file').signature? new = ctx.signature? callee :=
        hkept.signature.trans (congrArg (List.lookup callee) hctx.symm)
      simp only [eval, hsignature]
      exact (evalArgs_sent h hctx _ 0 args hargs).bind fun values => hkept.apply hctx values
  | cast t e c =>
    obtain ⟨-, he⟩ := everywhere_cast.1 he
    simp only [rebuild_cast, sendCall, eval]
    exact (eval_sent h hctx e he).bind fun v => below_refl _
  | index a i c =>
    obtain ⟨-, ha, hi⟩ := everywhere_index.1 he
    have hcell := element_sent h (everywhere_iff.1 ha).1.callee (everywhere_iff.1 hi).1.callee
      (eval_sent h hctx a ha) (eval_sent h hctx i hi)
    simp only [rebuild_index, sendCall, eval]
    exact hcell.bind fun cell => below_refl _
  | initList items c => exact matched_stuck _
  | comma items c =>
    obtain ⟨-, hitems⟩ := everywhere_comma.1 he
    simp only [rebuild_comma, sendCall, eval]
    exact evalLast_sent h hctx items hitems

/-- The cell of an expression is found below that of its new form. -/
theorem evalCell_sent (h : Sends calls calls' file file' names target)
    (hctx : ctx.functions = file.functions) (e : Expr)
    (he : e.Everywhere (Sendable names target ctx file')) :
    (e.evalCell .implicit calls ctx).Below
      ((e.rebuild (sendCall target)).evalCell .implicit calls' (ctx.withFunctions file')) := by
  cases e with
  | id n c => exact below_refl _
  | index a i c =>
    obtain ⟨-, ha, hi⟩ := everywhere_index.1 he
    simp only [rebuild_index, sendCall, evalCell]
    exact element_sent h (everywhere_iff.1 ha).1.callee (everywhere_iff.1 hi).1.callee
      (eval_sent h hctx a ha) (eval_sent h hctx i hi)
  | _ => exact matched_stuck _

theorem evalArgs_sent (h : Sends calls calls' file file' names target)
    (hctx : ctx.functions = file.functions) (signature : Option Signature) (i : Nat)
    (args : List Expr) (hargs : ∀ e ∈ args, e.Everywhere (Sendable names target ctx file')) :
    (evalArgs .implicit calls ctx signature i args).Below
      (evalArgs .implicit calls' (ctx.withFunctions file') signature i
        (args.map (rebuild (sendCall target)))) := by
  cases args with
  | nil => exact below_refl _
  | cons e rest =>
    obtain ⟨he, hrest⟩ := List.forall_mem_cons.1 hargs
    have harg := argument_sent h (everywhere_iff.1 he).1.callee (eval_sent h hctx e he)
    simp only [List.map_cons, evalArgs]
    exact (harg _).bind fun arg =>
      (evalArgs_sent h hctx signature (i + 1) rest hrest).bind fun values => below_refl _

theorem evalLast_sent (h : Sends calls calls' file file' names target)
    (hctx : ctx.functions = file.functions) (items : List Expr)
    (hitems : ∀ e ∈ items, e.Everywhere (Sendable names target ctx file')) :
    (evalLast .implicit calls ctx items).Below
      (evalLast .implicit calls' (ctx.withFunctions file')
        (items.map (rebuild (sendCall target)))) := by
  match items with
  | [] => exact matched_stuck _
  | [e] =>
    simp only [List.map_cons, List.map_nil, evalLast]
    exact eval_sent h hctx e (hitems e (by simp))
  | e :: e' :: rest =>
    obtain ⟨he, hrest⟩ := List.forall_mem_cons.1 hitems
    have hrest := evalLast_sent h hctx (e' :: rest) hrest
    simp only [List.map_cons, evalLast] at hrest ⊢
    exact (eval_sent h hctx e he).bind fun _ => hrest

end

end Sent

/-! ### Types -/

section Types

variable {calls calls' : Calls} {file file' ctx : Context} {names : List String}
  {target target' : String → Option String}

/-- The callees of an expression are named. -/
abbrev CalleesIn (names : List String) (e : Expr) : Prop :=
  e.Everywhere fun s => ∀ name ∈ s.callee?, name ∈ names

mutual

/-- The type of an expression whose calls are sent, if the functions have the same types. -/
theorem ctype_sent (h : ∀ name ∈ names, Option.Rel
      (fun new new' => file'.signature? new = ctx.signature? new') (target name) (target' name))
    (e : Expr) (he : e.CalleesIn names) :
    (e.rebuild (sendCall target)).ctype (ctx.withFunctions file') =
      (e.rebuild (sendCall target')).ctype ctx := by
  cases e with
  | id | literal | initList => simp only [rebuild_id_node, rebuild_literal, rebuild_initList,
      sendCall, ctype, Context.binding?_withFunctions]
  | binary op l r c =>
    obtain ⟨-, hl, hr⟩ := everywhere_binary.1 he
    simp only [rebuild_binary, sendCall, ctype, ctype_sent h l hl, ctype_sent h r hr]
  | unary op e c =>
    simp only [rebuild_unary, sendCall, ctype, ctype_sent h e (everywhere_unary.1 he).2]
  | assign op t v c =>
    simp only [rebuild_assign, sendCall, ctype, ctype_sent h t (everywhere_assign.1 he).2.1]
  | ternary p t e c =>
    obtain ⟨-, -, ht, he⟩ := everywhere_ternary.1 he
    simp only [rebuild_ternary, sendCall, ctype, ctype_sent h t ht, ctype_sent h e he]
  | call callee args c =>
    have hcallee := h callee ((everywhere_call.1 he).1 callee rfl)
    rw [rebuild_call, rebuild_call, sendCall, sendCall]
    generalize target callee = new?, target' callee = new?' at hcallee
    cases hcallee with
    | none => simp only [ctype, Context.binding?_withFunctions]
    | some hsignature =>
      rw [ctype, ctype, ← hsignature]
      rfl
  | cast t e c => simp only [rebuild_cast, sendCall, ctype]
  | index a i c =>
    simp only [rebuild_index, sendCall, ctype, ctype_sent h a (everywhere_index.1 he).2.1]
  | comma items c =>
    simp only [rebuild_comma, sendCall, ctype]
    exact lastCtype_sent h items (everywhere_comma.1 he).2

theorem lastCtype_sent (h : ∀ name ∈ names, Option.Rel
      (fun new new' => file'.signature? new = ctx.signature? new') (target name) (target' name))
    (items : List Expr) (hitems : ∀ e ∈ items, e.CalleesIn names) :
    lastCtype (ctx.withFunctions file') (items.map (rebuild (sendCall target))) =
      lastCtype ctx (items.map (rebuild (sendCall target'))) := by
  match items with
  | [] => rfl
  | [e] => exact ctype_sent h e (hitems e (by simp))
  | e :: e' :: rest =>
    exact lastCtype_sent h (e' :: rest) (List.forall_mem_cons.1 hitems).2

end

theorem joinsFloat_sent (h : ∀ name ∈ names, Option.Rel
      (fun new new' => file'.signature? new = ctx.signature? new') (target name) (target' name))
    {e : Expr} (he : e.CalleesIn names) :
    (e.rebuild (sendCall target)).joinsFloat (ctx.withFunctions file') =
      (e.rebuild (sendCall target')).joinsFloat ctx := by
  cases e with
  | ternary p t e c =>
    obtain ⟨-, -, ht, he⟩ := everywhere_ternary.1 he
    simp only [rebuild_ternary, sendCall, joinsFloat, ctype_sent h t ht, ctype_sent h e he]
  | call callee args c =>
    simp only [rebuild_call, sendCall]
    cases target callee <;> cases target' callee <;> rfl
  | initList | comma => simp only [rebuild_initList, rebuild_comma, sendCall, joinsFloat]
  | _ => rfl

theorem sendCall_some : sendCall some = fun e => e := by
  funext e
  cases e <;> rfl

theorem rebuild_sendCall_some (e : Expr) : e.rebuild (sendCall some) = e := by
  rw [sendCall_some, rebuild_id]

/-- Where no call is cut off, all types stay as they are. -/
theorem sendable_of_forall_some (h : Sends calls calls' file file' names target)
    (hctx : ctx.functions = file.functions) {e : Expr} (he : e.CalleesIn names)
    (htarget : ∀ name ∈ names, ∃ new, target name = some new) :
    e.Everywhere (Sendable names target ctx file') := by
  have hsame (name : String) (hname : name ∈ names) : Option.Rel
      (fun new new' => file'.signature? new = ctx.signature? new') (target name) (some name) := by
    obtain ⟨new, hnew⟩ := htarget name hname
    rw [hnew]
    exact .some ((h.kept hname hnew).signature.trans (congrArg (List.lookup name) hctx.symm))
  intro s hs
  refine ⟨he s hs, ?_⟩
  rw [joinsFloat_sent hsame (Everywhere.of_mem he hs), rebuild_sendCall_some]

/-- Where calls are cut off or stay as they are, it is the conditionals that count. -/
theorem sendable_of_joins (h : Sends calls calls' file file' names target)
    (hctx : ctx.functions = file.functions) {e : Expr} (he : e.CalleesIn names)
    (htarget : ∀ name ∈ names, ∀ new, target name = some new → new = name)
    (hjoins : e.Everywhere fun s =>
      (s.rebuild (sendCall target)).joinsFloat ctx = s.joinsFloat ctx) :
    e.Everywhere (Sendable names target ctx file') := by
  have hsame (name : String) (hname : name ∈ names) : Option.Rel
      (fun new new' => file'.signature? new = ctx.signature? new') (target name)
        (target name) := by
    cases hnew : target name with
    | none => exact .none
    | some new =>
      have hsignature := (h.kept hname hnew).signature
      rw [← htarget name hname new hnew] at hsignature
      exact .some (hsignature.trans (congrArg (List.lookup new) hctx.symm))
  intro s hs
  refine ⟨he s hs, ?_⟩
  rw [joinsFloat_sent hsame (Everywhere.of_mem he hs)]
  exact hjoins s hs

end Types

end Expr

end MathKernel
