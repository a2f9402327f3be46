import MathKernel.Data.Closure
import MathKernel.Syntax.Traversal
import MathKernel.Normalize.NamePool
import MathKernel.Normalize.Tally

/-!
# Unrolling of recursion

Shaders have no recursion. A function that calls itself calls a copy of itself instead, in which
every call that could lead back to it is not-a-number; of two functions that call each other the
first calls such a copy of the second. Longer cycles are left alone.

## Main definitions

* `CallGraph`: which defined functions call which.
* `CallGraph.cycles`: the pairs to unroll.
* `SourceUnit.unrollRecursion`: the pass.
-/

namespace MathKernel

/-- What a copy's name ends in. -/
def unrolledEnding : String := "_unrolled"

/-- The name of a called function. -/
def Expr.callee? : Expr → Option String
  | .call callee _ _ => some callee
  | _ => none

/-- Defined functions in order, and the defined functions that each calls. Of two definitions of
one name the last gives the calls. -/
structure CallGraph where
  order : List String
  calls : List (String × List String)

namespace CallGraph

/-- The call graph of a unit. -/
def ofUnit (u : SourceUnit) : CallGraph :=
  let order := u.funcs.map FuncDef.name
  let callees (f : FuncDef) : List String :=
    (f.body.exprs.filterMap Expr.callee?).filter order.contains
  { order, calls := (u.funcs.map fun f => (f.name, callees f)).reverse }

/-- The functions that a function calls. -/
def callees (g : CallGraph) (name : String) : List String :=
  (g.calls.lookup name).getD []

/-- Whether one function calls another. -/
def hasCall (g : CallGraph) (caller callee : String) : Bool :=
  (g.callees caller).contains callee

/-- The functions reached from one through one or more calls. -/
def reachable (g : CallGraph) (name : String) : List String :=
  closure g.callees g.order.length (g.callees name)

/-- Pairs of a function and a later one that call each other. -/
def mutualPairs (g : CallGraph) : List String → List (String × String)
  | [] => []
  | f :: rest =>
    (rest.filter fun h => g.hasCall f h && g.hasCall h f).map (f, ·) ++ g.mutualPairs rest

/-- The cycles to unroll, as caller and callee: functions that call themselves, then pairs. -/
def cycles (g : CallGraph) : List (String × String) :=
  (g.order.filter fun f => g.hasCall f f).map (fun f => (f, f)) ++ g.mutualPairs g.order

/-- The functions from which a call leads to the given one. -/
def leadsTo (g : CallGraph) (target : String) : List String :=
  g.order.filter fun f => f == target || (g.reachable f).contains target

end CallGraph

/-- A call of one of the given functions, cut off. -/
def Expr.cutCall? (targets : List String) : Expr → Option Expr
  | .call callee _ c => if targets.contains callee then some (.id notANumber c) else none
  | _ => none

/-- A call under the new name of its function. -/
def Expr.redirectCall? (names : List (String × String)) : Expr → Option Expr
  | .call callee args c => (names.lookup callee).map fun new => .call new args c
  | _ => none

/-- The unrolled copies made so far. -/
structure Unrolling where
  /-- Names that a copy must avoid. -/
  taken : List String
  /-- Copies by the function they copy. -/
  copies : List (String × FuncDef)
  /-- Calls that were cut off. -/
  cut : Nat

/-- Copy a callee, if it has no copy yet. -/
def Unrolling.addCopy (u : SourceUnit) (g : CallGraph) (acc : Unrolling) (callee : String) :
    Unrolling :=
  match acc.copies.lookup callee, u.func? callee with
  | some _, _ => acc
  | none, none => acc
  | none, some f =>
    let name := freshName "" acc.taken (callee ++ unrolledEnding)
    let body := f.body.bottomUpM (Counted.replace (Expr.cutCall? (g.leadsTo callee)))
    let copy : FuncDef := { f with decl := f.decl.rename name, body := body.value }
    ⟨name :: acc.taken, acc.copies ++ [(callee, copy)], acc.cut + body.count⟩

/-- The new names of the callees that a function's calls go to. -/
def Unrolling.redirects (acc : Unrolling) (cycles : List (String × String)) (caller : String) :
    List (String × String) :=
  cycles.filterMap fun (outer, callee) =>
    if outer = caller then (acc.copies.lookup callee).map fun copy => (callee, copy.name)
    else none

/-- Redirect the calls of an item. -/
def Unrolling.redirectItem (acc : Unrolling) (cycles : List (String × String)) :
    Item → Counted Item
  | .decl d => pure (.decl d)
  | .func f => do
    let names := acc.redirects cycles f.name
    let body ← f.body.bottomUpM (Counted.replace (Expr.redirectCall? names))
    pure (.func { f with body })

/-- Put each copy after the first function it copies. -/
def insertCopies : List (String × FuncDef) → List Item → List Item
  | _, [] => []
  | copies, .decl d :: rest => .decl d :: insertCopies copies rest
  | copies, .func f :: rest =>
    match copies.lookup f.name with
    | none => .func f :: insertCopies copies rest
    | some copy =>
      .func f :: .func copy :: insertCopies (copies.filter (·.1 != f.name)) rest

/-- Unroll the short cycles of a unit's call graph. -/
def SourceUnit.unrollRecursion (u : SourceUnit) : SourceUnit × Tally :=
  let graph := CallGraph.ofUnit u
  let cycles := graph.cycles
  let start : Unrolling := ⟨u.itemNames, [], 0⟩
  let acc := (cycles.map Prod.snd).foldl (Unrolling.addCopy u graph) start
  let redirected := u.mapItemsM (acc.redirectItem cycles)
  ({ u with items := insertCopies acc.copies redirected.value.items },
    ⟨acc.cut + redirected.count, acc.copies.length, 0⟩)

end MathKernel
