import MathKernel.Normalize.Spelling
import MathKernel.Normalize.ErrorCalls
import MathKernel.Normalize.MathNames
import MathKernel.Normalize.StaticStorage
import MathKernel.Normalize.CastCalls
import MathKernel.Normalize.Idioms
import MathKernel.Normalize.Jumps
import MathKernel.Normalize.Loops
import MathKernel.Normalize.Recursion
import MathKernel.Normalize.CoefficientArrays
import MathKernel.Normalize.Coercion

/-!
# The passes in order

A pass takes a unit and a context, the unit's base name and its pool of loop counters. The
standard order lets later passes rely on what earlier ones establish: casts are calls before the
idioms are folded, jumps are gone before loops are bounded, and coercions come last.

## Main definitions

* `Pass`, `Pass.apply`: one pass.
* `Pass.standard`: the standard order.
* `normalize`: a run of passes over a unit, with its report.
-/

namespace MathKernel

/-- The normalization passes. -/
inductive Pass where
  | spelling
  | errorCalls
  | mathNames
  | staticStorage
  | castCalls
  | absIdiom
  | oddIdiom
  | jumps
  | loops
  | recursion
  | coefficientArrays
  | coercions
  deriving DecidableEq, Repr

/-- What passes share: the unit's base name and its loop counters. -/
structure PassContext where
  baseName : String
  pool : NamePool

namespace PassContext

/-- The context of a unit with the given name and number of loop counters. -/
def new (name : String) (capacity : Nat) : PassContext :=
  ⟨sanitizeIdentifier name, .new NamePool.counterStem capacity⟩

end PassContext

namespace Pass

/-- The standard order. -/
def standard : List Pass :=
  [spelling, errorCalls, mathNames, staticStorage, castCalls, absIdiom, oddIdiom, jumps, loops,
    recursion, coefficientArrays, coercions]

/-- The name under which a pass is reported. -/
def name : Pass → String
  | spelling => "normalize-types"
  | errorCalls => "mtherr-elision"
  | mathNames => "builtin-math"
  | staticStorage => "static-storage"
  | castCalls => "cast-to-call"
  | absIdiom => "abs-idiom"
  | oddIdiom => "is-odd-idiom"
  | jumps => "goto-elimination"
  | loops => "loop-normalization"
  | recursion => "recursion-unrolling"
  | coefficientArrays => "static-arrays"
  | coercions => "explicit-types"

/-- The pass with the given name. -/
def ofName? (text : String) : Option Pass :=
  standard.find? (·.name == text)

/-- Apply a pass. Only the bounding of loops uses up counters. -/
def apply (pass : Pass) (context : PassContext) (u : SourceUnit) :
    Except NormalizeError (SourceUnit × Tally × PassContext) :=
  let keep (result : SourceUnit × Tally) : SourceUnit × Tally × PassContext :=
    (result.1, result.2, context)
  match pass with
  | spelling => .ok (keep u.respell)
  | errorCalls => .ok (keep u.removeErrorCalls)
  | mathNames => .ok (keep u.genericMathNames)
  | staticStorage => (u.promoteStatics context.baseName).map keep
  | castCalls => .ok (keep u.castsToCalls)
  | absIdiom => .ok (keep u.foldAbs)
  | oddIdiom => .ok (keep u.foldIsOdd)
  | jumps => u.eliminateJumps.map keep
  | loops =>
    (u.boundLoops context.pool).map fun (u, tally, pool) => (u, tally, { context with pool })
  | recursion => .ok (keep u.unrollRecursion)
  | coefficientArrays => u.specializeHelpers.map keep
  | coercions => .ok (keep u.coerced)

/-- Apply passes in order, stopping at the first failure. -/
def applyAll : List Pass → PassContext → SourceUnit →
    Except NormalizeError (SourceUnit × List (Pass × Tally) × PassContext)
  | [], context, u => .ok (u, [], context)
  | pass :: rest, context, u => do
    let (u, tally, context) ← pass.apply context u
    let (u, tallies, context) ← applyAll rest context u
    return (u, (pass, tally) :: tallies, context)

end Pass

/-- What a run of passes did. -/
structure Report where
  /-- The unit's base name. -/
  unit : String
  /-- The passes in order with their tallies. -/
  passes : List (Pass × Tally)
  /-- The loop counters taken from the pool. -/
  issued : Nat

namespace Report

/-- The sum of all tallies. -/
def total (r : Report) : Tally :=
  Tally.sum (r.passes.map Prod.snd)

/-- The tally of a pass. -/
def tally? (r : Report) (pass : Pass) : Option Tally :=
  r.passes.lookup pass

/-- The line of one pass. -/
def passLine (pass : Pass) (tally : Tally) : String :=
  "  " ++ pass.name ++ ": " ++
    (if tally.isNoop then "no changes"
    else toString tally.changed ++ " rewritten, +" ++ toString tally.inserted ++
      " inserted, -" ++ toString tally.removed ++ " removed") ++ "\n"

/-- The text of a report on a run that took the given time. -/
def text (r : Report) (milliseconds : Nat) : String :=
  "=== Transform Report ===\n" ++
    "Unit: " ++ r.unit ++ "\n" ++
    "Duration: " ++ toString milliseconds ++ " ms\n\n" ++
    "--- Passes (" ++ toString r.passes.length ++ ") ---\n" ++
    String.join (r.passes.map fun (pass, tally) => passLine pass tally) ++
    "\nLoop counters issued: " ++ toString r.issued ++ "\n"

end Report

/-- Which passes to run on a unit. -/
structure PipelineConfig where
  baseName : String
  passes : List Pass := Pass.standard
  capacity : Nat := NamePool.defaultCapacity

/-- Run the configured passes over a unit, with a pool that starts over. -/
def normalize (config : PipelineConfig) (u : SourceUnit) :
    Except NormalizeError (SourceUnit × Report) := do
  let start := PassContext.new config.baseName config.capacity
  let (u, passes, context) ← Pass.applyAll config.passes start u
  return (u, { unit := context.baseName, passes, issued := context.pool.next })

end MathKernel
