/-!
# Closure under a step

What names lead to, found by repeating one step. A shortest way to a name passes no name twice,
so as many repetitions as there are names suffice.
-/

namespace MathKernel

/-- Add the successors of the given names, without repetition. -/
def closureStep (next : String → List String) (found : List String) : List String :=
  (found ++ found.flatMap next).eraseDups

/-- Repeat the step. -/
def closure (next : String → List String) : Nat → List String → List String
  | 0, found => found
  | n + 1, found => closure next n (closureStep next found)

end MathKernel
