/-!
# What a normalization pass reports

A pass succeeds on the whole unit with a tally of its changes, or fails the unit.
-/

namespace MathKernel

/-- How many nodes a pass changed in place, inserted and removed. -/
structure Tally where
  changed : Nat
  inserted : Nat
  removed : Nat
  deriving DecidableEq, Repr

namespace Tally

/-- No change. -/
def zero : Tally := ⟨0, 0, 0⟩

/-- Nodes changed in place. -/
def ofChanged (n : Nat) : Tally := ⟨n, 0, 0⟩

instance : Add Tally where
  add a b := ⟨a.changed + b.changed, a.inserted + b.inserted, a.removed + b.removed⟩

/-- Whether nothing was counted. -/
def isNoop (t : Tally) : Bool :=
  t.changed == 0 && t.inserted == 0 && t.removed == 0

end Tally

/-- Why a unit cannot be normalized. -/
inductive NormalizeError where
  /-- More loops than counter names. -/
  | namePoolExhausted (capacity : Nat)
  /-- A jump to a label the function does not have. -/
  | unknownLabel (label function : String)
  /-- A jump whose label is reached again from its own statements. -/
  | cyclicGoto (label function : String)
  /-- A write to a static variable. -/
  | staticReassigned (name function : String)
  /-- A construct that a pass cannot handle. -/
  | unsupported (pass detail : String)
  deriving DecidableEq, Repr

/-- What the error says. -/
def NormalizeError.message : NormalizeError → String
  | namePoolExhausted capacity =>
    "loop counter name pool exhausted (" ++ toString capacity ++ " names per unit)"
  | unknownLabel label function =>
    "goto targets unknown label '" ++ label ++ "' in function '" ++ function ++ "'"
  | cyclicGoto label function =>
    "goto to label '" ++ label ++ "' in function '" ++ function ++ "' forms a cycle"
  | staticReassigned name function =>
    "static variable '" ++ name ++ "' is reassigned in function '" ++ function ++ "'"
  | unsupported pass detail => pass ++ ": " ++ detail

end MathKernel
