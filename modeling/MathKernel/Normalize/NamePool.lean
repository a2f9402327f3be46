import MathKernel.Number.Integer
import MathKernel.Normalize.Tally

/-!
# Synthetic names

A pool issues a finite run of names, a stem followed by a number, and never issues one twice
without being reset. Names built for promoted variables and copied functions are made fresh by
numbering.

## Main definitions

* `NamePool.fresh`, `NamePool.owns`, `NamePool.reset`.
* `freshName`: a variant of a name that is not taken.
* `sanitizeIdentifier`: an identifier made from any text.
-/

namespace MathKernel

/-- A pool of names; `next` of its `capacity` names have been issued. -/
structure NamePool where
  stem : String
  capacity : Nat
  next : Nat
  deriving DecidableEq, Repr

namespace NamePool

/-- A pool that has issued nothing. -/
def new (stem : String) (capacity : Nat) : NamePool :=
  ⟨stem, capacity, 0⟩

/-- Stem of loop counters. -/
def counterStem : String := "_li"

/-- The number of loop counters that a unit may use. -/
def defaultCapacity : Nat := 6

/-- The pool of loop counters. -/
def counters : NamePool :=
  new counterStem defaultCapacity

/-- Issue the next name. -/
def fresh (p : NamePool) : Except NormalizeError (String × NamePool) :=
  if p.next < p.capacity then .ok (p.stem ++ toString p.next, { p with next := p.next + 1 })
  else .error (.namePoolExhausted p.capacity)

/-- Forget what was issued. -/
def reset (p : NamePool) : NamePool :=
  { p with next := 0 }

/-- The text after the stem. -/
def afterStem? (p : NamePool) (name : String) : Option (List Char) :=
  if p.stem.toList.isPrefixOf name.toList then some (name.toList.drop p.stem.toList.length)
  else none

/-- Whether a name reads as the stem followed by a number below the capacity. -/
def owns (p : NamePool) (name : String) : Bool :=
  match (p.afterStem? name).bind readNat64? with
  | some n => n < p.capacity
  | none => false

end NamePool

/-- The `n`-th variant of a name: the name itself, then the name with a number from 2 on. -/
def nameVariant (separator stem : String) (n : Nat) : String :=
  if n = 0 then stem else stem ++ separator ++ toString (n + 1)

/-- The first variant of a name that is not taken. Of one more variant than there are taken names
one is free. -/
def freshName (separator : String) (taken : List String) (stem : String) : String :=
  ((List.range (taken.length + 1)).map (nameVariant separator stem)).find?
    (fun name => !taken.contains name) |>.getD stem

/-- Characters of identifiers. -/
def isIdentifierChar (c : Char) : Bool :=
  c.isAlphanum || c == '_'

/-- An identifier made from any text: other characters become underscores, and one is put in
front of an empty text or a digit. -/
def sanitizeIdentifier (text : String) : String :=
  let cleaned := text.toList.map fun c => if isIdentifierChar c then c else '_'
  match cleaned with
  | [] => "_"
  | c :: rest => if c.isDigit then String.ofList ('_' :: c :: rest) else String.ofList cleaned

end MathKernel
