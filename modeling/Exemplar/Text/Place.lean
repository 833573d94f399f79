import Exemplar.Text.Basic

/-!
# Places that have to be there

A byte offset that was computed may fall inside a character or behind the end of the text. `cut?` and its
like have no answer then, and most callers pass that on. Where an offset is taken for a place without
asking, a wrong one ends the whole run: nothing that was to come has an answer.
-/

namespace Exemplar.Text

/-- A byte offset that is no place between two characters of the text it was used on. -/
structure Misplaced where
  offset : Nat
deriving DecidableEq, Repr

/-- The answer for byte `n`, which has to be there. -/
def required {α : Type} (n : Nat) : Option α → Except Misplaced α
  | some answer => .ok answer
  | none => .error ⟨n⟩

/-- The text after byte `n`. -/
def drop (cs : List Char) (n : Nat) : Except Misplaced (List Char) :=
  required n (drop? cs n)

/-- The bytes from `start` up to `stop`. -/
def slice (cs : List Char) (start stop : Nat) : Except Misplaced (List Char) :=
  required start (slice? cs start stop)

/-- The 1-based line on which byte `n` lies. -/
def lineAt (cs : List Char) (n : Nat) : Except Misplaced Nat :=
  required n (lineAt? cs n)

/-- The first place from byte `n` on that is not white space, or the end. -/
def skipBlank (cs : List Char) (n : Nat) : Except Misplaced Nat := do
  let after ← drop cs n
  return n + byteSize (after.takeWhile isBlank)

end Exemplar.Text
