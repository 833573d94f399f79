import Exemplar.Text.Word
import Exemplar.Text.Search

/-!
# Quotes and keywords

A quoted literal runs from a quotation mark to the next one of the same sort. Reading a query from left
to right, the only thing to remember is which mark is open. A literal that is never closed takes in all
that follows.

A keyword stands on its own: no identifier character and no hyphen touches it, and neither `$` nor `@`
stands before it, which would make it a variable or an attribute.
-/

namespace Exemplar.Query

/-- The open quotation mark after a character, given the one before it. -/
def stepQuote (quote : Option Char) (c : Char) : Option Char :=
  match quote with
  | some q => if c == q then none else quote
  | none => if Text.isQuote c then some c else none

/-- A character that cannot stand before a keyword. -/
def joinsLeft (c : Char) : Bool :=
  Text.isIdentChar c || c == '$' || c == '@' || c == '-'

/-- A character that cannot stand after a keyword. -/
def joinsRight (c : Char) : Bool :=
  Text.isIdentChar c || c == '-'

/-- What follows the keyword at the head, if it stands there as a word of its own. -/
def afterKeyword? (word : String) (before : Option Char) (cs : List Char) : Option (List Char) := do
  let after ← word.toList.isPrefixOf? cs
  if before.any joinsLeft || after.head?.any joinsRight then none else some after

end Exemplar.Query
