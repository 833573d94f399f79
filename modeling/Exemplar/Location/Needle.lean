import Exemplar.Markup.Reference
import Exemplar.Query.Conditional
import Exemplar.Text.Word

/-!
# Needles

What to look for in a rule file to find a part of a query again. Names must end where an identifier
ends; node types must also start where one starts, and not behind an `@`. Clauses and quoted operators
are looked for as they are.
-/

namespace Exemplar.Location

open Query (Conditional)

/-- A part of a query that has a place in the rule file. -/
inductive Target where
  /-- An attribute, without its `@`. -/
  | attr (name : String)
  | nodeType (name : String)
  /-- An operator, without quotes. -/
  | operator (value : String)
  | conditional (conditional : Conditional)
deriving DecidableEq, Repr

/-- What may touch an occurrence. -/
inductive Boundary where
  /-- Anything. -/
  | exact
  /-- No identifier character on either side, and no `@` before. -/
  | word
  /-- No identifier character after it. -/
  | wordEnd
deriving DecidableEq, Repr

namespace Boundary

/-- Whether an occurrence may stand between two characters, if there are any. -/
def accepts (boundary : Boundary) (before after : Option Char) : Bool :=
  match boundary with
  | exact => true
  | wordEnd => !after.any Text.isIdentChar
  | word => !before.any (fun c => Text.isIdentChar c || c == '@') && !after.any Text.isIdentChar

end Boundary

/-- The patterns to look for, and whether the last place counts instead of the first one. -/
structure Needle where
  patterns : List (List Char)
  boundary : Boundary
  fromEnd : Bool

namespace Needle

/-- What to look for to find a target. An operator may stand in either sort of quotes. -/
def ofTarget : Target → Needle
  | .attr name => ⟨['@' :: name.toList], .wordEnd, false⟩
  | .nodeType name => ⟨[name.toList], .word, false⟩
  | .operator value =>
    ⟨[['\''] ++ value.toList ++ ['\''], ['"'] ++ value.toList ++ ['"']], .exact, false⟩
  | .conditional conditional => ⟨[conditional.searchText.toList], .exact, true⟩

/-- Offset of the first occurrence of a pattern that a boundary accepts. -/
def findPattern? (boundary : Boundary) (pattern cs : List Char) : Option Nat :=
  let accepted := (Text.occurrences pattern cs).find? fun found =>
    boundary.accepts found.before found.after
  accepted.map Text.Occurrence.offset

/-- Offset of the first occurrence of any of the patterns. -/
def find? (needle : Needle) (cs : List Char) : Option Nat :=
  ((needle.patterns.filter (!·.isEmpty)).filterMap (findPattern? needle.boundary · cs)).min?

/-- The same needle in the spelling of markup. -/
def escaped (needle : Needle) : Needle :=
  { needle with patterns := needle.patterns.map Markup.escape }

/-- The line that holds the needle, as it is or in the spelling of markup: the first such line, or the last
one if that is what counts. Lines come with their numbers. -/
def lineIn? (needle : Needle) (lines : List (Nat × List Char)) : Option Nat :=
  let escaped := needle.escaped
  let holds (line : Nat × List Char) := (needle.find? line.2).isSome || (escaped.find? line.2).isSome
  let lines := if needle.fromEnd then lines.reverse else lines
  (lines.find? holds).map Prod.fst

end Needle

end Exemplar.Location
