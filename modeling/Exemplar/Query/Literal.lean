import Exemplar.Query.LetBlock

/-!
# Hardcoded values

Strings and numbers that a query spells out instead of binding them in its let block. The numbers 0 and
1 are too common to count. A literal without its closing quote ends the search.
-/

namespace Exemplar.Query

/-- The sort of a literal. -/
inductive LiteralKind where
  | string
  | number
deriving DecidableEq, Repr

/-- A literal as it is written, quotes included, with its offset. -/
structure Literal where
  kind : LiteralKind
  value : String
  position : Nat
deriving DecidableEq, Repr

/-- A character directly before a digit that makes the digit part of something longer. -/
def joinsNumber (c : Char) : Bool :=
  Text.isIdentChar c || c == '.' || c == '$' || c == '@' || c == '-'

/-- Numbers that are never reported. -/
def isInnocuous (number : List Char) : Bool :=
  number == ['0'] || number == ['1']

/-- The digits at the head, with a point and more digits if they follow. -/
def digits (cs : List Char) : List Char :=
  let whole := cs.takeWhile Char.isDigit
  match cs.dropWhile Char.isDigit with
  | '.' :: rest =>
    if rest.head?.any Char.isDigit then whole ++ '.' :: rest.takeWhile Char.isDigit else whole
  | _ => whole

/-- A quoted literal, or all that follows a quotation mark that is never closed. -/
def quotedLiteral (q : Char) (cs : List Char) : Option (LiteralKind × List Char) × List Char :=
  match Text.splitOnce? q cs with
  | some (body, after) => (some (.string, q :: body ++ [q]), after)
  | none => (none, [])

/-- A literal at the head, if it counts. A number with a name glued to it is passed over with it. -/
def literal : Text.Matcher (Option (LiteralKind × List Char)) := fun before cs =>
  match cs with
  | [] => none
  | c :: rest =>
    if Text.isQuote c then some (quotedLiteral c rest)
    else if c.isDigit && !before.any joinsNumber then
      let number := digits cs
      let after := cs.drop number.length
      if after.head?.any Text.isIdentChar then some (none, after.dropWhile Text.isIdentChar)
      else if isInnocuous number then some (none, after)
      else some (some (.number, number), after)
    else none

/-- Every literal of a query, those of its let block included. -/
def allLiterals (query : String) : List Literal :=
  (Text.allMatches literal query.toList).filterMap fun (position, found) =>
    found.map fun (kind, value) => ⟨kind, String.ofList value, position⟩

/-- The literals of a query that start outside of its let block. -/
def hardcodedValues (query : String) : List Literal :=
  match letBlock? query.toList with
  | none => allLiterals query
  | some block =>
    (allLiterals query).filter fun value =>
      !(block.start ≤ value.position && value.position < block.stop)

/-- The texts of the hardcoded strings, without their quotes; empty ones are left out. -/
def stringValues (query : String) : List String :=
  (hardcodedValues query).filterMap fun value =>
    let inside := value.value.toList.drop 1 |>.dropLast
    if value.kind == .string && !inside.isEmpty then some (String.ofList inside) else none

end Exemplar.Query
