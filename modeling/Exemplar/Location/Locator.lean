import Exemplar.Location.Needle
import Exemplar.Rule.Basic
import Exemplar.Text.Place

/-!
# Lines of a rule file

Where a part of a query stands in the file of its rule. Three answers are tried in turn:

1. a line that mentions `xpath` and `value` and holds the part, as a property on one line does;
2. the line of the query's property that holds it;
3. the line on which the value of the property starts, and as many more as the query has newlines before
   the part.

Clauses are taken from the last line that qualifies, all else from the first one: a clause of an `or`
inside of one of an `and` then gets its own line.

The offset of the value is computed, not found: one byte after `value=` is taken for the quote. If that
byte is inside a character, the third answer ends the run.
-/

namespace Exemplar

open Markup (Span)
open Text (Misplaced)

namespace Location

/-- The part of a text that a span covers. -/
def sliceOf? (text : String) (span : Span) : Option (List Char) :=
  Text.slice? text.toList span.start span.stop

/-- Lines with their numbers, the first of which is `first`. -/
def numberedFrom (first : Nat) (lines : List (List Char)) : List (Nat × List Char) :=
  lines.zipIdx.map fun (line, i) => (first + i, line)

/-! ### Lines that can hold a part of the query -/

/-- Whether a line looks like a property on one line. -/
def mentionsProperty (line : List Char) : Bool :=
  Text.contains line "xpath".toList && Text.contains line "value".toList

/-- The lines of a text that look like a property on one line. -/
def singleLines (text : String) : List (Nat × List Char) :=
  (numberedFrom 1 (Text.lines text.toList)).filter fun line => mentionsProperty line.2

/-- The lines of the query's property. -/
def propertyLines (text : String) (property? : Option Span) :
    Except Misplaced (List (Nat × List Char)) :=
  match property? with
  | none => return []
  | some span => do
    let first ← Text.lineAt text.toList span.start
    let inside ← Text.slice text.toList span.start span.stop
    return numberedFrom first (Text.lines inside)

/-! ### The start of the value -/

/-- The opening of a section of verbatim text. -/
def verbatimOpening : String := "<![CDATA["

/-- How many bytes of a property stand before its value: all through `<value>`, or else through `value=`
and the quote after it. -/
def valueOffset? (property : List Char) : Option Nat :=
  match Text.find? "<value>".toList property with
  | some i => some (i + "<value>".length)
  | none => (Text.find? "value=".toList property).map (· + "value=".length + 1)

/-- The byte at which the value starts, white space and the opening of a verbatim section aside. -/
def valueStart? (text : String) (property? : Option Span) : Except Misplaced (Option Nat) :=
  match property? with
  | none => return none
  | some span => do
    let cs := text.toList
    let inside ← Text.slice cs span.start span.stop
    match valueOffset? inside with
    | none => return none
    | some offset => do
      let start ← Text.skipBlank cs (span.start + min offset (Text.byteSize inside))
      let after ← Text.drop cs start
      if verbatimOpening.toList.isPrefixOf after then
        return some (← Text.skipBlank cs (start + verbatimOpening.length))
      else return some start

/-- The line on which the value starts. -/
def valueLine? (text : String) (property? : Option Span) : Except Misplaced (Option Nat) := do
  match ← valueStart? text property? with
  | none => return none
  | some start => return some (← Text.lineAt text.toList start)

/-- What there is to see in the text of a rule, whatever is looked for. -/
structure Survey where
  /-- The lines that look like a property on one line. -/
  singleLines : List (Nat × List Char)
  /-- The lines of the query's property. -/
  propertyLines : Except Misplaced (List (Nat × List Char))
  /-- The line on which the value of the property starts. -/
  valueLine? : Except Misplaced (Option Nat)

/-- Looks at a text with a property. -/
def Survey.ofText (text : String) (property? : Option Span) : Survey where
  singleLines := Location.singleLines text
  propertyLines := Location.propertyLines text property?
  valueLine? := Location.valueLine? text property?

/-- Whether every offset that was needed to look at the text is a place in it. -/
def Survey.isSound (survey : Survey) : Bool :=
  survey.propertyLines.isOk && survey.valueLine?.isOk

end Location

open Location

/-- The text of a rule with what is needed to find parts of its query in it. -/
structure Locator where
  text : String
  query : String
  /-- Where the property with the query stands in the text. -/
  property? : Option Span
  /-- How many lines of the file end before the text. -/
  lineOffset : Nat := 0
  /-- The lines to look at, picked once. -/
  survey : Survey := .ofText text property?
  survey_eq : survey = .ofText text property? := by rfl

namespace Locator

/-- A locator that is told where the property stands; a span that covers no part of the text is as good
as none. -/
def withProperty (text query : String) (property? : Option Span) (lineOffset : Nat) : Locator where
  text
  query
  property? := property?.filter fun span => (sliceOf? text span).isSome
  lineOffset

/-- A locator that looks for the property itself. -/
def ofText (text query : String) (lineOffset : Nat) : Locator :=
  withProperty text query (Rule.querySpanIn? text) lineOffset

/-! ### The three answers -/

/-- The line of a property on one line that holds the needle. -/
def singleLine? (locator : Locator) (needle : Needle) : Option Nat :=
  needle.lineIn? locator.survey.singleLines

/-- The line of the query's property that holds the needle. -/
def propertyLine? (locator : Locator) (needle : Needle) : Except Misplaced (Option Nat) := do
  return needle.lineIn? (← locator.survey.propertyLines)

/-- Where a target stands in the query. A clause knows its position. -/
def queryOffset? (locator : Locator) (needle : Needle) : Target → Option Nat
  | .conditional conditional => some conditional.position
  | _ => needle.find? locator.query.toList

/-- How many newlines of the query stand before a target. -/
def newlinesBefore? (locator : Locator) (needle : Needle) (target : Target) : Option Nat := do
  Text.newlinesBefore? locator.query.toList (← locator.queryOffset? needle target)

/-- The line of a target counted from the start of the value. -/
def countedLine? (locator : Locator) (needle : Needle) (target : Target) :
    Except Misplaced (Option Nat) :=
  match locator.newlinesBefore? needle target with
  | none => return none
  | some newlines => return (← locator.survey.valueLine?).map (· + newlines)

/-- The first of the three answers that there is, as a line of the text. -/
def lineInText? (locator : Locator) (target : Target) : Except Misplaced (Option Nat) := do
  let needle := Needle.ofTarget target
  match locator.singleLine? needle with
  | some line => return some line
  | none =>
    match ← locator.propertyLine? needle with
    | some line => return some line
    | none => locator.countedLine? needle target

/-- The 1-based line of the file on which a target stands. -/
def locate (locator : Locator) (target : Target) : Except Misplaced (Option Nat) := do
  return (← locator.lineInText? target).map (· + locator.lineOffset)

/-- Looks up targets one after the other, only for what may end the run. After a sound survey nothing can,
and no target has to be looked up. -/
def lookUp (locator : Locator) (targets : List Target) : Except Misplaced Unit :=
  unless locator.survey.isSound do
    targets.forM fun target => discard (locator.locate target)

/-- The line that a report can give for a target: none where looking for it ends the run. -/
def line? (locator : Locator) (target : Target) : Option Nat :=
  (locator.locate target).toOption.join

end Locator

end Exemplar
