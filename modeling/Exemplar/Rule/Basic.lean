import Exemplar.Markup.Document
import Exemplar.Text.Basic

/-!
# Rules

A rule file is a document whose `rule` elements define rules; those with a `ref` refer to rules of
other files and define nothing. A document without any definition is itself one rule without a name.

The query of a rule is the value of its property `xpath`: the attribute `value` of that property, or the
text of its `value` element, or else its own text.

The body of an example is written with the indentation of the file around it. Reading it drops the blank
lines at both ends and the spaces and tabs that all other lines have in common at their start.
-/

namespace Exemplar

open Markup (Node Span)

/-! ### Bodies of examples -/

namespace Rule

/-- How many spaces and tabs a line starts with. -/
def indentation (line : List Char) : Nat :=
  (line.takeWhile fun c => c == ' ' || c == '\t').length

/-- The lines from the first to the last one that is not blank. -/
def dropBlankEnds (lines : List (List Char)) : List (List Char) :=
  ((lines.dropWhile Text.isBlankText).reverse.dropWhile Text.isBlankText).reverse

/-- The smallest indentation of a line that is not blank. -/
def commonIndentation (lines : List (List Char)) : Nat :=
  (((lines.filter (!Text.isBlankText ·)).map indentation).min?).getD 0

/-- A line without its first `n` bytes. One that does not have them loses the white space it has. -/
def outdent (n : Nat) (line : List Char) : List Char :=
  match Text.cut? line n with
  | some (_, rest) => rest
  | none => Text.trimStart line

/-- A text without blank lines at its ends and without the indentation that its lines share. -/
def dedent (cs : List Char) : List Char :=
  let lines := dropBlankEnds (Text.lines cs)
  Text.joinLines (lines.map (outdent (commonIndentation lines)))

end Rule

/-! ### Definitions -/

structure Rule where
  name : String := ""
  message : String := ""
  /-- The query without white space around it, if the rule has one. -/
  query? : Option String := none
  /-- The bodies of its examples, in order. -/
  examples : List String := []
  /-- What the file says about the rule. -/
  text : String := ""
  /-- How many lines of the file end before that text. -/
  lineOffset : Nat := 0
  /-- Where the property with the query stands in that text. -/
  querySpan? : Option Span := none
deriving DecidableEq, Repr

namespace Rule

/-- The first property of an element that holds a query. -/
def queryProperty? (node : Node) : Option Node :=
  node.descendants.find? fun n => n.isElement "property" && n.attribute? "name" == some "xpath"

/-- The query that a property holds. -/
def queryOf (property : Node) : String :=
  let written := match property.attribute? "value" with
    | some value => value
    | none =>
      let holder := (property.children.find? fun (n : Node) => n.isElement "value").getD property
      holder.textContent
  String.ofList (Text.trim written.toList)

/-- The bodies of the examples in an element. -/
def examplesOf (node : Node) : List String :=
  (node.descendants.filter fun n => n.isElement "example").map fun n =>
    String.ofList (dedent n.textContent.toList)

/-- The first query in a text, if the text is a document and has one. -/
def queryIn? (text : String) : Option String := do
  let root ← Node.ofText? text
  (queryProperty? root).map queryOf

/-- Where the first property with a query stands in a text, if the text is a document and has one. -/
def querySpanIn? (text : String) : Option Span := do
  let root ← Node.ofText? text
  (queryProperty? root).map Node.span

/-- The rule that an element of a document defines. -/
def ofElement (document : List Char) (node : Node) : Rule :=
  let property? := queryProperty? node
  let span := node.span
  { name := (node.attribute? "name").getD ""
    message := (node.attribute? "message").getD ""
    query? := property?.map queryOf
    examples := examplesOf node
    text := String.ofList ((Text.slice? document span.start span.stop).getD [])
    lineOffset := (Text.newlinesBefore? document span.start).getD 0
    querySpan? := property?.map fun p =>
      ⟨p.span.start - span.start, p.span.stop - span.start⟩ }

/-- The rule that a document without rule elements is. -/
def ofDocument (document : String) (root : Node) : Rule :=
  let property? := queryProperty? root
  { query? := property?.map queryOf
    examples := examplesOf root
    text := document
    querySpan? := property?.map Node.span }

/-- Whether an element defines a rule. -/
def isDefinition (node : Node) : Bool :=
  node.isElement "rule" && (node.attribute? "ref").isNone

/-- The rules of a file in document order, unless its text is malformed. Blank text has no rules. -/
def ofText? (text : String) : Option (List Rule) :=
  let document := text.toList
  if Text.isBlankText document then some []
  else do
    let root ← Node.ofText? text
    match root.descendants.filter isDefinition with
    | [] => return [ofDocument text root]
    | definitions => return definitions.map (ofElement document)

end Rule

end Exemplar
