import Exemplar.Query.Attribute
import Exemplar.Query.Literal
import Exemplar.Text.Fold

/-!
# Evidence in example text

An attribute of a query is evidenced by example text in one of three ways: the text has its name as a
word, an annotation such as `Name: value` gives it a value, or a literal that the query compares it
with occurs in the text. ASCII case does not matter for words and literals; annotations are read with
full case folding.
-/

namespace Exemplar.Coverage

/-- Example text to look for evidence in. -/
structure Content where
  text : List Char
  /-- The text with its ASCII letters in lower case, so that they are put there once. -/
  lowered : List Char := Text.lower text
  lowered_eq : lowered = Text.lower text := by rfl

namespace Content

def ofText (text : String) : Content where
  text := text.toList

def isBlank (content : Content) : Bool :=
  Text.isBlankText content.text

/-! ### Words and texts -/

/-- Whether the content has the word as a whole word, in any ASCII case. -/
def containsWord (content : Content) (word : String) : Bool :=
  let needle := Text.lower word.toList
  !needle.isEmpty && (Text.occurrences needle content.lowered).any fun found =>
    !found.before.any Text.isIdentChar && !found.after.any Text.isIdentChar

/-- Whether the content has the text anywhere, in any ASCII case. No text is nowhere. -/
def containsText (content : Content) (text : String) : Bool :=
  let needle := Text.lower text.toList
  !needle.isEmpty && Text.contains content.lowered needle

end Content

/-! ### Annotations -/

/-- A character that goes on with an annotated value. -/
def isValueChar (c : Char) : Bool :=
  !Text.isBlank c && c != ',' && c != ';' && c != ')'

/-- An annotation of an attribute, with its value as it is written. -/
def annotationOf (name : List Char) : Text.Matcher (List Char) := fun before cs => do
  let named ← if Text.isWordBoundary before cs.head? then
      Text.afterFolded? Text.sameFold name cs
    else none
  let value ← [':'].isPrefixOf? (Text.trimStart named)
  let value := Text.trimStart value
  if value.head?.any isValueChar then
    some (value.takeWhile isValueChar, value.dropWhile isValueChar)
  else none

/-- A text without the quotation marks at its ends. -/
def unquote (cs : List Char) : List Char :=
  ((cs.dropWhile Text.isQuote).reverse.dropWhile Text.isQuote).reverse

/-- The values that annotations give to an attribute, in order. Empty ones do not count. -/
def Content.annotatedValues (content : Content) (name : String) : List String :=
  (Text.allMatches (annotationOf name.toList) content.text).filterMap fun (_, value) =>
    let value := unquote value
    if value.isEmpty then none else some (String.ofList value)

/-! ### Compared literals -/

/-- A comparison of an attribute, given with its `@`, with a quoted text. -/
def comparisonOf (reference : List Char) : Text.Matcher (List Char) := fun _ cs => do
  let rest ← reference.isPrefixOf? cs
  let rest ← Text.afterAny? Query.comparators (Text.trimStart rest)
  Text.quoted? (Text.trimStart rest)

/-- The literals that a query compares an attribute with, in order. Empty ones do not count. -/
def comparedLiterals (query name : String) : List String :=
  (Text.allMatches (comparisonOf ('@' :: name.toList)) query.toList).filterMap fun (_, value) =>
    if value.isEmpty then none else some (String.ofList value)

/-- Whether the content evidences an attribute of the query. -/
def Content.evidences (content : Content) (query name : String) : Bool :=
  content.containsWord name || !(content.annotatedValues name).isEmpty ||
    (comparedLiterals query name).any content.containsText

end Exemplar.Coverage
