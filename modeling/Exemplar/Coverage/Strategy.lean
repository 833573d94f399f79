import Exemplar.Query.Attribute
import Exemplar.Query.Conditional

/-!
# Strategies

How the examples can demonstrate a conditional depends on what its clause says. The first of these
that the clause holds decides: a comparison of two attributes, a quantifier, an `if`, a call of a
boolean function; else its own keyword does.
-/

namespace Exemplar.Coverage

open Query

/-- A way to demonstrate a conditional. -/
inductive Strategy where
  | comparison
  | quantified
  | ifCondition
  | booleanFunction
  | notCondition
  | andOperator
  | orBranch
deriving DecidableEq, Repr

/-- A match of which only the place counts. -/
abbrev Shape := Text.Matcher Unit

namespace Strategy

/-- The name under which settings and reports know the strategy. -/
def name : Strategy → String
  | comparison => "comparison"
  | quantified => "quantified"
  | ifCondition => "if_condition"
  | booleanFunction => "boolean_function"
  | notCondition => "not_condition"
  | andOperator => "and_operator"
  | orBranch => "or_branch"

/-- What follows the name of an attribute at the head. -/
def afterAttribute? (cs : List Char) : Option (List Char) := do
  let named ← ['@'].isPrefixOf? cs
  if named.head?.any Text.isIdentStart then
    some ((named.drop 1).dropWhile fun c => Text.isWordChar c || c == '-')
  else none

/-- An attribute compared with another one. -/
def attributeComparison : Shape := fun _ cs => do
  let rest ← afterAttribute? cs
  let rest ← Text.afterAny? comparators (Text.trimStart rest)
  let rest ← afterAttribute? (Text.trimStart rest)
  return ((), rest)

/-- What follows one of some words, which must start at a word boundary. -/
def afterWord? (words : List String) (before : Option Char) (cs : List Char) : Option (List Char) :=
  if Text.isWordBoundary before cs.head? then Text.afterAny? (words.map String.toList) cs else none

/-- A quantifier in front of its variable. -/
def quantifier : Shape := fun before cs => do
  let rest ← afterWord? ["some", "every"] before cs
  if rest.head?.any Text.isBlank then
    let rest ← ['$'].isPrefixOf? (Text.trimStart rest)
    return ((), rest)
  else none

/-- One of some words in front of a parenthesis. -/
def call (words : List String) : Shape := fun before cs => do
  let rest ← afterWord? words before cs
  let rest ← ['('].isPrefixOf? (Text.trimStart rest)
  return ((), rest)

/-- The functions whose calls are true or false. -/
def booleanFunctions : List String :=
  ["starts-with", "ends-with", "contains", "matches", "exists", "empty", "boolean"]

def holds (shape : Shape) (cs : List Char) : Bool :=
  !(Text.allMatches shape cs).isEmpty

def classify (conditional : Conditional) : Strategy :=
  let cs := conditional.expression.toList
  if holds attributeComparison cs then comparison
  else if holds quantifier cs then quantified
  else if holds (call ["if"]) cs then ifCondition
  else if holds (call booleanFunctions) cs then booleanFunction
  else match conditional.kind with
    | .not => notCondition
    | .and => andOperator
    | .or => orBranch

end Strategy

end Exemplar.Coverage
