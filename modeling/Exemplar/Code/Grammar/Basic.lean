import Exemplar.Code.Cursor
import Exemplar.Code.Tree

/-!
# Nested constructs and type references

Five constructs of the grammar can hold themselves: statements, members of a type, expressions,
operands of prefix operators and type references. The productions do not call each other in a circle;
each of them takes a `Nested`, which reads the five constructs one level further down. The circle is closed
where there are as many levels as constructs may nest, and one more for the refusal.

The first of them is that of type references. A type is named by identifiers with dots between them, then
possibly type arguments in angle brackets, then any number of empty square brackets.
-/

namespace Exemplar.Code

/-- Readers for the constructs that can nest. -/
structure Nested where
  /-- A statement; an empty one leaves no node. -/
  statement : Parse (Option Node)
  /-- The nodes of a member of a type. -/
  member : Parse (List Node)
  /-- An expression. -/
  expression : Parse Node
  /-- An operand with its prefix operators and casts. -/
  operand : Parse Node
  /-- A reference to a type, which leaves no node. -/
  typeRef : Parse Unit

/-- Readers beyond the last level, which are never asked. -/
def Nested.beyond : Nested where
  statement := Parse.complain .noProgress
  member := Parse.complain .noProgress
  expression := Parse.complain .noProgress
  operand := Parse.complain .noProgress
  typeRef := Parse.complain .noProgress

namespace Grammar

open Parse

/-- Reads the further names of a qualified name. -/
def qualifiers : Parse Unit :=
  skipPairs (·.isSymbol .dot) Token.isIdent

/-- Type references with commas between them. -/
def typeList (sub : Nested) : Parse Unit := do
  let _ ← separated sub.typeRef

def typeArguments (sub : Nested) : Parse Unit := do
  expect .less
  typeList sub
  expect .greater

/-- Reads type arguments if they are next, and tells whether they were. -/
def typeArguments? (sub : Nested) : Parse Bool := do
  if ← atSymbol .less then
    typeArguments sub
    return true
  return false

def typeRef (sub : Nested) : Parse Unit := do
  let _ ← expectIdent
  qualifiers
  let _ ← typeArguments? sub
  skipPairs (·.isSymbol .openBracket) (·.isSymbol .closeBracket)

end Grammar

end Exemplar.Code
