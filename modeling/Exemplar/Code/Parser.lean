import Exemplar.Code.Grammar.Declaration
import Exemplar.Code.Lexer

/-!
# From code to trees

Examples are often fragments. A source is read as a file of type declarations, as a list of statements
and as a list of members, in that order, and the first reading that uses up every token wins. If none
does, the error that got furthest is reported, the earlier one among equals.

Here the circle of nested constructs is closed: each level of `Nested.level` runs its productions one
construct deeper than it was called.
-/

namespace Exemplar.Code

/-- One more level around constructs that are already read. -/
def Nested.around (sub : Nested) : Nested where
  statement := Parse.nested (Grammar.statement sub)
  member := Parse.nested (Grammar.member sub)
  expression := Parse.nested (Grammar.expression sub)
  operand := Parse.nested (Grammar.operand sub)
  typeRef := Parse.nested (Grammar.typeRef sub)

/-- So many levels of constructs. -/
def Nested.level : Nat → Nested
  | 0 => .beyond
  | n + 1 => (level n).around

/-- What the tokens of a source may be read as. -/
inductive Entry where
  | typeDeclarations
  | statements
  | members
deriving DecidableEq, Repr

namespace Entry

/-- One item of the list that the source is read as. -/
def item (sub : Nested) : Entry → Parse (List Node)
  | typeDeclarations => do
    if ← Parse.eat .semicolon then return []
    return [← Grammar.typeDeclaration sub]
  | statements => return (← sub.statement).toList
  | members => sub.member

/-- The items up to the end of the tokens. -/
def read (sub : Nested) (entry : Entry) : Parse (List Node) := do
  let items ← Parse.many do
    if ← Parse.atEnd then return none
    return some (← entry.item sub)
  return items.flatten

/-- What becomes of the tokens of a source, and where the cursor ends. -/
def run (entry : Entry) (tokens : List Token) : Except SyntaxError (List Node) × Cursor :=
  entry.read (.level (maxDepth + 1)) (.ofTokens tokens)

end Entry

/-- Why a source has no tree. -/
inductive Rejection where
  | lexical (e : LexError)
  | noCode
  | syntactic (e : SyntaxError)
deriving DecidableEq, Repr

namespace Rejection

def message : Rejection → String
  | lexical e => e.message
  | noCode => "no code to parse"
  | syntactic e => e.message

end Rejection

/-- The error that got further, the first one if neither did. -/
def SyntaxError.further (first second : SyntaxError) : SyntaxError :=
  if first.pos < second.pos then second else first

def readAs (entry : Entry) (tokens : List Token) : Except SyntaxError (List Node) :=
  (entry.run tokens).1

/-- The nodes of the first reading of the tokens that succeeds. -/
def readTokens (tokens : List Token) : Except SyntaxError (List Node) :=
  match readAs .typeDeclarations tokens with
  | .ok nodes => .ok nodes
  | .error asTypes =>
    match readAs .statements tokens with
    | .ok nodes => .ok nodes
    | .error asStatements =>
      match readAs .members tokens with
      | .ok nodes => .ok nodes
      | .error asMembers => .error ((asTypes.further asStatements).further asMembers)

def parse (source : String) : Except Rejection Node :=
  match tokenize source with
  | .error e => .error (.lexical e)
  | .ok [] => .error .noCode
  | .ok tokens =>
    match readTokens tokens with
    | .error e => .error (.syntactic e)
    | .ok nodes => .ok ⟨.apexFile, 1, nodes⟩

def reader : Reader := fun source =>
  match parse source with
  | .ok root => .parsed root
  | .error rejection => .unusable rejection.message

end Exemplar.Code
