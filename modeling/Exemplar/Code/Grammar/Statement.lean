import Exemplar.Code.Grammar.Expression
import Exemplar.Code.Grammar.Modifier

/-!
# Statements

What a statement is shows at its first tokens. `opening?` names the construct that they open; what
opens none is a local declaration if it looks like one as far as its first name, and else an
expression.
-/

namespace Exemplar.Code.Grammar

open Parse

/-! ### What opens a statement -/

/-- The constructs that a statement can open with a word of its own. -/
inductive Opening where
  | ifElse
  | forLoop
  | whileLoop
  | doLoop
  | switch
  | tryCatch
  | returnValue
  | throwValue
  | breakLoop
  | continueLoop
  | runAs
  | dml (kind : Kind)
deriving DecidableEq, Repr

/-- The words that open a construct wherever a statement starts with them. -/
def openingWords : List (String × Opening) :=
  [("if", .ifElse), ("for", .forLoop), ("while", .whileLoop), ("do", .doLoop), ("try", .tryCatch),
   ("return", .returnValue), ("throw", .throwValue), ("break", .breakLoop),
   ("continue", .continueLoop)]

/-- The words that change records, with the nodes of their statements. -/
def dmlWords : List (String × Kind) :=
  [("insert", .dmlInsertStatement), ("update", .dmlUpdateStatement),
   ("upsert", .dmlUpsertStatement), ("delete", .dmlDeleteStatement),
   ("undelete", .dmlUndeleteStatement), ("merge", .dmlMergeStatement)]

/-- A change of records. The words for it open one only with an operand after them, since they may also be
names. -/
def dmlOpening? (cursor : Cursor) : Option Opening :=
  match dmlWords.find? fun entry => cursor.ahead 0 (·.isWord entry.1) with
  | some entry =>
    if cursor.ahead 1 fun token => token.symbol?.all (· == .openBracket) then some (.dml entry.2)
    else none
  | none => none

/-- The construct that the tokens in front open. -/
def opening? (cursor : Cursor) : Option Opening :=
  if cursor.ahead 0 (·.isWord "switch") && cursor.ahead 1 (·.isWord "on") then some .switch
  else if cursor.ahead 0 (·.isWord "system") && cursor.ahead 1 (·.isSymbol .dot) &&
      cursor.ahead 2 (·.isWord "runas") then
    some .runAs
  else
    match openingWords.find? fun entry => cursor.ahead 0 (·.isWord entry.1) with
    | some entry => some entry.2
    | none => dmlOpening? cursor

/-! ### Parts of statements -/

def block (sub : Nested) : Parse Node := do
  let line ← line
  expect .openBrace
  let statements ← collectUntil .closeBrace "block" sub.statement
  return ⟨.blockStatement, line, statements.filterMap id⟩

def condition (sub : Nested) : Parse Node := do
  let line ← line
  expect .openParen
  let value ← sub.expression
  expect .closeParen
  return ⟨.standardCondition, line, [value]⟩

/-- The value that a variable or a field may start with. -/
def initialValue (sub : Nested) : Parse (List Node) := do
  if ← eat .assign then return [← sub.expression]
  return []

/-- An expression, unless the symbol is next. -/
def expressionUnless (sub : Nested) (symbol : Symbol) : Parse (List Node) := do
  if ← atSymbol symbol then return []
  return [← sub.expression]

def declaredName (sub : Nested) : Parse Node := do
  let name ← expectIdent
  return ⟨.variableDeclaration, name.line, ← initialValue sub⟩

/-- A type, and whether a name and a token that satisfies `test` follow it. -/
def typeAhead (sub : Nested) (test : Token → Bool) : Parse Bool := do
  sub.typeRef
  aheadPair Token.isIdent test

/-- Reads a type if a name and a token that satisfies `test` follow it, and tells whether they do. -/
def typeThenName (sub : Nested) (test : Token → Bool) : Parse Bool :=
  speculate (typeAhead sub test)

/-- A token that can follow the first name of a local declaration. -/
def followsLocalName (token : Token) : Bool :=
  token.isSymbol .assign || token.isSymbol .semicolon || token.isSymbol .comma

/-- The type of a local declaration, and whether it is one, which what follows the type decides. -/
def localType (sub : Nested) : Parse Bool := do
  let _ ← eatWord "final"
  typeThenName sub followsLocalName

/-- A local declaration up to its semicolon, if the tokens in front are one. -/
def localDeclaration? (sub : Nested) (line : Nat) : Parse (Option Node) := do
  if ← speculate (localType sub) then
    return some ⟨.variableDeclarationStatements, line, ← separated (declaredName sub)⟩
  return none

/-! ### Statements that open with a word -/

/-- A branch with its condition, from the word `if` on. -/
def branch (sub : Nested) (line : Nat) : Parse Node := do
  advance
  let test ← condition sub
  let body ← sub.statement
  return ⟨.ifBlockStatement, line, test :: body.toList⟩

/-- What follows a branch: another one, the statement for no branch at all, or nothing. -/
def alternative? (sub : Nested) : Parse (Round (List Node)) := do
  if ← eatWord "else" then
    if ← atWord "if" then
      return .more [← branch sub (← line)]
    return .last (← sub.statement).toList
  return .done

def furtherBranches (sub : Nested) : Parse (List Node) :=
  return (← collect (alternative? sub)).flatten

def ifStatement (sub : Nested) (line : Nat) : Parse Node := do
  let first ← branch sub line
  return ⟨.ifElseBlockStatement, line, first :: (← furtherBranches sub)⟩

/-- A loop over the elements of a collection, from its variable on. -/
def forEach (sub : Nested) (line : Nat) : Parse Node := do
  let name := Node.leaf .variableDeclaration (← Parse.line)
  skip 2
  let collection ← sub.expression
  expect .closeParen
  let body ← sub.statement
  return ⟨.forEachStatement, line, name :: collection :: body.toList⟩

/-- The declaration or the expressions that a counting loop starts with. -/
def forInitial (sub : Nested) : Parse (List Node) := do
  match ← localDeclaration? sub (← line) with
  | some declaration => return [declaration]
  | none => separated sub.expression

/-- What a counting loop starts with, through the first semicolon. -/
def forStart (sub : Nested) : Parse (List Node) := do
  if ← eat .semicolon then return []
  let start ← forInitial sub
  expect .semicolon
  return start

/-- The condition of a counting loop, without parentheses. -/
def forCondition (sub : Nested) : Parse (List Node) := do
  if ← atSymbol .semicolon then return []
  let line ← line
  return [⟨.standardCondition, line, [← sub.expression]⟩]

def forUpdates (sub : Nested) : Parse (List Node) :=
  collect do
    if ← atSymbol .closeParen then return .done
    let value ← sub.expression
    if ← eat .comma then return .more value
    return .last value

/-- A loop that counts, from behind the opening parenthesis on. -/
def forLoop (sub : Nested) (line : Nat) : Parse Node := do
  let start ← forStart sub
  let test ← forCondition sub
  expect .semicolon
  let updates ← forUpdates sub
  expect .closeParen
  let body ← sub.statement
  return ⟨.forLoopStatement, line, start ++ test ++ updates ++ body.toList⟩

/-- A loop over a collection or a counting loop. -/
def forStatement (sub : Nested) (line : Nat) : Parse Node := do
  advance
  expect .openParen
  if ← typeThenName sub (·.isSymbol .colon) then forEach sub line
  else forLoop sub line

/-- A loop that tests first. -/
def whileStatement (sub : Nested) (line : Nat) : Parse Node := do
  advance
  let test ← condition sub
  let body ← sub.statement
  return ⟨.whileLoopStatement, line, test :: body.toList⟩

/-- A loop that tests last. -/
def doStatement (sub : Nested) (line : Nat) : Parse Node := do
  advance
  let body ← sub.statement
  expectWord "while"
  let test ← condition sub
  expect .semicolon
  return ⟨.doLoopStatement, line, body.toList ++ [test]⟩

/-- The kind of case that a token is the value of, if it can be one. -/
def caseKind? (token : Token) : Option Kind :=
  match token.kind with
  | .punct _ => none
  | .number | .str => some .literalCase
  | .ident => some (if token.isWord "null" then .literalCase else .identifierCase)

def caseValue : Parse Node := do
  let line ← line
  let _ ← eat .minus
  match ← next? with
  | none => complain .expectedCaseValue
  | some token =>
    match caseKind? token with
    | none => complain .expectedCaseValue
    | some kind => return .leaf kind line

def whenBlock (sub : Nested) : Parse Node := do
  let line ← line
  expectWord "when"
  if ← eatWord "else" then
    return ⟨.elseWhenBlock, line, [← block sub]⟩
  else if ← typeThenName sub (·.isSymbol .openBrace) then
    advance
    return ⟨.typeWhenBlock, line, [← block sub]⟩
  else
    let values ← separated caseValue
    return ⟨.valueWhenBlock, line, values ++ [← block sub]⟩

/-- A value and the blocks it chooses from. -/
def switchStatement (sub : Nested) (line : Nat) : Parse Node := do
  skip 2
  let value ← sub.expression
  expect .openBrace
  let blocks ← collectTo .closeBrace (whenBlock sub)
  return ⟨.switchStatement, line, value :: blocks⟩

def catchBlock (sub : Nested) (line : Nat) : Parse Node := do
  advance
  expect .openParen
  let _ ← modifiers
  sub.typeRef
  let _ ← expectIdent
  expect .closeParen
  return ⟨.catchBlockStatement, line, [← block sub]⟩

def handlers (sub : Nested) : Parse (List Node) :=
  many do
    if ← atWord "catch" then return some (← catchBlock sub (← line))
    return none

/-- The block that runs in any case, if there is one. -/
def cleanup (sub : Nested) : Parse (List Node) := do
  if ← eatWord "finally" then return [← block sub]
  return []

/-- A block with its handlers and its cleanup, of which at least one is there. -/
def tryStatement (sub : Nested) (line : Nat) : Parse Node := do
  advance
  let body ← block sub
  let handled ← handlers sub
  let final ← cleanup sub
  if handled.isEmpty && final.isEmpty then complain .expectedHandler
  else return ⟨.tryCatchFinallyBlockStatement, line, body :: handled ++ final⟩

/-- The end of a method, with its value if there is one. -/
def returnStatement (sub : Nested) (line : Nat) : Parse Node := do
  advance
  let value ← expressionUnless sub .semicolon
  expect .semicolon
  return ⟨.returnStatement, line, value⟩

def throwStatement (sub : Nested) (line : Nat) : Parse Node := do
  advance
  let value ← sub.expression
  expect .semicolon
  return ⟨.throwStatement, line, [value]⟩

def wordStatement (kind : Kind) (line : Nat) : Parse Node := do
  advance
  expect .semicolon
  return .leaf kind line

/-- A block that runs as another user. -/
def runAsStatement (sub : Nested) (line : Nat) : Parse Node := do
  skip 3
  let items ← arguments sub
  return ⟨.runAsBlockStatement, line, items ++ [← block sub]⟩

/-- The access mode that a change of records may have. -/
def accessMode : Parse Unit := do
  if ← aheadPair (·.isWord "as") (fun token => token.isWord "user" || token.isWord "system") then
    skip 2

/-- A change of records, possibly with an access mode and a second operand. -/
def dmlStatement (sub : Nested) (kind : Kind) (line : Nat) : Parse Node := do
  advance
  accessMode
  let target ← sub.expression
  let second ← expressionUnless sub .semicolon
  expect .semicolon
  return ⟨kind, line, target :: second⟩

def openedStatement (sub : Nested) (line : Nat) : Opening → Parse Node
  | .ifElse => ifStatement sub line
  | .forLoop => forStatement sub line
  | .whileLoop => whileStatement sub line
  | .doLoop => doStatement sub line
  | .switch => switchStatement sub line
  | .tryCatch => tryStatement sub line
  | .returnValue => returnStatement sub line
  | .throwValue => throwStatement sub line
  | .breakLoop => wordStatement .breakStatement line
  | .continueLoop => wordStatement .continueStatement line
  | .runAs => runAsStatement sub line
  | .dml kind => dmlStatement sub kind line

/-! ### Statements -/

/-- A local declaration or an expression, with its semicolon. -/
def plainStatement (sub : Nested) (line : Nat) : Parse Node := do
  match ← localDeclaration? sub line with
  | some declaration =>
    expect .semicolon
    return declaration
  | none =>
    let value ← sub.expression
    expect .semicolon
    return ⟨.expressionStatement, line, [value]⟩

/-- A statement; a lone semicolon leaves no node. -/
def statement (sub : Nested) : Parse (Option Node) := do
  let line ← line
  if ← atEnd then complain .expectedStatement
  else if ← eat .semicolon then return none
  else if ← atSymbol .openBrace then return some (← block sub)
  else
    match opening? (← get) with
    | some opening => return some (← openedStatement sub line opening)
    | none => return some (← plainStatement sub line)

end Exemplar.Code.Grammar
