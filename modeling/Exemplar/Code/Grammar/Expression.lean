import Exemplar.Code.Grammar.Basic

/-!
# Expressions

From loose to tight: assignment, the ternary, eleven levels of binary operators, prefix operators and
casts, then primaries with what follows them. `instanceof` is a postfix operator of the comparison
level whose right side is a type, and two or three touching closing angle brackets are one shift
operator.

Binary operators are read by climbing: `climb` keeps extending its left operand as long as an operator
of at least the wanted level follows, and reads each right operand one level tighter.
-/

namespace Exemplar.Code.Grammar

open Parse

/-! ### Words -/

/-- Words that can never start an expression. -/
def reservedWords : List String :=
  ["abstract", "catch", "class", "do", "else", "enum", "finally", "for", "global", "if", "interface",
   "override", "private", "protected", "public", "return", "static", "throw", "try", "virtual",
   "while"]

/-- Words that are literals. -/
def literalWords : List String :=
  ["true", "false", "null"]

def assignmentSymbols : List Symbol :=
  [.assign, .addAssign, .subtractAssign, .multiplyAssign, .divideAssign, .remainderAssign, .andAssign,
   .orAssign, .xorAssign, .shiftLeftAssign]

/-- The symbols that stand before their operand. -/
def prefixSymbols : List Symbol :=
  [.bang, .minus, .plus, .tilde, .increment, .decrement]

/-! ### Operators -/

/-- A binary operator: its level, the kind of its node and how many tokens it is written with. -/
structure Operator where
  level : Nat
  kind : Kind
  width : Nat
deriving DecidableEq, Repr

/-- One more than the tightest level of a binary operator. -/
def operandLevel : Nat := 11

/-- How many of at most `limit` tokens in front are closing angle brackets that touch the token
before them, which starts at byte `offset`. -/
def touchingBrackets : (limit offset : Nat) → List Token → Nat
  | limit + 1, offset, token :: rest =>
    if token.isSymbol .greater && token.start.offset == offset + 1 then
      touchingBrackets limit token.start.offset rest + 1
    else 0
  | _, _, _ => 0

/-- The binary operator at the head of the tokens. -/
def binaryOperator? : List Token → Option Operator
  | [] => none
  | token :: rest =>
    if token.isWord "instanceof" then some ⟨7, .instanceOfExpression, 1⟩
    else match token.symbol? with
      | some .coalesce => some ⟨0, .nullCoalescingExpression, 1⟩
      | some .orOr => some ⟨1, .booleanExpression, 1⟩
      | some .andAnd => some ⟨2, .booleanExpression, 1⟩
      | some .bar => some ⟨3, .binaryExpression, 1⟩
      | some .caret => some ⟨4, .binaryExpression, 1⟩
      | some .ampersand => some ⟨5, .binaryExpression, 1⟩
      | some .equal | some .notEqual | some .strictEqual | some .strictNotEqual =>
        some ⟨6, .booleanExpression, 1⟩
      | some .less | some .lessEqual | some .greaterEqual => some ⟨7, .booleanExpression, 1⟩
      | some .greater =>
        match touchingBrackets 2 token.start.offset rest with
        | 0 => some ⟨7, .booleanExpression, 1⟩
        | more => some ⟨8, .binaryExpression, more + 1⟩
      | some .shiftLeft => some ⟨8, .binaryExpression, 1⟩
      | some .plus | some .minus => some ⟨9, .binaryExpression, 1⟩
      | some .star | some .slash | some .percent => some ⟨10, .binaryExpression, 1⟩
      | _ => none

/-- Extends a left operand that starts on `line` by an operator, which is next, with `rhs` reading a right
operand of the level it is given. -/
def applyOperator (sub : Nested) (line : Nat) (rhs : Nat → Parse Node) (lhs : Node) (op : Operator) :
    Parse Node := do
  skip op.width
  if op.kind == .instanceOfExpression then
    sub.typeRef
    return ⟨op.kind, line, [lhs]⟩
  else
    let right ← rhs (op.level + 1)
    return ⟨op.kind, line, [lhs, right]⟩

/-- Extends a left operand by the operator in front if that has at least the wanted level. -/
def extendBinary (sub : Nested) (line level : Nat) (rhs : Nat → Parse Node) (lhs : Node) :
    Parse (Option Node) := do
  match binaryOperator? (← get).rest with
  | none => return none
  | some op =>
    if op.level < level then return none
    else return some (← applyOperator sub line rhs lhs op)

/-- Operands joined by operators of at least `level`, where at most `gap` levels are left. -/
def climb (sub : Nested) (operand : Parse Node) : (gap level : Nat) → Parse Node
  | 0, _ => operand
  | gap + 1, level => do
    let line ← line
    let lhs ← operand
    grow (extendBinary sub line level (climb sub operand gap)) lhs

/-- Operands joined by operators of at least `level`. -/
def binary (sub : Nested) (operand : Parse Node) (level : Nat) : Parse Node :=
  climb sub operand (operandLevel - level) level

/-! ### Primaries -/

def arguments (sub : Nested) : Parse (List Node) := do
  expect .openParen
  if ← eat .closeParen then return []
  let items ← separated sub.expression
  expect .closeParen
  return items

/-- Reads the next token of a query, where `depth` square brackets are open: how many are open then, or
nothing if it closes the only one. -/
def queryToken? (depth : Nat) : Parse (Option Nat) := do
  match ← next? with
  | none => complain (.unclosed "query")
  | some token =>
    if token.isSymbol .openBracket then return some (depth + 1)
    else if token.isSymbol .closeBracket then
      match depth with
      | 0 => complain .unopenedBracket
      | 1 => return none
      | depth + 2 => return some (depth + 1)
    else return some depth

/-- The kind of query that starts here, which the word behind the bracket tells. -/
def queryKind : Parse Kind := do
  if ← ahead 1 (·.isWord "select") then return .soqlExpression
  if ← ahead 1 (·.isWord "find") then return .soslExpression
  complain .expectedQuery

/-- A query in square brackets, read as one node whatever it says. -/
def query (line : Nat) : Parse Node := do
  let kind ← queryKind
  let _ ← grow queryToken? 0
  return .leaf kind line

def mapEntries (sub : Nested) : Parse (List Node) :=
  enclosed .openBrace .closeBrace do
    let line ← line
    let key ← sub.expression
    expect .arrow
    let value ← sub.expression
    return ⟨.mapEntryNode, line, [key, value]⟩

/-- The items of a list or set literal. -/
def literalItems (sub : Nested) : Parse (List Node) :=
  enclosed .openBrace .closeBrace sub.expression

/-- The collection types that have literals of their own. -/
inductive Collection where
  | list | set | map
deriving DecidableEq, Repr

/-- The collection that a type name stands for. -/
def Collection.ofToken? (name : Token) : Option Collection :=
  if name.isWord "list" then some list
  else if name.isWord "set" then some set
  else if name.isWord "map" then some map
  else none

/-- The kind of a node that builds an object from arguments. -/
def constructionKind (collection : Option Collection) (generic : Bool) (arguments : List Node) :
    Kind :=
  match generic, collection with
  | true, some .list => .newListInitExpression
  | true, some .set => .newSetInitExpression
  | true, some .map => .newMapInitExpression
  | _, _ =>
    if !arguments.isEmpty && arguments.all (·.kind == .assignmentExpression) then
      .newKeyValueObjectExpression
    else .newObjectExpression

/-- An array from behind its opening bracket on: with its items, or with its size. -/
def arrayRest (sub : Nested) (line : Nat) : Parse Node := do
  if ← eat .closeBracket then
    return ⟨.newListLiteralExpression, line, ← literalItems sub⟩
  let size ← sub.expression
  expect .closeBracket
  return ⟨.newListInitExpression, line, [size]⟩

/-- The items of a collection in braces. -/
def collectionLiteral (sub : Nested) (collection : Option Collection) (line : Nat) : Parse Node := do
  match collection with
  | some .map => return ⟨.newMapLiteralExpression, line, ← mapEntries sub⟩
  | some .set => return ⟨.newSetLiteralExpression, line, ← literalItems sub⟩
  | _ => return ⟨.newListLiteralExpression, line, ← literalItems sub⟩

/-- What is built by `new`, the next word. -/
def construction (sub : Nested) (line : Nat) : Parse Node := do
  advance
  let name ← expectIdent
  qualifiers
  let generic ← typeArguments? sub
  if ← eat .openBracket then
    arrayRest sub line
  else if ← atSymbol .openBrace then
    collectionLiteral sub (Collection.ofToken? name) line
  else
    let items ← arguments sub
    return ⟨constructionKind (Collection.ofToken? name) generic items, line, items⟩

/-- The kind of a name, with or without arguments. -/
def nameKind (name : Token) (call : Bool) : Kind :=
  if name.isWord "this" then
    if call then .thisMethodCallExpression else .thisVariableExpression
  else if name.isWord "super" then
    if call then .superMethodCallExpression else .superVariableExpression
  else
    if call then .methodCallExpression else .variableExpression

/-- A name, which is the next token, with arguments if there are any. -/
def nameOrCall (sub : Nested) (line : Nat) (name : Token) : Parse Node := do
  advance
  if ← atSymbol .openParen then
    return ⟨nameKind name true, line, ← arguments sub⟩
  return .leaf (nameKind name false) line

/-- An expression in parentheses, which are next. -/
def parenthesised (sub : Nested) : Parse Node := do
  expect .openParen
  let inner ← sub.expression
  expect .closeParen
  return inner

/-- A token that is an expression of its own. -/
def literal (line : Nat) : Parse Node := do
  advance
  return .leaf .literalExpression line

/-- A literal, a parenthesised expression, a query, a construction, a name or a call. -/
def primary (sub : Nested) : Parse Node := do
  let line ← line
  match ← peek? with
  | none => complain .expectedExpression
  | some token =>
    match token.kind with
    | .number | .str => literal line
    | .punct .openParen => parenthesised sub
    | .punct .openBracket => query line
    | .punct _ => complain .expectedExpression
    | .ident =>
      if reservedWords.any token.isWord then complain .unexpectedKeyword
      else if literalWords.any token.isWord then literal line
      else if token.isWord "new" then construction sub line
      else nameOrCall sub line token

/-- A member of a value from behind the dot on: the reference to a class, a call or a variable. -/
def memberAccess (sub : Nested) (line : Nat) (inner : Node) : Parse Node := do
  let name ← expectIdent
  if name.isWord "class" then
    return ⟨.classRefExpression, line, [inner]⟩
  else if ← atSymbol .openParen then
    return ⟨.methodCallExpression, line, inner :: (← arguments sub)⟩
  else
    return ⟨.variableExpression, line, [inner]⟩

/-- An element of a value, from behind the opening bracket on. -/
def element (sub : Nested) (line : Nat) (inner : Node) : Parse Node := do
  let index ← sub.expression
  expect .closeBracket
  return ⟨.arrayLoadExpression, line, [inner, index]⟩

/-- Extends a primary that starts on `line` by a member access, an index or a postfix operator. -/
def extendPostfix (sub : Nested) (line : Nat) (inner : Node) : Parse (Option Node) := do
  if ← eatIf fun token => token.isSymbol .dot || token.isSymbol .safeDot then
    return some (← memberAccess sub line inner)
  if ← eat .openBracket then
    return some (← element sub line inner)
  if ← eatIf fun token => token.isSymbol .increment || token.isSymbol .decrement then
    return some ⟨.postfixExpression, line, [inner]⟩
  return none

/-- A primary with everything that follows it. -/
def postfixed (sub : Nested) : Parse Node := do
  let line ← line
  let inner ← primary sub
  grow (extendPostfix sub line) inner

/-! ### Operands -/

/-- A token that can start the operand of a cast. -/
def startsCastOperand (token : Token) : Bool :=
  match token.kind with
  | .ident => !token.isWord "instanceof"
  | .number | .str => true
  | .punct symbol => symbol == .openParen

/-- A type in parentheses, and whether it is a cast, which the token after it decides. -/
def castType (sub : Nested) : Parse Bool := do
  expect .openParen
  sub.typeRef
  expect .closeParen
  ahead 0 startsCastOperand

/-- The place behind a cast, if one is next. -/
def castEnd? (sub : Nested) : Parse (Option Cursor) :=
  foresee? (castType sub)

/-- An operand with its prefix operators and casts. -/
def operand (sub : Nested) : Parse Node := do
  let line ← line
  if ← eatIf fun token => token.symbol?.any prefixSymbols.contains then
    return ⟨.prefixExpression, line, [← sub.operand]⟩
  jump (castEnd? sub)
    (return ⟨.castExpression, line, [← sub.operand]⟩)
    (postfixed sub)

/-! ### Expressions -/

/-- Binary operators, then possibly the two branches of a ternary. -/
def ternary (sub : Nested) : Parse Node := do
  let line ← line
  let condition ← binary sub (operand sub) 0
  if ← eat .question then
    let consequence ← sub.expression
    expect .colon
    let alternative ← sub.expression
    return ⟨.ternaryExpression, line, [condition, consequence, alternative]⟩
  return condition

/-- An expression; assignments group to the right. -/
def expression (sub : Nested) : Parse Node := do
  let line ← line
  let target ← ternary sub
  if ← eatIf fun token => token.symbol?.any assignmentSymbols.contains then
    return ⟨.assignmentExpression, line, [target, ← sub.expression]⟩
  return target

end Exemplar.Code.Grammar
