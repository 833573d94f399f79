import Exemplar.Code.Token

/-!
# Reading tokens

A cursor stands in front of the tokens not read yet, and counts how many were read and how many nested
constructs are open around it. There are never more open than may nest. A `Parse` moves the cursor and
answers with a value, or fails with a complaint about the token in front of it; the cursor stays where it
failed. Only `foresee?` puts a cursor back.

Loops are bounded by the number of tokens in front of them, because every round but the last one
reads a token.
-/

namespace Exemplar.Code

/-- How deep constructs may nest. -/
def maxDepth : Nat := 200

/-- The tokens not read yet, how many were read, and how many nested constructs are open. `lastLine` is
the line of the source's last token, which stands for the line of the end. -/
structure Cursor where
  rest : List Token
  pos : Nat
  depth : Nat
  depth_le : depth ≤ maxDepth
  lastLine : Nat

namespace Cursor

/-- In front of all tokens. -/
def ofTokens (tokens : List Token) : Cursor :=
  ⟨tokens, 0, 0, Nat.zero_le _, (tokens.getLast?.map Token.line).getD 1⟩

def line (cursor : Cursor) : Nat :=
  (cursor.rest.head?.map Token.line).getD cursor.lastLine

def ahead (cursor : Cursor) (n : Nat) (test : Token → Bool) : Bool :=
  cursor.rest[n]?.any test

/-- The cursor back at the place of another one. -/
def backTo (cursor place : Cursor) : Cursor :=
  { cursor with rest := place.rest, pos := place.pos }

/-- Inside of one more construct. -/
def enter (cursor : Cursor) (h : cursor.depth < maxDepth) : Cursor :=
  { cursor with depth := cursor.depth + 1, depth_le := h }

def leave (cursor : Cursor) : Cursor :=
  { cursor with depth := cursor.depth - 1, depth_le := Nat.le_trans (Nat.sub_le _ _) cursor.depth_le }

end Cursor

/-- What the grammar misses or rejects. The last three are faults of the reader, which no tokens cause. -/
inductive Complaint where
  | expectedSymbol (symbol : Symbol)
  | expectedWord (word : String)
  | expectedIdentifier
  | expectedTypeDeclaration
  | expectedTriggerEvent
  | expectedAnnotationValue
  | expectedAccessor
  | expectedStatement
  | expectedCaseValue
  | expectedHandler
  | expectedExpression
  | expectedQuery
  | unexpectedKeyword
  | unclosed (construct : String)
  | nestedTooDeeply
  | noProgress
  | passedEnd
  | unopenedBracket
deriving DecidableEq, Repr

namespace Complaint

def message : Complaint → String
  | expectedSymbol symbol => s!"expected '{symbol.spelling}'"
  | expectedWord word => s!"expected '{word}'"
  | expectedIdentifier => "expected identifier"
  | expectedTypeDeclaration => "expected class, interface, enum or trigger"
  | expectedTriggerEvent => "expected trigger event"
  | expectedAnnotationValue => "expected annotation value"
  | expectedAccessor => "expected 'get' or 'set'"
  | expectedStatement => "expected statement"
  | expectedCaseValue => "expected when value"
  | expectedHandler => "expected 'catch' or 'finally'"
  | expectedExpression => "expected expression"
  | expectedQuery => "expected SOQL or SOSL query"
  | unexpectedKeyword => "unexpected keyword"
  | unclosed construct => s!"unclosed {construct}"
  | nestedTooDeeply => "nesting too deep"
  | noProgress => "no progress"
  | passedEnd => "passed the end"
  | unopenedBracket => "unopened bracket"

/-- Whether the reader itself is at fault: it reached a bound, went past the last token, or closed a
bracket that it had not opened. -/
def isFault : Complaint → Bool
  | noProgress | passedEnd | unopenedBracket => true
  | _ => false

end Complaint

/-- A complaint with the place it was made at: the token in front of the cursor, its line, and how
many tokens were read. -/
structure SyntaxError where
  complaint : Complaint
  found? : Option Token
  line : Nat
  pos : Nat
deriving DecidableEq, Repr

namespace SyntaxError

def message (e : SyntaxError) : String :=
  let found := match e.found? with
    | some token => s!"'{token.text}'"
    | none => "end of input"
  s!"{e.complaint.message}, found {found} at line {e.line}"

end SyntaxError

/-- Moves a cursor, which is also there after a failure. -/
abbrev Parse (α : Type) := ExceptT SyntaxError (StateM Cursor) α

namespace Parse

variable {α : Type}

def complain (complaint : Complaint) : Parse α := fun cursor =>
  (.error ⟨complaint, cursor.rest.head?, cursor.line, cursor.pos⟩, cursor)

def line : Parse Nat :=
  return (← get).line

def atEnd : Parse Bool :=
  return (← get).rest.isEmpty

def peek? : Parse (Option Token) :=
  return (← get).rest.head?

def ahead (n : Nat) (test : Token → Bool) : Parse Bool :=
  return (← get).ahead n test

def atSymbol (symbol : Symbol) : Parse Bool :=
  ahead 0 (·.isSymbol symbol)

def atWord (word : String) : Parse Bool :=
  ahead 0 (·.isWord word)

/-- Whether the next two tokens satisfy the tests. -/
def aheadPair (first second : Token → Bool) : Parse Bool :=
  return (← get).ahead 0 first && (← get).ahead 1 second

/-- Reads one token. There must be one. -/
def advance : Parse Unit := fun cursor =>
  match cursor.rest with
  | [] => complain .passedEnd cursor
  | _ :: rest => (.ok (), { cursor with rest := rest, pos := cursor.pos + 1 })

/-- Reads so many tokens. There must be as many. -/
def skip : Nat → Parse Unit
  | 0 => return
  | n + 1 => do
    advance
    skip n

/-- Reads the next token, if there is one. -/
def next? : Parse (Option Token) := do
  match ← peek? with
  | some token =>
    advance
    return some token
  | none => return none

/-- Reads the next token if it satisfies a test, and tells whether it did. -/
def eatIf (test : Token → Bool) : Parse Bool := do
  if ← ahead 0 test then
    advance
    return true
  return false

/-- Reads the symbol if it is next. -/
def eat (symbol : Symbol) : Parse Bool :=
  eatIf (·.isSymbol symbol)

def eatWord (word : String) : Parse Bool :=
  eatIf (·.isWord word)

/-- Reads the next token, which must satisfy a test. -/
def expectIf (test : Token → Bool) (complaint : Complaint) : Parse Token := do
  match ← peek? with
  | some token =>
    if test token then
      advance
      return token
    else complain complaint
  | none => complain complaint

/-- Reads the symbol, which must be next. -/
def expect (symbol : Symbol) : Parse Unit := do
  let _ ← expectIf (·.isSymbol symbol) (.expectedSymbol symbol)

def expectWord (word : String) : Parse Unit := do
  let _ ← expectIf (·.isWord word) (.expectedWord word)

/-- Reads an identifier, which must be next. -/
def expectIdent : Parse Token :=
  expectIf Token.isIdent .expectedIdentifier

/-! ### Looking further ahead -/

/-- Where `p` would end, if it succeeds with `true`. Nothing is read. -/
def foresee? (p : Parse Bool) : Parse (Option Cursor) := fun cursor =>
  match p cursor with
  | (.ok hit, after) => (.ok (if hit then some after else none), after.backTo cursor)
  | (.error e, after) =>
    if e.complaint.isFault then (.error e, after) else (.ok none, after.backTo cursor)

/-- Goes on at the place that was found, if one was. -/
def jump (found : Parse (Option Cursor)) (yes no : Parse α) : Parse α := do
  match ← found with
  | some place =>
    set place
    yes
  | none => no

/-- Reads what `p` reads if it succeeds with `true`; otherwise nothing. -/
def speculate (p : Parse Bool) : Parse Bool :=
  jump (foresee? p) (return true) (return false)

/-! ### Nesting -/

/-- Runs `p` one level deeper, unless that is too deep. -/
def nested (p : Parse α) : Parse α := fun cursor =>
  if h : cursor.depth < maxDepth then
    let (result, after) := p (cursor.enter h)
    (result, after.leave)
  else complain .nestedTooDeeply cursor

/-! ### Loops -/

/-- What one round of a loop found: nothing more, a last item, or an item with others to come. -/
inductive Round (α : Type) where
  | done
  | last (item : α)
  | more (item : α)

/-- The items of at most so many rounds. -/
def collectWithin (round : Parse (Round α)) : Nat → Parse (List α)
  | 0 => complain .noProgress
  | rounds + 1 => do
    match ← round with
    | .done => return []
    | .last item => return [item]
    | .more item => return item :: (← collectWithin round rounds)

def collect (round : Parse (Round α)) : Parse (List α) := do
  collectWithin round ((← get).rest.length + 1)

/-- What a value grows to in at most so many steps. -/
def growWithin (step : α → Parse (Option α)) : Nat → α → Parse α
  | 0, _ => complain .noProgress
  | steps + 1, value => do
    match ← step value with
    | none => return value
    | some larger => growWithin step steps larger

/-- Lets a value grow until a step leaves it as it is. -/
def grow (step : α → Parse (Option α)) (value : α) : Parse α := do
  growWithin step ((← get).rest.length + 1) value

/-- Items as long as there is a further one. -/
def many (item? : Parse (Option α)) : Parse (List α) :=
  collect do
    match ← item? with
    | some item => return .more item
    | none => return .done

/-- Items up to the closing symbol, which is read too. -/
def collectTo (close : Symbol) (item : Parse α) : Parse (List α) :=
  collect do
    if ← eat close then return .done
    return .more (← item)

/-- Items up to the closing symbol. The input must not end before it. -/
def collectUntil (close : Symbol) (construct : String) (item : Parse α) : Parse (List α) :=
  collectTo close do
    if ← atEnd then complain (.unclosed construct)
    else item

/-- Passes over pairs of tokens that satisfy the two tests. -/
def skipPairs (first second : Token → Bool) : Parse Unit := do
  let _ ← many do
    if ← aheadPair first second then
      skip 2
      return some ()
    return none

/-- One or more items with commas between them. -/
def separated (item : Parse α) : Parse (List α) :=
  collect do
    let value ← item
    if ← eat .comma then return .more value
    return .last value

/-- An item up to the comma or the closing symbol behind it, unless the closing symbol is next. -/
def enclosedRound (close : Symbol) (item : Parse α) : Parse (Round α) := do
  if ← eat close then return .done
  let value ← item
  if ← eat .comma then return .more value
  expect close
  return .last value

/-- Items between an opening symbol and its closing one, with commas between them; a comma may also
stand before the closing symbol. -/
def enclosed (opening close : Symbol) (item : Parse α) : Parse (List α) := do
  expect opening
  collect (enclosedRound close item)

end Parse

end Exemplar.Code
