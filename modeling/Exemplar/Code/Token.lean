import Exemplar.Text.Basic

/-!
# Tokens

The words of example code. Keywords are identifiers whose case does not matter. A closing angle
bracket is always a token of its own, so that nested type arguments close one by one; shifts are put
together from touching brackets later.
-/

namespace Exemplar.Code

/-- Punctuation. -/
inductive Symbol where
  | strictEqual | strictNotEqual | shiftLeftAssign
  | equal | notEqual | lessEqual | greaterEqual | andAnd | orOr | increment | decrement
  | addAssign | subtractAssign | multiplyAssign | divideAssign | remainderAssign
  | andAssign | orAssign | xorAssign | arrow | shiftLeft | safeDot | coalesce
  | openBrace | closeBrace | openParen | closeParen | openBracket | closeBracket
  | semicolon | comma | dot | atSign | assign | less | greater | bang | tilde | question | colon
  | plus | minus | star | slash | percent | ampersand | bar | caret
deriving DecidableEq, Repr

namespace Symbol

def spelling : Symbol → String
  | strictEqual => "===" | strictNotEqual => "!==" | shiftLeftAssign => "<<="
  | equal => "==" | notEqual => "!=" | lessEqual => "<=" | greaterEqual => ">="
  | andAnd => "&&" | orOr => "||" | increment => "++" | decrement => "--"
  | addAssign => "+=" | subtractAssign => "-=" | multiplyAssign => "*=" | divideAssign => "/="
  | remainderAssign => "%=" | andAssign => "&=" | orAssign => "|=" | xorAssign => "^="
  | arrow => "=>" | shiftLeft => "<<" | safeDot => "?." | coalesce => "??"
  | openBrace => "\x7b" | closeBrace => "\x7d" | openParen => "(" | closeParen => ")"
  | openBracket => "[" | closeBracket => "]" | semicolon => ";" | comma => "," | dot => "."
  | atSign => "@" | assign => "=" | less => "<" | greater => ">" | bang => "!" | tilde => "~"
  | question => "?" | colon => ":" | plus => "+" | minus => "-" | star => "*" | slash => "/"
  | percent => "%" | ampersand => "&" | bar => "|" | caret => "^"

/-- Every symbol, longer spellings before shorter ones. -/
def all : List Symbol :=
  [strictEqual, strictNotEqual, shiftLeftAssign,
   equal, notEqual, lessEqual, greaterEqual, andAnd, orOr, increment, decrement,
   addAssign, subtractAssign, multiplyAssign, divideAssign, remainderAssign,
   andAssign, orAssign, xorAssign, arrow, shiftLeft, safeDot, coalesce,
   openBrace, closeBrace, openParen, closeParen, openBracket, closeBracket,
   semicolon, comma, dot, atSign, assign, less, greater, bang, tilde, question, colon,
   plus, minus, star, slash, percent, ampersand, bar, caret]

theorem mem_all (symbol : Symbol) : symbol ∈ all := by
  cases symbol <;> decide

/-- The longest symbol that a text starts with. -/
def longestAt? (cs : List Char) : Option Symbol :=
  all.find? fun symbol => symbol.spelling.toList.isPrefixOf cs

end Symbol

/-- What class a token belongs to. -/
inductive TokenKind where
  | ident
  | number
  | str
  | punct (symbol : Symbol)
deriving DecidableEq, Repr

/-- A place in a text: its 1-based line, the bytes before it on that line and the bytes before it
in all. -/
structure Position where
  line : Nat
  column : Nat
  offset : Nat
deriving DecidableEq, Repr

namespace Position

def start : Position :=
  ⟨1, 0, 0⟩

/-- The place after a character. -/
def advance (pos : Position) (c : Char) : Position :=
  if c = '\n' then ⟨pos.line + 1, 0, pos.offset + c.utf8Size⟩
  else ⟨pos.line, pos.column + c.utf8Size, pos.offset + c.utf8Size⟩

/-- The place after a stretch of text. -/
def advanceOver (pos : Position) (cs : List Char) : Position :=
  cs.foldl advance pos

end Position

/-- A token with its text and the place of its first character. -/
structure Token where
  kind : TokenKind
  text : String
  start : Position
deriving DecidableEq, Repr

namespace Token

def line (token : Token) : Nat :=
  token.start.line

/-- An identifier, which may be a keyword. -/
def isIdent (token : Token) : Bool :=
  token.kind == .ident

/-- The identifier `word`, in any case. -/
def isWord (token : Token) (word : String) : Bool :=
  token.isIdent && Text.sameIgnoringCase token.text.toList word.toList

/-- The symbol `symbol`. -/
def isSymbol (token : Token) (symbol : Symbol) : Bool :=
  token.kind == .punct symbol

def symbol? (token : Token) : Option Symbol :=
  match token.kind with
  | .punct symbol => some symbol
  | _ => none

end Token

end Exemplar.Code
