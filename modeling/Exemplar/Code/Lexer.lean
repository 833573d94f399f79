import Exemplar.Code.Token
import Exemplar.Text.Word

/-!
# Splitting code into tokens

The source is cut into pieces from left to right: blank runs and comments, which leave no token, and
tokens. At each place the piece is the longest one that any class of pieces allows there. A string
or a block comment without its end, and a character that starts no piece, stop the scan.
-/

namespace Exemplar.Code

/-- Why a source has no tokens. -/
inductive LexError where
  | unterminatedString (line : Nat)
  | unterminatedComment (line : Nat)
  | unexpectedCharacter (ch : Char) (line : Nat)
deriving DecidableEq, Repr

namespace LexError

def line : LexError → Nat
  | unterminatedString line | unterminatedComment line | unexpectedCharacter _ line => line

def message : LexError → String
  | unterminatedString line => s!"unterminated string literal at line {line}"
  | unterminatedComment line => s!"unterminated block comment at line {line}"
  | unexpectedCharacter ch line => s!"unexpected character '{ch}' at line {line}"

end LexError

/-- A stretch of source: a token of some kind, or one of those that leave no token. -/
structure Piece where
  kind? : Option TokenKind
  text : List Char

/-! ### The classes of pieces -/

/-- The characters that separate tokens. -/
def isSeparator (c : Char) : Bool :=
  Text.isAsciiBlank c

/-- A character that starts an identifier of the code. -/
def isNameStart (c : Char) : Bool :=
  Text.isIdentStart c || c == '$'

/-- A character that goes on with an identifier of the code. -/
def isNameChar (c : Char) : Bool :=
  Text.isIdentChar c || c == '$'

/-- What follows the opening quote of a string, through the closing quote. A backslash takes the
next character with it; a string ends on its line. -/
def stringTail? : List Char → Option (List Char)
  | [] => none
  | '\'' :: _ => some ['\'']
  | '\n' :: _ => none
  | '\\' :: [] => none
  | '\\' :: '\n' :: _ => none
  | '\\' :: c :: cs => (stringTail? cs).map fun tail => '\\' :: c :: tail
  | c :: cs => (stringTail? cs).map (c :: ·)

/-- What follows the opening of a block comment, through the first closing. -/
def blockCommentTail? : List Char → Option (List Char)
  | [] => none
  | '*' :: '/' :: _ => some ['*', '/']
  | c :: cs => (blockCommentTail? cs).map (c :: ·)

/-- What follows the first digit of a number: letters and digits, and points with a digit after
them. -/
def numberTail : List Char → List Char
  | [] => []
  | c :: cs =>
    if c.isAlphanum || (c == '.' && cs.head?.any Char.isDigit) then c :: numberTail cs else []

/-- The longest piece at the start of `c :: cs`, where `line` is the line of `c`. -/
def pieceAt (line : Nat) (c : Char) (cs : List Char) : Except LexError Piece :=
  if isSeparator c then
    .ok ⟨none, c :: cs.takeWhile isSeparator⟩
  else if ['/', '/'].isPrefixOf (c :: cs) then
    .ok ⟨none, c :: cs.takeWhile (· != '\n')⟩
  else if ['/', '*'].isPrefixOf (c :: cs) then
    match blockCommentTail? (cs.drop 1) with
    | some tail => .ok ⟨none, '/' :: '*' :: tail⟩
    | none => .error (.unterminatedComment line)
  else if c == '\'' then
    match stringTail? cs with
    | some tail => .ok ⟨some .str, c :: tail⟩
    | none => .error (.unterminatedString line)
  else if isNameStart c then
    .ok ⟨some .ident, c :: cs.takeWhile isNameChar⟩
  else if c.isDigit then
    .ok ⟨some .number, c :: numberTail cs⟩
  else
    match Symbol.longestAt? (c :: cs) with
    | some symbol => .ok ⟨some (.punct symbol), symbol.spelling.toList⟩
    | none => .error (.unexpectedCharacter c line)

/-! ### The scan -/

/-- The token that a piece leaves, if any. -/
def Piece.tokenAt? (piece : Piece) (pos : Position) : Option Token :=
  piece.kind?.map fun kind => ⟨kind, String.ofList piece.text, pos⟩

/-- The tokens from `pos` on, where the next `inside` characters belong to the piece just read. -/
def tokensFrom : (pos : Position) → (inside : Nat) → List Char → Except LexError (List Token)
  | _, _, [] => .ok []
  | pos, inside + 1, c :: cs => tokensFrom (pos.advance c) inside cs
  | pos, 0, c :: cs =>
    match pieceAt pos.line c cs with
    | .error e => .error e
    | .ok piece =>
      match tokensFrom (pos.advance c) (piece.text.length - 1) cs with
      | .error e => .error e
      | .ok tokens => .ok ((piece.tokenAt? pos).toList ++ tokens)

def tokenize (source : String) : Except LexError (List Token) :=
  tokensFrom .start 0 source.toList

end Exemplar.Code
