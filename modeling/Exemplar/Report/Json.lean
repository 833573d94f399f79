import Exemplar.Text.Basic

/-!
# JSON

Values and their text. A value is written over several lines, two spaces deeper inside each array and
object; empty ones stay on one line. Strings escape quotes, backslashes and control characters, and
nothing else.
-/

namespace Exemplar

/-- A JSON value. Objects keep the order of their fields. -/
inductive Json where
  | null
  | bool (value : Bool)
  | nat (value : Nat)
  | str (value : String)
  | arr (items : List Json)
  | obj (fields : List (String × Json))

namespace Json

/-! ### Building -/

/-- Strings as an array. -/
def strs (values : List String) : Json :=
  arr (values.map str)

/-- A number or nothing. -/
def nat? : Option Nat → Json
  | some n => nat n
  | none => null

/-! ### Writing -/

/-- The digits of a control character's code. -/
def hexDigits (n : Nat) : List Char :=
  let digit d := (Nat.digitChar d)
  [digit (n / 16), digit (n % 16)]

/-- A character inside of quotes. -/
def escapeChar (c : Char) : List Char :=
  match c with
  | '"' => ['\\', '"']
  | '\\' => ['\\', '\\']
  | '\n' => ['\\', 'n']
  | '\r' => ['\\', 'r']
  | '\t' => ['\\', 't']
  | '\x08' => ['\\', 'b']
  | '\x0c' => ['\\', 'f']
  | c => if c.toNat < 0x20 then ['\\', 'u', '0', '0'] ++ hexDigits c.toNat else [c]

def quote (value : String) : String :=
  String.ofList (['"'] ++ value.toList.flatMap escapeChar ++ ['"'])

/-- A new line with some indentation. -/
def newline (depth : Nat) : String :=
  String.ofList ('\n' :: List.replicate (2 * depth) ' ')

/-- Written items between two brackets, each on a line of its own. -/
def bracketed (opening close : String) (depth : Nat) (items : List String) : String :=
  if items.isEmpty then opening ++ close
  else
    let separator := "," ++ newline (depth + 1)
    opening ++ newline (depth + 1) ++ separator.intercalate items ++ newline depth ++ close

mutual

/-- The text of a value that stands inside of `depth` others. -/
def prettyAt (depth : Nat) : Json → String
  | null => "null"
  | bool value => if value then "true" else "false"
  | nat value => toString value
  | str value => quote value
  | arr items => bracketed "[" "]" depth (prettyItems (depth + 1) items)
  | obj fields => bracketed "\x7b" "\x7d" depth (prettyFields (depth + 1) fields)

def prettyItems (depth : Nat) : List Json → List String
  | [] => []
  | item :: items => prettyAt depth item :: prettyItems depth items

def prettyFields (depth : Nat) : List (String × Json) → List String
  | [] => []
  | (name, value) :: fields =>
    (quote name ++ ": " ++ prettyAt depth value) :: prettyFields depth fields

end

def pretty (value : Json) : String :=
  prettyAt 0 value

end Json

end Exemplar
