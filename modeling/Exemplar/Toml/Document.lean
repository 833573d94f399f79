import Exemplar.Toml.Quoted
import Exemplar.Toml.Scalar

/-!
# TOML documents

A document is a list of lines; a value can go over several of them. Scans read from the head of a text and
fail if it does not fit. Loops are bounded by the length of the text, because each round reads a
character, and values by how deeply they may be nested.
-/

namespace Exemplar.Toml

/-- Reads something from the head of a text. -/
abbrev Scan := StateT (List Char) Option

namespace Scan

def peek : Scan (Option Char) := do
  return (← get).head?

/-- Reads the longest head of characters that satisfy a test. -/
def takeWhile (test : Char → Bool) : Scan (List Char) :=
  modifyGet fun cs => (cs.takeWhile test, cs.dropWhile test)

def expect (text : String) : Scan Unit := do
  let rest ← text.toList.isPrefixOf? (← get)
  set rest

def accept (text : String) : Scan Bool :=
  modifyGet fun cs =>
    match text.toList.isPrefixOf? cs with
    | some rest => (true, rest)
    | none => (false, cs)

def spaces : Scan Unit := do
  let _ ← takeWhile isSpace

def newline : Scan Bool :=
  modifyGet fun cs =>
    match afterNewline? cs with
    | some rest => (true, rest)
    | none => (false, cs)

def comment : Scan Unit := do
  if ← accept "#" then
    let _ ← takeWhile isPlain

/-- Reads what may follow in a line that says something, and its end. -/
def lineEnd : Scan Unit := do
  spaces
  comment
  unless ← newline do
    guard (← peek).isNone

/-- Reads white space, line endings and comments, over `n` lines at most. -/
def blankLines : (n : Nat) → Scan Unit
  | 0 => return
  | n + 1 => do
    spaces
    comment
    if ← newline then blankLines n

/-- Reads all white space, line endings and comments. -/
def blank : Scan Unit := do
  blankLines ((← get).length + 1)

/-! ### Keys -/

/-- A character of names without quotes. -/
def isBare (c : Char) : Bool :=
  c.isAlphanum || c == '-' || c == '_'

def name : Scan String := do
  match ← peek with
  | some '"' | some '\'' =>
    let (text, rest) ← quoted? false (← get)
    set rest
    return String.ofList text
  | _ =>
    let text ← takeWhile isBare
    guard !text.isEmpty
    return String.ofList text

/-- Reads the names of a key, `n + 1` at most, with white space around them. -/
def names : (n : Nat) → Scan (List String)
  | 0 => failure
  | n + 1 => do
    spaces
    let first ← name
    spaces
    if ← accept "." then return first :: (← names n) else return [first]

/-- How many names a key may have, and how many arrays and tables may be around a value. -/
def depthLimit : Nat := 79

def key : Scan Key := do
  let all ← names depthLimit
  return ⟨all.dropLast, all.getLast?.getD ""⟩

/-! ### Values -/

/-- A character of numbers, dates and the like. -/
def isWordChar (c : Char) : Bool :=
  c.isAlphanum || c == '+' || c == '-' || c == '_' || c == '.' || c == ':'

/-- Reads a time of day that follows a date after a space, if there is one. -/
def timeAfter (date : List Char) : Scan (List Char) :=
  modifyGet fun cs =>
    match cs with
    | ' ' :: c :: _ =>
      if afterDate? date = some [] && c.isDigit then
        (date ++ ' ' :: (cs.drop 1).takeWhile isWordChar, (cs.drop 1).dropWhile isWordChar)
      else (date, cs)
    | _ => (date, cs)

/-- Reads a string, a number, a date or the like. -/
def scalar : Scan Value := do
  match ← peek with
  | some '"' | some '\'' =>
    let (text, rest) ← quoted? true (← get)
    set rest
    return .string (String.ofList text)
  | _ =>
    let word ← timeAfter (← takeWhile isWordChar)
    scalar? word

/-- Reads the values of an array and its end, `n` values at most. -/
def items (value : Scan Value) : (n : Nat) → Scan (List Value)
  | 0 => failure
  | n + 1 => do
    blank
    if ← accept "]" then return []
    let first ← value
    blank
    if ← accept "," then return first :: (← items value n)
    expect "]"
    return [first]

/-- Reads a key and its value. -/
def pair (value : Scan Value) : Scan (Key × Value) := do
  let key ← key
  expect "="
  spaces
  return (key, ← value)

/-- Reads the keys and values of a table between braces and its end, `n` keys at most. -/
def pairs (value : Scan Value) : (n : Nat) → Scan (List (Key × Value))
  | 0 => failure
  | n + 1 => do
    let first ← pair value
    spaces
    if ← accept "," then return first :: (← pairs value n)
    expect "\x7d"
    return [first]

/-- Reads a value with at most `depth` arrays and tables around the innermost value. -/
def value : (depth : Nat) → Scan Value
  | 0 => scalar
  | depth + 1 => do
    if ← accept "[" then return .array (← items (value depth) ((← get).length + 1))
    else if ← accept "\x7b" then
      spaces
      if ← accept "\x7d" then return .table .inline []
      Value.ofPairs? (← pairs (value depth) ((← get).length + 1))
    else scalar

/-! ### Lines -/

/-- Reads what a line says. -/
def saying : Scan Statement := do
  if ← accept "[[" then
    let key ← key
    expect "]]"
    return .arrayHeader key
  else if ← accept "[" then
    let key ← key
    expect "]"
    return .header key
  else
    let (key, value) ← pair (value depthLimit)
    return .assign key value

/-- Reads a line that says something. -/
def statement : Scan Statement := do
  let statement ← saying
  lineEnd
  return statement

/-- Reads lines up to the end of the text, `n` at most. -/
def statements : (n : Nat) → Scan (List Statement)
  | 0 => failure
  | n + 1 => do
    blank
    if (← peek).isNone then return []
    return (← statement) :: (← statements n)

end Scan

/-- The table that a document stands for. A byte order mark in front of it does not count. -/
def Value.ofText? (text : String) : Option Value := do
  let cs := text.toList
  let cs := if cs.head? == some '\ufeff' then cs.drop 1 else cs
  let (statements, _) ← (Scan.statements (cs.length + 1)).run cs
  Value.ofStatements? statements

end Exemplar.Toml
