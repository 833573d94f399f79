import Exemplar.Markup.Alphabet
import Exemplar.Text.Basic

/-!
# Scanning markup

A scan reads characters from the front of a document and keeps count of the bytes it has read. It fails
without saying why: a document is well-formed or it is not.
-/

namespace Exemplar.Markup

/-- The characters not read yet, and the bytes read so far. -/
structure Cursor where
  offset : Nat
  rest : List Char

/-- Reads characters from a cursor. -/
abbrev Scan (α : Type) := StateT Cursor Option α

namespace Scan

variable {α : Type}

def offset : Scan Nat :=
  return (← get).offset

def rest : Scan (List Char) :=
  return (← get).rest

/-- Whether a text is next. -/
def startsWith (text : String) : Scan Bool :=
  return text.toList.isPrefixOf (← rest)

def take (n : Nat) : Scan (List Char) := do
  let cursor ← get
  let read := cursor.rest.take n
  set (⟨cursor.offset + Text.byteSize read, cursor.rest.drop n⟩ : Cursor)
  return read

/-- Reads the characters up to the first one that fails a test. -/
def takeWhile (test : Char → Bool) : Scan (List Char) := do
  let cursor ← get
  let read := cursor.rest.takeWhile test
  set (⟨cursor.offset + Text.byteSize read, cursor.rest.dropWhile test⟩ : Cursor)
  return read

/-- Reads a text if it is next, and tells whether it was. -/
def eat (text : String) : Scan Bool := do
  let hit ← startsWith text
  if hit then
    let _ ← take text.length
  return hit

/-- Reads a text, which must be next. -/
def expect (text : String) : Scan Unit := do
  unless ← eat text do failure

def skipSpace : Scan Unit := do
  let _ ← takeWhile isSpace

/-- How many characters stand before a place that `stop` accepts, or before the end. -/
def countUntil (stop : List Char → Bool) : List Char → Nat
  | [] => 0
  | c :: cs => if stop (c :: cs) then 0 else countUntil stop cs + 1

/-- Reads up to a place that `stop` accepts, or to the end. Only legal characters may be read. -/
def takeUntil (stop : List Char → Bool) : Scan (List Char) := do
  let read ← take (countUntil stop (← rest))
  if read.all isLegal then return read else failure

/-- Reads up to a text and the text itself. -/
def takeThrough (text : String) : Scan (List Char) := do
  let read ← takeUntil fun rest => text.toList.isPrefixOf rest
  expect text
  return read

/-- Reads a name, in which colons have no meaning. -/
def name : Scan (List Char) := do
  let read ← takeWhile isNameChar
  if read.head?.any isNameStart then return read else failure

/-- Reads items for as long as there is one, at most as many as there are characters. -/
def many (item? : Scan (Option α)) : Scan (List α) := do
  within item? ((← rest).length + 1)
where
  within (item? : Scan (Option α)) : Nat → Scan (List α)
    | 0 => failure
    | bound + 1 => do
      match ← item? with
      | none => return []
      | some item => return item :: (← within item? bound)

end Scan

end Exemplar.Markup
