import Exemplar.Markup.Alphabet
import Exemplar.Text.Search

/-!
# Character references

A document writes a character as itself or as a reference: five by name, any by number. Reading turns
references into their characters and settles line endings, by one rule for attribute values and one for
text. `escape` writes a text so that reading gives it back.
-/

namespace Exemplar.Markup

/-! ### References -/

/-- A character of a text and whether a reference stands for it. -/
structure Glyph where
  char : Char
  isReference : Bool
deriving DecidableEq, Repr

/-- The characters that have a name. -/
def namedCharacters : List (String × Char) :=
  [("quot", '"'), ("amp", '&'), ("apos", '\''), ("lt", '<'), ("gt", '>')]

/-- The value of a hexadecimal digit. -/
def hexValue? (c : Char) : Option Nat :=
  if c.isDigit then some (c.toNat - '0'.toNat)
  else if 'a' ≤ c && c ≤ 'f' then some (c.toNat - 'a'.toNat + 10)
  else if 'A' ≤ c && c ≤ 'F' then some (c.toNat - 'A'.toNat + 10)
  else none

/-- The number that digits spell in a base. -/
def numeral (base : Nat) (digits : List Char) : Nat :=
  digits.foldl (fun n c => n * base + (hexValue? c).getD 0) 0

/-- The character of a number that fits into 32 bits. Numbers of no character stand for the
replacement character. -/
def characterOf? (n : Nat) : Option Char :=
  if n < Nat.pow 2 32 then
    let c := if n.isValidChar then Char.ofNat n else '\uFFFD'
    if isLegal c then some c else none
  else none

/-- The character of a numeric reference, given what follows its number sign. -/
def numericReference? (cs : List Char) : Option (Char × List Char) := do
  let (base, isDigit, cs) : Nat × (Char → Bool) × List Char :=
    match cs with
    | 'x' :: rest => (16, fun c => (hexValue? c).isSome, rest)
    | _ => (10, Char.isDigit, cs)
  let digits := cs.takeWhile isDigit
  if digits.isEmpty then none
  let c ← characterOf? (numeral base digits)
  let rest ← [';'].isPrefixOf? (cs.dropWhile isDigit)
  return (c, rest)

/-- The character of a reference, given what follows its ampersand. -/
def reference? (cs : List Char) : Option (Char × List Char) :=
  match cs with
  | '#' :: rest => numericReference? rest
  | _ => namedCharacters.findSome? fun (name, c) =>
    ((name.toList ++ [';']).isPrefixOf? cs).map (c, ·)

/-- The characters of a text, where the next `inside` ones belong to the reference just read. A
reference that cannot be read makes the whole text unreadable. -/
def glyphsFrom? : (inside : Nat) → List Char → Option (List Glyph)
  | _, [] => some []
  | inside + 1, _ :: cs => glyphsFrom? inside cs
  | 0, c :: cs =>
    if c == '&' then do
      let (referred, rest) ← reference? cs
      return ⟨referred, true⟩ :: (← glyphsFrom? (cs.length - rest.length) cs)
    else return ⟨c, false⟩ :: (← glyphsFrom? 0 cs)

/-- The characters of a text with its references read. -/
def glyphs? (cs : List Char) : Option (List Glyph) :=
  glyphsFrom? 0 cs

/-! ### Line endings -/

/-- The characters of an attribute value: a line ending or a tab becomes a space, but not one that a
reference stands for. -/
def attributeChars : List Glyph → List Char
  | [] => []
  | ⟨'\r', false⟩ :: ⟨'\n', false⟩ :: rest => ' ' :: attributeChars rest
  | ⟨c, isReference⟩ :: rest =>
    (if !isReference && isSpace c then ' ' else c) :: attributeChars rest

/-- The value that an attribute's text stands for. -/
def attributeValue? (cs : List Char) : Option (List Char) :=
  (glyphs? cs).map attributeChars

/-- Adds a plain character to the text read so far, which is given last character first. A carriage
return waits for the next character to become a newline; at the end of the text it does so at once. -/
def addPlain (read : List Char) (c : Char) (isLast : Bool) : List Char :=
  match read with
  | '\r' :: before =>
    if isLast && c == '\r' then '\n' :: '\n' :: before
    else if c == '\n' then '\n' :: before
    else c :: '\n' :: before
  | _ => if isLast && c == '\r' then '\n' :: read else c :: read

/-- The text that glyphs stand for, last character first, on top of what is read already. A reference
and the plain character after it are taken as they are. -/
def settle (read : List Char) (afterReference : Bool) : List Glyph → List Char
  | [] => read
  | ⟨c, true⟩ :: rest => settle (c :: read) true rest
  | ⟨c, false⟩ :: rest =>
    let read := if afterReference then c :: read else addPlain read c rest.isEmpty
    settle read false rest

/-- The text that a stretch between two pieces of markup stands for. -/
def textValue? (cs : List Char) : Option (List Char) :=
  (glyphs? cs).map fun glyphs => (settle [] false glyphs).reverse

/-- The text of a section in which references mean nothing. -/
def verbatimValue (cs : List Char) : List Char :=
  (settle [] false (cs.map (⟨·, false⟩))).reverse

/-! ### Writing -/

/-- A character as a document may write it anywhere. -/
def escapeChar (c : Char) : List Char :=
  match c with
  | '&' => "&amp;".toList
  | '<' => "&lt;".toList
  | '>' => "&gt;".toList
  | '"' => "&quot;".toList
  | '\'' => "&apos;".toList
  | c => [c]

/-- A text as a document may write it anywhere. -/
def escape (cs : List Char) : List Char :=
  cs.flatMap escapeChar

end Exemplar.Markup
