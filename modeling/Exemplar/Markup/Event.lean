import Exemplar.Markup.Reference
import Exemplar.Markup.Scan

/-!
# Markup events

A document read from front to back is a list of events: elements open and close, and text stands
between them. Comments, processing instructions and the declaration leave no event. The list ends with
the element that encloses all others; whether what opens also closes is decided when events become a
tree.
-/

namespace Exemplar.Markup

/-- A name with the part before its colon, which is empty if there is no colon. -/
structure QName where
  space : List Char
  localName : List Char
deriving DecidableEq, Repr

/-- An attribute with its value read. -/
structure RawAttribute where
  name : QName
  value : List Char
deriving DecidableEq, Repr

/-- What a document holds next. -/
inductive Event where
  /-- An element opens with its start tag, which begins at byte `start`. -/
  | opening (name : QName) (attributes : List RawAttribute) (start : Nat)
  /-- The element opened last closes at byte `stop`. An end tag has a name, the end of an empty tag
  has none. -/
  | closing (name? : Option QName) (stop : Nat)
  /-- Text, with its references read. -/
  | text (content : List Char)
deriving DecidableEq, Repr

namespace Event

open Scan

/-! ### Pieces of tags -/

/-- The name that a run of name characters spells, with at most one colon in it. -/
def qualify? (read : List Char) : Option QName := do
  let name ← match Text.splitOnce? ':' read with
    | none => some ⟨[], read⟩
    | some (space, localName) => if localName.contains ':' then none else some ⟨space, localName⟩
  if name.space.head?.all isNameStart && name.localName.head?.any isNameStart then some name else none

/-- Reads a name that may have a colon. -/
def qname : Scan QName := do
  match qualify? (← takeWhile isNameChar) with
  | some name => return name
  | none => failure

/-- Reads an attribute without looking at the references in its value. -/
def rawAttribute : Scan (QName × List Char) := do
  let name ← qname
  skipSpace
  expect "="
  skipSpace
  match (← take 1).head? with
  | some quote =>
    if Text.isQuote quote then
      let value ← takeUntil fun rest => rest.head?.any fun c => c == quote || c == '<'
      expect (String.singleton quote)
      return (name, value)
    else failure
  | none => failure

/-- Reads an attribute with space before it, if the tag has one more. -/
def attributeAfterSpace? : Scan (Option RawAttribute) := do
  let spaced := (← rest).head?.any isSpace
  skipSpace
  if (← startsWith ">") || (← startsWith "/") then return none
  else if spaced then
    let (name, written) ← rawAttribute
    match attributeValue? written with
    | some value => return some ⟨name, value⟩
    | none => failure
  else failure

/-! ### Markup -/

/-- Reads a comment; two hyphens in a row may only end it. -/
def comment : Scan Unit := do
  expect "<!--"
  let body ← takeThrough "-->"
  if Text.contains body "--".toList || body.getLast? == some '-' then failure

/-- Reads a processing instruction; a declaration is none. -/
def instruction : Scan Unit := do
  if ← startsWith "<?xml " then failure
  expect "<?"
  let _ ← name
  skipSpace
  let _ ← takeThrough "?>"

/-- Reads a start tag, or an empty tag as an element that opens and closes. -/
def startTag : Scan (List Event) := do
  let start ← offset
  expect "<"
  let name ← qname
  let attributes ← many attributeAfterSpace?
  if ← eat ">" then return [opening name attributes start]
  expect "/>"
  return [opening name attributes start, closing none (← offset)]

def endTag : Scan (List Event) := do
  expect "</"
  let name ← qname
  skipSpace
  expect ">"
  return [closing (some name) (← offset)]

def verbatim : Scan (List Event) := do
  expect "<![CDATA["
  return [text (verbatimValue (← takeThrough "]]>"))]

/-- Reads text up to the next markup. -/
def characters : Scan (List Event) := do
  let read ← takeUntil fun rest => rest.head? == some '<'
  if read.isEmpty || Text.contains read "]]>".toList then failure
  match textValue? read with
  | some content => return [text content]
  | none => failure

/-- Reads what is next inside an element. -/
def content : Scan (List Event) := do
  if ← startsWith "<!--" then
    comment
    return []
  else if ← startsWith "<![CDATA[" then verbatim
  else if ← startsWith "<?" then
    instruction
    return []
  else if ← startsWith "</" then endTag
  else if ← startsWith "<" then startTag
  else characters

/-- How an event changes the number of open elements. -/
def stepDepth (depth : Nat) : Event → Nat
  | .opening _ _ _ => depth + 1
  | .closing _ _ => depth - 1
  | .text _ => depth

/-- Reads the rest of an element inside of which `depth` elements are open, itself included; `bound`
pieces at most. -/
def elementRest : (bound depth : Nat) → Scan (List Event)
  | _, 0 => return []
  | 0, _ + 1 => failure
  | bound + 1, depth + 1 => do
    let events ← content
    return events ++ (← elementRest bound (events.foldl stepDepth (depth + 1)))

/-- Reads an element with everything in it. -/
def element : Scan (List Event) := do
  let events ← startTag
  return events ++ (← elementRest ((← rest).length + 1) (events.foldl stepDepth 0))

/-! ### Documents -/

/-- Reads a comment or a processing instruction with the space before it, if one is next. -/
def misc? : Scan (Option Unit) := do
  skipSpace
  if ← startsWith "<!--" then
    comment
    return some ()
  else if ← startsWith "<?" then
    instruction
    return some ()
  else return none

/-- Reads the space that must follow a part of the declaration, unless the declaration ends there. -/
def declarationSpace : Scan Unit := do
  let next ← rest
  if next.head?.any isSpace then skipSpace
  else unless next.isEmpty || (← startsWith "?>") do failure

/-- Reads a part of the declaration, whose name starts with a given word. -/
def declarationPart (word : String) : Scan Unit := do
  unless ← startsWith word do failure
  let _ ← rawAttribute

/-- Reads the declaration: a version, then possibly an encoding and a remark on standing alone. -/
def declaration : Scan Unit := do
  expect "<?xml"
  declarationSpace
  declarationPart "version"
  declarationSpace
  if ← startsWith "encoding" then
    declarationPart "encoding"
    declarationSpace
  if ← startsWith "standalone" then
    declarationPart "standalone"
  skipSpace
  expect "?>"

/-- Reads a whole document: one element, with no text around it. -/
def document : Scan (List Event) := do
  let _ ← eat "\uFEFF"
  if ← startsWith "<?xml " then declaration
  let _ ← many misc?
  let events ← element
  let _ ← many misc?
  if (← rest).isEmpty then return events else failure

/-- The events of a document, if it can be read to its end. -/
def ofText? (cs : List Char) : Option (List Event) :=
  (document.run ⟨0, cs⟩).map Prod.fst

end Event

end Exemplar.Markup
