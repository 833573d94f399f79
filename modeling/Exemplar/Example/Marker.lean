import Exemplar.Code.Tree
import Exemplar.Text.Fold
import Exemplar.Text.Search

/-!
# Markers

Example code says which of its lines violate the rule and which are fine, in one of two ways. Inline, a
comment carries one of two glyphs; a comment on a line of its own then speaks of the next line with
code. In sections, a comment that is a header opens a section, to which the lines with code up to the
next header belong. In an example with any inline marker, headers mean nothing.

A line is split at the first `//` outside of strings. Inside a string a backslash takes the next character
with it.
-/

namespace Exemplar.Example

/-! ### Code and comment of a line -/

/-- A line's code and what follows the `//`, from a place where `inString` says whether a string is
open. -/
def splitCommentFrom (inString : Bool) : List Char → List Char × Option (List Char)
  | [] => ([], none)
  | c :: cs =>
    if inString && c == '\\' then
      match cs with
      | [] => ([c], none)
      | next :: rest =>
        let (code, comment) := splitCommentFrom true rest
        (c :: next :: code, comment)
    else if !inString && c == '/' && cs.head? == some '/' then ([], some (cs.drop 1))
    else
      let (code, comment) := splitCommentFrom (inString != (c == '\'')) cs
      (c :: code, comment)

/-- A line's code, and its comment if it has one. -/
def splitComment (line : List Char) : List Char × Option (List Char) :=
  splitCommentFrom false line

/-- The code of a line without white space around it. -/
def codeOf (line : List Char) : List Char :=
  Text.trim (splitComment line).1

def hasCode (line : List Char) : Bool :=
  !(codeOf line).isEmpty

/-! ### Marked lines -/

def violationGlyph : Char := '❌'

def validGlyph : Char := '✅'

/-- The code that a marker speaks of: the node that starts on its line, and the columns and the text of
the line's code, in bytes. -/
structure Highlight where
  nodeType : String
  start : Nat
  stop : Nat
  text : String
deriving DecidableEq, Repr

/-- A marker: the 1-based line it speaks of, what it says about it, and its 0-based place among the
markers of its sort. -/
structure Marker where
  line : Nat
  description : String
  isViolation : Bool
  index : Nat := 0
  highlight? : Option Highlight := none
deriving DecidableEq, Repr

/-- A marker and the lines of code that it classifies. -/
structure Marked where
  marker : Marker
  code : List String
deriving DecidableEq, Repr

/-! ### Inline markers -/

/-- Whether a comment marks a violation, and its description: what follows the first glyph that
decides. -/
def glyphOf? (comment : List Char) : Option (Bool × List Char) :=
  match Text.splitOnce? violationGlyph comment with
  | some (_, after) => some (true, Text.trim after)
  | none => (Text.splitOnce? validGlyph comment).map fun (_, after) => (false, Text.trim after)

/-- The 0-based line that a comment on line `index` speaks of, where `line` is that line and `after`
the lines below it. -/
def targetLine (index : Nat) (line : List Char) (after : List (List Char)) : Nat :=
  if hasCode line then index
  else ((after.findIdx? hasCode).map (index + 1 + ·)).getD index

/-- The inline marker on line `index`, with the code of the line it speaks of. -/
def inlineMarker? (index : Nat) (line : List Char) (after : List (List Char)) : Option Marked := do
  let comment ← (splitComment line).2
  let (isViolation, description) ← glyphOf? comment
  let target := targetLine index line after
  let code := codeOf (((line :: after)[target - index]?).getD [])
  return ⟨⟨target + 1, String.ofList description, isViolation, 0, none⟩,
    if code.isEmpty then [] else [String.ofList code]⟩

/-- The inline markers of the lines from line `index` on. -/
def inlineMarkersFrom (index : Nat) : List (List Char) → List Marked
  | [] => []
  | line :: after => (inlineMarker? index line after).toList ++ inlineMarkersFrom (index + 1) after

def inlineMarkers (lines : List (List Char)) : List Marked :=
  inlineMarkersFrom 0 lines

/-! ### Sections -/

/-- The section that a line opens, if it is a header: whether it holds violations, and its
description. -/
def sectionHeader? (line : List Char) : Option (Bool × List Char) := do
  let rest ← ['/', '/'].isPrefixOf? (Text.trimStart line)
  let rest := Text.trimStart rest
  let (isViolation, rest) ←
    match Text.afterFolded? Text.sameFold "violation".toList rest with
    | some after => some (true, after)
    | none => (Text.afterFolded? Text.sameFold "valid".toList rest).map (false, ·)
  let rest := (Text.afterFolded? Text.sameFold ['s'] rest).getD rest
  let rest ← [':'].isPrefixOf? (Text.trimStart rest)
  return (isViolation, Text.trim rest)

/-- Adds a line with code, which is line `index`, to a section: the first one also says where the
section is. -/
def Marked.addLine (marked : Marked) (index : Nat) (code : List Char) : Marked where
  marker :=
    if marked.code.isEmpty then { marked.marker with line := index + 1 } else marked.marker
  code := marked.code ++ [String.ofList code]

/-- The sections from line `index` on, of which `current` is open. Lines with code before the first
header belong to none. -/
def sectionsFrom (current : Option Marked) (index : Nat) : List (List Char) → List Marked
  | [] => current.toList
  | line :: after =>
    match sectionHeader? line with
    | some (isViolation, description) =>
      current.toList ++
        sectionsFrom (some ⟨⟨index + 1, String.ofList description, isViolation, 0, none⟩, []⟩)
          (index + 1) after
    | none =>
      let code := codeOf line
      let current := if code.isEmpty then current else current.map (·.addLine index code)
      sectionsFrom current (index + 1) after

def sections (lines : List (List Char)) : List Marked :=
  sectionsFrom none 0 lines

/-- The markers of an example: the inline ones if there are any, its sections otherwise. -/
def markers (lines : List (List Char)) : List Marked :=
  match inlineMarkers lines with
  | [] => sections lines
  | inline => inline

/-! ### Nodes -/

/-- The code of a line as the code of a node that starts there. -/
def highlightOf? (node : Code.Node) (line : List Char) : Option Highlight :=
  let code := (splitComment line).1
  let text := Text.trim code
  if text.isEmpty then none
  else
    let start := Text.byteSize (code.takeWhile Text.isBlank)
    some ⟨node.kind.name, start, start + Text.byteSize text, String.ofList text⟩

/-- Tells a marker which node starts on its line. -/
def Marker.locate (marker : Marker) (lines : List (List Char)) (root : Code.Node) : Marker :=
  let highlight? := do
    let node ← root.nodeOnLine? marker.line
    let line ← lines[marker.line - 1]?
    highlightOf? node line
  { marker with highlight? }

end Exemplar.Example
