import Exemplar.Text.Basic
import Exemplar.Text.Word

/-!
# Classes inside classes

Whether a source declares a class inside the braces of another one, decided on its text so that code
without a tree has an answer too. Comments and strings are passed over, and the word `class` behind a
dot is no declaration. A pending declaration takes the next opening brace, unless a semicolon comes
first.
-/

namespace Exemplar.Code

/-! ### What to pass over -/

/-- What follows a string, given what follows its opening quote. The string ends at a quote or at the
end of its line, and a backslash takes any next character with it. -/
def afterString : List Char → List Char
  | [] => []
  | '\'' :: cs => cs
  | '\n' :: cs => cs
  | '\\' :: _ :: cs => afterString cs
  | _ :: cs => afterString cs

/-- What follows a block comment, given what follows its opening. -/
def afterBlockComment : List Char → List Char
  | [] => []
  | '*' :: '/' :: cs => cs
  | _ :: cs => afterBlockComment cs

/-! ### Braces -/

/-- The braces that are open: how many, and for each class body among them how many were open outside
of it, innermost first. `pending` means that a class is declared and its body has not started. -/
structure Braces where
  depth : Nat := 0
  bodies : List Nat := []
  pending : Bool := false

namespace Braces

def opened (braces : Braces) : Braces where
  depth := braces.depth + 1
  bodies := if braces.pending then braces.depth :: braces.bodies else braces.bodies
  pending := false

/-- Closes a brace; one too many changes nothing. -/
def closed (braces : Braces) : Braces :=
  let depth := braces.depth - 1
  { braces with
    depth
    bodies := if braces.bodies.head? = some depth then braces.bodies.tail else braces.bodies }

end Braces

/-- Whether a class body opens inside another one, from some place on. `skip` characters are already
dealt with, and `last?` is the last character before that is not blank. -/
def nestsFrom (braces : Braces) : (skip : Nat) → (last? : Option Char) → List Char → Bool
  | _, _, [] => false
  | skip + 1, last?, c :: cs => nestsFrom braces skip (if Text.isBlank c then last? else some c) cs
  | 0, last?, c :: cs =>
    let last := if Text.isBlank c then last? else some c
    if ['/', '/'].isPrefixOf (c :: cs) then
      nestsFrom braces (cs.takeWhile (· != '\n')).length last cs
    else if ['/', '*'].isPrefixOf (c :: cs) then
      nestsFrom braces (cs.length - (afterBlockComment (cs.drop 1)).length) last cs
    else if c == '\'' then
      nestsFrom braces (cs.length - (afterString cs).length) last cs
    else if c == '\x7b' then
      (braces.pending && !braces.bodies.isEmpty) || nestsFrom braces.opened 0 last cs
    else if c == '\x7d' then
      nestsFrom braces.closed 0 last cs
    else if c == ';' then
      nestsFrom { braces with pending := false } 0 last cs
    else if Text.isIdentStart c then
      let tail := cs.takeWhile Text.isIdentChar
      let declares := Text.sameIgnoringCase (c :: tail) "class".toList && last? != some '.'
      nestsFrom { braces with pending := braces.pending || declares } tail.length last cs
    else nestsFrom braces 0 last cs

/-- Whether a source declares a class inside another one. -/
def hasNestedClass (source : String) : Bool :=
  nestsFrom {} 0 none source.toList

end Exemplar.Code
