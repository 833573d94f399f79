import Exemplar.Text.Basic

/-!
# Searching

Occurrences of one text inside another, and matches of a rule that reads a text from some place on.
Both are taken from left to right and do not overlap: the search goes on after the end of each one.
Places are byte offsets.
-/

namespace Exemplar.Text

/-! ### Occurrences of a text -/

/-- An occurrence of a text inside another one: its offset, and the characters next to it. -/
structure Occurrence where
  offset : Nat
  before : Option Char
  after : Option Char
deriving DecidableEq, Repr

/-- The occurrences of `pattern`, where `skip` more characters belong to the last one found and `pos`
bytes have gone by. -/
def occurrencesFrom (pattern : List Char) :
    (pos skip : Nat) → (before : Option Char) → List Char → List Occurrence
  | _, _, _, [] => []
  | pos, skip + 1, _, c :: cs => occurrencesFrom pattern (pos + c.utf8Size) skip (some c) cs
  | pos, 0, before, c :: cs =>
    match pattern.isPrefixOf? (c :: cs) with
    | some rest =>
      ⟨pos, before, rest.head?⟩ ::
        occurrencesFrom pattern (pos + c.utf8Size) (pattern.length - 1) (some c) cs
    | none => occurrencesFrom pattern (pos + c.utf8Size) 0 (some c) cs

/-- The occurrences of a pattern, which must not be empty. -/
def occurrences (pattern cs : List Char) : List Occurrence :=
  occurrencesFrom pattern 0 0 none cs

/-- Offset of the first occurrence. -/
def find? (pattern cs : List Char) : Option Nat :=
  (occurrences pattern cs).head?.map Occurrence.offset

/-- Whether a pattern, which must not be empty, occurs. -/
def contains (cs pattern : List Char) : Bool :=
  !(occurrences pattern cs).isEmpty

/-! ### Matches of a rule -/

/-- A rule that may match at the head of a text, given the character before it. It answers a value and
the text after the match, which is never empty. -/
abbrev Matcher (α : Type) := Option Char → List Char → Option (α × List Char)

/-- What a rule matches, each with its offset, where `skip` more characters belong to the last match
and `pos` bytes have gone by. -/
def matchesFrom {α : Type} (rule : Matcher α) :
    (pos skip : Nat) → (before : Option Char) → List Char → List (Nat × α)
  | _, _, _, [] => []
  | pos, skip + 1, _, c :: cs => matchesFrom rule (pos + c.utf8Size) skip (some c) cs
  | pos, 0, before, c :: cs =>
    match rule before (c :: cs) with
    | some (value, after) =>
      (pos, value) :: matchesFrom rule (pos + c.utf8Size) (cs.length - after.length) (some c) cs
    | none => matchesFrom rule (pos + c.utf8Size) 0 (some c) cs

/-- What a rule matches in a text, each with its offset. -/
def allMatches {α : Type} (rule : Matcher α) (cs : List Char) : List (Nat × α) :=
  matchesFrom rule 0 0 none cs

/-! ### Pieces of rules -/

/-- What stands before and after the first occurrence of a character. -/
def splitOnce? (c : Char) (cs : List Char) : Option (List Char × List Char) :=
  match cs.dropWhile (· != c) with
  | [] => none
  | _ :: after => some (cs.takeWhile (· != c), after)

/-- Single or double quotation mark. -/
def isQuote (c : Char) : Bool :=
  c == '\'' || c == '"'

/-- The inside of a quoted text at the head, and what follows its closing quote. -/
def quoted? : List Char → Option (List Char × List Char)
  | [] => none
  | c :: cs => if isQuote c then splitOnce? c cs else none

/-- What follows the first of some texts that stands at the head. -/
def afterAny? (options : List (List Char)) (cs : List Char) : Option (List Char) :=
  options.findSome? (·.isPrefixOf? cs)

/-- What follows a text at the head, without regard to case. -/
def afterFolded? (same : Char → Char → Bool) : List Char → List Char → Option (List Char)
  | [], cs => some cs
  | _ :: _, [] => none
  | p :: ps, c :: cs => if same p c then afterFolded? same ps cs else none

end Exemplar.Text
