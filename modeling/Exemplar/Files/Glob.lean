import Exemplar.Files.Answers
import Exemplar.Text.Search

/-!
# Patterns for paths

`?` stands for any character, `*` for any characters, `[…]` for one of some characters and `[!…]` for any
other one; two stars are a whole component of a path and stand for any number of components. Everything
else stands for itself.

A pattern is read from left to right, and the first fault decides. Positions count characters. What parts
match is defined by what is left to the later ones; a pattern is tried by a table of answers, which are
the same.
-/

namespace Exemplar

namespace Glob

/-- Some of the characters in brackets: all from the first through the last. -/
structure CharRange where
  first : Char
  last : Char
deriving DecidableEq, Repr

/-- A part of a pattern. -/
inductive Part where
  | char (c : Char)
  | anyChar
  | anyChars
  /-- Any number of components, each with the slash after it. -/
  | components
  | oneOf (ranges : List CharRange)
  | noneOf (ranges : List CharRange)
deriving DecidableEq, Repr

/-- What is wrong with a pattern. -/
inductive Complaint where
  | tooManyStars
  | partialComponent
  | unclosedBracket
deriving DecidableEq, Repr

/-- A complaint and the place it is about. -/
structure Fault where
  position : Nat
  complaint : Complaint
deriving DecidableEq, Repr

def Complaint.message : Complaint → String
  | tooManyStars => "wildcards are either regular `*` or recursive `**`"
  | partialComponent => "recursive wildcards must form a single path component"
  | unclosedBracket => "invalid range pattern"

def Fault.message (fault : Fault) : String :=
  s!"Pattern syntax error near position {fault.position}: {fault.complaint.message}"

end Glob

/-- A pattern that has been read. -/
structure Glob where
  parts : List Glob.Part
deriving DecidableEq, Repr

namespace Glob

/-! ### Reading -/

/-- The characters between brackets. A dash between two of them makes a range. -/
def ranges : List Char → List CharRange
  | first :: '-' :: last :: cs => ⟨first, last⟩ :: ranges cs
  | c :: cs => ⟨c, c⟩ :: ranges cs
  | [] => []

/-- The characters up to the closing bracket, of which the first one may be a bracket itself. -/
def bracketBody? : List Char → Option (List Char)
  | [] => none
  | c :: cs => (Text.splitOnce? ']' cs).map fun (more, _) => c :: more

/-- The part that starts after an opening bracket, and how many characters it takes. -/
def bracket? : List Char → Option (Part × Nat)
  | '!' :: cs => (bracketBody? cs).map fun body => (.noneOf (ranges body), body.length + 2)
  | cs => (bracketBody? cs).map fun body => (.oneOf (ranges body), body.length + 1)

/-- Whether a component can start after a character, or at the start. -/
def startsComponent (before : Option Char) : Bool :=
  before.all (· == '/')

/-- The parts of a pattern from the character at `position` on. -/
def partsFrom (position : Nat) (before : Option Char) : List Char → Except Fault (List Part)
  | [] => return []
  | '*' :: '*' :: '*' :: _ => throw ⟨position + 2, .tooManyStars⟩
  | '*' :: '*' :: cs =>
    if !startsComponent before then throw ⟨position - 1, .partialComponent⟩
    else match cs with
      | [] => return [.components]
      | '/' :: cs => return .components :: (← partsFrom (position + 3) (some '/') cs)
      | _ :: _ => throw ⟨position + 2, .partialComponent⟩
  | '*' :: cs => return .anyChars :: (← partsFrom (position + 1) (some '*') cs)
  | '?' :: cs => return .anyChar :: (← partsFrom (position + 1) (some '?') cs)
  | '[' :: cs =>
    match bracket? cs with
    | some (part, taken) =>
      return part :: (← partsFrom (position + 1 + taken) (some ']') (cs.drop taken))
    | none => throw ⟨position, .unclosedBracket⟩
  | c :: cs => return .char c :: (← partsFrom (position + 1) (some c) cs)
termination_by cs => cs.length
decreasing_by all_goals simp <;> omega

def ofText (pattern : String) : Except Fault Glob :=
  return ⟨← partsFrom 0 none pattern.toList⟩

/-! ### Matching -/

/-- What is left of a text after some whole components, or after all of it. -/
def componentEnds (cs : List Char) : List (List Char) :=
  cs :: afterSlashes cs
where
  afterSlashes : List Char → List (List Char)
    | [] => [[]]
    | c :: cs => if c = '/' then cs :: afterSlashes cs else afterSlashes cs

/-- Whether one of some ranges holds a character. -/
def within (ranges : List CharRange) (c : Char) : Bool :=
  ranges.any fun range => range.first ≤ c && c ≤ range.last

/-- Whether parts match a text. -/
def partsMatch : List Part → List Char → Bool
  | [], cs => cs.isEmpty
  | .anyChars :: parts, cs => (ends cs).any (partsMatch parts)
  | .components :: parts, cs => (componentEnds cs).any (partsMatch parts)
  | .char c :: parts, d :: cs => d == c && partsMatch parts cs
  | .anyChar :: parts, _ :: cs => partsMatch parts cs
  | .oneOf ranges :: parts, d :: cs => within ranges d && partsMatch parts cs
  | .noneOf ranges :: parts, d :: cs => !within ranges d && partsMatch parts cs
  | _ :: _, [] => false

/-- Whether a later table says so after some whole components, or after all of the text. -/
def afterComponents (cs : List Char) (later : Answers) : Answers :=
  later.either (afterSlashes cs later)
where
  afterSlashes : List Char → Answers → Answers
    | [], later => [later.whole]
    | c :: cs, later =>
      let rest := afterSlashes cs later.tail
      ((c == '/' && Answers.whole later.tail) || rest.whole) :: rest

/-- Whether parts match the ends of a text. -/
def answers (cs : List Char) : List Part → Answers
  | [] => .nothing cs
  | .anyChars :: parts => .afterMany (fun _ => true) cs (answers cs parts)
  | .components :: parts => afterComponents cs (answers cs parts)
  | .char c :: parts => .afterOne (· == c) cs (answers cs parts)
  | .anyChar :: parts => .afterOne (fun _ => true) cs (answers cs parts)
  | .oneOf ranges :: parts => .afterOne (within ranges) cs (answers cs parts)
  | .noneOf ranges :: parts => .afterOne (!within ranges ·) cs (answers cs parts)

/-- Whether a pattern matches a whole text. -/
def accepts (glob : Glob) (text : String) : Bool :=
  (answers text.toList glob.parts).whole

theorem afterSlashes_of (matched : List Char → Bool) (cs : List Char) :
    afterComponents.afterSlashes cs (.of matched cs) =
      .of (fun rest => (componentEnds.afterSlashes rest).any matched) cs := by
  induction cs with
  | nil => simp [afterComponents.afterSlashes, componentEnds.afterSlashes]
  | cons c cs ih =>
    by_cases hc : c = '/' <;>
      simp [afterComponents.afterSlashes, componentEnds.afterSlashes, ih, hc]

theorem afterComponents_of (matched : List Char → Bool) (cs : List Char) :
    afterComponents cs (.of matched cs) = .of (fun rest => (componentEnds rest).any matched) cs := by
  simp [afterComponents, afterSlashes_of, Answers.either_of, componentEnds]

/-- The table of a pattern holds what its parts match. -/
theorem answers_eq (cs : List Char) (parts : List Part) :
    answers cs parts = .of (partsMatch parts) cs := by
  have empty : partsMatch [] = List.isEmpty := by funext rest; cases rest <;> rfl
  induction parts with
  | nil => rw [answers, empty]; rfl
  | cons part parts ih =>
    cases part <;>
      simp only [answers, ih, Answers.afterMany_of, afterComponents_of, Answers.afterOne_of] <;>
      congr 1 <;> funext rest <;> cases rest <;> simp [partsMatch]

/-- A pattern matches the texts that its parts match. -/
theorem accepts_eq (glob : Glob) (text : String) :
    glob.accepts text = partsMatch glob.parts text.toList := by
  rw [accepts, answers_eq, Answers.whole_of]

end Glob

end Exemplar
