import Exemplar.Text.Search

/-!
# Paths

A path is kept and shown the way it was given. What it stands for are its steps: repeated slashes, a slash
at the end and dots in between add none, while a dot in front does. Paths are compared and put in order by
their steps, so that everything below a directory stays together.
-/

namespace Exemplar

namespace Text

/-- The pieces of a text between the occurrences of an element: one more than there are of those. -/
def pieces {α : Type} [DecidableEq α] (separator : α) : List α → List (List α)
  | [] => [[]]
  | c :: cs =>
    match pieces separator cs with
    | [] => [[c]]
    | piece :: rest => if c = separator then [] :: piece :: rest else (c :: piece) :: rest

/-- What stands before and after the last occurrence of a character. -/
def splitLast? (c : Char) (cs : List Char) : Option (List Char × List Char) :=
  (splitOnce? c cs.reverse).map fun (after, before) => (before.reverse, after.reverse)

end Text

/-- A step of a path. -/
inductive Step where
  /-- To the root of all files. -/
  | root
  /-- To where one already is. -/
  | here
  /-- To the directory around. -/
  | up
  | name (name : String)
deriving DecidableEq, Repr

namespace Step

/-- Numbers that put steps in order: the root, a dot, two dots, and then names by their characters. -/
def rank : Step → List Nat
  | root => [0]
  | here => [1]
  | up => [2]
  | name text => 3 :: text.toList.map Char.toNat

/-- The step that a piece of a path stands for, if it stands for one. -/
def ofPiece? (piece : List Char) : Option Step :=
  if piece = [] || piece = ['.'] then none
  else if piece = ['.', '.'] then some up
  else some (name (String.ofList piece))

def name? : Step → Option String
  | name text => some text
  | _ => none

end Step

namespace Path

/-- The pieces of a path between its slashes. -/
def pieces (path : String) : List (List Char) :=
  Text.pieces '/' path.toList

def isAbsolute (path : String) : Bool :=
  path.toList.head? == some '/'

def steps (path : String) : List Step :=
  let start :=
    if isAbsolute path then [Step.root]
    else if (pieces path).head? = some ['.'] then [Step.here]
    else []
  start ++ (pieces path).filterMap Step.ofPiece?

/-- Numbers that put paths in order, step by step. -/
def rank (path : String) : List (List Nat) :=
  (steps path).map Step.rank

/-- Whether a path comes before another one, or has the same steps. -/
def precedes (path other : String) : Bool :=
  !List.lex (rank other) (rank path) fun step step' => List.lex step step' fun m n => m < n

/-- The path of something in a directory. -/
def join (directory name : String) : String :=
  if directory.toList.getLast? = some '/' then directory ++ name else directory ++ "/" ++ name

/-- The name at the end of a path. -/
def fileName? (path : String) : Option String :=
  (steps path).getLast?.bind Step.name?

/-- A name up to its last dot, and what follows the dot. A dot in front does not count. -/
def splitName (name : String) : String × Option String :=
  match Text.splitLast? '.' name.toList with
  | some (c :: stem, extension) => (String.ofList (c :: stem), some (String.ofList extension))
  | _ => (name, none)

/-- The name at the end of a path without its extension, or nothing. -/
def stem (path : String) : String :=
  ((fileName? path).map fun name => (splitName name).1).getD ""

/-- The extension of the name at the end of a path. -/
def extension? (path : String) : Option String :=
  (fileName? path).bind fun name => (splitName name).2

/-- Whether the name at the end of a path is that of a rule file. -/
def isRuleFile (path : String) : Bool :=
  (extension? path).any fun extension => Text.sameIgnoringCase extension.toList "xml".toList

end Path

end Exemplar
