import Exemplar.Code.NestedClass
import Exemplar.Code.Tree
import Exemplar.Text.Fold
import Exemplar.Text.Search

/-!
# Presence of node types

Whether code has a node of some type. The tree decides, where there is one and the grammar knows the
type. Otherwise the text is searched for the shape that such a node usually has, as far as the type has
a usual shape. Two types are special: conditions are taken for granted, and a `UserClass` node is meant
to be a class inside another one.
-/

namespace Exemplar.Code

/-! ### Shapes in text -/

/-- A character that can start an identifier, matched without regard to case. -/
def isFoldedIdentStart (c : Char) : Bool :=
  Text.isIdentStart (Text.fold c)

/-- What follows a word at the head, which is matched without regard to case. -/
def afterFoldedWord? (word : String) (cs : List Char) : Option (List Char) :=
  Text.afterFolded? Text.sameFold word.toList cs

/-- The word `class` with a name after it, not behind a dot or inside a longer word. -/
def classShape : Text.Matcher Unit := fun before cs => do
  let rest ← if before.any fun c => c == '.' || Text.isWordChar c then none
    else afterFoldedWord? "class" cs
  if rest.head?.any Text.isBlank && (Text.trimStart rest).head?.any isFoldedIdentStart then
    some ((), Text.trimStart rest)
  else none

/-- The words that announce a method. -/
def methodWords : List String :=
  ["public", "private", "protected", "global", "static", "override", "virtual", "void"]

/-- A character that cannot stand between an announcing word and the parameters of its method. -/
def endsSignature (c : Char) : Bool :=
  c == ';' || c == '\x7b' || c == '\x7d' || c == '(' || c == ')' || c == '='

/-- Whether a text ends with an identifier that is a whole word, white space after it aside. -/
def endsWithName (cs : List Char) : Bool :=
  let name := (cs.reverse.dropWhile Text.isBlank).takeWhile Text.isWordChar
  name.getLast?.any isFoldedIdentStart

/-- An announcing word, then up to a name, parameters in parentheses and an opening brace. -/
def methodShape : Text.Matcher Unit := fun before cs => do
  let rest ← if Text.isWordBoundary before cs.head? then
      methodWords.findSome? fun word => do
        let rest ← afterFoldedWord? word cs
        if rest.head?.any Text.isWordChar then none else some rest
    else none
  let opened ← ['('].isPrefixOf? (rest.dropWhile fun c => !endsSignature c)
  if endsWithName (rest.takeWhile fun c => !endsSignature c) then
    let (_, closed) ← Text.splitOnce? ')' opened
    let body ← ['\x7b'].isPrefixOf? (Text.trimStart closed)
    return ((), body)
  else none

/-- An `@` in front of a name. -/
def markShape : Text.Matcher Unit := fun _ cs => do
  let named ← ['@'].isPrefixOf? cs
  if named.head?.any Text.isIdentStart then some ((), named) else none

/-- What follows the further names of a dotted name, with white space around the dots; `bound` names
at most. -/
def afterDottedNames : (bound : Nat) → List Char → List Char
  | 0, cs => cs
  | bound + 1, cs =>
    match Text.trimStart cs with
    | '.' :: rest =>
      let named := Text.trimStart rest
      if named.head?.any Text.isIdentStart then
        afterDottedNames bound (named.dropWhile Text.isWordChar)
      else cs
    | _ => cs

/-- A dotted name in front of a parenthesis, of which the first name is kept. -/
def callShape : Text.Matcher (List Char) := fun before cs => do
  if cs.head?.any Text.isIdentStart && !before.any Text.isWordChar then
    let named := afterDottedNames cs.length (cs.dropWhile Text.isWordChar)
    let opened ← ['('].isPrefixOf? (Text.trimStart named)
    return (cs.takeWhile Text.isWordChar, opened)
  else none

/-- Words that stand in front of a parenthesis without calling anything. -/
def uncallable : List String :=
  ["if", "for", "while", "switch", "catch", "return", "new", "class", "void"]

/-- Whether the text looks as if it had a node of the type. -/
def looksLike (nodeType source : String) : Bool :=
  let cs := source.toList
  match nodeType with
  | "Class" => !(Text.allMatches classShape cs).isEmpty
  | "Method" => !(Text.allMatches methodShape cs).isEmpty
  | "Annotation" | "AnnotationParameter" => !(Text.allMatches markShape cs).isEmpty
  | "MethodCallExpression" =>
    (Text.allMatches callShape cs).any fun (_, name) =>
      !uncallable.any fun word => Text.sameIgnoringCase name word.toList
  | _ => false

/-! ### Presence -/

/-- How a node type was found, if it was. -/
inductive Presence where
  /-- The code has such a node. -/
  | present
  /-- Such nodes are taken for granted. -/
  | implicit
  /-- The text looks like it. -/
  | heuristic
  | absent
deriving DecidableEq, Repr

namespace Presence

def isPresent (presence : Presence) : Bool :=
  presence != absent

end Presence

/-- The node type that is taken for granted. -/
def implicitType : String := "StandardCondition"

/-- The node type that means a class inside another one. -/
def nestedClassType : String := "UserClass"

/-- Whether `nodeType` is present in `source`, of which `outcome` is the reading. -/
def checkPresence (nodeType source : String) (outcome : Outcome) : Presence :=
  if nodeType == implicitType then .implicit
  else if nodeType == nestedClassType then
    if hasNestedClass source then .present else .absent
  else
    match outcome.root?, Kind.ofName? nodeType with
    | some root, some _ => if root.containsKind nodeType then .present else .absent
    | _, _ => if looksLike nodeType source then .heuristic else .absent

end Exemplar.Code
