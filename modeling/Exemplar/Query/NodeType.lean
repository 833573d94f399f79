import Exemplar.Query.Quote

/-!
# Node types

The steps of a query name node types. A name counts as one when it stands where a step can stand, ends
where a step can end, and has the shape of a node name: it is in the catalogue, ends like a family of
nodes or contains a word that only node names contain. Some attribute names have that shape too; what
happens to them is a matter of policy.
-/

namespace Exemplar.Query

/-! ### The shape of node names -/

/-- Node names that are known as such. -/
def catalogue : List String :=
  ["Method", "Field", "Class", "Type", "Condition", "Loop", "Block", "Parameter", "Property",
   "Annotation", "ApexFile", "AnonymousClass", "FormalComment", "UserClass", "UserClassMethods",
   "UserEnum", "UserExceptionMethods", "UserInterface", "UserTrigger", "DmlDeleteStatement",
   "DmlInsertStatement", "DmlMergeStatement", "DmlUndeleteStatement", "DmlUpdateStatement",
   "DmlUpsertStatement", "NewKeyValueObjectExpression", "NewListInitExpression",
   "NewListLiteralExpression", "NewMapInitExpression", "NewMapLiteralExpression",
   "NewObjectExpression", "NewSetInitExpression", "NewSetLiteralExpression",
   "ConstructorPreamble", "ConstructorPreambleStatement", "Modifier", "ModifierNode",
   "ModifierOrAnnotation", "AnnotationParameter", "BindExpressions", "CatchBlockStatement",
   "ElseWhenBlock", "IdentifierCase", "LiteralCase", "MapEntryNode", "MultiStatement",
   "StandardCondition", "StatementExecuted", "TypeWhenBlock", "ValueWhenBlock", "SoqlExpression",
   "SoslExpression"]

/-- Endings of the large families of nodes; a name must be longer than its ending. -/
def familyEndings : List String :=
  ["Statement", "Expression", "Declaration", "Node", "Block"]

/-- Words that make any name that contains them a node name. -/
def nodeWords : List String :=
  ["Method", "Class", "Field", "Condition", "Loop", "Type"]

/-- Whether a name has the shape of a node name. -/
def isNodeName (name : String) : Bool :=
  let cs := name.toList
  cs.head?.any Char.isUpper && cs.all Char.isAlphanum &&
    (catalogue.contains name ||
      familyEndings.any (fun ending => ending.toList.isSuffixOf cs && name != ending) ||
      nodeWords.any fun word => Text.contains cs word.toList)

/-! ### Attribute names that look like node names -/

/-- Attribute names that have the shape of a node name, or might be taken for one. -/
def collisions : List String :=
  ["Type", "Name", "ReturnType", "DefiningType", "FullMethodName", "MethodName", "TypeName",
   "CanonicalName", "Image"]

/-- What to do with attribute names in step position. -/
inductive CollisionPolicy where
  /-- Keep every name of the right shape. -/
  | keepAll
  /-- Drop the known collisions. -/
  | dropKnown
  /-- Drop the known collisions and some more names. -/
  | dropAlso (extra : List String)
deriving DecidableEq, Repr

namespace CollisionPolicy

def drops : CollisionPolicy → String → Bool
  | keepAll, _ => false
  | dropKnown, name => collisions.contains name
  | dropAlso extra, name => collisions.contains name || extra.contains name

end CollisionPolicy

/-! ### Steps -/

/-- Whether a step can start after the text before it, which is given last character first. -/
def startsStep : List Char → Bool
  | [] => false
  | ':' :: ':' :: _ => true
  | c :: _ => "/([,|".toList.contains c || Text.isAsciiBlank c

/-- Whether a step can end before a text. -/
def endsStep (after : List Char) : Bool :=
  after.head?.all fun c => "[(/),|]".toList.contains c || Text.isAsciiBlank c

/-- An identifier in step position, with its offset. -/
structure Step where
  name : String
  offset : Nat
deriving DecidableEq, Repr

/-- Steps from `pos` on, given the open quotation mark and the text before, last character first. -/
def stepsFrom (quote : Option Char) (pos : Nat) (before : List Char) : List Char → List Step
  | [] => []
  | c :: cs =>
    let starts := quote.isNone && Text.isIdentStart c && !before.head?.any Text.isIdentChar
    let here := if starts && startsStep before && endsStep (cs.dropWhile Text.isIdentChar) then
        [⟨String.ofList (c :: cs.takeWhile Text.isIdentChar), pos⟩]
      else []
    here ++ stepsFrom (stepQuote quote c) (pos + c.utf8Size) (c :: before) cs

/-- Every identifier of a query that stands in step position outside of quotes. -/
def steps (query : String) : List Step :=
  stepsFrom none 0 [] query.toList

/-- The node types of a query in the order of their first step. -/
def nodeTypes (policy : CollisionPolicy) (query : String) : List String :=
  ((steps query).map Step.name |>.filter fun name => isNodeName name && !policy.drops name).eraseDups

end Exemplar.Query
