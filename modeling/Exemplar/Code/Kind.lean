/-!
# Node kinds

The closed set of nodes that a tree of example code is made of, with the names that queries use for
them.
-/

namespace Exemplar.Code

/-- What a node of the tree stands for. -/
inductive Kind where
  | apexFile
  -- declarations
  | userClass
  | userInterface
  | userEnum
  | userTrigger
  | method
  | parameter
  | field
  | fieldDeclarationStatements
  | fieldDeclaration
  | property
  | modifierNode
  | annotationUse
  | annotationParameter
  -- statements
  | blockStatement
  | expressionStatement
  | ifElseBlockStatement
  | ifBlockStatement
  | standardCondition
  | forLoopStatement
  | forEachStatement
  | whileLoopStatement
  | doLoopStatement
  | switchStatement
  | valueWhenBlock
  | typeWhenBlock
  | elseWhenBlock
  | literalCase
  | identifierCase
  | tryCatchFinallyBlockStatement
  | catchBlockStatement
  | runAsBlockStatement
  | returnStatement
  | throwStatement
  | breakStatement
  | continueStatement
  | dmlInsertStatement
  | dmlUpdateStatement
  | dmlUpsertStatement
  | dmlDeleteStatement
  | dmlUndeleteStatement
  | dmlMergeStatement
  | variableDeclarationStatements
  | variableDeclaration
  -- expressions
  | assignmentExpression
  | ternaryExpression
  | nullCoalescingExpression
  | booleanExpression
  | binaryExpression
  | instanceOfExpression
  | prefixExpression
  | postfixExpression
  | castExpression
  | methodCallExpression
  | variableExpression
  | classRefExpression
  | arrayLoadExpression
  | literalExpression
  | thisVariableExpression
  | thisMethodCallExpression
  | superVariableExpression
  | superMethodCallExpression
  | newObjectExpression
  | newKeyValueObjectExpression
  | newListInitExpression
  | newListLiteralExpression
  | newSetInitExpression
  | newSetLiteralExpression
  | newMapInitExpression
  | newMapLiteralExpression
  | mapEntryNode
  | soqlExpression
  | soslExpression
deriving DecidableEq, Repr

namespace Kind

def all : List Kind :=
  [.apexFile, .userClass, .userInterface, .userEnum, .userTrigger, .method, .parameter, .field,
   .fieldDeclarationStatements, .fieldDeclaration, .property, .modifierNode, .annotationUse,
   .annotationParameter, .blockStatement, .expressionStatement, .ifElseBlockStatement,
   .ifBlockStatement, .standardCondition, .forLoopStatement, .forEachStatement,
   .whileLoopStatement, .doLoopStatement, .switchStatement, .valueWhenBlock, .typeWhenBlock,
   .elseWhenBlock, .literalCase, .identifierCase, .tryCatchFinallyBlockStatement,
   .catchBlockStatement, .runAsBlockStatement, .returnStatement, .throwStatement, .breakStatement,
   .continueStatement, .dmlInsertStatement, .dmlUpdateStatement, .dmlUpsertStatement,
   .dmlDeleteStatement, .dmlUndeleteStatement, .dmlMergeStatement, .variableDeclarationStatements,
   .variableDeclaration, .assignmentExpression, .ternaryExpression, .nullCoalescingExpression,
   .booleanExpression, .binaryExpression, .instanceOfExpression, .prefixExpression,
   .postfixExpression, .castExpression, .methodCallExpression, .variableExpression,
   .classRefExpression, .arrayLoadExpression, .literalExpression, .thisVariableExpression,
   .thisMethodCallExpression, .superVariableExpression, .superMethodCallExpression,
   .newObjectExpression, .newKeyValueObjectExpression, .newListInitExpression,
   .newListLiteralExpression, .newSetInitExpression, .newSetLiteralExpression,
   .newMapInitExpression, .newMapLiteralExpression, .mapEntryNode, .soqlExpression,
   .soslExpression]

/-- The name under which a query asks for the kind. -/
def name : Kind → String
  | .apexFile => "ApexFile"
  | .userClass => "UserClass"
  | .userInterface => "UserInterface"
  | .userEnum => "UserEnum"
  | .userTrigger => "UserTrigger"
  | .method => "Method"
  | .parameter => "Parameter"
  | .field => "Field"
  | .fieldDeclarationStatements => "FieldDeclarationStatements"
  | .fieldDeclaration => "FieldDeclaration"
  | .property => "Property"
  | .modifierNode => "ModifierNode"
  | .annotationUse => "Annotation"
  | .annotationParameter => "AnnotationParameter"
  | .blockStatement => "BlockStatement"
  | .expressionStatement => "ExpressionStatement"
  | .ifElseBlockStatement => "IfElseBlockStatement"
  | .ifBlockStatement => "IfBlockStatement"
  | .standardCondition => "StandardCondition"
  | .forLoopStatement => "ForLoopStatement"
  | .forEachStatement => "ForEachStatement"
  | .whileLoopStatement => "WhileLoopStatement"
  | .doLoopStatement => "DoLoopStatement"
  | .switchStatement => "SwitchStatement"
  | .valueWhenBlock => "ValueWhenBlock"
  | .typeWhenBlock => "TypeWhenBlock"
  | .elseWhenBlock => "ElseWhenBlock"
  | .literalCase => "LiteralCase"
  | .identifierCase => "IdentifierCase"
  | .tryCatchFinallyBlockStatement => "TryCatchFinallyBlockStatement"
  | .catchBlockStatement => "CatchBlockStatement"
  | .runAsBlockStatement => "RunAsBlockStatement"
  | .returnStatement => "ReturnStatement"
  | .throwStatement => "ThrowStatement"
  | .breakStatement => "BreakStatement"
  | .continueStatement => "ContinueStatement"
  | .dmlInsertStatement => "DmlInsertStatement"
  | .dmlUpdateStatement => "DmlUpdateStatement"
  | .dmlUpsertStatement => "DmlUpsertStatement"
  | .dmlDeleteStatement => "DmlDeleteStatement"
  | .dmlUndeleteStatement => "DmlUndeleteStatement"
  | .dmlMergeStatement => "DmlMergeStatement"
  | .variableDeclarationStatements => "VariableDeclarationStatements"
  | .variableDeclaration => "VariableDeclaration"
  | .assignmentExpression => "AssignmentExpression"
  | .ternaryExpression => "TernaryExpression"
  | .nullCoalescingExpression => "NullCoalescingExpression"
  | .booleanExpression => "BooleanExpression"
  | .binaryExpression => "BinaryExpression"
  | .instanceOfExpression => "InstanceOfExpression"
  | .prefixExpression => "PrefixExpression"
  | .postfixExpression => "PostfixExpression"
  | .castExpression => "CastExpression"
  | .methodCallExpression => "MethodCallExpression"
  | .variableExpression => "VariableExpression"
  | .classRefExpression => "ClassRefExpression"
  | .arrayLoadExpression => "ArrayLoadExpression"
  | .literalExpression => "LiteralExpression"
  | .thisVariableExpression => "ThisVariableExpression"
  | .thisMethodCallExpression => "ThisMethodCallExpression"
  | .superVariableExpression => "SuperVariableExpression"
  | .superMethodCallExpression => "SuperMethodCallExpression"
  | .newObjectExpression => "NewObjectExpression"
  | .newKeyValueObjectExpression => "NewKeyValueObjectExpression"
  | .newListInitExpression => "NewListInitExpression"
  | .newListLiteralExpression => "NewListLiteralExpression"
  | .newSetInitExpression => "NewSetInitExpression"
  | .newSetLiteralExpression => "NewSetLiteralExpression"
  | .newMapInitExpression => "NewMapInitExpression"
  | .newMapLiteralExpression => "NewMapLiteralExpression"
  | .mapEntryNode => "MapEntryNode"
  | .soqlExpression => "SoqlExpression"
  | .soslExpression => "SoslExpression"

def ofName? (name : String) : Option Kind :=
  all.find? (·.name == name)

theorem mem_all (kind : Kind) : kind ∈ all := by
  cases kind <;> decide

end Kind

end Exemplar.Code
