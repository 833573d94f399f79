import Exemplar.Code.Tree

/-!
# The shape of trees

The children of a node follow a form: a row of slots, each for a number of nodes of some kinds. `Kind.forms`
lists the forms for each kind of node, and is the grammar of the trees. One thing is not a matter of a node
and its children: a declaration of fields stands right behind one `field` node for each of the fields.
-/

namespace Exemplar.Code

/-! ### Forms -/

/-- How many nodes there are in a slot. -/
inductive Count where
  | one
  | atMostOne
  | any
  | atLeastOne
deriving DecidableEq, Repr

def Count.Allows : Count → Nat → Prop
  | one, n => n = 1
  | atMostOne, n => n ≤ 1
  | any, _ => True
  | atLeastOne, n => 1 ≤ n

/-- A stretch of children: how many they are, and of which kinds. -/
structure Slot where
  count : Count
  kinds : List Kind
deriving DecidableEq, Repr

namespace Slot

def one (kinds : List Kind) : Slot := ⟨.one, kinds⟩

def optional (kinds : List Kind) : Slot := ⟨.atMostOne, kinds⟩

def many (kinds : List Kind) : Slot := ⟨.any, kinds⟩

def several (kinds : List Kind) : Slot := ⟨.atLeastOne, kinds⟩

/-- As many nodes of these kinds as fit. -/
structure Holds (slot : Slot) (nodes : List Node) : Prop where
  count : slot.count.Allows nodes.length
  kinds : ∀ node ∈ nodes, node.kind ∈ slot.kinds

namespace Holds

variable {kinds others : List Kind} {node : Node} {nodes : List Node}

theorem of_kind (h : node.kind ∈ kinds) : (one kinds).Holds [node] :=
  ⟨rfl, by simpa [one] using h⟩

theorem optional_nil : (optional kinds).Holds [] :=
  ⟨Nat.zero_le 1, by simp⟩

theorem optional_of_one (h : (one kinds).Holds nodes) : (optional kinds).Holds nodes :=
  ⟨Nat.le_of_eq h.count, h.kinds⟩

theorem many_of {slot : Slot} (h : slot.Holds nodes) (hkinds : slot.kinds ⊆ kinds) :
    (many kinds).Holds nodes :=
  ⟨trivial, fun node hnode => hkinds (h.kinds node hnode)⟩

theorem several_of (h : (many kinds).Holds nodes) (hne : nodes ≠ []) : (several kinds).Holds nodes :=
  ⟨List.length_pos_iff.mpr hne, h.kinds⟩

end Holds

end Slot

/-- Nodes follow a form if they are one stretch for each slot, in the order of the slots. -/
inductive Follows : List Slot → List Node → Prop
  | nil : Follows [] []
  | append {slot slots front back} (hfront : slot.Holds front) (hback : Follows slots back) :
      Follows (slot :: slots) (front ++ back)

namespace Follows

variable {slot : Slot} {slots : List Slot} {node : Node} {nodes back : List Node}

theorem cons (hnode : slot.Holds [node]) (hback : Follows slots back) :
    Follows (slot :: slots) (node :: back) :=
  append hnode hback

theorem last (h : slot.Holds nodes) : Follows [slot] nodes :=
  List.append_nil nodes ▸ append h nil

/-- One node more in front of a stretch of any length. -/
theorem grow {kinds : List Kind} (hnode : node.kind ∈ kinds) (hslot : slot.kinds = kinds)
    (hcount : ∀ n, slot.count.Allows (n + 1)) (h : Follows (.many kinds :: slots) nodes) :
    Follows (slot :: slots) (node :: nodes) := by
  cases h with
  | @append _ _ front back hfront hback =>
    have hgrown : slot.Holds (node :: front) := by
      refine ⟨hcount _, ?_⟩
      rw [hslot]
      exact List.forall_mem_cons.mpr ⟨hnode, hfront.kinds⟩
    exact append hgrown hback

/-- Every node is of a kind that one of the slots is for. -/
theorem exists_slot (h : Follows slots nodes) (hnode : node ∈ nodes) :
    ∃ slot ∈ slots, node.kind ∈ slot.kinds := by
  induction h with
  | nil => cases hnode
  | @append slot slots front back hfront _ ih =>
    rcases List.mem_append.mp hnode with hmem | hmem
    · exact ⟨slot, List.mem_cons_self, hfront.kinds node hmem⟩
    · obtain ⟨found, hfound, hkind⟩ := ih hmem
      exact ⟨found, List.mem_cons_of_mem _ hfound, hkind⟩

/-- A slot that may be empty is passed over. -/
theorem skip (hslot : slot.Holds []) (hback : Follows slots back) : Follows (slot :: slots) back :=
  append hslot hback

end Follows

/-! ### The grammar of trees -/

namespace Kind

def types : List Kind :=
  [.userClass, .userInterface, .userEnum]

def members : List Kind :=
  types ++ [.blockStatement, .method, .property, .field, .fieldDeclarationStatements]

def statements : List Kind :=
  [.blockStatement, .expressionStatement, .variableDeclarationStatements, .ifElseBlockStatement,
   .forLoopStatement, .forEachStatement, .whileLoopStatement, .doLoopStatement, .switchStatement,
   .tryCatchFinallyBlockStatement, .runAsBlockStatement, .returnStatement, .throwStatement,
   .breakStatement, .continueStatement, .dmlInsertStatement, .dmlUpdateStatement,
   .dmlUpsertStatement, .dmlDeleteStatement, .dmlUndeleteStatement, .dmlMergeStatement]

def expressions : List Kind :=
  [.assignmentExpression, .ternaryExpression, .nullCoalescingExpression, .booleanExpression,
   .binaryExpression, .instanceOfExpression, .prefixExpression, .postfixExpression,
   .castExpression, .methodCallExpression, .variableExpression, .classRefExpression,
   .arrayLoadExpression, .literalExpression, .thisVariableExpression, .thisMethodCallExpression,
   .superVariableExpression, .superMethodCallExpression, .newObjectExpression,
   .newKeyValueObjectExpression, .newListInitExpression, .newListLiteralExpression,
   .newSetInitExpression, .newSetLiteralExpression, .newMapInitExpression,
   .newMapLiteralExpression, .soqlExpression, .soslExpression]

/-- The forms that the children of a node of some kind can follow. -/
def forms : Kind → List (List Slot)
  | .apexFile => [[.many (.userTrigger :: types)], [.many statements], [.many members]]
  | .userClass | .userInterface => [[.one [.modifierNode], .many members]]
  | .userEnum => [[.one [.modifierNode]]]
  | .userTrigger => [[.one [.blockStatement]]]
  | .method => [[.one [.modifierNode], .many [.parameter], .optional [.blockStatement]]]
  | .parameter => [[.one [.modifierNode]]]
  | .field => [[]]
  | .fieldDeclarationStatements => [[.one [.modifierNode], .several [.fieldDeclaration]]]
  | .fieldDeclaration => [[.optional expressions]]
  | .property => [[.one [.modifierNode], .many [.blockStatement]]]
  | .modifierNode => [[.many [.annotationUse]]]
  | .annotationUse => [[.many [.annotationParameter]]]
  | .annotationParameter => [[]]
  | .blockStatement => [[.many statements]]
  | .expressionStatement => [[.one expressions]]
  | .ifElseBlockStatement => [[.several [.ifBlockStatement], .optional statements]]
  | .ifBlockStatement => [[.one [.standardCondition], .optional statements]]
  | .standardCondition => [[.one expressions]]
  | .forLoopStatement =>
    [[.optional [.variableDeclarationStatements], .optional [.standardCondition],
      .many expressions, .optional statements],
     [.several expressions, .optional [.standardCondition], .many expressions,
      .optional statements]]
  | .forEachStatement => [[.one [.variableDeclaration], .one expressions, .optional statements]]
  | .whileLoopStatement => [[.one [.standardCondition], .optional statements]]
  | .doLoopStatement => [[.optional statements, .one [.standardCondition]]]
  | .switchStatement =>
    [[.one expressions, .many [.valueWhenBlock, .typeWhenBlock, .elseWhenBlock]]]
  | .valueWhenBlock => [[.several [.literalCase, .identifierCase], .one [.blockStatement]]]
  | .typeWhenBlock | .elseWhenBlock => [[.one [.blockStatement]]]
  | .literalCase | .identifierCase => [[]]
  | .tryCatchFinallyBlockStatement =>
    [[.one [.blockStatement], .several [.catchBlockStatement], .optional [.blockStatement]],
     [.one [.blockStatement], .one [.blockStatement]]]
  | .catchBlockStatement => [[.one [.blockStatement]]]
  | .runAsBlockStatement => [[.many expressions, .one [.blockStatement]]]
  | .returnStatement => [[.optional expressions]]
  | .throwStatement => [[.one expressions]]
  | .breakStatement | .continueStatement => [[]]
  | .dmlInsertStatement | .dmlUpdateStatement | .dmlUpsertStatement | .dmlDeleteStatement
  | .dmlUndeleteStatement | .dmlMergeStatement => [[.one expressions, .optional expressions]]
  | .variableDeclarationStatements => [[.several [.variableDeclaration]]]
  | .variableDeclaration => [[.optional expressions]]
  | .ternaryExpression => [[.one expressions, .one expressions, .one expressions]]
  | .assignmentExpression | .nullCoalescingExpression | .booleanExpression | .binaryExpression
  | .arrayLoadExpression | .mapEntryNode => [[.one expressions, .one expressions]]
  | .instanceOfExpression | .prefixExpression | .postfixExpression | .castExpression
  | .classRefExpression => [[.one expressions]]
  | .variableExpression => [[.optional expressions]]
  | .newKeyValueObjectExpression => [[.several [.assignmentExpression]]]
  | .newMapLiteralExpression => [[.many [.mapEntryNode]]]
  | .methodCallExpression | .thisMethodCallExpression | .superMethodCallExpression
  | .newObjectExpression | .newListInitExpression | .newListLiteralExpression
  | .newSetInitExpression | .newSetLiteralExpression | .newMapInitExpression => [[.many expressions]]
  | .literalExpression | .thisVariableExpression | .superVariableExpression | .soqlExpression
  | .soslExpression => [[]]

/-- No form has a place for a whole file. -/
theorem apexFile_notMem (kind : Kind) :
    ∀ form ∈ kind.forms, ∀ slot ∈ form, Kind.apexFile ∉ slot.kinds := by
  cases kind <;> decide

/-- The word that a node of some kind starts with. -/
def word? : Kind → Option String
  | .userClass => some "class"
  | .userInterface => some "interface"
  | .userEnum => some "enum"
  | .userTrigger => some "trigger"
  | .ifElseBlockStatement | .ifBlockStatement => some "if"
  | .forLoopStatement | .forEachStatement => some "for"
  | .whileLoopStatement => some "while"
  | .doLoopStatement => some "do"
  | .switchStatement => some "switch"
  | .valueWhenBlock | .typeWhenBlock | .elseWhenBlock => some "when"
  | .tryCatchFinallyBlockStatement => some "try"
  | .catchBlockStatement => some "catch"
  | .returnStatement => some "return"
  | .throwStatement => some "throw"
  | .breakStatement => some "break"
  | .continueStatement => some "continue"
  | .dmlInsertStatement => some "insert"
  | .dmlUpdateStatement => some "update"
  | .dmlUpsertStatement => some "upsert"
  | .dmlDeleteStatement => some "delete"
  | .dmlUndeleteStatement => some "undelete"
  | .dmlMergeStatement => some "merge"
  | .newObjectExpression | .newKeyValueObjectExpression | .newListInitExpression
  | .newListLiteralExpression | .newSetInitExpression | .newSetLiteralExpression
  | .newMapInitExpression | .newMapLiteralExpression => some "new"
  | .thisVariableExpression | .thisMethodCallExpression => some "this"
  | .superVariableExpression | .superMethodCallExpression => some "super"
  | _ => none

end Kind

namespace Node

/-- The children follow a form of the node's kind. -/
def IsShaped (node : Node) : Prop :=
  ∃ form ∈ node.kind.forms, Follows form node.children

theorem IsShaped.kind_ne {node child : Node} (h : node.IsShaped) (hchild : child ∈ node.children) :
    child.kind ≠ .apexFile := by
  obtain ⟨form, hform, hfollows⟩ := h
  obtain ⟨slot, hslot, hkind⟩ := hfollows.exists_slot hchild
  exact fun heq => node.kind.apexFile_notMem form hform slot hslot (heq ▸ hkind)

/-- What stands in front of a node among its siblings: one node for each field that it declares. -/
def lead (node : Node) : List Node :=
  if node.kind = .fieldDeclarationStatements then
    node.children.tail.map fun declaration => .leaf .field declaration.line
  else []

theorem exists_of_mem_lead {node other : Node} (h : other ∈ node.lead) :
    ∃ declaration ∈ node.children.tail, other = .leaf .field declaration.line := by
  unfold lead at h
  split at h
  case isTrue =>
    obtain ⟨declaration, hmem, rfl⟩ := List.mem_map.mp h
    exact ⟨declaration, hmem, rfl⟩
  case isFalse => cases h

theorem kind_of_mem_lead {node other : Node} (h : other ∈ node.lead) : other.kind = .field := by
  obtain ⟨declaration, -, rfl⟩ := exists_of_mem_lead h
  rfl

end Node

end Exemplar.Code
