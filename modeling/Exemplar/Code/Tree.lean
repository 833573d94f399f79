import Exemplar.Code.Kind

/-!
# Trees of example code

A node has a kind, the line of its first token and its children in order. A walk visits a tree from
the top: it keeps the nodes still to be visited and puts the children of each visited node in front
of them. `Node.preorder` is the same order said by recursion.
-/

namespace Exemplar.Code

/-- A node of the tree, with the 1-based line it starts on. -/
structure Node where
  kind : Kind
  line : Nat
  children : List Node
deriving Repr

namespace Node

def leaf (kind : Kind) (line : Nat) : Node :=
  ⟨kind, line, []⟩

mutual

def size : Node → Nat
  | ⟨_, _, children⟩ => sizeAll children + 1

def sizeAll : List Node → Nat
  | [] => 0
  | node :: nodes => node.size + sizeAll nodes

end

mutual

/-- The node, then the nodes below each child in turn. -/
def preorder : Node → List Node
  | ⟨kind, line, children⟩ => ⟨kind, line, children⟩ :: preorderAll children

/-- The nodes of several trees, one tree after the other. -/
def preorderAll : List Node → List Node
  | [] => []
  | node :: nodes => node.preorder ++ preorderAll nodes

end

mutual

/-- Number of nodes on the longest way down. -/
def height : Node → Nat
  | ⟨_, _, children⟩ => heightAll children + 1

/-- Height of the tallest of several trees. -/
def heightAll : List Node → Nat
  | [] => 0
  | node :: nodes => max node.height (heightAll nodes)

end

end Node

/-- A walk in progress: the nodes still to be visited, the next one first. -/
structure Walk where
  pending : List Node

namespace Walk

/-- Visits the next node. -/
def next? (walk : Walk) : Option (Node × Walk) :=
  match walk.pending with
  | [] => none
  | node :: rest => some (node, ⟨node.children ++ rest⟩)

/-- The nodes visited in at most so many steps. -/
def run : Nat → Walk → List Node
  | 0, _ => []
  | steps + 1, walk =>
    match walk.next? with
    | none => []
    | some (node, rest) => node :: rest.run steps

end Walk

namespace Node

/-- A walk that has not visited anything yet. -/
def startWalk (root : Node) : Walk :=
  ⟨[root]⟩

/-- The nodes in the order a walk visits them. -/
def walk (root : Node) : List Node :=
  root.startWalk.run root.size

/-- Whether the tree has a node of the kind with this name. -/
def containsKind (root : Node) (name : String) : Bool :=
  match Kind.ofName? name with
  | some kind => root.walk.any (·.kind == kind)
  | none => false

/-- The outermost node that starts on a line, the file itself aside. -/
def nodeOnLine? (root : Node) (line : Nat) : Option Node :=
  root.walk.find? fun node => node.line == line && node.kind != .apexFile

/-- Every node with its distance from the root. -/
def outline (root : Node) : List (Nat × Node) :=
  visit 0 root
where
  visit (depth : Nat) : Node → List (Nat × Node)
    | ⟨kind, line, children⟩ => (depth, ⟨kind, line, children⟩) :: visitAll (depth + 1) children
  visitAll (depth : Nat) : List Node → List (Nat × Node)
    | [] => []
    | node :: nodes => visit depth node ++ visitAll depth nodes

end Node

/-- What becomes of example code: a tree, or the reason why there is none. -/
inductive Outcome where
  | parsed (root : Node)
  | unusable (reason : String)

namespace Outcome

def root? : Outcome → Option Node
  | parsed root => some root
  | unusable _ => none

def isUsable (outcome : Outcome) : Bool :=
  outcome.root?.isSome

end Outcome

/-- Anything that turns example code into a tree. -/
abbrev Reader := String → Outcome

end Exemplar.Code
