import Exemplar.Proofs.Code.Tree

/-!
# Chains of nodes

A binary operator, a member access, an index and a postfix operator are put around what was read before them, which
becomes the first child of their node. However many of them follow each other, no construct is nested for it: the tree
grows downwards along first children, in a chain.

`Node.levels` is the height of a tree when the steps along chains are not counted. The height itself is at most the
levels times the length of the longest chain.
-/

namespace Exemplar.Code

/-- The kinds of nodes that are put around an expression that was read before. -/
def linkKinds : List Kind :=
  [.nullCoalescingExpression, .booleanExpression, .binaryExpression, .instanceOfExpression, .postfixExpression,
   .methodCallExpression, .variableExpression, .classRefExpression, .arrayLoadExpression]

namespace Node

/-- Number of nodes on the way down through first children, as long as each is put around the next. -/
def chain : Node → Nat
  | ⟨_, _, []⟩ => 1
  | ⟨kind, _, first :: _⟩ => if kind ∈ linkKinds then first.chain + 1 else 1

mutual

/-- Number of nodes on the longest way down, where the step to what a node is put around does not count. -/
def levels : Node → Nat
  | ⟨_, _, []⟩ => 1
  | ⟨kind, _, first :: others⟩ =>
    if kind ∈ linkKinds then max first.levels (levelsAll others + 1)
    else max first.levels (levelsAll others) + 1

/-- The most levels that one of several trees has. -/
def levelsAll : List Node → Nat
  | [] => 0
  | node :: nodes => max node.levels (levelsAll nodes)

end

end Node

/-- None of the nodes has more than so many levels. -/
def Within (bound : Nat) (nodes : List Node) : Prop :=
  ∀ node ∈ nodes, node.levels ≤ bound

variable {kind : Kind} {line bound more links : Nat} {first node root : Node} {nodes others : List Node}

/-! ### Levels -/

namespace Within

theorem nil : Within bound [] :=
  List.forall_mem_nil _

theorem singleton (h : node.levels ≤ bound) : Within bound [node] :=
  List.forall_mem_singleton.mpr h

theorem cons (h : node.levels ≤ bound) (hnodes : Within bound nodes) : Within bound (node :: nodes) :=
  List.forall_mem_cons.mpr ⟨h, hnodes⟩

theorem append (h : Within bound nodes) (hothers : Within bound others) : Within bound (nodes ++ others) :=
  List.forall_mem_append.mpr ⟨h, hothers⟩

theorem mono (h : Within bound nodes) (hle : bound ≤ more) : Within more nodes :=
  fun node hnode => Nat.le_trans (h node hnode) hle

theorem flatten {rows : List (List Node)} (h : ∀ row ∈ rows, Within bound row) : Within bound rows.flatten := by
  intro node hnode
  obtain ⟨row, hrow, hmem⟩ := List.mem_flatten.mp hnode
  exact h row hrow node hmem

theorem present {found : List (Option Node)} (h : ∀ node? ∈ found, Within bound node?.toList) :
    Within bound (found.filterMap id) := by
  intro node hnode
  obtain ⟨node?, hmem, hsome⟩ := List.mem_filterMap.mp hnode
  exact h node? hmem node (Option.mem_toList.mpr hsome)

theorem levelsAll_le (h : Within bound nodes) : Node.levelsAll nodes ≤ bound := by
  induction nodes with
  | nil => exact Nat.zero_le _
  | cons node nodes ih =>
    obtain ⟨hnode, hnodes⟩ := List.forall_mem_cons.mp h
    exact Nat.max_le.mpr ⟨hnode, ih hnodes⟩

/-- Any node has at most one level more than what is below it. -/
theorem levels_le (h : Within bound nodes) : (Node.mk kind line nodes).levels ≤ bound + 1 := by
  cases nodes with
  | nil => exact Nat.le_add_left 1 bound
  | cons first others =>
    obtain ⟨hfirst, hothers⟩ := List.forall_mem_cons.mp h
    have hmost := levelsAll_le hothers
    rw [Node.levels]
    split <;> omega

/-- A node that is put around another one only has a level more than the others below it. -/
theorem levels_link_le (h : Within bound others) (hkind : kind ∈ linkKinds) (hfirst : first.levels ≤ bound + 1) :
    (Node.mk kind line (first :: others)).levels ≤ bound + 1 := by
  rw [Node.levels, if_pos hkind]
  exact Nat.max_le.mpr ⟨hfirst, Nat.succ_le_succ h.levelsAll_le⟩

end Within

/-! ### Height -/

namespace Node

mutual

/-- The way down is a chain, and then a way down for each further level. -/
theorem height_add_le : ∀ {node : Node}, (∀ below ∈ node.preorder, below.chain ≤ links) →
    node.height + links ≤ node.levels * links + node.chain
  | ⟨kind, line, []⟩, _ => by
    rw [height, heightAll, levels, chain]
    omega
  | ⟨kind, line, first :: others⟩, h => by
    rw [preorder, preorderAll, List.forall_mem_cons, List.forall_mem_append] at h
    obtain ⟨-, hfirst, hothers⟩ := h
    have hchain : first.chain ≤ links := hfirst first (by rw [preorder_eq]; exact List.mem_cons_self)
    have hheight := height_add_le hfirst
    have hheights := heightAll_le hothers
    rw [height, heightAll, levels, chain]
    split
    case isTrue =>
      -- The chain goes on with the first child; the others are one level below.
      have hlevel : first.levels * links ≤ max first.levels (levelsAll others + 1) * links :=
        Nat.mul_le_mul_right _ (Nat.le_max_left ..)
      have hlevels : (levelsAll others + 1) * links ≤ max first.levels (levelsAll others + 1) * links :=
        Nat.mul_le_mul_right _ (Nat.le_max_right ..)
      rw [Nat.add_mul, Nat.one_mul] at hlevels
      omega
    case isFalse =>
      have hlevel : first.levels * links ≤ max first.levels (levelsAll others) * links :=
        Nat.mul_le_mul_right _ (Nat.le_max_left ..)
      have hlevels : levelsAll others * links ≤ max first.levels (levelsAll others) * links :=
        Nat.mul_le_mul_right _ (Nat.le_max_right ..)
      rw [Nat.add_mul, Nat.one_mul]
      omega

theorem heightAll_le : ∀ {nodes : List Node}, (∀ below ∈ preorderAll nodes, below.chain ≤ links) →
    heightAll nodes ≤ levelsAll nodes * links
  | [], _ => Nat.zero_le _
  | node :: nodes, h => by
    rw [preorderAll, List.forall_mem_append] at h
    obtain ⟨hnode, hnodes⟩ := h
    have hchain : node.chain ≤ links := hnode node (by rw [preorder_eq]; exact List.mem_cons_self)
    have hheight := height_add_le hnode
    have hheights := heightAll_le hnodes
    have hlevel : node.levels * links ≤ max node.levels (levelsAll nodes) * links :=
      Nat.mul_le_mul_right _ (Nat.le_max_left ..)
    have hlevels : levelsAll nodes * links ≤ max node.levels (levelsAll nodes) * links :=
      Nat.mul_le_mul_right _ (Nat.le_max_right ..)
    rw [heightAll, levelsAll]
    omega

end

/-- With chains of at most so many nodes, no level adds more than as many to the height. -/
theorem height_le (h : ∀ node ∈ root.preorder, node.chain ≤ links) : root.height ≤ root.levels * links := by
  have hheights : heightAll [root] ≤ levelsAll [root] * links := heightAll_le (by rwa [preorderAll_singleton])
  rwa [heightAll, heightAll, Nat.max_zero, levelsAll, levelsAll, Nat.max_zero] at hheights

end Node

end Exemplar.Code
