import Exemplar.Code.Tree
import Mathlib.Data.List.Basic

/-!
# Nodes of a tree

A walk visits the nodes of a tree in their order by recursion. `lineage` lists them in the same order, each
with the nodes above it; those have all been visited before it.
-/

namespace Exemplar.Code

variable {node root : Node} {nodes others : List Node}

namespace Node

/-! ### The order of nodes -/

theorem preorder_eq (node : Node) : node.preorder = node :: preorderAll node.children := by
  cases node
  rw [preorder]

theorem preorderAll_eq_flatMap (nodes : List Node) : preorderAll nodes = nodes.flatMap preorder := by
  induction nodes with
  | nil => rfl
  | cons node nodes ih => rw [preorderAll, List.flatMap_cons, ih]

theorem preorderAll_singleton (node : Node) : preorderAll [node] = node.preorder := by
  rw [preorderAll, preorderAll, List.append_nil]

theorem mem_preorderAll_append : node ∈ preorderAll (nodes ++ others) ↔
    node ∈ preorderAll nodes ∨ node ∈ preorderAll others := by
  rw [preorderAll_eq_flatMap, preorderAll_eq_flatMap, preorderAll_eq_flatMap, List.flatMap_append,
    List.mem_append]

theorem mem_preorderAll_cons {first : Node} : node ∈ preorderAll (first :: nodes) ↔
    node = first ∨ node ∈ preorderAll first.children ∨ node ∈ preorderAll nodes := by
  rw [preorderAll, preorder_eq, List.mem_append, List.mem_cons, or_assoc]

theorem mem_preorderAll_of_mem (h : node ∈ nodes) : node ∈ preorderAll nodes := by
  rw [preorderAll_eq_flatMap]
  exact List.mem_flatMap.mpr ⟨node, h, by rw [preorder_eq]; exact List.mem_cons_self⟩

theorem mem_preorderAll_of_mem_children : ∀ {nodes : List Node} {node child : Node},
    node ∈ preorderAll nodes → child ∈ node.children → child ∈ preorderAll nodes
  | ⟨kind, line, children⟩ :: rest, node, child, h, hchild => by
    rcases mem_preorderAll_cons.mp h with rfl | hbelow | hrest
    · exact mem_preorderAll_cons.mpr (.inr (.inl (mem_preorderAll_of_mem hchild)))
    · exact mem_preorderAll_cons.mpr (.inr (.inl (mem_preorderAll_of_mem_children hbelow hchild)))
    · exact mem_preorderAll_cons.mpr (.inr (.inr (mem_preorderAll_of_mem_children hrest hchild)))

theorem mem_preorder_of_mem_children {child : Node} (h : node ∈ root.preorder)
    (hchild : child ∈ node.children) : child ∈ root.preorder := by
  rw [← preorderAll_singleton] at h ⊢
  exact mem_preorderAll_of_mem_children h hchild

/-- A node is on top or the child of another one. -/
theorem mem_or_exists_parent : ∀ {nodes : List Node} {node : Node}, node ∈ preorderAll nodes →
    node ∈ nodes ∨ ∃ parent ∈ preorderAll nodes, node ∈ parent.children
  | ⟨kind, line, children⟩ :: rest, node, h => by
    rcases mem_preorderAll_cons.mp h with rfl | hbelow | hrest
    · exact .inl List.mem_cons_self
    · right
      rcases mem_or_exists_parent hbelow with hchild | ⟨parent, hparent, hchild⟩
      · exact ⟨_, mem_preorderAll_cons.mpr (.inl rfl), hchild⟩
      · exact ⟨parent, mem_preorderAll_cons.mpr (.inr (.inl hparent)), hchild⟩
    · rcases mem_or_exists_parent hrest with hmem | ⟨parent, hparent, hchild⟩
      · exact .inl (List.mem_cons_of_mem _ hmem)
      · exact .inr ⟨parent, mem_preorderAll_cons.mpr (.inr (.inr hparent)), hchild⟩

/-! ### Walks -/

mutual

theorem length_preorder : ∀ node : Node, node.preorder.length = node.size
  | ⟨kind, line, children⟩ => by rw [preorder, size, List.length_cons, length_preorderAll]

theorem length_preorderAll : ∀ nodes : List Node, (preorderAll nodes).length = sizeAll nodes
  | [] => rfl
  | node :: nodes => by
    rw [preorderAll, sizeAll, List.length_append, length_preorder, length_preorderAll]

end

end Node

namespace Walk

open Node (preorderAll)

variable {walk rest : Walk}

/-- What a walk has still to visit, in order. -/
def remaining (walk : Walk) : List Node :=
  preorderAll walk.pending

/-- A step takes the first node, and leaves all the others in their order. -/
theorem remaining_of_next? (h : walk.next? = some (node, rest)) :
    walk.remaining = node :: rest.remaining := by
  obtain ⟨pending⟩ := walk
  cases pending with
  | nil => cases h
  | cons first others =>
    obtain ⟨rfl, rfl⟩ := Prod.mk.inj (Option.some.inj h)
    rw [remaining, remaining, preorderAll, Node.preorder_eq, List.cons_append]
    simp only [Node.preorderAll_eq_flatMap, List.flatMap_append]

theorem next?_eq_none_iff : walk.next? = none ↔ walk.remaining = [] := by
  obtain ⟨pending⟩ := walk
  cases pending with
  | nil => exact iff_of_true rfl rfl
  | cons first others => simp [next?, remaining, preorderAll, Node.preorder_eq]

theorem run_eq {steps : Nat} (enough : walk.remaining.length ≤ steps) :
    walk.run steps = walk.remaining := by
  induction steps generalizing walk with
  | zero => exact (List.eq_nil_of_length_eq_zero (Nat.le_zero.mp enough)).symm
  | succ steps ih =>
    rw [run]
    cases hstep : walk.next? with
    | none => exact (next?_eq_none_iff.mp hstep).symm
    | some found =>
      obtain ⟨node, rest⟩ := found
      have hremaining := remaining_of_next? hstep
      rw [hremaining, List.length_cons] at enough
      rw [hremaining, ← ih (Nat.le_of_succ_le_succ enough)]

end Walk

namespace Node

theorem remaining_startWalk (root : Node) : root.startWalk.remaining = root.preorder :=
  preorderAll_singleton root

theorem walk_eq (root : Node) : root.walk = root.preorder := by
  have enough : root.startWalk.remaining.length ≤ root.size := by
    rw [remaining_startWalk]
    exact Nat.le_of_eq root.length_preorder
  rw [walk, Walk.run_eq enough, remaining_startWalk]

theorem mem_of_nodeOnLine? {line : Nat} (h : root.nodeOnLine? line = some node) :
    node ∈ root.preorder ∧ node.line = line ∧ node.kind ≠ .apexFile := by
  rw [nodeOnLine?, walk_eq] at h
  have htest := List.find?_some h
  rw [Bool.and_eq_true, beq_iff_eq, bne_iff_ne] at htest
  exact ⟨List.mem_of_find?_eq_some h, htest⟩

/-! ### What is above a node -/

mutual

/-- The nodes of a tree in the order of a walk, each with the nodes above it, the nearest first. -/
def lineage (above : List Node) : Node → List (List Node × Node)
  | ⟨kind, line, children⟩ =>
    (above, ⟨kind, line, children⟩) :: lineageAll (⟨kind, line, children⟩ :: above) children

def lineageAll (above : List Node) : List Node → List (List Node × Node)
  | [] => []
  | node :: nodes => lineage above node ++ lineageAll above nodes

end

mutual

theorem map_snd_lineage (above : List Node) : ∀ node, (lineage above node).map Prod.snd = node.preorder
  | ⟨kind, line, children⟩ => by rw [lineage, preorder, List.map_cons, map_snd_lineageAll]

theorem map_snd_lineageAll (above : List Node) : ∀ nodes,
    (lineageAll above nodes).map Prod.snd = preorderAll nodes
  | [] => rfl
  | node :: nodes => by
    rw [lineageAll, preorderAll, List.map_append, map_snd_lineage, map_snd_lineageAll]

end

mutual

/-- What is above a node comes before it. -/
theorem mem_before_of_lineage {above upper : List Node} {found : Node}
    {before after : List (List Node × Node)} :
    ∀ {node : Node}, lineage above node = before ++ (upper, found) :: after →
      ∀ other ∈ upper, other ∈ above ∨ other ∈ before.map Prod.snd
  | ⟨kind, line, children⟩, h, other, hother => by
    rw [lineage] at h
    cases before with
    | nil =>
      cases h
      exact .inl hother
    | cons first before =>
      obtain ⟨rfl, hrest⟩ := List.cons.inj h
      rw [List.map_cons, List.mem_cons]
      rcases mem_before_of_lineageAll hrest other hother with habove | hbefore
      · rcases List.mem_cons.mp habove with rfl | habove
        · exact .inr (.inl rfl)
        · exact .inl habove
      · exact .inr (.inr hbefore)

theorem mem_before_of_lineageAll {above upper : List Node} {found : Node}
    {before after : List (List Node × Node)} :
    ∀ {nodes : List Node}, lineageAll above nodes = before ++ (upper, found) :: after →
      ∀ other ∈ upper, other ∈ above ∨ other ∈ before.map Prod.snd
  | [], h, other, hother => by simp [lineageAll] at h
  | node :: nodes, h, other, hother => by
    rw [lineageAll] at h
    -- The node is in a later tree, or in the first one. Where the first tree ends is no place in it.
    rcases List.append_eq_append_iff.mp h with ⟨middle, hbefore, hrest⟩ | ⟨middle, hfront, hrest⟩
    · rw [hbefore, List.map_append, List.mem_append]
      rcases mem_before_of_lineageAll hrest other hother with habove | hmiddle
      · exact .inl habove
      · exact .inr (.inr hmiddle)
    · cases middle with
      | nil =>
        have hfirst : lineageAll above nodes = [] ++ (upper, found) :: after := hrest.symm
        rcases mem_before_of_lineageAll hfirst other hother with habove | hnone
        · exact .inl habove
        · cases hnone
      | cons first middle =>
        obtain ⟨rfl, -⟩ := List.cons.inj hrest
        exact mem_before_of_lineage hfront other hother

end

/-- The nodes above the one that is found on a line do not start there, unless they stand for the file. -/
theorem exists_lineage_of_nodeOnLine? {line : Nat} (h : root.nodeOnLine? line = some node) : ∃ upper,
    (lineage [] root).find? (fun entry => entry.2.line == line && entry.2.kind != .apexFile) =
        some (upper, node) ∧
      ∀ other ∈ upper, other ∈ root.preorder ∧ (other.kind = .apexFile ∨ other.line ≠ line) := by
  rw [nodeOnLine?, walk_eq, ← map_snd_lineage [], List.find?_map] at h
  obtain ⟨⟨upper, found⟩, hfind, rfl⟩ := Option.map_eq_some_iff.mp h
  refine ⟨upper, hfind, fun other hother => ?_⟩
  obtain ⟨-, before, after, hsplit, hbefore⟩ := List.find?_eq_some_iff_append.mp hfind
  rcases mem_before_of_lineage hsplit other hother with hnone | hmem
  · cases hnone
  · obtain ⟨entry, hentry, rfl⟩ := List.mem_map.mp hmem
    have hwalk : entry.2 ∈ (lineage [] root).map Prod.snd :=
      List.mem_map_of_mem (hsplit ▸ List.mem_append_left _ hentry)
    rw [map_snd_lineage] at hwalk
    refine ⟨hwalk, ?_⟩
    have hnot := hbefore entry hentry
    by_cases hkind : entry.2.kind = .apexFile
    · exact .inl hkind
    · refine .inr fun hline => ?_
      simp [hline, hkind] at hnot

end Node

theorem Outcome.root?_eq_some_iff {outcome : Outcome} {root : Node} :
    outcome.root? = some root ↔ outcome = .parsed root := by
  cases outcome <;> simp [root?]

end Exemplar.Code
