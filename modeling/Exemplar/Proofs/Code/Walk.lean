import Exemplar.Proofs.Code.Tree

/-!
# Walks and places

A walk keeps the nodes that it has come across and not visited yet. What it visits from then on are the nodes
of the trees below them, one tree after the other and each in its order by recursion: a step takes the first
node of that list and leaves the rest of it as it was. So every walk ends.

Nodes may be equal to each other, but no two of them have the same place, which is given by the numbers of the
children on the way down. A walk goes through the places of a tree in lexicographic order and leaves none out.
-/

namespace Exemplar.Code

/-! ### The course of a walk -/

namespace Walk

variable {walk : Walk} {nodes : List Node}

/-- The walk visits these nodes, one with each step, and then it ends. -/
inductive Visits : Walk → List Node → Prop
  | ends {walk : Walk} (stops : walk.next? = none) : Visits walk []
  | next {walk rest : Walk} {node : Node} {nodes : List Node} (step : walk.next? = some (node, rest))
      (later : Visits rest nodes) : Visits walk (node :: nodes)

theorem visits_iff : walk.Visits nodes ↔ nodes = walk.remaining := by
  constructor
  · intro visits
    induction visits with
    | ends stops => exact (next?_eq_none_iff.mp stops).symm
    | next step later ih => rw [remaining_of_next? step, ih]
  · intro h
    -- What remains gets shorter with each step.
    induction nodes generalizing walk with
    | nil => exact .ends (next?_eq_none_iff.mpr h.symm)
    | cons node nodes ih =>
      cases hstep : walk.next? with
      | none =>
        rw [next?_eq_none_iff.mp hstep] at h
        cases h
      | some found =>
        obtain ⟨first, rest⟩ := found
        rw [remaining_of_next? hstep] at h
        obtain ⟨rfl, hrest⟩ := List.cons.inj h
        exact .next hstep (ih hrest)

end Walk

namespace Node

variable {node root : Node} {nodes : List Node} {path : List Nat}

/-! ### Places -/

/-- The node at a place: down to the child with the first number, and on from there. -/
def at? (node : Node) : List Nat → Option Node
  | [] => some node
  | i :: path => node.children[i]?.bind fun child => child.at? path

mutual

/-- The places of a tree, those below each child in turn. -/
def places : Node → List (List Nat)
  | ⟨_, _, children⟩ => [] :: placesFrom 0 children

/-- The places below children that are numbered from `i` on. -/
def placesFrom (i : Nat) : List Node → List (List Nat)
  | [] => []
  | node :: nodes => node.places.map (i :: ·) ++ placesFrom (i + 1) nodes

end

theorem places_eq (node : Node) : node.places = [] :: placesFrom 0 node.children := by
  cases node
  rw [places]

theorem mem_placesFrom_iff {i : Nat} : path ∈ placesFrom i nodes ↔
    ∃ j rest child, path = (i + j) :: rest ∧ nodes[j]? = some child ∧ rest ∈ child.places := by
  induction nodes generalizing i with
  | nil => simp [placesFrom]
  | cons node nodes ih =>
    rw [placesFrom, List.mem_append, List.mem_map, ih]
    constructor
    · rintro (⟨rest, hrest, rfl⟩ | ⟨j, rest, child, rfl, hchild, hrest⟩)
      · exact ⟨0, rest, node, rfl, rfl, hrest⟩
      · exact ⟨j + 1, rest, child, by rw [Nat.add_assoc, Nat.add_comm 1], hchild, hrest⟩
    · rintro ⟨_ | j, rest, child, rfl, hchild, hrest⟩
      · obtain rfl := Option.some.inj hchild
        exact .inl ⟨rest, hrest, rfl⟩
      · exact .inr ⟨j, rest, child, by rw [Nat.add_assoc, Nat.add_comm 1], hchild, hrest⟩

/-- No place of a tree is left out. -/
theorem mem_places_iff : path ∈ node.places ↔ ∃ found, node.at? path = some found := by
  induction path generalizing node with
  | nil => simp [places_eq, at?]
  | cons i path ih =>
    rw [places_eq, List.mem_cons, mem_placesFrom_iff, at?]
    constructor
    · rintro (h | ⟨j, rest, child, hpath, hchild, hrest⟩)
      · cases h
      · obtain ⟨rfl, rfl⟩ := List.cons.inj hpath
        rw [Nat.zero_add, hchild, Option.bind_some]
        exact ih.mp hrest
    · rintro ⟨found, hfound⟩
      obtain ⟨child, hchild, hat⟩ := Option.bind_eq_some_iff.mp hfound
      exact .inr ⟨i, path, child, by rw [Nat.zero_add], hchild, ih.mpr ⟨found, hat⟩⟩

mutual

/-- The nodes at the places of a tree are its nodes by recursion. -/
theorem map_at?_places : ∀ node : Node, node.places.map node.at? = node.preorder.map some
  | ⟨kind, line, children⟩ => by
    rw [places, preorder, List.map_cons, List.map_cons, map_at?_placesFrom ⟨kind, line, children⟩ 0 children rfl]
    rfl

theorem map_at?_placesFrom (parent : Node) (i : Nat) : ∀ nodes : List Node, parent.children.drop i = nodes →
    (placesFrom i nodes).map parent.at? = (preorderAll nodes).map some
  | [], _ => by rw [placesFrom, preorderAll, List.map_nil, List.map_nil]
  | node :: nodes, h => by
    have hchild : parent.children[i]? = some node := by
      rw [← List.head?_drop, h, List.head?_cons]
    have hbelow : parent.at? ∘ (i :: ·) = node.at? := by
      funext path
      rw [Function.comp_apply, at?, hchild, Option.bind_some]
    have hrest : parent.children.drop (i + 1) = nodes := by
      rw [← List.drop_drop, h, List.drop_one, List.tail_cons]
    rw [placesFrom, preorderAll, List.map_append, List.map_append, List.map_map, hbelow, map_at?_places node,
      map_at?_placesFrom parent (i + 1) nodes hrest]

end

mutual

/-- Places come in lexicographic order, what is above before what is below. -/
theorem pairwise_places : ∀ node : Node, node.places.Pairwise (· < ·)
  | ⟨kind, line, children⟩ => by
    rw [places, List.pairwise_cons]
    refine ⟨fun path hpath => ?_, pairwise_placesFrom 0 children⟩
    obtain ⟨j, rest, -, rfl, -⟩ := mem_placesFrom_iff.mp hpath
    exact List.nil_lt_cons _ _

theorem pairwise_placesFrom (i : Nat) : ∀ nodes : List Node, (placesFrom i nodes).Pairwise (· < ·)
  | [] => by
    rw [placesFrom]
    exact .nil
  | node :: nodes => by
    rw [placesFrom, List.pairwise_append]
    refine ⟨?_, pairwise_placesFrom (i + 1) nodes, ?_⟩
    · rw [List.pairwise_map]
      exact (pairwise_places node).imp fun lt => List.cons_lt_cons_iff.mpr (.inr ⟨rfl, lt⟩)
    · intro path hpath other hother
      obtain ⟨rest, -, rfl⟩ := List.mem_map.mp hpath
      obtain ⟨j, rest', -, rfl, -⟩ := mem_placesFrom_iff.mp hother
      exact List.cons_lt_cons_iff.mpr (.inl (by omega))

end

theorem mem_preorder_iff : node ∈ root.preorder ↔ ∃ path, root.at? path = some node := by
  have hmem : node ∈ root.preorder ↔ some node ∈ root.preorder.map some := by simp
  rw [hmem, ← map_at?_places, List.mem_map]
  constructor
  · rintro ⟨path, -, hat⟩
    exact ⟨path, hat⟩
  · rintro ⟨path, hat⟩
    exact ⟨path, mem_places_iff.mpr ⟨node, hat⟩, hat⟩

end Node

/-! ### Questions to a walk -/

theorem Kind.ofName?_name (kind : Kind) : Kind.ofName? kind.name = some kind := by
  have hall : ∀ kind ∈ Kind.all, Kind.ofName? kind.name = some kind := by decide +kernel
  exact hall kind (Kind.mem_all kind)

theorem Kind.name_injective : Function.Injective Kind.name := by
  intro kind other hname
  have hkind := Kind.ofName?_name kind
  rw [hname, Kind.ofName?_name] at hkind
  exact (Option.some.inj hkind).symm

namespace Node

variable {node root : Node} {kind : Kind} {line : Nat}

theorem containsKind_name_iff : root.containsKind kind.name = true ↔
    ∃ node ∈ root.preorder, node.kind = kind := by
  simp [containsKind, Kind.ofName?_name, walk_eq]

theorem containsKind_iff {name : String} : root.containsKind name = true ↔
    ∃ kind : Kind, kind.name = name ∧ ∃ node ∈ root.preorder, node.kind = kind := by
  constructor
  · intro h
    cases hname : Kind.ofName? name with
    | none =>
      rw [containsKind, hname] at h
      cases h
    | some kind =>
      rw [Kind.ofName?] at hname
      obtain rfl : kind.name = name := by simpa using List.find?_some hname
      exact ⟨kind, rfl, containsKind_name_iff.mp h⟩
  · rintro ⟨kind, rfl, h⟩
    exact containsKind_name_iff.mpr h

theorem nodeOnLine?_eq_some_iff : root.nodeOnLine? line = some node ↔
    (node.line = line ∧ node.kind ≠ .apexFile) ∧ ∃ before after, root.preorder = before ++ node :: after ∧
      ∀ other ∈ before, other.line = line → other.kind = .apexFile := by
  simp [nodeOnLine?, walk_eq, List.find?_eq_some_iff_append, imp_iff_not_or]

theorem nodeOnLine?_eq_none_iff : root.nodeOnLine? line = none ↔
    ∀ node ∈ root.preorder, node.line = line → node.kind = .apexFile := by
  simp [nodeOnLine?, walk_eq]

end Node

/-- A walk visits the nodes of a tree in the order by recursion, and then it ends. That order has the node of each
place of the tree once, by the lexicographic order of places. The tree has a node of a kind if one is at some
place; on a line it finds the first node in that order which starts there and does not stand for the file. -/
theorem walk_visits_places (root : Node) :
    (∀ nodes, root.startWalk.Visits nodes ↔ nodes = root.preorder) ∧ root.walk = root.preorder ∧
    (root.preorder.map some = root.places.map root.at? ∧ root.places.Pairwise (· < ·) ∧
      ∀ path, path ∈ root.places ↔ ∃ node, root.at? path = some node) ∧
    (∀ name, root.containsKind name = true ↔ ∃ kind : Kind, kind.name = name ∧
      ∃ path node, root.at? path = some node ∧ node.kind = kind) ∧
    (∀ line node, root.nodeOnLine? line = some node ↔ (node.line = line ∧ node.kind ≠ .apexFile) ∧
      ∃ before after, root.preorder = before ++ node :: after ∧
        ∀ other ∈ before, other.line = line → other.kind = .apexFile) ∧
    ∀ line, root.nodeOnLine? line = none ↔
      ∀ path node, root.at? path = some node → node.line = line → node.kind = .apexFile := by
  refine ⟨fun nodes => ?_, root.walk_eq, ⟨root.map_at?_places.symm, root.pairwise_places, fun path => ?_⟩,
    fun name => ?_, fun line node => Node.nodeOnLine?_eq_some_iff, fun line => ?_⟩
  · rw [Walk.visits_iff, Node.remaining_startWalk]
  · exact Node.mem_places_iff
  · rw [Node.containsKind_iff]
    refine exists_congr fun kind => and_congr_right fun _ => ?_
    simp only [Node.mem_preorder_iff]
    constructor
    · rintro ⟨node, ⟨path, hat⟩, hkind⟩
      exact ⟨path, node, hat, hkind⟩
    · rintro ⟨path, node, hat, hkind⟩
      exact ⟨node, ⟨path, hat⟩, hkind⟩
  · rw [Node.nodeOnLine?_eq_none_iff]
    simp only [Node.mem_preorder_iff]
    constructor
    · exact fun h path node hat => h node ⟨path, hat⟩
    · rintro h node ⟨path, hat⟩
      exact h path node hat

end Exemplar.Code
