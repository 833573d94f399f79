import Exemplar.Proofs.Code.Parser
import Exemplar.Proofs.Code.Tree

/-!
# The structure of the tree of a source

Every tree that is read from a source follows the grammar of trees: the children of each node are those of its
kind, only the root stands for the file, and declarations of fields stand behind the fields.
-/

namespace Exemplar.Code

variable {node : Node} {nodes others : List Node} {tokens : List Token}

/-- Among some siblings, each declaration of fields stands right behind a node for each of its fields. -/
def FieldsLed (nodes : List Node) : Prop :=
  ∀ before node after, nodes = before ++ node :: after → node.lead <:+ before

namespace FieldsLed

theorem of_lone (h : ∀ node ∈ nodes, node.lead = []) : FieldsLed nodes := by
  rintro before node after rfl
  rw [h node (by simp)]
  exact List.nil_suffix

theorem append (h : FieldsLed nodes) (hmore : FieldsLed others) : FieldsLed (nodes ++ others) := by
  intro before node after hsplit
  -- The node is one of `others`, or one of `nodes` with `middle` from itself on.
  rcases List.append_eq_append_iff.mp hsplit with ⟨middle, rfl, hrest⟩ | ⟨middle, hfront, hrest⟩
  · exact (hmore middle node after hrest).trans (List.suffix_append _ _)
  · cases middle with
    | nil =>
      have hlead := hmore [] node after hrest.symm
      rw [List.suffix_nil.mp hlead]
      exact List.nil_suffix
    | cons first middle =>
      obtain ⟨rfl, -⟩ := List.cons.inj hrest
      exact h before node middle hfront

/-- A node behind what leads it. -/
theorem lead_append (node : Node) : FieldsLed (node.lead ++ [node]) := by
  intro before other after hsplit
  rcases List.eq_nil_or_concat after with rfl | ⟨rest, last, rfl⟩
  · obtain ⟨hlead, hself⟩ := List.append_inj' hsplit rfl
    obtain rfl : node = other := List.singleton_inj.mp hself
    exact hlead ▸ List.suffix_refl _
  · rw [List.concat_eq_append, ← List.cons_append, ← List.append_assoc] at hsplit
    have hfront := (List.append_inj' hsplit rfl).1
    -- One of the nodes for fields, which have none in front themselves.
    have hmem : other ∈ node.lead := by
      rw [hfront]
      exact List.mem_append_right _ List.mem_cons_self
    have hlead : other.lead = [] := if_neg (by rw [Node.kind_of_mem_lead hmem]; decide)
    exact hlead ▸ List.nil_suffix

end FieldsLed

/-- Nodes that follow the grammar of trees in themselves and in all that is below them. -/
structure Structured (nodes : List Node) : Prop where
  led : FieldsLed nodes
  inside : ∀ node ∈ Node.preorderAll nodes, node.IsShaped ∧ FieldsLed node.children

namespace Structured

theorem nil : Structured [] :=
  ⟨.of_lone nofun, nofun⟩

theorem append (h : Structured nodes) (hmore : Structured others) : Structured (nodes ++ others) where
  led := h.led.append hmore.led
  inside node hnode := (Node.mem_preorderAll_append.mp hnode).elim (h.inside node) (hmore.inside node)

theorem inside_singleton (h : Structured node.children) (shaped : node.IsShaped) :
    ∀ other ∈ Node.preorderAll [node], other.IsShaped ∧ FieldsLed other.children := by
  intro other hother
  rcases Node.mem_preorderAll_cons.mp hother with rfl | hbelow | hnone
  · exact ⟨shaped, h.led⟩
  · exact h.inside other hbelow
  · cases hnone

theorem singleton (h : Structured node.children) (shaped : node.IsShaped) (lone : node.lead = []) :
    Structured [node] :=
  ⟨.of_lone (by simpa using lone), inside_singleton h shaped⟩

/-- The nodes for fields have nothing below them. -/
theorem inside_lead (node : Node) :
    ∀ other ∈ Node.preorderAll node.lead, other.IsShaped ∧ FieldsLed other.children := by
  intro other hother
  rw [Node.preorderAll_eq_flatMap] at hother
  obtain ⟨leaf, hleaf, hother⟩ := List.mem_flatMap.mp hother
  obtain ⟨declaration, -, rfl⟩ := Node.exists_of_mem_lead hleaf
  rw [Node.preorder_eq, List.mem_cons] at hother
  rcases hother with rfl | hnone
  · exact ⟨⟨[], .head _, .nil⟩, .of_lone nofun⟩
  · cases hnone

end Structured

theorem Reading.structured (h : Reading tokens nodes) : Structured nodes := by
  induction h with
  | nil | token | query | unseen => exact .nil
  | bracketed _ _ ih => exact ih
  | append _ _ ihFront ihBack => exact ihFront.append ihBack
  | node _ _ _ shaped lone ih => exact .singleton ih shaped lone
  | @modified mods front tokens nodes hmods shaped _ _ _ ihAnnotations ihBack =>
    exact (Structured.singleton ihAnnotations shaped (if_neg (by rw [hmods]; decide))).append ihBack
  | @declared node mods front tokens nodes hmods modsShaped _ _ hchildren _ _ _ shaped ihAnnotations ihBack =>
    have hmod : Structured [mods] :=
      .singleton ihAnnotations modsShaped (if_neg (by rw [hmods]; decide))
    have hbelow : Structured node.children := hchildren ▸ hmod.append ihBack
    refine ⟨.lead_append node, fun other hother => ?_⟩
    rcases Node.mem_preorderAll_append.mp hother with hlead | hself
    · exact Structured.inside_lead node other hlead
    · exact Structured.inside_singleton hbelow shaped other hself

/-- The tree of a source stands for a file, and its children are what the source was read as. -/
theorem Entry.isShaped {entry : Entry} (h : Yields (.many entry.kinds) nodes tokens) :
    (Node.mk .apexFile 1 nodes).IsShaped := by
  have hform : [.many entry.kinds] ∈ Kind.apexFile.forms := by cases entry <;> decide
  exact ⟨_, hform, .last h.holds⟩

theorem structured_of_parsed {source : String} {root : Node} (h : reader source = .parsed root) :
    Structured [root] := by
  obtain ⟨tokens, nodes, -, rfl, entry, hyields⟩ := exists_of_parsed h
  exact .singleton hyields.reading.structured (Entry.isShaped hyields) rfl

/-- Only the root of the tree of a source stands for the file. -/
theorem kind_ne_apexFile {source : String} {root : Node} (h : reader source = .parsed root) :
    ∀ node ∈ Node.preorderAll root.children, node.kind ≠ .apexFile := by
  intro node hnode
  have hshaped (other : Node) (hother : other ∈ root.preorder) : other.IsShaped :=
    ((structured_of_parsed h).inside other (by rwa [Node.preorderAll_singleton])).1
  rcases Node.mem_or_exists_parent hnode with htop | ⟨parent, hparent, hchild⟩
  · exact (hshaped root (by rw [Node.preorder_eq]; exact List.mem_cons_self)).kind_ne htop
  · exact (hshaped parent (by rw [Node.preorder_eq]; exact List.mem_cons_of_mem _ hparent)).kind_ne hchild

/-- The tree of a source follows the grammar of trees: it is that of a file, and each node has children of the
kinds, in the number and in the order that its own kind asks for, without another file among them and with
every declaration of fields right behind the nodes for its fields. -/
theorem parsed_follows_grammar {source : String} {root : Node} (h : reader source = .parsed root) :
    root.kind = .apexFile ∧ ∀ node ∈ root.preorder, node.IsShaped ∧ FieldsLed node.children ∧
      ∀ child ∈ node.children, child.kind ≠ .apexFile := by
  obtain ⟨tokens, nodes, -, rfl, -⟩ := exists_of_parsed h
  refine ⟨rfl, fun node hnode => ?_⟩
  obtain ⟨hshaped, hled⟩ :=
    (structured_of_parsed h).inside node (by rwa [Node.preorderAll_singleton])
  exact ⟨hshaped, hled, fun child hchild => hshaped.kind_ne hchild⟩

/-- A class with two fields in one declaration. -/
def fieldSource : String :=
  "class A \x7b Integer a, b = 1; \x7d"

theorem fieldSource_follows_grammar : ∃ root, reader fieldSource = .parsed root ∧
    root.walk.map Node.kind = [.apexFile, .userClass, .modifierNode, .field, .field,
      .fieldDeclarationStatements, .modifierNode, .fieldDeclaration, .fieldDeclaration,
      .literalExpression] ∧
    root.kind = .apexFile ∧ ∀ node ∈ root.preorder, node.IsShaped ∧ FieldsLed node.children ∧
      ∀ child ∈ node.children, child.kind ≠ .apexFile := by
  have hread : (reader fieldSource).root?.map (fun root => root.walk.map Node.kind) =
      some [.apexFile, .userClass, .modifierNode, .field, .field, .fieldDeclarationStatements,
        .modifierNode, .fieldDeclaration, .fieldDeclaration, .literalExpression] := by
    decide +kernel
  obtain ⟨root, hroot, hkinds⟩ := Option.map_eq_some_iff.mp hread
  have hparsed := Outcome.root?_eq_some_iff.mp hroot
  exact ⟨root, hparsed, hkinds, parsed_follows_grammar hparsed⟩

end Exemplar.Code
