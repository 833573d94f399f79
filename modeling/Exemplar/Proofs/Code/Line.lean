import Exemplar.Proofs.Code.Lexer
import Exemplar.Proofs.Code.Structure
import Mathlib.Logic.Relation

/-!
# The lines of nodes

A node starts on the line of a token, and lines grow downwards in a tree: a node is read from its first token
on, and the tokens of a source come in the order of their lines. The modifiers of a declaration are the
exception, since they are read before it starts.
-/

namespace Exemplar.Code

/-! ### Nodes and their tokens -/

/-- Tokens in the order of their lines. -/
abbrev InLineOrder (tokens : List Token) : Prop :=
  tokens.Pairwise fun first later => first.line ≤ later.line

variable {line : Nat} {node root : Node} {nodes : List Node} {tokens : List Token} {source : String}

theorem Starts.exists_mem (h : Starts line tokens) : ∃ token ∈ tokens, line = token.line := by
  obtain ⟨token, hhead, hline⟩ := Option.map_eq_some_iff.mp h
  exact ⟨token, List.mem_of_mem_head? hhead, hline.symm⟩

theorem Starts.line_le (h : Starts line tokens) (sorted : InLineOrder tokens) :
    ∀ token ∈ tokens, line ≤ token.line := by
  cases tokens with
  | nil => exact absurd rfl h.ne_nil
  | cons first rest =>
    obtain rfl : first.line = line := Option.some.inj h
    exact List.forall_mem_cons.mpr ⟨Nat.le_refl _, (List.pairwise_cons.mp sorted).1⟩

/-- Nodes that start on lines of the tokens, with no part on an earlier line than what it is a part of. -/
structure Lined (tokens : List Token) (nodes : List Node) : Prop where
  real : ∀ node ∈ Node.preorderAll nodes, ∃ token ∈ tokens, node.line = token.line
  down : ∀ node ∈ Node.preorderAll nodes, ∀ child ∈ node.children, child.kind ≠ .modifierNode →
    node.line ≤ child.line

namespace Lined

variable {more : List Token} {others : List Node}

theorem nil : Lined tokens [] :=
  ⟨nofun, nofun⟩

theorem mono (h : Lined tokens nodes) (hmore : tokens ⊆ more) : Lined more nodes where
  real node hnode := by
    obtain ⟨token, htoken, hline⟩ := h.real node hnode
    exact ⟨token, hmore htoken, hline⟩
  down := h.down

theorem append (h : Lined tokens nodes) (hothers : Lined tokens others) : Lined tokens (nodes ++ others) where
  real node hnode := (Node.mem_preorderAll_append.mp hnode).elim (h.real node) (hothers.real node)
  down node hnode := (Node.mem_preorderAll_append.mp hnode).elim (h.down node) (hothers.down node)

theorem singleton (h : Lined tokens node.children) (hreal : ∃ token ∈ tokens, node.line = token.line)
    (hdown : ∀ child ∈ node.children, child.kind ≠ .modifierNode → node.line ≤ child.line) :
    Lined tokens [node] := by
  constructor <;> intro other hother <;>
    rcases Node.mem_preorderAll_cons.mp hother with rfl | hbelow | hnone
  · exact hreal
  · exact h.real other hbelow
  · cases hnone
  · exact hdown
  · exact h.down other hbelow
  · cases hnone

/-- A text does not go back behind the line it starts on. -/
theorem line_le (h : Lined tokens nodes) (starts : Starts line tokens) (sorted : InLineOrder tokens) :
    ∀ node ∈ nodes, line ≤ node.line := by
  intro node hnode
  obtain ⟨token, htoken, hline⟩ := h.real node (Node.mem_preorderAll_of_mem hnode)
  exact hline ▸ starts.line_le sorted token htoken

theorem of_starts (h : Lined tokens node.children) (starts : Starts node.line tokens)
    (sorted : InLineOrder tokens) : Lined tokens [node] :=
  .singleton h starts.exists_mem fun child hchild _ => h.line_le starts sorted child hchild

/-- The nodes for fields take their lines from the declarations of the fields. -/
theorem lead (h : Lined tokens node.children) : Lined tokens node.lead := by
  constructor <;> intro other hother <;> rw [Node.preorderAll_eq_flatMap] at hother <;>
    obtain ⟨leaf, hleaf, hother⟩ := List.mem_flatMap.mp hother <;>
    obtain ⟨declaration, hdeclaration, rfl⟩ := Node.exists_of_mem_lead hleaf <;>
    obtain rfl := List.mem_singleton.mp hother
  · exact h.real declaration (Node.mem_preorderAll_of_mem (List.mem_of_mem_tail hdeclaration))
  · exact nofun

end Lined

theorem Reading.lined (h : Reading tokens nodes) : InLineOrder tokens → Lined tokens nodes := by
  induction h with
  | nil | token | query | unseen => exact fun _ => .nil
  | bracketed _ _ ih =>
    intro sorted
    have inner := (List.pairwise_append.mp (List.pairwise_cons.mp sorted).2).1
    refine (ih inner).mono fun token htoken => ?_
    simp [htoken]
  | append _ _ ihFront ihBack =>
    intro sorted
    obtain ⟨hfront, hback, -⟩ := List.pairwise_append.mp sorted
    exact ((ihFront hfront).mono (List.subset_append_left _ _)).append
      ((ihBack hback).mono (List.subset_append_right _ _))
  | node _ starts _ _ _ ih => exact fun sorted => (ih sorted).of_starts starts sorted
  | modified _ _ _ starts _ ihAnnotations ihBack =>
    intro sorted
    obtain ⟨hfront, hback, -⟩ := List.pairwise_append.mp sorted
    -- The node of the modifiers stands on the line of the first token, whether that is one of theirs or not.
    have hmods := ((ihAnnotations hfront).mono (List.subset_append_left _ _)).of_starts starts sorted
    exact hmods.append ((ihBack hback).mono (List.subset_append_right _ _))
  | @declared node mods front tokens nodes hmods _ _ modsStarts hchildren _ starts _ _ ihAnnotations
      ihBack =>
    intro sorted
    obtain ⟨hfront, hback, -⟩ := List.pairwise_append.mp sorted
    have hmod := ((ihAnnotations hfront).mono (List.subset_append_left _ _)).of_starts modsStarts sorted
    have hparts := ihBack hback
    have hbelow : Lined (front ++ tokens) node.children :=
      hchildren ▸ hmod.append (hparts.mono (List.subset_append_right _ _))
    refine hbelow.lead.append (hbelow.singleton ?_ fun child hchild hkind => ?_)
    · obtain ⟨token, htoken, hline⟩ := starts.exists_mem
      exact ⟨token, List.mem_append_right _ htoken, hline⟩
    · -- The declaration starts behind its modifiers, and only they were read before that.
      rw [hchildren] at hchild
      rcases List.mem_cons.mp hchild with rfl | hpart
      · exact absurd hmods hkind
      · exact hparts.line_le starts hback child hpart

/-! ### The tree of a source -/

/-- One node is a child of another one, and is not its modifiers. -/
def Node.HasPart (node part : Node) : Prop :=
  part ∈ node.children ∧ part.kind ≠ .modifierNode

/-- No part of a node on an earlier line than the node. -/
def Node.GrowsDown (root : Node) : Prop :=
  ∀ node ∈ root.preorder, ∀ child ∈ node.children, child.kind ≠ .modifierNode → node.line ≤ child.line

/-- Lines grow along all ways down that pass by the modifiers. -/
theorem Node.GrowsDown.line_le (h : root.GrowsDown) (hnode : node ∈ root.preorder) {inner : Node}
    (hinner : Relation.TransGen Node.HasPart node inner) : node.line ≤ inner.line := by
  suffices hway : inner ∈ root.preorder ∧ node.line ≤ inner.line from hway.2
  induction hinner with
  | single hpart =>
    exact ⟨Node.mem_preorder_of_mem_children hnode hpart.1, h _ hnode _ hpart.1 hpart.2⟩
  | tail _ hpart ih =>
    obtain ⟨hmiddle, hline⟩ := ih
    exact ⟨Node.mem_preorder_of_mem_children hmiddle hpart.1,
      Nat.le_trans hline (h _ hmiddle _ hpart.1 hpart.2)⟩

/-- The nodes of a source start on lines of its tokens, and lines grow downwards. The node that is found on a
line is the outermost one there: nothing above it but the file starts on the line, and what is below it starts
there or later, the modifiers of declarations aside. -/
theorem lines_of_parsed (h : reader source = .parsed root) : ∃ tokens, tokenize source = .ok tokens ∧
    (∀ node ∈ Node.preorderAll root.children, (∃ token ∈ tokens, node.line = token.line) ∧
      1 ≤ node.line ∧ node.line ≤ source.toList.count '\n' + 1) ∧
    root.GrowsDown ∧
    ∀ line node, root.nodeOnLine? line = some node → ∃ upper,
      (root.lineage []).find? (fun entry => entry.2.line == line && entry.2.kind != .apexFile) =
        some (upper, node) ∧
      (∀ other ∈ upper, other = root ∨ other.line ≠ line) ∧
      ∀ inner, Relation.TransGen Node.HasPart node inner → line ≤ inner.line := by
  obtain ⟨tokens, nodes, htokens, rfl, entry, hyields⟩ := exists_of_parsed h
  have lined : Lined tokens nodes := hyields.reading.lined (pairwise_line_tokensFrom htokens)
  have hreal (node : Node) (hnode : node ∈ Node.preorderAll nodes) :
      (∃ token ∈ tokens, node.line = token.line) ∧ 1 ≤ node.line ∧
        node.line ≤ source.toList.count '\n' + 1 := by
    obtain ⟨token, htoken, hline⟩ := lined.real node hnode
    have hbounds := line_of_mem_tokensFrom htokens htoken
    exact ⟨⟨token, htoken, hline⟩, hline ▸ hbounds.1, hline ▸ Nat.add_comm _ _ ▸ hbounds.2⟩
  -- The node for the file starts on the first line, whatever the tokens are.
  have hdown : (Node.mk .apexFile 1 nodes).GrowsDown := by
    intro node hnode child hchild hkind
    rw [Node.preorder_eq, List.mem_cons] at hnode
    rcases hnode with rfl | hbelow
    · exact (hreal child (Node.mem_preorderAll_of_mem hchild)).2.1
    · exact lined.down node hbelow child hchild hkind
  refine ⟨tokens, htokens, hreal, hdown, fun line node hfound => ?_⟩
  obtain ⟨upper, hfind, hupper⟩ := Node.exists_lineage_of_nodeOnLine? hfound
  obtain ⟨hnode, rfl, -⟩ := Node.mem_of_nodeOnLine? hfound
  refine ⟨upper, hfind, fun other hother => ?_, fun inner hinner => hdown.line_le hnode hinner⟩
  obtain ⟨hmem, hfile | hline⟩ := hupper other hother
  · rw [Node.preorder_eq, List.mem_cons] at hmem
    exact .inl (hmem.resolve_right fun hbelow => kind_ne_apexFile h other hbelow hfile)
  · exact .inr hline

/-- A method behind an annotation on the line before. -/
def annotatedSource : String :=
  "class A \x7b\n@C\nvoid m() \x7b f(a\n= b); \x7d \x7d"

/-- The method is found on its own line, below its annotation. -/
theorem lines_of_annotatedSource : ∃ root method tokens, reader annotatedSource = .parsed root ∧
    root.nodeOnLine? 3 = some method ∧ method.kind = .method ∧ method.children.map Node.line = [2, 3] ∧
    tokenize annotatedSource = .ok tokens ∧
    (∀ node ∈ Node.preorderAll root.children, (∃ token ∈ tokens, node.line = token.line) ∧
      1 ≤ node.line ∧ node.line ≤ annotatedSource.toList.count '\n' + 1) ∧
    root.GrowsDown ∧ ∃ upper,
      (root.lineage []).find? (fun entry => entry.2.line == 3 && entry.2.kind != .apexFile) =
        some (upper, method) ∧
      (∀ other ∈ upper, other = root ∨ other.line ≠ 3) ∧
      ∀ inner, Relation.TransGen Node.HasPart method inner → 3 ≤ inner.line := by
  have hread : ((reader annotatedSource).root?.bind (·.nodeOnLine? 3)).map
      (fun method => (method.kind, method.children.map Node.line)) = some (.method, [2, 3]) := by
    decide +kernel
  obtain ⟨method, hmethod, hparts⟩ := Option.map_eq_some_iff.mp hread
  obtain ⟨root, hroot, hfound⟩ := Option.bind_eq_some_iff.mp hmethod
  have hparsed := Outcome.root?_eq_some_iff.mp hroot
  obtain ⟨tokens, htokens, hreal, hdown, houtermost⟩ := lines_of_parsed hparsed
  exact ⟨root, method, tokens, hparsed, hfound, congrArg Prod.fst hparts, congrArg Prod.snd hparts,
    htokens, hreal, hdown, houtermost 3 method hfound⟩

end Exemplar.Code
