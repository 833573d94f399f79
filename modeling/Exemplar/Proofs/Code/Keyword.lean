import Exemplar.Code.Presence
import Exemplar.Proofs.Code.Lexer
import Exemplar.Proofs.Code.Structure
import Exemplar.Proofs.Code.Walk
import Mathlib.Data.List.Infix

/-!
# Words behind nodes

A node of a kind with a word of its own was read from that word on, so the word is an identifier of the source
on the line of the node. Comments leave no tokens and strings are no identifiers: a word that is nowhere else
puts no node into the tree, and the presence of its kind is denied.
-/

namespace Exemplar.Code

variable {nodes : List Node} {tokens : List Token} {source word : String} {root : Node} {kind : Kind}

/-! ### The word of a node -/

/-- What is read from a word on starts on the line of that word. -/
theorem Kind.OpensWith.exists_mem {line : Nat} (h : kind.OpensWith tokens) (starts : Starts line tokens)
    (hword : kind.word? = some word) : ∃ token ∈ tokens, token.isWord word = true ∧ token.line = line := by
  cases tokens with
  | nil => exact absurd rfl starts.ne_nil
  | cons first rest =>
    rw [Kind.OpensWith, hword] at h
    exact ⟨first, List.mem_cons_self, h, Option.some.inj starts⟩

/-- Every node of a kind with a word has the word among the tokens, on its own line. -/
def Worded (tokens : List Token) (nodes : List Node) : Prop :=
  ∀ node ∈ Node.preorderAll nodes, ∀ word, node.kind.word? = some word →
    ∃ token ∈ tokens, token.isWord word = true ∧ token.line = node.line

namespace Worded

variable {more : List Token} {others : List Node} {node : Node}

theorem nil : Worded tokens [] :=
  nofun

theorem mono (h : Worded tokens nodes) (hmore : tokens ⊆ more) : Worded more nodes := by
  intro node hnode word hword
  obtain ⟨token, htoken, hparts⟩ := h node hnode word hword
  exact ⟨token, hmore htoken, hparts⟩

theorem append (h : Worded tokens nodes) (hothers : Worded tokens others) : Worded tokens (nodes ++ others) :=
  fun node hnode => (Node.mem_preorderAll_append.mp hnode).elim (h node) (hothers node)

theorem singleton (h : Worded tokens node.children) (hnode : ∀ word, node.kind.word? = some word →
    ∃ token ∈ tokens, token.isWord word = true ∧ token.line = node.line) : Worded tokens [node] := by
  intro other hother
  rcases Node.mem_preorderAll_cons.mp hother with rfl | hbelow | hnone
  · exact hnode
  · exact h other hbelow
  · cases hnone

/-- A kind without a word asks for nothing. -/
theorem of_wordless (h : Worded tokens node.children) (hnode : node.kind.word? = none) :
    Worded tokens [node] := by
  refine h.singleton fun word hword => ?_
  rw [hnode] at hword
  cases hword

/-- The nodes for fields have no word. -/
theorem lead (node : Node) : Worded tokens node.lead := by
  intro other hother word hword
  rw [Node.preorderAll_eq_flatMap] at hother
  obtain ⟨leaf, hleaf, hother⟩ := List.mem_flatMap.mp hother
  obtain ⟨declaration, -, rfl⟩ := Node.exists_of_mem_lead hleaf
  obtain rfl := List.mem_singleton.mp hother
  cases hword

end Worded

theorem Reading.worded (h : Reading tokens nodes) : Worded tokens nodes := by
  induction h with
  | nil | token | query | unseen => exact .nil
  | bracketed _ _ ih =>
    refine ih.mono fun token htoken => ?_
    simp [htoken]
  | append _ _ ihFront ihBack =>
    exact (ihFront.mono (List.subset_append_left _ _)).append (ihBack.mono (List.subset_append_right _ _))
  | node _ starts opens _ _ ih => exact ih.singleton fun _ hword => opens.exists_mem starts hword
  | @modified mods front tokens nodes hmods _ _ _ _ ihAnnotations ihBack =>
    have hmod := (ihAnnotations.mono (List.subset_append_left _ tokens)).of_wordless (by rw [hmods]; rfl)
    exact hmod.append (ihBack.mono (List.subset_append_right _ _))
  | @declared node mods front tokens nodes hmods _ _ _ hchildren _ starts opens _ ihAnnotations ihBack =>
    have hmod := (ihAnnotations.mono (List.subset_append_left _ tokens)).of_wordless (by rw [hmods]; rfl)
    have hbelow : Worded (front ++ tokens) node.children :=
      hchildren ▸ hmod.append (ihBack.mono (List.subset_append_right _ _))
    refine (Worded.lead node).append (hbelow.singleton fun word hword => ?_)
    -- The word stands behind the modifiers, where the declaration starts.
    obtain ⟨token, htoken, hparts⟩ := opens.exists_mem starts hword
    exact ⟨token, List.mem_append_right _ htoken, hparts⟩

/-- Each node of the tree of a source has its word among the tokens. -/
theorem worded_of_parsed (h : reader source = .parsed root) (htokens : tokenize source = .ok tokens) :
    Worded tokens [root] := by
  obtain ⟨others, nodes, hothers, rfl, entry, hyields⟩ := exists_of_parsed h
  obtain rfl := Except.ok.inj (htokens.symm.trans hothers)
  exact hyields.reading.worded.of_wordless rfl

/-! ### Presence -/

/-- Where a source has a tree, the tree decides about a kind with a word, classes aside. -/
theorem checkPresence_name_of_parsed (hword : kind.word? = some word) (hclass : kind ≠ .userClass)
    (root : Node) (source : String) : checkPresence kind.name source (.parsed root) =
      if root.containsKind kind.name then .present else .absent := by
  have himplicit : kind.name ≠ implicitType := by
    intro hname
    obtain rfl : kind = .standardCondition := Kind.name_injective hname
    cases hword
  have hnested : kind.name ≠ nestedClassType := fun hname => hclass (Kind.name_injective hname)
  simp [checkPresence, himplicit, hnested, Outcome.root?, Kind.ofName?_name]

namespace Token

variable {token : Token}

/-- A token in whose text a word is written, in any case and possibly inside of a longer word. -/
def Mentions (token : Token) (word : String) : Prop :=
  Text.lower word.toList <:+: Text.lower token.text.toList

theorem isWord_iff : token.isWord word = true ↔
    token.kind = .ident ∧ Text.lower token.text.toList = Text.lower word.toList := by
  simp [isWord, isIdent, Text.sameIgnoringCase]

end Token

/-- Each node of a tree whose kind has a word starts on the line of an identifier of the source that is the
word. The tokens are all pieces of the source but blanks and comments. Where none of them is the word, which may well
stand in comments, in strings and inside of longer words, a kind that has it is absent, unless it is that of classes. -/
theorem words_of_parsed (h : reader source = .parsed root) : ∃ tokens pieces,
    tokenize source = .ok tokens ∧ CutInto .start source.toList pieces ∧ tokens = tokensOf .start pieces ∧
    (∀ node ∈ root.preorder, ∀ word, node.kind.word? = some word →
      ∃ token ∈ tokens, token.isWord word = true ∧ token.line = node.line) ∧
    ∀ (kind : Kind) (word : String), kind.word? = some word → kind ≠ .userClass →
      (∀ token ∈ tokens, token.isWord word = false) →
      checkPresence kind.name source (reader source) = .absent := by
  obtain ⟨tokens, -, htokens, -⟩ := exists_of_parsed h
  obtain ⟨pieces, hcut, hpieces⟩ := exists_pieces_of_tokenize htokens
  have hworded (node : Node) (hnode : node ∈ root.preorder) (word : String)
      (hword : node.kind.word? = some word) :
      ∃ token ∈ tokens, token.isWord word = true ∧ token.line = node.line :=
    worded_of_parsed h htokens node (by rwa [Node.preorderAll_singleton]) word hword
  refine ⟨tokens, pieces, htokens, hcut, hpieces, hworded, fun kind word hword hclass hnone => ?_⟩
  rw [h, checkPresence_name_of_parsed hword hclass, if_neg]
  intro hcontains
  -- A node of the kind has its word among the tokens.
  obtain ⟨node, hnode, rfl⟩ := Node.containsKind_name_iff.mp hcontains
  obtain ⟨token, htoken, hsame, -⟩ := hworded node hnode word hword
  cases (hnone token htoken).symm.trans hsame

/-- A branch. Loops are only talked about, or stand in a longer word. -/
def talkingSource : String :=
  "// do\nif (domain == 'do') return;"

/-- The branch is on the line of its word, and there is no loop. -/
theorem words_of_talkingSource : ∃ root tokens, reader talkingSource = .parsed root ∧
    tokenize talkingSource = .ok tokens ∧
    (∃ node ∈ root.preorder, node.kind = .ifBlockStatement ∧ node.line = 2 ∧
      ∃ token ∈ tokens, token.isWord "if" = true ∧ token.line = node.line) ∧
    (∃ token ∈ tokens, token.kind = .ident ∧ token.Mentions "do") ∧
    (∀ token ∈ tokens, token.isWord "do" = false) ∧
    checkPresence Kind.doLoopStatement.name talkingSource (reader talkingSource) = .absent := by
  have hread : (reader talkingSource).root?.map (fun root =>
      root.walk.any fun node => node.kind == .ifBlockStatement && node.line == 2) = some true := by
    decide +kernel
  have hscan : ∀ tokens ∈ (tokenize talkingSource).toOption,
      (∃ token ∈ tokens, token.kind = .ident ∧ token.Mentions "do") ∧ ∀ token ∈ tokens, token.isWord "do" = false := by
    unfold Token.Mentions
    decide +kernel
  obtain ⟨root, hroot, hbranch⟩ := Option.map_eq_some_iff.mp hread
  have hparsed := Outcome.root?_eq_some_iff.mp hroot
  obtain ⟨tokens, pieces, htokens, -, -, hworded, habsent⟩ := words_of_parsed hparsed
  rw [Node.walk_eq, List.any_eq_true] at hbranch
  obtain ⟨node, hnode, htest⟩ := hbranch
  obtain ⟨hkind, hline⟩ := Bool.and_eq_true_iff.mp htest
  rw [beq_iff_eq] at hkind hline
  obtain ⟨hlonger, hnone⟩ := hscan tokens (by rw [htokens]; rfl)
  exact ⟨root, tokens, hparsed, htokens,
    ⟨node, hnode, hkind, hline, hworded node hnode "if" (by rw [hkind]; rfl)⟩, hlonger, hnone,
    habsent .doLoopStatement "do" rfl (by decide) hnone⟩

end Exemplar.Code
