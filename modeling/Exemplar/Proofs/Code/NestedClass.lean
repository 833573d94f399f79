import Exemplar.Proofs.Code.Grammar.Type
import Exemplar.Proofs.Code.Search

/-!
# Nested classes in the text and in the tree

The search for nested classes does not use the tree, and knows less than the reader of the code: it takes any word
`class` without a dot in front for a declaration. It also forgets comments only where it looks for braces and
words, not where it looks back for a dot. Apart from such sources, it finds a class inside of another one exactly
where the tree has one.
-/

namespace Exemplar.Code

variable {source : String} {tokens : List Token} {root : Node}

/-- A source with its tokens and its tree in which the words `class` mean what the search takes them for. -/
structure PlainClasses (source : String) (tokens : List Token) (root : Node) : Prop where
  /-- The dots in front of the words are those of the code, not of a comment. -/
  seen : SeenAsRead source.toList tokens
  /-- The words that no dot is in front of are as many as the classes, so that they are theirs. -/
  words : ((dotted false tokens).countP fun (token, behindDot) => token.isWord "class" && !behindDot) =
    root.preorder.countP (·.kind == .userClass)
  queries : PlainQueries tokens

theorem classCount_root (h : root.kind ≠ .userClass) :
    classCount root.children = root.preorder.countP (·.kind == .userClass) := by
  have hroot := classCount_singleton root
  rw [if_neg h, Nat.zero_add, classCount, Node.preorderAll_singleton] at hroot
  exact hroot.symm

/-- The search finds a class inside of another one where the tree has a class below another one. -/
theorem hasNestedClass_iff (h : reader source = .parsed root) (htokens : tokenize source = .ok tokens)
    (hplain : PlainClasses source tokens root) : hasNestedClass source = true ↔
      ∃ outer ∈ root.preorder, outer.kind = .userClass ∧
        ∃ inner ∈ Node.preorderAll outer.children, inner.kind = .userClass := by
  obtain ⟨others, hothers, hencloses⟩ := encloses_of_parsed h
  obtain rfl := Except.ok.inj (htokens.symm.trans hothers)
  have hroot : root.kind = .apexFile := (parsed_follows_grammar h).1
  have hfile : root.kind ≠ .userClass := by rw [hroot]; decide
  -- The words that the search takes for declarations are as many as the classes of the tree.
  have hwords : (marksFrom false tokens).count .declares = classCount root.children := by
    rw [count_declares, classCount_root hfile, hplain.words]
  have hfound := hencloses.nests_append_iff hplain.queries hwords {} .start []
  rw [List.append_nil, ← hasNestedClass_eq_nests htokens hplain.seen] at hfound
  have hnone : ¬ Braces.nests {} [] = true := Bool.false_ne_true
  have hbodies : ¬ ({} : Braces).bodies ≠ [] := fun hne => hne rfl
  rw [hfound, or_iff_left hnone, Node.preorder_eq]
  constructor
  · rintro ⟨outer, houter, hkind, hinside⟩
    exact ⟨outer, List.mem_cons_of_mem _ houter, hkind, hinside.resolve_left hbodies⟩
  · rintro ⟨outer, houter, hkind, hinner⟩
    rcases List.mem_cons.mp houter with rfl | hbelow
    · exact absurd hkind hfile
    · exact ⟨outer, hbelow, hkind, .inr hinner⟩

/-- A source that talks about classes and refers to one. -/
def nestedSource : String :=
  "class A \x7b // class B \x7b\n  Type t = String.class; class C \x7b String s = 'class'; \x7d\n\x7d"

/-- What the text says about classes is passed over, and the class inside of the other one is found. -/
theorem hasNestedClass_nestedSource : ∃ root tokens, reader nestedSource = .parsed root ∧
    tokenize nestedSource = .ok tokens ∧ PlainClasses nestedSource tokens root ∧
    hasNestedClass nestedSource = true ∧
    (hasNestedClass nestedSource = true ↔ ∃ outer ∈ root.preorder, outer.kind = .userClass ∧
      ∃ inner ∈ Node.preorderAll outer.children, inner.kind = .userClass) := by
  have hread : (reader nestedSource).root?.map (fun root => root.walk.countP (·.kind == .userClass)) = some 2 := by
    decide +kernel
  have hscan : ∀ tokens ∈ (tokenize nestedSource).toOption,
      ((dotted false tokens).countP fun (token, behindDot) => token.isWord "class" && !behindDot) = 2 ∧
      (∀ pair ∈ dotted false tokens, pair.1.isWord "class" = true →
        seesDot nestedSource.toList pair.1.start.offset = pair.2) ∧
      (∀ token ∈ tokens, token.IsMixed → ¬ token.Mentions "class") ∧
      ∀ token ∈ tokens, token.isSymbol .openBracket = false := by
    unfold Token.IsMixed Token.Mentions
    decide +kernel
  have hnested : hasNestedClass nestedSource = true := by decide +kernel
  obtain ⟨root, hroot, hcount⟩ := Option.map_eq_some_iff.mp hread
  have hparsed := Outcome.root?_eq_some_iff.mp hroot
  obtain ⟨tokens, htokens, -⟩ := encloses_of_parsed hparsed
  obtain ⟨hwords, hdots, hmixed, hbrackets⟩ := hscan tokens (by rw [htokens]; rfl)
  rw [Node.walk_eq] at hcount
  have hplain : PlainClasses nestedSource tokens root :=
    ⟨⟨hdots, hmixed⟩, hwords.trans hcount.symm, .of_none hbrackets⟩
  exact ⟨root, tokens, hparsed, htokens, hplain, hnested, hasNestedClass_iff hparsed htokens hplain⟩

/-- A class inside of another one, behind a comment that ends like a sentence. -/
def sentenceSource : String :=
  "class A \x7b\n    // Inner.\n    class B \x7b \x7d\n\x7d"

/-- The dot of the comment hides the class from the search. -/
theorem hasNestedClass_sentenceSource : hasNestedClass sentenceSource = false ∧
    ∃ root, reader sentenceSource = .parsed root ∧ ∃ outer ∈ root.preorder, outer.kind = .userClass ∧
      ∃ inner ∈ Node.preorderAll outer.children, inner.kind = .userClass := by
  have hread : (reader sentenceSource).root?.map (fun root => root.walk.any fun outer =>
      outer.kind == .userClass && outer.children.any fun inner => inner.kind == .userClass) = some true := by
    decide +kernel
  refine ⟨by decide +kernel, ?_⟩
  obtain ⟨root, hroot, hany⟩ := Option.map_eq_some_iff.mp hread
  rw [Node.walk_eq, List.any_eq_true] at hany
  obtain ⟨outer, houter, htest⟩ := hany
  obtain ⟨hkind, hinner⟩ := Bool.and_eq_true_iff.mp htest
  obtain ⟨inner, hchild, hclass⟩ := List.any_eq_true.mp hinner
  exact ⟨root, Outcome.root?_eq_some_iff.mp hroot, outer, houter, eq_of_beq hkind, inner,
    Node.mem_preorderAll_of_mem hchild, eq_of_beq hclass⟩

end Exemplar.Code
