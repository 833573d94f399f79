import Exemplar.Code.Parser
import Exemplar.Proofs.Code.Grammar.Declaration

/-!
# The reading of a source

The circle of nested constructs is closed by induction on the levels: a level that is sound one construct
deeper makes one more level, and no construct is asked below the last level, since as many may not nest.
-/

namespace Exemplar.Code

open Parse

variable {depth : Nat} {sub : Nested} {tokens : List Token}

/-! ### Levels -/

theorem Nested.Sound.around (h : depth < maxDepth → sub.Sound (depth + 1)) : sub.around.Sound depth where
  statement _ := meets_nested fun hdepth => Grammar.meets_statement (h hdepth)
  member _ := meets_nested fun hdepth => Grammar.meets_member (h hdepth)
  expression _ := meets_nested fun hdepth => Grammar.meets_expression (h hdepth)
  operand _ := meets_nested fun hdepth => Grammar.meets_operand (h hdepth)
  typeRef _ := meets_nested fun hdepth => Grammar.meets_typeRef (h hdepth)

theorem Nested.sound_level (levels : Nat) : ∀ depth, depth ≤ maxDepth → maxDepth < depth + levels →
    (Nested.level levels).Sound depth := by
  induction levels with
  -- No levels are left only if the constructs around are more than may nest.
  | zero => exact fun depth hdepth hlevels => absurd hlevels (Nat.not_lt.mpr hdepth)
  | succ levels ih =>
    exact fun depth _ hlevels => .around fun hdepth => ih (depth + 1) hdepth (by omega)

/-! ### Entries -/

namespace Entry

/-- The kinds of nodes that a source is read as. -/
def kinds : Entry → List Kind
  | typeDeclarations => .userTrigger :: Kind.types
  | statements => Kind.statements
  | members => Kind.members

theorem meets_item (sound : sub.Sound depth) (entry : Entry) : Meets depth (entry.item sub) tokens
    fun nodes read _ => read ≠ [] ∧ Yields (.many entry.kinds) nodes read := by
  cases entry with
  | typeDeclarations =>
    refine .ifEat ?_ (.map ((Grammar.meets_typeDeclaration sound).mono ?_))
    · rintro semicolon rest rfl hsemicolon
      exact .pure ⟨by simp, .silent (.ofSymbol hsemicolon rfl)⟩
    · exact fun _ _ _ _ h => ⟨h.ne_nil, h.many (List.Subset.refl _)⟩
  | statements =>
    exact .map ((sound.statement _).mono fun _ _ _ _ h => ⟨h.1, h.2.many (List.Subset.refl _)⟩)
  | members => exact sound.member _

/-- A source is read to its end. -/
theorem meets_read (sound : sub.Sound depth) (entry : Entry) : Meets depth (entry.read sub) tokens
    fun nodes read left => Yields (.many entry.kinds) nodes read ∧ left = [] := by
  refine .map ((meets_manyUpTo entry.kinds id (· = []) fun tokens => .bind meets_atEnd ?_).mono ?_)
  · rintro _ _ tokens rfl ⟨rfl, -, rfl⟩
    split
    case isTrue hend => exact .pure ⟨.nil, List.isEmpty_iff.mp hend⟩
    case isFalse => exact .map (meets_item sound entry)
  · intro items _ _ _ h
    rwa [List.flatMap_id] at h

theorem ends_run (entry : Entry) (tokens : List Token) : Ends (.ofTokens tokens)
    (fun nodes read left => Yields (.many entry.kinds) nodes read ∧ left = []) (entry.run tokens) :=
  meets_read (Nested.sound_level _ 0 (Nat.zero_le _) (by omega)) entry _ rfl rfl

end Entry

/-- A reading that succeeds has done what the reader does, with some of the tokens. -/
theorem exists_of_readAs {entry : Entry} {nodes : List Node}
    {post : List Node → List Token → List Token → Prop}
    (hmeets : Meets 0 (entry.read (.level (maxDepth + 1))) tokens post) (h : readAs entry tokens = .ok nodes) :
    ∃ read left, tokens = read ++ left ∧ post nodes read left := by
  have hends := hmeets (.ofTokens tokens) rfl rfl
  revert hends
  unfold readAs Entry.run at h
  rcases hrun : entry.read (.level (maxDepth + 1)) (.ofTokens tokens) with ⟨result, stop⟩
  rw [hrun] at h
  obtain rfl : result = .ok nodes := h
  rintro ⟨read, reads, hpost⟩
  exact ⟨read, stop.rest, reads.rest, hpost⟩

theorem yields_of_readAs {entry : Entry} {nodes : List Node} (h : readAs entry tokens = .ok nodes) :
    Yields (.many entry.kinds) nodes tokens := by
  have sound : (Nested.level (maxDepth + 1)).Sound 0 := Nested.sound_level _ 0 (Nat.zero_le _) (by omega)
  obtain ⟨read, left, rfl, hyields, rfl⟩ := exists_of_readAs (entry.meets_read sound) h
  rwa [List.append_nil]

theorem exists_readAs_of_readTokens {nodes : List Node} (h : readTokens tokens = .ok nodes) :
    ∃ entry, readAs entry tokens = .ok nodes := by
  unfold readTokens at h
  split at h
  case h_1 found hfound =>
    cases h
    exact ⟨_, hfound⟩
  case h_2 =>
    split at h
    case h_1 found hfound =>
      cases h
      exact ⟨_, hfound⟩
    case h_2 =>
      split at h
      case h_1 found hfound =>
        cases h
        exact ⟨_, hfound⟩
      case h_2 => cases h

/-- The reading that made the tree of a source. -/
theorem exists_readAs_of_parsed {source : String} {root : Node} (h : reader source = .parsed root) :
    ∃ tokens nodes, tokenize source = .ok tokens ∧ root = ⟨.apexFile, 1, nodes⟩ ∧
      ∃ entry, readAs entry tokens = .ok nodes := by
  unfold reader at h
  split at h
  case h_2 => cases h
  case h_1 found hparse =>
    cases h
    unfold parse at hparse
    split at hparse
    case h_1 => cases hparse
    case h_2 => cases hparse
    case h_3 tokens _ htokens =>
      split at hparse
      case h_1 => cases hparse
      case h_2 nodes hnodes =>
        cases hparse
        exact ⟨tokens, nodes, htokens, rfl, exists_readAs_of_readTokens hnodes⟩

/-- What a source with a tree was read from. -/
theorem exists_of_parsed {source : String} {root : Node} (h : reader source = .parsed root) :
    ∃ tokens nodes, tokenize source = .ok tokens ∧ root = ⟨.apexFile, 1, nodes⟩ ∧
      ∃ entry : Entry, Yields (.many entry.kinds) nodes tokens := by
  obtain ⟨tokens, nodes, htokens, hroot, entry, hread⟩ := exists_readAs_of_parsed h
  exact ⟨tokens, nodes, htokens, hroot, entry, yields_of_readAs hread⟩

end Exemplar.Code
