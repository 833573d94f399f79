import Exemplar.Proofs.Code.Grammar.Height
import Exemplar.Proofs.Code.Parser
import Exemplar.Proofs.Code.Stretch
import Mathlib

/-!
# The height of the tree of a source

Constructs nest only so deep, and each of them adds only so many levels to its tree. So there is a number of levels that
no tree of a source has more of. There is none for the height: a chain is read in a loop, without a look at the
depth, and is as long as the source makes it. A tree is high only by its chains.
-/

namespace Exemplar.Code

open Parse Grammar

/-- More levels than this no tree of a source has. -/
def maxLevels : Nat := 15 * (maxDepth + 1) + 5

/-! ### Readers that succeed -/

/-- In front of `tokens` and inside of `depth` constructs, `p` succeeds with `value` and stops in front of `left`. -/
def Parse.Takes {α : Type} (depth : Nat) (p : Parse α) (tokens : List Token) (value : α) (left : List Token) : Prop :=
  ∀ cursor : Cursor, cursor.depth = depth → cursor.rest = tokens →
    ∃ stop, p cursor = (.ok value, stop) ∧ stop.depth = depth ∧ stop.rest = left

namespace Parse.Takes

variable {α β : Type} {depth : Nat} {tokens middle left : List Token} {token : Token} {value : α} {answer : β}
  {p : Parse α} {f : α → Parse β}

theorem of_run (h : ∀ pos hdepth lastLine, ∃ stop, p ⟨tokens, pos, depth, hdepth, lastLine⟩ =
      (.ok value, ⟨left, stop, depth, hdepth, lastLine⟩)) : Takes depth p tokens value left := by
  rintro ⟨_, pos, _, hdepth, lastLine⟩ rfl rfl
  obtain ⟨stop, hrun⟩ := h pos hdepth lastLine
  exact ⟨_, hrun, rfl, rfl⟩

theorem bind (hp : Takes depth p tokens value middle) (hf : Takes depth (f value) middle answer left) :
    Takes depth (p >>= f) tokens answer left := by
  intro cursor hdepth hrest
  obtain ⟨stop, hrun, hstop⟩ := hp cursor hdepth hrest
  rw [bind_apply, hrun]
  exact hf stop hstop.1 hstop.2

theorem line {f : Nat → Parse β} (h : Takes depth (f token.line) (token :: tokens) answer left) :
    Takes depth (Parse.line >>= f) (token :: tokens) answer left :=
  .bind (of_run fun pos _ _ => ⟨pos, rfl⟩) h

theorem nested (hdepth : depth < maxDepth) (h : Takes (depth + 1) p tokens value left) :
    Takes depth (Parse.nested p) tokens value left := by
  rintro cursor rfl hrest
  obtain ⟨stop, hrun, hstop, hleft⟩ := h (cursor.enter hdepth) rfl hrest
  have hnested : Parse.nested p cursor = ((p (cursor.enter hdepth)).1, (p (cursor.enter hdepth)).2.leave) :=
    dif_pos hdepth
  rw [hnested, hrun]
  exact ⟨_, rfl, congrArg Nat.pred hstop, hleft⟩

theorem collect {round : Parse (Round α)} {values : List α}
    (h : Takes depth (collectWithin round (tokens.length + 1)) tokens values left) :
    Takes depth (Parse.collect round) tokens values left := by
  rintro cursor hdepth rfl
  exact h cursor hdepth rfl

theorem grow {step : α → Parse (Option α)} {result : α}
    (h : Takes depth (growWithin step (tokens.length + 1) value) tokens result left) :
    Takes depth (Parse.grow step value) tokens result left := by
  rintro cursor hdepth rfl
  exact h cursor hdepth rfl

theorem pure (value : α) (tokens : List Token) : Takes depth (Pure.pure value) tokens value tokens :=
  .of_run fun pos _ _ => ⟨pos, rfl⟩

/-- One item, with nothing behind it. -/
theorem many_one {item? : Parse (Option α)} (hitem : Takes depth item? (token :: tokens) (some value) left)
    (hend : Takes depth item? left none left) : Takes depth (Parse.many item?) (token :: tokens) [value] left :=
  .collect <| .bind (.bind hitem (.pure _ _)) <| .bind (.bind (.bind hend (.pure _ _)) (.pure _ _)) (.pure _ _)

end Parse.Takes

/-! ### Chains of calls -/

/-- So many calls, each on what the one before it gives, and the end of the statement. -/
def callsText : Nat → List Char
  | 0 => [';']
  | count + 1 => '.' :: 'b' :: '(' :: ')' :: callsText count

/-- A statement that makes so many calls, one on what the other gives. -/
def callsSource (count : Nat) : String :=
  String.ofList ('a' :: callsText count)

/-- What so many calls are read as. -/
def callsNode : Nat → Node
  | 0 => .leaf .variableExpression 1
  | count + 1 => ⟨.methodCallExpression, 1, [callsNode count]⟩

def callsTree (count : Nat) : Node :=
  ⟨.apexFile, 1, [⟨.expressionStatement, 1, [callsNode count]⟩]⟩

theorem height_callsTree (count : Nat) : (callsTree count).height = count + 3 := by
  have hnode : (callsNode count).height = count + 1 := by
    induction count with
    | zero => rfl
    | succ count ih => rw [callsNode, Node.height, Node.heightAll, Node.heightAll, ih, Nat.max_zero]
  simp only [callsTree, Node.height, Node.heightAll, hnode, Nat.max_zero]

/-! #### Their tokens -/

def calledName (place : Position) : Token :=
  ⟨.ident, "a", place⟩

def statementEnd (place : Position) : Token :=
  ⟨.punct .semicolon, ";", place⟩

/-- The tokens of so many calls, up to the end of the statement. -/
inductive Calls (last : Position) : Nat → List Token → Prop
  | none : Calls last 0 [statementEnd last]
  | call {count : Nat} {tokens : List Token} {dot name opening closing : Position} (more : Calls last count tokens) :
      Calls last (count + 1) (⟨.punct .dot, ".", dot⟩ :: ⟨.ident, "b", name⟩ :: ⟨.punct .openParen, "(", opening⟩ ::
        ⟨.punct .closeParen, ")", closing⟩ :: tokens)

variable {count depth : Nat} {place last : Position} {tokens : List Token} {sub : Nested} {node : Node}

theorem Calls.lt_length (h : Calls last count tokens) : count < tokens.length := by
  induction h with
  | none => exact Nat.zero_lt_one
  | call _ ih =>
    simp only [List.length_cons]
    omega

/-- The scan passes over a token of one character. -/
theorem Scanned.cons {pos final : Position} {c : Char} {cs rest : List Char} {kind : TokenKind}
    (hpiece : pieceAt pos.line c cs = .ok ⟨some kind, [c]⟩) (more : Scanned (pos.advance c) cs tokens final rest) :
    Scanned pos (c :: cs) (⟨kind, String.ofList [c], pos⟩ :: tokens) final rest :=
  @Scanned.step pos final [c] cs rest _ _ (.token hpiece) more

theorem exists_scanned_callsText (count : Nat) : ∀ pos, ∃ tokens final last,
    Scanned pos (callsText count) tokens final [] ∧ Calls last count tokens := by
  induction count with
  | zero => exact fun pos => ⟨_, _, pos, .cons (by cbv) .refl, .none⟩
  | succ count ih =>
    intro pos
    obtain ⟨tokens, final, last, scanned, calls⟩ :=
      ih ((((pos.advance '.').advance 'b').advance '(').advance ')')
    exact ⟨_, final, last, .cons (by cbv) (.cons (by cbv) (.cons (by cbv) (.cons (by cbv) scanned))), .call calls⟩

theorem exists_tokenize_callsSource (count : Nat) : ∃ tokens last,
    tokenize (callsSource count) = .ok (calledName .start :: tokens) ∧ Calls last count tokens := by
  obtain ⟨tokens, final, last, scanned, calls⟩ := exists_scanned_callsText count (Position.start.advance 'a')
  have hname : pieceAt 1 'a' (callsText count) = .ok ⟨some .ident, ['a']⟩ := by
    cases count <;> cbv
  refine ⟨tokens, last, ?_, calls⟩
  rw [tokenize, callsSource, String.toList_ofList]
  exact tokensFrom_eq_ok_iff.mpr ⟨final, .cons hname scanned⟩

/-! #### How they are read -/

/-- Each round of the loop reads one call, and puts its node around what there was. -/
theorem takes_growWithin_calls (h : Calls last count tokens) : ∀ done steps, count < steps →
    Takes depth (growWithin (extendPostfix sub 1) steps (callsNode done)) tokens (callsNode (done + count))
      [statementEnd last] := by
  -- By induction on the calls that are left, whatever number of them the node has already.
  induction h with
  | none =>
    intro done steps hsteps
    obtain ⟨steps, rfl⟩ := Nat.exists_eq_add_one_of_ne_zero (Nat.ne_zero_of_lt hsteps)
    exact .of_run fun pos _ _ => ⟨pos, rfl⟩
  | @call count tokens dot name opening closing more ih =>
    intro done steps hsteps
    obtain ⟨steps, rfl⟩ := Nat.exists_eq_add_one_of_ne_zero (Nat.ne_zero_of_lt hsteps)
    have hround : Takes depth (extendPostfix sub 1 (callsNode done))
        (⟨.punct .dot, ".", dot⟩ :: ⟨.ident, "b", name⟩ :: ⟨.punct .openParen, "(", opening⟩ ::
          ⟨.punct .closeParen, ")", closing⟩ :: tokens) (some (callsNode (done + 1))) tokens :=
      .of_run fun pos _ _ => ⟨pos + 4, by cbv⟩
    rw [Nat.add_comm count, ← Nat.add_assoc]
    exact hround.bind (ih (done + 1) steps (Nat.lt_of_succ_lt_succ hsteps))

theorem takes_operand_calls (h : Calls last count tokens) (hline : place.line = 1) :
    Takes depth (operand sub) (calledName place :: tokens) (callsNode count) [statementEnd last] := by
  have hprimary : Takes depth (primary sub) (calledName place :: tokens) (callsNode 0) tokens := by
    rw [callsNode, ← hline]
    refine .of_run fun pos _ _ => ⟨pos + 1, ?_⟩
    cases h <;> cbv
  have hpostfixed : Takes depth (postfixed sub) (calledName place :: tokens) (callsNode count) [statementEnd last] := by
    refine .line (hprimary.bind (.grow ?_))
    rw [calledName, Token.line, hline, ← Nat.zero_add count]
    exact takes_growWithin_calls h 0 _ (Nat.lt_succ_of_lt h.lt_length)
  intro cursor hdepth hrest
  -- A name is neither a prefix operator nor the start of a cast.
  have hrun : operand sub cursor = postfixed sub cursor := by
    obtain ⟨_, pos, _, hle, lastLine⟩ := cursor
    subst hrest
    rfl
  rw [hrun]
  exact hpostfixed cursor hdepth hrest

/-- An operand in front of the end of its statement is the whole expression. -/
theorem takes_expression_of_operand
    (h : Takes depth (operand sub) (calledName place :: tokens) node [statementEnd last]) :
    Takes depth (expression sub) (calledName place :: tokens) node [statementEnd last] := by
  have hclimb : Takes depth (binary sub (operand sub) 0) (calledName place :: tokens) node [statementEnd last] :=
    .line (h.bind (.of_run fun pos _ _ => ⟨pos, rfl⟩))
  have hternary : Takes depth (ternary sub) (calledName place :: tokens) node [statementEnd last] :=
    .line (hclimb.bind (.of_run fun pos _ _ => ⟨pos, rfl⟩))
  exact .line (hternary.bind (.of_run fun pos _ _ => ⟨pos, rfl⟩))

theorem takes_statement_calls (h : Calls last count tokens) (hline : place.line = 1) (n : Nat) :
    Takes 1 (statement (.level (n + 2))) (calledName place :: tokens)
      (some ⟨.expressionStatement, 1, [callsNode count]⟩) [] := by
  have hexpression : Takes 1 (Nested.level (n + 2)).expression (calledName place :: tokens) (callsNode count)
      [statementEnd last] :=
    .nested (by decide) (takes_expression_of_operand (takes_operand_calls h hline))
  have hlocal : Takes 1 (localDeclaration? (.level (n + 2)) 1) (calledName place :: tokens) none
      (calledName place :: tokens) :=
    .of_run fun pos _ _ => ⟨pos, by cases h <;> cbv⟩
  have hplain : Takes 1 (plainStatement (.level (n + 2)) 1) (calledName place :: tokens)
      ⟨.expressionStatement, 1, [callsNode count]⟩ [] :=
    hlocal.bind (hexpression.bind (.of_run fun pos _ _ => ⟨pos + 1, rfl⟩))
  rintro ⟨_, pos, _, hle, lastLine⟩ rfl rfl
  -- Neither the name nor what follows it opens any other statement.
  have hrun : statement (.level (n + 2)) ⟨calledName place :: tokens, pos, 1, hle, lastLine⟩ =
      (plainStatement (.level (n + 2)) place.line >>= fun node => pure (some node))
        ⟨calledName place :: tokens, pos, 1, hle, lastLine⟩ := by
    cases h <;> cbv
  rw [hrun, hline]
  exact hplain.bind (.of_run fun pos _ _ => ⟨pos, rfl⟩) _ rfl rfl

theorem readAs_statements_calls (h : Calls last count tokens) (hline : place.line = 1) :
    readAs .statements (calledName place :: tokens) = .ok [⟨.expressionStatement, 1, [callsNode count]⟩] := by
  have hstatement : Takes 0 (Nested.level (maxDepth + 1)).statement (calledName place :: tokens)
      (some ⟨.expressionStatement, 1, [callsNode count]⟩) [] :=
    .nested (by decide) (takes_statement_calls h hline 198)
  have hitem : Takes 0 (Entry.statements.item (.level (maxDepth + 1))) (calledName place :: tokens)
      [⟨.expressionStatement, 1, [callsNode count]⟩] [] :=
    hstatement.bind (.pure _ _)
  have hread : Takes 0 (Entry.statements.read (.level (maxDepth + 1))) (calledName place :: tokens)
      [⟨.expressionStatement, 1, [callsNode count]⟩] [] :=
    .bind (.many_one (.bind (.of_run fun pos _ _ => ⟨pos, rfl⟩) (hitem.bind (.pure _ _)))
      (.of_run fun pos _ _ => ⟨pos, rfl⟩)) (.pure _ _)
  obtain ⟨stop, hrun, -⟩ := hread (.ofTokens (calledName place :: tokens)) rfl rfl
  exact congrArg Prod.fst hrun

theorem reader_callsSource (count : Nat) : reader (callsSource count) = .parsed (callsTree count) := by
  obtain ⟨tokens, last, htokens, calls⟩ := exists_tokenize_callsSource count
  have htypes : readAs .typeDeclarations (calledName .start :: tokens) =
      .error ⟨.expectedTypeDeclaration, some (calledName .start), 1, 0⟩ := by cbv
  rw [reader, parse, htokens]
  dsimp only
  rw [readTokens, htypes, readAs_statements_calls calls rfl]
  rfl

/-! ### The height of a tree -/

variable {source : String} {root : Node}

/-- The tree of a source has at most so many levels, so its height is at most as many times the length of its longest
chain. -/
theorem levels_and_height_of_parsed (h : reader source = .parsed root) : root.levels ≤ maxLevels ∧
    ∀ links, (∀ node ∈ root.preorder, node.chain ≤ links) → root.height ≤ maxLevels * links := by
  obtain ⟨tokens, nodes, -, rfl, entry, hread⟩ := exists_readAs_of_parsed h
  have hnodes : Within (15 * (maxDepth + 1) + 4) nodes := by
    rcases hrun : entry.run tokens with ⟨result, stop⟩
    rw [readAs, hrun] at hread
    obtain rfl : result = .ok nodes := hread
    exact entry.gives_read (Nested.within_level (maxDepth + 1)) hrun
  have hlevels : (Node.mk .apexFile 1 nodes).levels ≤ maxLevels := hnodes.levels_le
  exact ⟨hlevels, fun links hlinks => (Node.height_le hlinks).trans (Nat.mul_le_mul_right links hlevels)⟩

/-- Three calls make a chain of four nodes. -/
theorem levels_and_height_callsTree : reader (callsSource 3) = .parsed (callsTree 3) ∧
    (callsTree 3).levels ≤ maxLevels ∧ (∀ node ∈ (callsTree 3).preorder, node.chain ≤ 4) ∧
    (callsTree 3).height ≤ maxLevels * 4 := by
  have hparsed := reader_callsSource 3
  have hchain : ∀ node ∈ (callsTree 3).preorder, node.chain ≤ 4 := by decide +kernel
  obtain ⟨hlevels, hheight⟩ := levels_and_height_of_parsed hparsed
  exact ⟨hparsed, hlevels, hchain, hheight 4 hchain⟩

/-- No number is enough for the height of every tree: so many calls in a row need a greater one. -/
theorem height_unbounded : ¬ ∃ bound, ∀ source root, reader source = .parsed root → root.height ≤ bound := by
  rintro ⟨bound, hbound⟩
  have hheight := hbound _ _ (reader_callsSource bound)
  rw [height_callsTree] at hheight
  omega

end Exemplar.Code
