import Exemplar.Proofs.Code.Parser

/-!
# Progress

Whatever the tokens are, the reading of a source ends because it comes to an end: no loop runs into its bound,
no token is passed that is not there, and no bracket of a query is closed that was not opened. Each construct
leaves the cursor in the tokens and inside of as many constructs as it was called in, and behind at least one
more token if it succeeds. What is only tried leaves the cursor where it was.
-/

namespace Exemplar.Code

open Parse

/-- A cursor in front of what is left of some tokens. -/
structure Cursor.StandsIn (tokens : List Token) (cursor : Cursor) : Prop where
  pos_le : cursor.pos ≤ tokens.length
  rest : cursor.rest = tokens.drop cursor.pos

variable {α : Type} {tokens read : List Token} {start stop cursor : Cursor} {p : Parse α}
  {post : α → List Token → List Token → Prop} {sub : Nested}

theorem Cursor.StandsIn.ofTokens (tokens : List Token) : (Cursor.ofTokens tokens).StandsIn tokens :=
  ⟨Nat.zero_le _, rfl⟩

theorem Cursor.StandsIn.reads (h : start.StandsIn tokens) (reads : start.Reads read stop) :
    stop.StandsIn tokens := by
  have hsplit : tokens.drop start.pos = read ++ stop.rest := h.rest ▸ reads.rest
  have hlength := congrArg List.length hsplit
  rw [List.length_drop, List.length_append] at hlength
  have hpos := h.pos_le
  refine ⟨by rw [reads.pos]; omega, ?_⟩
  rw [reads.pos, ← List.drop_drop, hsplit, List.drop_left]

/-- A run from a cursor in some tokens that ended in the tokens and inside of as many constructs, whether it
succeeded or not, and was not at fault. -/
structure Parse.Keeps (tokens : List Token) (cursor : Cursor) (result : Except SyntaxError α × Cursor) :
    Prop where
  standsIn : result.2.StandsIn tokens
  depth : result.2.depth = cursor.depth
  isFault : ∀ e, result.1 = .error e → e.complaint.isFault = false

theorem Parse.Ends.keeps {result : Except SyntaxError α × Cursor} (h : Ends cursor post result)
    (hstands : cursor.StandsIn tokens) : Keeps tokens cursor result := by
  rcases result with ⟨e | value, stop⟩
  · obtain ⟨⟨read, reads⟩, hfault⟩ := h
    refine ⟨hstands.reads reads, reads.depth, ?_⟩
    rintro _ ⟨⟩
    exact hfault
  · obtain ⟨read, reads, -⟩ := h
    exact ⟨hstands.reads reads, reads.depth, by rintro _ ⟨⟩⟩

/-- A reader that keeps to the tokens, and reads at least one of them if it succeeds. -/
structure Parse.Advances (p : Parse α) (tokens : List Token) (cursor : Cursor) : Prop extends
    Parse.Keeps tokens cursor (p cursor) where
  pos_lt : ∀ value, (p cursor).1 = .ok value → cursor.pos < (p cursor).2.pos

theorem Parse.Meets.advances (h : Meets cursor.depth p cursor.rest post)
    (hread : ∀ value read left, post value read left → read ≠ []) (hstands : cursor.StandsIn tokens) :
    p.Advances tokens cursor := by
  have hends := h cursor rfl rfl
  refine ⟨hends.keeps hstands, fun value hvalue => ?_⟩
  rcases hresult : p cursor with ⟨e | found, stop⟩ <;> rw [hresult] at hends hvalue
  · cases hvalue
  · obtain ⟨read, reads, hpost⟩ := hends
    have hpositive := List.length_pos_iff.mpr (hread found read _ hpost)
    rw [reads.pos]
    omega

/-- What the readers of all constructs do from a cursor in some tokens. -/
structure Nested.KeepsCursor (sub : Nested) (tokens : List Token) (cursor : Cursor) : Prop where
  typeDeclaration : (Grammar.typeDeclaration sub).Advances tokens cursor
  member : sub.member.Advances tokens cursor
  statement : sub.statement.Advances tokens cursor
  block : (Grammar.block sub).Advances tokens cursor
  expression : sub.expression.Advances tokens cursor
  operand : sub.operand.Advances tokens cursor
  typeRef : sub.typeRef.Advances tokens cursor
  /-- A declaration that is none has read nothing. -/
  localDeclaration? : ∀ line after, Grammar.localDeclaration? sub line cursor = (.ok none, after) →
    after = cursor
  /-- The search for the end of a cast comes back. -/
  castEnd? : ∃ place?, Grammar.castEnd? sub cursor = (.ok place?, cursor)
  /-- A type with a name behind it is read only if what follows the name fits. -/
  typeThenName : ∀ test, ∃ hit after, Grammar.typeThenName sub test cursor = (.ok hit, after) ∧
    (hit = false → after = cursor)

theorem Nested.Sound.keepsCursor (sound : sub.Sound cursor.depth) (h : cursor.StandsIn tokens) :
    sub.KeepsCursor tokens cursor where
  typeDeclaration := (Grammar.meets_typeDeclaration sound).advances (fun _ _ _ h => h.ne_nil) h
  member := (sound.member _).advances (fun _ _ _ h => h.1) h
  statement := (sound.statement _).advances (fun _ _ _ h => h.1) h
  block := (Grammar.meets_block sound).advances (fun _ _ _ h => h.ne_nil) h
  expression := (sound.expression _).advances (fun _ _ _ h => h.ne_nil) h
  operand := (sound.operand _).advances (fun _ _ _ h => h.ne_nil) h
  typeRef := (sound.typeRef _).advances (fun _ _ _ h => h.1) h
  localDeclaration? line after hnone := by
    obtain ⟨hit, place, hspeculate, hback⟩ :=
      exists_speculate ((Grammar.meets_localType sound).mono fun _ _ _ _ _ => trivial)
    rw [Grammar.localDeclaration?, bind_apply, hspeculate] at hnone
    cases hit with
    | false =>
      cases hnone
      exact hback rfl
    | true =>
      -- Behind a type and a name the declaration is read or fails, and there is a node if it is read.
      dsimp only at hnone
      rw [if_pos rfl, bind_apply] at hnone
      rcases hnames : separated (Grammar.declaredName sub) place with ⟨e | names, stop⟩ <;>
        rw [hnames] at hnone <;> cases hnone
  castEnd? := exists_foresee? ((Grammar.meets_castType sound).mono fun _ _ _ _ _ => trivial)
  typeThenName test :=
    exists_speculate ((Grammar.meets_typeAhead sound test).mono fun _ _ _ _ _ => trivial)

/-- A source that could be read was read to its end. -/
theorem pos_of_run {entry : Entry} {nodes : List Node} (h : (entry.run tokens).1 = .ok nodes) :
    (entry.run tokens).2.pos = tokens.length := by
  have hends := entry.ends_run tokens
  rcases hrun : entry.run tokens with ⟨e | found, after⟩ <;> rw [hrun] at hends h
  · cases h
  · obtain ⟨read, reads, -, hleft⟩ := hends
    have hrest : tokens = read ++ after.rest := reads.rest
    rw [reads.pos, hrest, hleft, List.append_nil]
    exact Nat.zero_add _

/-- At the deepest place no further construct is entered. -/
theorem nested_of_depth_eq (p : Parse α) (h : cursor.depth = maxDepth) :
    nested p cursor = complain .nestedTooDeeply cursor :=
  dif_neg (by omega)

/-- Reading a source ends for all tokens, and the cursor stays sound on the way: there are levels enough for
every cursor, each construct keeps to the tokens and to its depth, and the depth has a limit. -/
theorem reading_ends (tokens : List Token) :
    (∀ entry : Entry, Keeps tokens (.ofTokens tokens) (entry.run tokens) ∧
      ∀ nodes, (entry.run tokens).1 = .ok nodes → (entry.run tokens).2.pos = tokens.length) ∧
    (∀ (levels : Nat) (cursor : Cursor), cursor.StandsIn tokens → maxDepth < cursor.depth + levels →
      (Nested.level levels).KeepsCursor tokens cursor) ∧
    (∀ cursor : Cursor, cursor.depth ≤ maxDepth) ∧
    ∀ (p : Parse α) (cursor : Cursor), cursor.depth = maxDepth →
      nested p cursor = complain .nestedTooDeeply cursor :=
  ⟨fun entry => ⟨(entry.ends_run tokens).keeps (.ofTokens tokens), fun _ => pos_of_run⟩,
    fun levels cursor hstands hlevels =>
      (Nested.sound_level levels cursor.depth cursor.depth_le hlevels).keepsCursor hstands,
    Cursor.depth_le, fun p _ => nested_of_depth_eq p⟩

/-- A semicolon and a statement. -/
def shortTokens : List Token :=
  [⟨.punct .semicolon, ";", .start⟩, ⟨.ident, "a", .start⟩, ⟨.punct .semicolon, ";", .start⟩]

/-- Behind the first token, and inside of all constructs but one. -/
def lateCursor : Cursor :=
  ⟨shortTokens.drop 1, 1, 199, by decide, 1⟩

/-- The statement may nest there, but not the expression in it. -/
theorem keepsCursor_lateCursor : lateCursor.StandsIn shortTokens ∧ maxDepth < lateCursor.depth + 2 ∧
    (Nested.level 2).KeepsCursor shortTokens lateCursor ∧
    ((Nested.level 2).statement lateCursor).1 = .error ⟨.nestedTooDeeply, shortTokens[1]?, 1, 1⟩ ∧
    nested (pure ()) { lateCursor with depth := 200, depth_le := by decide } =
      complain .nestedTooDeeply { lateCursor with depth := 200, depth_le := by decide } := by
  have hstands : lateCursor.StandsIn shortTokens := ⟨by decide, rfl⟩
  refine ⟨hstands, by decide, ?_, ?_, ?_⟩
  · exact (@reading_ends Unit shortTokens).2.1 2 lateCursor hstands (by decide)
  · rfl
  · exact (reading_ends shortTokens).2.2.2 _ _ rfl

end Exemplar.Code
