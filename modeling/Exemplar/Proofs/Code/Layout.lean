import Exemplar.Proofs.Code.Stretch
import Exemplar.Proofs.Text.Place

/-!
# What a source is made of

The tokens of a source stand in it one behind the other, each where its place says and with the text that its
place holds. What is left of the source around them are blanks and comments. A source without tokens is made of
the same things up to the place of its fault.
-/

namespace Exemplar.Code

open Text (byteSize byteSize_append)

variable {pos final : Position} {cs text before after gap rest : List Char} {token : Token}
  {tokens others : List Token}

/-! ### Places -/

/-- A place is the one behind a text: its line is one more than the newlines of the text, and its column is what
the text has behind the last of them. -/
structure Position.EndOf (pos : Position) (cs : List Char) : Prop where
  offset : pos.offset = byteSize cs
  line : pos.line = 1 + cs.count '\n'
  column : ∃ upper row, cs = upper ++ row ∧ (upper = [] ∨ upper.getLast? = some '\n') ∧ '\n' ∉ row ∧
    pos.column = byteSize row

theorem Position.endOf_advanceOver (cs : List Char) : (start.advanceOver cs).EndOf cs := by
  -- From the end: another character begins a new row, or it makes the last one longer.
  induction cs using List.reverseRecOn with
  | nil => exact ⟨rfl, rfl, [], [], rfl, .inl rfl, List.not_mem_nil, rfl⟩
  | append_singleton cs c ih =>
    obtain ⟨hoffset, hline, upper, row, hsplit, hupper, hrow, hcolumn⟩ := ih
    have hstep : start.advanceOver (cs ++ [c]) = (start.advanceOver cs).advance c := by
      rw [advanceOver_append]
      rfl
    have hoffset' : ((start.advanceOver cs).advance c).offset = byteSize (cs ++ [c]) := by
      rw [byteSize_append, ← hoffset, advance]
      split <;> rfl
    have hline' : ((start.advanceOver cs).advance c).line = 1 + (cs ++ [c]).count '\n' := by
      rw [line_advance, hline, List.count_append, Nat.add_assoc]
    rw [hstep]
    by_cases hc : c = '\n'
    · subst hc
      exact ⟨hoffset', hline', cs ++ ['\n'], [], by simp, .inr (by simp), List.not_mem_nil, rfl⟩
    · refine ⟨hoffset', hline', upper, row ++ [c], by rw [hsplit, List.append_assoc], hupper, ?_, ?_⟩
      · simpa [hrow] using Ne.symm hc
      · rw [byteSize_append, ← hcolumn, advance, if_neg hc]
        rfl

/-! ### Stretches without tokens -/

/-- Blanks, comments to the ends of their lines and block comments, in front of what follows them. -/
inductive Silent (after : List Char) : List Char → Prop
  | nil : Silent after []
  | blank {c : Char} {cs : List Char} (hc : c ∈ [' ', '\t', '\r', '\n', '\x0c']) (more : Silent after cs) :
      Silent after (c :: cs)
  | lineComment {body cs : List Char} (hbody : '\n' ∉ body) (hend : ∀ c ∈ (cs ++ after).head?, c = '\n')
      (more : Silent after cs) : Silent after ('/' :: '/' :: (body ++ cs))
  | blockComment {body cs : List Char} (hfirst : ¬ ['*', '/'] <:+: body ++ ['*']) (more : Silent after cs) :
      Silent after ('/' :: '*' :: (body ++ '*' :: '/' :: cs))

theorem Stretch.silent_append (h : Stretch pos text (gap ++ after) []) (more : Silent after gap) :
    Silent after (text ++ gap) := by
  cases h with
  | separator hc => exact .blank (mem_of_isSeparator hc) more
  | lineComment hbody hend => exact .lineComment hbody hend more
  | blockComment hfirst =>
    rw [List.cons_append, List.cons_append, List.append_assoc]
    exact .blockComment hfirst more

/-! ### Tokens and what is around them -/

/-- A text behind `before` and in front of `after`, as tokens with stretches around them that leave none. -/
inductive Woven (after : List Char) : (before cs : List Char) → List Token → Prop
  | last {before gap : List Char} (silent : Silent after gap) : Woven after before gap []
  | token {before gap cs : List Char} {token : Token} {tokens : List Token}
      (silent : Silent (token.text.toList ++ cs ++ after) gap) (notEmpty : token.text.toList ≠ [])
      (place : token.start.EndOf (before ++ gap))
      (more : Woven after (before ++ gap ++ token.text.toList) cs tokens) :
      Woven after before (gap ++ token.text.toList ++ cs) (token :: tokens)

/-- A stretch that leaves no token is a part of what stands in front of the first one. -/
theorem Woven.skip (h : Woven after (before ++ text) cs tokens) (stretch : Stretch pos text (cs ++ after) []) :
    Woven after before (text ++ cs) tokens := by
  cases h with
  | last silent => exact .last (stretch.silent_append silent)
  | @token _ gap cs token tokens silent notEmpty place more =>
    simp only [List.append_assoc] at stretch silent place more
    have hsilent := stretch.silent_append silent
    have woven : Woven after before ((text ++ gap) ++ token.text.toList ++ cs) (token :: tokens) :=
      .token (by simpa only [List.append_assoc] using hsilent) notEmpty place
        (by simpa only [List.append_assoc] using more)
    simpa only [List.append_assoc] using woven

/-- A token at its place comes before what stands behind its text. -/
theorem Woven.cons (h : Woven after (before ++ text) cs tokens) (notEmpty : text ≠ []) (kind : TokenKind) :
    Woven after before (text ++ cs)
      (⟨kind, String.ofList text, Position.start.advanceOver before⟩ :: tokens) := by
  have htext : (String.ofList text).toList = text := String.toList_ofList
  have woven : Woven after before ([] ++ (String.ofList text).toList ++ cs)
      (⟨kind, String.ofList text, Position.start.advanceOver before⟩ :: tokens) := by
    refine @token after before [] cs ⟨kind, String.ofList text, _⟩ tokens .nil ?_ ?_ ?_
    · rwa [htext]
    · rw [List.append_nil]
      exact Position.endOf_advanceOver before
    · rwa [List.append_nil, htext]
  rwa [htext] at woven

/-- What the scan passes over is made of its tokens and of stretches around them. -/
theorem Scanned.exists_woven (h : Scanned pos cs tokens final rest) :
    ∀ before, pos = Position.start.advanceOver before → ∃ text, cs = text ++ rest ∧
      final = Position.start.advanceOver (before ++ text) ∧ Woven rest before text tokens := by
  induction h with
  | @refl pos rest =>
    rintro before rfl
    exact ⟨[], rfl, by rw [List.append_nil], .last .nil⟩
  | @step pos _ text after rest tokens others first _ ih =>
    rintro before rfl
    rw [← Position.advanceOver_append] at ih
    obtain ⟨more, rfl, rfl, woven⟩ := ih (before ++ text) rfl
    refine ⟨text ++ more, (List.append_assoc ..).symm, by rw [List.append_assoc], ?_⟩
    rcases first.eq_nil_or with rfl | ⟨kind, rfl⟩
    · exact woven.skip first
    · exact woven.cons first.ne_nil kind

/-! ### Tokens by their places -/

/-- The ends of the stretches around tokens, from `first` on to `last`. -/
def gapsFrom (first : Nat) : (tokens : List Token) → (last : Nat) → List (Nat × Nat)
  | [], last => [(first, last)]
  | token :: tokens, last => (first, token.start.offset) :: gapsFrom token.stop tokens last

/-- How a text, in front of what follows it, is made of tokens and of what is around them. -/
structure MadeOf (cs : List Char) (tokens : List Token) (after : List Char) : Prop where
  /-- Tokens stand one behind the other. -/
  inOrder : tokens.Pairwise fun first later => first.stop ≤ later.start.offset
  /-- A token is not empty, and its text is what stands at its place. -/
  texts : ∀ token ∈ tokens, token.start.offset < token.stop ∧
    Text.slice? cs token.start.offset token.stop = some token.text.toList
  /-- The line and the column of a token are those of the place behind what stands before it. -/
  places : ∀ token ∈ tokens, ∃ before, before <+: cs ∧ token.start.EndOf before
  /-- What stands before the first token, between two tokens and behind the last one leaves none. -/
  silent : ∀ ends ∈ gapsFrom 0 tokens (byteSize cs), ∃ before gap back, cs = before ++ gap ++ back ∧
    byteSize before = ends.1 ∧ byteSize before + byteSize gap = ends.2 ∧ Silent (back ++ after) gap

namespace Woven

/-- Each token stands somewhere behind `before`. -/
theorem exists_place (h : Woven after before cs tokens) : ∀ token ∈ tokens, ∃ front back,
    cs = front ++ token.text.toList ++ back ∧ token.text.toList ≠ [] ∧
      token.start.EndOf (before ++ front) := by
  induction h with
  | last => exact fun _ hnone => absurd hnone List.not_mem_nil
  | @token before gap cs first tokens _ notEmpty place _ ih =>
    intro token htoken
    rcases List.mem_cons.mp htoken with rfl | hlater
    · exact ⟨gap, cs, rfl, notEmpty, place⟩
    · obtain ⟨front, back, rfl, hne, hplace⟩ := ih token hlater
      refine ⟨gap ++ first.text.toList ++ front, back, by simp only [List.append_assoc], hne, ?_⟩
      simpa only [List.append_assoc] using hplace

theorem pairwise (h : Woven after before cs tokens) :
    tokens.Pairwise fun first later => first.stop ≤ later.start.offset := by
  induction h with
  | last => exact .nil
  | @token before gap cs first tokens _ _ place more ih =>
    refine .cons (fun later hlater => ?_) ih
    obtain ⟨front, back, -, -, hplace⟩ := more.exists_place later hlater
    rw [Token.stop, place.offset, hplace.offset]
    simp only [byteSize_append]
    omega

theorem exists_silent (h : Woven after before cs tokens) :
    ∀ ends ∈ gapsFrom (byteSize before) tokens (byteSize (before ++ cs)), ∃ front gap back,
      before ++ cs = front ++ gap ++ back ∧ byteSize front = ends.1 ∧
        byteSize front + byteSize gap = ends.2 ∧ Silent (back ++ after) gap := by
  induction h with
  | @last before gap silent =>
    intro ends hends
    obtain rfl := List.mem_singleton.mp hends
    exact ⟨before, gap, [], by simp, rfl, (byteSize_append ..).symm, silent⟩
  | @token before gap cs token tokens silent _ place _ ih =>
    intro ends hends
    have hstop : token.stop = byteSize (before ++ gap ++ token.text.toList) := by
      rw [Token.stop, place.offset, byteSize_append (before ++ gap)]
    rw [gapsFrom, List.mem_cons, hstop] at hends
    rcases hends with rfl | hlater
    · refine ⟨before, gap, token.text.toList ++ cs, by simp only [List.append_assoc], rfl, ?_, silent⟩
      rw [place.offset, byteSize_append]
    · rw [← List.append_assoc, ← List.append_assoc] at hlater ⊢
      exact ih ends hlater

theorem madeOf (h : Woven after [] cs tokens) : MadeOf cs tokens after where
  inOrder := h.pairwise
  texts token htoken := by
    obtain ⟨front, back, hsplit, hne, hplace⟩ := h.exists_place token htoken
    obtain ⟨c, tail, htext⟩ := List.exists_cons_of_ne_nil hne
    have hpositive := c.utf8Size_pos
    refine ⟨?_, Text.slice?_eq_some_iff.mpr ⟨front, back, hsplit, hplace.offset.symm, ?_⟩⟩
    · rw [Token.stop, htext, Text.byteSize_cons]
      omega
    · rw [Token.stop, hplace.offset]
      rfl
  places token htoken := by
    obtain ⟨front, back, rfl, -, hplace⟩ := h.exists_place token htoken
    exact ⟨front, ⟨token.text.toList ++ back, (List.append_assoc ..).symm⟩, hplace⟩
  silent := h.exists_silent

end Woven

/-- Nothing of a source is lost between its tokens, and each one is where it says. A source that has no tokens is
made in the same way of what stands before the place of its fault, on the line that is reported. -/
theorem tokenize_madeOf (source : String) :
    (∀ tokens, tokenize source = .ok tokens → MadeOf source.toList tokens []) ∧
    ∀ e, tokenize source = .error e → ∃ before tokens rest, source.toList = before ++ rest ∧
      MadeOf before tokens rest ∧ e.line = 1 + before.count '\n' ∧ e.ArisesAt rest := by
  constructor
  · intro tokens h
    obtain ⟨final, scanned⟩ := tokensFrom_eq_ok_iff.mp h
    obtain ⟨text, hsource, -, woven⟩ := scanned.exists_woven [] rfl
    rw [hsource, List.append_nil]
    exact woven.madeOf
  · intro e h
    obtain ⟨tokens, final, rest, scanned, hline, arises⟩ := exists_scanned_of_error h
    obtain ⟨before, hsource, rfl, woven⟩ := scanned.exists_woven [] rfl
    exact ⟨before, tokens, rest, hsource, woven.madeOf, hline.trans (Position.endOf_advanceOver before).line,
      arises⟩

/-- Tokens between comments, with characters of more than one byte. -/
def commentedSource : String :=
  "a /* é\n*/ 'ü'>> // b"

/-- A string without its end behind a comment. -/
def openSource : String :=
  "// é\nx = 'y"

/-- The tokens of the first source are on two lines; the second one is in order up to its string. -/
theorem madeOf_commentedSource : ∃ tokens, tokenize commentedSource = .ok tokens ∧
    tokens.map Token.start = [⟨1, 0, 0⟩, ⟨2, 3, 11⟩, ⟨2, 7, 15⟩, ⟨2, 8, 16⟩] ∧
    MadeOf commentedSource.toList tokens [] ∧
    tokenize openSource = .error (.unterminatedString 2) ∧ ∃ before tokens rest,
      openSource.toList = before ++ rest ∧ MadeOf before tokens rest ∧
        2 = 1 + before.count '\n' ∧ (LexError.unterminatedString 2).ArisesAt rest := by
  have htokens : tokenize commentedSource = .ok [⟨.ident, "a", ⟨1, 0, 0⟩⟩, ⟨.str, "'ü'", ⟨2, 3, 11⟩⟩,
      ⟨.punct .greater, ">", ⟨2, 7, 15⟩⟩, ⟨.punct .greater, ">", ⟨2, 8, 16⟩⟩] := by
    decide +kernel
  have hopen : tokenize openSource = .error (.unterminatedString 2) := by decide +kernel
  exact ⟨_, htokens, rfl, (tokenize_madeOf commentedSource).1 _ htokens, hopen,
    (tokenize_madeOf openSource).2 _ hopen⟩

end Exemplar.Code
