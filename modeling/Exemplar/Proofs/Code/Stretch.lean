import Exemplar.Proofs.Code.Lexer
import Mathlib.Data.List.Infix
import Mathlib.Tactic.Tauto

/-!
# Stretches of source

The scan passes over a source stretch by stretch: separators, comments of two sorts, and the texts of tokens. What
a stretch leaves is decided where it ends. Whatever the source is, the scan goes on to its end or to the first place
where no piece begins, and what it leaves on the way is what `tokensFrom` answers with.
-/

namespace Exemplar.Code

/-- The place behind a token. -/
def Token.stop (token : Token) : Nat :=
  token.start.offset + Text.byteSize token.text.toList

variable {pos final : Position} {c : Char} {cs text after rest body tail : List Char}
  {tokens others : List Token}

theorem mem_of_isSeparator {c : Char} (h : isSeparator c = true) : c ∈ [' ', '\t', '\r', '\n', '\x0c'] := by
  simp only [isSeparator, Text.isAsciiBlank, Bool.or_eq_true, beq_iff_eq] at h
  simp only [List.mem_cons, List.not_mem_nil, or_false]
  tauto

/-! ### Strings -/

/-- What may stand between the quotes of a string. -/
inductive StringBody : List Char → Prop
  | nil : StringBody []
  | plain {c : Char} {cs : List Char} (hquote : c ≠ '\'') (hescape : c ≠ '\\') (hline : c ≠ '\n')
      (more : StringBody cs) : StringBody (c :: cs)
  | escaped {c : Char} {cs : List Char} (hline : c ≠ '\n') (more : StringBody cs) :
      StringBody ('\\' :: c :: cs)

theorem stringTail?_of_stringBody (h : StringBody body) (after : List Char) :
    stringTail? (body ++ '\'' :: after) = some (body ++ ['\'']) := by
  induction h with
  | nil => rfl
  | plain _ hescape _ _ ih => simp [stringTail?, hescape, ih]
  | escaped _ _ ih => simp [stringTail?, ih]

theorem exists_stringBody_of_stringTail? (h : stringTail? cs = some tail) :
    ∃ body, StringBody body ∧ tail = body ++ ['\''] := by
  fun_induction stringTail? cs generalizing tail with
  | case1 | case3 | case4 | case5 => cases h
  | case2 =>
    cases h
    exact ⟨[], .nil, rfl⟩
  | case6 c cs hline ih =>
    obtain ⟨more, hmore, rfl⟩ := Option.map_eq_some_iff.mp h
    obtain ⟨body, hbody, rfl⟩ := ih hmore
    exact ⟨'\\' :: c :: body, .escaped hline hbody, rfl⟩
  | case7 c cs hquote hline hend _ hpair ih =>
    obtain ⟨more, hmore, rfl⟩ := Option.map_eq_some_iff.mp h
    obtain ⟨body, hbody, rfl⟩ := ih hmore
    have hescape : c ≠ '\\' := by
      rintro rfl
      cases cs with
      | nil => exact hend rfl rfl
      | cons next cs => exact hpair next cs rfl rfl
    exact ⟨c :: body, .plain hquote hescape hline hbody, rfl⟩

/-- A string has no end exactly if a quote closes none of what may stand in it. -/
theorem stringTail?_eq_none_iff :
    stringTail? cs = none ↔ ∀ body after, StringBody body → cs ≠ body ++ '\'' :: after := by
  constructor
  · rintro hnone body after hbody rfl
    rw [stringTail?_of_stringBody hbody] at hnone
    cases hnone
  · intro hopen
    refine Option.eq_none_iff_forall_not_mem.mpr fun tail htail => ?_
    obtain ⟨body, hbody, rfl⟩ := exists_stringBody_of_stringTail? htail
    obtain ⟨after, rfl⟩ := stringTail?_prefix htail
    exact hopen body after hbody (by simp)

/-- What follows a string has no part in it. -/
theorem stringTail?_append (h : stringTail? (text ++ after) = some tail) (within : tail <+: text)
    (rest : List Char) : stringTail? (text ++ rest) = some tail := by
  obtain ⟨body, hbody, rfl⟩ := exists_stringBody_of_stringTail? h
  obtain ⟨more, rfl⟩ := within
  rw [List.append_assoc, List.append_assoc, List.singleton_append]
  exact stringTail?_of_stringBody hbody (more ++ rest)

/-! ### Block comments -/

theorem blockCommentTail?_of_first (hfirst : ¬ ['*', '/'] <:+: body ++ ['*']) (after : List Char) :
    blockCommentTail? (body ++ '*' :: '/' :: after) = some (body ++ ['*', '/']) := by
  induction body with
  | nil => rfl
  | cons c body ih =>
    have hmore : ¬ ['*', '/'] <:+: body ++ ['*'] := fun h =>
      hfirst (h.trans (List.suffix_cons c _).isInfix)
    have hopen : ∀ rest, c = '*' → body ++ '*' :: '/' :: after = '/' :: rest → False := by
      rintro rest rfl hrest
      cases body with
      | nil => cases hrest
      | cons next body =>
        obtain ⟨rfl, -⟩ := List.cons.inj hrest
        exact hfirst ⟨[], body ++ ['*'], rfl⟩
    rw [List.cons_append, blockCommentTail?.eq_3 _ _ hopen, ih hmore]
    rfl

theorem exists_first_of_blockCommentTail? (h : blockCommentTail? cs = some tail) :
    ∃ body, ¬ ['*', '/'] <:+: body ++ ['*'] ∧ tail = body ++ ['*', '/'] := by
  fun_induction blockCommentTail? cs generalizing tail with
  | case1 => cases h
  | case2 =>
    cases h
    exact ⟨[], by decide, rfl⟩
  | case3 c cs hopen ih =>
    obtain ⟨more, hmore, rfl⟩ := Option.map_eq_some_iff.mp h
    obtain ⟨body, hbody, rfl⟩ := ih hmore
    refine ⟨c :: body, fun hinfix => ?_, rfl⟩
    rcases List.infix_cons_iff.mp hinfix with hhead | hlater
    · -- A closing at the head would also be one of the text, where none was seen.
      obtain ⟨rfl, hnext⟩ := List.cons_prefix_cons.mp hhead
      obtain ⟨after, rfl⟩ := blockCommentTail?_prefix hmore
      cases body with
      | nil => exact absurd (List.cons_prefix_cons.mp hnext).1 (by decide)
      | cons next body =>
        obtain ⟨rfl, -⟩ := List.cons_prefix_cons.mp hnext
        exact hopen _ rfl rfl
    · exact hbody hlater

/-- A block comment has no end exactly if no closing follows. -/
theorem blockCommentTail?_eq_none_iff : blockCommentTail? cs = none ↔ ¬ ['*', '/'] <:+: cs := by
  fun_induction blockCommentTail? cs with
  | case1 => simp
  | case2 rest => simpa using ⟨[], rest, rfl⟩
  | case3 c cs hopen ih =>
    rw [Option.map_eq_none_iff, ih, List.infix_cons_iff, not_or, and_iff_right]
    intro hhead
    obtain ⟨rfl, rest, rfl⟩ := List.cons_prefix_cons.mp hhead
    exact hopen rest rfl rfl

/-! ### Stretches -/

/-- A stretch that begins at `pos`, in front of what follows it, and the tokens that it leaves. -/
inductive Stretch (pos : Position) : (text after : List Char) → List Token → Prop
  | separator {c : Char} {after : List Char} (hc : isSeparator c = true) : Stretch pos [c] after []
  | lineComment {body after : List Char} (hbody : '\n' ∉ body) (hend : ∀ c ∈ after.head?, c = '\n') :
      Stretch pos ('/' :: '/' :: body) after []
  | blockComment {body after : List Char} (hfirst : ¬ ['*', '/'] <:+: body ++ ['*']) :
      Stretch pos ('/' :: '*' :: (body ++ ['*', '/'])) after []
  | token {c : Char} {tail after : List Char} {kind : TokenKind}
      (hpiece : pieceAt pos.line c (tail ++ after) = .ok ⟨some kind, c :: tail⟩) :
      Stretch pos (c :: tail) after [⟨kind, String.ofList (c :: tail), pos⟩]

/-- Some stretches one behind the other: from one place of a source to another one, with the tokens left on the
way. -/
inductive Scanned : Position → List Char → List Token → Position → List Char → Prop
  | refl {pos : Position} {cs : List Char} : Scanned pos cs [] pos cs
  | step {pos stop : Position} {text after rest : List Char} {tokens others : List Token}
      (first : Stretch pos text after tokens)
      (more : Scanned (pos.advanceOver text) after others stop rest) :
      Scanned pos (text ++ after) (tokens ++ others) stop rest

theorem Stretch.ne_nil (h : Stretch pos text after tokens) : text ≠ [] := by
  cases h <;> exact List.cons_ne_nil _ _

theorem Stretch.eq_nil_or (h : Stretch pos text after tokens) :
    tokens = [] ∨ ∃ kind, tokens = [⟨kind, String.ofList text, pos⟩] := by
  cases h with
  | separator | lineComment | blockComment => exact .inl rfl
  | token => exact .inr ⟨_, rfl⟩

theorem Scanned.trans {middle : Position} (first : Scanned pos cs tokens middle after)
    (more : Scanned middle after others final rest) : Scanned pos cs (tokens ++ others) final rest := by
  induction first with
  | refl => exact more
  | step stretch _ ih => exact List.append_assoc .. ▸ .step stretch (ih more)

theorem Position.advanceOver_append (pos : Position) (front back : List Char) :
    pos.advanceOver (front ++ back) = (pos.advanceOver front).advanceOver back :=
  List.foldl_append

/-- The scan loses nothing on its way, and knows where it is. -/
theorem Scanned.exists_append (h : Scanned pos cs tokens final rest) :
    ∃ front, cs = front ++ rest ∧ final = pos.advanceOver front := by
  induction h with
  | refl => exact ⟨[], rfl, rfl⟩
  | step _ _ ih =>
    obtain ⟨front, rfl, rfl⟩ := ih
    exact ⟨_ ++ front, (List.append_assoc ..).symm, (Position.advanceOver_append ..).symm⟩

/-! ### What the scan answers -/

/-- Inside of a piece nothing is left. -/
theorem tokensFrom_length (pos : Position) (text after : List Char) :
    tokensFrom pos text.length (text ++ after) = tokensFrom (pos.advanceOver text) 0 after := by
  induction text generalizing pos with
  | nil => rfl
  | cons c text ih => exact ih (pos.advance c)

theorem tokensFrom_of_pieceAt {kind? : Option TokenKind}
    (h : pieceAt pos.line c (tail ++ after) = .ok ⟨kind?, c :: tail⟩) :
    tokensFrom pos 0 (c :: (tail ++ after)) = (tokensFrom (pos.advanceOver (c :: tail)) 0 after).map
      ((Piece.tokenAt? ⟨kind?, c :: tail⟩ pos).toList ++ ·) := by
  have hinside : tokensFrom (pos.advance c) (((c :: tail : List Char)).length - 1) (tail ++ after) =
      tokensFrom (pos.advanceOver (c :: tail)) 0 after := tokensFrom_length _ tail after
  rw [tokensFrom, h]
  dsimp only
  rw [hinside]
  cases tokensFrom (pos.advanceOver (c :: tail)) 0 after <;> rfl

theorem pieceAt_separator (line : Nat) (hc : isSeparator c = true) (cs : List Char) :
    pieceAt line c cs = .ok ⟨none, c :: cs.takeWhile isSeparator⟩ := by
  rw [pieceAt, if_pos hc]

/-- A run of separators may be passed over one by one. -/
theorem tokensFrom_separators (pos : Position) (cs : List Char) :
    tokensFrom pos (cs.takeWhile isSeparator).length cs = tokensFrom pos 0 cs := by
  cases cs with
  | nil => rfl
  | cons c cs =>
    cases hc : isSeparator c with
    | false => rw [List.takeWhile_cons_of_neg (by simp [hc]), List.length_nil]
    | true =>
      rw [List.takeWhile_cons_of_pos hc, List.length_cons, tokensFrom, tokensFrom, pieceAt_separator _ hc]
      dsimp only
      rw [List.length_cons, Nat.add_sub_cancel]
      cases tokensFrom (pos.advance c) (cs.takeWhile isSeparator).length cs <;> rfl

/-- A line is all that stands in front of the next newline. -/
theorem takeWhile_line (hbody : '\n' ∉ body) (hend : ∀ c ∈ after.head?, c = '\n') :
    (body ++ after).takeWhile (· != '\n') = body := by
  have hall : ∀ c ∈ body, (c != '\n') = true := fun c hc => bne_iff_ne.mpr fun h => hbody (h ▸ hc)
  have hstop : after.takeWhile (· != '\n') = [] := by
    cases after with
    | nil => rfl
    | cons c after =>
      obtain rfl := hend c rfl
      rfl
  rw [List.takeWhile_append_of_pos hall, hstop, List.append_nil]

theorem pieceAt_lineComment (line : Nat) (hbody : '\n' ∉ body) (hend : ∀ c ∈ after.head?, c = '\n') :
    pieceAt line '/' ('/' :: body ++ after) = .ok ⟨none, '/' :: '/' :: body⟩ := by
  have hline : ('/' :: body ++ after).takeWhile (· != '\n') = '/' :: body :=
    takeWhile_line (by simp [hbody]) hend
  have hopen : ['/', '/'].isPrefixOf ('/' :: ('/' :: body ++ after)) = true := rfl
  rw [pieceAt, if_neg (by decide), if_pos hopen, hline]

theorem pieceAt_blockComment (line : Nat) (hfirst : ¬ ['*', '/'] <:+: body ++ ['*']) (after : List Char) :
    pieceAt line '/' ('*' :: (body ++ ['*', '/']) ++ after) =
      .ok ⟨none, '/' :: '*' :: (body ++ ['*', '/'])⟩ := by
  have hclosed : blockCommentTail? (body ++ ['*', '/'] ++ after) = some (body ++ ['*', '/']) := by
    rw [List.append_assoc]
    exact blockCommentTail?_of_first hfirst after
  have hline : ¬ ['/', '/'].isPrefixOf ('/' :: ('*' :: (body ++ ['*', '/']) ++ after)) = true := nofun
  have hopen : ['/', '*'].isPrefixOf ('/' :: ('*' :: (body ++ ['*', '/']) ++ after)) = true := rfl
  rw [pieceAt, if_neg (by decide), if_neg hline, if_pos hopen, List.cons_append, List.drop_one, List.tail_cons,
    hclosed]

theorem Stretch.tokensFrom_eq (h : Stretch pos text after tokens) :
    tokensFrom pos 0 (text ++ after) =
      (tokensFrom (pos.advanceOver text) 0 after).map (tokens ++ ·) := by
  cases h with
  | @separator c _ hc =>
    have hover : pos.advanceOver [c] = pos.advance c := rfl
    rw [List.singleton_append, tokensFrom, pieceAt_separator _ hc, hover]
    dsimp only
    rw [List.length_cons, Nat.add_sub_cancel, tokensFrom_separators]
    cases tokensFrom (pos.advance c) 0 after <;> rfl
  | lineComment hbody hend => exact tokensFrom_of_pieceAt (pieceAt_lineComment _ hbody hend)
  | blockComment hfirst => exact tokensFrom_of_pieceAt (pieceAt_blockComment _ hfirst after)
  | token hpiece => exact tokensFrom_of_pieceAt hpiece

/-- What the scan leaves on its way comes before what it leaves from there on. -/
theorem Scanned.tokensFrom_eq (h : Scanned pos cs tokens final rest) :
    tokensFrom pos 0 cs = (tokensFrom final 0 rest).map (tokens ++ ·) := by
  induction h with
  | @refl pos cs => cases tokensFrom pos 0 cs <;> rfl
  | @step _ final _ _ rest _ _ first _ ih =>
    rw [first.tokensFrom_eq, ih]
    cases tokensFrom final 0 rest with
    | error e => rfl
    | ok more => simp [Except.map]

/-! ### How far the scan goes -/

theorem exists_stretch_of_pieceAt {piece : Piece} (h : pieceAt pos.line c cs = .ok piece) :
    ∃ text after tokens, c :: cs = text ++ after ∧ Stretch pos text after tokens := by
  obtain ⟨kind?, text⟩ := piece
  cases kind? with
  | some kind =>
    obtain ⟨tail, rfl, after, rfl⟩ := exists_of_pieceAt h
    exact ⟨_, _, _, rfl, .token h⟩
  | none =>
    have hbegins := beginsWith_pieceAt pos.line c cs
    rw [h] at hbegins
    cases hbegins with
    | separator hc => exact ⟨[c], cs, [], rfl, .separator hc⟩
    | @lineComment rest =>
      refine ⟨'/' :: '/' :: rest.takeWhile (· != '\n'), rest.dropWhile (· != '\n'), [], ?_,
        .lineComment (fun hmem => ?_) fun c hc => ?_⟩
      · simp
      · simpa using List.all_eq_true.mp List.all_takeWhile _ hmem
      · have hstop := List.head?_dropWhile_not (· != '\n') rest
        rw [Option.mem_def.mp hc] at hstop
        simpa using hstop
    | @blockComment rest _ closed =>
      obtain ⟨body, hfirst, rfl⟩ := exists_first_of_blockCommentTail? closed
      obtain ⟨after, rfl⟩ : body ++ ['*', '/'] <+: rest := blockCommentTail?_prefix closed
      exact ⟨_, after, [], by simp, .blockComment hfirst⟩

/-- Where the scan is stuck, and why. -/
inductive LexError.ArisesAt : LexError → List Char → Prop
  | unterminatedString {line : Nat} {cs : List Char}
      (hopen : ∀ body after, StringBody body → cs ≠ body ++ '\'' :: after) :
      ArisesAt (.unterminatedString line) ('\'' :: cs)
  | unterminatedComment {line : Nat} {cs : List Char} (hopen : ¬ ['*', '/'] <:+: cs) :
      ArisesAt (.unterminatedComment line) ('/' :: '*' :: cs)
  | unexpectedCharacter {line : Nat} {c : Char} {cs : List Char}
      (hseparator : isSeparator c = false) (hquote : c ≠ '\'') (hname : isNameStart c = false)
      (hdigit : c.isDigit = false) (hsymbol : ∀ symbol : Symbol, ¬ symbol.spelling.toList <+: c :: cs) :
      ArisesAt (.unexpectedCharacter c line) (c :: cs)

theorem arisesAt_of_pieceAt {line : Nat} {e : LexError} (h : pieceAt line c cs = .error e) :
    e.line = line ∧ e.ArisesAt (c :: cs) := by
  have hbegins := beginsWith_pieceAt line c cs
  rw [h] at hbegins
  cases hbegins with
  | unterminatedComment hopen => exact ⟨rfl, .unterminatedComment (blockCommentTail?_eq_none_iff.mp hopen)⟩
  | unterminatedString hopen => exact ⟨rfl, .unterminatedString (stringTail?_eq_none_iff.mp hopen)⟩
  | unexpected hseparator hquote hname hdigit hnone =>
    refine ⟨rfl, .unexpectedCharacter hseparator hquote hname hdigit fun symbol hsymbol => ?_⟩
    unfold Symbol.longestAt? at hnone
    exact absurd (List.isPrefixOf_iff_prefix.mpr hsymbol)
      (List.find?_eq_none.mp hnone symbol (Symbol.mem_all symbol))

/-- The scan goes on to the end of a source, or to a place where no piece begins. -/
theorem exists_scanned (pos : Position) (cs : List Char) : ∃ tokens final rest,
    Scanned pos cs tokens final rest ∧
      (rest = [] ∨ ∃ c after e, rest = c :: after ∧ pieceAt final.line c after = .error e) := by
  -- By the length of the text. A stretch may be longer than a character, so the tail is not enough.
  induction hlength : cs.length using Nat.strong_induction_on generalizing pos cs with
  | h n ih =>
    cases cs with
    | nil => exact ⟨[], pos, [], .refl, .inl rfl⟩
    | cons c cs =>
      cases hpiece : pieceAt pos.line c cs with
      | error e => exact ⟨[], pos, c :: cs, .refl, .inr ⟨c, cs, e, rfl, hpiece⟩⟩
      | ok piece =>
        obtain ⟨text, after, tokens, hsplit, stretch⟩ := exists_stretch_of_pieceAt hpiece
        have hpositive := List.length_pos_iff.mpr stretch.ne_nil
        have hshorter : after.length < n := by
          rw [← hlength, hsplit, List.length_append]
          omega
        obtain ⟨others, final, rest, scanned, hstop⟩ :=
          ih after.length hshorter (pos.advanceOver text) after rfl
        rw [hsplit]
        exact ⟨tokens ++ others, final, rest, .step stretch scanned, hstop⟩

/-- A source with tokens is passed over to its end. -/
theorem tokensFrom_eq_ok_iff :
    tokensFrom pos 0 cs = .ok tokens ↔ ∃ final, Scanned pos cs tokens final [] := by
  constructor
  · intro h
    obtain ⟨others, final, rest, scanned, rfl | ⟨c, after, e, rfl, hstuck⟩⟩ := exists_scanned pos cs
    · rw [scanned.tokensFrom_eq] at h
      simp only [tokensFrom, Except.map, List.append_nil, Except.ok.injEq] at h
      exact ⟨final, h ▸ scanned⟩
    · rw [scanned.tokensFrom_eq, tokensFrom, hstuck] at h
      cases h
  · rintro ⟨final, scanned⟩
    rw [scanned.tokensFrom_eq]
    simp [tokensFrom, Except.map]

/-- A source without tokens is passed over to the place of its fault. -/
theorem exists_scanned_of_error {e : LexError} (h : tokensFrom pos 0 cs = .error e) :
    ∃ tokens final rest, Scanned pos cs tokens final rest ∧ e.line = final.line ∧ e.ArisesAt rest := by
  obtain ⟨tokens, final, rest, scanned, rfl | ⟨c, after, e', rfl, hstuck⟩⟩ := exists_scanned pos cs
  · rw [scanned.tokensFrom_eq] at h
    cases h
  · obtain ⟨hline, arises⟩ := arisesAt_of_pieceAt hstuck
    rw [scanned.tokensFrom_eq, tokensFrom, hstuck] at h
    cases h
    exact ⟨tokens, final, _, scanned, hline, arises⟩

end Exemplar.Code
