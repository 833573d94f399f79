import Exemplar.Example.Marker
import Exemplar.Proofs.Code.Gap
import Exemplar.Proofs.Code.Layout

/-!
# Where the code of a line ends

The code of a line is split from its comment by a scan that knows quotes, backslashes and slashes only. It goes over
a line as the scan for tokens does, stretch by stretch: a token that is no string has no quote in it, and a slash
of such a token is not in front of another slash. So, unless a block comment begins on the line, both scans come to
the comment at the same place, and in front of it there are the tokens of the line.
-/

namespace Exemplar.Example

open Code

variable {text after more body : List Char} {c : Char} {cs : List Char}

/-! ### Steps of the split -/

/-- The split loses nothing but the two slashes. -/
theorem append_of_splitCommentFrom (inString : Bool) (line : List Char) :
    (splitCommentFrom inString line).1 ++
      ((splitCommentFrom inString line).2.map (['/', '/'] ++ ·)).getD [] = line := by
  fun_induction splitCommentFrom inString line with
  | case1 | case2 => rfl
  | case3 inString c _ next rest code comment hsplit ih =>
    rw [hsplit] at ih
    simpa using ih
  | case4 inString c cs _ hslash =>
    simp only [Bool.and_eq_true, beq_iff_eq] at hslash
    obtain ⟨after, rfl⟩ := List.head?_eq_some_iff.mp hslash.2
    simp [hslash.1.2]
  | case5 inString c cs _ _ code comment hsplit ih =>
    rw [hsplit] at ih
    simpa using ih

theorem append_of_splitComment (line : List Char) :
    (splitComment line).1 ++ ((splitComment line).2.map (['/', '/'] ++ ·)).getD [] = line :=
  append_of_splitCommentFrom false line

/-- Outside of strings only a slash in front of another one does not go to the code. -/
theorem splitComment_cons (hslash : c = '/' → cs.head? ≠ some '/') :
    splitComment (c :: cs) =
      (c :: (splitCommentFrom (c == '\'') cs).1, (splitCommentFrom (c == '\'') cs).2) := by
  have hopen : ¬ (!false && c == '/' && cs.head? == some '/') = true := by simpa using hslash
  rw [splitComment, splitCommentFrom.eq_def]
  dsimp only
  rw [Bool.false_and, if_neg Bool.false_ne_true, if_neg hopen, Bool.false_bne]

/-- Inside of strings everything goes to the code. -/
theorem splitCommentFrom_cons (hescape : c ≠ '\\') :
    splitCommentFrom true (c :: cs) =
      (c :: (splitCommentFrom (c != '\'') cs).1, (splitCommentFrom (c != '\'') cs).2) := by
  rw [splitCommentFrom.eq_def]
  dsimp only
  rw [beq_eq_false_iff_ne.mpr hescape, Bool.and_false, if_neg Bool.false_ne_true, Bool.not_true, Bool.false_and,
    Bool.false_and, if_neg Bool.false_ne_true, Bool.true_bne]
  rfl

theorem splitCommentFrom_escape (c : Char) (cs : List Char) :
    splitCommentFrom true ('\\' :: c :: cs) =
      ('\\' :: c :: (splitCommentFrom true cs).1, (splitCommentFrom true cs).2) := by
  rw [splitCommentFrom.eq_def]
  rfl

/-! ### What the split passes over -/

/-- The split takes a text to the code and then goes on as if the line began behind it. -/
def PassesOver (text after : List Char) : Prop :=
  splitComment (text ++ after) = (text ++ (splitComment after).1, (splitComment after).2)

theorem PassesOver.append (h : PassesOver text (more ++ after)) (hmore : PassesOver more after) :
    PassesOver (text ++ more) after := by
  rw [PassesOver, List.append_assoc, h, hmore, List.append_assoc]

theorem passesOver_cons (hquote : c ≠ '\'') (hslash : c = '/' → cs.head? ≠ some '/') : PassesOver [c] cs := by
  rw [PassesOver, List.singleton_append, splitComment_cons hslash, beq_eq_false_iff_ne.mpr hquote]
  rfl

theorem passesOver_plain (plain : ∀ c ∈ text, c ≠ '\'' ∧ c ≠ '/') : PassesOver text after := by
  induction text with
  | nil => rfl
  | cons c text ih =>
    obtain ⟨⟨hquote, hslash⟩, hrest⟩ := List.forall_mem_cons.mp plain
    exact (passesOver_cons hquote (absurd · hslash)).append (ih hrest)

/-- Inside of a string the split goes on to the closing quote. -/
theorem splitCommentFrom_stringBody (h : StringBody body) (after : List Char) :
    splitCommentFrom true (body ++ '\'' :: after) =
      (body ++ '\'' :: (splitComment after).1, (splitComment after).2) := by
  induction h with
  | nil => exact splitCommentFrom_cons (by decide)
  | plain hquote hescape _ _ ih =>
    rw [List.cons_append, splitCommentFrom_cons hescape, bne_iff_ne.mpr hquote, ih]
    rfl
  | escaped _ _ ih =>
    rw [List.cons_append, List.cons_append, splitCommentFrom_escape, ih]
    rfl

theorem passesOver_string (h : StringBody body) : PassesOver ('\'' :: (body ++ ['\''])) after := by
  have hquote : (('\'' : Char) == '\'') = true := rfl
  rw [PassesOver, List.cons_append, List.append_assoc, List.singleton_append,
    splitComment_cons (fun h => absurd h (by decide)), hquote, splitCommentFrom_stringBody h]
  simp

end Exemplar.Example

namespace Exemplar.Code

open Example

variable {pos final : Position} {c : Char} {cs text after rest : List Char} {tokens left : List Token}
  {kind : TokenKind}

/-! ### Stretches in front of a comment -/

theorem isPlain_of_isNameChar (h : isNameChar c = true) : c ≠ '\'' ∧ c ≠ '/' := by
  constructor <;> rintro rfl <;> exact absurd h (by decide)

theorem isPlain_of_mem_numberTail (cs : List Char) : ∀ c ∈ numberTail cs, c ≠ '\'' ∧ c ≠ '/' := by
  fun_induction numberTail cs with
  | case1 | case3 => exact List.forall_mem_nil _
  | case2 c cs hgoes ih =>
    refine List.forall_mem_cons.mpr ⟨?_, ih⟩
    constructor <;> rintro rfl <;> simp at hgoes

theorem Symbol.quote_notMem (symbol : Symbol) : '\'' ∉ symbol.spelling.toList := by
  cases symbol <;> decide

theorem TokenAt.passesOver (h : TokenAt c cs kind text) (hsplit : c :: cs = text ++ after) : PassesOver text after := by
  cases h with
  | str hc closed =>
    obtain ⟨body, hbody, rfl⟩ := exists_stringBody_of_stringTail? closed
    rw [hc]
    exact passesOver_string hbody
  | ident hc =>
    refine passesOver_plain (List.forall_mem_cons.mpr ⟨isPlain_of_isNameChar (isNameChar_of_isNameStart hc), ?_⟩)
    exact fun c hc => isPlain_of_isNameChar (List.all_eq_true.mp List.all_takeWhile c hc)
  | number _ hc =>
    have hname : isNameChar c = true := by simp [isNameChar, Text.isIdentChar, Char.isAlphanum, hc]
    exact passesOver_plain (List.forall_mem_cons.mpr ⟨isPlain_of_isNameChar hname, isPlain_of_mem_numberTail _⟩)
  | @punct symbol hquote _ _ hline =>
    -- Behind its first character a symbol is plain, and the first one may be a slash by itself.
    obtain ⟨first, tail, hspelling⟩ := List.exists_cons_of_ne_nil symbol.spelling_ne_nil
    have hplain : ∀ d ∈ tail, d ≠ '\'' ∧ d ≠ '/' := by
      refine fun d hd => ⟨?_, ?_⟩ <;> rintro rfl
      · exact symbol.quote_notMem (hspelling ▸ List.mem_cons_of_mem _ hd)
      · exact absurd (symbol.endsToken_of_mem hspelling _ hd) (by decide)
    rw [hspelling] at hsplit ⊢
    obtain ⟨rfl, rfl⟩ := List.cons.inj hsplit
    have hslash : c = '/' → (tail ++ after).head? ≠ some '/' := by
      rintro rfl hnext
      obtain ⟨more, hmore⟩ := List.head?_eq_some_iff.mp hnext
      have hopening : ['/', '/'].isPrefixOf ('/' :: (tail ++ after)) = true := by rw [hmore]; rfl
      exact absurd (hopening.symm.trans hline) (by decide)
    exact (passesOver_cons hquote hslash).append (passesOver_plain hplain)

/-- A line without newlines and without the beginning of a block comment. -/
structure IsSimpleLine (line : List Char) : Prop where
  oneLine : '\n' ∉ line
  noBlock : ¬ ['/', '*'] <:+: line

theorem IsSimpleLine.behind (h : IsSimpleLine (text ++ after)) : IsSimpleLine after where
  oneLine hmem := h.oneLine (List.mem_append_right _ hmem)
  noBlock hpart := h.noBlock (hpart.trans (List.suffix_append _ _).isInfix)

/-- A stretch of such a line goes on to the end of the line as a comment, or the split passes over it. -/
theorem Stretch.passesOver (h : Stretch pos text after left) (simple : IsSimpleLine (text ++ after)) :
    PassesOver text after ∨ left = [] ∧ after = [] ∧ ∃ comment, text = '/' :: '/' :: comment := by
  cases h with
  | separator hc =>
    refine .inl (passesOver_plain (List.forall_mem_singleton.mpr ?_))
    constructor <;> rintro rfl <;> exact absurd hc (by decide)
  | lineComment _ hend =>
    refine .inr ⟨rfl, ?_, _, rfl⟩
    cases after with
    | nil => rfl
    | cons c after =>
      obtain rfl := hend c rfl
      exact absurd (List.mem_append_right _ List.mem_cons_self) simple.oneLine
  | blockComment => exact absurd ⟨[], _, rfl⟩ simple.noBlock
  | token hpiece => exact .inl ((pieceAt_eq_token_iff.mp hpiece).passesOver rfl)

/-- What the split passes over is the same stretch in front of the code behind it. -/
theorem Stretch.withoutComment (h : Stretch pos text after left) (passed : PassesOver text after) :
    Stretch pos text (splitComment after).1 left := by
  cases h with
  | separator hc => exact .separator hc
  | lineComment => cases passed
  | blockComment hfirst => exact .blockComment hfirst
  | @token c tail _ kind hpiece =>
    have hgap : Break (((splitComment after).2.map (['/', '/'] ++ ·)).getD []) := by
      cases (splitComment after).2 with
      | none => exact gap_nil.isBreak
      | some comment => exact break_cons_iff.mpr rfl
    have htoken := pieceAt_eq_token_iff.mp hpiece
    rw [← append_of_splitComment after, ← List.append_assoc] at htoken
    have htoken' := htoken.append hgap gap_nil (List.prefix_append (c :: tail) _)
    rw [List.append_nil] at htoken'
    exact .token (pieceAt_eq_token_iff.mpr htoken')

/-! ### Scans of a line -/

/-- The scan of a source comes to a comment that goes on to the end of its line. The comment starts at byte `n`. -/
def SkipsComment (source : List Char) (n : Nat) (comment : List Char) : Prop :=
  ∃ tokens pos after, Scanned .start source tokens pos ('/' :: '/' :: (comment ++ after)) ∧
    Stretch pos ('/' :: '/' :: comment) after [] ∧ pos.offset = n

/-- A scan of a whole line goes over the code of the line in the same way, and comes from there to its comment. -/
theorem Scanned.exists_code (h : Scanned pos cs tokens final []) (simple : IsSimpleLine cs) :
    ∃ stop, Scanned pos (splitComment cs).1 tokens stop [] ∧
      ∀ comment, (splitComment cs).2 = some comment → Scanned pos cs tokens stop ('/' :: '/' :: comment) := by
  generalize hend : [] = rest at h
  induction h with
  | refl =>
    subst hend
    exact ⟨_, .refl, fun _ hnone => nomatch hnone⟩
  | step first more ih =>
    rcases first.passesOver simple with passed | ⟨rfl, rfl, comment, rfl⟩
    · obtain ⟨stop, scanned, hcomment⟩ := ih simple.behind hend
      rw [passed]
      refine ⟨stop, .step (first.withoutComment passed) scanned, fun comment hsome => ?_⟩
      exact .step first (hcomment comment hsome)
    · -- The line is a comment from here on.
      subst hend
      have hnone (pos : Position) : Except.ok [] = tokensFrom pos 0 [] := rfl
      obtain rfl := Except.ok.inj ((hnone _).trans (tokensFrom_eq_ok_iff.mpr ⟨_, more⟩))
      rw [List.append_nil]
      refine ⟨_, .refl, fun comment' hsome => ?_⟩
      obtain rfl := Option.some.inj hsome
      exact .refl

/-- Where the scan comes to a comment, the split has passed over what is in front of it. -/
theorem Scanned.splitComment_eq {comment : List Char} (h : Scanned pos cs tokens final ('/' :: '/' :: comment))
    (simple : IsSimpleLine cs) : ∃ code, final = pos.advanceOver code ∧ splitComment cs = (code, some comment) := by
  generalize hrest : '/' :: '/' :: comment = rest at h
  induction h with
  | refl =>
    subst hrest
    exact ⟨[], rfl, rfl⟩
  | @step pos _ text after rest _ _ first more ih =>
    rcases first.passesOver simple with passed | ⟨-, rfl, -⟩
    · obtain ⟨code, rfl, hsplit⟩ := ih simple.behind hrest
      refine ⟨text ++ code, (Position.advanceOver_append ..).symm, ?_⟩
      rw [passed, hsplit]
    · obtain ⟨front, hfront, -⟩ := more.exists_append
      rw [← hrest] at hfront
      exact absurd hfront.symm (by simp)

end Exemplar.Code

namespace Exemplar.Example

open Code

/-- On a line on which no block comment begins, the code of the line has the tokens of the line. It has a comment
exactly if the scan for tokens skips one, and that comment is the one which the scan skips. -/
theorem tokenize_splitComment {line : String} {tokens : List Token} (simple : IsSimpleLine line.toList)
    (h : tokenize line = .ok tokens) :
    tokenize (String.ofList (splitComment line.toList).1) = .ok tokens ∧
    ((splitComment line.toList).2.isSome = true ↔ ∃ n comment, SkipsComment line.toList n comment) ∧
    ∀ comment, (splitComment line.toList).2 = some comment →
      line.toList = (splitComment line.toList).1 ++ '/' :: '/' :: comment ∧
      ∀ n skipped, SkipsComment line.toList n skipped ↔
        n = Text.byteSize (splitComment line.toList).1 ∧ skipped = comment := by
  obtain ⟨final, scanned⟩ := tokensFrom_eq_ok_iff.mp h
  obtain ⟨stop, hcode, hcomment⟩ := scanned.exists_code simple
  -- A comment that the scan skips is the one of the split, and the other way around.
  have hskips (n : Nat) (skipped : List Char) : SkipsComment line.toList n skipped ↔
      n = Text.byteSize (splitComment line.toList).1 ∧ (splitComment line.toList).2 = some skipped := by
    constructor
    · rintro ⟨passed, pos, after, found, stretch, rfl⟩
      obtain ⟨front, hfront, -⟩ := found.exists_append
      have hafter : after = [] := by
        rw [hfront] at simple
        rcases stretch.passesOver simple.behind with passed | ⟨-, hafter, -⟩
        · cases passed
        · exact hafter
      obtain ⟨code, rfl, hsplit⟩ := found.splitComment_eq simple
      rw [hsplit, hafter, List.append_nil, (Position.endOf_advanceOver code).offset]
      exact ⟨rfl, rfl⟩
    · rintro ⟨rfl, hsome⟩
      have hline := append_of_splitComment line.toList
      obtain ⟨code, hstop, hsplit⟩ := (hcomment skipped hsome).splitComment_eq simple
      rw [hsplit] at hline ⊢
      have honLine : '\n' ∉ skipped := fun hmem => simple.oneLine (hline ▸ by simp [hmem])
      refine ⟨tokens, stop, [], by rw [List.append_nil]; exact hcomment skipped hsome,
        .lineComment honLine (fun _ hnone => nomatch hnone), ?_⟩
      rw [hstop, (Position.endOf_advanceOver code).offset]
  refine ⟨?_, ?_, fun comment hsome => ⟨?_, fun n skipped => ?_⟩⟩
  · rw [tokenize, String.toList_ofList, tokensFrom_eq_ok_iff]
    exact ⟨stop, hcode⟩
  · simp only [hskips, Option.isSome_iff_exists]
    exact ⟨fun ⟨comment, hsome⟩ => ⟨_, comment, rfl, hsome⟩, fun ⟨_, comment, _, hsome⟩ => ⟨comment, hsome⟩⟩
  · conv_lhs => rw [← append_of_splitComment line.toList, hsome]
    rfl
  · rw [hskips, hsome, Option.some.injEq, eq_comm (a := comment)]

/-- A string with slashes and an escaped quote, and a comment with a quote behind it. -/
def linkedLine : String :=
  "s = 'é\\'//' /= 1; // it's"

/-- The comment of the line starts behind the string and the slash, at byte 19. -/
theorem tokenize_linkedLine : IsSimpleLine linkedLine.toList ∧ ∃ tokens, tokenize linkedLine = .ok tokens ∧
    tokens.map Token.text = ["s", "=", "'é\\'//'", "/=", "1", ";"] ∧
    splitComment linkedLine.toList = ("s = 'é\\'//' /= 1; ".toList, some " it's".toList) ∧
    tokenize "s = 'é\\'//' /= 1; " = .ok tokens ∧
    ∀ n comment, SkipsComment linkedLine.toList n comment ↔ n = 19 ∧ comment = " it's".toList := by
  have simple : IsSimpleLine linkedLine.toList := ⟨by decide +kernel, by decide +kernel⟩
  have htokens : tokenize linkedLine = .ok [⟨.ident, "s", ⟨1, 0, 0⟩⟩, ⟨.punct .assign, "=", ⟨1, 2, 2⟩⟩,
      ⟨.str, "'é\\'//'", ⟨1, 4, 4⟩⟩, ⟨.punct .divideAssign, "/=", ⟨1, 13, 13⟩⟩, ⟨.number, "1", ⟨1, 16, 16⟩⟩,
      ⟨.punct .semicolon, ";", ⟨1, 17, 17⟩⟩] := by
    decide +kernel
  have hsplit : splitComment linkedLine.toList = ("s = 'é\\'//' /= 1; ".toList, some " it's".toList) := by
    decide +kernel
  obtain ⟨hcode, -, hcomment⟩ := tokenize_splitComment simple htokens
  rw [hsplit] at hcode hcomment
  exact ⟨simple, _, htokens, rfl, hsplit, hcode, (hcomment _ rfl).2⟩

end Exemplar.Example
