import Exemplar.Proofs.Code.Gap
import Exemplar.Proofs.Code.Grammar.Blind
import Exemplar.Proofs.Text.Place

/-!
# Remarks at the ends of lines

Examples are annotated by remarks: comments that are appended to lines. A remark puts everything behind it
somewhere else, but the scan passes over it, and over nothing else: behind a token it is a gap, behind a
comment to the end of the line it is a part of that comment. So the tokens stay alike, and with them the tree.
-/

namespace Exemplar.Code

variable {pos pos' final : Position} {c : Char} {cs cs' text body after rest before source : List Char}
  {tokens others left : List Token}

/-! ### Remarks -/

/-- What is appended to a line. -/
def remark (text : List Char) : List Char :=
  ' ' :: '/' :: '/' :: text

/-- A source from behind `before` on, and the same with remarks at the ends of some of its lines. There is none
where `may` does not allow it for what stands in front of the place. -/
inductive Remarked (may : List Char → Prop) : (before cs cs' : List Char) → Prop
  | nil {before : List Char} : Remarked may before [] []
  | keep {before cs cs' : List Char} (c : Char) (more : Remarked may (before ++ [c]) cs cs') :
      Remarked may before (c :: cs) (c :: cs')
  | atEnd {before text : List Char} (allowed : may before) (htext : '\n' ∉ text) :
      Remarked may before [] (remark text)
  | atLineEnd {before cs cs' text ending : List Char} (hending : ending = ['\n'] ∨ ending = ['\r', '\n'])
      (allowed : may before) (htext : '\n' ∉ text) (more : Remarked may (before ++ ending) cs cs') :
      Remarked may before (ending ++ cs) (remark text ++ (ending ++ cs'))

/-- The place behind `before` lies inside of a string or of a block comment: the scan comes to one that begins in
front of the place and ends behind it. -/
def Enclosed (source before : List Char) : Prop :=
  ∃ front inner outer after tokens pos left, before = front ++ inner ∧ inner ≠ [] ∧ outer ≠ [] ∧
    source = front ++ (inner ++ outer ++ after) ∧
    Scanned .start source tokens pos (inner ++ outer ++ after) ∧ Stretch pos (inner ++ outer) after left ∧
    (['\''] <+: inner ++ outer ∨ ['/', '*'] <+: inner ++ outer)

/-- A text that begins with the end of a line. -/
def AtLineEnd (cs : List Char) : Prop :=
  ['\n'] <+: cs ∨ ['\r', '\n'] <+: cs

theorem AtLineEnd.gap (h : AtLineEnd cs) : Gap cs := by
  rcases h with ⟨cs, rfl⟩ | ⟨cs, rfl⟩ <;> exact gap_cons_iff.mpr (by decide)

theorem newline_not_mem_remark (htext : '\n' ∉ text) : '\n' ∉ remark text := by
  simp [remark, htext]

/-- The scan passes over a remark up to the end of its line. -/
theorem scanned_remark (pos : Position) (htext : '\n' ∉ text) (after : List Char)
    (hend : ∀ c ∈ after.head?, c = '\n') :
    Scanned pos (remark text ++ after) [] (pos.advanceOver (remark text)) after :=
  .step (.separator (c := ' ') (by decide)) (.step (.lineComment htext hend) .refl)

/-- The scan passes over a remark and the separator behind it. -/
theorem scanned_remark_separator (pos : Position) (htext : '\n' ∉ text)
    (hending : c = '\n' ∨ c = '\r' ∧ rest.head? = some '\n') :
    Scanned pos (remark text ++ [c] ++ rest) [] (pos.advanceOver (remark text ++ [c])) rest := by
  rcases hending with rfl | ⟨rfl, hnext⟩
  · have remarked := scanned_remark pos htext ('\n' :: rest) (by simp)
    rw [List.append_assoc, Position.advanceOver_append]
    exact remarked.trans (.step (.separator (c := '\n') (by decide)) .refl)
  · -- The carriage return belongs to the remark.
    have htext' : '\n' ∉ text ++ ['\r'] := by simpa using htext
    exact scanned_remark pos htext' rest (by simp [hnext])

namespace Remarked

variable {may : List Char → Prop}

theorem nil_cases (h : Remarked may before [] cs') : cs' = [] ∨ ∃ text, '\n' ∉ text ∧ cs' = remark text := by
  generalize hnil : [] = line at h
  cases h with
  | nil => exact .inl rfl
  | keep => cases hnil
  | atEnd _ htext => exact .inr ⟨_, htext, rfl⟩
  | atLineEnd hending => rcases hending with rfl | rfl <;> cases hnil

theorem cons_cases (h : Remarked may before (c :: cs) cs') :
    (∃ more, cs' = c :: more ∧ Remarked may (before ++ [c]) cs more) ∨
    ∃ text more, cs' = remark text ++ c :: more ∧ '\n' ∉ text ∧ may before ∧ AtLineEnd (c :: cs) ∧
      (c = '\n' ∨ c = '\r' ∧ more.head? = some '\n') ∧ Remarked may (before ++ [c]) cs more := by
  generalize hline : c :: cs = line at h
  cases h with
  | nil | atEnd => cases hline
  | keep c more =>
    cases hline
    exact .inl ⟨_, rfl, more⟩
  | @atLineEnd _ rest rest' text ending hending allowed htext more =>
    right
    rcases hending with rfl | rfl
    · cases hline
      exact ⟨text, rest', rfl, htext, allowed, .inl ⟨_, rfl⟩, .inl rfl, more⟩
    · cases hline
      refine ⟨text, '\n' :: rest', rfl, htext, allowed, .inr ⟨_, rfl⟩, .inr ⟨rfl, rfl⟩, .keep '\n' ?_⟩
      rwa [List.append_assoc]

/-- A text stays as it is if no remark is allowed inside of it or in front of it. -/
theorem beyond (text : List Char) (h : Remarked may before (text ++ after) cs')
    (hkeep : ∀ inner outer, text = inner ++ outer → outer ≠ [] → AtLineEnd (outer ++ after) →
      ¬ may (before ++ inner)) :
    ∃ after', cs' = text ++ after' ∧ Remarked may (before ++ text) after after' := by
  induction text generalizing before cs' with
  | nil => exact ⟨cs', rfl, by rwa [List.append_nil]⟩
  | cons c text ih =>
    rcases h.cons_cases with ⟨more, rfl, hmore⟩ | ⟨_, _, _, _, allowed, hend, _, _⟩
    · have hlater : ∀ inner outer, text = inner ++ outer → outer ≠ [] → AtLineEnd (outer ++ after) →
          ¬ may (before ++ [c] ++ inner) := by
        intro inner outer hsplit houter hend
        rw [List.append_assoc]
        exact hkeep (c :: inner) outer (by rw [hsplit, List.cons_append]) houter hend
      obtain ⟨after', rfl, hafter⟩ := ih hmore hlater
      exact ⟨after', rfl, by rwa [List.append_cons]⟩
    · exact absurd (by simpa using allowed) (hkeep [] (c :: text) rfl (List.cons_ne_nil _ _) hend)

/-- What stands up to the end of a line still does after remarks, and is on one line. -/
theorem overLine (h : Remarked may before (body ++ after) cs') (hbody : '\n' ∉ body)
    (hend : ∀ c ∈ after.head?, c = '\n') :
    ∃ body' after', cs' = body' ++ after' ∧ '\n' ∉ body' ∧ (∀ c ∈ after'.head?, c = '\n') ∧
      Remarked may (before ++ body) after after' := by
  induction body generalizing before cs' with
  | nil =>
    rw [List.append_nil]
    cases after with
    | nil =>
      rw [List.append_nil] at h
      rcases h.nil_cases with rfl | ⟨text, htext, rfl⟩
      · exact ⟨[], [], rfl, List.not_mem_nil, hend, .nil⟩
      · exact ⟨remark text, [], by simp, newline_not_mem_remark htext, hend, .nil⟩
    | cons c after =>
      obtain rfl := hend c rfl
      rcases h.cons_cases with ⟨more, rfl, hmore⟩ | ⟨text, more, rfl, htext, _, _, _, hmore⟩
      · exact ⟨[], _, rfl, List.not_mem_nil, by simp, .keep _ hmore⟩
      · exact ⟨remark text, _, rfl, newline_not_mem_remark htext, by simp, .keep _ hmore⟩
  | cons c body ih =>
    rw [List.mem_cons, not_or] at hbody
    rcases h.cons_cases with ⟨more, rfl, hmore⟩ | ⟨text, more, rfl, htext, _, _, _, hmore⟩
    · obtain ⟨body', after', rfl, hbody', hend', hafter⟩ := ih hmore hbody.2
      refine ⟨c :: body', after', rfl, ?_, hend', by simpa using hafter⟩
      rw [List.mem_cons, not_or]
      exact ⟨hbody.1, hbody'⟩
    · -- The line ends with a carriage return, which the comment takes in.
      obtain ⟨body', after', rfl, hbody', hend', hafter⟩ := ih hmore hbody.2
      refine ⟨remark text ++ c :: body', after', by simp, ?_, hend', by simpa using hafter⟩
      rw [List.mem_append, not_or, List.mem_cons, not_or]
      exact ⟨newline_not_mem_remark htext, hbody.1, hbody'⟩

/-- Up to the first remark nothing changes, and there is a gap with it and without it. -/
theorem exists_gaps (h : Remarked may before cs cs') :
    ∃ same gap gap', cs = same ++ gap ∧ cs' = same ++ gap' ∧ Gap gap ∧ Gap gap' := by
  have hremark {text rest : List Char} : Gap (remark text ++ rest) := gap_cons_iff.mpr (by decide)
  induction h with
  | nil => exact ⟨[], [], [], rfl, rfl, gap_nil, gap_nil⟩
  | keep c _ ih =>
    obtain ⟨same, gap, gap', rfl, rfl, hgap, hgap'⟩ := ih
    exact ⟨c :: same, gap, gap', rfl, rfl, hgap, hgap'⟩
  | @atEnd _ text =>
    exact ⟨[], [], remark text, rfl, rfl, gap_nil, List.append_nil (remark text) ▸ hremark⟩
  | atLineEnd hending =>
    refine ⟨[], _, _, rfl, rfl, ?_, hremark⟩
    rcases hending with rfl | rfl <;> exact gap_cons_iff.mpr (by decide)

end Remarked

/-! ### The scan of what has remarks -/

theorem Position.offset_advanceOver (cs : List Char) : ∀ pos : Position,
    (pos.advanceOver cs).offset = pos.offset + Text.byteSize cs := by
  induction cs with
  | nil => exact fun _ => rfl
  | cons c cs ih =>
    intro pos
    have hone : (pos.advance c).offset = pos.offset + c.utf8Size := by
      unfold advance
      split <;> rfl
    rw [advanceOver_cons, ih, hone, Text.byteSize_cons, Nat.add_assoc]

theorem Position.offset_lt_advanceOver (pos : Position) (htext : text ≠ []) :
    pos.offset < (pos.advanceOver text).offset := by
  obtain ⟨c, tail, rfl⟩ := List.exists_cons_of_ne_nil htext
  have hpositive := c.utf8Size_pos
  rw [offset_advanceOver, Text.byteSize_cons]
  omega

theorem Stretch.scanned (h : Stretch pos text after tokens) :
    Scanned pos (text ++ after) tokens (pos.advanceOver text) after :=
  List.append_nil tokens ▸ .step h .refl

/-- No token of a scan starts in front of it. -/
theorem Scanned.not_beginsAt (h : Scanned pos cs tokens final rest) {offset : Nat} (hlt : offset < pos.offset) :
    ¬ BeginsAt offset tokens := by
  induction h with
  | refl => simp [BeginsAt]
  | @step pos _ text _ _ _ _ first _ ih =>
    rcases first.eq_nil_or with rfl | ⟨kind, rfl⟩
    · exact ih (hlt.trans (pos.offset_lt_advanceOver first.ne_nil))
    · exact fun hbegins => absurd (beginsAt_cons_iff.mp hbegins) hlt.ne'

/-- No line ends inside of a text without separators. -/
theorem not_atLineEnd_of_plain (hplain : ∀ c ∈ text, isSeparator c = false) {inner outer : List Char}
    (hsplit : text = inner ++ outer) (houter : outer ≠ []) : ¬ AtLineEnd (outer ++ after) := by
  obtain ⟨c, tail, rfl⟩ := List.exists_cons_of_ne_nil houter
  intro hend
  have hc : isSeparator c = true := gap_cons_iff.mp hend.gap
  exact absurd hc (by simp [hplain c (hsplit ▸ List.mem_append_right _ List.mem_cons_self)])

/-- Where a line ends inside of a token or of a block comment that the scan comes to, the place is enclosed. -/
theorem Stretch.enclosed (h : Stretch pos text after left) (scanned : Scanned .start source tokens pos (text ++ after))
    (hsource : source = before ++ (text ++ after))
    (hkind : (['\''] <+: text ∨ ['/', '*'] <+: text) ∨ ∀ c ∈ text, isSeparator c = false)
    {inner outer : List Char} (hsplit : text = inner ++ outer) (houter : outer ≠ [])
    (hend : AtLineEnd (outer ++ after)) : Enclosed source (before ++ inner) := by
  rcases hkind with hopening | hplain
  case inr => exact absurd hend (not_atLineEnd_of_plain hplain hsplit houter)
  case inl =>
    subst hsplit
    refine ⟨before, inner, outer, after, tokens, pos, left, rfl, ?_, houter, hsource, scanned, h, hopening⟩
    -- No line ends where it begins, at a quote or a slash.
    rintro rfl
    obtain ⟨c, tail, rfl⟩ := List.exists_cons_of_ne_nil houter
    have hc : isSeparator c = true := gap_cons_iff.mp hend.gap
    rcases hopening with hopening | hopening
    · exact absurd hc ((List.cons_prefix_cons.mp hopening).1 ▸ by decide)
    · exact absurd hc ((List.cons_prefix_cons.mp hopening).1 ▸ by decide)

/-- The scan of `cs'` from `pos'` on leaves tokens that are alike to those that a scan from `pos` on has left, and
the first ones begin where the scans do or behind that. -/
def ScansAlike (pos : Position) (tokens : List Token) (pos' : Position) (cs' : List Char) : Prop :=
  ∃ tokens' final', Scanned pos' cs' tokens' final' [] ∧ AlikeRows tokens tokens' ∧
    (BeginsAt pos.offset tokens ↔ BeginsAt pos'.offset tokens')

namespace ScansAlike

variable {text' after' : List Char}

/-- Both scans pass over something that leaves no token. -/
theorem skip (h : ScansAlike (pos.advanceOver text) others (pos'.advanceOver text') after')
    (more : Scanned (pos.advanceOver text) after others final rest) (htext : text ≠ []) (htext' : text' ≠ [])
    (scanned : Scanned pos' (text' ++ after') [] (pos'.advanceOver text') after') :
    ScansAlike pos others pos' (text' ++ after') := by
  obtain ⟨tokens', final', more', hrows, -⟩ := h
  have hnot := more.not_beginsAt (pos.offset_lt_advanceOver htext)
  have hnot' := more'.not_beginsAt (pos'.offset_lt_advanceOver htext')
  exact ⟨tokens', final', scanned.trans more', hrows, iff_of_false hnot hnot'⟩

/-- Both scans read the same token. Where it is a closing angle bracket, the next tokens touch it in both or in
neither, because it is one byte long. -/
theorem token {kind : TokenKind} (h : ScansAlike (pos.advanceOver text) others (pos'.advanceOver text) after')
    (hline : pos'.line = pos.line) (hgreater : kind = .punct .greater → text = ['>'])
    (stretch : Stretch pos' text after' [⟨kind, String.ofList text, pos'⟩]) :
    ScansAlike pos (⟨kind, String.ofList text, pos⟩ :: others) pos' (text ++ after') := by
  obtain ⟨tokens', final', more', hrows, htouch⟩ := h
  refine ⟨_, final', .step stretch more', .cons ?_ ?_ hrows, ?_⟩
  · obtain ⟨line, column, offset⟩ := pos
    obtain ⟨line', column', offset'⟩ := pos'
    obtain rfl : line' = line := hline
    exact .intro
  · intro hkind
    rw [hgreater hkind, Position.offset_advanceOver, Position.offset_advanceOver] at htouch
    exact htouch
  · exact iff_of_true (beginsAt_cons_iff.mpr rfl) (beginsAt_cons_iff.mpr rfl)

end ScansAlike

/-- The scan of a source with remarks leaves tokens that are alike. -/
theorem Scanned.scansAlike (h : Scanned pos cs tokens final rest) (hrest : rest = []) :
    ∀ {before cs' passed pos'}, Scanned .start source passed pos cs → source = before ++ cs →
      Remarked (fun before => ¬ Enclosed source before) before cs cs' → pos'.line = pos.line →
      ScansAlike pos tokens pos' cs' := by
  induction h with
  | @refl pos rest =>
    subst hrest
    intro before cs' passed pos' _ _ hremarked _
    rcases hremarked.nil_cases with rfl | ⟨text, htext, rfl⟩
    · exact ⟨[], pos', .refl, .nil, by simp [BeginsAt]⟩
    · have scanned := scanned_remark pos' htext [] (by simp)
      rw [List.append_nil] at scanned
      exact ⟨[], _, scanned, .nil, by simp [BeginsAt]⟩
  | @step pos final text after rest left others first more ih =>
    intro before cs' passed pos' scanned hsource hremarked hline
    have hbehind : Scanned .start source (passed ++ left) (pos.advanceOver text) after := scanned.trans first.scanned
    have hsource' : source = (before ++ text) ++ after := by rw [hsource, List.append_assoc]
    -- Behind stretches with the same newlines the scans go on alike.
    have behind {text' after' : List Char} (hcount : text'.count '\n' = text.count '\n')
        (hafter : Remarked (fun before => ¬ Enclosed source before) (before ++ text) after after') :
        ScansAlike (pos.advanceOver text) others (pos'.advanceOver text') after' := by
      refine ih hrest hbehind hsource' hafter ?_
      rw [Position.line_advanceOver, Position.line_advanceOver, hcount, hline]
    cases id first with
    | @separator c _ hc =>
      rcases hremarked.cons_cases with ⟨more', rfl, hmore⟩ | ⟨text, more', rfl, htext, -, -, hending, hmore⟩
      · exact (behind rfl hmore).skip more first.ne_nil first.ne_nil (Stretch.separator hc).scanned
      · have hcount : (remark text ++ [c]).count '\n' = [c].count '\n' := by
          rw [List.count_append, List.count_eq_zero_of_not_mem (newline_not_mem_remark htext), Nat.zero_add]
        rw [List.append_cons]
        exact (behind hcount hmore).skip more first.ne_nil (List.cons_ne_nil _ _)
          (scanned_remark_separator pos' htext hending)
    | @lineComment body _ hbody hend =>
      -- A remark at the end of the line makes the comment longer.
      obtain ⟨cs', rfl, hremarked'⟩ := hremarked.beyond ['/', '/'] fun inner outer hsplit houter hends =>
        absurd hends (not_atLineEnd_of_plain (by simp [isSeparator_slash]) hsplit houter)
      obtain ⟨body', after', rfl, hbody', hend', hafter⟩ := hremarked'.overLine hbody hend
      rw [List.append_assoc] at hafter
      have hcount : ('/' :: '/' :: body').count '\n' = ('/' :: '/' :: body).count '\n' := by
        rw [List.count_eq_zero_of_not_mem (by simpa using hbody'), List.count_eq_zero_of_not_mem (by simpa using hbody)]
      exact (behind hcount hafter).skip more first.ne_nil (List.cons_ne_nil _ _)
        (Stretch.lineComment hbody' hend').scanned
    | blockComment hfirst =>
      -- The ends of lines that are inside of the stretch are enclosed, so no remark stands at them.
      obtain ⟨after', rfl, hafter⟩ := hremarked.beyond _ fun inner outer hsplit houter hend =>
        not_not_intro (first.enclosed scanned hsource (.inl (.inr ⟨_, rfl⟩)) hsplit houter hend)
      exact (behind rfl hafter).skip more first.ne_nil first.ne_nil (Stretch.blockComment hfirst).scanned
    | @token c tail _ kind hpiece =>
      have htoken := pieceAt_eq_token_iff.mp hpiece
      obtain ⟨after', rfl, hafter⟩ := hremarked.beyond _ fun inner outer hsplit houter hend =>
        not_not_intro (first.enclosed scanned hsource (htoken.isSeparator_of_mem.imp_left .inl) hsplit houter hend)
      -- What follows is the same in both texts up to a gap, and a token is the same one in front of any gap.
      obtain ⟨same, gap, gap', rfl, rfl, hgap, hgap'⟩ := hafter.exists_gaps
      rw [← List.append_assoc] at htoken
      have htoken' := htoken.append hgap.isBreak hgap' (by simp)
      rw [List.append_assoc] at htoken'
      refine (behind rfl hafter).token hline ?_ (.token (pieceAt_eq_token_iff.mpr htoken'))
      rintro rfl
      cases htoken with
      | punct => rfl

/-- Remarks at the ends of lines change nothing about how a source is read: it has the same tree, on the same lines,
or none for the same reason. They may stand at any end of a line that is not inside of a string or of a block
comment. -/
theorem reader_eq_of_remarked {source remarked : String} {tokens : List Token} (h : tokenize source = .ok tokens)
    (hremarked : Remarked (fun before => ¬ Enclosed source.toList before) [] source.toList remarked.toList) :
    reader remarked = reader source := by
  obtain ⟨final, scanned⟩ := tokensFrom_eq_ok_iff.mp h
  obtain ⟨tokens', final', scanned', hrows, -⟩ := scanned.scansAlike rfl .refl rfl hremarked rfl
  exact (reader_eq_of_alike h (tokensFrom_eq_ok_iff.mpr ⟨final', scanned'⟩) hrows).symm

/-! ### Free ends of lines -/

/-- A stretch is a separator, or a piece that is none. -/
theorem Stretch.exists_head (h : Stretch pos text after left) : ∃ c tail, text = c :: tail ∧
    (isSeparator c = true ∧ tail = [] ∨
      isSeparator c = false ∧ ∃ kind?, pieceAt pos.line c (tail ++ after) = .ok ⟨kind?, c :: tail⟩) := by
  cases h with
  | separator hc => exact ⟨_, [], rfl, .inl ⟨hc, rfl⟩⟩
  | lineComment hbody hend => exact ⟨_, _, rfl, .inr ⟨by decide, none, pieceAt_lineComment _ hbody hend⟩⟩
  | blockComment hfirst => exact ⟨_, _, rfl, .inr ⟨by decide, none, pieceAt_blockComment _ hfirst _⟩⟩
  | token hpiece =>
    exact ⟨_, _, rfl, .inr ⟨(pieceAt_eq_token_iff.mp hpiece).isSeparator_head, some _, hpiece⟩⟩

/-- Where a stretch ends is decided where it begins. -/
theorem Stretch.text_eq {text' after' : List Char} {left' : List Token} (h : Stretch pos text after left)
    (h' : Stretch pos text' after' left') (hsame : text ++ after = text' ++ after') : text = text' := by
  obtain ⟨c, tail, rfl, hkind⟩ := h.exists_head
  obtain ⟨c', tail', rfl, hkind'⟩ := h'.exists_head
  obtain ⟨rfl, htail⟩ : c = c' ∧ tail ++ after = tail' ++ after' := List.cons.inj hsame
  rcases hkind with ⟨hc, rfl⟩ | ⟨hc, kind?, hpiece⟩ <;> rcases hkind' with ⟨hc', rfl⟩ | ⟨hc', kind?', hpiece'⟩
  · rfl
  · simp [hc] at hc'
  · simp [hc] at hc'
  · rw [htail, hpiece', Except.ok.injEq, Piece.mk.injEq] at hpiece
    exact hpiece.2.symm

/-- A scan does not stop inside of a stretch that another one comes to. -/
theorem Scanned.ne_inside {tokens' : List Token} {inner outer : List Char} {stop : Position}
    (h : Scanned pos cs tokens final (inner ++ outer ++ after)) (hinside : Stretch final (inner ++ outer) after left)
    (hinner : inner ≠ []) (houter : outer ≠ []) (other : Scanned pos cs tokens' stop rest) :
    rest ≠ outer ++ after := by
  rintro rfl
  have hinner := List.length_pos_iff.mpr hinner
  have houter := List.length_pos_iff.mpr houter
  generalize htarget : inner ++ outer ++ after = target at h
  induction h generalizing tokens' with
  | @refl pos cs =>
    generalize hrest : outer ++ after = rest at other
    cases other with
    | refl =>
      have hlengths := congrArg List.length (htarget.trans hrest.symm)
      simp only [List.length_append] at hlengths
      omega
    | step first more =>
      -- The other scan passes over the same stretch, to places behind it.
      obtain rfl := hinside.text_eq first htarget
      obtain rfl := List.append_cancel_left htarget
      obtain ⟨front, hfront, -⟩ := more.exists_append
      have hlengths := congrArg List.length hfront
      simp only [← hrest, List.length_append] at hlengths
      omega
  | @step pos _ text behind target _ _ first more ih =>
    generalize hcs : text ++ behind = cs at other
    generalize hrest : outer ++ after = rest at other
    cases other with
    | refl =>
      obtain ⟨front, hfront, -⟩ := more.exists_append
      have hlengths := congrArg List.length (hcs.trans hrest.symm)
      simp only [hfront, ← htarget, List.length_append] at hlengths
      omega
    | step first' more' =>
      obtain rfl := first.text_eq first' hcs
      obtain rfl := List.append_cancel_left hcs
      exact ih hinside (hrest ▸ more') htarget

/-- A place where the scan stops is not inside of anything. -/
theorem not_enclosed_of_scanned (h : Scanned .start (before ++ rest) tokens final rest) :
    ¬ Enclosed (before ++ rest) before := by
  rintro ⟨front, inner, outer, after, passed, pos, left, rfl, hinner, houter, hsource, scanned, stretch, -⟩
  rw [List.append_assoc, List.append_assoc] at hsource
  exact scanned.ne_inside stretch hinner houter h
    (List.append_cancel_left (List.append_cancel_left hsource))

theorem Stretch.append (h : Stretch pos text after left) (hrest : ∀ c ∈ rest.head?, c = '\n') :
    Stretch pos text (after ++ rest) left := by
  cases h with
  | separator hc => exact .separator hc
  | lineComment hbody hend =>
    refine .lineComment hbody ?_
    cases after with
    | nil => exact hrest
    | cons => exact hend
  | blockComment hfirst => exact .blockComment hfirst
  | @token c tail _ kind hpiece =>
    have hgap : Gap rest := fun c hc => hrest c hc ▸ by decide
    have htoken := pieceAt_eq_token_iff.mp hpiece
    rw [← List.append_nil (tail ++ after)] at htoken
    have htoken' := htoken.append gap_nil.isBreak hgap (List.prefix_append (c :: tail) after)
    rw [List.append_assoc] at htoken'
    exact .token (pieceAt_eq_token_iff.mpr htoken')

/-- A scan to the end of a text goes as far where more lines follow. -/
theorem Scanned.append (h : Scanned pos cs tokens final []) (hrest : ∀ c ∈ rest.head?, c = '\n') :
    Scanned pos (cs ++ rest) tokens final rest := by
  generalize hend : [] = stop at h
  induction h with
  | refl =>
    subst hend
    exact .refl
  | step first _ ih =>
    rw [List.append_assoc]
    exact .step (first.append hrest) (ih hend)

/-- The end of a line is not inside of anything if the lines up to it can be scanned by themselves. -/
theorem not_enclosed_of_tokenize {tokens : List Token} (h : tokenize (String.ofList before) = .ok tokens)
    (hrest : ∀ c ∈ rest.head?, c = '\n') : ¬ Enclosed (before ++ rest) before := by
  rw [tokenize, String.toList_ofList, tokensFrom_eq_ok_iff] at h
  obtain ⟨final, scanned⟩ := h
  exact not_enclosed_of_scanned (scanned.append hrest)

theorem Remarked.keepAll {may : List Char → Prop} (h : Remarked may (before ++ text) cs cs') :
    Remarked may before (text ++ cs) (text ++ cs') := by
  induction text generalizing before with
  | nil => rwa [List.append_nil] at h
  | cons c text ih => exact .keep c (ih (by rwa [← List.append_cons]))

/-- Code with a shift, a string that looks like a comment, and a comment over two lines. -/
def plainSource : String :=
  "x = a /* '\n */ >> b;\ny = '//';"

/-- The same with remarks at the ends of the second and the third line. -/
def remarkedSource : String :=
  "x = a /* '\n */ >> b; // it's\ny = '//'; // */"

/-- The remarks stand at ends of lines that are not inside of anything, so the code is read as before. -/
theorem reader_remarkedSource : (∃ tokens, tokenize plainSource = .ok tokens) ∧
    Remarked (fun before => ¬ Enclosed plainSource.toList before) [] plainSource.toList remarkedSource.toList ∧
    reader remarkedSource = reader plainSource := by
  let upper := "x = a /* '\n */ >> b;".toList
  let lower := "y = '//';".toList
  have hplain : plainSource.toList = upper ++ (['\n'] ++ (lower ++ [])) := by decide +kernel
  have hremarked : remarkedSource.toList =
      upper ++ (remark " it's".toList ++ (['\n'] ++ (lower ++ remark " */".toList))) := by decide +kernel
  obtain ⟨tokens, htokens⟩ := Text.exists_of_isOk (show (tokenize plainSource).isOk = true by decide +kernel)
  obtain ⟨_, hupper⟩ := Text.exists_of_isOk (show (tokenize (String.ofList upper)).isOk = true by decide +kernel)
  have hsecond : ¬ Enclosed plainSource.toList upper := by
    rw [hplain]
    exact not_enclosed_of_tokenize hupper (by simp)
  have hthird : ¬ Enclosed plainSource.toList (upper ++ ['\n'] ++ lower) := by
    have hwhole : plainSource.toList = (upper ++ ['\n'] ++ lower) ++ [] := by simpa using hplain
    rw [← String.ofList_toList (s := plainSource), hwhole, List.append_nil] at htokens
    rw [hwhole]
    exact not_enclosed_of_tokenize htokens (fun _ hc => nomatch hc)
  have remarked : Remarked (fun before => ¬ Enclosed plainSource.toList before) [] (upper ++ (['\n'] ++ (lower ++ [])))
      (upper ++ (remark " it's".toList ++ (['\n'] ++ (lower ++ remark " */".toList)))) :=
    .keepAll (.atLineEnd (.inl rfl) hsecond (by decide) (.keepAll (.atEnd hthird (by decide))))
  rw [← hplain, ← hremarked] at remarked
  exact ⟨⟨tokens, htokens⟩, remarked, reader_eq_of_remarked htokens remarked⟩

end Exemplar.Code
