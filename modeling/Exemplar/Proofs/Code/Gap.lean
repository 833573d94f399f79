import Exemplar.Proofs.Code.Stretch

/-!
# Tokens and gaps

A token ends in front of a gap, whatever the gap is made of: the scan looks behind a token only at what could go on
with it, and no token goes on with a separator. So a text is cut into the same tokens in front of any gap. No token
goes on with a slash either, though a slash may follow what would be a token of its own in front of a gap.
-/

namespace Exemplar.Code

/-- A text that is empty or begins with a separator. -/
def Gap (cs : List Char) : Prop :=
  ∀ c ∈ cs.head?, isSeparator c = true

/-- A character that no token goes on with. -/
def endsToken (c : Char) : Bool :=
  isSeparator c || c == '/'

/-- A text that is empty or begins with a character that no token goes on with. -/
def Break (cs : List Char) : Prop :=
  ∀ c ∈ cs.head?, endsToken c = true

variable {gap other text word : List Char} {c : Char} {line : Nat} {kind : TokenKind}

theorem gap_nil : Gap [] :=
  fun _ h => nomatch h

theorem gap_cons_iff {cs : List Char} : Gap (c :: cs) ↔ isSeparator c = true := by
  simp [Gap]

theorem break_cons_iff {cs : List Char} : Break (c :: cs) ↔ endsToken c = true := by
  simp [Break]

theorem endsToken_of_isSeparator (h : isSeparator c = true) : endsToken c = true := by
  rw [endsToken, h, Bool.true_or]

theorem Gap.isBreak (h : Gap gap) : Break gap :=
  fun c hc => endsToken_of_isSeparator (h c hc)

/-! ### What no token goes on with -/

theorem isNameChar_of_endsToken (h : endsToken c = true) : isNameChar c = false := by
  rcases Bool.or_eq_true_iff.mp h with hc | hc
  · have hmem := mem_of_isSeparator hc
    simp only [List.mem_cons, List.not_mem_nil, or_false] at hmem
    rcases hmem with rfl | rfl | rfl | rfl | rfl <;> decide
  · obtain rfl := beq_iff_eq.mp hc
    decide

theorem isAlphanum_of_endsToken (h : endsToken c = true) : c.isAlphanum = false := by
  have hname := isNameChar_of_endsToken h
  simp only [isNameChar, Text.isIdentChar, Bool.or_eq_false_iff] at hname
  exact hname.1.1

theorem isSeparator_slash : isSeparator '/' = false :=
  rfl

theorem isSeparator_star : isSeparator '*' = false :=
  rfl

theorem Symbol.isSeparator_of_mem (symbol : Symbol) : ∀ c ∈ symbol.spelling.toList, isSeparator c = false := by
  have hnone : symbol.spelling.toList.any isSeparator = false := by
    cases symbol <;> rfl
  intro c hc
  simpa using List.any_eq_false.mp hnone c hc

/-- Only the first character of a symbol may be one that no token goes on with. -/
theorem Symbol.endsToken_of_mem {first : Char} {tail : List Char} (symbol : Symbol)
    (h : symbol.spelling.toList = first :: tail) : ∀ c ∈ tail, endsToken c = false := by
  have hnone : symbol.spelling.toList.tail.any endsToken = false := by
    cases symbol <;> rfl
  rw [h, List.tail_cons] at hnone
  intro c hc
  simpa using List.any_eq_false.mp hnone c hc

theorem isSeparator_of_mem_numberTail (cs : List Char) : ∀ c ∈ numberTail cs, isSeparator c = false := by
  intro c hc
  by_contra hseparator
  rw [Bool.not_eq_false] at hseparator
  fun_induction numberTail cs with
  | case1 | case3 => cases hc
  | case2 d cs hgoes ih =>
    rcases List.mem_cons.mp hc with rfl | hlater
    · simp only [isAlphanum_of_endsToken (endsToken_of_isSeparator hseparator), Bool.false_eq_true, false_or,
        Bool.or_eq_true, Bool.and_eq_true, beq_iff_eq] at hgoes
      exact absurd (hgoes.1 ▸ hseparator) (by decide)
    · exact ih hlater

/-! ### Looking behind a text -/

theorem Break.takeWhile_append (h : Break gap) {test : Char → Bool}
    (htest : ∀ c, endsToken c = true → test c = false) (cs : List Char) :
    (cs ++ gap).takeWhile test = cs.takeWhile test := by
  have hstop : gap.takeWhile test = [] := by
    cases gap with
    | nil => rfl
    | cons c gap => exact List.takeWhile_cons_of_neg (by simp [htest c (break_cons_iff.mp h)])
  induction cs with
  | nil => exact hstop
  | cons c cs ih => rw [List.cons_append, List.takeWhile_cons, List.takeWhile_cons, ih]

theorem Break.numberTail_append (h : Break gap) (cs : List Char) : numberTail (cs ++ gap) = numberTail cs := by
  have hhead : gap.head?.any Char.isDigit = false := by
    cases gap with
    | nil => rfl
    | cons c gap =>
      have hc := isAlphanum_of_endsToken (break_cons_iff.mp h)
      rw [Char.isAlphanum, Bool.or_eq_false_iff] at hc
      exact hc.2
  have hstop : numberTail gap = [] := by
    cases gap with
    | nil => rfl
    | cons c gap =>
      have hc := break_cons_iff.mp h
      have hdot : (c == '.') = false := beq_eq_false_iff_ne.mpr fun heq => absurd (heq ▸ hc) (by decide)
      rw [numberTail, isAlphanum_of_endsToken hc, hdot]
      rfl
  induction cs with
  | nil => exact hstop
  | cons c cs ih =>
    -- A point belongs to the number by what follows it, which may be the gap.
    have hnext : (cs ++ gap).head?.any Char.isDigit = cs.head?.any Char.isDigit := by
      cases cs with
      | nil => exact hhead
      | cons _ _ => rfl
    rw [List.cons_append, numberTail, numberTail, ih, hnext]

theorem Break.isPrefixOf_append (h : Break gap) (hword : ∀ c ∈ word, endsToken c = false) (cs : List Char) :
    word.isPrefixOf (cs ++ gap) = word.isPrefixOf cs := by
  induction word generalizing cs with
  | nil => rw [List.isPrefixOf_nil_left, List.isPrefixOf_nil_left]
  | cons w word ih =>
    cases cs with
    | nil =>
      cases gap with
      | nil => rfl
      | cons c gap =>
        have hne : (w == c) = false := beq_eq_false_iff_ne.mpr fun heq =>
          absurd (break_cons_iff.mp h) (by simp [← heq, hword w])
        rw [List.nil_append, List.isPrefixOf_cons_cons, hne]
        rfl
    | cons c cs =>
      rw [List.cons_append, List.isPrefixOf_cons_cons, List.isPrefixOf_cons_cons,
        ih (fun c hc => hword c (List.mem_cons_of_mem _ hc))]

theorem Break.longestAt?_append (h : Break gap) (c : Char) (cs : List Char) :
    Symbol.longestAt? (c :: (cs ++ gap)) = Symbol.longestAt? (c :: cs) := by
  unfold Symbol.longestAt?
  congr 1
  funext symbol
  obtain ⟨first, tail, hspelling⟩ := List.exists_cons_of_ne_nil symbol.spelling_ne_nil
  rw [hspelling, List.isPrefixOf_cons_cons, List.isPrefixOf_cons_cons,
    h.isPrefixOf_append (symbol.endsToken_of_mem hspelling)]

/-- A gap behind a text is no part of what opens a comment. -/
theorem Gap.opening_append {cs : List Char} {mark : Char} (h : Gap gap) (hmark : isSeparator mark = false)
    (hnot : ['/', mark].isPrefixOf (c :: (cs ++ other)) = false) :
    ['/', mark].isPrefixOf (c :: (cs ++ gap)) = false := by
  cases cs with
  | cons _ _ => exact hnot
  | nil =>
    cases gap with
    | nil => exact Bool.and_false _
    | cons d gap =>
      have hne : (mark == d) = false := beq_eq_false_iff_ne.mpr fun heq =>
        absurd (gap_cons_iff.mp h) (by simp [← heq, hmark])
      rw [List.nil_append, List.isPrefixOf_cons_cons, List.isPrefixOf_cons_cons, hne, Bool.false_and, Bool.and_false]

/-! ### Tokens in front of gaps -/

/-- How a token begins, and where it ends then. -/
inductive TokenAt (c : Char) (cs : List Char) : TokenKind → List Char → Prop
  | str {tail : List Char} (hc : c = '\'') (closed : stringTail? cs = some tail) : TokenAt c cs .str (c :: tail)
  | ident (hc : isNameStart c = true) : TokenAt c cs .ident (c :: cs.takeWhile isNameChar)
  | number (hname : isNameStart c = false) (hc : c.isDigit = true) : TokenAt c cs .number (c :: numberTail cs)
  | punct {symbol : Symbol} (hquote : c ≠ '\'') (hname : isNameStart c = false) (hdigit : c.isDigit = false)
      (hline : ['/', '/'].isPrefixOf (c :: cs) = false) (hblock : ['/', '*'].isPrefixOf (c :: cs) = false)
      (longest : Symbol.longestAt? (c :: cs) = some symbol) : TokenAt c cs (.punct symbol) symbol.spelling.toList

theorem isNameChar_of_isNameStart (h : isNameStart c = true) : isNameChar c = true := by
  rw [isNameStart, Bool.or_eq_true] at h
  rw [isNameChar, Bool.or_eq_true]
  exact h.imp_left Text.isIdentChar_of_isIdentStart

namespace TokenAt

variable {cs : List Char}

/-- No token begins with a separator. -/
theorem isSeparator_head (h : TokenAt c cs kind text) : isSeparator c = false := by
  by_contra hnot
  rw [Bool.not_eq_false] at hnot
  have hname := isNameChar_of_endsToken (endsToken_of_isSeparator hnot)
  have hdigit := isAlphanum_of_endsToken (endsToken_of_isSeparator hnot)
  cases h with
  | str hc => exact absurd (hc ▸ hnot) (by decide)
  | ident hc => simp [isNameChar_of_isNameStart hc] at hname
  | number _ hc => simp [Char.isAlphanum, hc] at hdigit
  | punct _ _ _ _ _ longest =>
    obtain ⟨d, tail, hspelling⟩ := List.exists_cons_of_ne_nil (Symbol.spelling_ne_nil _)
    have hstands := Symbol.prefix_of_longestAt? longest
    rw [hspelling] at hstands
    obtain ⟨rfl, -⟩ := List.cons_prefix_cons.mp hstands
    exact absurd hnot (by simp [Symbol.isSeparator_of_mem _ d (hspelling ▸ List.mem_cons_self)])

/-- Every token but a string is without separators. -/
theorem isSeparator_of_mem (h : TokenAt c cs kind text) :
    ['\''] <+: text ∨ ∀ d ∈ text, isSeparator d = false := by
  have hhead := h.isSeparator_head
  cases h with
  | str hc => exact .inl (List.cons_prefix_cons.mpr ⟨hc.symm, List.nil_prefix⟩)
  | ident _ =>
    refine .inr fun d hd => (List.mem_cons.mp hd).elim (· ▸ hhead) fun htail => ?_
    by_contra hnot
    rw [Bool.not_eq_false] at hnot
    have hname := isNameChar_of_endsToken (endsToken_of_isSeparator hnot)
    exact absurd (List.all_eq_true.mp List.all_takeWhile d htail) (by simp [hname])
  | number =>
    exact .inr fun d hd => (List.mem_cons.mp hd).elim (· ▸ hhead) (isSeparator_of_mem_numberTail _ d)
  | @punct symbol => exact .inr symbol.isSeparator_of_mem

/-- A token is the same one in front of any gap behind it. -/
theorem append (h : TokenAt c (cs ++ gap) kind text) (hgap : Break gap) (hother : Gap other)
    (within : text <+: c :: cs) : TokenAt c (cs ++ other) kind text := by
  cases h with
  | str hc closed => exact .str hc (stringTail?_append closed (List.cons_prefix_cons.mp within).2 other)
  | ident hc =>
    rw [hgap.takeWhile_append fun _ => isNameChar_of_endsToken]
    rw [← hother.isBreak.takeWhile_append fun _ => isNameChar_of_endsToken]
    exact .ident hc
  | number hname hc =>
    rw [hgap.numberTail_append, ← hother.isBreak.numberTail_append]
    exact .number hname hc
  | punct hquote hname hdigit hline hblock longest =>
    have hline' := hother.opening_append isSeparator_slash hline
    have hblock' := hother.opening_append isSeparator_star hblock
    refine .punct hquote hname hdigit hline' hblock' ?_
    rw [hgap.longestAt?_append] at longest
    rw [hother.isBreak.longestAt?_append, longest]

end TokenAt

/-- The pieces that are tokens. -/
theorem pieceAt_eq_token_iff {cs : List Char} :
    pieceAt line c cs = .ok ⟨some kind, text⟩ ↔ TokenAt c cs kind text := by
  constructor
  · intro h
    have hbegins := beginsWith_pieceAt line c cs
    rw [h] at hbegins
    cases hbegins with
    | string closed => exact .str rfl closed
    | name hname => exact .ident hname
    | number hname hdigit => exact .number hname hdigit
    | symbol hline hblock hquote hname hdigit longest => exact .punct hquote hname hdigit hline hblock longest
  · intro h
    have hseparator := h.isSeparator_head
    -- A token that is no punctuation begins with a character that opens no comment.
    have hopening (hc : c ≠ '/') (d : Char) : ['/', d].isPrefixOf (c :: cs) = false := by
      rw [List.isPrefixOf_cons_cons, beq_eq_false_iff_ne.mpr hc.symm, Bool.false_and]
    unfold pieceAt
    rw [hseparator, if_neg Bool.false_ne_true]
    cases h with
    | str hc closed =>
      obtain rfl := hc
      simp [hopening, closed]
    | ident hc =>
      have hslash : c ≠ '/' := fun heq => absurd (heq ▸ hc) (by decide)
      have hquote : c ≠ '\'' := fun heq => absurd (heq ▸ hc) (by decide)
      simp [hopening hslash, hquote, hc]
    | number hname hc =>
      have hslash : c ≠ '/' := fun heq => absurd (heq ▸ hc) (by decide)
      have hquote : c ≠ '\'' := fun heq => absurd (heq ▸ hc) (by decide)
      simp [hopening hslash, hquote, hname, hc]
    | punct hquote hname hdigit hline hblock longest =>
      simp [hline, hblock, hquote, hname, hdigit, longest]

end Exemplar.Code
