import Exemplar.Proofs.Code.Gap
import Exemplar.Proofs.Code.Keyword
import Exemplar.Proofs.Code.Layout
import Exemplar.Proofs.Code.Mark

/-!
# What the search for nested classes sees

The search goes over a source as the scan for tokens does, stretch by stretch. It passes over comments and strings,
and reads numbers and names in its own way, which makes a difference only where `class` is a part of them. Behind
each stretch it is where the marks of the tokens lead to.
-/

namespace Exemplar.Code

variable {braces : Braces} {last? : Option Char} {c : Char} {cs text after body : List Char}
  {token : Token} {tokens : List Token}

/-! ### The last character seen -/

/-- The last character of a text that is not blank, or the last one before it. -/
def seen (last? : Option Char) (cs : List Char) : Option Char :=
  cs.foldl (fun last? c => if Text.isBlank c then last? else some c) last?

theorem seen_append (last? : Option Char) (cs more : List Char) :
    seen last? (cs ++ more) = seen (seen last? cs) more :=
  List.foldl_append

theorem seen_none (cs : List Char) : seen none cs = (Text.trimEnd cs).getLast? := by
  induction cs using List.reverseRecOn with
  | nil => rfl
  | append_singleton cs c ih =>
    rw [seen_append, ih, Text.trimEnd, Text.trimEnd, List.reverse_append]
    by_cases hc : Text.isBlank c = true <;> simp [seen, hc]

/-- What is skipped is only looked at for its last character. -/
theorem nestsFrom_skip (text after : List Char) :
    nestsFrom braces text.length last? (text ++ after) = nestsFrom braces 0 (seen last? text) after := by
  induction text generalizing last? with
  | nil => rfl
  | cons c text ih => exact ih

/-! ### What the search passes over -/

/-- A character that means nothing to the search wherever it stands. -/
def isInert (c : Char) : Bool :=
  !List.contains ['/', '\'', '\x7b', '\x7d', ';'] c && !Text.isIdentStart c

theorem nestsFrom_inert (h : isInert c = true) (cs : List Char) :
    nestsFrom braces 0 last? (c :: cs) = nestsFrom braces 0 (seen last? [c]) cs := by
  simp only [isInert, Bool.and_eq_true, Bool.not_eq_true', List.contains_cons, Bool.or_eq_false_iff,
    beq_eq_false_iff_ne] at h
  obtain ⟨⟨hslash, hquote, hopen, hclose, hend, -⟩, hstart⟩ := h
  simp [nestsFrom, seen, hslash.symm, hquote, hopen, hclose, hend, hstart]

theorem nestsFrom_lineComment (hbody : '\n' ∉ body) (hend : ∀ c ∈ after.head?, c = '\n') :
    nestsFrom braces 0 last? ('/' :: '/' :: body ++ after) =
      nestsFrom braces 0 (seen last? ('/' :: '/' :: body)) after := by
  have hline : ('/' :: body ++ after).takeWhile (· != '\n') = '/' :: body :=
    takeWhile_line (by simp [hbody]) hend
  have hopen : ['/', '/'].isPrefixOf ('/' :: ('/' :: body ++ after)) = true := rfl
  rw [List.cons_append, nestsFrom, if_pos hopen, hline, nestsFrom_skip]
  rfl

theorem append_afterBlockComment {tail : List Char} (h : blockCommentTail? cs = some tail) :
    tail ++ afterBlockComment cs = cs := by
  fun_induction blockCommentTail? cs generalizing tail with
  | case1 => cases h
  | case2 cs =>
    cases h
    rfl
  | case3 c cs hopen ih =>
    obtain ⟨more, hmore, rfl⟩ := Option.map_eq_some_iff.mp h
    rw [afterBlockComment.eq_3 _ _ hopen, List.cons_append, ih hmore]

theorem nestsFrom_blockComment (hfirst : ¬ ['*', '/'] <:+: body ++ ['*']) (after : List Char) :
    nestsFrom braces 0 last? ('/' :: '*' :: (body ++ ['*', '/']) ++ after) =
      nestsFrom braces 0 (seen last? ('/' :: '*' :: (body ++ ['*', '/']))) after := by
  have hline : ¬ ['/', '/'].isPrefixOf ('/' :: ('*' :: (body ++ ['*', '/']) ++ after)) = true := nofun
  have hopen : ['/', '*'].isPrefixOf ('/' :: ('*' :: (body ++ ['*', '/']) ++ after)) = true := rfl
  have hclosed : blockCommentTail? (body ++ ['*', '/'] ++ after) = some (body ++ ['*', '/']) := by
    rw [List.append_assoc]
    exact blockCommentTail?_of_first hfirst after
  have hbehind : afterBlockComment (body ++ ['*', '/'] ++ after) = after :=
    List.append_cancel_left (append_afterBlockComment hclosed)
  have hskip : ('*' :: (body ++ ['*', '/']) ++ after).length - after.length =
      ('*' :: (body ++ ['*', '/'])).length := by
    rw [List.length_append, Nat.add_sub_cancel]
  rw [List.cons_append, nestsFrom, if_neg hline, if_pos hopen, List.cons_append, List.drop_one, List.tail_cons,
    hbehind, ← List.cons_append, hskip, nestsFrom_skip]
  rfl

theorem append_afterString {tail : List Char} (h : stringTail? cs = some tail) :
    tail ++ afterString cs = cs := by
  fun_induction stringTail? cs generalizing tail with
  | case1 | case3 | case4 | case5 => cases h
  | case2 cs =>
    cases h
    rfl
  | case6 c cs hline ih =>
    obtain ⟨more, hmore, rfl⟩ := Option.map_eq_some_iff.mp h
    rw [afterString, List.cons_append, List.cons_append, ih hmore]
  | case7 c cs hquote hline hend hbreak hpair ih =>
    obtain ⟨more, hmore, rfl⟩ := Option.map_eq_some_iff.mp h
    rw [afterString.eq_5 _ _ hquote hline hpair, List.cons_append, ih hmore]

theorem nestsFrom_string {tail : List Char} (h : stringTail? (tail ++ after) = some tail) :
    nestsFrom braces 0 last? ('\'' :: tail ++ after) =
      nestsFrom braces 0 (seen last? ('\'' :: tail)) after := by
  have hbehind : afterString (tail ++ after) = after := List.append_cancel_left (append_afterString h)
  have hskip : (tail ++ after).length - after.length = tail.length := by
    rw [List.length_append, Nat.add_sub_cancel]
  have hopening (d : Char) : ¬ ['/', d].isPrefixOf ('\'' :: (tail ++ after)) = true := by
    simp
  rw [List.cons_append, nestsFrom, if_neg (hopening _), if_neg (hopening _), if_pos (by decide), hbehind, hskip,
    nestsFrom_skip]
  rfl

theorem isInert_of_isSeparator (h : isSeparator c = true) : isInert c = true := by
  have hall : [' ', '\t', '\r', '\n', '\x0c'].all isInert = true := by decide
  exact List.all_eq_true.mp hall c (mem_of_isSeparator h)

/-! ### Words -/

/-- A run of identifier characters. -/
theorem nestsFrom_word (hc : Text.isIdentStart c = true) (cs : List Char) :
    nestsFrom braces 0 last? (c :: cs) =
      nestsFrom { braces with pending := braces.pending || (Text.sameIgnoringCase
          (c :: cs.takeWhile Text.isIdentChar) "class".toList && last? != some '.') }
        (cs.takeWhile Text.isIdentChar).length (seen last? [c]) cs := by
  have hopening (d : Char) : ¬ ['/', d].isPrefixOf (c :: cs) = true := by
    intro hslash
    obtain ⟨rfl, -⟩ := List.cons_prefix_cons.mp (List.isPrefixOf_iff_prefix.mp hslash)
    exact absurd hc (by decide)
  have hplain (d : Char) (hd : Text.isIdentStart d = false) : ¬ (c == d) = true := by
    intro heq
    rw [beq_iff_eq.mp heq, hd] at hc
    cases hc
  rw [nestsFrom, if_neg (hopening _), if_neg (hopening _), if_neg (hplain _ (by decide)),
    if_neg (hplain _ (by decide)), if_neg (hplain _ (by decide)), if_neg (hplain _ (by decide)), if_pos hc]
  rfl

/-- A whole word, in front of something else. -/
theorem nestsFrom_ident {tail : List Char} (hc : Text.isIdentStart c = true)
    (htail : (tail ++ after).takeWhile Text.isIdentChar = tail) :
    nestsFrom braces 0 last? (c :: tail ++ after) =
      nestsFrom { braces with pending := braces.pending ||
          (Text.sameIgnoringCase (c :: tail) "class".toList && last? != some '.') } 0
        (seen last? (c :: tail)) after := by
  rw [List.cons_append, nestsFrom_word hc, htail, nestsFrom_skip, ← seen_append, List.singleton_append]

/-- The rest of a word that is not `class` may as well be looked at. -/
theorem nestsFrom_restOfWord (hafter : ∀ c ∈ after.head?, c = '_' ∨ Text.isIdentChar c = false) :
    nestsFrom braces (after.takeWhile Text.isIdentChar).length last? after = nestsFrom braces 0 last? after := by
  cases after with
  | nil => rfl
  | cons c rest =>
    rcases hafter c rfl with rfl | hother
    · have hword : Text.sameIgnoringCase ('_' :: rest.takeWhile Text.isIdentChar) "class".toList = false := by
        rw [Text.sameIgnoringCase, beq_eq_false_iff_ne]
        intro h
        cases h
      rw [nestsFrom_word (by decide), hword, Bool.false_and, Bool.or_false,
        List.takeWhile_cons_of_pos (by decide)]
      rfl
    · rw [List.takeWhile_cons_of_neg (by simp [hother]), List.length_nil]

theorem lower_class : Text.lower "class".toList = "class".toList := by decide

/-- What a number or a name with a currency sign is made of. -/
def isTame (c : Char) : Bool :=
  Text.isIdentChar c || c == '$' || c == '.'

theorem isInert_of_isTame (h : isTame c = true) (hstart : Text.isIdentStart c = false) : isInert c = true := by
  have hplain : ['/', '\'', '\x7b', '\x7d', ';'].any isTame = false := by decide
  have hcontains : ['/', '\'', '\x7b', '\x7d', ';'].contains c = false := by
    rw [List.contains_eq_mem, decide_eq_false_iff_not]
    intro hmem
    rw [List.any_eq_false] at hplain
    exact hplain c hmem h
  rw [isInert, hcontains, hstart]
  rfl

/-- A word that begins in front of `after` is not `class` if no part of the text is. -/
theorem sameIgnoringCase_takeWhile (hclass : ¬ "class".toList <:+: Text.lower (c :: text))
    (hafter : ∀ c ∈ after.head?, c = '_' ∨ Text.isIdentChar c = false) :
    Text.sameIgnoringCase (c :: (text ++ after).takeWhile Text.isIdentChar) "class".toList = false := by
  rw [Text.sameIgnoringCase, beq_eq_false_iff_ne, lower_class, List.takeWhile_append]
  intro hsame
  split at hsame
  case isTrue =>
    cases hrun : after.takeWhile Text.isIdentChar with
    | nil =>
      rw [hrun, List.append_nil] at hsame
      exact hclass (hsame ▸ List.infix_rfl)
    | cons d run =>
      -- The word goes on with an underscore, which `class` has none of.
      obtain ⟨rest, rfl⟩ : ∃ rest, after = d :: rest := by
        obtain ⟨rest, hrest⟩ := List.takeWhile_prefix (l := after) Text.isIdentChar
        exact ⟨run ++ rest, by rw [← hrest, hrun, List.cons_append]⟩
      have hident : Text.isIdentChar d = true :=
        List.all_eq_true.mp List.all_takeWhile d (hrun ▸ List.mem_cons_self)
      obtain rfl : d = '_' := (hafter d rfl).resolve_right (by simp [hident])
      have hmem : Char.toLower '_' ∈ "class".toList := by
        rw [← hsame, hrun]
        exact List.mem_map_of_mem (by simp)
      exact absurd hmem (by decide)
  case isFalse =>
    refine hclass (hsame ▸ List.IsPrefix.isInfix (List.IsPrefix.map _ ?_))
    exact List.cons_prefix_cons.mpr ⟨rfl, List.takeWhile_prefix _⟩

/-- Numbers and names with a currency sign are passed over, unless `class` is a part of them. -/
theorem nestsFrom_tame (htame : text.all isTame = true) (hclass : ¬ "class".toList <:+: Text.lower text)
    (hafter : ∀ c ∈ after.head?, c = '_' ∨ Text.isIdentChar c = false) :
    nestsFrom braces 0 last? (text ++ after) = nestsFrom braces 0 (seen last? text) after ∧
    nestsFrom braces ((text ++ after).takeWhile Text.isIdentChar).length last? (text ++ after) =
      nestsFrom braces 0 (seen last? text) after := by
  -- In front of each character, the search either looks at it or is inside of a word.
  induction text generalizing last? with
  | nil => exact ⟨rfl, nestsFrom_restOfWord hafter⟩
  | cons c text ih =>
    rw [List.all_cons, Bool.and_eq_true] at htame
    have hmore : ¬ "class".toList <:+: Text.lower text := fun h =>
      hclass (h.trans (List.suffix_cons _ _).isInfix)
    have hrest := @ih (seen last? [c]) htame.2 hmore
    rw [← seen_append, List.singleton_append] at hrest
    have hlook : nestsFrom braces 0 last? (c :: text ++ after) =
        nestsFrom braces 0 (seen last? (c :: text)) after := by
      cases hc : Text.isIdentStart c with
      | true =>
        rw [List.cons_append, nestsFrom_word hc, sameIgnoringCase_takeWhile hclass hafter, Bool.false_and,
          Bool.or_false]
        exact hrest.2
      | false =>
        rw [List.cons_append, nestsFrom_inert (isInert_of_isTame htame.1 hc)]
        exact hrest.1
    refine ⟨hlook, ?_⟩
    cases hc : Text.isIdentChar c with
    | true =>
      rw [List.cons_append, List.takeWhile_cons_of_pos hc, List.length_cons]
      exact hrest.2
    | false =>
      rw [List.cons_append, List.takeWhile_cons_of_neg (by simp [hc]), List.length_nil, ← List.cons_append]
      exact hlook

/-! ### Tokens -/

theorem nestsFrom_inerts (h : text.all isInert = true) (after : List Char) :
    nestsFrom braces 0 last? (text ++ after) = nestsFrom braces 0 (seen last? text) after := by
  induction text generalizing last? with
  | nil => rfl
  | cons c text ih =>
    rw [List.all_cons, Bool.and_eq_true] at h
    rw [List.cons_append, nestsFrom_inert h.1, ih h.2]
    rfl

/-- A slash that opens no comment. -/
theorem nestsFrom_slash (hline : ['/', '/'].isPrefixOf ('/' :: cs) = false)
    (hblock : ['/', '*'].isPrefixOf ('/' :: cs) = false) :
    nestsFrom braces 0 last? ('/' :: cs) = nestsFrom braces 0 (seen last? ['/']) cs := by
  have hstart : Text.isIdentStart '/' = false := by decide
  simp [nestsFrom, hline, hblock, hstart, seen]

theorem nestsFrom_openBrace (cs : List Char) : nestsFrom braces 0 last? ('\x7b' :: cs) =
    (braces.pending && !braces.bodies.isEmpty || nestsFrom braces.opened 0 (seen last? ['\x7b']) cs) := by
  simp [nestsFrom, seen]

theorem nestsFrom_closeBrace (cs : List Char) : nestsFrom braces 0 last? ('\x7d' :: cs) =
    nestsFrom braces.closed 0 (seen last? ['\x7d']) cs := by
  simp [nestsFrom, seen]

theorem nestsFrom_semicolon (cs : List Char) : nestsFrom braces 0 last? (';' :: cs) =
    nestsFrom { braces with pending := false } 0 (seen last? [';']) cs := by
  simp [nestsFrom, seen]

theorem Symbol.all_isInert (symbol : Symbol) :
    symbol ∈ [.openBrace, .closeBrace, .semicolon, .slash, .divideAssign] ∨
      symbol.spelling.toList.all isInert = true := by
  cases symbol <;> decide

/-- The spelling of a symbol leaves the mark that the symbol stands for. -/
theorem nestsFrom_symbol {symbol : Symbol} {marks : List Mark}
    (hline : ['/', '/'].isPrefixOf (symbol.spelling.toList ++ after) = false)
    (hblock : ['/', '*'].isPrefixOf (symbol.spelling.toList ++ after) = false)
    (hrest : ∀ braces, nestsFrom braces 0 (seen last? symbol.spelling.toList) after = Braces.nests braces marks) :
    nestsFrom braces 0 last? (symbol.spelling.toList ++ after) = braces.nests (symbol.mark?.toList ++ marks) := by
  rcases symbol.all_isInert with hspecial | hinert
  · simp only [List.mem_cons, List.not_mem_nil, or_false] at hspecial
    rcases hspecial with rfl | rfl | rfl | rfl | rfl
    · exact (nestsFrom_openBrace after).trans (congrArg _ (hrest _))
    · exact (nestsFrom_closeBrace after).trans (hrest _)
    · exact (nestsFrom_semicolon after).trans (hrest _)
    · exact (nestsFrom_slash hline hblock).trans (hrest _)
    · -- The search looks at the equals sign by itself.
      have hequals : ['='].all isInert = true := by decide
      exact ((nestsFrom_slash hline hblock).trans (nestsFrom_inerts hequals after)).trans (hrest _)
  · have hmark : symbol.mark? = none := by
      revert hinert
      cases symbol <;> first | exact fun _ => rfl | exact fun hinert => absurd hinert (by decide)
    rw [nestsFrom_inerts hinert, hrest, hmark]
    rfl

/-- A run that was taken ends where it must. -/
theorem head?_of_takeWhile_append {test : Char → Bool} (h : (text ++ after).takeWhile test = text) :
    ∀ c ∈ after.head?, test c = false := by
  induction text with
  | nil =>
    intro c hc
    cases after with
    | nil => cases hc
    | cons d after =>
      cases hc
      by_contra htest
      rw [Bool.not_eq_false] at htest
      rw [List.nil_append, List.takeWhile_cons_of_pos htest] at h
      cases h
  | cons d text ih =>
    rw [List.cons_append, List.takeWhile_cons] at h
    split at h
    · exact ih (List.cons.inj h).2
    · cases h

theorem head?_of_numberTail_append (h : numberTail (text ++ after) = text) :
    ∀ c ∈ after.head?, c.isAlphanum = false := by
  induction text with
  | nil =>
    intro c hc
    cases after with
    | nil => cases hc
    | cons d after =>
      cases hc
      by_contra halnum
      rw [Bool.not_eq_false] at halnum
      rw [List.nil_append, numberTail, halnum, Bool.true_or, if_pos rfl] at h
      cases h
  | cons d text ih =>
    rw [List.cons_append, numberTail] at h
    split at h
    · exact ih (List.cons.inj h).2
    · cases h

theorem all_isTame_numberTail (cs : List Char) : (numberTail cs).all isTame = true := by
  fun_induction numberTail cs with
  | case1 | case3 => rfl
  | case2 c cs hc ih =>
    rw [List.all_cons, ih, Bool.and_true, isTame, Text.isIdentChar]
    simp only [Bool.or_eq_true, Bool.and_eq_true] at hc
    rcases hc with halnum | ⟨hdot, -⟩
    · simp [halnum]
    · simp [hdot]

/-- A number or a name with a currency sign in it. -/
def Token.IsMixed (token : Token) : Prop :=
  token.kind = .number ∨ token.kind = .ident ∧ '$' ∈ token.text.toList

theorem isTame_of_isNameChar (h : isNameChar c = true) : isTame c = true := by
  rw [isNameChar] at h
  rw [isTame, h, Bool.true_or]

/-- A name is read as a whole, in front of what is no part of it. -/
theorem nestsFrom_name {tail : List Char} (hc : isNameStart c = true)
    (htail : (tail ++ after).takeWhile isNameChar = tail)
    (hclass : '$' ∈ c :: tail → ¬ "class".toList <:+: Text.lower (c :: tail)) :
    nestsFrom braces 0 last? (c :: tail ++ after) =
      nestsFrom { braces with pending := braces.pending ||
          (Text.sameIgnoringCase (c :: tail) "class".toList && last? != some '.') } 0
        (seen last? (c :: tail)) after := by
  have hall : ∀ d ∈ tail, isNameChar d = true := fun d hd =>
    List.all_eq_true.mp List.all_takeWhile d (htail ▸ hd)
  have hstop : ∀ d ∈ after.head?, Text.isIdentChar d = false := fun d hd =>
    (Bool.or_eq_false_iff.mp (head?_of_takeWhile_append htail d hd)).1
  by_cases hdollar : '$' ∈ c :: tail
  · -- The search reads several words here, none of which is `class`, and neither is the name.
    have hname : Text.sameIgnoringCase (c :: tail) "class".toList = false := by
      rw [Text.sameIgnoringCase, beq_eq_false_iff_ne]
      intro hsame
      exact hclass hdollar (hsame ▸ lower_class ▸ List.infix_rfl)
    have htame : (c :: tail).all isTame = true := by
      rw [List.all_cons, isTame_of_isNameChar (isNameChar_of_isNameStart hc), Bool.true_and, List.all_eq_true]
      exact fun d hd => isTame_of_isNameChar (hall d hd)
    rw [hname, Bool.false_and, Bool.or_false]
    exact (nestsFrom_tame htame (hclass hdollar) fun d hd => .inr (hstop d hd)).1
  · -- Without the sign, a name is just what the search takes for a word.
    have hplain : ∀ d ∈ c :: tail, d ≠ '$' := fun d hd heq => hdollar (heq ▸ hd)
    have hstart : Text.isIdentStart c = true := by
      simpa [isNameStart, hplain c List.mem_cons_self] using hc
    refine nestsFrom_ident hstart ?_
    have hword : ∀ d ∈ tail, Text.isIdentChar d = true := fun d hd => by
      simpa [isNameChar, hplain d (List.mem_cons_of_mem _ hd)] using hall d hd
    rw [List.takeWhile_append_of_pos hword]
    cases after with
    | nil => simp
    | cons d rest => rw [List.takeWhile_cons_of_neg (by simp [hstop d rfl]), List.append_nil]

/-- A number is read as a whole, and possibly the beginning of a name right behind it. -/
theorem nestsFrom_number {tail : List Char} (hc : c.isDigit = true) (htail : numberTail (tail ++ after) = tail)
    (hclass : ¬ "class".toList <:+: Text.lower (c :: tail)) :
    nestsFrom braces 0 last? (c :: tail ++ after) = nestsFrom braces 0 (seen last? (c :: tail)) after := by
  refine (nestsFrom_tame ?_ hclass fun d hd => ?_).1
  · have hfirst : isTame c = true := by simp [isTame, Text.isIdentChar, Char.isAlphanum, hc]
    rw [List.all_cons, hfirst, Bool.true_and, ← htail]
    exact all_isTame_numberTail _
  · rw [Text.isIdentChar, head?_of_numberTail_append htail d hd, Bool.false_or, beq_eq_false_iff_ne]
    exact Classical.em (d = '_')

/-- The search does at a token what the mark of the token says. -/
theorem nestsFrom_token {kind : TokenKind} {tail : List Char} {behindDot : Bool} {marks : List Mark}
    (h : TokenAt c (tail ++ after) kind text) (htext : text = c :: tail) (hkind : token.kind = kind)
    (hspelled : token.text.toList = text)
    (hdot : token.isWord "class" = true → (last? = some '.' ↔ behindDot = true))
    (hmixed : token.IsMixed → ¬ token.Mentions "class")
    (hrest : ∀ braces, nestsFrom braces 0 (seen last? text) after = Braces.nests braces marks) :
    nestsFrom braces 0 last? (text ++ after) =
      braces.nests ((token.mark? behindDot).toList ++ marks) := by
  have hident : token.isIdent = (kind == .ident) := by rw [Token.isIdent, hkind]
  have hmentions : token.IsMixed → ¬ "class".toList <:+: Text.lower text := by
    rw [Token.Mentions, lower_class, hspelled] at hmixed
    exact hmixed
  -- The search skips strings, reads names and numbers as words, and sees brackets and semicolons.
  cases h with
  | str hc closed =>
    obtain ⟨-, rfl⟩ := List.cons.inj htext
    obtain rfl := hc
    rw [nestsFrom_string closed, hrest, Token.mark?_of_not_ident hident, Token.symbol?, hkind]
    rfl
  | ident hc =>
    obtain ⟨-, htail⟩ := List.cons.inj htext
    rw [htail] at hspelled hmentions hrest ⊢
    have hdollar (h : '$' ∈ c :: tail) := hmentions (.inr ⟨hkind, hspelled ▸ h⟩)
    rw [nestsFrom_name hc htail hdollar, hrest, Token.mark?_of_ident hkind, hspelled]
    cases hsame : Text.sameIgnoringCase (c :: tail) "class".toList with
    | false => simp
    | true =>
      have hword : token.isWord "class" = true := by rw [Token.isWord, hident, hspelled, hsame]; rfl
      -- Behind a dot the word is a member, and the search looks at the last character for that.
      cases behindDot with
      | true => simp [(hdot hword).mpr rfl]
      | false =>
        have hlast : (last? != some '.') = true :=
          bne_iff_ne.mpr fun hlast => absurd ((hdot hword).mp hlast) Bool.false_ne_true
        have hmark : (Mark.declares == Mark.opens) = false := rfl
        simp [hlast, hmark, Braces.nests, Braces.marked]
  | number hname hc =>
    obtain ⟨-, htail⟩ := List.cons.inj htext
    rw [htail] at hspelled hmentions hrest ⊢
    rw [nestsFrom_number hc htail (hmentions (.inl hkind)), hrest, Token.mark?_of_not_ident hident,
      Token.symbol?, hkind]
    rfl
  | @punct symbol hquote hname hdigit hline hblock longest =>
    rw [Token.mark?_of_not_ident hident, Token.symbol?, hkind, Option.bind_some]
    rw [← List.cons_append, ← htext] at hline hblock
    exact nestsFrom_symbol hline hblock hrest

/-! ### The whole source -/

/-- Whether the last character in front of byte `n` that is not blank is a dot. -/
def seesDot (cs : List Char) (n : Nat) : Bool :=
  (Text.cut? cs n).any fun (before, _) => (Text.trimEnd before).getLast? == some '.'

/-- Where the search sees the words `class` as the tokens are: it takes a dot to be in front of one of them only
if a dot is the token in front of it, and no number and no name with a currency sign has the word as a part. -/
structure SeenAsRead (source : List Char) (tokens : List Token) : Prop where
  dots : ∀ pair ∈ dotted false tokens, pair.1.isWord "class" = true →
    seesDot source pair.1.start.offset = pair.2
  mixed : ∀ token ∈ tokens, token.IsMixed → ¬ token.Mentions "class"

theorem Scanned.nestsFrom_eq {pos final : Position} {rest before : List Char} {front : List Token}
    (h : Scanned pos cs tokens final rest) (hrest : rest = []) (hpos : pos = Position.start.advanceOver before)
    (hseen : SeenAsRead (before ++ cs) (front ++ tokens)) :
    ∀ braces, nestsFrom braces 0 (seen none before) cs =
      Braces.nests braces (marksFrom (endsInDot false front) tokens) := by
  -- What is behind the search is `before`, read as `front`: it remembers the last character of the one, and
  -- the marks depend on the last token of the other.
  induction h generalizing before front with
  | refl =>
    subst hrest
    exact fun _ => rfl
  | @step pos _ text after rest left others first more ih =>
    have hplace : pos.advanceOver text = Position.start.advanceOver (before ++ text) := by
      rw [Position.advanceOver_append, hpos]
    have hmore := @ih (before ++ text) (front ++ left) hrest hplace (by simpa using hseen)
    rw [seen_append, endsInDot_append] at hmore
    intro braces
    cases first with
    | separator hc => exact (nestsFrom_inert (isInert_of_isSeparator hc) after).trans (hmore braces)
    | lineComment hbody hend => exact (nestsFrom_lineComment hbody hend).trans (hmore braces)
    | blockComment hfirst => exact (nestsFrom_blockComment hfirst after).trans (hmore braces)
    | @token c tail _ kind hpiece =>
      have htoken : ((⟨kind, String.ofList (c :: tail), pos⟩ : Token), endsInDot false front) ∈
          dotted false (front ++ ([⟨kind, String.ofList (c :: tail), pos⟩] ++ others)) := by
        rw [dotted_append]
        exact List.mem_append_right _ List.mem_cons_self
      have hoffset : Text.byteSize before = pos.offset := by
        rw [hpos, (Position.endOf_advanceOver before).offset]
      rw [List.singleton_append, marksFrom_cons]
      refine nestsFrom_token (pieceAt_eq_token_iff.mp hpiece) rfl rfl String.toList_ofList ?_ ?_ hmore
      · -- The word stands at the offset where the scan is.
        intro hword
        have hsees : seesDot (before ++ (c :: tail ++ after)) pos.offset = endsInDot false front :=
          hseen.dots _ htoken hword
        rw [seesDot, ← hoffset, Text.cut?_byteSize, Option.any_some] at hsees
        rw [seen_none, ← hsees, beq_iff_eq]
      · exact hseen.mixed _ (by simp)

/-- The search for nested classes reads the marks of the tokens. -/
theorem hasNestedClass_eq_nests {source : String} (h : tokenize source = .ok tokens)
    (hseen : SeenAsRead source.toList tokens) :
    hasNestedClass source = Braces.nests {} (marksFrom false tokens) := by
  obtain ⟨final, scanned⟩ := tokensFrom_eq_ok_iff.mp h
  exact @Scanned.nestsFrom_eq _ _ _ _ _ [] [] scanned rfl rfl hseen {}

end Exemplar.Code
