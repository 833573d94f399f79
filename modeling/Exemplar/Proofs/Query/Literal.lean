import Exemplar.Proofs.Query.LetBlock
import Exemplar.Proofs.Query.Quote
import Exemplar.Proofs.Text.Match
import Exemplar.Proofs.Text.Place
import Exemplar.Query.Literal
import Mathlib.Data.List.TakeWhile

/-!
# Hardcoded values are the literals of a query

Which literals a query has can be said of each place alone: a string is a closed quoted text that begins outside of
quotes, and a number is a text of digits outside of quotes with nothing glued to it. The search finds exactly these,
although it skips whatever it has read: what it skips is the inside of a quoted text, or it is glued to the characters
before it, and neither holds the beginning of another literal.

A let block begins with a keyword outside of quotes. No literal reaches over it, so a literal that does not begin in
the block has nothing to do with it.
-/

namespace Exemplar.Query

open Text (byteSize byteSize_cons)

variable {q : Char} {before : Option Char} {cs text after : List Char}

/-! ### Numbers -/

theorem isIdentChar_of_isDigit {c : Char} (h : c.isDigit = true) : Text.isIdentChar c = true := by
  simp [Text.isIdentChar, Char.isAlphanum, h]

theorem joinsNumber_of_isIdentChar {c : Char} (h : Text.isIdentChar c = true) : joinsNumber c = true := by
  simp [joinsNumber, h]

theorem isQuote_of_joinsNumber {c : Char} (h : joinsNumber c = true) : Text.isQuote c = false := by
  by_contra hquote
  rw [Bool.not_eq_false] at hquote
  rcases eq_of_isQuote hquote with rfl | rfl
  · exact absurd h (by decide)
  · exact absurd h (by decide)

/-- Digits, with a point and more digits behind them or not. -/
inductive IsNumber : List Char → Prop
  | whole {ds : List Char} (nonempty : ds ≠ []) (digits : ∀ d ∈ ds, d.isDigit = true) : IsNumber ds
  | decimal {ds es : List Char} (nonempty : ds ≠ []) (digits : ∀ d ∈ ds, d.isDigit = true)
      (nonempty' : es ≠ []) (digits' : ∀ d ∈ es, d.isDigit = true) : IsNumber (ds ++ '.' :: es)

/-- A number that stands on its own between two characters, and is neither 0 nor 1. -/
structure NumberBetween (before : Option Char) (text after : List Char) : Prop where
  number : IsNumber text
  starts : before.any joinsNumber = false
  ends : after.head?.any Text.isIdentChar = false
  /-- A point goes on with a number only if a digit follows, and only once. -/
  complete : '.' ∈ text ∨ ∀ d rest, after = '.' :: d :: rest → d.isDigit = false
  counts : text ≠ ['0'] ∧ text ≠ ['1']

namespace IsNumber

theorem exists_cons (number : IsNumber text) : ∃ c rest, text = c :: rest ∧ c.isDigit = true := by
  cases number with
  | whole nonempty digits =>
    obtain ⟨c, rest, rfl⟩ := List.exists_cons_of_ne_nil nonempty
    exact ⟨c, rest, rfl, digits c List.mem_cons_self⟩
  | @decimal ds es nonempty digits nonempty' digits' =>
    obtain ⟨c, rest, rfl⟩ := List.exists_cons_of_ne_nil nonempty
    exact ⟨c, rest ++ '.' :: es, rfl, digits c List.mem_cons_self⟩

theorem chars (number : IsNumber text) : ∀ c ∈ text, c.isDigit = true ∨ c = '.' := by
  cases number with
  | whole nonempty digits => exact fun c hc => .inl (digits c hc)
  | decimal nonempty digits nonempty' digits' =>
    intro c hc
    rcases List.mem_append.mp hc with hc | hc
    · exact .inl (digits c hc)
    · exact (List.mem_cons.mp hc).symm.imp_left (digits' c)

theorem joinsNumber (number : IsNumber text) : ∀ c ∈ text, joinsNumber c = true := by
  intro c hc
  rcases number.chars c hc with hdigit | rfl
  · exact joinsNumber_of_isIdentChar (isIdentChar_of_isDigit hdigit)
  · rfl

end IsNumber

/-- A number that goes no further is what is read of it. -/
theorem digits_append (number : IsNumber text) (ends : after.head?.any Char.isDigit = false)
    (complete : '.' ∈ text ∨ ∀ d rest, after = '.' :: d :: rest → d.isDigit = false) :
    digits (text ++ after) = text := by
  cases number with
  | whole nonempty hdigits =>
    have point : ∀ d rest, after = '.' :: d :: rest → d.isDigit = false := by
      apply complete.resolve_left
      intro hmem
      exact absurd (hdigits '.' hmem) (by decide)
    unfold digits
    rw [Text.takeWhile_append_stop hdigits ends, Text.dropWhile_append_stop hdigits ends]
    split
    next rest =>
      cases rest with
      | nil => rfl
      | cons d rest => simp [point d rest rfl]
    next => rfl
  | @decimal ds es nonempty hdigits nonempty' hdigits' =>
    have hpoint : ('.' :: es ++ after).head?.any Char.isDigit = false := rfl
    have hfraction := Text.takeWhile_append_stop hdigits' ends
    obtain ⟨d, es, rfl⟩ := List.exists_cons_of_ne_nil nonempty'
    have hd : d.isDigit = true := hdigits' d List.mem_cons_self
    unfold digits
    rw [List.append_assoc, Text.takeWhile_append_stop hdigits hpoint, Text.dropWhile_append_stop hdigits hpoint]
    simp only [List.cons_append, List.head?_cons, Option.any_some, hd, if_true] at hfraction ⊢
    rw [hfraction]

/-- What is read of a number is a number, and it goes no further. -/
theorem exists_of_digits (starts : cs.head?.any Char.isDigit = true) :
    ∃ after, cs = digits cs ++ after ∧ IsNumber (digits cs) ∧ after.head?.any Char.isDigit = false ∧
      ('.' ∈ digits cs ∨ ∀ d rest, after = '.' :: d :: rest → d.isDigit = false) := by
  have hsplit := List.takeWhile_append_dropWhile (p := Char.isDigit) (l := cs)
  have hdigits : ∀ d ∈ cs.takeWhile Char.isDigit, d.isDigit = true := fun d => List.mem_takeWhile_imp
  have hnonempty (cs : List Char) (starts : cs.head?.any Char.isDigit = true) : cs.takeWhile Char.isDigit ≠ [] := by
    cases cs with
    | nil => cases starts
    | cons c cs =>
      rw [List.takeWhile_cons_of_pos (by simpa using starts)]
      exact List.cons_ne_nil _ _
  have hstops := Text.any_head?_dropWhile Char.isDigit cs
  unfold digits
  split
  next rest hrest =>
    rw [hrest] at hsplit hstops
    split
    next hdecimal =>
      -- Point and digits behind it belong to the number.
      refine ⟨rest.dropWhile Char.isDigit, ?_, ?_, Text.any_head?_dropWhile Char.isDigit rest, .inl (by simp)⟩
      · rw [List.append_assoc, List.cons_append, List.takeWhile_append_dropWhile, hsplit]
      · exact .decimal (hnonempty cs starts) hdigits (hnonempty rest hdecimal) fun d => List.mem_takeWhile_imp
    next hwhole =>
      refine ⟨'.' :: rest, hsplit.symm, .whole (hnonempty cs starts) hdigits, hstops, .inr ?_⟩
      rintro d rest' heq
      obtain rfl := (List.cons.inj heq).2
      simpa using hwhole
  next hrest =>
    refine ⟨cs.dropWhile Char.isDigit, hsplit.symm, .whole (hnonempty cs starts) hdigits, hstops, .inr ?_⟩
    intro d rest heq
    exact absurd heq (hrest _)

/-! ### What is read at a place -/

/-- What the search reads at a place, with the value it takes from there. -/
inductive ReadAs (before : Option Char) : List Char → Option (LiteralKind × List Char) → List Char → Prop
  | string {q : Char} {body after : List Char} (mark : Text.isQuote q = true) (free : q ∉ body) :
      ReadAs before (q :: body ++ [q] ++ after) (some (.string, q :: body ++ [q])) after
  | unclosed {q : Char} {cs : List Char} (mark : Text.isQuote q = true) (free : q ∉ cs) :
      ReadAs before (q :: cs) none []
  | number {text after : List Char} (number : NumberBetween before text after) :
      ReadAs before (text ++ after) (some (.number, text)) after
  /-- A number that does not count, or a name that begins like one. -/
  | passed {c : Char} {read after : List Char} (digit : c.isDigit = true)
      (joined : ∀ d ∈ read, joinsNumber d = true) : ReadAs before (c :: read ++ after) none after

theorem readAs_of_quotedLiteral {found : Option (LiteralKind × List Char)} (mark : Text.isQuote q = true)
    (h : quotedLiteral q cs = (found, after)) : ReadAs before (q :: cs) found after := by
  rw [quotedLiteral] at h
  split at h
  next body behind hclosed =>
    obtain ⟨rfl, free⟩ := Text.splitOnce?_eq_some_iff.mp hclosed
    obtain ⟨rfl, rfl⟩ := Prod.mk.inj h
    have hread : ReadAs before _ _ behind := .string mark free
    rwa [List.append_assoc, List.singleton_append, List.cons_append] at hread
  next hopen =>
    obtain ⟨rfl, rfl⟩ := Prod.mk.inj h
    exact .unclosed mark (Text.splitOnce?_eq_none_iff.mp hopen)

/-- A number is taken, unless it goes on as a name or does not count. -/
theorem readAs_of_number {c : Char} {more behind : List Char} {found : Option (LiteralKind × List Char)}
    (number : IsNumber (c :: more)) (digit : c.isDigit = true) (starts : before.any joinsNumber = false)
    (complete : '.' ∈ c :: more ∨ ∀ d rest, behind = '.' :: d :: rest → d.isDigit = false)
    (h : (if behind.head?.any Text.isIdentChar then some (none, behind.dropWhile Text.isIdentChar)
      else if isInnocuous (c :: more) then some (none, behind)
      else some (some (.number, c :: more), behind)) = some (found, after)) :
    ReadAs before (c :: more ++ behind) found after := by
  have joined := (List.forall_mem_cons.mp number.joinsNumber).2
  -- A name is glued to the number; the number is one of those that do not count; it is a value.
  split at h
  next =>
    obtain ⟨rfl, rfl⟩ := Prod.mk.inj (Option.some.inj h)
    have hread : ReadAs before (c :: (more ++ behind.takeWhile Text.isIdentChar) ++
        behind.dropWhile Text.isIdentChar) none (behind.dropWhile Text.isIdentChar) := by
      refine .passed digit fun d hd => ?_
      rcases List.mem_append.mp hd with hd | hd
      · exact joined d hd
      · exact joinsNumber_of_isIdentChar (List.mem_takeWhile_imp hd)
    rwa [List.cons_append, List.append_assoc, List.takeWhile_append_dropWhile] at hread
  next hglued =>
    split at h
    next =>
      obtain ⟨rfl, rfl⟩ := Prod.mk.inj (Option.some.inj h)
      exact .passed digit joined
    next hcounts =>
      obtain ⟨rfl, rfl⟩ := Prod.mk.inj (Option.some.inj h)
      exact .number ⟨number, starts, by simpa using hglued, complete, by simpa [isInnocuous] using hcounts⟩

theorem readAs_of_literal {found : Option (LiteralKind × List Char)} (h : literal before cs = some (found, after)) :
    ReadAs before cs found after := by
  cases cs with
  | nil => cases h
  | cons c rest =>
    simp only [literal] at h
    split at h
    next mark => exact readAs_of_quotedLiteral mark (Option.some.inj h)
    next =>
      split at h
      next hdigit =>
        rw [Bool.and_eq_true, Bool.not_eq_true'] at hdigit
        obtain ⟨behind, hsplit, number, -, complete⟩ :=
          exists_of_digits (show (c :: rest).head?.any Char.isDigit = true from hdigit.1)
        have hafter : (c :: rest).drop (digits (c :: rest)).length = behind :=
          (congrArg (List.drop _) hsplit).trans List.drop_left
        -- What the number begins with is the digit at hand.
        obtain ⟨d, more, hmore, -⟩ := number.exists_cons
        rw [hafter, hmore] at h
        rw [hmore] at hsplit number complete
        obtain ⟨rfl, rfl⟩ := List.cons.inj hsplit
        exact readAs_of_number number hdigit.1 hdigit.2 complete h
      next => cases h

theorem literal_string {q : Char} {body : List Char} (mark : Text.isQuote q = true) (free : q ∉ body)
    (before : Option Char) (after : List Char) :
    literal before (q :: body ++ [q] ++ after) = some (some (.string, q :: body ++ [q]), after) := by
  have hclosed : Text.splitOnce? q (body ++ [q] ++ after) = some (body, after) := by
    apply Text.splitOnce?_eq_some_iff.mpr
    exact ⟨by rw [List.append_assoc, List.singleton_append], free⟩
  simp only [List.cons_append, literal, mark, if_true, quotedLiteral, hclosed]

theorem literal_number (number : NumberBetween before text after) :
    literal before (text ++ after) = some (some (.number, text), after) := by
  obtain ⟨c, rest, rfl, hdigit⟩ := number.number.exists_cons
  have hquote : Text.isQuote c = false :=
    isQuote_of_joinsNumber (joinsNumber_of_isIdentChar (isIdentChar_of_isDigit hdigit))
  have hends : after.head?.any Char.isDigit = false := by
    have hident := number.ends
    cases after with
    | nil => rfl
    | cons d after =>
      by_contra hd
      rw [Bool.not_eq_false, List.head?_cons, Option.any_some] at hd
      rw [List.head?_cons, Option.any_some, isIdentChar_of_isDigit hd] at hident
      cases hident
  have hdigits := digits_append number.number hends number.complete
  have hdrop : (c :: rest ++ after).drop (c :: rest).length = after := List.drop_left
  rw [List.cons_append] at hdigits hdrop ⊢
  simp only [literal, hquote, Bool.false_eq_true, if_false, hdigit, number.starts, Bool.not_false, Bool.and_self,
    if_true, hdigits, hdrop, number.ends]
  rw [if_neg (by simpa [isInnocuous] using number.counts)]

/-! ### The search -/

/-- How much of a text still belongs to the last match: nothing, what is left of a string, all of a text with a mark
that is not closed, or characters that are glued to the one before them. -/
inductive Passing : (skip : Nat) → (quote before : Option Char) → List Char → Prop
  | nothing {before : Option Char} {cs : List Char} : Passing 0 none before cs
  | string {q : Char} {before : Option Char} {body after : List Char} (free : q ∉ body) :
      Passing (body.length + 1) (some q) before (body ++ q :: after)
  | unclosed {q : Char} {before : Option Char} {cs : List Char} (free : q ∉ cs) :
      Passing cs.length (some q) before cs
  | joined {before : Option Char} {read after : List Char} (joins : before.any joinsNumber = true)
      (joined : ∀ d ∈ read, joinsNumber d = true) : Passing read.length none before (read ++ after)

namespace Passing

variable {c : Char} {quote : Option Char} {skip : Nat}

theorem quote_eq_none (passing : Passing 0 quote before (c :: cs)) : quote = none := by
  generalize hskip : 0 = skip at passing
  generalize hcs : c :: cs = text at passing
  cases passing with
  | nothing => rfl
  | string free => cases hskip
  | unclosed free =>
    subst hcs
    cases hskip
  | joined joins joined => rfl

theorem step (passing : Passing (skip + 1) quote before (c :: cs)) :
    Passing skip (stepQuote quote c) (some c) cs := by
  generalize hskip : skip + 1 = left at passing
  generalize hcs : c :: cs = text at passing
  cases passing with
  | nothing => cases hskip
  | @string q before body after free =>
    obtain rfl := Nat.succ.inj hskip
    cases body with
    | nil =>
      obtain ⟨rfl, rfl⟩ := List.cons.inj hcs
      rw [stepQuote_close]
      exact .nothing
    | cons d body =>
      obtain ⟨rfl, rfl⟩ := List.cons.inj hcs
      obtain ⟨hd, hbody⟩ := not_or.mp (mt List.mem_cons.mpr free)
      rw [stepQuote_inside (Ne.symm hd)]
      exact .string hbody
  | @unclosed q before text free =>
    subst hcs
    obtain rfl := Nat.succ.inj hskip
    obtain ⟨hc, hcs⟩ := not_or.mp (mt List.mem_cons.mpr free)
    rw [stepQuote_inside (Ne.symm hc)]
    exact .unclosed hcs
  | @joined before read after joins joined =>
    cases read with
    | nil => cases hskip
    | cons d read =>
      obtain rfl := Nat.succ.inj hskip
      obtain ⟨rfl, rfl⟩ := List.cons.inj hcs
      obtain ⟨hc, hread⟩ := List.forall_mem_cons.mp joined
      rw [stepQuote_plain (isQuote_of_joinsNumber hc)]
      exact .joined hc hread

/-- Where something still belongs to the last match, no value is read. -/
theorem not_literal (passing : Passing (skip + 1) quote before (c :: cs)) (outside : quote = none) :
    literal before (c :: cs) = none := by
  subst outside
  generalize hskip : skip + 1 = left at passing
  generalize hcs : c :: cs = text at passing
  cases passing with
  | nothing => cases hskip
  | @joined before read after joins joined =>
    cases read with
    | nil => cases hskip
    | cons d read =>
      obtain ⟨rfl, rfl⟩ := List.cons.inj hcs
      have hquote := isQuote_of_joinsNumber (joined c List.mem_cons_self)
      simp [literal, hquote, joins]

/-- What the search has read is what it passes over next. -/
theorem of_literal {found : Option (LiteralKind × List Char)}
    (h : literal before (c :: cs) = some (found, after)) :
    Passing (cs.length - after.length) (stepQuote none c) (some c) cs := by
  have hread := readAs_of_literal h
  generalize hcs : c :: cs = text at hread
  -- Behind the mark of a string its inside is left, and behind the first digit what is glued to that.
  cases hread with
  | @string q body after mark free =>
    rw [List.append_assoc, List.cons_append, List.singleton_append] at hcs
    obtain ⟨rfl, rfl⟩ := List.cons.inj hcs
    have hskip : (body ++ c :: after).length - after.length = body.length + 1 := by
      simp only [List.length_append, List.length_cons]
      omega
    rw [stepQuote_mark mark, hskip]
    exact .string free
  | unclosed mark free =>
    obtain ⟨rfl, rfl⟩ := List.cons.inj hcs
    rw [stepQuote_mark mark]
    exact .unclosed free
  | @number read after number =>
    obtain ⟨d, read, rfl, -⟩ := number.number.exists_cons
    rw [List.cons_append] at hcs
    obtain ⟨rfl, rfl⟩ := List.cons.inj hcs
    obtain ⟨hc, hread⟩ := List.forall_mem_cons.mp number.number.joinsNumber
    rw [stepQuote_plain (isQuote_of_joinsNumber hc), List.length_append, Nat.add_sub_cancel_right]
    exact .joined hc hread
  | @passed d read after digit joined =>
    rw [List.cons_append] at hcs
    obtain ⟨rfl, rfl⟩ := List.cons.inj hcs
    have hc := joinsNumber_of_isIdentChar (isIdentChar_of_isDigit digit)
    rw [stepQuote_plain (isQuote_of_joinsNumber hc), List.length_append, Nat.add_sub_cancel_right]
    exact .joined hc joined

/-- Where nothing is read, the search goes on behind the character at hand, which is no mark. -/
theorem of_literal_eq_none (h : literal before (c :: cs) = none) :
    Passing 0 (stepQuote none c) (some c) cs := by
  have hplain : Text.isQuote c = false := by
    by_contra hquote
    rw [Bool.not_eq_false] at hquote
    simp [literal, hquote] at h
  rw [stepQuote_plain hplain]
  exact .nothing

end Passing

/-- A place of a text is its beginning or a place of the rest. -/
theorem exists_literal_cons_iff {quote : Option Char} {pos n : Nat} {value : LiteralKind × List Char} :
    (∃ front rest after, c :: cs = front ++ rest ∧ n = pos + byteSize front ∧ quoteAfter quote front = none ∧
        literal (front.getLast?.or before) rest = some (some value, after)) ↔
      (quote = none ∧ n = pos ∧ ∃ after, literal before (c :: cs) = some (some value, after)) ∨
      ∃ front rest after, cs = front ++ rest ∧ n = pos + c.utf8Size + byteSize front ∧
        quoteAfter (stepQuote quote c) front = none ∧
        literal (front.getLast?.or (some c)) rest = some (some value, after) := by
  constructor
  · rintro ⟨front, rest, after, hsplit, hn, hquote, h⟩
    cases front with
    | nil =>
      rw [List.nil_append] at hsplit
      exact .inl ⟨hquote, hn, after, hsplit ▸ h⟩
    | cons d front =>
      obtain ⟨rfl, hrest⟩ := List.cons.inj hsplit
      rw [byteSize_cons, ← Nat.add_assoc] at hn
      rw [Text.getLast?_cons_or] at h
      exact .inr ⟨front, rest, after, hrest, hn, hquote, h⟩
  · rintro (⟨hquote, hn, after, h⟩ | ⟨front, rest, after, rfl, hn, hquote, h⟩)
    · exact ⟨[], c :: cs, after, rfl, hn, hquote, h⟩
    · refine ⟨c :: front, rest, after, rfl, ?_, hquote, ?_⟩
      · rw [byteSize_cons, hn, Nat.add_assoc]
      · rw [Text.getLast?_cons_or]
        exact h

/-- The search finds what can be read at places outside of quotes. -/
theorem mem_matchesFrom_literal_iff {quote : Option Char} {pos skip n : Nat} {value : LiteralKind × List Char}
    (passing : Passing skip quote before cs) :
    (n, some value) ∈ Text.matchesFrom literal pos skip before cs ↔
      ∃ front rest after, cs = front ++ rest ∧ n = pos + byteSize front ∧ quoteAfter quote front = none ∧
        literal (front.getLast?.or before) rest = some (some value, after) := by
  -- By the characters that are still to be searched.
  induction cs generalizing quote pos skip before with
  | nil =>
    constructor
    · intro h
      cases skip <;> simp [Text.matchesFrom] at h
    · rintro ⟨front, rest, after, hsplit, -, -, h⟩
      rw [(List.append_eq_nil_iff.mp hsplit.symm).2] at h
      cases h
  | cons c cs ih =>
    rw [exists_literal_cons_iff]
    cases skip with
    | succ skip =>
      -- What is passed over does not begin with a literal, or is inside of quotes.
      rw [Text.matchesFrom, ih passing.step]
      refine (or_iff_right ?_).symm
      rintro ⟨hquote, -, after, h⟩
      rw [passing.not_literal hquote] at h
      cases h
    | zero =>
      obtain rfl := passing.quote_eq_none
      rw [Text.matchesFrom]
      split
      next found after hfound =>
        rw [List.mem_cons, ih (Passing.of_literal hfound)]
        refine or_congr_left ?_
        constructor
        · intro h
          obtain ⟨rfl, rfl⟩ := Prod.mk.inj h
          exact ⟨rfl, rfl, after, hfound⟩
        · rintro ⟨-, rfl, after', h⟩
          obtain ⟨rfl, -⟩ := Prod.mk.inj (Option.some.inj (hfound.symm.trans h))
          rfl
      next hnone =>
        rw [ih (Passing.of_literal_eq_none hnone)]
        refine (or_iff_right ?_).symm
        rintro ⟨-, -, after, h⟩
        rw [hnone] at h
        cases h

/-! ### The values of a query -/

/-- A literal stands between two parts of a query, outside of quotes. -/
inductive StandsBetween (front back : List Char) : LiteralKind → List Char → Prop
  | string {text : List Char} (outside : quoteAfter none front = none) (quoted : IsQuoted text) :
      StandsBetween front back .string text
  | number {text : List Char} (outside : quoteAfter none front = none)
      (number : NumberBetween front.getLast? text back) : StandsBetween front back .number text

namespace Literal

/-- Offset of what follows a literal. -/
def stop (value : Literal) : Nat :=
  value.position + byteSize value.value.toList

/-- A literal stands in a query at its position. -/
def StandsIn (value : Literal) (query : List Char) : Prop :=
  ∃ front back, query = front ++ value.value.toList ++ back ∧ value.position = byteSize front ∧
    StandsBetween front back value.kind value.value.toList

end Literal

theorem standsBetween_iff {front back : List Char} {kind : LiteralKind} :
    StandsBetween front back kind text ↔ quoteAfter none front = none ∧
      literal front.getLast? (text ++ back) = some (some (kind, text), back) := by
  constructor
  · intro stands
    cases stands with
    | string outside quoted =>
      obtain ⟨mark, free⟩ := quoted
      exact ⟨outside, literal_string mark free _ back⟩
    | number outside number => exact ⟨outside, literal_number number⟩
  · rintro ⟨outside, h⟩
    have hread := readAs_of_literal h
    generalize htext : text ++ back = whole at hread
    cases hread with
    | string mark free => exact .string outside (.closed mark free)
    | number number => exact .number outside number

theorem exists_of_literal {value : LiteralKind × List Char} (h : literal before cs = some (some value, after)) :
    cs = value.2 ++ after := by
  have hread := readAs_of_literal h
  cases hread with
  | string mark free => rfl
  | number number => rfl

/-- The literals of a query are those that stand in it. -/
theorem mem_allLiterals_iff {query : String} {value : Literal} :
    value ∈ allLiterals query ↔ value.StandsIn query.toList := by
  have hfound (n : Nat) (found : LiteralKind × List Char) :
      (n, some found) ∈ Text.allMatches literal query.toList ↔ ∃ front back,
        query.toList = front ++ found.2 ++ back ∧ n = byteSize front ∧ StandsBetween front back found.1 found.2 := by
    rw [Text.allMatches, mem_matchesFrom_literal_iff .nothing]
    simp only [Nat.zero_add, Option.or_none]
    constructor
    · rintro ⟨front, rest, after, hsplit, hn, outside, h⟩
      obtain rfl := exists_of_literal h
      exact ⟨front, after, by rw [hsplit, List.append_assoc], hn, standsBetween_iff.mpr ⟨outside, h⟩⟩
    · rintro ⟨front, back, hsplit, hn, stands⟩
      obtain ⟨outside, h⟩ := standsBetween_iff.mp stands
      exact ⟨front, found.2 ++ back, back, by rw [hsplit, List.append_assoc], hn, outside, h⟩
  rw [allLiterals, List.mem_filterMap]
  constructor
  · rintro ⟨⟨n, found?⟩, hmem, hvalue⟩
    obtain ⟨found, rfl, rfl⟩ := Option.map_eq_some_iff.mp hvalue
    obtain ⟨front, back, hsplit, hn, stands⟩ := (hfound n found).mp hmem
    rw [← String.toList_ofList (l := found.2)] at hsplit stands
    exact ⟨front, back, hsplit, hn, stands⟩
  · rintro ⟨front, back, hsplit, hposition, stands⟩
    refine ⟨(value.position, some (value.kind, value.value.toList)), ?_, ?_⟩
    · exact (hfound _ _).mpr ⟨front, back, hsplit, hposition, stands⟩
    · simp

/-- A literal ends before the next one begins. -/
theorem pairwise_allLiterals (query : String) : (allLiterals query).Pairwise fun value later =>
    value.position < later.position ∧ value.stop ≤ later.position := by
  have hmatches := Text.pairwise_allMatches literal (fun found => found.elim 0 (byteSize ·.2))
    (fun before cs found after h => ?_) query.toList
  · refine List.Pairwise.filterMap _ ?_ hmatches
    rintro ⟨n, found⟩ ⟨n', found'⟩ hapart value hvalue value' hvalue'
    obtain ⟨literal, rfl, rfl⟩ := Option.map_eq_some_iff.mp hvalue
    obtain ⟨literal', rfl, rfl⟩ := Option.map_eq_some_iff.mp hvalue'
    simpa [Literal.stop] using hapart
  · -- A value is all that is read, and what is not taken has no size.
    have hread := readAs_of_literal h
    cases hread with
    | string mark free => exact ⟨_, rfl, Nat.le_refl _⟩
    | @unclosed q cs mark free => exact ⟨q :: cs, (List.append_nil _).symm, Nat.zero_le _⟩
    | number number => exact ⟨_, rfl, Nat.le_refl _⟩
    | passed digit joined => exact ⟨_, rfl, Nat.zero_le _⟩

/-! ### Literals and the let block -/

/-- A let block begins with its keyword, outside of quotes. -/
theorem exists_of_letFrom? {quote : Option Char} {pos start : Nat}
    (h : letFrom? pos quote before cs = some (start, after)) :
    ∃ front rest, cs = front ++ 'l' :: rest ∧ start = pos + byteSize front ∧ quoteAfter quote front = none := by
  induction cs generalizing quote pos before with
  | nil => cases h
  | cons c cs ih =>
    have later (h : ∃ front rest, cs = front ++ 'l' :: rest ∧ start = pos + c.utf8Size + byteSize front ∧
        quoteAfter (stepQuote quote c) front = none) :
        ∃ front rest, c :: cs = front ++ 'l' :: rest ∧ start = pos + byteSize front ∧
          quoteAfter quote front = none := by
      obtain ⟨front, rest, rfl, rfl, hquote⟩ := h
      exact ⟨c :: front, rest, rfl, by rw [byteSize_cons, Nat.add_assoc], hquote⟩
    rw [letFrom?_cons] at h
    split at h
    next outside =>
      cases hfound : (afterKeyword? "let" before (c :: cs)).filter (·.head?.any Text.isAsciiBlank) with
      | some behind =>
        rw [hfound] at h
        obtain ⟨rfl, -⟩ := Prod.mk.inj (Option.some.inj h)
        obtain ⟨hword, -⟩ := afterKeyword?_eq_some_iff.mp (Option.filter_eq_some_iff.mp hfound).1
        obtain ⟨rfl, -⟩ := List.cons.inj hword
        exact ⟨[], cs, rfl, rfl, Option.isNone_iff_eq_none.mp outside⟩
      | none =>
        rw [hfound] at h
        exact later (ih h)
    next => exact later (ih h)

theorem exists_of_letBlock? {block : LetBlock} (h : letBlock? cs = some block) :
    ∃ front rest, cs = front ++ 'l' :: rest ∧ block.start = byteSize front ∧ quoteAfter none front = none := by
  obtain ⟨⟨start, after⟩, hlet, h⟩ := Option.bind_eq_some_iff.mp h
  obtain ⟨declarations, -, hblock⟩ := Option.bind_eq_some_iff.mp h
  obtain rfl := Option.some.inj hblock
  obtain ⟨front, rest, hsplit, hstart, hquote⟩ := exists_of_letFrom? hlet
  exact ⟨front, rest, hsplit, hstart.trans (Nat.zero_add _), hquote⟩

/-- No keyword begins within a literal: in a string a mark is open, and a number has no letters. -/
theorem StandsBetween.quoteAfter_ne_none {front back early late : List Char} {kind : LiteralKind}
    (stands : StandsBetween front back kind text) (split : text = early ++ late) (hearly : early ≠ [])
    (hlate : late.head? = some 'l') : quoteAfter none (front ++ early) ≠ none := by
  cases stands with
  | string outside quoted =>
    obtain ⟨mark, free⟩ := quoted
    have nonempty : late ≠ [] := by
      rintro rfl
      cases hlate
    rw [quoteAfter_append, outside, quoteAfter_within mark free split hearly nonempty]
    exact Option.some_ne_none _
  | number outside number =>
    have hmem : 'l' ∈ text := split ▸ List.mem_append_right early (List.mem_of_mem_head? hlate)
    rcases number.number.chars 'l' hmem with hdigit | hpoint
    · exact absurd hdigit (by decide)
    · exact absurd hpoint (by decide)

/-- No literal reaches into the let block from in front of it. -/
theorem Literal.StandsIn.stop_le_start {value : Literal} {block : LetBlock} (stands : value.StandsIn cs)
    (hblock : letBlock? cs = some block) (before : value.position < block.start) : value.stop ≤ block.start := by
  obtain ⟨front, back, rfl, hposition, stands⟩ := stands
  obtain ⟨front', rest, hsplit, hstart, hquote⟩ := exists_of_letBlock? hblock
  by_contra reaches
  rw [hposition, hstart] at before
  rw [Literal.stop, hposition, hstart, ← Text.byteSize_append] at reaches
  -- The block would begin within the literal, and it begins with a keyword.
  have hfront : front <+: front ++ value.value.toList ++ back := ⟨_, (List.append_assoc ..).symm⟩
  have hkeyword : front' <+: front ++ value.value.toList ++ back := ⟨_, hsplit.symm⟩
  obtain ⟨early, rfl⟩ := Text.prefix_of_byteSize_le hfront hkeyword (Nat.le_of_lt before)
  obtain ⟨late, hlate⟩ := Text.prefix_of_byteSize_le hkeyword (List.prefix_append _ back)
    (Nat.le_of_not_le reaches)
  have htext : value.value.toList = early ++ late := by
    rw [List.append_assoc] at hlate
    exact (List.append_cancel_left hlate).symm
  have hearly : early ≠ [] := by
    rintro rfl
    simp at before
  have hhead : late.head? = some 'l' := by
    rw [← hlate, List.append_assoc] at hsplit
    have hrest := List.append_cancel_left hsplit
    cases late with
    | nil => simp [htext] at reaches
    | cons d late => rw [(List.cons.inj hrest).1, List.head?_cons]
  exact stands.quoteAfter_ne_none htext hearly hhead hquote

/-- The values of a query are the literals that stand in it and do not begin in its let block. They come in order,
each is the text at its position, and neither does one of them reach into the next one nor into the let block. -/
theorem hardcodedValues_literals (query : String) :
    ((hardcodedValues query).Pairwise fun value later =>
      value.position < later.position ∧ value.stop ≤ later.position) ∧
    (∀ value, value ∈ hardcodedValues query ↔ value.StandsIn query.toList ∧
      ∀ block, letBlock? query.toList = some block → value.position < block.start ∨ block.stop ≤ value.position) ∧
    ∀ value ∈ hardcodedValues query,
      Text.slice? query.toList value.position value.stop = some value.value.toList ∧
      ∀ block, letBlock? query.toList = some block → value.stop ≤ block.start ∨ block.stop ≤ value.position := by
  have hvalues (value : Literal) : value ∈ hardcodedValues query ↔ value.StandsIn query.toList ∧
      ∀ block, letBlock? query.toList = some block → value.position < block.start ∨ block.stop ≤ value.position := by
    rw [hardcodedValues, ← mem_allLiterals_iff]
    cases letBlock? query.toList with
    | none => simp
    | some block =>
      simp only [List.mem_filter, Option.some.injEq, forall_eq', Bool.not_eq_true', Bool.and_eq_false_iff,
        decide_eq_false_iff_not, Nat.not_le, Nat.not_lt]
  refine ⟨?_, hvalues, fun value hvalue => ⟨?_, fun block hblock => ?_⟩⟩
  · -- To leave out those of the block keeps the order of the others.
    rw [hardcodedValues]
    cases letBlock? query.toList with
    | none => exact pairwise_allLiterals query
    | some block => exact (pairwise_allLiterals query).filter _
  · obtain ⟨⟨front, back, hsplit, hposition, -⟩, -⟩ := (hvalues value).mp hvalue
    exact Text.slice?_eq_some_iff.mpr ⟨front, back, hsplit, hposition.symm, by rw [Literal.stop, hposition]⟩
  · obtain ⟨stands, outside⟩ := (hvalues value).mp hvalue
    exact (outside block hblock).imp_left (stands.stop_le_start hblock)

/-- Of the literals of a query, those of the let block are bound, a mark in a string of the other sort is none, and
nothing is read behind a mark that is not closed. -/
example : hardcodedValues "let $a := '5' return //A[@B = 12.50 and @C = \"it's\" or @D = 1 and 2x]'3" =
    [⟨.number, "12.50", 30⟩, ⟨.string, "\"it's\"", 45⟩] := by
  decide +kernel

end Exemplar.Query
