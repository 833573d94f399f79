import Exemplar.Text.Search
import Mathlib.Data.List.Forall2
import Mathlib.Data.List.TakeWhile

/-!
# What a search finds

Searches go from left to right and skip what belongs to the last thing found. Three facts about that are
used again and again: what is found stands in the text, what stands in the text is found unless something
that overlaps it was found before, and what was found is still found when the text goes on.

For a rule the last fact needs more: a match at the very end may come about only because the text goes on,
and must then not take the place of one that was there before.
-/

namespace Exemplar.Text

/-- The character before a place behind `c` is found behind `c`, or it is `c`. -/
theorem getLast?_cons_or (c : Char) (front : List Char) (before : Option Char) :
    (c :: front).getLast?.or before = front.getLast?.or (some c) := by
  rw [List.getLast?_cons]
  cases front.getLast? <;> rfl

/-! ### Occurrences stand in the text -/

theorem exists_of_mem_occurrencesFrom {pattern cs : List Char} {pos skip : Nat}
    {before : Option Char} {found : Occurrence}
    (h : found ∈ occurrencesFrom pattern pos skip before cs) :
    ∃ front back, cs = front ++ pattern ++ back ∧ found.offset = pos + byteSize front ∧
      found.before = front.getLast?.or before ∧ found.after = back.head? := by
  induction cs generalizing pos skip before with
  | nil => cases skip <;> simp [occurrencesFrom] at h
  | cons c cs ih =>
    -- Whether `c` is skipped or nothing was found at it, the rest of the text decides.
    have later {skip : Nat} (h : found ∈ occurrencesFrom pattern (pos + c.utf8Size) skip (some c) cs) :
        ∃ front back, c :: cs = front ++ pattern ++ back ∧ found.offset = pos + byteSize front ∧
          found.before = front.getLast?.or before ∧ found.after = back.head? := by
      obtain ⟨front, back, rfl, offset, left, right⟩ := ih h
      refine ⟨c :: front, back, rfl, by rw [offset, byteSize_cons, Nat.add_assoc], ?_, right⟩
      rw [left, getLast?_cons_or]
    cases skip with
    | succ skip => exact later h
    | zero =>
      rw [occurrencesFrom] at h
      split at h
      next rest hhead =>
        rcases List.mem_cons.mp h with rfl | h
        · refine ⟨[], rest, (List.append_eq_of_isPrefixOf?_eq_some hhead).symm, ?_, ?_, rfl⟩ <;> simp
        · exact later h
      next => exact later h

theorem exists_of_mem_occurrences {pattern cs : List Char} {found : Occurrence}
    (h : found ∈ occurrences pattern cs) :
    ∃ front back, cs = front ++ pattern ++ back ∧ found.offset = byteSize front ∧
      found.before = front.getLast? ∧ found.after = back.head? := by
  simpa using exists_of_mem_occurrencesFrom h

theorem exists_of_find? {pattern cs : List Char} {n : Nat} (h : find? pattern cs = some n) :
    ∃ front back, cs = front ++ pattern ++ back ∧ byteSize front = n := by
  obtain ⟨found, hfound, rfl⟩ := Option.map_eq_some_iff.mp h
  obtain ⟨front, back, split, offset, -⟩ :=
    exists_of_mem_occurrences (List.mem_of_mem_head? hfound)
  exact ⟨front, back, split, offset.symm⟩

/-- Occurrences come in the order of their places. -/
theorem pairwise_occurrencesFrom (pattern : List Char) (pos skip : Nat) (before : Option Char) (cs : List Char) :
    (occurrencesFrom pattern pos skip before cs).Pairwise fun found later => found.offset < later.offset := by
  induction cs generalizing pos skip before with
  | nil => cases skip <;> exact .nil
  | cons c cs ih =>
    cases skip with
    | succ skip => exact ih ..
    | zero =>
      rw [occurrencesFrom]
      split
      next rest hhead =>
        refine List.pairwise_cons.mpr ⟨fun later hlater => ?_, ih ..⟩
        obtain ⟨front, back, -, offset, -⟩ := exists_of_mem_occurrencesFrom hlater
        have hpos := c.utf8Size_pos
        have hbehind : pos < pos + c.utf8Size + byteSize front := by omega
        rwa [← offset] at hbehind
      next => exact ih ..

/-- Nothing occurs in a text that is too short for it. -/
theorem occurrencesFrom_eq_nil {pattern cs : List Char} (short : cs.length < pattern.length)
    (pos skip : Nat) (before : Option Char) : occurrencesFrom pattern pos skip before cs = [] := by
  rw [List.eq_nil_iff_forall_not_mem]
  intro found h
  obtain ⟨front, back, rfl, -⟩ := exists_of_mem_occurrencesFrom h
  simp only [List.length_append] at short
  omega

/-! ### What stands in the text is found -/

/-- The search finds what it stands in front of. -/
theorem exists_occurrencesFrom_append {pattern : List Char} (nonempty : pattern ≠ []) (back : List Char)
    (pos : Nat) (before : Option Char) :
    ∃ more, occurrencesFrom pattern pos 0 before (pattern ++ back) = ⟨pos, before, back.head?⟩ :: more := by
  obtain ⟨p, ps, rfl⟩ := List.exists_cons_of_ne_nil nonempty
  have hhead : (p :: ps).isPrefixOf? (p :: (ps ++ back)) = some back :=
    List.isPrefixOf?_eq_some_iff_append_eq.mpr rfl
  rw [List.cons_append, occurrencesFrom, hhead]
  exact ⟨_, rfl⟩

/-- An occurrence is found unless one that starts before it overlaps it. The search may be skipping, but
not past the place where the occurrence starts. -/
theorem mem_occurrencesFrom_of_clear {pattern : List Char} (nonempty : pattern ≠ [])
    (front back : List Char)
    (clear : ∀ part, part <:+ front → part ≠ [] → part.length < pattern.length →
      ¬ pattern <+: part ++ pattern ++ back)
    (pos skip : Nat) (before : Option Char) (reaches : skip ≤ front.length) :
    (⟨pos + byteSize front, front.getLast?.or before, back.head?⟩ : Occurrence) ∈
      occurrencesFrom pattern pos skip before (front ++ pattern ++ back) := by
  induction front generalizing pos skip before with
  | nil =>
    obtain rfl : skip = 0 := Nat.le_zero.mp reaches
    obtain ⟨more, hmore⟩ := exists_occurrencesFrom_append nonempty back pos before
    simp [hmore]
  | cons c front ih =>
    have hmove : (⟨pos + byteSize (c :: front), (c :: front).getLast?.or before, back.head?⟩ :
        Occurrence) = ⟨pos + c.utf8Size + byteSize front, front.getLast?.or (some c), back.head?⟩ := by
      rw [byteSize_cons, Nat.add_assoc, getLast?_cons_or]
    have clear' : ∀ part, part <:+ front → part ≠ [] → part.length < pattern.length →
        ¬ pattern <+: part ++ pattern ++ back :=
      fun part suffix => clear part (suffix.trans (List.suffix_cons c front))
    rw [hmove]
    simp only [List.cons_append]
    cases skip with
    | succ skip =>
      rw [occurrencesFrom]
      exact ih clear' _ _ _ (by simpa using reaches)
    | zero =>
      rw [occurrencesFrom]
      split
      next rest hhead =>
        -- Something is found here. It ends before the occurrence starts, or it would overlap that; so what
        -- belongs to it is skipped in time.
        have far : pattern.length ≤ (c :: front).length := by
          by_contra near
          refine clear (c :: front) (List.suffix_refl _) (List.cons_ne_nil c front) (by omega) ?_
          exact ⟨rest, List.append_eq_of_isPrefixOf?_eq_some hhead⟩
        have hskip : pattern.length - 1 ≤ front.length := by
          rw [List.length_cons] at far
          omega
        exact List.mem_cons_of_mem _ (ih clear' _ _ _ hskip)
      next => exact ih clear' _ _ _ (Nat.zero_le _)

theorem mem_occurrences_of_clear {pattern : List Char} (nonempty : pattern ≠ [])
    (front back : List Char)
    (clear : ∀ part, part <:+ front → part ≠ [] → part.length < pattern.length →
      ¬ pattern <+: part ++ pattern ++ back) :
    (⟨byteSize front, front.getLast?, back.head?⟩ : Occurrence) ∈
      occurrences pattern (front ++ pattern ++ back) := by
  have here := mem_occurrencesFrom_of_clear nonempty front back clear 0 0 none (Nat.zero_le _)
  rwa [Nat.zero_add, Option.or_none] at here

/-- Where the character before an occurrence is none of its own, nothing can overlap it. -/
theorem clear_of_getLast? {pattern front : List Char} (back : List Char)
    (foreign : ∀ c, front.getLast? = some c → c ∉ pattern) :
    ∀ part, part <:+ front → part ≠ [] → part.length < pattern.length →
      ¬ pattern <+: part ++ pattern ++ back := by
  rintro part ⟨rest, rfl⟩ hpart short overlap
  -- The overlapping match begins with `part`, so it has the foreign character that `part` ends with.
  have inside : part <+: pattern := by
    apply List.prefix_of_prefix_length_le (List.prefix_append part (pattern ++ back)) _ (Nat.le_of_lt short)
    simpa using overlap
  apply foreign (part.getLast hpart)
  · simp [List.getLast?_append, List.getLast?_eq_some_getLast hpart]
  · exact inside.subset (List.getLast_mem hpart)

/-- What starts with a character that it has nowhere else cannot overlap itself. -/
theorem clear_of_head_not_mem {first : Char} {rest : List Char} (front back : List Char)
    (once : first ∉ rest) :
    ∀ part, part <:+ front → part ≠ [] → part.length < (first :: rest).length →
      ¬ first :: rest <+: part ++ first :: rest ++ back := by
  rintro part - hpart short overlap
  -- The overlapping match has `first` again where the occurrence starts.
  have inside : part ++ [first] <+: first :: rest := by
    refine List.prefix_of_prefix_length_le ?_ overlap ?_
    · simp
    · simpa using Nat.succ_le_of_lt short
  obtain ⟨p, ps, rfl⟩ := List.exists_cons_of_ne_nil hpart
  rw [List.cons_append, List.cons_prefix_cons] at inside
  exact once (inside.2.subset (by simp))

/-- A part of the text that is not empty occurs in it. -/
theorem occurrencesFrom_ne_nil {pattern : List Char} (nonempty : pattern ≠ [])
    (front back : List Char) (pos skip : Nat) (before : Option Char)
    (reaches : skip ≤ front.length) :
    occurrencesFrom pattern pos skip before (front ++ pattern ++ back) ≠ [] := by
  induction front generalizing pos skip before with
  | nil =>
    have here := mem_occurrencesFrom_of_clear nonempty [] back
      (fun part suffix hpart => absurd (List.suffix_nil.mp suffix) hpart) pos skip before reaches
    exact List.ne_nil_of_mem here
  | cons c front ih =>
    simp only [List.cons_append]
    cases skip with
    | succ skip =>
      rw [occurrencesFrom]
      exact ih _ _ _ (by simpa using reaches)
    | zero =>
      rw [occurrencesFrom]
      split
      · exact List.cons_ne_nil _ _
      · exact ih _ _ _ (Nat.zero_le _)

/-- A pattern is found first where nothing before it begins with it. -/
theorem find?_append {pattern : List Char} (nonempty : pattern ≠ []) (front back : List Char)
    (clear : ∀ part, part <:+ front → part ≠ [] → ¬ pattern <+: part ++ pattern ++ back) :
    find? pattern (front ++ pattern ++ back) = some (byteSize front) := by
  have hfrom (pos : Nat) (before : Option Char) :
      (occurrencesFrom pattern pos 0 before (front ++ pattern ++ back)).head?.map
        Occurrence.offset = some (pos + byteSize front) := by
    induction front generalizing pos before with
    | nil =>
      obtain ⟨more, hmore⟩ := exists_occurrencesFrom_append nonempty back pos before
      simp [hmore]
    | cons c front ih =>
      -- Nothing is found at `c`, so nothing is skipped.
      have hnone : pattern.isPrefixOf? (c :: (front ++ pattern ++ back)) = none := by
        rw [Option.eq_none_iff_forall_ne_some]
        intro rest hrest
        exact clear (c :: front) (List.suffix_refl _) (List.cons_ne_nil c front)
          ⟨rest, List.append_eq_of_isPrefixOf?_eq_some hrest⟩
      have hlater := ih (fun part suffix => clear part (suffix.trans (List.suffix_cons c front)))
        (pos + c.utf8Size) (some c)
      simp only [List.cons_append, occurrencesFrom, hnone]
      rw [hlater, byteSize_cons, Nat.add_assoc]
  simpa [find?, occurrences] using hfrom 0 none

/-- Nothing begins with a pattern where the first character of the pattern is missing. -/
theorem not_prefix_of_head_not_mem {first : Char} {rest front : List Char} (absent : first ∉ front)
    (back : List Char) :
    ∀ part, part <:+ front → part ≠ [] → ¬ first :: rest <+: part ++ first :: rest ++ back := by
  intro part suffix hpart overlap
  obtain ⟨p, ps, rfl⟩ := List.exists_cons_of_ne_nil hpart
  simp only [List.cons_append, List.cons_prefix_cons] at overlap
  exact absent (suffix.subset (overlap.1 ▸ List.mem_cons_self))

/-- What starts with a character that it has nowhere else is found first behind a text that it is not in. -/
theorem find?_append_of_not_infix {first : Char} {rest front : List Char} (once : first ∉ rest)
    (absent : ¬ first :: rest <:+: front) (back : List Char) :
    find? (first :: rest) (front ++ first :: rest ++ back) = some (byteSize front) := by
  apply find?_append (List.cons_ne_nil first rest)
  intro part suffix hpart overlap
  by_cases short : part.length < (first :: rest).length
  · exact clear_of_head_not_mem front back once part suffix hpart short overlap
  · -- What is found earlier has room in front of it.
    rw [List.append_assoc] at overlap
    have inside : first :: rest <+: part :=
      List.prefix_of_prefix_length_le overlap (List.prefix_append part _) (Nat.le_of_not_lt short)
    exact absent (inside.isInfix.trans suffix.isInfix)

/-! ### What was found is found when the text goes on -/

/-- A text that goes on keeps its occurrences; only what stands after the last one may change. An
occurrence that came about by what was added needs all of the rest of the text, so it cannot take the
place of another one. -/
theorem exists_mem_occurrencesFrom_append {pattern cs : List Char} (tail : List Char) {pos skip : Nat}
    {before : Option Char} {found : Occurrence}
    (h : found ∈ occurrencesFrom pattern pos skip before cs) :
    { found with after := found.after.or tail.head? } ∈
      occurrencesFrom pattern pos skip before (cs ++ tail) := by
  induction cs generalizing pos skip before with
  | nil => cases skip <;> simp [occurrencesFrom] at h
  | cons c cs ih =>
    rw [List.cons_append]
    cases skip with
    | succ skip => exact ih h
    | zero =>
      rw [occurrencesFrom] at h ⊢
      cases hhead : pattern.isPrefixOf? (c :: cs) with
      | some rest =>
        have hlonger : pattern.isPrefixOf? (c :: (cs ++ tail)) = some (rest ++ tail) := by
          rw [List.isPrefixOf?_eq_some_iff_append_eq] at hhead ⊢
          rw [← List.append_assoc, hhead, List.cons_append]
        rw [hhead] at h
        simp only [hlonger, List.head?_append]
        rcases List.mem_cons.mp h with rfl | h
        · exact List.mem_cons_self
        · exact List.mem_cons_of_mem _ (ih h)
      | none =>
        rw [hhead] at h
        cases hlonger : pattern.isPrefixOf? (c :: (cs ++ tail)) with
        | none => exact ih h
        | some rest =>
          -- A match that is there only in the longer text reaches into what was added. The rest of the
          -- shorter text is too short for a match then, so there is none to be kept.
          have hlength : cs.length < pattern.length := by
            by_contra reaches
            have hcut : pattern <+: c :: cs := by
              have hlong : pattern <+: c :: cs ++ tail :=
                ⟨rest, List.append_eq_of_isPrefixOf?_eq_some hlonger⟩
              apply List.prefix_of_prefix_length_le hlong (List.prefix_append (c :: cs) tail)
              rw [List.length_cons]
              omega
            obtain ⟨remaining, happend⟩ := hcut
            rw [List.isPrefixOf?_eq_some_iff_append_eq.mpr happend] at hhead
            cases hhead
          simp [occurrencesFrom_eq_nil hlength] at h

theorem contains_eq_false {cs pattern : List Char} (h : ¬ pattern <:+: cs) : contains cs pattern = false := by
  rw [contains, Bool.not_eq_false', List.isEmpty_iff, List.eq_nil_iff_forall_not_mem]
  intro found hfound
  obtain ⟨front, back, rfl, -⟩ := exists_of_mem_occurrences hfound
  exact h ⟨front, back, rfl⟩

theorem contains_append {cs pattern : List Char} (h : contains cs pattern = true)
    (tail : List Char) : contains (cs ++ tail) pattern = true := by
  simp only [contains, Bool.not_eq_true', List.isEmpty_eq_false_iff_exists_mem] at h ⊢
  obtain ⟨found, hfound⟩ := h
  exact ⟨_, exists_mem_occurrencesFrom_append tail hfound⟩

/-! ### Matches of a rule -/

theorem exists_of_mem_matchesFrom {α : Type} {rule : Matcher α} {cs : List Char} {pos skip : Nat}
    {before : Option Char} {found : Nat × α} (h : found ∈ matchesFrom rule pos skip before cs) :
    ∃ front rest after, cs = front ++ rest ∧ rest ≠ [] ∧
      rule (front.getLast?.or before) rest = some (found.2, after) ∧
      found.1 = pos + byteSize front := by
  induction cs generalizing pos skip before with
  | nil => cases skip <;> simp [matchesFrom] at h
  | cons c cs ih =>
    -- The same in the rest of the text, which has `c` before it.
    have later {skip : Nat} (h : found ∈ matchesFrom rule (pos + c.utf8Size) skip (some c) cs) :
        ∃ front rest after, c :: cs = front ++ rest ∧ rest ≠ [] ∧
          rule (front.getLast?.or before) rest = some (found.2, after) ∧
          found.1 = pos + byteSize front := by
      obtain ⟨front, rest, after, rfl, nonempty, matched, offset⟩ := ih h
      refine ⟨c :: front, rest, after, rfl, nonempty, ?_, ?_⟩
      · rw [← matched, getLast?_cons_or]
      · rw [offset, byteSize_cons, Nat.add_assoc]
    cases skip with
    | succ skip => exact later h
    | zero =>
      rw [matchesFrom] at h
      split at h
      next value after matched =>
        rcases List.mem_cons.mp h with rfl | h
        · exact ⟨[], c :: cs, after, rfl, List.cons_ne_nil c cs, by simpa using matched, by simp⟩
        · exact later h
      next => exact later h

theorem exists_of_mem_allMatches {α : Type} {rule : Matcher α} {cs : List Char} {found : Nat × α}
    (h : found ∈ allMatches rule cs) :
    ∃ front rest after, cs = front ++ rest ∧ rest ≠ [] ∧
      rule front.getLast? rest = some (found.2, after) ∧ found.1 = byteSize front := by
  simpa using exists_of_mem_matchesFrom h

/-- A text that goes on keeps the matches of a rule, if the rule reads what it has matched again in the
same way, and if a match that only what was added makes possible has no match behind its beginning. -/
theorem matchesFrom_sublist_append {α : Type} {rule : Matcher α} {tail : List Char}
    (keeps : ∀ before cs value after, cs ≠ [] → rule before cs = some (value, after) →
      rule before (cs ++ tail) = some (value, after ++ tail))
    (late : ∀ before c cs found, rule before (c :: cs) = none →
      rule before (c :: cs ++ tail) = some found →
      ∀ pos skip, matchesFrom rule pos skip (some c) cs = [])
    (cs : List Char) (pos skip : Nat) (before : Option Char) :
    (matchesFrom rule pos skip before cs).Sublist
      (matchesFrom rule pos skip before (cs ++ tail)) := by
  induction cs generalizing pos skip before with
  | nil => cases skip <;> simp [matchesFrom]
  | cons c cs ih =>
    rw [List.cons_append]
    cases skip with
    | succ skip => exact ih _ _ _
    | zero =>
      rw [matchesFrom, matchesFrom]
      cases matched : rule before (c :: cs) with
      | some found =>
        obtain ⟨value, after⟩ := found
        have hlonger := keeps before (c :: cs) value after (List.cons_ne_nil c cs) matched
        -- The match is the same one, so as much is skipped.
        have hskip : (cs ++ tail).length - (after ++ tail).length = cs.length - after.length := by
          simp only [List.length_append]
          omega
        rw [List.cons_append] at hlonger
        simp only [hlonger, hskip]
        exact List.Sublist.cons_cons _ (ih _ _ _)
      | none =>
        cases hlonger : rule before (c :: (cs ++ tail)) with
        | none => exact ih _ _ _
        | some found =>
          -- A match that only the longer text has takes the place of none.
          simp only [late before c cs found matched hlonger]
          exact List.nil_sublist _

/-! ### Pieces of rules -/

/-- The longest stretch of some characters ends where another one stands. -/
theorem any_head?_dropWhile (test : Char → Bool) (cs : List Char) :
    (cs.dropWhile test).head?.any test = false := by
  have hstop := List.head?_dropWhile_not test cs
  cases hhead : (cs.dropWhile test).head? with
  | none => rfl
  | some c => simpa [hhead] using hstop

section Stretch

variable {test : Char → Bool} {front back : List Char} (all : ∀ c ∈ front, test c = true)
  (stops : back.head?.any test = false)
include all stops

theorem takeWhile_append_stop : (front ++ back).takeWhile test = front := by
  rw [List.takeWhile_append_of_pos all]
  cases back with
  | nil => exact List.append_nil front
  | cons c back =>
    have hc : ¬ test c = true := by simpa using stops
    rw [List.takeWhile_cons_of_neg hc, List.append_nil]

theorem dropWhile_append_stop : (front ++ back).dropWhile test = back := by
  rw [List.dropWhile_append_of_pos all]
  cases back with
  | nil => rfl
  | cons c back =>
    have hc : ¬ test c = true := by simpa using stops
    exact List.dropWhile_cons_of_neg hc

end Stretch

theorem append_of_splitOnce? {c : Char} {cs before after : List Char}
    (h : splitOnce? c cs = some (before, after)) : cs = before ++ c :: after := by
  rw [splitOnce?] at h
  cases hrest : cs.dropWhile (· != c) with
  | nil =>
    rw [hrest] at h
    cases h
  | cons d rest =>
    have hd : d = c := by
      have hstop := List.head?_dropWhile_not (· != c) cs
      simpa [hrest] using hstop
    rw [hrest, Option.some.injEq, Prod.mk.injEq] at h
    obtain ⟨rfl, rfl⟩ := h
    subst hd
    rw [← hrest, List.takeWhile_append_dropWhile]

theorem isSome_splitOnce? (c : Char) (cs : List Char) : (splitOnce? c cs).isSome = cs.contains c := by
  rw [splitOnce?]
  cases hrest : cs.dropWhile (· != c) with
  | nil =>
    have hnone : c ∉ cs := fun hc => by simpa using List.dropWhile_eq_nil_iff.mp hrest c hc
    simp [hnone]
  | cons d rest =>
    have hsome : c ∈ cs := by
      by_contra hnone
      have hall : ∀ d ∈ cs, (d != c) = true := fun d hd => bne_iff_ne.mpr fun h => hnone (h ▸ hd)
      rw [List.dropWhile_eq_nil_iff.mpr hall] at hrest
      cases hrest
    simp [hsome]

theorem splitOnce?_eq_some_iff {c : Char} {cs before after : List Char} :
    splitOnce? c cs = some (before, after) ↔ cs = before ++ c :: after ∧ c ∉ before := by
  constructor
  · intro h
    refine ⟨append_of_splitOnce? h, fun hmem => ?_⟩
    rw [splitOnce?] at h
    split at h
    next => cases h
    next =>
      obtain ⟨rfl, -⟩ := Prod.mk.inj (Option.some.inj h)
      simpa using List.mem_takeWhile_imp hmem
  · rintro ⟨rfl, free⟩
    have hbefore : ∀ d ∈ before, (d != c) = true := fun d hd => bne_iff_ne.mpr fun h => free (h ▸ hd)
    have hstops : (c :: after).head?.any (· != c) = false := by simp
    rw [splitOnce?, dropWhile_append_stop hbefore hstops, takeWhile_append_stop hbefore hstops]

theorem splitOnce?_eq_none_iff {c : Char} {cs : List Char} : splitOnce? c cs = none ↔ c ∉ cs := by
  rw [← Option.not_isSome_iff_eq_none, isSome_splitOnce?, List.contains_iff_mem]

/-- A quoted text stands between two marks of the same sort. -/
theorem exists_of_quoted? {cs value after : List Char} (h : quoted? cs = some (value, after)) :
    ∃ q, isQuote q = true ∧ cs = q :: value ++ q :: after := by
  cases cs with
  | nil => cases h
  | cons q cs =>
    rw [quoted?] at h
    split at h
    next hquote => exact ⟨q, hquote, by rw [append_of_splitOnce? h, List.cons_append]⟩
    next => cases h

/-- Trimming takes away the white space at the ends. -/
theorem exists_of_trim (cs : List Char) :
    ∃ back, (∀ c ∈ back, isBlank c = true) ∧ cs = cs.takeWhile isBlank ++ trim cs ++ back := by
  -- The end is trimmed as the beginning of the reversed text.
  have hsplit := List.takeWhile_append_dropWhile (p := isBlank) (l := (cs.dropWhile isBlank).reverse)
  refine ⟨((cs.dropWhile isBlank).reverse.takeWhile isBlank).reverse, fun c hc => ?_, ?_⟩
  · exact List.all_eq_true.mp List.all_takeWhile c (List.mem_reverse.mp hc)
  · have hend := congrArg List.reverse hsplit
    rw [List.reverse_append, List.reverse_reverse] at hend
    rw [List.append_assoc, trim, trimEnd, trimStart, hend, List.takeWhile_append_dropWhile]

/-- White space at the ends makes no difference to what is left. -/
theorem trim_append_blank {front back : List Char} (hfront : ∀ c ∈ front, isBlank c = true)
    (hback : ∀ c ∈ back, isBlank c = true) (cs : List Char) : trim (front ++ cs ++ back) = trim cs := by
  have hnone : back.dropWhile isBlank = [] := List.dropWhile_eq_nil_iff.mpr hback
  have hend (cs : List Char) : trimEnd (cs ++ back) = trimEnd cs := by
    rw [trimEnd, List.reverse_append, List.dropWhile_append_of_pos fun c hc => hback c (List.mem_reverse.mp hc)]
    rfl
  rw [trim, trimStart, List.append_assoc, List.dropWhile_append_of_pos hfront, List.dropWhile_append]
  split
  next hblank =>
    rw [hnone, trim, trimStart, List.isEmpty_iff.mp hblank]
  next => exact hend _

theorem trim_trim (cs : List Char) : trim (trim cs) = trim cs := by
  obtain ⟨back, hback, hsplit⟩ := exists_of_trim cs
  have hfront : ∀ c ∈ cs.takeWhile isBlank, isBlank c = true := fun c hc => List.all_eq_true.mp List.all_takeWhile c hc
  have htrim := trim_append_blank hfront hback (trim cs)
  rw [← hsplit] at htrim
  exact htrim.symm

theorem trimStart_of_trim {cs : List Char} (trimmed : trim cs = cs) : trimStart cs = cs := by
  obtain ⟨back, -, hsplit⟩ := exists_of_trim cs
  rw [trimmed] at hsplit
  have hlength := congrArg List.length hsplit
  simp only [List.length_append] at hlength
  have hnil : cs.takeWhile isBlank = [] := List.eq_nil_of_length_eq_zero (by omega)
  have hstart := List.takeWhile_append_dropWhile (p := isBlank) (l := cs)
  rwa [hnil, List.nil_append] at hstart

theorem trimEnd_of_trim {cs : List Char} (trimmed : trim cs = cs) : trimEnd cs = cs := by
  rw [trim, trimStart_of_trim trimmed] at trimmed
  exact trimmed

/-- There is no white space at the ends of a text with a trimmed end. -/
theorem trim_cons_append {c : Char} (hc : isBlank c = false) (front : List Char) {cs : List Char}
    (trimmed : trim cs = cs) (nonempty : cs ≠ []) : trim (c :: front ++ cs) = c :: front ++ cs := by
  have hend : cs.reverse.dropWhile isBlank = cs.reverse := by
    have hreverse := congrArg List.reverse (trimEnd_of_trim trimmed)
    rwa [trimEnd, List.reverse_reverse] at hreverse
  have hstart : trimStart (c :: front ++ cs) = c :: front ++ cs :=
    List.dropWhile_cons_of_neg (by rw [hc]; exact Bool.false_ne_true)
  rw [trim, hstart, trimEnd, List.reverse_append, List.dropWhile_append, hend, if_neg (by simpa using nonempty),
    ← List.reverse_append, List.reverse_reverse]

/-! ### Words up to case -/

theorem afterFolded?_eq_some_iff {same : Char → Char → Bool} {word cs rest : List Char} :
    afterFolded? same word cs = some rest ↔
      ∃ written, cs = written ++ rest ∧ List.Forall₂ (fun p c => same p c = true) word written := by
  induction word generalizing cs with
  | nil => simp [afterFolded?, List.forall₂_nil_left_iff]
  | cons p ps ih =>
    cases cs with
    | nil =>
      simp only [afterFolded?, reduceCtorEq, false_iff, not_exists, not_and]
      intro written split hwritten
      obtain ⟨rfl, -⟩ := List.append_eq_nil_iff.mp split.symm
      cases hwritten
    | cons c cs =>
      rw [afterFolded?]
      constructor
      · intro h
        split at h
        next hsame =>
          obtain ⟨written, rfl, hwritten⟩ := ih.mp h
          exact ⟨c :: written, rfl, .cons hsame hwritten⟩
        next => cases h
      · rintro ⟨written, split, hwritten⟩
        cases hwritten with
        | cons hsame hwritten =>
          obtain ⟨rfl, rfl⟩ := List.cons.inj split
          rw [if_pos hsame]
          exact ih.mpr ⟨_, rfl, hwritten⟩

/-- A word that is found once the text goes on was there before, unless what was added has to do with it. -/
theorem afterFolded?_append {same : Char → Char → Bool} {word cs : List Char} {d : Char}
    (foreign : ∀ p ∈ word, same p d = false) (tail : List Char) :
    afterFolded? same word (cs ++ d :: tail) = (afterFolded? same word cs).map (· ++ d :: tail) := by
  induction word generalizing cs with
  | nil => rfl
  | cons p ps ih =>
    cases cs with
    | nil => simp [afterFolded?, foreign p List.mem_cons_self]
    | cons c cs =>
      simp only [List.cons_append, afterFolded?]
      split
      · exact ih fun p hp => foreign p (List.mem_cons_of_mem _ hp)
      · rfl

end Exemplar.Text
