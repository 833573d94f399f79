import Exemplar.Proofs.Text.Search

/-!
# Matches one after the other

A search goes on behind what a match has read. So no two matches share anything of the text, and where as much is
left to skip as a part of the text has characters, the search takes up again behind that part.
-/

namespace Exemplar.Text

variable {α : Type} {rule : Matcher α}

/-- What is left of the last match is passed over. -/
theorem matchesFrom_skip (rule : Matcher α) (front back : List Char) (pos : Nat) (before : Option Char) :
    matchesFrom rule pos front.length before (front ++ back) =
      matchesFrom rule (pos + byteSize front) 0 (front.getLast?.or before) back := by
  induction front generalizing pos before with
  | nil => rfl
  | cons c front ih =>
    rw [List.cons_append, List.length_cons, matchesFrom, ih, getLast?_cons_or, byteSize_cons, Nat.add_assoc]

/-- Where a rule does not match, the search goes on. -/
theorem matchesFrom_append_of_none {front : List Char} (back : List Char) (pos : Nat) {before : Option Char}
    (none : ∀ part rest, front = part ++ rest → rest ≠ [] → rule (part.getLast?.or before) (rest ++ back) = none) :
    matchesFrom rule pos 0 before (front ++ back) =
      matchesFrom rule (pos + byteSize front) 0 (front.getLast?.or before) back := by
  induction front generalizing pos before with
  | nil => rfl
  | cons c front ih =>
    have hhere : rule before (c :: (front ++ back)) = .none := none [] (c :: front) rfl (List.cons_ne_nil c front)
    rw [List.cons_append, matchesFrom, hhere, getLast?_cons_or, byteSize_cons, ← Nat.add_assoc]
    apply ih
    rintro part rest rfl hrest
    rw [← getLast?_cons_or c part before]
    exact none (c :: part) rest rfl hrest

/-- Where a rule matches, the search goes on behind what it has read. -/
theorem matchesFrom_append_of_some {read back : List Char} {before : Option Char} {value : α} (pos : Nat)
    (matched : rule before (read ++ back) = some (value, back)) (nonempty : read ≠ []) :
    matchesFrom rule pos 0 before (read ++ back) =
      (pos, value) :: matchesFrom rule (pos + byteSize read) 0 (read.getLast?.or before) back := by
  obtain ⟨c, read, rfl⟩ := List.exists_cons_of_ne_nil nonempty
  rw [List.cons_append] at matched ⊢
  rw [matchesFrom, matched, getLast?_cons_or, byteSize_cons, ← Nat.add_assoc, ← matchesFrom_skip]
  simp only [List.length_append, Nat.add_sub_cancel_right]

/-- Nothing is found in what is passed over. -/
theorem le_of_mem_matchesFrom {cs : List Char} {pos skip : Nat} {before : Option Char} {found : Nat × α}
    (h : found ∈ matchesFrom rule pos skip before cs) : pos + byteSize (cs.take skip) ≤ found.1 := by
  induction cs generalizing pos skip before with
  | nil => cases skip <;> simp [matchesFrom] at h
  | cons c cs ih =>
    cases skip with
    | zero =>
      obtain ⟨front, rest, after, -, -, -, offset⟩ := exists_of_mem_matchesFrom h
      rw [offset, List.take_zero, byteSize_nil]
      exact Nat.add_le_add_left (Nat.zero_le _) pos
    | succ skip =>
      have hlater := ih h
      rw [List.take_succ_cons, byteSize_cons]
      omega

/-- A match ends before the next one begins. `size` is any part of what a match reads. -/
theorem pairwise_matchesFrom (size : α → Nat)
    (reads : ∀ before cs value after, rule before cs = some (value, after) →
      ∃ read, cs = read ++ after ∧ size value ≤ byteSize read)
    (cs : List Char) (pos skip : Nat) (before : Option Char) :
    (matchesFrom rule pos skip before cs).Pairwise fun found later =>
      found.1 < later.1 ∧ found.1 + size found.2 ≤ later.1 := by
  induction cs generalizing pos skip before with
  | nil => cases skip <;> simp [matchesFrom]
  | cons c cs ih =>
    cases skip with
    | succ skip => exact ih _ _ _
    | zero =>
      rw [matchesFrom]
      split
      next value after matched =>
        refine List.pairwise_cons.mpr ⟨fun later hlater => ?_, ih _ _ _⟩
        have hbound := le_of_mem_matchesFrom hlater
        have hpos := c.utf8Size_pos
        obtain ⟨read, hread, hsize⟩ := reads _ _ _ _ matched
        cases read with
        | nil =>
          rw [byteSize_nil] at hsize
          dsimp only
          omega
        | cons d read =>
          -- What is skipped behind `c` is the rest of what the match has read.
          rw [List.cons_append] at hread
          obtain ⟨rfl, rfl⟩ := List.cons.inj hread
          rw [List.length_append, Nat.add_sub_cancel_right, List.take_left] at hbound
          rw [byteSize_cons] at hsize
          dsimp only
          omega
      next => exact ih _ _ _

theorem pairwise_allMatches (rule : Matcher α) (size : α → Nat)
    (reads : ∀ before cs value after, rule before cs = some (value, after) →
      ∃ read, cs = read ++ after ∧ size value ≤ byteSize read) (cs : List Char) :
    (allMatches rule cs).Pairwise fun found later =>
      found.1 < later.1 ∧ found.1 + size found.2 ≤ later.1 :=
  pairwise_matchesFrom size reads cs 0 0 none

end Exemplar.Text
