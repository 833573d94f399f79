import Exemplar.Location.Locator
import Exemplar.Proofs.Text.Search

/-!
# What a needle finds

A needle finds places of the text it is looked for in, and picks lines from among those it is shown. What
it finds in a line does not depend on the number of that line.
-/

namespace Exemplar.Location

/-! ### Boundaries -/

theorem Boundary.accepts_word_iff {before after : Option Char} : word.accepts before after = true ↔
    (before.any Text.isIdentChar = false ∧ before ≠ some '@') ∧ after.any Text.isIdentChar = false := by
  cases before <;> simp [accepts]

/-! ### Numbered lines -/

theorem mem_numberedFrom {first n : Nat} {lines : List (List Char)} {line : List Char}
    (h : (n, line) ∈ numberedFrom first lines) :
    first ≤ n ∧ n < first + lines.length ∧ line ∈ lines := by
  obtain ⟨⟨held, i⟩, hmem, heq⟩ := List.mem_map.mp h
  obtain ⟨rfl, rfl⟩ := Prod.mk.inj heq
  have hget := List.mk_mem_zipIdx_iff_getElem?.mp hmem
  obtain ⟨hlt, rfl⟩ := List.getElem?_eq_some_iff.mp hget
  exact ⟨Nat.le_add_right _ _, Nat.add_lt_add_left hlt _, List.getElem_mem hlt⟩

theorem mem_numberedFrom_iff {first n : Nat} {lines : List (List Char)} {line : List Char} :
    (n, line) ∈ numberedFrom first lines ↔ ∃ i, n = first + i ∧ lines[i]? = some line := by
  simp only [numberedFrom, List.mem_map, Prod.exists, List.mk_mem_zipIdx_iff_getElem?, Prod.mk.injEq]
  constructor
  · rintro ⟨held, i, hget, rfl, rfl⟩
    exact ⟨i, rfl, hget⟩
  · rintro ⟨i, rfl, hget⟩
    exact ⟨line, i, hget, rfl, rfl⟩

theorem pairwise_numberedFrom (first : Nat) (lines : List (List Char)) :
    (numberedFrom first lines).Pairwise fun line other => line.1 < other.1 := by
  rw [List.pairwise_iff_getElem]
  intro i j hi hj lt
  simpa [numberedFrom] using lt

theorem map_snd_numberedFrom (first : Nat) (lines : List (List Char)) :
    (numberedFrom first lines).map Prod.snd = lines := by
  rw [numberedFrom, List.map_map]
  exact List.zipIdx_map_fst 0 lines

namespace Needle

variable {needle : Needle}

/-! ### Lines that hold a needle -/

/-- A line holds the needle as it is, or in the spelling of markup. -/
def HeldBy (needle : Needle) (line : List Char) : Prop :=
  (needle.find? line).isSome = true ∨ (needle.escaped.find? line).isSome = true

instance (needle : Needle) (line : List Char) : Decidable (needle.HeldBy line) :=
  inferInstanceAs (Decidable (_ ∨ _))

theorem exists_of_lineIn? {lines : List (Nat × List Char)} {n : Nat}
    (h : needle.lineIn? lines = some n) : ∃ line, (n, line) ∈ lines ∧ needle.HeldBy line := by
  obtain ⟨⟨number, line⟩, hfound, rfl⟩ := Option.map_eq_some_iff.mp h
  have hmem := List.mem_of_find?_eq_some hfound
  have hheld := List.find?_some hfound
  refine ⟨line, ?_, by simpa [HeldBy] using hheld⟩
  split at hmem
  · exact List.mem_reverse.mp hmem
  · exact hmem

theorem lineIn?_eq_none_iff {lines : List (Nat × List Char)} :
    needle.lineIn? lines = none ↔ ∀ line ∈ lines.map Prod.snd, ¬ needle.HeldBy line := by
  -- From which end the lines are gone through does not matter for whether one is found.
  have hmem (found : Nat × List Char) :
      (found ∈ if needle.fromEnd then lines.reverse else lines) ↔ found ∈ lines := by
    split <;> simp
  rw [lineIn?, Option.map_eq_none_iff, List.find?_eq_none]
  simp only [hmem, List.mem_map]
  constructor
  · rintro h _ ⟨found, hfound, rfl⟩
    simpa [HeldBy] using h found hfound
  · intro h found hfound
    simpa [HeldBy] using h found.2 ⟨found, hfound, rfl⟩

/-- From numbered lines a needle picks the first one that holds it, or the last one if that is what counts. -/
structure Picks (needle : Needle) (lines : List (Nat × List Char)) (n : Nat) : Prop where
  held : ∃ line, (n, line) ∈ lines ∧ needle.HeldBy line
  first : needle.fromEnd = false → ∀ found ∈ lines, needle.HeldBy found.2 → n ≤ found.1
  last : needle.fromEnd = true → ∀ found ∈ lines, needle.HeldBy found.2 → found.1 ≤ n

/-- What is found first in a list comes before all else that could have been found. -/
theorem eq_or_rel_of_find? {α : Type} {related : α → α → Prop} {test : α → Bool} {items : List α}
    {picked : α} (sorted : items.Pairwise related) (h : items.find? test = some picked) :
    ∀ item ∈ items, test item = true → item = picked ∨ related picked item := by
  obtain ⟨-, passed, rest, rfl, hpassed⟩ := List.find?_eq_some_iff_append.mp h
  intro item hitem htest
  rcases List.mem_append.mp hitem with hbefore | hlater
  · have hnot := hpassed item hbefore
    rw [htest] at hnot
    cases hnot
  · have hrest := (List.pairwise_append.mp sorted).2.1
    exact (List.mem_cons.mp hlater).imp_right ((List.pairwise_cons.mp hrest).1 item)

theorem picks_of_lineIn? {lines : List (Nat × List Char)} {n : Nat}
    (sorted : lines.Pairwise fun line other => line.1 < other.1) (h : needle.lineIn? lines = some n) :
    needle.Picks lines n := by
  have hheld := exists_of_lineIn? h
  obtain ⟨picked, hpicked, rfl⟩ := Option.map_eq_some_iff.mp h
  refine ⟨hheld, ?_, ?_⟩
  · intro forward found hfound hholds
    rw [forward, if_neg Bool.false_ne_true] at hpicked
    rcases eq_or_rel_of_find? sorted hpicked found hfound (by simpa [HeldBy] using hholds) with rfl | lt
    · exact Nat.le_refl _
    · exact Nat.le_of_lt lt
  · intro backward found hfound hholds
    rw [backward, if_pos rfl] at hpicked
    rcases eq_or_rel_of_find? (List.pairwise_reverse.mpr sorted) hpicked found
      (List.mem_reverse.mpr hfound) (by simpa [HeldBy] using hholds) with rfl | lt
    · exact Nat.le_refl _
    · exact Nat.le_of_lt lt

/-! ### The text of a needle -/

/-- One of the patterns stands in a line, as it is or in the spelling of markup. What is next to it does not
matter here. -/
def WrittenIn (needle : Needle) (line : List Char) : Prop :=
  ∃ pattern ∈ needle.patterns, pattern ≠ [] ∧ (pattern <:+: line ∨ Markup.escape pattern <:+: line)

instance (needle : Needle) (line : List Char) : Decidable (needle.WrittenIn line) :=
  inferInstanceAs (Decidable (∃ pattern ∈ needle.patterns,
    pattern ≠ [] ∧ (pattern <:+: line ∨ Markup.escape pattern <:+: line)))

theorem WrittenIn.of_infix {line whole : List Char} (written : needle.WrittenIn line)
    (part : line <:+: whole) : needle.WrittenIn whole := by
  obtain ⟨pattern, hpattern, nonempty, hline⟩ := written
  exact ⟨pattern, hpattern, nonempty, hline.imp (fun h => h.trans part) (fun h => h.trans part)⟩

/-! ### Places of a needle -/

theorem exists_of_findPattern? {boundary : Boundary} {pattern cs : List Char} {n : Nat}
    (h : findPattern? boundary pattern cs = some n) :
    ∃ front back, cs = front ++ pattern ++ back ∧ Text.byteSize front = n := by
  obtain ⟨found, hfound, rfl⟩ := Option.map_eq_some_iff.mp h
  obtain ⟨front, back, split, offset, -⟩ :=
    Text.exists_of_mem_occurrences (List.mem_of_find?_eq_some hfound)
  exact ⟨front, back, split, offset.symm⟩

/-- A needle is found at the place of one of its patterns. -/
theorem exists_of_find? {cs : List Char} {n : Nat} (h : needle.find? cs = some n) :
    ∃ pattern ∈ needle.patterns, pattern ≠ [] ∧ ∃ front back, cs = front ++ pattern ++ back ∧
      Text.byteSize front = n := by
  have hmem := List.min?_mem h
  obtain ⟨pattern, hpattern, hfound⟩ := List.mem_filterMap.mp hmem
  obtain ⟨hmem, nonempty⟩ := List.mem_filter.mp hpattern
  exact ⟨pattern, hmem, by simpa using nonempty, exists_of_findPattern? hfound⟩

/-- A line that holds a needle has one of its patterns written in it. -/
theorem HeldBy.writtenIn {line : List Char} (held : needle.HeldBy line) : needle.WrittenIn line := by
  rcases held with hplain | hescaped
  · obtain ⟨n, hn⟩ := Option.isSome_iff_exists.mp hplain
    obtain ⟨pattern, hpattern, nonempty, front, back, split, -⟩ := exists_of_find? hn
    exact ⟨pattern, hpattern, nonempty, Or.inl ⟨front, back, split.symm⟩⟩
  · obtain ⟨n, hn⟩ := Option.isSome_iff_exists.mp hescaped
    obtain ⟨_, hpattern, nonempty, front, back, split, -⟩ := exists_of_find? hn
    obtain ⟨pattern, hmem, rfl⟩ := List.mem_map.mp hpattern
    -- Nothing is written for an empty pattern.
    have hpattern : pattern ≠ [] := by
      rintro rfl
      exact nonempty rfl
    exact ⟨pattern, hmem, hpattern, Or.inr ⟨front, back, split.symm⟩⟩

/-- A needle is found as soon as one of its patterns occurs where it may. -/
theorem isSome_find?_of_mem {pattern cs : List Char} (hpattern : pattern ∈ needle.patterns)
    (nonempty : pattern ≠ []) {found : Text.Occurrence} (hfound : found ∈ Text.occurrences pattern cs)
    (accepted : needle.boundary.accepts found.before found.after = true) :
    (needle.find? cs).isSome = true := by
  have hsome : (findPattern? needle.boundary pattern cs).isSome = true := by
    rw [findPattern?, Option.isSome_map, List.find?_isSome]
    exact ⟨found, hfound, accepted⟩
  obtain ⟨n, hn⟩ := Option.isSome_iff_exists.mp hsome
  rw [find?, List.isSome_min?_iff]
  apply List.ne_nil_of_mem (a := n)
  exact List.mem_filterMap.mpr ⟨pattern, List.mem_filter.mpr ⟨hpattern, by simpa using nonempty⟩, hn⟩

end Needle

end Exemplar.Location
