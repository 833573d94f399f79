import Exemplar.Text.Basic
import Exemplar.Text.Fold
import Exemplar.Text.Word
import Mathlib

/-!
# Identifiers and words

An identifier is looked for in prose without regard to case, and what is found for it is a word: besides
its ASCII letters in either case only the long s and the Kelvin sign stand for one of its characters.
-/

namespace Exemplar.Text

/-! ### ASCII case -/

theorem toNat_lt_of_isIdentChar {c : Char} (h : isIdentChar c = true) : c.toNat < 0x80 := by
  simp only [isIdentChar, Char.isAlphanum, Char.isAlpha, Char.isUpper, Char.isLower, Char.isDigit,
    Bool.or_eq_true, Bool.and_eq_true, decide_eq_true_eq, beq_iff_eq] at h
  rcases h with ((h | h) | h) | rfl
  · exact Nat.lt_of_le_of_lt (UInt32.le_iff_toNat_le.mp h.2) (by decide)
  · exact Nat.lt_of_le_of_lt (UInt32.le_iff_toNat_le.mp h.2) (by decide)
  · exact Nat.lt_of_le_of_lt (UInt32.le_iff_toNat_le.mp h.2) (by decide)
  · decide

theorem isWordChar_of_isIdentChar {c : Char} (h : isIdentChar c = true) : isWordChar c = true := by
  rw [isWordChar, if_pos (toNat_lt_of_isIdentChar h)]
  exact h

theorem isIdentChar_toLower (c : Char) : isIdentChar c.toLower = isIdentChar c := by
  by_cases upper : c.isUpper = true
  · have alpha : c.isAlpha = true := by
      rw [Char.isAlpha, upper, Bool.true_or]
    simp [isIdentChar, Char.isAlphanum, alpha]
  · rw [Char.toLower_eq_of_not_isUpper upper]

/-! ### Full case -/

/-- The runs that end in ASCII consist of one word character each. -/
private theorem isWordChar_of_target (run : FoldRun) (hrun : run ∈ foldRuns)
    (ascii : run.target < 0x80) : run.first = run.last ∧ isWordChar (Char.ofNat run.first) = true := by
  have hall : ∀ run ∈ foldRuns, run.target < 0x80 →
      run.first = run.last ∧ isWordChar (Char.ofNat run.first) = true := by
    decide +kernel
  exact hall run hrun ascii

private theorem isWordChar_of_image? {run : FoldRun} (hrun : run ∈ foldRuns) {c : Char} {n : Nat}
    (himage : run.image? c.toNat = some n) (ascii : n < 0x80) : isWordChar c = true := by
  simp only [FoldRun.image?, Bool.and_eq_true, decide_eq_true_eq] at himage
  split at himage
  next inside =>
    obtain rfl := Option.some.inj himage
    obtain ⟨hsingle, hword⟩ := isWordChar_of_target run hrun (by omega)
    have hfirst : run.first = c.toNat := by omega
    rwa [hfirst, Char.ofNat_toNat] at hword
  next => cases himage

/-- What folds to the same character as a character of an identifier is a word character. -/
theorem isWordChar_of_sameFold {n c : Char} (hn : isIdentChar n = true) (same : sameFold n c = true) :
    isWordChar c = true := by
  have hfold : isIdentChar (fold c) = true := by
    rw [sameFold, beq_iff_eq] at same
    rw [← same, fold, if_pos (toNat_lt_of_isIdentChar hn), isIdentChar_toLower, hn]
  -- ASCII characters only change case. The others fold by a table, and few of its entries lead to ASCII.
  by_cases ascii : c.toNat < 0x80
  · rw [fold, if_pos ascii, isIdentChar_toLower] at hfold
    exact isWordChar_of_isIdentChar hfold
  · rw [fold, if_neg ascii] at hfold
    cases himage : foldRuns.findSome? (·.image? c.toNat) with
    | none =>
      rw [himage] at hfold
      exact absurd (toNat_lt_of_isIdentChar hfold) ascii
    | some n =>
      rw [himage] at hfold
      obtain ⟨run, hrun, himage⟩ := List.exists_of_findSome?_eq_some himage
      -- What is no character would fold to the character 0, which is in no identifier.
      have hn : n < 0x80 := by
        by_contra large
        have hsmall := toNat_lt_of_isIdentChar hfold
        simp only [Option.map_some, Option.getD_some] at hfold hsmall
        by_cases valid : n.isValidChar
        · rw [Char.ofNat, dif_pos valid] at hsmall
          exact large hsmall
        · rw [Char.ofNat, dif_neg valid] at hfold
          cases hfold
      exact isWordChar_of_image? hrun himage hn

/-! ### White space -/

/-- No white space is part of a word. -/
theorem isWordChar_of_isBlank {c : Char} (h : isBlank c = true) : isWordChar c = false := by
  have hall : ∀ n ∈ List.range' 9 5 ++ List.range' 0x2000 11 ++
      [0x20, 0x85, 0xA0, 0x1680, 0x2028, 0x2029, 0x202F, 0x205F, 0x3000],
      isWordChar (Char.ofNat n) = false := by
    decide +kernel
  -- White space is a few ranges and single characters, so it can be gone through.
  rw [← Char.ofNat_toNat c]
  apply hall
  simp only [isBlank, Bool.or_eq_true, Bool.and_eq_true, decide_eq_true_eq, beq_iff_eq] at h
  simp only [List.mem_append, List.mem_range'_1, List.mem_cons, List.not_mem_nil, or_false]
  omega

end Exemplar.Text
