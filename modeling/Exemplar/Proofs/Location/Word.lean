import Exemplar.Coverage.Evidence
import Exemplar.Proofs.Location.Needle
import Exemplar.Proofs.Query.Attribute
import Exemplar.Proofs.Text.Word
import Mathlib.Order.Bounds.Basic

/-!
# Whole words

A search for a word goes on behind what it has found, even if that turns out to be part of a longer word. What
it goes past then may overlap the next place of the word, but for identifiers that is not one where the word
stands by itself. So both searches for words find the maximal runs of identifier characters.
-/

namespace Exemplar

open Coverage (Content)
open Location (Boundary Needle)
open Query (RunIn)
open Text (byteSize isIdentChar lower occurrences sameIgnoringCase)

/-! ### Runs in lower case -/

namespace Text

open Query (RunIn)

variable {run word before after cs : List Char}

theorem any_isIdentChar_map_toLower (c : Option Char) :
    (c.map Char.toLower).any isIdentChar = c.any isIdentChar := by
  cases c with
  | none => rfl
  | some c => exact isIdentChar_toLower c

theorem forall_mem_lower_iff :
    (∀ c ∈ lower cs, isIdentChar c = true) ↔ ∀ c ∈ cs, isIdentChar c = true := by
  simp only [lower, List.forall_mem_map, isIdentChar_toLower]

/-- The case of letters makes no difference to what is a run. -/
theorem runIn_lower_iff (split : cs = before ++ run ++ after) :
    RunIn (lower run) (lower before) (lower after) (lower cs) ↔ RunIn run before after cs := by
  have hends : (lower after).head?.any isIdentChar = after.head?.any isIdentChar := by
    rw [lower, List.head?_map, any_isIdentChar_map_toLower]
  have hstarts : (lower before).getLast?.any isIdentChar = before.getLast?.any isIdentChar := by
    rw [lower, List.getLast?_map, any_isIdentChar_map_toLower]
  have hnil : lower run ≠ [] ↔ run ≠ [] := not_congr List.map_eq_nil_iff
  have hsplit : lower cs = lower before ++ lower run ++ lower after := by
    rw [split, lower, List.map_append, List.map_append]
    rfl
  constructor
  · intro found
    exact ⟨⟨split, hnil.mp found.nonempty, forall_mem_lower_iff.mp found.chars, hends ▸ found.ends⟩,
      hstarts ▸ found.starts⟩
  · intro found
    exact ⟨⟨hsplit, hnil.mpr found.nonempty, forall_mem_lower_iff.mpr found.chars, hends.trans found.ends⟩,
      hstarts.trans found.starts⟩

/-- A run of the text in lower case is one of the text. -/
theorem exists_runIn_of_lower (h : RunIn word before after (lower cs)) :
    ∃ run front back, RunIn run front back cs ∧ lower run = word := by
  obtain ⟨left, back, rfl, hleft, rfl⟩ := List.map_eq_append_iff.mp h.split
  obtain ⟨front, run, rfl, rfl, rfl⟩ := List.map_eq_append_iff.mp hleft
  exact ⟨run, front, back, (runIn_lower_iff rfl).mp h, rfl⟩

end Text

/-! ### Words in content -/

theorem Coverage.Content.containsWord_iff {content : Content} {word : String} (nonempty : word.toList ≠ [])
    (chars : ∀ c ∈ word.toList, isIdentChar c = true) : content.containsWord word = true ↔
      ∃ run before after, RunIn run before after content.text ∧ sameIgnoringCase run word.toList = true := by
  have hnonempty : lower word.toList ≠ [] := fun h => nonempty (List.map_eq_nil_iff.mp h)
  simp only [containsWord, content.lowered_eq, Bool.and_eq_true, List.any_eq_true, Bool.not_eq_true',
    List.isEmpty_eq_false_iff, sameIgnoringCase, beq_iff_eq]
  constructor
  · rintro ⟨-, found, hfound, starts, ends⟩
    obtain ⟨before, after, hrun, -⟩ := Query.exists_runIn_of_mem_occurrences hnonempty
      (Text.forall_mem_lower_iff.mpr chars) hfound starts ends
    obtain ⟨run, front, back, hrun, hlower⟩ := Text.exists_runIn_of_lower hrun
    exact ⟨run, front, back, hrun, hlower⟩
  · rintro ⟨run, before, after, hrun, hlower⟩
    have hlowered := (Text.runIn_lower_iff hrun.split).mpr hrun
    rw [hlower] at hlowered
    exact ⟨hnonempty, _, hlowered.mem_occurrences, hlowered.starts, hlowered.ends⟩

/-! ### Words of a needle -/

namespace Location

/-- The places of a word in a text: where it is a whole run, and not behind an `@`. -/
def wordPlaces (word cs : List Char) : Set Nat :=
  {n | ∃ before after, RunIn word before after cs ∧ before.getLast? ≠ some '@' ∧ byteSize before = n}

namespace Needle

variable {boundary : Boundary} {pattern word cs : List Char} {n : Nat}

/-- The places at which a boundary accepts a pattern that is found. -/
def acceptedPlaces (boundary : Boundary) (pattern cs : List Char) : Set Nat :=
  {n | ∃ found ∈ occurrences pattern cs, boundary.accepts found.before found.after = true ∧ found.offset = n}

theorem isLeast_of_findPattern? (h : findPattern? boundary pattern cs = some n) :
    IsLeast (acceptedPlaces boundary pattern cs) n := by
  obtain ⟨found, hfound, rfl⟩ := Option.map_eq_some_iff.mp h
  have haccepted := List.find?_some hfound
  refine ⟨⟨found, List.mem_of_find?_eq_some hfound, haccepted, rfl⟩, ?_⟩
  rintro _ ⟨other, hother, accepted, rfl⟩
  -- Occurrences come in order, so the first one that is accepted is the least one.
  rcases eq_or_rel_of_find? (Text.pairwise_occurrencesFrom pattern 0 0 none cs) hfound other hother accepted
    with rfl | lt
  · exact Nat.le_refl _
  · exact Nat.le_of_lt lt

theorem findPattern?_eq_none_iff :
    findPattern? boundary pattern cs = none ↔ acceptedPlaces boundary pattern cs = ∅ := by
  rw [findPattern?, Option.map_eq_none_iff, List.find?_eq_none, Set.eq_empty_iff_forall_notMem]
  constructor
  · rintro h n ⟨found, hfound, accepted, -⟩
    exact h found hfound accepted
  · intro h found hfound accepted
    exact h found.offset ⟨found, hfound, accepted, rfl⟩

theorem findPattern?_eq_some_iff :
    findPattern? boundary pattern cs = some n ↔ IsLeast (acceptedPlaces boundary pattern cs) n := by
  refine ⟨isLeast_of_findPattern?, fun least => ?_⟩
  cases hfind : findPattern? boundary pattern cs with
  | none =>
    rw [findPattern?_eq_none_iff.mp hfind] at least
    exact absurd least.1 (Set.notMem_empty n)
  | some m => rw [(isLeast_of_findPattern? hfind).unique least]

theorem acceptedPlaces_word (nonempty : word ≠ []) (chars : ∀ c ∈ word, isIdentChar c = true) :
    acceptedPlaces .word word cs = wordPlaces word cs := by
  ext n
  constructor
  · rintro ⟨found, hfound, accepted, rfl⟩
    obtain ⟨⟨starts, bare⟩, ends⟩ := Boundary.accepts_word_iff.mp accepted
    obtain ⟨before, after, hrun, rfl⟩ :=
      Query.exists_runIn_of_mem_occurrences nonempty chars hfound starts ends
    exact ⟨before, after, hrun, bare, rfl⟩
  · rintro ⟨before, after, hrun, bare, rfl⟩
    exact ⟨_, hrun.mem_occurrences, Boundary.accepts_word_iff.mpr ⟨⟨hrun.starts, bare⟩, hrun.ends⟩, rfl⟩

theorem find?_singleton (nonempty : pattern ≠ []) (fromEnd : Bool) :
    (⟨[pattern], boundary, fromEnd⟩ : Needle).find? cs = findPattern? boundary pattern cs := by
  have hfilter : [pattern].filter (!·.isEmpty) = [pattern] := by simp [nonempty]
  rw [find?, hfilter, List.filterMap_cons]
  cases findPattern? boundary pattern cs <;> rfl

end Needle

end Location

open Location (wordPlaces)

/-- Content has an identifier as a word if some run of identifier characters in it is the same in any case. A needle
of one identifier finds the first run that is equal to it and does not stand behind an `@`, if there is one. -/
theorem wordSearches_find_runs {word : String} (nonempty : word ≠ "")
    (chars : ∀ c ∈ word.toList, isIdentChar c = true) :
    (∀ content : Content, content.containsWord word = true ↔
      ∃ run before after, RunIn run before after content.text ∧ sameIgnoringCase run word.toList = true) ∧
    ∀ (fromEnd : Bool) (cs : List Char),
      (∀ n, (⟨[word.toList], .word, fromEnd⟩ : Needle).find? cs = some n ↔
        IsLeast (wordPlaces word.toList cs) n) ∧
      ((⟨[word.toList], .word, fromEnd⟩ : Needle).find? cs = none ↔ wordPlaces word.toList cs = ∅) := by
  have hword : word.toList ≠ [] := by simpa using nonempty
  refine ⟨fun content => Content.containsWord_iff hword chars, fun fromEnd cs => ?_⟩
  rw [Needle.find?_singleton hword, ← Needle.acceptedPlaces_word hword chars]
  exact ⟨fun n => Needle.findPattern?_eq_some_iff, Needle.findPattern?_eq_none_iff⟩

/-- A word within a longer one, behind an `@`, and by itself. -/
def crowdedText : String :=
  "barBAR é@bar.bar"

/-- The needle finds the last of these. -/
theorem wordSearches_crowdedText :
    ("bar" ≠ "" ∧ ∀ c ∈ "bar".toList, isIdentChar c = true) ∧
      (∃ run before after, RunIn run before after (Content.ofText crowdedText).text ∧
        sameIgnoringCase run "bar".toList = true) ∧
      IsLeast (wordPlaces "bar".toList crowdedText.toList) 14 := by
  have nonempty : "bar" ≠ "" := by decide
  have chars : ∀ c ∈ "bar".toList, isIdentChar c = true := List.all_eq_true.mp (by decide +kernel)
  obtain ⟨contents, needles⟩ := wordSearches_find_runs nonempty chars
  obtain ⟨places, -⟩ := needles false crowdedText.toList
  exact ⟨⟨nonempty, chars⟩, (contents (Content.ofText crowdedText)).mp (by decide +kernel),
    (places 14).mp (by decide +kernel)⟩

end Exemplar
