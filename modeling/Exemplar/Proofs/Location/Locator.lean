import Exemplar.Proofs.Location.Needle
import Exemplar.Proofs.Location.Value
import Exemplar.Proofs.Text.Line

/-!
# What a locator answers

The three answers of a locator, each from what it is computed from. A locator that was told where the property
stands has an answer for every target, `none` included, unless it stumbles: the value's quote is overlong, and
neither a line that looks like a property nor a line of the property holds the target, so that the place of
the value is asked for.

An answer from a line of the text or of the property is a line of the text. The third answer adds the
newlines of the query as it was read to the line on which the value starts, and a query can have newlines
that are no line breaks of the text.
-/

namespace Exemplar

open Location
open Markup (Span)
open Text (Misplaced)

/-! ### The three answers -/

namespace Locator

variable {locator : Locator} {target : Target} {needle : Needle} {n : Nat}

/-- The property of a locator, if it has one, is a part of its text. -/
def IsKept (locator : Locator) : Prop :=
  ∀ span, locator.property? = some span → (sliceOf? locator.text span).isSome = true

theorem property?_withProperty (text query : String) (property? : Option Span) (lineOffset : Nat) :
    (withProperty text query property? lineOffset).property? =
      property?.filter fun span => (sliceOf? text span).isSome := rfl

/-- A span that covers a part of the text is kept. -/
theorem property?_withProperty_of_propertyIn {text : String} {span : Span} {before property after : List Char}
    (placed : PropertyIn text span before property after) (query : String) (lineOffset : Nat) :
    (withProperty text query (some span) lineOffset).property? = some span := by
  rw [property?_withProperty, Option.filter_some, placed.sliceOf?_eq]
  rfl

theorem isKept_withProperty (text query : String) (property? : Option Span) (lineOffset : Nat) :
    (withProperty text query property? lineOffset).IsKept := by
  intro span hspan
  exact (Option.filter_eq_some_iff.mp hspan).2

/-- The property and what is around it, if there is a property at all. -/
theorem IsKept.cases (kept : locator.IsKept) :
    locator.property? = none ∨ ∃ span before property after, locator.property? = some span ∧
      PropertyIn locator.text span before property after := by
  cases hspan : locator.property? with
  | none => exact Or.inl rfl
  | some span =>
    obtain ⟨property, hslice⟩ := Option.isSome_iff_exists.mp (kept span hspan)
    obtain ⟨before, after, placed⟩ := exists_propertyIn hslice
    exact Or.inr ⟨span, before, property, after, rfl, placed⟩

theorem singleLines_eq (locator : Locator) :
    locator.survey.singleLines = singleLines locator.text := by
  rw [locator.survey_eq]
  rfl

theorem propertyLines_eq (locator : Locator) :
    locator.survey.propertyLines = propertyLines locator.text locator.property? := by
  rw [locator.survey_eq]
  rfl

theorem valueLine?_eq (locator : Locator) :
    locator.survey.valueLine? = valueLine? locator.text locator.property? := by
  rw [locator.survey_eq]
  rfl

/-- A line is counted from the line of the value. -/
theorem countedLine?_eq_of_valueLine? {first newlines : Nat}
    (hvalue : valueLine? locator.text locator.property? = .ok (some first))
    (hnewlines : locator.newlinesBefore? needle target = some newlines) :
    locator.countedLine? needle target = .ok (some (first + newlines)) := by
  simp only [countedLine?, hnewlines, valueLine?_eq, hvalue]
  rfl

theorem propertyLine?_of_none (hnone : locator.property? = none) (needle : Needle) :
    locator.propertyLine? needle = .ok none := by
  rw [propertyLine?, propertyLines_eq, hnone]
  cases needle.fromEnd <;> simp [propertyLines, Needle.lineIn?, bind, Except.bind, pure, Except.pure]

theorem propertyLine?_of_property {span : Span} {before property after : List Char}
    (hspan : locator.property? = some span)
    (placed : PropertyIn locator.text span before property after) (needle : Needle) :
    locator.propertyLine? needle =
      .ok (needle.lineIn? (numberedFrom (before.count '\n' + 1) (Text.lines property))) := by
  rw [propertyLine?, propertyLines_eq, hspan, placed.propertyLines_eq]
  rfl

/-- What the line of the property says about the property, if that is a part of the text. -/
theorem propertyLine?_eq_none_iff (kept : locator.IsKept) :
    locator.propertyLine? needle = .ok none ↔
      ∀ span property, locator.property? = some span → sliceOf? locator.text span = some property →
        ∀ line ∈ Text.lines property, ¬ needle.HeldBy line := by
  rcases kept.cases with hnone | ⟨span, before, property, after, hspan, placed⟩
  · simp [propertyLine?_of_none hnone needle, hnone]
  · have hlines := map_snd_numberedFrom (before.count '\n' + 1) (Text.lines property)
    rw [propertyLine?_of_property hspan placed needle, Except.ok.injEq, Needle.lineIn?_eq_none_iff,
      hlines, hspan]
    constructor
    · rintro h _ _ ⟨⟩ hagain
      obtain rfl := Option.some.inj (placed.sliceOf?_eq.symm.trans hagain)
      exact h
    · exact fun h => h span property rfl placed.sliceOf?_eq

theorem exists_propertyLine?_ok (kept : locator.IsKept) (needle : Needle) :
    ∃ line?, locator.propertyLine? needle = .ok line? := by
  rcases kept.cases with hnone | ⟨span, before, property, after, hspan, placed⟩
  · exact ⟨_, propertyLine?_of_none hnone needle⟩
  · exact ⟨_, propertyLine?_of_property hspan placed needle⟩

theorem locate_of_singleLine (hsingle : locator.singleLine? (.ofTarget target) = some n) :
    locator.locate target = .ok (some (n + locator.lineOffset)) := by
  simp only [locate, lineInText?, hsingle]
  rfl

theorem locate_of_propertyLine (hsingle : locator.singleLine? (.ofTarget target) = none)
    (hproperty : locator.propertyLine? (.ofTarget target) = .ok (some n)) :
    locator.locate target = .ok (some (n + locator.lineOffset)) := by
  simp only [locate, lineInText?, hsingle, hproperty]
  rfl

theorem locate_of_countedLine {line? : Option Nat}
    (hsingle : locator.singleLine? (.ofTarget target) = none)
    (hproperty : locator.propertyLine? (.ofTarget target) = .ok none)
    (hcounted : locator.countedLine? (.ofTarget target) target = .ok line?) :
    locator.locate target = .ok (line?.map (· + locator.lineOffset)) := by
  simp only [locate, lineInText?, hsingle, hproperty, bind, Except.bind, hcounted, pure, Except.pure]

theorem locate_of_misplaced {misplaced : Misplaced}
    (hsingle : locator.singleLine? (.ofTarget target) = none)
    (hproperty : locator.propertyLine? (.ofTarget target) = .ok none)
    (hcounted : locator.countedLine? (.ofTarget target) target = .error misplaced) :
    locator.locate target = .error misplaced := by
  simp only [locate, lineInText?, hsingle, hproperty, bind, Except.bind, hcounted]

theorem singleLine?_eq_none_iff :
    locator.singleLine? needle = none ↔
      ∀ line ∈ Text.lines locator.text.toList, mentionsProperty line = true →
        ¬ needle.HeldBy line := by
  have hlines : locator.survey.singleLines.map Prod.snd =
      (Text.lines locator.text.toList).filter mentionsProperty := by
    rw [singleLines_eq, singleLines]
    conv_rhs => rw [← map_snd_numberedFrom 1 (Text.lines locator.text.toList)]
    rw [List.filter_map]
    rfl
  rw [singleLine?, Needle.lineIn?_eq_none_iff, hlines]
  simp only [List.mem_filter, and_imp]

/-! ### Where looking ends the run -/

/-- A locator stumbles over a target that has a place in the query, if no line holds the target and the quote
of the property's value is overlong. -/
structure StumblesOver (locator : Locator) (target : Target) : Prop where
  inQuery : (locator.newlinesBefore? (.ofTarget target) target).isSome = true
  noSingleLine : ∀ line ∈ Text.lines locator.text.toList, mentionsProperty line = true →
    ¬ (Needle.ofTarget target).HeldBy line
  overlong : ∃ span property, locator.property? = some span ∧
    sliceOf? locator.text span = some property ∧ OverlongQuote property ∧
    ∀ line ∈ Text.lines property, ¬ (Needle.ofTarget target).HeldBy line

/-- The line of the value is known to be there or not, unless the quote is overlong. -/
theorem exists_valueLine?_ok {span : Span} {before property after : List Char}
    (hspan : locator.property? = some span)
    (placed : PropertyIn locator.text span before property after) (plain : ¬ OverlongQuote property) :
    ∃ line?, locator.survey.valueLine? = .ok line? := by
  rw [valueLine?_eq, hspan]
  cases hoffset : valueOffset? property with
  | none => exact ⟨none, placed.valueLine?_of_none hoffset⟩
  | some offset =>
    obtain ⟨front, back, split, place⟩ := exists_of_valueOffset? hoffset plain
    exact ⟨_, placed.valueLine?_of_place hoffset split place⟩

/-- If the place of the value is known or not asked for, there is an answer. -/
theorem exists_countedLine?_ok
    (known : (locator.newlinesBefore? needle target).isSome = true →
      ∃ line?, locator.survey.valueLine? = .ok line?) :
    ∃ line?, locator.countedLine? needle target = .ok line? := by
  rw [countedLine?]
  split
  · exact ⟨none, rfl⟩
  next hnewlines =>
    obtain ⟨line?, hline⟩ := known (by rw [hnewlines]; rfl)
    rw [hline]
    exact ⟨_, rfl⟩

/-- A locator that does not stumble answers. -/
theorem exists_locate_ok (kept : locator.IsKept) (sure : ¬ locator.StumblesOver target) :
    ∃ line?, locator.locate target = .ok line? := by
  cases hsingle : locator.singleLine? (.ofTarget target) with
  | some n => exact ⟨_, locate_of_singleLine hsingle⟩
  | none =>
    obtain ⟨line?, hproperty⟩ := exists_propertyLine?_ok kept (.ofTarget target)
    cases line? with
    | some n => exact ⟨_, locate_of_propertyLine hsingle hproperty⟩
    | none =>
      have noLine := (propertyLine?_eq_none_iff kept).mp hproperty
      have hcounted : ∃ line?, locator.countedLine? (.ofTarget target) target = .ok line? := by
        apply exists_countedLine?_ok
        intro inQuery
        rcases kept.cases with hnone | ⟨span, before, property, after, hspan, placed⟩
        · exact ⟨none, by rw [valueLine?_eq, hnone]; rfl⟩
        · apply exists_valueLine?_ok hspan placed
          -- No line holds the target, so with an overlong quote the locator would stumble.
          intro overlong
          exact sure ⟨inQuery, singleLine?_eq_none_iff.mp hsingle, span, property, hspan,
            placed.sliceOf?_eq, overlong, noLine span property hspan placed.sliceOf?_eq⟩
      obtain ⟨line?, hcounted⟩ := hcounted
      exact ⟨_, locate_of_countedLine hsingle hproperty hcounted⟩

theorem exists_locate_error (stumbles : locator.StumblesOver target) :
    ∃ misplaced, locator.locate target = .error misplaced := by
  obtain ⟨inQuery, noSingleLine, span, property, hspan, hslice, overlong, noLine⟩ := stumbles
  obtain ⟨before, after, placed⟩ := exists_propertyIn hslice
  obtain ⟨newlines, hnewlines⟩ := Option.isSome_iff_exists.mp inQuery
  have hproperty : locator.propertyLine? (.ofTarget target) = .ok none := by
    rw [propertyLine?_of_property hspan placed, Needle.lineIn?_eq_none_iff.mpr]
    rwa [map_snd_numberedFrom]
  -- All three answers are asked for, and the third one ends the run.
  obtain ⟨misplaced, hvalue⟩ := placed.valueLine?_of_overlongQuote overlong
  refine ⟨misplaced, locate_of_misplaced (singleLine?_eq_none_iff.mpr noSingleLine) hproperty ?_⟩
  simp only [countedLine?, hnewlines, valueLine?_eq, hspan, hvalue]
  rfl

/-- Looking for a target ends the run exactly if the locator stumbles over it. -/
theorem locate_isOk_iff (kept : locator.IsKept) :
    (∃ line?, locator.locate target = .ok line?) ↔ ¬ locator.StumblesOver target := by
  constructor
  · rintro ⟨line?, hline⟩ stumbles
    obtain ⟨misplaced, hmisplaced⟩ := exists_locate_error stumbles
    rw [hmisplaced] at hline
    cases hline
  · exact exists_locate_ok kept

/-- After a sound survey a locator stumbles over nothing. -/
theorem not_stumblesOver_of_isSound (sound : locator.survey.isSound = true) :
    ¬ locator.StumblesOver target := by
  rintro ⟨-, -, span, property, hspan, hslice, overlong, -⟩
  obtain ⟨before, after, placed⟩ := exists_propertyIn hslice
  obtain ⟨misplaced, hvalue⟩ := placed.valueLine?_of_overlongQuote overlong
  rw [Survey.isSound, valueLine?_eq, hspan, hvalue, Bool.and_eq_true] at sound
  cases sound.2

/-- Looking up targets one after the other ends the run exactly if the locator stumbles over one of them. -/
theorem lookUp_eq_ok_iff (kept : locator.IsKept) (targets : List Target) :
    locator.lookUp targets = .ok () ↔ ∀ target ∈ targets, ¬ locator.StumblesOver target := by
  -- The shortcut for a sound survey is right: there is nothing to stumble over.
  cases sound : locator.survey.isSound with
  | true =>
    have hdone : locator.lookUp targets = .ok () := by
      rw [lookUp, sound]
      rfl
    exact iff_of_true hdone fun _ _ => not_stumblesOver_of_isSound sound
  | false =>
    have hall : locator.lookUp targets =
        targets.forM fun target => discard (locator.locate target) := by
      rw [lookUp, sound]
      rfl
    have hone (target : Target) : discard (locator.locate target) = .ok () ↔
        ∃ line?, locator.locate target = .ok line? := by
      cases locator.locate target <;>
        simp [discard, Functor.discard, Functor.mapConst, Except.map]
    simp only [hall, Text.forM_eq_ok_iff, hone, locate_isOk_iff kept]

/-! ### Lines in the text -/

/-- The third answer for a target is behind the last line of the text: no line holds the target, and the line
of the value together with the newlines of the query before the target comes to more lines than there are. -/
structure Overshoots (locator : Locator) (target : Target) : Prop where
  noSingleLine : ∀ line ∈ Text.lines locator.text.toList, mentionsProperty line = true →
    ¬ (Needle.ofTarget target).HeldBy line
  noPropertyLine : ∀ span property, locator.property? = some span →
    sliceOf? locator.text span = some property →
    ∀ line ∈ Text.lines property, ¬ (Needle.ofTarget target).HeldBy line
  beyond : ∃ line newlines, valueLine? locator.text locator.property? = .ok (some line) ∧
    locator.newlinesBefore? (.ofTarget target) target = some newlines ∧
    (Text.lines locator.text.toList).length < line + newlines

/-- How an answer comes about. -/
theorem locate_cases (h : locator.locate target = .ok (some n)) :
    (∃ line, locator.singleLine? (.ofTarget target) = some line ∧ n = line + locator.lineOffset) ∨
    (∃ line, locator.singleLine? (.ofTarget target) = none ∧
      locator.propertyLine? (.ofTarget target) = .ok (some line) ∧ n = line + locator.lineOffset) ∨
    (locator.singleLine? (.ofTarget target) = none ∧
      locator.propertyLine? (.ofTarget target) = .ok none ∧
      ∃ line newlines, valueLine? locator.text locator.property? = .ok (some line) ∧
        locator.newlinesBefore? (.ofTarget target) target = some newlines ∧
        n = line + newlines + locator.lineOffset) := by
  obtain ⟨line?, hline, h⟩ := Text.bind_eq_ok_iff.mp h
  obtain ⟨line, rfl, rfl⟩ := Option.map_eq_some_iff.mp (Except.ok.inj h)
  cases hsingle : locator.singleLine? (.ofTarget target) with
  | some found =>
    simp only [lineInText?, hsingle] at hline
    cases hline
    exact Or.inl ⟨line, rfl, rfl⟩
  | none =>
    simp only [lineInText?, hsingle] at hline
    obtain ⟨line?, hproperty, hline⟩ := Text.bind_eq_ok_iff.mp hline
    cases line? with
    | some found =>
      cases hline
      exact Or.inr (Or.inl ⟨line, rfl, hproperty, rfl⟩)
    | none =>
      -- Neither kind of line holds the target, so it is counted.
      refine Or.inr (Or.inr ⟨rfl, hproperty, ?_⟩)
      change locator.countedLine? (.ofTarget target) target = .ok (some line) at hline
      rw [countedLine?] at hline
      split at hline
      next => cases hline
      next newlines hnewlines =>
        obtain ⟨value?, hvalue, hline⟩ := Text.bind_eq_ok_iff.mp hline
        obtain ⟨value, rfl, rfl⟩ := Option.map_eq_some_iff.mp (Except.ok.inj hline)
        rw [valueLine?_eq] at hvalue
        exact ⟨value, newlines, hvalue, hnewlines, rfl⟩

theorem exists_of_singleLine? (h : locator.singleLine? needle = some n) :
    ∃ line, (n, line) ∈ numberedFrom 1 (Text.lines locator.text.toList) ∧
      mentionsProperty line = true := by
  obtain ⟨line, hline, -⟩ := Needle.exists_of_lineIn? h
  rw [singleLines_eq] at hline
  exact ⟨line, (List.mem_filter.mp hline).1, (List.mem_filter.mp hline).2⟩

/-- The lines of the property are lines of the text. -/
theorem exists_of_propertyLine? (kept : locator.IsKept)
    (h : locator.propertyLine? needle = .ok (some n)) :
    ∃ span before property after, locator.property? = some span ∧
      PropertyIn locator.text span before property after ∧ before.count '\n' + 1 ≤ n ∧
      n ≤ before.count '\n' + (Text.lines property).length := by
  rcases kept.cases with hnone | ⟨span, before, property, after, hspan, placed⟩
  · rw [propertyLine?_of_none hnone] at h
    cases h
  · rw [propertyLine?_of_property hspan placed, Except.ok.injEq] at h
    obtain ⟨line, hline, -⟩ := Needle.exists_of_lineIn? h
    obtain ⟨first, last, -⟩ := mem_numberedFrom hline
    exact ⟨span, before, property, after, hspan, placed, first, by omega⟩

theorem one_le_of_valueLine? {text : String} {property? : Option Span}
    (h : valueLine? text property? = .ok (some n)) : 1 ≤ n := by
  obtain ⟨start?, -, h⟩ := Text.bind_eq_ok_iff.mp h
  cases start? with
  | none => cases h
  | some start =>
    obtain ⟨line, hline, h⟩ := Text.bind_eq_ok_iff.mp h
    cases h
    exact Text.one_le_of_lineAt hline

/-- An answer is a line of the text, counted on from the lines before it, unless it overshoots. -/
theorem locate_bounds (kept : locator.IsKept) (h : locator.locate target = .ok (some n)) :
    locator.lineOffset < n ∧
      (n ≤ locator.lineOffset + (Text.lines locator.text.toList).length ↔
        ¬ locator.Overshoots target) := by
  rcases locate_cases h with
    ⟨line, hsingle, rfl⟩ | ⟨line, -, hproperty, rfl⟩ |
      ⟨hsingle, hproperty, line, newlines, hvalue, hnewlines, rfl⟩
  -- A line of the text.
  · obtain ⟨found, hfound, -⟩ := exists_of_singleLine? hsingle
    obtain ⟨first, last, -⟩ := mem_numberedFrom hfound
    refine ⟨by omega, iff_of_true (by omega) ?_⟩
    intro overshoots
    rw [singleLine?_eq_none_iff.mpr overshoots.noSingleLine] at hsingle
    cases hsingle
  -- A line of the property, whose lines come behind the newlines before it.
  · obtain ⟨span, before, property, after, hspan, placed, first, last⟩ :=
      exists_of_propertyLine? kept hproperty
    have inside := Text.count_add_length_lines_le before property after
    rw [← placed.split] at inside
    refine ⟨by omega, iff_of_true (by omega) ?_⟩
    intro overshoots
    rw [(propertyLine?_eq_none_iff kept).mpr overshoots.noPropertyLine] at hproperty
    cases hproperty
  -- A counted line: what it is counted from is all there is to compare with the text.
  · have first := one_le_of_valueLine? hvalue
    refine ⟨by omega, ?_⟩
    constructor
    · intro inside overshoots
      obtain ⟨line', newlines', hvalue', hnewlines', beyond⟩ := overshoots.beyond
      rw [hvalue, Except.ok.injEq, Option.some.injEq] at hvalue'
      rw [hnewlines, Option.some.injEq] at hnewlines'
      omega
    · intro keeps
      by_contra beyond
      apply keeps
      exact ⟨singleLine?_eq_none_iff.mp hsingle, (propertyLine?_eq_none_iff kept).mp hproperty,
        line, newlines, hvalue, hnewlines, by omega⟩

end Locator

end Exemplar
