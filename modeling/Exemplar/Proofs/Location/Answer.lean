import Exemplar.Proofs.Location.Locator
import Exemplar.Proofs.Text.Part

/-!
# What an answer says

A line that a locator answers with shows the target, or it is counted from the start of the value. It shows the
target if it is picked from the lines that look like a property on one line, or if none of these holds the
target, from the lines of the property. It is counted only if no line of either kind holds the target.
-/

namespace Exemplar

open Location
open Markup (Span)
open Text (byteSize)

/-- A target starts between two parts of a query. That is where a clause has its position; anything else is
written there, and is not found any earlier. -/
def Location.Target.StartsBetween (target : Target) (front back : List Char) : Prop :=
  match target with
  | .conditional clause => clause.position = byteSize front
  | target => (Needle.ofTarget target).find? (front ++ back) = some (byteSize front) ∧
      ∃ pattern ∈ (Needle.ofTarget target).patterns, pattern ≠ [] ∧ pattern <+: back

theorem Location.pairwise_propertyLines {text : String} {property? : Option Span}
    {lines : List (Nat × List Char)} (h : propertyLines text property? = .ok lines) :
    lines.Pairwise fun line other => line.1 < other.1 := by
  cases property? with
  | none =>
    obtain rfl := Except.ok.inj h
    exact List.Pairwise.nil
  | some span =>
    obtain ⟨first, -, hslice⟩ := Text.bind_eq_ok_iff.mp h
    obtain ⟨inside, -, hlines⟩ := Text.bind_eq_ok_iff.mp hslice
    obtain rfl := Except.ok.inj hlines
    exact pairwise_numberedFrom first (Text.lines inside)

theorem Location.pairwise_singleLines (text : String) :
    (singleLines text).Pairwise fun line other => line.1 < other.1 :=
  (pairwise_numberedFrom 1 (Text.lines text.toList)).filter _

namespace Locator

variable {locator : Locator} {target : Target} {n : Nat}

/-! ### The two sorts of answers -/

/-- A line of the text shows a target: one that looks like a property on one line, or else one of the
property. -/
inductive ReadsOff (locator : Locator) (target : Target) (n : Nat) : Prop where
  | single (picks : (Needle.ofTarget target).Picks (singleLines locator.text) n)
  | inProperty (lines : List (Nat × List Char))
      (noSingleLine : ∀ line ∈ Text.lines locator.text.toList, mentionsProperty line = true →
        ¬ (Needle.ofTarget target).HeldBy line)
      (hlines : propertyLines locator.text locator.property? = .ok lines)
      (picks : (Needle.ofTarget target).Picks lines n)

/-- No line shows a target, and its line is as many lines below the one on which the value starts as the query
has newlines before the target. -/
structure CountsTo (locator : Locator) (target : Target) (n : Nat) : Prop where
  noSingleLine : ∀ line ∈ Text.lines locator.text.toList, mentionsProperty line = true →
    ¬ (Needle.ofTarget target).HeldBy line
  noPropertyLine : ∀ span property, locator.property? = some span →
    sliceOf? locator.text span = some property →
    ∀ line ∈ Text.lines property, ¬ (Needle.ofTarget target).HeldBy line
  counted : ∃ front back first, locator.query.toList = front ++ back ∧ target.StartsBetween front back ∧
    valueLine? locator.text locator.property? = .ok (some first) ∧ n = first + front.count '\n'

theorem queryOffset?_eq_some_iff {front back : List Char} (split : locator.query.toList = front ++ back) :
    locator.queryOffset? (.ofTarget target) target = some (byteSize front) ↔
      target.StartsBetween front back := by
  have hneedle : (Needle.ofTarget target).find? locator.query.toList = some (byteSize front) ↔
      (Needle.ofTarget target).find? (front ++ back) = some (byteSize front) ∧
        ∃ pattern ∈ (Needle.ofTarget target).patterns, pattern ≠ [] ∧ pattern <+: back := by
    rw [split, iff_self_and]
    intro hfound
    obtain ⟨pattern, hpattern, nonempty, front', back', split', place⟩ := Needle.exists_of_find? hfound
    refine ⟨pattern, hpattern, nonempty, ?_⟩
    -- What is in front of the pattern has as many bytes as `front`, so it is `front`.
    rw [List.append_assoc] at split'
    have hcut := Text.cut?_byteSize front back
    rw [split', ← place, Text.cut?_byteSize, Option.some.injEq, Prod.mk.injEq] at hcut
    rw [← hcut.2]
    exact List.prefix_append pattern back'
  cases target with
  | attr name => exact hneedle
  | nodeType name => exact hneedle
  | operator value => exact hneedle
  | conditional clause => exact Option.some_inj

theorem newlinesBefore?_eq_some_iff {newlines : Nat} :
    locator.newlinesBefore? (.ofTarget target) target = some newlines ↔
      ∃ front back, locator.query.toList = front ++ back ∧ target.StartsBetween front back ∧
        newlines = front.count '\n' := by
  constructor
  · intro h
    obtain ⟨offset, hoffset, hnewlines⟩ := Option.bind_eq_some_iff.mp h
    rw [Text.newlinesBefore?_eq] at hnewlines
    obtain ⟨⟨front, back⟩, hcut, rfl⟩ := Option.map_eq_some_iff.mp hnewlines
    obtain ⟨split, place⟩ := Text.cut?_eq_some_iff.mp hcut
    exact ⟨front, back, split, (queryOffset?_eq_some_iff split).mp (by rw [hoffset, place]), rfl⟩
  · rintro ⟨front, back, split, starts, rfl⟩
    rw [newlinesBefore?, (queryOffset?_eq_some_iff split).mpr starts, Option.bind_eq_bind,
      Option.bind_some, Text.newlinesBefore?_eq, split, Text.cut?_byteSize]
    rfl

theorem CountsTo.eq_add (counts : locator.CountsTo target n) {first newlines : Nat}
    (hvalue : valueLine? locator.text locator.property? = .ok (some first))
    (hnewlines : locator.newlinesBefore? (.ofTarget target) target = some newlines) :
    n = first + newlines := by
  obtain ⟨front, back, first', split, starts, hvalue', rfl⟩ := counts.counted
  have hfirst := hvalue.symm.trans hvalue'
  have hfront := (newlinesBefore?_eq_some_iff.mpr ⟨front, back, split, starts, rfl⟩).symm.trans hnewlines
  rw [Except.ok.injEq, Option.some.injEq] at hfirst
  rw [hfirst, Option.some.inj hfront]

/-- An answer is read off a line, or it is counted. -/
theorem exists_of_locate (kept : locator.IsKept) (h : locator.locate target = .ok (some n)) :
    ∃ line, n = line + locator.lineOffset ∧
      (locator.ReadsOff target line ∨ locator.CountsTo target line) := by
  rcases locate_cases h with
    ⟨line, hsingle, rfl⟩ | ⟨line, hsingle, hproperty, rfl⟩ |
      ⟨hsingle, hproperty, first, newlines, hvalue, hnewlines, rfl⟩
  -- The lines that look like a property come first.
  · refine ⟨line, rfl, Or.inl (.single ?_)⟩
    rw [singleLine?, singleLines_eq] at hsingle
    exact Needle.picks_of_lineIn? (pairwise_singleLines locator.text) hsingle
  · obtain ⟨lines, hlines, hline⟩ := Text.bind_eq_ok_iff.mp hproperty
    rw [propertyLines_eq] at hlines
    refine ⟨line, rfl, Or.inl (.inProperty lines (singleLine?_eq_none_iff.mp hsingle) hlines ?_)⟩
    exact Needle.picks_of_lineIn? (pairwise_propertyLines hlines) (Except.ok.inj hline)
  -- No line holds the target.
  · refine ⟨_, rfl, Or.inr ⟨?_, ?_, ?_⟩⟩
    · exact singleLine?_eq_none_iff.mp hsingle
    · exact (propertyLine?_eq_none_iff kept).mp hproperty
    · obtain ⟨front, back, split, starts, rfl⟩ := newlinesBefore?_eq_some_iff.mp hnewlines
      exact ⟨front, back, first, split, starts, hvalue, rfl⟩

/-- A target that has a place in the query gets a line if the value has one. -/
theorem exists_locate_some (kept : locator.IsKept) {first newlines : Nat}
    (hvalue : valueLine? locator.text locator.property? = .ok (some first))
    (hnewlines : locator.newlinesBefore? (.ofTarget target) target = some newlines) :
    ∃ n, locator.locate target = .ok (some n) := by
  cases hsingle : locator.singleLine? (.ofTarget target) with
  | some n => exact ⟨_, locate_of_singleLine hsingle⟩
  | none =>
    obtain ⟨line?, hproperty⟩ := exists_propertyLine?_ok kept (.ofTarget target)
    cases line? with
    | some n => exact ⟨_, locate_of_propertyLine hsingle hproperty⟩
    | none =>
      exact ⟨_, locate_of_countedLine hsingle hproperty (countedLine?_eq_of_valueLine? hvalue hnewlines)⟩

/-! ### Lines that are read off -/

/-- The property of a locator, if it has one, is a part of its text that ends with a tag. -/
def IsTagged (locator : Locator) : Prop :=
  ∀ span, locator.property? = some span → ∃ before property after,
    PropertyIn locator.text span before property after ∧ property.getLast? = some '>'

/-- A line that shows a target is a line of the text on which the target is written. It looks like a property on
one line, or it is one of those that the property touches. -/
theorem ReadsOff.exists_line (tagged : locator.IsTagged) (reads : locator.ReadsOff target n) :
    ∃ line, (n, line) ∈ numberedFrom 1 (Text.lines locator.text.toList) ∧
      (Needle.ofTarget target).WrittenIn line ∧
      (mentionsProperty line = true ∨ ∃ span before property after, locator.property? = some span ∧
        PropertyIn locator.text span before property after ∧ before.count '\n' + 1 ≤ n ∧
        n ≤ before.count '\n' + 1 + property.count '\n') := by
  cases reads with
  | single picks =>
    obtain ⟨line, hline, held⟩ := picks.held
    obtain ⟨hmem, hmentions⟩ := List.mem_filter.mp hline
    exact ⟨line, hmem, held.writtenIn, Or.inl hmentions⟩
  | inProperty lines _ hlines picks =>
    obtain ⟨line, hline, held⟩ := picks.held
    cases hspan : locator.property? with
    | none =>
      -- Without a property there are no lines of it.
      rw [hspan] at hlines
      obtain rfl := Except.ok.inj hlines
      cases hline
    | some span =>
      obtain ⟨before, property, after, placed, ends⟩ := tagged span hspan
      have hnumbered := placed.propertyLines_eq
      rw [← hspan] at hnumbered
      obtain rfl := Except.ok.inj (hnumbered.symm.trans hlines)
      obtain ⟨i, rfl, hi⟩ := mem_numberedFrom_iff.mp hline
      have inside := (List.getElem?_eq_some_iff.mp hi).1
      have hcount := Text.length_lines_le property
      obtain ⟨whole, hwhole, part⟩ := Text.exists_line_of_part before after hi (by rw [ends]; decide)
      rw [← placed.split] at hwhole
      refine ⟨whole, mem_numberedFrom_iff.mpr ⟨_, ?_, hwhole⟩, held.writtenIn.of_infix part,
        Or.inr ⟨span, before, property, after, rfl, placed, by omega, by omega⟩⟩
      omega

end Locator

end Exemplar
