import Exemplar.Location.Locator
import Exemplar.Proofs.Text.Place
import Exemplar.Proofs.Text.Search

/-!
# Where the value of a property starts

The start of the value is computed from the first `<value>` or `value=` of the property. Behind `<value>`
there is a place between two characters. One byte behind `value=` there is one too, unless the character
there has more bytes; so that is the only property in which the start of the value is no place.
-/

namespace Exemplar.Location

open Markup (Span)
open Text (byteSize)

/-- A property in a text, with what stands before and behind it. -/
structure PropertyIn (text : String) (span : Span) (before property after : List Char) : Prop where
  split : text.toList = before ++ property ++ after
  start : span.start = byteSize before
  stop : span.stop = byteSize before + byteSize property

theorem exists_propertyIn {text : String} {span : Span} {property : List Char}
    (h : sliceOf? text span = some property) :
    ∃ before after, PropertyIn text span before property after := by
  obtain ⟨before, after, split, start, stop⟩ := Text.slice?_eq_some_iff.mp h
  exact ⟨before, after, split, start.symm, stop.symm⟩

/-- The character behind the `value=` of a property is too long for a quote. That `value=` is the first one,
and there is no element for the value. -/
structure OverlongQuote (property : List Char) : Prop where
  noElement : Text.find? "<value>".toList property = none
  overlong : ∃ front c back, property = front ++ "value=".toList ++ c :: back ∧
    Text.find? "value=".toList property = some (byteSize front) ∧ 1 < c.utf8Size

/-- Unless the quote is overlong, the offset of the value is a place in the property. -/
theorem exists_of_valueOffset? {property : List Char} {offset : Nat}
    (h : valueOffset? property = some offset) (plain : ¬ OverlongQuote property) :
    ∃ front back, property = front ++ back ∧ min offset (byteSize property) = byteSize front := by
  rw [valueOffset?] at h
  cases helement : Text.find? "<value>".toList property with
  | some i =>
    rw [helement] at h
    obtain rfl := Option.some.inj h
    obtain ⟨front, back, rfl, rfl⟩ := Text.exists_of_find? helement
    refine ⟨front ++ "<value>".toList, back, rfl, ?_⟩
    have hsize : byteSize "<value>".toList = "<value>".length := rfl
    simp only [Text.byteSize_append, hsize]
    omega
  | none =>
    rw [helement] at h
    obtain ⟨i, hattribute, rfl⟩ := Option.map_eq_some_iff.mp h
    obtain ⟨front, back, hsplit, rfl⟩ := Text.exists_of_find? hattribute
    have hsize : byteSize "value=".toList = "value=".length := rfl
    cases back with
    | nil =>
      -- The property ends with `value=`, and the offset is cut off there.
      refine ⟨property, [], (List.append_nil _).symm, ?_⟩
      rw [hsplit]
      simp only [Text.byteSize_append, hsize, Text.byteSize_nil]
      omega
    | cons c back =>
      -- One byte further is behind `c` only if `c` has one byte.
      have hshort : c.utf8Size = 1 := by
        have hpos := c.utf8Size_pos
        by_contra hlong
        exact plain ⟨helement, front, c, back, hsplit, hattribute, by omega⟩
      refine ⟨front ++ "value=".toList ++ [c], back, by simp [hsplit], ?_⟩
      rw [hsplit]
      simp only [Text.byteSize_append, Text.byteSize_cons, Text.byteSize_nil, hsize, hshort]
      omega

/-- The value is looked for behind the first `<value>`. -/
theorem valueOffset?_of_not_infix {opening : List Char}
    (first : ¬ "<value>".toList <:+: opening) (rest : List Char) :
    valueOffset? (opening ++ "<value>".toList ++ rest) = some (byteSize (opening ++ "<value>".toList)) := by
  have hvalue : "<value>".toList = '<' :: "value>".toList := rfl
  have hfind := Text.find?_append_of_not_infix (by decide) (hvalue ▸ first) rest
  rw [← hvalue] at hfind
  rw [valueOffset?, hfind, Text.byteSize_append]
  rfl

/-- What is passed over from the offset of the value on: white space, and the opening of a verbatim section
with white space behind it. -/
def passedOver (cs : List Char) : List Char :=
  let rest := cs.dropWhile Text.isBlank
  cs.takeWhile Text.isBlank ++
    match verbatimOpening.toList.isPrefixOf? rest with
    | some inside => verbatimOpening.toList ++ inside.takeWhile Text.isBlank
    | none => []

theorem passedOver_prefix (cs : List Char) : passedOver cs <+: cs := by
  have hsplit : cs.takeWhile Text.isBlank ++ cs.dropWhile Text.isBlank = cs :=
    List.takeWhile_append_dropWhile
  rw [passedOver]
  conv_rhs => rw [← hsplit]
  apply (List.prefix_append_right_inj _).mpr
  split
  next inside hinside =>
    rw [← List.append_eq_of_isPrefixOf?_eq_some hinside]
    exact (List.prefix_append_right_inj _).mpr (List.takeWhile_prefix _)
  next => exact List.nil_prefix

variable {text : String} {span : Span} {before property after : List Char}

namespace PropertyIn

variable (placed : PropertyIn text span before property after)
include placed

theorem slice_eq : Text.slice text.toList span.start span.stop = .ok property := by
  rw [placed.split, placed.start, placed.stop]
  exact Text.slice_append before property after

theorem sliceOf?_eq : sliceOf? text span = some property :=
  Text.slice?_eq_some_iff.mpr
    ⟨before, after, placed.split, placed.start.symm, placed.stop.symm⟩

/-- A span is a property of only one place. -/
theorem unique {before' property' after' : List Char}
    (placed' : PropertyIn text span before' property' after') : before' = before ∧ property' = property := by
  have hbefore := Text.cut?_byteSize before (property ++ after)
  rw [← List.append_assoc, ← placed.split, ← placed.start, placed'.split, placed'.start, List.append_assoc,
    Text.cut?_byteSize] at hbefore
  have hproperty := placed.sliceOf?_eq.symm.trans placed'.sliceOf?_eq
  exact ⟨(Prod.mk.inj (Option.some.inj hbefore)).1, (Option.some.inj hproperty).symm⟩

theorem propertyLines_eq :
    propertyLines text (some span) =
      .ok (numberedFrom (before.count '\n' + 1) (Text.lines property)) := by
  have hline : Text.lineAt text.toList span.start = .ok (before.count '\n' + 1) := by
    rw [placed.split, placed.start, List.append_assoc]
    exact Text.lineAt_append before (property ++ after)
  simp only [propertyLines, placed.slice_eq, hline]
  rfl

/-- Without an offset there is no line for the value. -/
theorem valueLine?_of_none (hnone : valueOffset? property = none) :
    valueLine? text (some span) = .ok none := by
  simp only [valueLine?, valueStart?, placed.slice_eq, bind, Except.bind, hnone, pure, Except.pure]

/-- The value starts behind what is passed over. -/
theorem valueStart?_of_place {front back : List Char} {offset : Nat}
    (hoffset : valueOffset? property = some offset) (split : property = front ++ back)
    (place : min offset (byteSize property) = byteSize front) :
    valueStart? text (some span) =
      .ok (some (byteSize (before ++ front ++ passedOver (back ++ after)))) := by
  have hstart : span.start + min offset (byteSize property) = byteSize (before ++ front) := by
    rw [placed.start, place, Text.byteSize_append]
  have htext : text.toList = (before ++ front) ++ (back ++ after) := by
    rw [placed.split, split]
    simp only [List.append_assoc]
  -- White space is passed over first. What follows it decides whether more is.
  have hblank : (back ++ after).takeWhile Text.isBlank ++ (back ++ after).dropWhile Text.isBlank =
      back ++ after := List.takeWhile_append_dropWhile
  generalize hskip : (back ++ after).takeWhile Text.isBlank = skipped at hblank
  generalize hrest : (back ++ after).dropWhile Text.isBlank = rest at hblank
  have hopened : text.toList = (before ++ front ++ skipped) ++ rest := by
    rw [htext, ← hblank, ← List.append_assoc]
  have hskipped : Text.skipBlank text.toList (byteSize (before ++ front)) =
      .ok (byteSize (before ++ front ++ skipped)) := by
    rw [htext, Text.skipBlank_append, hskip]
  have hdrop : Text.drop text.toList (byteSize (before ++ front ++ skipped)) = .ok rest := by
    rw [hopened]
    exact Text.drop_append _ _
  simp only [valueStart?, placed.slice_eq, bind, Except.bind, hoffset, hstart, hskipped, hdrop,
    ← List.isSome_isPrefixOf?_eq_isPrefixOf, passedOver, hskip, hrest]
  cases hverbatim : verbatimOpening.toList.isPrefixOf? rest with
  | none => simp [pure, Except.pure]
  | some inside =>
    have hinside : text.toList =
        (before ++ front ++ skipped ++ verbatimOpening.toList) ++ inside := by
      rw [hopened, List.append_assoc _ _ inside, List.append_eq_of_isPrefixOf?_eq_some hverbatim]
    have hsize : byteSize (before ++ front ++ skipped) + verbatimOpening.length =
        byteSize (before ++ front ++ skipped ++ verbatimOpening.toList) := by
      rw [Text.byteSize_append _ verbatimOpening.toList]
      rfl
    rw [if_pos Option.isSome_some, hsize, hinside, Text.skipBlank_append]
    simp only [List.append_assoc]
    rfl

/-- The line of the value is the one on which the property goes on behind what is passed over. -/
theorem valueLine?_of_place {front back : List Char} {offset : Nat}
    (hoffset : valueOffset? property = some offset) (split : property = front ++ back)
    (place : min offset (byteSize property) = byteSize front) :
    valueLine? text (some span) =
      .ok (some ((before ++ front ++ passedOver (back ++ after)).count '\n' + 1)) := by
  obtain ⟨rest, hrest⟩ := passedOver_prefix (back ++ after)
  have htext : text.toList = (before ++ front ++ passedOver (back ++ after)) ++ rest := by
    rw [placed.split, split, List.append_assoc _ _ rest, hrest]
    simp only [List.append_assoc]
  have hline := Text.lineAt_append (before ++ front ++ passedOver (back ++ after)) rest
  rw [← htext] at hline
  simp only [valueLine?, placed.valueStart?_of_place hoffset split place, bind, Except.bind, hline, pure,
    Except.pure]

/-- Behind an overlong quote there is no line to be had. -/
theorem valueLine?_of_overlongQuote (overlong : OverlongQuote property) :
    ∃ misplaced, valueLine? text (some span) = .error misplaced := by
  obtain ⟨noElement, front, c, back, split, found, long⟩ := overlong
  have hsize : byteSize "value=".toList = "value=".length := rfl
  have hoffset : valueOffset? property = some (byteSize front + "value=".length + 1) := by
    rw [valueOffset?, noElement, found]
    rfl
  -- The byte behind `value=` lies inside of `c`, and `c` is still in the property.
  have hstart : span.start + min (byteSize front + "value=".length + 1) (byteSize property) =
      byteSize (before ++ (front ++ "value=".toList)) + 1 := by
    rw [placed.start, split]
    simp only [Text.byteSize_append, Text.byteSize_cons, hsize]
    omega
  have htext : text.toList = (before ++ (front ++ "value=".toList)) ++ c :: (back ++ after) := by
    rw [placed.split, split]
    simp only [List.append_assoc, List.cons_append]
  have hdrop := Text.drop_inside (before ++ (front ++ "value=".toList)) (back ++ after) c Nat.one_pos long
  rw [← htext, ← hstart] at hdrop
  simp only [valueLine?, valueStart?, placed.slice_eq, bind, Except.bind, hoffset, Text.skipBlank, hdrop]
  exact ⟨_, rfl⟩

end PropertyIn

end Exemplar.Location
