import Exemplar.Proofs.Location.Target
import Exemplar.Proofs.Markup.Reference

/-!
# Ordinary spellings

Where the property with a query is spelled in one of the ordinary ways, every part of the query gets a line,
and it is a line of the property. A part that no line holds in one piece is counted from the start of the
value: that is where the query starts, the newlines of the query are newlines of the property, and so the
count cannot leave it.
-/

namespace Exemplar

open Location
open Markup (Span escape escapeChar escapeChar_ne_nil not_mem_escape of_mem_escapeChar)
open Query (CollisionPolicy)
open Text (byteSize isBlank)

/-- How a property with a query is ordinarily spelled: with the query as the text of a `value` element, plain
or in one verbatim section and with white space wherever it does no harm, or on one line with the query as
the value of an attribute, in the spelling of markup. -/
inductive Spelling (query : List Char) : List Char → Prop where
  | plain {w₁ w₂ w₃ w₄ : List Char} (blank : ∀ w ∈ [w₁, w₂, w₃, w₄], ∀ c ∈ w, isBlank c = true)
    (free : '<' ∉ query) :
    Spelling query ("<property name=\"xpath\">".toList ++ w₁ ++ "<value>".toList ++ w₂ ++ query ++ w₃ ++
      "</value>".toList ++ w₄ ++ "</property>".toList)
  | verbatim {w₁ w₂ w₃ w₄ w₅ w₆ : List Char}
    (blank : ∀ w ∈ [w₁, w₂, w₃, w₄, w₅, w₆], ∀ c ∈ w, isBlank c = true) :
    Spelling query ("<property name=\"xpath\">".toList ++ w₁ ++ "<value>".toList ++ w₂ ++
      "<![CDATA[".toList ++ w₃ ++ query ++ w₄ ++ "]]>".toList ++ w₅ ++ "</value>".toList ++ w₆ ++
      "</property>".toList)
  | oneLine (single : '\n' ∉ query) :
    Spelling query ("<property name=\"xpath\" value=\"".toList ++ escape query ++ "\"/>".toList)

/-! ### The spelling of markup -/

/-- A text that starts with no white space does not in the spelling of markup either. -/
theorem exists_escape_cons {c : Char} (h : isBlank c = false) (cs : List Char) :
    ∃ d rest, escape (c :: cs) = d :: rest ∧ isBlank d = false := by
  obtain ⟨d, rest, hd⟩ := List.exists_cons_of_ne_nil (escapeChar_ne_nil c)
  refine ⟨d, rest ++ escape cs, by rw [escape, List.flatMap_cons, hd]; rfl, ?_⟩
  rcases of_mem_escapeChar (hd ▸ List.mem_cons_self : d ∈ escapeChar c) with hletter | ⟨rfl, -⟩
  · have hall : "&;ampltgquos".toList.all (fun d => !isBlank d) = true := by decide
    simpa using List.all_eq_true.mp hall d hletter
  · exact h

/-! ### Where the query starts -/

section Blanks

variable {w rest : List Char} {c : Char} (blank : ∀ c ∈ w, isBlank c = true) (hc : isBlank c = false)
include blank hc

private theorem takeWhile_isBlank : (w ++ c :: rest).takeWhile isBlank = w :=
  Text.takeWhile_append_stop blank hc

private theorem dropWhile_isBlank : (w ++ c :: rest).dropWhile isBlank = c :: rest :=
  Text.dropWhile_append_stop blank hc

/-- Only white space is passed over in front of anything but a verbatim section. -/
theorem passedOver_blank (plain : c ≠ '<') : passedOver (w ++ c :: rest) = w := by
  have hverbatim : verbatimOpening.toList.isPrefixOf? (c :: rest) = none := by
    simp [verbatimOpening, List.isPrefixOf?, plain.symm]
  simp only [passedOver, takeWhile_isBlank blank hc, dropWhile_isBlank blank hc, hverbatim,
    List.append_nil]

end Blanks

/-- The opening of a verbatim section is passed over, with the white space on both sides. -/
theorem passedOver_verbatim {w w' : List Char} {c : Char} (blank : ∀ c ∈ w, isBlank c = true)
    (blank' : ∀ c ∈ w', isBlank c = true) (hc : isBlank c = false) (rest : List Char) :
    passedOver (w ++ verbatimOpening.toList ++ w' ++ c :: rest) = w ++ verbatimOpening.toList ++ w' := by
  have hopening : verbatimOpening.toList = '<' :: "![CDATA[".toList := rfl
  have hlt : isBlank '<' = false := by decide
  have hverbatim : verbatimOpening.toList.isPrefixOf?
      ('<' :: ("![CDATA[".toList ++ (w' ++ c :: rest))) = some (w' ++ c :: rest) :=
    List.isPrefixOf?_eq_some_iff_append_eq.mpr rfl
  have hsplit : w ++ verbatimOpening.toList ++ w' ++ c :: rest =
      w ++ '<' :: ("![CDATA[".toList ++ (w' ++ c :: rest)) := by
    simp only [hopening, List.append_assoc, List.cons_append]
  rw [hsplit, passedOver, takeWhile_isBlank blank hlt, dropWhile_isBlank blank hlt]
  simp only [hverbatim, takeWhile_isBlank blank' hc, List.append_assoc]

/-- The value of a property starts behind `front` and what is passed over there, and the newlines up to there
and those of the query are newlines of the property. -/
structure AnchoredAt (query property front back passed : List Char) : Prop where
  split : property = front ++ back
  offset : ∃ offset, valueOffset? property = some offset ∧
    min offset (byteSize property) = byteSize front
  passedOver : ∀ after, passedOver (back ++ after) = passed
  newlines : front.count '\n' + passed.count '\n' + query.count '\n' ≤ property.count '\n'

/-- There is no `<value>` in front of the one behind the start tag of a property. -/
theorem not_infix_opening {w : List Char} (blank : ∀ c ∈ w, isBlank c = true) :
    ¬ "<value>".toList <:+: "<property name=\"xpath\">".toList ++ w := by
  -- A tag begins with `<`, and only the start tag of the property comes before this one.
  have absent : '<' ∉ "property name=\"xpath\">".toList ++ w := by
    rw [List.mem_append, not_or]
    refine ⟨by decide, fun hw => ?_⟩
    have hlt := blank '<' hw
    revert hlt
    decide
  have hopening : "<property name=\"xpath\">".toList ++ w =
      '<' :: ("property name=\"xpath\">".toList ++ w) := rfl
  rw [hopening, List.infix_cons_iff]
  rintro (start | inside)
  · simp at start
  · exact absent (inside.subset (by simp))

/-- The `value` element of a property is found behind the start tag of the property. -/
theorem valueOffset?_element {w : List Char} (blank : ∀ c ∈ w, isBlank c = true) (back : List Char) :
    valueOffset? ("<property name=\"xpath\">".toList ++ w ++ "<value>".toList ++ back) =
      some (byteSize ("<property name=\"xpath\">".toList ++ w ++ "<value>".toList)) :=
  valueOffset?_of_not_infix (not_infix_opening blank) back

/-- The value of an attribute is found behind its name. -/
theorem valueOffset?_attribute {back : List Char} (absent : '<' ∉ back) :
    valueOffset? ("<property name=\"xpath\" value=\"".toList ++ back) =
      some (byteSize "<property name=\"xpath\" value=\"".toList) := by
  -- There is no element, as the only `<` is that of the property itself.
  have noElement : Text.find? "<value>".toList
      ("<property name=\"xpath\" value=\"".toList ++ back) = none := by
    rw [Option.eq_none_iff_forall_ne_some]
    intro n hn
    obtain ⟨front, rest, split, -⟩ := Text.exists_of_find? hn
    have hopening : "<property name=\"xpath\" value=\"".toList ++ back =
        '<' :: ("property name=\"xpath\" value=\"".toList ++ back) := rfl
    rw [hopening] at split
    cases front with
    | nil => simp at split
    | cons c front =>
      have hmem : '<' ∈ "property name=\"xpath\" value=\"".toList ++ back := by
        rw [(List.cons.inj split).2]
        simp
      rcases List.mem_append.mp hmem with hopening | hback
      · revert hopening
        decide
      · exact absent hback
  -- The name `value=` can begin nowhere in what stands before it, which has no `v` at all.
  have hv : 'v' ∉ "<property name=\"xpath\" ".toList := by decide
  have hfind := Text.find?_append (by decide : "value=".toList ≠ [])
    "<property name=\"xpath\" ".toList ('"' :: back) (Text.not_prefix_of_head_not_mem hv _)
  have hproperty : "<property name=\"xpath\" value=\"".toList ++ back =
      "<property name=\"xpath\" ".toList ++ "value=".toList ++ '"' :: back := rfl
  rw [valueOffset?, noElement, hproperty, hfind]
  rfl

private theorem exists_offset {front back : List Char}
    (h : valueOffset? (front ++ back) = some (byteSize front)) :
    ∃ offset, valueOffset? (front ++ back) = some offset ∧
      min offset (byteSize (front ++ back)) = byteSize front := by
  refine ⟨_, h, ?_⟩
  rw [Text.byteSize_append]
  omega

/-- In an element the value starts behind the start tag and what is passed over there. -/
theorem AnchoredAt.ofElement {query w back passed : List Char} (blank : ∀ c ∈ w, isBlank c = true)
    (passes : ∀ after, Location.passedOver (back ++ after) = passed)
    (newlines : passed.count '\n' + query.count '\n' ≤ back.count '\n') :
    AnchoredAt query ("<property name=\"xpath\">".toList ++ w ++ "<value>".toList ++ back)
      ("<property name=\"xpath\">".toList ++ w ++ "<value>".toList) back passed where
  split := rfl
  offset := exists_offset (valueOffset?_element blank back)
  passedOver := passes
  newlines := by
    simp only [List.count_append]
    omega

/-- In an attribute the value starts behind the quote, and nothing is passed over there. -/
theorem AnchoredAt.ofAttribute {c : Char} {rest : List Char} (hc : isBlank c = false)
    (single : '\n' ∉ c :: rest) :
    AnchoredAt (c :: rest)
      ("<property name=\"xpath\" value=\"".toList ++ (escape (c :: rest) ++ "\"/>".toList))
      "<property name=\"xpath\" value=\"".toList (escape (c :: rest) ++ "\"/>".toList) [] where
  split := rfl
  offset := by
    apply exists_offset
    apply valueOffset?_attribute
    rw [List.mem_append, not_or]
    exact ⟨not_mem_escape (by decide), by decide⟩
  passedOver after := by
    obtain ⟨d, written, hescape, hd⟩ := exists_escape_cons hc rest
    have hplain : d ≠ '<' := by
      rintro rfl
      exact not_mem_escape (by decide) (hescape ▸ List.mem_cons_self)
    rw [hescape]
    exact passedOver_blank (w := []) (by simp) hd hplain
  newlines := by
    rw [List.count_eq_zero.mpr single]
    simp only [List.count_append, List.count_nil]
    omega

/-- Whatever the spelling, the value starts where the query does. -/
theorem Spelling.exists_anchoredAt {query property : List Char} {c : Char} {rest : List Char}
    (spelling : Spelling query property) (hquery : query = c :: rest) (hc : isBlank c = false) :
    ∃ front back passed, AnchoredAt query property front back passed := by
  subst hquery
  -- In an element, white space and the opening of a verbatim text are passed over in front of the value.
  cases spelling with
  | @plain w₁ w₂ w₃ w₄ blank free =>
    have hplain : c ≠ '<' := by
      rintro rfl
      exact free List.mem_cons_self
    have passes (after : List Char) : Location.passedOver
        (w₂ ++ c :: rest ++ w₃ ++ "</value>".toList ++ w₄ ++ "</property>".toList ++ after) = w₂ := by
      simp only [List.append_assoc, List.cons_append]
      exact passedOver_blank (blank w₂ (by simp)) hc hplain
    have anchored := AnchoredAt.ofElement (blank w₁ (by simp)) passes
      (by simp only [List.count_append]; omega : _ + (c :: rest).count '\n' ≤ _)
    simp only [List.append_assoc] at anchored ⊢
    exact ⟨_, _, _, anchored⟩
  | @verbatim w₁ w₂ w₃ w₄ w₅ w₆ blank =>
    have passes (after : List Char) : Location.passedOver
        (w₂ ++ verbatimOpening.toList ++ w₃ ++ c :: rest ++ w₄ ++ "]]>".toList ++ w₅ ++
          "</value>".toList ++ w₆ ++ "</property>".toList ++ after) =
        w₂ ++ verbatimOpening.toList ++ w₃ := by
      have hpassed := passedOver_verbatim (blank w₂ (by simp)) (blank w₃ (by simp)) hc (rest ++ (w₄ ++
        ("]]>".toList ++ (w₅ ++ ("</value>".toList ++ (w₆ ++ ("</property>".toList ++ after)))))))
      simp only [List.append_assoc, List.cons_append] at hpassed ⊢
      exact hpassed
    have anchored := AnchoredAt.ofElement (blank w₁ (by simp)) passes
      (by simp only [List.count_append]; omega : _ + (c :: rest).count '\n' ≤ _)
    simp only [List.append_assoc] at anchored ⊢
    exact ⟨_, _, _, anchored⟩
  | oneLine single =>
    rw [List.append_assoc]
    exact ⟨_, _, _, AnchoredAt.ofAttribute hc single⟩

/-! ### Lines of the property -/

theorem exists_cons_of_trim {cs : List Char} (trimmed : Text.trim cs = cs) (nonempty : cs ≠ []) :
    ∃ c rest, cs = c :: rest ∧ isBlank c = false := by
  obtain ⟨c, rest, rfl⟩ := List.exists_cons_of_ne_nil nonempty
  refine ⟨c, rest, rfl, ?_⟩
  by_contra hblank
  have hstart := Text.trimStart_of_trim trimmed
  rw [Text.trimStart, List.dropWhile_cons_of_pos (by simpa using hblank)] at hstart
  -- Trimming took a character away, and yet the text is as long as before.
  have hlength := (List.dropWhile_suffix Text.isBlank (l := rest)).length_le
  rw [hstart, List.length_cons] at hlength
  omega

/-- In an ordinary spelling every part of the query has a line, and it is a line of the property, the first
to the last one that the property touches. No other line of the text may look like the property. -/
theorem locate_of_spelling {text query : String} {span : Span} {before property after : List Char}
    (placed : PropertyIn text span before property after) (spelling : Spelling query.toList property)
    (trimmed : Text.trim query.toList = query.toList) (nonempty : query.toList ≠ [])
    (alone : ∀ line ∈ numberedFrom 1 (Text.lines text.toList), mentionsProperty line.2 = true →
      before.count '\n' + 1 ≤ line.1 ∧ line.1 ≤ before.count '\n' + 1 + property.count '\n')
    (policy : CollisionPolicy) (lineOffset : Nat) {target : Target}
    (htarget : target ∈ (Query.analyze policy query).targets) :
    ∃ n, (Locator.withProperty text query (some span) lineOffset).locate target =
        .ok (some (n + lineOffset)) ∧
      before.count '\n' + 1 ≤ n ∧ n ≤ before.count '\n' + 1 + property.count '\n' := by
  generalize hlocator : Locator.withProperty text query (some span) lineOffset = locator
  have hspan : locator.property? = some span := by
    rw [← hlocator, Locator.property?_withProperty, Option.filter_some, placed.sliceOf?_eq]
    rfl
  obtain rfl : locator.text = text := by rw [← hlocator]; rfl
  obtain rfl : locator.query = query := by rw [← hlocator]; rfl
  obtain rfl : locator.lineOffset = lineOffset := by rw [← hlocator]; rfl
  cases hsingle : locator.singleLine? (.ofTarget target) with
  | some n =>
    -- A line that looks like the property is one of its lines, as there are no others.
    obtain ⟨line, hline, hmentions⟩ := Locator.exists_of_singleLine? hsingle
    exact ⟨n, Locator.locate_of_singleLine hsingle, alone (n, line) hline hmentions⟩
  | none =>
    have hproperty := Locator.propertyLine?_of_property hspan placed (.ofTarget target)
    cases hline : (Needle.ofTarget target).lineIn?
        (numberedFrom (before.count '\n' + 1) (Text.lines property)) with
    | some n =>
      rw [hline] at hproperty
      obtain ⟨line, hmem, -⟩ := Needle.exists_of_lineIn? hline
      obtain ⟨first, last, -⟩ := mem_numberedFrom hmem
      have hcount := Text.length_lines_le property
      exact ⟨n, Locator.locate_of_propertyLine hsingle hproperty, first, by omega⟩
    | none =>
      -- The line is counted. It starts from where the query does, and no more newlines can follow than the
      -- query has.
      rw [hline] at hproperty
      obtain ⟨c, rest, hquery, hc⟩ := exists_cons_of_trim trimmed nonempty
      obtain ⟨front, back, passed, anchored⟩ := spelling.exists_anchoredAt hquery hc
      obtain ⟨offset, hoffset, hplace⟩ := anchored.offset
      obtain ⟨newlines, hnewlines, hle⟩ := locator.exists_newlinesBefore? htarget
      have hvalue := placed.valueLine?_of_place hoffset anchored.split hplace
      rw [anchored.passedOver after] at hvalue
      have hcounted : locator.countedLine? (.ofTarget target) target =
          .ok (some ((before ++ front ++ passed).count '\n' + 1 + newlines)) := by
        simp only [Locator.countedLine?, hnewlines, Locator.valueLine?_eq, hspan, hvalue]
        rfl
      have hinside := anchored.newlines
      refine ⟨_, Locator.locate_of_countedLine hsingle hproperty hcounted, ?_, ?_⟩
      · simp only [List.count_append]
        omega
      · simp only [List.count_append]
        omega

/-- A rule whose query goes over two lines of a verbatim section. -/
def verbatimText : String :=
  "<rule>\n<property name=\"xpath\">\n<value><![CDATA[\n//A[@B\nand   @C]\n]]></value>\n" ++
    "</property>\n</rule>"

/-- Its clause has a line, although it is looked for with a single blank behind its keyword. -/
theorem locate_verbatimText :
    ∃ n, (Locator.withProperty verbatimText "//A[@B\nand   @C]" (some ⟨7, 88⟩) 0).locate
        (.conditional ⟨.and, "@C", 13⟩) = .ok (some (n + 0)) ∧ 2 ≤ n ∧ n ≤ 7 := by
  have blank : ∀ w ∈ ["\n".toList, [], "\n".toList, "\n".toList, [], "\n".toList],
      w.all isBlank = true := by
    decide
  have spelling := @Spelling.verbatim "//A[@B\nand   @C]".toList "\n".toList [] "\n".toList
    "\n".toList [] "\n".toList (fun w hw => List.all_eq_true.mp (blank w hw))
  generalize hproperty : "<property name=\"xpath\">".toList ++ "\n".toList ++ "<value>".toList ++ [] ++
    "<![CDATA[".toList ++ "\n".toList ++ "//A[@B\nand   @C]".toList ++ "\n".toList ++ "]]>".toList ++ [] ++
    "</value>".toList ++ "\n".toList ++ "</property>".toList = property at spelling
  have placed : PropertyIn verbatimText ⟨7, 88⟩ "<rule>\n".toList property "\n</rule>".toList := by
    subst hproperty
    exact ⟨by decide +kernel, by decide +kernel, by decide +kernel⟩
  have alone : ∀ line ∈ numberedFrom 1 (Text.lines verbatimText.toList),
      mentionsProperty line.2 = false := by
    decide +kernel
  have hbefore : "<rule>\n".toList.count '\n' = 1 := by decide +kernel
  have hinside : property.count '\n' = 5 := by
    subst hproperty
    decide +kernel
  have hclause : Target.conditional ⟨.and, "@C", 13⟩ ∈
      (Query.analyze .dropKnown "//A[@B\nand   @C]").targets := by
    decide +kernel
  obtain ⟨n, hlocate, first, last⟩ := locate_of_spelling placed spelling (by decide +kernel)
    (by decide +kernel) (fun line hline hmentions => by simp [alone line hline] at hmentions)
    .dropKnown 0 hclause
  exact ⟨n, hlocate, by omega, by omega⟩

end Exemplar
