import Exemplar.Proofs.Location.Answer
import Exemplar.Proofs.Location.Target

/-!
# Lines of names

Attributes and node types are extracted from a query with an eye to its quotes and steps, and are looked for in
the text of the rule as plain words. Where a property holds its query as it is, every place at which a name was
extracted is one at which the word is found, so no name is ever counted to a line. The first line with the
word counts: a word in quotes that comes first takes the place of the reference.
-/

namespace Exemplar

open Location
open Markup (Span)
open Query (CollisionPolicy)
open Text (byteSize)

/-- The offsets at which a name of a query was extracted: those of the references to an attribute, or those of
the steps with the name of a node type. -/
inductive Query.SeenAt (query : String) : Target → Nat → Prop
  | attr {name : String} {offset : Nat} (href : (name, offset) ∈ attributeRefs query) :
      SeenAt query (.attr name) offset
  | nodeType {name : String} {offset : Nat} (hstep : ⟨name, offset⟩ ∈ steps query) :
      SeenAt query (.nodeType name) offset

/-- The names of a query. -/
def Query.names (policy : CollisionPolicy) (query : String) : List Target :=
  (nodeTypes policy query).map .nodeType ++ (attributes query).map .attr

namespace Query

variable {query : String} {target : Target} {offset : Nat}

theorem exists_seenAt_of_mem_names {policy : CollisionPolicy} (h : target ∈ names policy query) :
    ∃ offset, SeenAt query target offset := by
  rcases List.mem_append.mp h with h | h
  · obtain ⟨name, hname, rfl⟩ := List.mem_map.mp h
    obtain ⟨offset, hstep⟩ := exists_step_of_mem_nodeTypes hname
    exact ⟨offset, .nodeType hstep⟩
  · obtain ⟨name, hname, rfl⟩ := List.mem_map.mp h
    obtain ⟨offset, href⟩ := exists_ref_of_mem_attributes hname
    exact ⟨offset, .attr href⟩

/-- No identifier goes on in a beginning of what follows its end. -/
private theorem ends_before {rest after back : List Char} (hrest : rest.head?.any Text.isIdentChar = false)
    (hafter : after.head?.any Text.isIdentChar = false) (h : back <+: rest ++ after) :
    back.head?.any Text.isIdentChar = false := by
  obtain ⟨more, hmore⟩ := h
  cases back with
  | nil => rfl
  | cons c back =>
    cases rest with
    | nil =>
      rw [List.nil_append] at hmore
      rwa [← hmore] at hafter
    | cons d rest =>
      obtain ⟨rfl, -⟩ := List.cons.inj hmore
      exact hrest

/-- The first line counts for a name. -/
theorem SeenAt.fromEnd (seen : SeenAt query target offset) : (Needle.ofTarget target).fromEnd = false := by
  cases seen <;> rfl

/-- The text of a name stands in the query at each of its offsets, and any stretch of text around it holds
the name. What follows the query must not go on with an identifier. -/
theorem SeenAt.exists_word (seen : SeenAt query target offset) :
    ∃ lead word rest, query.toList = lead ++ word ++ rest ∧ offset = byteSize lead ∧ word ≠ [] ∧
      (∀ c ∈ word, c = '@' ∨ Text.isIdentChar c = true) ∧
      ∀ before after front back, after.head?.any Text.isIdentChar = false → front <:+ before ++ lead →
        back <+: rest ++ after → (Needle.ofTarget target).HeldBy (front ++ word ++ back) := by
  cases seen with
  | @attr name offset href =>
    obtain ⟨lead, rest, found, hoffset⟩ := exists_of_mem_attributeRefs href
    have hquery : query.toList = lead ++ ('@' :: name.toList) ++ rest := by simp [found.split]
    refine ⟨lead, '@' :: name.toList, rest, hquery, hoffset, by simp, ?_, ?_⟩
    · intro c hc
      exact (List.mem_cons.mp hc).imp_right (found.chars c)
    · intro before after front back hafter hfront hback
      exact .inl (Needle.isSome_find?_attr_of found.chars front (ends_before found.ends hafter hback))
  | @nodeType name offset hstep =>
    obtain ⟨lead, rest, found, hoffset, c, hlast, hident, hat⟩ := exists_of_mem_steps hstep
    refine ⟨lead, name.toList, rest, found.split, hoffset, found.nonempty, ?_, ?_⟩
    · exact fun c hc => .inr (found.chars c hc)
    · intro before after front back hafter hfront hback
      -- What the stretch has in front of the name ends as the query does there.
      have starts : ∀ d, front.getLast? = some d → Text.isIdentChar d = false ∧ d ≠ '@' := by
        intro d hd
        obtain ⟨more, hmore⟩ := hfront
        have hend := congrArg List.getLast? hmore
        rw [List.getLast?_append, List.getLast?_append, hd, hlast, Option.some_or, Option.some_or] at hend
        obtain rfl := Option.some.inj hend
        exact ⟨hident, hat⟩
      exact .inl (Needle.isSome_find?_nodeType_of found.nonempty found.chars starts
        (ends_before found.ends hafter hback))

end Query

/-- A line of a text on which a name was extracted, where the query starts at byte `start` of the text. -/
def Location.SeenOn (text query : String) (start : Nat) (target : Target) (line : Nat) : Prop :=
  ∃ offset, Query.SeenAt query target offset ∧ Text.lineAt? text.toList (start + offset) = some line

section

variable {text query : String} {span : Span} {before front back after : List Char} {target : Target}
  (placed : PropertyIn text span before (front ++ query.toList ++ back) after)
  (closed : back.head?.any Text.isIdentChar = false)

include placed closed

/-- Each place at which a name was extracted lies on a line of the property that holds the name. -/
theorem Query.SeenAt.exists_line {offset : Nat} (seen : SeenAt query target offset) :
    ∃ n line, Text.lineAt? text.toList (byteSize (before ++ front) + offset) = some n ∧
      (n, line) ∈ numberedFrom (before.count '\n' + 1) (Text.lines (front ++ query.toList ++ back)) ∧
      (Needle.ofTarget target).HeldBy line := by
  obtain ⟨lead, word, rest, hquery, hoffset, nonempty, hchars, held⟩ := seen.exists_word
  have hproperty : front ++ query.toList ++ back = (front ++ lead) ++ word ++ (rest ++ back) := by
    rw [hquery]
    simp only [List.append_assoc]
  -- No character of a name ends a line.
  have hbreak : '\n' ∉ word ∧ '\r' ∉ word := by
    constructor
    · intro hmem
      rcases hchars _ hmem with h | h <;> revert h <;> decide
    · intro hmem
      rcases hchars _ hmem with h | h <;> revert h <;> decide
  have hends : word.getLast? ≠ some '\r' := fun h => hbreak.2 (List.mem_of_getLast? h)
  obtain ⟨left, right, hline, hleft, hright⟩ :=
    Text.exists_line_around (front ++ lead) (rest ++ back) hbreak.1 nonempty hends
  refine ⟨before.count '\n' + 1 + (front ++ lead).count '\n', left ++ word ++ right, ?_, ?_, ?_⟩
  · have htext : text.toList = (before ++ front ++ lead) ++ (word ++ rest ++ back ++ after) := by
      rw [placed.split, hquery]
      simp only [List.append_assoc]
    rw [htext, hoffset, ← Text.byteSize_append, Text.lineAt?_append]
    simp only [List.count_append]
    congr 1
    omega
  · rw [hproperty]
    exact mem_numberedFrom_iff.mpr ⟨_, rfl, hline⟩
  · exact held front back left right closed hleft hright

end

/-- A target that a line of the property holds gets a line that shows it. -/
theorem Locator.exists_readsOff {locator : Locator} {span : Span} {before property after : List Char}
    {target : Target} (hspan : locator.property? = some span)
    (placed : PropertyIn locator.text span before property after)
    (held : ∃ line ∈ Text.lines property, (Needle.ofTarget target).HeldBy line) :
    ∃ n, locator.locate target = .ok (some (n + locator.lineOffset)) ∧ locator.ReadsOff target n := by
  -- Lines that look like a property come first, and then those of the property itself.
  cases hsingle : locator.singleLine? (.ofTarget target) with
  | some n =>
    refine ⟨n, locate_of_singleLine hsingle, .single ?_⟩
    rw [singleLine?, singleLines_eq] at hsingle
    exact Needle.picks_of_lineIn? (pairwise_singleLines locator.text) hsingle
  | none =>
    have hlines := placed.propertyLines_eq
    have hproperty := propertyLine?_of_property hspan placed (.ofTarget target)
    cases hline : (Needle.ofTarget target).lineIn? (numberedFrom (before.count '\n' + 1) (Text.lines property)) with
    | none =>
      rw [Needle.lineIn?_eq_none_iff, map_snd_numberedFrom] at hline
      obtain ⟨line, hmem, hheld⟩ := held
      exact absurd hheld (hline line hmem)
    | some n =>
      rw [hline] at hproperty
      rw [← hspan] at hlines
      refine ⟨n, locate_of_propertyLine hsingle hproperty, ?_⟩
      exact .inProperty _ (singleLine?_eq_none_iff.mp hsingle) hlines
        (Needle.picks_of_lineIn? (pairwise_numberedFrom _ _) hline)

/-- A name gets the first line that holds it, of those that look like a property on one line or else of those of
the property. That is a line that the property touches. It looks like a property, or does not come behind any
line on which the name was extracted; and it is one of these unless another line that is shown holds the name. -/
theorem locate_of_mem_names {text query : String} {span : Span} {before front back after : List Char}
    (placed : PropertyIn text span before (front ++ query.toList ++ back) after)
    (closed : back.head?.any Text.isIdentChar = false)
    (alone : ∀ line ∈ numberedFrom 1 (Text.lines text.toList), mentionsProperty line.2 = true →
      before.count '\n' + 1 ≤ line.1 ∧
        line.1 ≤ before.count '\n' + 1 + (front ++ query.toList ++ back).count '\n')
    (lineOffset : Nat) {policy : CollisionPolicy} {target : Target}
    (htarget : target ∈ Query.names policy query) :
    let own := SeenOn text query (byteSize (before ++ front)) target
    let shown := singleLines text ++
      numberedFrom (before.count '\n' + 1) (Text.lines (front ++ query.toList ++ back))
    ∃ n, (Locator.withProperty text query (some span) lineOffset).locate target =
        .ok (some (n + lineOffset)) ∧
      (Locator.withProperty text query (some span) lineOffset).ReadsOff target n ∧
      (before.count '\n' + 1 ≤ n ∧
        n ≤ before.count '\n' + 1 + (front ++ query.toList ++ back).count '\n') ∧
      (∃ line, own line) ∧
      ((∃ found, (n, found) ∈ singleLines text ∧ (Needle.ofTarget target).HeldBy found) ∨
        ∀ line, own line → n ≤ line) ∧
      ((∀ line ∈ shown, (Needle.ofTarget target).HeldBy line.2 → own line.1) → own n) := by
  intro own shown
  generalize hlocator : Locator.withProperty text query (some span) lineOffset = locator
  have hspan : locator.property? = some span := by
    rw [← hlocator, Locator.property?_withProperty, Option.filter_some, placed.sliceOf?_eq]
    rfl
  obtain rfl : locator.text = text := by rw [← hlocator]; rfl
  obtain rfl : locator.lineOffset = lineOffset := by rw [← hlocator]; rfl
  obtain ⟨offset, seen⟩ := Query.exists_seenAt_of_mem_names htarget
  obtain ⟨line, held, hown, hline, hheld⟩ := seen.exists_line placed closed
  obtain ⟨-, -, hmem⟩ := mem_numberedFrom hline
  obtain ⟨n, hlocate, reads⟩ := Locator.exists_readsOff hspan placed ⟨held, hmem, hheld⟩
  -- The line that was picked looks like a property, or is the first line of the property with the name.
  have hpicked : ∃ found, (Needle.ofTarget target).HeldBy found ∧ ((n, found) ∈ singleLines locator.text ∨
      (n, found) ∈ numberedFrom (before.count '\n' + 1) (Text.lines (front ++ query.toList ++ back)) ∧
        ∀ line, own line → n ≤ line) := by
    cases reads with
    | single picks =>
      obtain ⟨found, hfound, hholds⟩ := picks.held
      exact ⟨found, hholds, .inl hfound⟩
    | inProperty lines _ hlines picks =>
      obtain ⟨found, hfound, hholds⟩ := picks.held
      rw [hspan, placed.propertyLines_eq] at hlines
      obtain rfl := Except.ok.inj hlines
      refine ⟨found, hholds, .inr ⟨hfound, ?_⟩⟩
      rintro line ⟨offset, seen, hown⟩
      obtain ⟨number, held, hplace, hmem, hheld⟩ := seen.exists_line placed closed
      obtain rfl := Option.some.inj (hplace.symm.trans hown)
      exact picks.first seen.fromEnd _ hmem hheld
  obtain ⟨found, hholds, hfound⟩ := hpicked
  have hshown : (n, found) ∈ shown := List.mem_append.mpr (hfound.imp_right And.left)
  refine ⟨n, hlocate, reads, ?_, ⟨line, offset, seen, hown⟩, ?_, fun h => h _ hshown hholds⟩
  · rcases hfound with hsingle | ⟨hproperty, -⟩
    · obtain ⟨hnumbered, hmentions⟩ := List.mem_filter.mp hsingle
      exact alone _ hnumbered hmentions
    · obtain ⟨hfirst, hlast, -⟩ := mem_numberedFrom hproperty
      have hcount := Text.length_lines_le (front ++ query.toList ++ back)
      omega
  · exact hfound.imp (fun hsingle => ⟨found, hsingle, hholds⟩) And.right

/-- A query that has an attribute and a node type in quotes before it refers to them on the next line. -/
def quotedQuery : String :=
  "//Method[@X='Field @B']\n/Field[@B]"

/-- A rule that holds this query from its second line on. -/
def quotedText : String :=
  "<rule name=\"R\"><property name=\"xpath\"><value>\n" ++ quotedQuery ++ "\n</value></property></rule>"

theorem propertyIn_quotedText :
    PropertyIn quotedText ⟨15, 100⟩ "<rule name=\"R\">".toList
      ("<property name=\"xpath\"><value>\n".toList ++ quotedQuery.toList ++
        "\n</value></property>".toList) "</rule>".toList := by
  exact ⟨by decide +kernel, by decide +kernel, by decide +kernel⟩

/-- Only the first line of that rule looks like a property, and the property touches it. -/
theorem mentions_quotedText :
    ∀ line ∈ numberedFrom 1 (Text.lines quotedText.toList), mentionsProperty line.2 = true →
      line.1 = 1 := by
  decide +kernel

/-- The name of the first step is nowhere else, so it gets the line of that step. -/
theorem locate_methodStep :
    (Locator.withProperty quotedText quotedQuery (some ⟨15, 100⟩) 0).locate (.nodeType "Method") =
        .ok (some 2) ∧
      SeenOn quotedText quotedQuery (byteSize ("<rule name=\"R\">".toList ++
        "<property name=\"xpath\"><value>\n".toList)) (.nodeType "Method") 2 := by
  have hbefore : "<rule name=\"R\">".toList.count '\n' = 0 := by decide +kernel
  have hstep : (⟨"Method", 2⟩ : Query.Step) ∈ Query.steps quotedQuery := by decide +kernel
  have hline : Text.lineAt? quotedText.toList (byteSize ("<rule name=\"R\">".toList ++
      "<property name=\"xpath\"><value>\n".toList) + 2) = some 2 := by
    decide +kernel
  have once : ∀ step ∈ Query.steps quotedQuery, step.name = "Method" → step.offset = 2 := by
    decide +kernel
  have lonely : ∀ line ∈ singleLines quotedText ++ numberedFrom ("<rule name=\"R\">".toList.count '\n' + 1)
      (Text.lines ("<property name=\"xpath\"><value>\n".toList ++ quotedQuery.toList ++
        "\n</value></property>".toList)),
      (Needle.ofTarget (.nodeType "Method")).HeldBy line.2 → line.1 = 2 := by
    decide +kernel
  have htarget : .nodeType "Method" ∈ Query.names .keepAll quotedQuery := by decide +kernel
  obtain ⟨n, hlocate, -, -, -, -, keeps⟩ := locate_of_mem_names propertyIn_quotedText (by decide +kernel)
    (fun line hline hmentions => by
      rw [mentions_quotedText line hline hmentions, hbefore]
      exact ⟨Nat.le_refl _, Nat.le_add_right _ _⟩) 0 htarget
  have hown := keeps fun line hmem hheld => by
    rw [lonely line hmem hheld]
    exact ⟨2, .nodeType hstep, hline⟩
  obtain ⟨offset, hseen, hplace⟩ := id hown
  cases hseen with
  | nodeType hseen =>
    obtain rfl : offset = 2 := once _ hseen rfl
    obtain rfl := Option.some.inj (hline.symm.trans hplace)
    exact ⟨hlocate, hown⟩

/-- The references to both names stand on the third line, and both get the second one. -/
theorem locate_quotedText :
    PropertyIn quotedText ⟨15, 100⟩ "<rule name=\"R\">".toList
        ("<property name=\"xpath\"><value>\n".toList ++ quotedQuery.toList ++
          "\n</value></property>".toList) "</rule>".toList ∧
      (∀ line ∈ numberedFrom 1 (Text.lines quotedText.toList), mentionsProperty line.2 = true →
        line.1 = 1) ∧
      ("B" ∈ Query.attributes quotedQuery ∧
        (Locator.withProperty quotedText quotedQuery (some ⟨15, 100⟩) 0).locate (.attr "B") = .ok (some 2) ∧
        ∀ reference ∈ Query.attributeRefs quotedQuery, reference.1 = "B" →
          Text.lineAt? quotedText.toList (byteSize ("<rule name=\"R\">".toList ++
            "<property name=\"xpath\"><value>\n".toList) + reference.2) = some 3) ∧
      "Field" ∈ Query.nodeTypes .keepAll quotedQuery ∧
        (Locator.withProperty quotedText quotedQuery (some ⟨15, 100⟩) 0).locate (.nodeType "Field") =
          .ok (some 2) ∧
        ∀ step ∈ Query.steps quotedQuery, step.name = "Field" →
          Text.lineAt? quotedText.toList (byteSize ("<rule name=\"R\">".toList ++
            "<property name=\"xpath\"><value>\n".toList) + step.offset) = some 3 := by
  refine ⟨propertyIn_quotedText, mentions_quotedText, ⟨?_, ?_, ?_⟩, ?_, ?_, ?_⟩
  all_goals decide +kernel

end Exemplar
