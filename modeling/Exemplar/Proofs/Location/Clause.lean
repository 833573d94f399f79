import Exemplar.Proofs.Location.Answer
import Exemplar.Proofs.Location.Spelling

/-!
# Lines of clauses

A clause is looked for by its keyword and its first line, from the last line upwards, and only if it is found
nowhere is the line counted to its position. So where a property holds its query as it is, a clause gets its own
line unless its text is on another line that the property touches: then it gets the last of the lines that
hold the text, whichever clause stands there.
-/

namespace Exemplar

open Location
open Markup (Span)
open Query (Conditional)
open Text (byteSize isBlank)

/-- A query stands as it is between two parts of its property: behind the first `<value>` and white space, or
in a verbatim section there. -/
inductive HoldsBetween (query : List Char) : List Char → List Char → Prop where
  | plain {opening w back : List Char} (first : ¬ "<value>".toList <:+: opening)
      (blank : ∀ c ∈ w, isBlank c = true) (free : '<' ∉ query) (ends : back.getLast? = some '>') :
      HoldsBetween query (opening ++ "<value>".toList ++ w) back
  | verbatim {opening w w' back : List Char} (first : ¬ "<value>".toList <:+: opening)
      (blank : ∀ c ∈ w, isBlank c = true) (blank' : ∀ c ∈ w', isBlank c = true)
      (ends : back.getLast? = some '>') :
      HoldsBetween query (opening ++ "<value>".toList ++ (w ++ verbatimOpening.toList ++ w')) back

namespace HoldsBetween

variable {query front back : List Char}

theorem ends (holds : HoldsBetween query front back) : back.getLast? = some '>' := by
  cases holds <;> assumption

/-- What is passed over in front of the query is all that there is between `<value>` and the query. -/
theorem exists_passedOver {c : Char} {rest : List Char} (holds : HoldsBetween (c :: rest) front back)
    (hc : isBlank c = false) (after : List Char) :
    ∃ opening passed, front = opening ++ "<value>".toList ++ passed ∧ ¬ "<value>".toList <:+: opening ∧
      passedOver (passed ++ (c :: rest ++ back ++ after)) = passed := by
  cases holds with
  | @plain opening w back first blank free ends =>
    have hplain : c ≠ '<' := by
      rintro rfl
      exact free List.mem_cons_self
    exact ⟨opening, w, rfl, first, passedOver_blank blank hc hplain⟩
  | @verbatim opening w w' back first blank blank' ends =>
    exact ⟨opening, _, rfl, first, passedOver_verbatim blank blank' hc _⟩

end HoldsBetween

/-- The value starts on the line on which the query does. -/
theorem Location.PropertyIn.valueLine?_of_holdsBetween {text : String} {span : Span}
    {before front query back after : List Char} {c : Char} {rest : List Char}
    (placed : PropertyIn text span before (front ++ query ++ back) after)
    (holds : HoldsBetween query front back) (hquery : query = c :: rest) (hc : isBlank c = false) :
    valueLine? text (some span) = .ok (some ((before ++ front).count '\n' + 1)) := by
  subst hquery
  obtain ⟨opening, passed, rfl, first, hpassed⟩ := holds.exists_passedOver hc after
  have split : opening ++ "<value>".toList ++ passed ++ (c :: rest) ++ back =
      opening ++ "<value>".toList ++ (passed ++ (c :: rest ++ back)) := by
    simp only [List.append_assoc]
  have hoffset := valueOffset?_of_not_infix first (passed ++ (c :: rest ++ back))
  rw [← split] at hoffset
  have place : min (byteSize (opening ++ "<value>".toList))
      (byteSize (opening ++ "<value>".toList ++ passed ++ (c :: rest) ++ back)) =
        byteSize (opening ++ "<value>".toList) := by
    rw [split, Text.byteSize_append _ (passed ++ _)]
    omega
  have hvalue := placed.valueLine?_of_place hoffset split place
  rw [List.append_assoc passed, hpassed] at hvalue
  simpa only [List.append_assoc] using hvalue

/-- A place of the query is on a line of the text, as many lines below the start of the query as the query has
newlines before the place. -/
theorem Location.PropertyIn.lineAt?_of_split {text : String} {span : Span}
    {before front query back after lead rest : List Char}
    (placed : PropertyIn text span before (front ++ query ++ back) after) (split : query = lead ++ rest) :
    Text.lineAt? text.toList (byteSize (before ++ front) + byteSize lead) =
      some ((before ++ front).count '\n' + 1 + lead.count '\n') := by
  have htext : text.toList = (before ++ front ++ lead) ++ (rest ++ back ++ after) := by
    rw [placed.split, split]
    simp only [List.append_assoc]
  rw [htext, ← Text.byteSize_append, Text.lineAt?_append]
  simp only [List.count_append]
  congr 1
  omega

/-! ### The line of a clause -/

section

variable {text query : String} {span : Span} {before front back after : List Char} {clause : Conditional}
  (placed : PropertyIn text span before (front ++ query.toList ++ back) after)
  (hclause : clause ∈ Query.conditionals query)

include placed hclause

/-- The position of a clause is a place on a line of the text, as many lines below the start of the query as the
query has newlines before it. -/
theorem exists_ownLine :
    ∃ lead rest, query.toList = lead ++ rest ∧ clause.position = byteSize lead ∧
      Text.lineAt? text.toList (byteSize (before ++ front) + clause.position) =
        some ((before ++ front).count '\n' + 1 + lead.count '\n') := by
  obtain ⟨lead, rest, hquery, hposition⟩ := Query.exists_of_mem_conditionals hclause
  have hsplit : query.toList = lead ++ (clause.expression.toList ++ rest) := by
    rw [hquery, List.append_assoc]
  exact ⟨lead, _, hsplit, hposition, by rw [hposition, placed.lineAt?_of_split hsplit]⟩

theorem valueLine?_of_mem_conditionals (holds : HoldsBetween query.toList front back)
    (trimmed : Text.trim query.toList = query.toList) :
    valueLine? text (some span) = .ok (some ((before ++ front).count '\n' + 1)) := by
  -- A query with a clause is not empty.
  have nonempty : query.toList ≠ [] := by
    intro hempty
    have hnone : Query.conditionals "" = [] := by decide
    rw [String.toList_eq_nil_iff.mp hempty, hnone] at hclause
    cases hclause
  obtain ⟨c, rest, hquery, hc⟩ := exists_cons_of_trim trimmed nonempty
  exact placed.valueLine?_of_holdsBetween holds hquery hc

end

/-- A clause gets the last line that holds its text, of those that look like a property on one line or else of
those of the property, and if there is none, the line of its position. That is its own line unless another line
that the property touches holds its text, too. -/
theorem locate_of_holdsBetween {text query : String} {span : Span} {before front back after : List Char}
    (placed : PropertyIn text span before (front ++ query.toList ++ back) after)
    (holds : HoldsBetween query.toList front back) (trimmed : Text.trim query.toList = query.toList)
    (alone : ∀ line ∈ numberedFrom 1 (Text.lines text.toList), mentionsProperty line.2 = true →
      before.count '\n' + 1 ≤ line.1 ∧
        line.1 ≤ before.count '\n' + 1 + (front ++ query.toList ++ back).count '\n')
    (lineOffset : Nat) {clause : Conditional} (hclause : clause ∈ Query.conditionals query) :
    ∃ n own, (Locator.withProperty text query (some span) lineOffset).locate (.conditional clause) =
        .ok (some (n + lineOffset)) ∧
      Text.lineAt? text.toList (byteSize (before ++ front) + clause.position) = some own ∧
      ((Locator.withProperty text query (some span) lineOffset).ReadsOff (.conditional clause) n ∨
        (Locator.withProperty text query (some span) lineOffset).CountsTo (.conditional clause) n ∧
          n = own) ∧
      ((∀ line ∈ numberedFrom 1 (Text.lines text.toList), before.count '\n' + 1 ≤ line.1 →
          line.1 ≤ before.count '\n' + 1 + (front ++ query.toList ++ back).count '\n' →
          (Needle.ofTarget (.conditional clause)).WrittenIn line.2 → line.1 = own) → n = own) := by
  generalize hlocator : Locator.withProperty text query (some span) lineOffset = locator
  have hspan : locator.property? = some span := by
    rw [← hlocator, Locator.property?_withProperty, Option.filter_some, placed.sliceOf?_eq]
    rfl
  have kept : locator.IsKept := hlocator ▸ Locator.isKept_withProperty text query (some span) lineOffset
  obtain rfl : locator.text = text := by rw [← hlocator]; rfl
  obtain rfl : locator.query = query := by rw [← hlocator]; rfl
  obtain rfl : locator.lineOffset = lineOffset := by rw [← hlocator]; rfl
  obtain ⟨lead, rest, hquery, hposition, hown⟩ := exists_ownLine placed hclause
  have hnewlines : locator.newlinesBefore? (.ofTarget (.conditional clause)) (.conditional clause) =
      some (lead.count '\n') :=
    Locator.newlinesBefore?_eq_some_iff.mpr ⟨lead, rest, hquery, hposition, rfl⟩
  have hvalue := valueLine?_of_mem_conditionals placed hclause holds trimmed
  rw [← hspan] at hvalue
  obtain ⟨n, hlocate⟩ := Locator.exists_locate_some kept hvalue hnewlines
  obtain ⟨line, rfl, hanswer⟩ := Locator.exists_of_locate kept hlocate
  -- A line that is counted is that of the position.
  refine ⟨line, _, hlocate, hown,
    hanswer.imp_right fun counts => ⟨counts, counts.eq_add hvalue hnewlines⟩, ?_⟩
  intro lonely
  rcases hanswer with reads | counts
  · have tagged : locator.IsTagged := by
      intro span' hspan'
      obtain rfl := Option.some.inj (hspan.symm.trans hspan')
      refine ⟨before, _, after, placed, ?_⟩
      rw [List.getLast?_append, holds.ends]
      rfl
    -- A line that is read off is touched by the property, as all lines are that look like one.
    obtain ⟨written, hwritten, hholds, hplace⟩ := reads.exists_line tagged
    have inside : before.count '\n' + 1 ≤ line ∧
        line ≤ before.count '\n' + 1 + (front ++ locator.query.toList ++ back).count '\n' := by
      rcases hplace with hmentions | ⟨span', before', property', after', hspan', placed', inside⟩
      · exact alone _ hwritten hmentions
      · obtain rfl := Option.some.inj (hspan.symm.trans hspan')
        obtain ⟨rfl, rfl⟩ := placed.unique placed'
        exact inside
    exact lonely _ hwritten inside.1 inside.2 hholds
  · exact counts.eq_add hvalue hnewlines

/-- A query with the same words behind `and` on two lines, the second time with an `or` on a third one. -/
def repeatedQuery : String :=
  "//A[@X and @B]\n/C[@Y and @B\nor @D]"

/-- A rule that holds this query from its second line on. -/
def repeatedText : String :=
  "<rule name=\"R\"><property name=\"xpath\"><value>\n" ++ repeatedQuery ++ "\n</value></property></rule>"

theorem propertyIn_repeatedText :
    PropertyIn repeatedText ⟨15, 100⟩ "<rule name=\"R\">".toList
      ("<property name=\"xpath\"><value>\n".toList ++ repeatedQuery.toList ++
        "\n</value></property>".toList) "</rule>".toList := by
  exact ⟨by decide +kernel, by decide +kernel, by decide +kernel⟩

theorem holdsBetween_repeatedText :
    HoldsBetween repeatedQuery.toList "<property name=\"xpath\"><value>\n".toList
      "\n</value></property>".toList := by
  have absent : ¬ "<value>".toList <:+: "<property name=\"xpath\">".toList := by decide +kernel
  have blank : "\n".toList.all isBlank = true := by decide +kernel
  exact .plain absent (List.all_eq_true.mp blank) (by decide +kernel) (by decide +kernel)

/-- Only the first line of that rule looks like a property, and the property touches it. -/
theorem mentions_repeatedText :
    ∀ line ∈ numberedFrom 1 (Text.lines repeatedText.toList), mentionsProperty line.2 = true →
      line.1 = 1 := by
  decide +kernel

/-- The words behind `or` are on no other line, so that clause gets its own line. -/
theorem locate_orClause :
    (Locator.withProperty repeatedText repeatedQuery (some ⟨15, 100⟩) 0).locate
        (.conditional ⟨.or, "@D", 31⟩) = .ok (some 4) ∧
      Text.lineAt? repeatedText.toList
        (byteSize ("<rule name=\"R\">".toList ++ "<property name=\"xpath\"><value>\n".toList) + 31) =
          some 4 := by
  have hclause : ⟨.or, "@D", 31⟩ ∈ Query.conditionals repeatedQuery := by decide +kernel
  have hbefore : "<rule name=\"R\">".toList.count '\n' = 0 := by decide +kernel
  have hline : Text.lineAt? repeatedText.toList
      (byteSize ("<rule name=\"R\">".toList ++ "<property name=\"xpath\"><value>\n".toList) + 31) =
        some 4 := by
    decide +kernel
  have lonely : ∀ line ∈ numberedFrom 1 (Text.lines repeatedText.toList),
      (Needle.ofTarget (.conditional ⟨.or, "@D", 31⟩)).WrittenIn line.2 → line.1 = 4 := by
    decide +kernel
  obtain ⟨n, own, hlocate, hown, -, keeps⟩ := locate_of_holdsBetween propertyIn_repeatedText
    holdsBetween_repeatedText (by decide +kernel)
    (fun line hline hmentions => by
      rw [mentions_repeatedText line hline hmentions, hbefore]
      exact ⟨Nat.le_refl _, Nat.le_add_right _ _⟩) 0 hclause
  obtain rfl := Option.some.inj (hline.symm.trans hown)
  rw [keeps fun line hmem _ _ written => lonely line hmem written] at hlocate
  exact ⟨hlocate, hline⟩

/-- The first of the two clauses stands on the second line and gets the third one, that of the other clause. -/
theorem locate_repeatedText :
    PropertyIn repeatedText ⟨15, 100⟩ "<rule name=\"R\">".toList
        ("<property name=\"xpath\"><value>\n".toList ++ repeatedQuery.toList ++
          "\n</value></property>".toList) "</rule>".toList ∧
      HoldsBetween repeatedQuery.toList "<property name=\"xpath\"><value>\n".toList
        "\n</value></property>".toList ∧
      (∀ line ∈ numberedFrom 1 (Text.lines repeatedText.toList), mentionsProperty line.2 = true →
        line.1 = 1) ∧
      ⟨.and, "@B", 11⟩ ∈ Query.conditionals repeatedQuery ∧
      (Locator.withProperty repeatedText repeatedQuery (some ⟨15, 100⟩) 0).locate
        (.conditional ⟨.and, "@B", 11⟩) = .ok (some 3) ∧
      Text.lineAt? repeatedText.toList
        (byteSize ("<rule name=\"R\">".toList ++ "<property name=\"xpath\"><value>\n".toList) + 11) =
          some 2 := by
  refine ⟨propertyIn_repeatedText, holdsBetween_repeatedText, mentions_repeatedText, ?_, ?_, ?_⟩
  · decide +kernel
  · decide +kernel
  · decide +kernel

end Exemplar
