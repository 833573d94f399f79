import Exemplar.Proofs.Location.Clause

/-!
# Counted lines

A line that no text shows is counted: from the line on which the value of the property starts, as many lines on as
the query has newlines before the target. Where a `value` element holds the query as it is, plain or in a verbatim
section and with any white space around it, what is passed over in front of the value ends with the first character
of the query. So the count comes to the line on which the target is written.
-/

namespace Exemplar

open Location
open Markup (Span)
open Text (byteSize isBlank)

/-- A query stands as it is between two parts of its property, in a `value` element. White space may stand around the
query, around the element, and around a verbatim section in the element. -/
inductive ElementBetween (query : List Char) : List Char → List Char → Prop where
  | plain {w₀ w₁ w₂ w₃ : List Char} (blank : ∀ w ∈ [w₀, w₁, w₂, w₃], ∀ c ∈ w, isBlank c = true)
      (free : '<' ∉ query) :
      ElementBetween query ("<property name=\"xpath\">".toList ++ w₀ ++ "<value>".toList ++ w₁)
        (w₂ ++ "</value>".toList ++ w₃ ++ "</property>".toList)
  | verbatim {w₀ w₁ w₁' w₂' w₂ w₃ : List Char}
      (blank : ∀ w ∈ [w₀, w₁, w₁', w₂', w₂, w₃], ∀ c ∈ w, isBlank c = true) :
      ElementBetween query
        ("<property name=\"xpath\">".toList ++ w₀ ++ "<value>".toList ++ w₁ ++ "<![CDATA[".toList ++ w₁')
        (w₂' ++ "]]>".toList ++ w₂ ++ "</value>".toList ++ w₃ ++ "</property>".toList)

theorem ElementBetween.holdsBetween {query front back : List Char} (element : ElementBetween query front back) :
    HoldsBetween query front back := by
  have ends (inside : List Char) : (inside ++ "</property>".toList).getLast? = some '>' := by
    rw [List.getLast?_append]
    rfl
  cases element with
  | @plain w₀ w₁ w₂ w₃ blank free =>
    exact .plain (not_infix_opening (blank w₀ (by simp))) (blank w₁ (by simp)) free (ends _)
  | @verbatim w₀ w₁ w₁' w₂' w₂ w₃ blank =>
    have hfront : "<property name=\"xpath\">".toList ++ w₀ ++ "<value>".toList ++ w₁ ++ "<![CDATA[".toList ++ w₁' =
        "<property name=\"xpath\">".toList ++ w₀ ++ "<value>".toList ++ (w₁ ++ verbatimOpening.toList ++ w₁') := by
      rw [verbatimOpening]
      simp only [List.append_assoc]
    rw [hfront]
    exact .verbatim (not_infix_opening (blank w₀ (by simp))) (blank w₁ (by simp)) (blank w₁' (by simp)) (ends _)

/-- Where an element holds the query as it is, the line that is counted for a target is the one on which the target is
written: a clause at its position, and anything else where it is found first in the query. -/
theorem countedLine?_of_elementBetween {text query : String} {span : Span} {before front back after : List Char}
    (placed : PropertyIn text span before (front ++ query.toList ++ back) after)
    (element : ElementBetween query.toList front back) (trimmed : Text.trim query.toList = query.toList)
    (nonempty : query.toList ≠ []) (lineOffset : Nat) {target : Target} {lead rest : List Char}
    (split : query.toList = lead ++ rest) (starts : target.StartsBetween lead rest) :
    ∃ line, (Locator.withProperty text query (some span) lineOffset).countedLine? (.ofTarget target) target =
        .ok (some line) ∧
      Text.lineAt? text.toList (byteSize (before ++ front) + byteSize lead) = some line := by
  refine ⟨_, ?_, placed.lineAt?_of_split split⟩
  -- The value starts on the line of the first character of the query.
  obtain ⟨c, cs, hquery, hc⟩ := exists_cons_of_trim trimmed nonempty
  have hvalue := placed.valueLine?_of_holdsBetween element.holdsBetween hquery hc
  apply Locator.countedLine?_eq_of_valueLine?
  · rw [Locator.property?_withProperty_of_propertyIn placed]
    exact hvalue
  · exact Locator.newlinesBefore?_eq_some_iff.mpr ⟨lead, rest, split, starts, rfl⟩

/-- A rule with white space of many sorts around a query in a verbatim section. -/
def spaciousText : String :=
  "<rule>\n<property name=\"xpath\">\n\u3000<value>\u00a0\n\n<![CDATA[ \n\u2003//A[@B\n  and @C]\n]]>\n</value>\t" ++
    "</property></rule>"

/-- The query of this rule. -/
def spaciousQuery : String :=
  "//A[@B\n  and @C]"

theorem elementBetween_spaciousText : ElementBetween spaciousQuery.toList
    ("<property name=\"xpath\">".toList ++ "\n\u3000".toList ++ "<value>".toList ++ "\u00a0\n\n".toList ++
      "<![CDATA[".toList ++ " \n\u2003".toList)
    ("\n".toList ++ "]]>".toList ++ "\n".toList ++ "</value>".toList ++ "\t".toList ++ "</property>".toList) := by
  have blank : ∀ w ∈ ["\n\u3000".toList, "\u00a0\n\n".toList, " \n\u2003".toList, "\n".toList, "\n".toList,
      "\t".toList], w.all isBlank = true := by
    decide +kernel
  exact .verbatim fun w hw => List.all_eq_true.mp (blank w hw)

theorem propertyIn_spaciousText : PropertyIn spaciousText ⟨7, 100⟩ "<rule>\n".toList
    ("<property name=\"xpath\">".toList ++ "\n\u3000".toList ++ "<value>".toList ++ "\u00a0\n\n".toList ++
        "<![CDATA[".toList ++ " \n\u2003".toList ++ spaciousQuery.toList ++
      ("\n".toList ++ "]]>".toList ++ "\n".toList ++ "</value>".toList ++ "\t".toList ++ "</property>".toList))
    "</rule>".toList :=
  ⟨by decide +kernel, by decide +kernel, by decide +kernel⟩

/-- The clause of this query is written on the second line of the query, and that is the seventh line of the text. -/
theorem countedLine?_spaciousText :
    Text.trim spaciousQuery.toList = spaciousQuery.toList ∧ spaciousQuery.toList ≠ [] ∧
    spaciousQuery.toList = "//A[@B\n  and ".toList ++ "@C]".toList ∧
    (Target.conditional ⟨.and, "@C", 13⟩).StartsBetween "//A[@B\n  and ".toList "@C]".toList ∧
    (Locator.withProperty spaciousText spaciousQuery (some ⟨7, 100⟩) 0).countedLine?
      (.ofTarget (.conditional ⟨.and, "@C", 13⟩)) (.conditional ⟨.and, "@C", 13⟩) = .ok (some 7) := by
  have trimmed : Text.trim spaciousQuery.toList = spaciousQuery.toList := by decide +kernel
  have nonempty : spaciousQuery.toList ≠ [] := by decide +kernel
  have split : spaciousQuery.toList = "//A[@B\n  and ".toList ++ "@C]".toList := by decide +kernel
  have starts : (Target.conditional ⟨.and, "@C", 13⟩).StartsBetween "//A[@B\n  and ".toList "@C]".toList := by
    have hposition : 13 = byteSize "//A[@B\n  and ".toList := by decide +kernel
    exact hposition
  obtain ⟨line, hcounted, hline⟩ := countedLine?_of_elementBetween propertyIn_spaciousText elementBetween_spaciousText
    trimmed nonempty 0 split starts
  have hseven : Text.lineAt? spaciousText.toList
      (byteSize ("<rule>\n".toList ++ ("<property name=\"xpath\">".toList ++ "\n\u3000".toList ++ "<value>".toList ++
        "\u00a0\n\n".toList ++ "<![CDATA[".toList ++ " \n\u2003".toList)) +
          byteSize "//A[@B\n  and ".toList) = some 7 := by
    decide +kernel
  obtain rfl := Option.some.inj (hseven.symm.trans hline)
  exact ⟨trimmed, nonempty, split, starts, hcounted⟩

end Exemplar
