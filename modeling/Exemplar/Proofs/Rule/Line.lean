import Exemplar.Proofs.Location.Answer
import Exemplar.Proofs.Rule.Basic
import Exemplar.Proofs.Text.Part
import Exemplar.Report.Basic

/-!
# Lines of a rule in its file

A locator counts lines in the text of its rule and moves them on by the lines of the file that end before that
text. What it reads off a line of the text is therefore written in the line of the file that it answers with,
even where the text or its property starts or stops in the middle of a line.
-/

namespace Exemplar.Rule

open Location (Needle Target mem_numberedFrom_iff)

variable {rule : Rule} {file before after : List Char} {target : Target}

/-! ### From the text of a rule to its file -/

/-- A line of a rule is part of a line of its file. -/
theorem StandsIn.exists_line (stands : rule.StandsIn file before after) {line : List Char} {i : Nat}
    (h : (Text.lines rule.text.toList)[i]? = some line) :
    ∃ whole, (Text.lines file)[rule.lineOffset + i]? = some whole ∧ line <:+: whole := by
  rw [stands.lineOffset, stands.split]
  rcases stands.ends with ⟨rfl, rfl⟩ | htag
  · exact ⟨line, by simpa using h, List.infix_refl line⟩
  · apply Text.exists_line_of_part before after h
    rw [htag]
    decide

/-- The property of a rule is a part of its text, so the locator keeps it. -/
theorem StandsIn.property?_locator (stands : rule.StandsIn file before after) :
    rule.locator.property? = rule.querySpan? := by
  rw [locator, Locator.property?_withProperty]
  cases hspan : rule.querySpan? with
  | none => rfl
  | some span =>
    obtain ⟨front, property, back, placed, -⟩ := stands.property span hspan
    rw [Option.filter_some, placed.sliceOf?_eq]
    rfl

theorem StandsIn.isTagged_locator (stands : rule.StandsIn file before after) : rule.locator.IsTagged := by
  intro span hspan
  rw [stands.property?_locator] at hspan
  exact stands.property span hspan

/-! ### What a line of the file says -/

/-- An answer of a rule's locator is a line of the file on which the target is written: the one that the needle
picks from the lines of the rule that look like the property, or else from those of the property. Only if the
target is on none of these lines is its line counted from the start of the value. -/
theorem locate_readsOff_or_countsTo {file : String} {rules : List Rule} {rule : Rule} {target : Target}
    {n : Nat} (hfile : ofText? file = some rules) (hrule : rule ∈ rules)
    (hlocate : rule.locator.locate target = .ok (some n)) :
    rule.locator.property? = rule.querySpan? ∧
      ∃ line, 1 ≤ line ∧ n = line + rule.lineOffset ∧
        (rule.locator.ReadsOff target line ∧
            (∃ whole, (Text.lines file.toList)[n - 1]? = some whole ∧
              (Needle.ofTarget target).WrittenIn whole) ∨
          rule.locator.CountsTo target line) := by
  obtain ⟨before, after, stands⟩ := exists_standsIn hfile hrule
  have kept : rule.locator.IsKept :=
    Locator.isKept_withProperty rule.text rule.query rule.querySpan? rule.lineOffset
  obtain ⟨line, rfl, reads | counts⟩ := Locator.exists_of_locate kept hlocate
  · obtain ⟨shown, hshown, written, -⟩ := reads.exists_line stands.isTagged_locator
    obtain ⟨i, rfl, hi⟩ := mem_numberedFrom_iff.mp hshown
    obtain ⟨whole, hwhole, part⟩ := stands.exists_line hi
    -- Lines are numbered from 1 in the text as in the file.
    have hline : (Text.lines file.toList)[1 + i + rule.lineOffset - 1]? = some whole := by
      rw [← hwhole]
      congr 1
      omega
    exact ⟨stands.property?_locator, 1 + i, Nat.le_add_right 1 i, rfl,
      Or.inl ⟨reads, whole, hline, written.of_infix part⟩⟩
  · obtain ⟨front, back, first, -, -, hvalue, rfl⟩ := counts.counted
    have hfirst := Locator.one_le_of_valueLine? hvalue
    exact ⟨stands.property?_locator, _, by omega, rfl, Or.inr counts⟩

/-- A rule that starts on the second line of its file. -/
def indentedFile : String :=
  "<ruleset>\n  <rule name=\"R\"><property name=\"xpath\"><value>\n    //A[@B]\n" ++
    "  </value></property></rule>\n</ruleset>"

/-- The rule of that file. -/
def indentedRule : Rule where
  name := "R"
  query? := some "//A[@B]"
  text := "<rule name=\"R\"><property name=\"xpath\"><value>\n    //A[@B]\n  </value></property></rule>"
  lineOffset := 1
  querySpan? := some ⟨15, 79⟩

/-- Its attribute is on the third line of the file, which is the second one of the rule. -/
theorem readsOff_indentedRule :
    ofText? indentedFile = some [indentedRule] ∧
      indentedRule.locator.locate (.attr "B") = .ok (some 3) ∧
      (indentedRule.locator.ReadsOff (.attr "B") 2 ∧
          (∃ whole, (Text.lines indentedFile.toList)[2]? = some whole ∧
            (Needle.ofTarget (.attr "B")).WrittenIn whole) ∨
        indentedRule.locator.CountsTo (.attr "B") 2) := by
  have hfile : ofText? indentedFile = some [indentedRule] := by decide +kernel
  have hlocate : indentedRule.locator.locate (.attr "B") = .ok (some 3) := by decide +kernel
  refine ⟨hfile, hlocate, ?_⟩
  obtain ⟨-, line, -, hline, h⟩ :=
    locate_readsOff_or_countsTo hfile (List.mem_singleton_self _) hlocate
  obtain rfl : line = 2 := (Nat.succ.inj hline).symm
  exact h

end Exemplar.Rule
