import Exemplar.Proofs.Coverage.Offset
import Exemplar.Proofs.Report.Rule
import Exemplar.Proofs.Rule.Slice

/-!
# Reports on rules on their own

What is reported about a rule depends on the text of its element, not on the file around it. How far down in the
file the rule is only shows in lines.
-/

namespace Exemplar

open Location (Target)
open Markup (Node usesOwnPrefixes)
open Text (Misplaced byteSize)

/-- The same report `n` lines further down. -/
structure RuleReport.MovedOn (n : Nat) (report moved : RuleReport) : Prop where
  name : moved.name = report.name
  analysis : moved.analysis = report.analysis
  coverage : report.coverage.MovedOn n moved.coverage
  hardcodedValues : moved.hardcodedValues = report.hardcodedValues
  letVariables : moved.letVariables = report.letVariables
  examples : moved.examples = report.examples

/-- The same outcome `n` lines further down. What ends a run is a byte of the rule's text, which does not move. -/
inductive OutcomeMovedOn (n : Nat) : Except Misplaced RuleReport → Except Misplaced RuleReport → Prop where
  | error (misplaced : Misplaced) : OutcomeMovedOn n (.error misplaced) (.error misplaced)
  | ok {report moved : RuleReport} (h : report.MovedOn n moved) : OutcomeMovedOn n (.ok report) (.ok moved)

namespace Rule

/-- The rule as it is at the start of a file. -/
def atStart (rule : Rule) : Rule :=
  { rule with lineOffset := 0 }

variable (rule : Rule)

/-! ### Lookups -/

theorem locate_eq_atStart (target : Target) : rule.locator.locate target =
    (rule.atStart.locator.locate target).map (Option.map (· + rule.lineOffset)) := by
  have hlocate : rule.locator.locate target =
      (rule.locator.lineInText? target).map (Option.map (· + rule.lineOffset)) := by
    rw [Locator.locate]
    cases rule.locator.lineInText? target <;> rfl
  have hstart : rule.atStart.locator.locate target = rule.locator.lineInText? target := by
    rw [Locator.locate]
    change (rule.locator.lineInText? target >>= fun line? => pure (line?.map (· + 0))) = _
    cases rule.locator.lineInText? target with
    | error misplaced => rfl
    | ok line? => cases line? <;> rfl
  rw [hlocate, hstart]

theorem lookUp_eq_atStart (targets : List Target) :
    rule.locator.lookUp targets = rule.atStart.locator.lookUp targets := by
  have hlocate (target : Target) :
      discard (rule.locator.locate target) = discard (rule.atStart.locator.locate target) := by
    rw [locate_eq_atStart]
    cases rule.atStart.locator.locate target <;> rfl
  rw [Locator.lookUp, Locator.lookUp]
  simp only [hlocate]
  rfl

theorem movedOn_context (reader : Code.Reader) :
    (rule.atStart.context reader).MovedOn rule.lineOffset (rule.context reader) where
  same := ⟨some rule.locator, rfl⟩
  lines target := by
    have hline (other : Rule) : (other.context reader).line? target = other.locator.line? target := rfl
    rw [hline, hline, Locator.line?, Locator.line?, locate_eq_atStart]
    cases rule.atStart.locator.locate target with
    | error misplaced => rfl
    | ok line? => rfl

/-! ### Reports -/

theorem movedOn_check (settings : Settings) (reader : Code.Reader) :
    (rule.atStart.check settings reader).MovedOn rule.lineOffset (rule.check settings reader) where
  name := rfl
  analysis := rfl
  coverage := Coverage.movedOn_check _ settings (movedOn_context rule reader)
  hardcodedValues := rfl
  letVariables := rfl
  examples := rfl

/-- Where a rule is in its file only shows in the lines of the report on it. -/
theorem movedOn_report (settings : Settings) (reader : Code.Reader) :
    OutcomeMovedOn rule.lineOffset (rule.atStart.report settings reader) (rule.report settings reader) := by
  have moved := movedOn_check rule settings reader
  have htargets := moved.coverage.targets
  rw [report, report, htargets, lookUp_eq_atStart rule]
  cases rule.atStart.locator.lookUp (rule.atStart.check settings reader).coverage.targets with
  | error misplaced => exact .error misplaced
  | ok _ => exact .ok moved

/-- What an element of a file defines, taken from the text of the element alone. -/
structure ReadsAlone (file : String) (node : Node) (rule : Rule) : Prop where
  text : Text.slice? file.toList node.span.start node.span.stop = some rule.text.toList
  property : ∀ property, queryProperty? node = some property → ∃ span inside, rule.querySpan? = some span ∧
    Text.slice? rule.text.toList span.start span.stop = some inside ∧
    Text.slice? file.toList property.span.start property.span.stop = some inside
  noProperty : queryProperty? node = none → rule.querySpan? = none
  first : ∃ others, ofText? rule.text = some (rule.atStart :: others)
  querySpan : querySpanIn? rule.text = rule.querySpan?
  query : queryIn? rule.text = rule.query?
  report : ∀ settings reader,
    OutcomeMovedOn rule.lineOffset (rule.atStart.report settings reader) (rule.report settings reader)

/-- A rule whose element uses no prefixes but its own is what the text of its element says. Read alone that text
defines the same rule first, at the start of a file, and finds the same query at the same place; and the report on
the rule is the report on that first one, moved on by the lines before the element. -/
theorem readsAlone_of_usesOwnPrefixes {file : String} {root node : Node}
    (hroot : Node.ofText? file = some root) (part : node.PartOf root) (hdefinition : isDefinition node = true)
    (own : usesOwnPrefixes (ofElement file.toList node).text.toList = true) :
    (∃ rules, ofText? file = some rules ∧ ofElement file.toList node ∈ rules) ∧
      ReadsAlone file node (ofElement file.toList node) := by
  refine ⟨exists_mem_ofText? hroot part hdefinition, ?_⟩
  obtain ⟨before, after, alone, hfile, rfl, hspan, halone⟩ := exists_alone hroot part hdefinition own
  rw [isDefinition_moveOn] at hdefinition
  have helement := (isDefinition_iff.mp hdefinition).1
  obtain ⟨-, hoffset, hrule⟩ := ofElement_of_moveOn before after hspan helement
  rw [← hfile] at hrule
  generalize ofElement file.toList (alone.moveOn (byteSize before)) = rule at *
  -- Apart from its place the rule is that of the element on its own.
  have hatStart : rule.atStart = ofElement rule.text.toList alone := by
    have hsame := congrArg atStart hrule
    generalize ofElement rule.text.toList alone = first at hsame hoffset ⊢
    cases first
    obtain rfl : _ = 0 := hoffset
    exact hsame
  have hproperty : rule.querySpan? = (queryProperty? alone).map Node.span := by
    have hsame := congrArg Rule.querySpan? hatStart
    simp only [ofElement, hspan] at hsame
    exact hsame
  constructor
  · rw [alone.span_moveOn _ helement, hspan]
    exact Text.slice?_eq_some_iff.mpr ⟨before, after, hfile, rfl, rfl⟩
  · intro moved hmoved
    rw [queryProperty?_moveOn, Option.map_eq_some_iff] at hmoved
    obtain ⟨property, hsome, rfl⟩ := hmoved
    have hnamed := isElement_of_queryProperty? hsome
    -- The property is cut out twice: out of the text of the rule, and with that out of the file.
    have hpart := Node.mem_descendants_iff.mp (List.mem_of_find?_eq_some hsome)
    obtain ⟨front, inside, back, htext, hplace, -⟩ := Node.exists_slice halone hpart hnamed
    refine ⟨property.span, inside, by rw [hproperty, hsome]; rfl, ?_, ?_⟩
    · exact Text.slice?_eq_some_iff.mpr ⟨front, back, htext, by rw [hplace], by rw [hplace]⟩
    · rw [property.span_moveOn _ hnamed, hplace]
      refine Text.slice?_eq_some_iff.mpr ⟨before ++ front, back ++ after, ?_, ?_, ?_⟩
      · rw [hfile, htext]
        simp
      · exact Text.byteSize_append _ _
      · rw [Text.byteSize_append, Nat.add_assoc]
        rfl
  · intro hnone
    rw [queryProperty?_moveOn, Option.map_eq_none_iff] at hnone
    rw [hproperty, hnone]
    rfl
  · rw [hatStart]
    exact ofText?_text halone hdefinition
  · rw [hproperty, querySpanIn?, halone]
    rfl
  · have hsame := congrArg Rule.query? hatStart
    rw [queryIn?, halone]
    exact hsame.symm
  · exact movedOn_report rule

/-- A file with a rule that starts in the middle of it and a group around that declares a prefix. -/
def groupedFile : String :=
  "<ruleset xmlns:g=\"urn:group\">\n<g:group><rule name=\"R\"><property name=\"xpath\">\n" ++
    "<value>//A[@B]</value></property></rule></g:group></ruleset>"

/-- The rule of that file uses no prefix, so it can be read alone. -/
theorem readsAlone_groupedFile : ∃ root node, Node.ofText? groupedFile = some root ∧ node.PartOf root ∧
    isDefinition node = true ∧ (ofElement groupedFile.toList node).lineOffset = 1 ∧
    ReadsAlone groupedFile node (ofElement groupedFile.toList node) := by
  have hparsed : (Node.ofText? groupedFile).map (fun root =>
      (root.descendants.filter fun node => isDefinition node &&
        (ofElement groupedFile.toList node).lineOffset == 1 &&
        usesOwnPrefixes (ofElement groupedFile.toList node).text.toList).isEmpty) = some false := by
    decide +kernel
  obtain ⟨root, hroot, hsome⟩ := Option.map_eq_some_iff.mp hparsed
  rw [List.isEmpty_eq_false_iff_exists_mem] at hsome
  obtain ⟨node, hnode⟩ := hsome
  simp only [List.mem_filter, Bool.and_eq_true, beq_iff_eq] at hnode
  obtain ⟨hmem, ⟨hdefinition, hline⟩, own⟩ := hnode
  have part := Node.mem_descendants_iff.mp hmem
  exact ⟨root, node, hroot, part, hdefinition, hline,
    (readsAlone_of_usesOwnPrefixes hroot part hdefinition own).2⟩

end Rule

end Exemplar
