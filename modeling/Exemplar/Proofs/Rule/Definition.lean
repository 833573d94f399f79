import Exemplar.Proofs.Rule.Basic

/-!
# Which rules a file defines

Every `rule` element without a `ref` defines one rule, wherever it is in the document. A document in which there
is no such element is itself a rule, and that does not only mean documents without `rule` elements: one whose
`rule` elements all refer to other files becomes a rule, too.
-/

namespace Exemplar

open Markup (Node)

namespace Rule

/-! ### The definitions of a file -/

theorem isDefinition_iff {node : Node} :
    isDefinition node = true ↔ node.isElement "rule" = true ∧ node.attribute? "ref" = none := by
  rw [isDefinition, Bool.and_eq_true, Option.isNone_iff_eq_none]

/-- Definitions come in the order in which they start, so none of them comes twice. -/
theorem pairwise_definitions {text : String} {root : Node} (hroot : Node.ofText? text = some root) :
    (root.descendants.filter isDefinition).Pairwise fun node other => node.span.start < other.span.start := by
  obtain ⟨stop, standing⟩ := Node.nodesIn_of_ofText? hroot
  have ordered := standing.pairwise_start.filter isDefinition
  rw [Node.descendantsOfAll_singleton] at ordered
  refine ordered.imp_of_mem ?_
  intro node other hnode hother lt
  have hrule := (isDefinition_iff.mp (List.mem_filter.mp hnode).2).1
  have hrule' := (isDefinition_iff.mp (List.mem_filter.mp hother).2).1
  exact lt "rule" "rule" hrule hrule'

/-- The rules of a file are those of its `rule` elements without a `ref`, each once and in document order. Where
there is no such element, the whole file is one rule without a name. -/
theorem ofText?_eq_definitions {text : String} {root : Node}
    (notBlank : Text.isBlankText text.toList = false) (hroot : Node.ofText? text = some root) :
    ∃ definitions : List Node,
      (definitions.Pairwise fun node other => node.span.start < other.span.start) ∧
        (∀ node, node ∈ definitions ↔
          node.PartOf root ∧ node.isElement "rule" = true ∧ node.attribute? "ref" = none) ∧
        ofText? text = some (if definitions = [] then [ofDocument text root]
          else definitions.map (ofElement text.toList)) := by
  refine ⟨root.descendants.filter isDefinition, pairwise_definitions hroot, ?_, ?_⟩
  · intro node
    rw [List.mem_filter, Node.mem_descendants_iff, isDefinition_iff]
  · rw [ofText?, if_neg (by rw [notBlank]; exact Bool.false_ne_true), hroot, Option.bind_eq_bind,
      Option.bind_some]
    split
    next hnone => rw [hnone]; rfl
    next hsome => rw [if_neg hsome]; rfl

/-- A file with a rule, a reference, and a rule that is deeper in the document. -/
def nestedFile : String :=
  "<ruleset><rule name=\"A\"/><rule ref=\"c.xml/C\"/><group><rule name=\"B\"/></group></ruleset>"

/-- It defines the two rules that have a name. -/
theorem definitions_nestedFile :
    ∃ (root : Node) (definitions : List Node), Node.ofText? nestedFile = some root ∧
      (∀ node ∈ definitions, node.PartOf root ∧ node.isElement "rule" = true ∧
        node.attribute? "ref" = none) ∧
      ofText? nestedFile = some (definitions.map (ofElement nestedFile.toList)) ∧
      (ofText? nestedFile).map (List.map Rule.name) = some ["A", "B"] := by
  have hparsed : (Node.ofText? nestedFile).isSome = true := by decide +kernel
  have hnames : (ofText? nestedFile).map (List.map Rule.name) = some ["A", "B"] := by decide +kernel
  obtain ⟨root, hroot⟩ := Option.isSome_iff_exists.mp hparsed
  obtain ⟨definitions, -, hmem, hrules⟩ := ofText?_eq_definitions (by decide +kernel) hroot
  refine ⟨root, definitions, hroot, fun node hnode => (hmem node).mp hnode, ?_, hnames⟩
  by_cases hnone : definitions = []
  · -- Then there would be only one rule.
    rw [hrules, if_pos hnone] at hnames
    have hlength := congrArg (Option.map List.length) hnames
    cases hlength
  · rw [hrules, if_neg hnone]

/-- A file that only refers to a rule of another file. -/
def referringFile : String :=
  "<ruleset><rule ref=\"a.xml/B\"/></ruleset>"

/-- It has a `rule` element, and yet all of it becomes a rule without a name. -/
theorem ofText?_referringFile :
    (Node.ofText? referringFile).map
        (fun root => (root.descendants.filter fun node => node.isElement "rule").length) = some 1 ∧
      ofText? referringFile = some [{ text := referringFile }] := by
  decide +kernel

end Rule

end Exemplar
