import Exemplar.Proofs.Markup.Slice
import Exemplar.Proofs.Rule.Definition

/-!
# Rules on their own

The text of a rule is the text of its element, and that is a document as well. Read again it defines the same
rule, at the start of its file; further rules may follow that are inside of it.
-/

namespace Exemplar.Rule

open Markup (Node Span usesOwnPrefixes)
open Text (byteSize)

theorem isElement_of_queryProperty? {node property : Node} (h : queryProperty? node = some property) :
    property.isElement "property" = true := by
  have hnamed := List.find?_some h
  rw [Bool.and_eq_true] at hnamed
  exact hnamed.1

/-! ### Elements that move on -/

section MoveOn

variable (n : Nat) (node : Node)

theorem queryProperty?_moveOn :
    queryProperty? (node.moveOn n) = (queryProperty? node).map (Node.moveOn n) := by
  rw [queryProperty?, queryProperty?, Node.descendants_moveOn, List.find?_map]
  simp only [Function.comp_def, Node.isElement_moveOn, Node.attribute?_moveOn]

theorem queryOf_moveOn : queryOf (node.moveOn n) = queryOf node := by
  rw [queryOf, queryOf, Node.attribute?_moveOn]
  cases node.attribute? "value" with
  | some value => rfl
  | none =>
    have hholder : ((node.moveOn n).children.find? fun (child : Node) => child.isElement "value") =
        (node.children.find? fun (child : Node) => child.isElement "value").map (Node.moveOn n) := by
      rw [Node.children_moveOn, List.find?_map]
      simp only [Function.comp_def, Node.isElement_moveOn]
    dsimp only
    rw [hholder]
    cases node.children.find? fun (child : Node) => child.isElement "value" with
    | none => rw [Option.map_none, Option.getD_none, Option.getD_none, Node.textContent_moveOn]
    | some holder => rw [Option.map_some, Option.getD_some, Option.getD_some, Node.textContent_moveOn]

theorem examplesOf_moveOn : examplesOf (node.moveOn n) = examplesOf node := by
  rw [examplesOf, examplesOf, Node.descendants_moveOn, List.filter_map, List.map_map]
  simp only [Function.comp_def, Node.isElement_moveOn, Node.textContent_moveOn]

theorem isDefinition_moveOn : isDefinition (node.moveOn n) = isDefinition node := by
  rw [isDefinition, isDefinition, Node.isElement_moveOn, Node.attribute?_moveOn]

end MoveOn

/-! ### Reading a rule again -/

/-- The query's property of an element that is a document, and where it is in a longer one. -/
theorem querySpan?_of_moveOn {n : Nat} {alone : Node} (hstart : alone.span.start = 0)
    (helement : alone.isElement "rule" = true) :
    ((queryProperty? alone).map (Node.moveOn n)).map
        (fun p => (⟨p.span.start - (alone.moveOn n).span.start, p.span.stop - (alone.moveOn n).span.start⟩ : Span)) =
      (queryProperty? alone).map Node.span := by
  rw [Option.map_map, alone.span_moveOn n helement]
  refine Option.map_congr fun property hproperty => ?_
  rw [Function.comp_apply, property.span_moveOn n (isElement_of_queryProperty? hproperty)]
  simp only [Span.moveOn, hstart, Nat.add_zero, Nat.add_sub_cancel_left]

/-- The rule of an element in a document says the same as that of the element on its own. -/
theorem ofElement_of_moveOn (before after : List Char) {inside : List Char} {alone : Node}
    (hspan : alone.span = ⟨0, byteSize inside⟩) (helement : alone.isElement "rule" = true) :
    (ofElement inside alone).text.toList = inside ∧ (ofElement inside alone).lineOffset = 0 ∧
      ofElement (before ++ inside ++ after) (alone.moveOn (byteSize before)) =
        { ofElement inside alone with lineOffset := before.count '\n' } := by
  have hstart : alone.span.start = 0 := by rw [hspan]
  have hmoved : (alone.moveOn (byteSize before)).span = ⟨byteSize before, byteSize before + byteSize inside⟩ := by
    rw [alone.span_moveOn _ helement, hspan]
    rfl
  have hslice : Text.slice? inside 0 (byteSize inside) = some inside :=
    Text.slice?_eq_some_iff.mpr ⟨[], [], by simp, rfl, by simp [byteSize]⟩
  have hcut : Text.slice? (before ++ inside ++ after) (byteSize before) (byteSize before + byteSize inside) =
      some inside :=
    Text.slice?_eq_some_iff.mpr ⟨before, after, rfl, rfl, rfl⟩
  have hlines : Text.newlinesBefore? (before ++ inside ++ after) (byteSize before) =
      some (before.count '\n') := by
    rw [List.append_assoc, Text.newlinesBefore?_eq, Text.cut?_byteSize]
    rfl
  have hnone : Text.newlinesBefore? inside 0 = some 0 := by
    rw [Text.newlinesBefore?_eq, show Text.cut? inside 0 = some ([], inside) from Text.cut?_byteSize [] inside]
    rfl
  have hproperty := querySpan?_of_moveOn (n := byteSize before) hstart helement
  rw [hmoved] at hproperty
  refine ⟨?_, ?_, ?_⟩
  · simp only [ofElement, hspan, hslice, Option.getD_some, String.toList_ofList]
  · simp only [ofElement, hspan, hnone, Option.getD_some]
  · have hquery : ((queryProperty? alone).map (Node.moveOn (byteSize before))).map queryOf =
        (queryProperty? alone).map queryOf := by
      rw [Option.map_map]
      exact congrArg (Option.map · _) (funext (queryOf_moveOn _))
    simp only [ofElement, Node.attribute?_moveOn, queryProperty?_moveOn, examplesOf_moveOn, hmoved, hspan, hcut,
      hslice, hlines, hquery, hproperty, Option.getD_some, Nat.sub_zero]

/-- The text of a rule is that of its element. If it uses no prefixes but its own it is a document, whose element
is the same but for its place. -/
theorem exists_alone {file : String} {root node : Node} (hroot : Node.ofText? file = some root)
    (part : node.PartOf root) (hdefinition : isDefinition node = true)
    (own : usesOwnPrefixes (ofElement file.toList node).text.toList = true) :
    ∃ before after alone, file.toList = before ++ (ofElement file.toList node).text.toList ++ after ∧
      node = alone.moveOn (byteSize before) ∧
      alone.span = ⟨0, byteSize (ofElement file.toList node).text.toList⟩ ∧
      Node.ofText? (ofElement file.toList node).text = some alone := by
  have helement := (isDefinition_iff.mp hdefinition).1
  obtain ⟨before, inside, after, hfile, hspan, hinside⟩ := Node.exists_slice hroot part helement
  have htext : (ofElement file.toList node).text = String.ofList inside := by
    have hslice : Text.slice? file.toList node.span.start node.span.stop = some inside :=
      Text.slice?_eq_some_iff.mpr ⟨before, after, hfile, by rw [hspan], by rw [hspan]⟩
    simp [ofElement, hslice]
  rw [htext, String.toList_ofList] at own ⊢
  obtain ⟨alone, halone, rfl⟩ := hinside own
  refine ⟨before, after, alone, hfile, rfl, ?_, halone⟩
  rw [Node.isElement_moveOn] at helement
  rw [alone.span_moveOn _ helement, Span.moveOn, Span.mk.injEq] at hspan
  generalize alone.span = span at hspan
  obtain ⟨start, stop⟩ := span
  rw [Span.mk.injEq]
  simp only at hspan
  omega

/-- A rule that uses no prefixes but its own is the first rule of its text. -/
theorem ofText?_text {text : String} {alone : Node} (halone : Node.ofText? text = some alone)
    (hdefinition : isDefinition alone = true) :
    ∃ others, ofText? text = some (ofElement text.toList alone :: others) := by
  have hfirst : ∃ more, alone.descendants.filter isDefinition = alone :: more := by
    cases alone with
    | text content => cases hdefinition
    | element name attributes children span =>
      rw [Node.descendants, List.filter_cons_of_pos hdefinition]
      exact ⟨_, rfl⟩
  obtain ⟨more, hmore⟩ := hfirst
  have hnotBlank := Node.isBlankText_of_ofText? halone
  refine ⟨more.map (ofElement text.toList), ?_⟩
  rw [ofText?, hnotBlank, if_neg Bool.false_ne_true]
  refine Option.bind_eq_some_iff.mpr ⟨alone, halone, ?_⟩
  rw [hmore]
  rfl

/-- The rule of an element in a file is one of the rules of that file. -/
theorem exists_mem_ofText? {file : String} {root node : Node} (hroot : Node.ofText? file = some root)
    (part : node.PartOf root) (hdefinition : isDefinition node = true) :
    ∃ rules, ofText? file = some rules ∧ ofElement file.toList node ∈ rules := by
  obtain ⟨definitions, -, hmem, hrules⟩ :=
    ofText?_eq_definitions (Node.isBlankText_of_ofText? hroot) hroot
  have hnode := (hmem node).mpr ⟨part, isDefinition_iff.mp hdefinition⟩
  rw [if_neg (List.ne_nil_of_mem hnode)] at hrules
  exact ⟨_, hrules, List.mem_map_of_mem hnode⟩

/-! ### The property in the file -/

theorem isPartOf_of_queryProperty? {node property : Node} (h : queryProperty? node = some property) :
    property.PartOf node :=
  Node.mem_descendants_iff.mp (List.mem_of_find?_eq_some h)

/-- The property that a rule has its query from is an element of the file, with the text that it has in the rule. -/
theorem exists_property_of_querySpan? {file : String} {rules : List Rule} {rule : Rule} {span : Span}
    {written : List Char} (hfile : ofText? file = some rules) (hrule : rule ∈ rules)
    (hspan : rule.querySpan? = some span)
    (hslice : Text.slice? rule.text.toList span.start span.stop = some written) :
    ∃ root property, Node.ofText? file = some root ∧ property.PartOf root ∧
      property.isElement "property" = true ∧ rule.query? = some (queryOf property) ∧
      Text.slice? file.toList property.span.start property.span.stop = some written := by
  rw [ofText?] at hfile
  split at hfile
  · obtain rfl := Option.some.inj hfile
    cases hrule
  obtain ⟨root, hroot, hrules⟩ := Option.bind_eq_some_iff.mp hfile
  split at hrules
  next =>
    -- The file itself is the rule.
    obtain rfl := Option.some.inj hrules
    obtain rfl := List.mem_singleton.mp hrule
    obtain ⟨property, hproperty, rfl⟩ := Option.map_eq_some_iff.mp hspan
    refine ⟨root, property, hroot, isPartOf_of_queryProperty? hproperty, isElement_of_queryProperty? hproperty, ?_,
      hslice⟩
    rw [ofDocument, hproperty, Option.map_some]
  next =>
    obtain rfl := Option.some.inj hrules
    obtain ⟨node, hnode, rfl⟩ := List.mem_map.mp hrule
    obtain ⟨hmem, hdefinition⟩ := List.mem_filter.mp hnode
    obtain ⟨property, hproperty, rfl⟩ := Option.map_eq_some_iff.mp hspan
    have helement := (isDefinition_iff.mp hdefinition).1
    have part := Node.mem_descendants_iff.mp hmem
    refine ⟨root, property, hroot, (isPartOf_of_queryProperty? hproperty).trans part,
      isElement_of_queryProperty? hproperty, by rw [ofElement, hproperty, Option.map_some], ?_⟩
    obtain ⟨stop, standing⟩ := Node.nodesIn_of_ofText? hroot
    rw [← Node.descendantsOfAll_singleton] at hmem
    obtain ⟨stands, -⟩ := standing.of_mem_descendants hmem helement
    obtain ⟨before, inside, after, covers⟩ := stands.exists_covers helement
    obtain ⟨⟨before', inside', after', covers'⟩, first, last⟩ := exists_covers_of_queryProperty? stands hproperty
    have behind := covers'.start_lt
    -- In the file the rule starts with its element, and its places are counted from there.
    rw [(standsIn_ofElement stands covers).1] at hslice
    obtain ⟨front, back, hinside, hstart, hstop⟩ := Text.slice?_eq_some_iff.mp hslice
    have hbefore := covers.start
    dsimp only at hstart hstop
    refine Text.slice?_eq_some_iff.mpr ⟨before ++ front, back ++ after, ?_, ?_, ?_⟩
    · rw [covers.split, hinside]
      simp
    · rw [Text.byteSize_append]
      omega
    · rw [Text.byteSize_append]
      omega

end Exemplar.Rule
