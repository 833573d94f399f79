import Exemplar.Proofs.Location.Value
import Exemplar.Proofs.Markup.Document
import Exemplar.Proofs.Text.Line

/-!
# Rules lie in their file

The text of a rule is a part of its file, with as many newlines before it as the rule counts, and the property
with its query is a part of that text. Both end with the `>` of a tag, unless the text is the whole file.
-/

namespace Exemplar.Rule

open Location (PropertyIn)
open Markup (Covers Node NodesIn bracketed)

/-- A rule with what stands before and behind its text in a file. -/
structure StandsIn (rule : Rule) (file before after : List Char) : Prop where
  split : file = before ++ rule.text.toList ++ after
  lineOffset : rule.lineOffset = before.count '\n'
  /-- The text is the whole file, or it ends with a tag. -/
  ends : before = [] ∧ after = [] ∨ rule.text.toList.getLast? = some '>'
  property : ∀ span, rule.querySpan? = some span → ∃ front property back,
    PropertyIn rule.text span front property back ∧ property.getLast? = some '>'

/-- The first property with a query covers a stretch of the document, inside of the element that it is in. -/
theorem exists_covers_of_queryProperty? {document : List Char} {start stop : Nat} {node property : Node}
    (standing : NodesIn document start [node] stop) (h : queryProperty? node = some property) :
    (∃ before inside after, Covers document property.span before inside after) ∧
      start ≤ property.span.start ∧ property.span.stop ≤ stop := by
  have hmem := List.mem_of_find?_eq_some h
  have hnamed := List.find?_some h
  rw [Bool.and_eq_true] at hnamed
  rw [← Node.descendantsOfAll_singleton] at hmem
  obtain ⟨stands, first, last⟩ := standing.of_mem_descendants hmem hnamed.1
  exact ⟨stands.exists_covers hnamed.1, first, last⟩

/-- An element stands where its span says, with its property in it. -/
theorem standsIn_ofElement {document : List Char} {node : Node} {before inside after : List Char}
    (standing : NodesIn document node.span.start [node] node.span.stop)
    (covers : Covers document node.span before inside after) :
    (ofElement document node).text.toList = bracketed inside ∧
      (ofElement document node).StandsIn document before after := by
  have hslice : Text.slice? document node.span.start node.span.stop = some (bracketed inside) :=
    Text.slice?_eq_some_iff.mpr ⟨before, after, covers.split, covers.start.symm, covers.stop.symm⟩
  have htext : (ofElement document node).text.toList = bracketed inside := by
    simp [ofElement, hslice]
  refine ⟨htext, htext.symm ▸ covers.split, ?_, Or.inr ?_, ?_⟩
  · rw [ofElement, covers.start, covers.split, List.append_assoc, Text.newlinesBefore?_eq,
      Text.cut?_byteSize]
    rfl
  · rw [htext, Markup.getLast?_bracketed]
  · intro span hspan
    obtain ⟨property, hproperty, rfl⟩ := Option.map_eq_some_iff.mp hspan
    obtain ⟨⟨before', inside', after', covers'⟩, first, last⟩ :=
      exists_covers_of_queryProperty? standing hproperty
    -- In the document the property stands between the ends of the element.
    rw [covers.start, covers'.start] at first
    rw [covers.stop, covers'.stop] at last
    obtain ⟨front, back, rfl, hinside⟩ :=
      Text.exists_part_of_byteSize_le (covers.split.symm.trans covers'.split) first last
    refine ⟨front, bracketed inside', back, ⟨htext.trans hinside, ?_, ?_⟩, Markup.getLast?_bracketed _⟩
    · rw [covers.start, covers'.start, Text.byteSize_append, Nat.add_sub_cancel_left]
    · rw [covers.start, covers'.stop, Text.byteSize_append, Nat.add_assoc, Nat.add_sub_cancel_left]

theorem standsIn_ofDocument {document : String} {root : Node} {stop : Nat}
    (standing : NodesIn document.toList 0 [root] stop) :
    (ofDocument document root).StandsIn document.toList [] [] where
  split := (List.append_nil _).symm
  lineOffset := rfl
  ends := Or.inl ⟨rfl, rfl⟩
  property := by
    intro span hspan
    obtain ⟨property, hproperty, rfl⟩ := Option.map_eq_some_iff.mp hspan
    obtain ⟨⟨before, inside, after, covers⟩, -⟩ := exists_covers_of_queryProperty? standing hproperty
    exact ⟨before, bracketed inside, after, ⟨covers.split, covers.start, covers.stop⟩,
      Markup.getLast?_bracketed _⟩

/-- A rule stands in the file that it is from. -/
theorem exists_standsIn {file : String} {rules : List Rule} {rule : Rule}
    (hfile : ofText? file = some rules) (hrule : rule ∈ rules) :
    ∃ before after, rule.StandsIn file.toList before after := by
  -- A file without definitions is one rule as a whole; otherwise each definition covers a stretch of it.
  rw [ofText?] at hfile
  split at hfile
  · obtain rfl := Option.some.inj hfile
    cases hrule
  · obtain ⟨root, hroot, hrules⟩ := Option.bind_eq_some_iff.mp hfile
    obtain ⟨stop, standing⟩ := Node.nodesIn_of_ofText? hroot
    split at hrules
    next =>
      obtain rfl := Option.some.inj hrules
      obtain rfl := List.mem_singleton.mp hrule
      exact ⟨[], [], standsIn_ofDocument standing⟩
    next =>
      obtain rfl := Option.some.inj hrules
      obtain ⟨node, hnode, rfl⟩ := List.mem_map.mp hrule
      obtain ⟨hmem, hdefinition⟩ := List.mem_filter.mp hnode
      have hnamed : node.isElement "rule" = true := (Bool.and_eq_true_iff.mp hdefinition).1
      rw [← Node.descendantsOfAll_singleton] at hmem
      obtain ⟨stands, -⟩ := standing.of_mem_descendants hmem hnamed
      obtain ⟨before, inside, after, covers⟩ := stands.exists_covers hnamed
      exact ⟨before, after, (standsIn_ofElement stands covers).2⟩

/-- The lines of a rule are lines of the file that it is from. -/
theorem lines_le_of_mem_ofText? {file : String} {rules : List Rule} {rule : Rule}
    (hfile : ofText? file = some rules) (hrule : rule ∈ rules) :
    rule.lineOffset + (Text.lines rule.text.toList).length ≤ (Text.lines file.toList).length := by
  obtain ⟨before, after, stands⟩ := exists_standsIn hfile hrule
  rw [stands.lineOffset, stands.split]
  exact Text.count_add_length_lines_le before rule.text.toList after

end Exemplar.Rule
