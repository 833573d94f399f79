import Exemplar.Proofs.Code.Tree
import Exemplar.Proofs.Example.Marker
import Exemplar.Proofs.Text.Place
import Exemplar.Report.Encode

/-!
# What markers say about lines and nodes

A marker is on a line of its example: on the line where it was found, or on one of the lines below, and no look ahead
goes past the last line. So what the tree adds to a marker is about a line that is there: where its code stands, and
which node starts there. Numbering the markers of a sort changes nothing else about them.
-/

namespace Exemplar.Example

variable {lines before after : List (List Char)} {line : List Char} {i k : Nat} {isViolation : Bool}
  {marker : Marker} {marked : Marked} {markers : List Marker} {highlight : Highlight}

/-! ### What is said about markers -/

/-- A highlight is about the code of a line, without white space around it and without the comment, and about a node
that starts on the line with this number. -/
structure Highlight.IsOn (highlight : Highlight) (root : Code.Node) (number : Nat) (line : List Char) : Prop where
  slice : Text.slice? line highlight.start highlight.stop = some highlight.text.toList
  nonempty : highlight.text.toList ≠ []
  trimmed : Text.trim highlight.text.toList = highlight.text.toList
  inCode : highlight.stop ≤ Text.byteSize (splitComment line).1
  node : ∃ node ∈ root.preorder, node.line = number ∧ node.kind.name = highlight.nodeType

/-- The names of the fields of an object. -/
def fieldNames : Json → List String
  | .obj fields => fields.map Prod.fst
  | _ => []

/-- The fields of a marker that are about code. -/
def codeFields : List String :=
  ["astNodeType", "codeSpan", "codeText"]

/-- A marker is on one of the lines, and what it says about code is about that line. -/
structure Marker.IsOn (marker : Marker) (root? : Option Code.Node) (lines : List (List Char)) : Prop where
  one_le : 1 ≤ marker.line
  le_length : marker.line ≤ lines.length
  highlighted : ∀ highlight, marker.highlight? = some highlight → ∃ root line, root? = some root ∧
    lines[marker.line - 1]? = some line ∧ highlight.IsOn root marker.line line

/-! ### Markers without a tree -/

/-- A marker on one of the lines that nothing is known about. -/
structure Marker.IsBare (marker : Marker) (lines : List (List Char)) : Prop where
  one_le : 1 ≤ marker.line
  le_length : marker.line ≤ lines.length
  bare : marker.highlight? = none

theorem exists_of_mem_collectFrom {found? : Nat → List Char → List (List Char) → Option Marked}
    (h : marked ∈ collectFrom found? 0 lines) : ∃ before line after, lines = before ++ line :: after ∧
      found? before.length line after = some marked := by
  suffices hrest : ∀ before rest, lines = before ++ rest → marked ∈ collectFrom found? before.length rest →
      ∃ before line after, lines = before ++ line :: after ∧ found? before.length line after = some marked from
    hrest [] lines rfl h
  intro before rest
  induction rest generalizing before with
  | nil => exact fun _ hmem => absurd hmem List.not_mem_nil
  | cons line after ih =>
    intro hlines hmem
    rw [collectFrom, List.mem_append, Option.mem_toList] at hmem
    rcases hmem with hfound | hmem
    · exact ⟨before, line, after, hlines, hfound⟩
    · refine ih (before ++ [line]) (by rw [hlines, List.append_cons]) ?_
      rw [List.length_append, List.length_singleton]
      exact hmem

theorem targetLine_le (i : Nat) (line : List Char) (after : List (List Char)) :
    targetLine i line after ≤ i + after.length := by
  rw [targetLine_eq]
  cases hfirst : (line :: after).findIdx? hasCode with
  | none => exact Nat.le_add_right i _
  | some k =>
    obtain ⟨hk, -⟩ := List.findIdx?_eq_some_iff_getElem.mp hfirst
    exact Nat.add_le_add_left (Nat.le_of_lt_succ hk) i

theorem isBare_inlineMarker? (h : inlineMarker? before.length line after = some marked) :
    marked.marker.IsBare (before ++ line :: after) := by
  rw [inlineMarker?] at h
  obtain ⟨comment, -, h⟩ := Option.bind_eq_some_iff.mp h
  obtain ⟨⟨isViolation, description⟩, -, h⟩ := Option.bind_eq_some_iff.mp h
  obtain rfl := Option.some.inj h
  have htarget := targetLine_le before.length line after
  refine ⟨Nat.succ_pos _, ?_, rfl⟩
  rw [List.length_append, List.length_cons]
  exact Nat.succ_le_succ htarget

theorem isBare_sectionOn? (h : sectionOn? before.length line after = some marked) :
    marked.marker.IsBare (before ++ line :: after) := by
  obtain ⟨header, -, rfl⟩ := Option.map_eq_some_iff.mp h
  rw [marker_addLines, List.isEmpty_nil, if_pos rfl]
  have hbody := (List.takeWhile_prefix (!isHeader ·) (l := after)).length_le
  cases hfirst : (after.takeWhile (!isHeader ·)).findIdx? hasCode with
  | none => exact ⟨Nat.succ_pos _, by simp, rfl⟩
  | some k =>
    obtain ⟨hk, -⟩ := List.findIdx?_eq_some_iff_getElem.mp hfirst
    refine ⟨Nat.succ_pos _, ?_, rfl⟩
    show before.length + 1 + k + 1 ≤ (before ++ line :: after).length
    rw [List.length_append, List.length_cons]
    omega

theorem isBare_of_mem_markers (h : marked ∈ Example.markers lines) : marked.marker.IsBare lines := by
  rw [markers_eq] at h
  split at h
  · rw [inlineMarkers, inlineMarkersFrom_eq] at h
    obtain ⟨before, line, after, rfl, hfound⟩ := exists_of_mem_collectFrom h
    exact isBare_inlineMarker? hfound
  · rw [sections, sectionsFrom_none] at h
    obtain ⟨before, line, after, rfl, hfound⟩ := exists_of_mem_collectFrom h
    exact isBare_sectionOn? hfound

/-! ### What the tree adds -/

theorem isOn_of_highlightOf? {root node : Code.Node} {number : Nat} (hnode : root.nodeOnLine? number = some node)
    (h : highlightOf? node line = some highlight) : highlight.IsOn root number line := by
  rw [highlightOf?] at h
  dsimp only at h
  split at h
  next => cases h
  next hcode =>
    obtain rfl := Option.some.inj h
    rw [List.isEmpty_iff] at hcode
    obtain ⟨back, -, hsplit⟩ := Text.exists_of_trim (splitComment line).1
    have hline := append_of_splitComment line
    obtain ⟨hmem, hnumber, -⟩ := Code.Node.mem_of_nodeOnLine? hnode
    exact
      { slice := by
          rw [String.toList_ofList]
          refine Text.slice?_eq_some_iff.mpr ⟨(splitComment line).1.takeWhile Text.isBlank,
            back ++ ((splitComment line).2.map (['/', '/'] ++ ·)).getD [], ?_, rfl, rfl⟩
          rw [← List.append_assoc, ← hsplit, hline]
        nonempty := by rwa [String.toList_ofList]
        trimmed := by rw [String.toList_ofList, Text.trim_trim]
        inCode := by
          conv_rhs => rw [hsplit]
          rw [Text.byteSize_append, Text.byteSize_append]
          exact Nat.le_add_right _ _
        node := ⟨node, hmem, hnumber, rfl⟩ }

/-- A report has all fields about the code or none. -/
theorem mem_fieldNames_iff (marker : Marker) :
    ∀ name ∈ codeFields, name ∈ fieldNames marker.toJson ↔ marker.highlight?.isSome := by
  rw [Marker.toJson, fieldNames, List.map_append, codeFields]
  cases marker.highlight? with
  | none => simp
  | some highlight => simp [Highlight.fields]

theorem Marker.IsBare.isOn (h : marker.IsBare lines) (root? : Option Code.Node) : marker.IsOn root? lines where
  one_le := h.one_le
  le_length := h.le_length
  highlighted highlight hsome := by
    rw [h.bare] at hsome
    cases hsome

theorem Marker.IsBare.locate (h : marker.IsBare lines) (root : Code.Node) :
    (marker.locate lines root).IsOn (some root) lines where
  one_le := h.one_le
  le_length := h.le_length
  highlighted highlight hsome := by
    obtain ⟨node, hnode, hsome⟩ := Option.bind_eq_some_iff.mp hsome
    obtain ⟨line, hline, hsome⟩ := Option.bind_eq_some_iff.mp hsome
    exact ⟨root, line, rfl, hline, isOn_of_highlightOf? hnode hsome⟩

/-- The tree of the code is asked for only where there are markers, which makes no difference to them. -/
theorem isOn_annotated (reader? : Option Code.Reader) (content : String)
    (h : marked ∈ Example.markers (Text.lines content.toList)) :
    (annotated (Text.lines content.toList) (rootOf? reader? content) marked).IsOn
      (reader?.bind fun read => (read content).root?) (Text.lines content.toList) := by
  have hbare := isBare_of_mem_markers h
  -- Without a tree nothing is added, and with one it is the tree that the reader gives.
  cases hroot : rootOf? reader? content with
  | none => exact hbare.isOn _
  | some root =>
    obtain ⟨read, rfl, hread⟩ := Option.bind_eq_some_iff.mp hroot
    split at hread
    · cases hread
    · rw [Option.bind_some, hread]
      exact hbare.locate root

/-! ### Numbered markers -/

theorem exists_of_getElem?_numbered (h : (numbered markers isViolation)[k]? = some marker) :
    ∃ source ∈ markers, source.isViolation = isViolation ∧ marker = { source with index := k } := by
  rw [numbered, List.getElem?_map, List.getElem?_zipIdx, Option.map_map, Option.map_eq_some_iff] at h
  obtain ⟨source, hsource, rfl⟩ := h
  obtain ⟨hmem, hsort⟩ := List.mem_filter.mp (List.mem_of_getElem? hsource)
  refine ⟨source, hmem, beq_iff_eq.mp hsort, ?_⟩
  rw [Function.comp_apply, Nat.zero_add]

/-- Each marker of an example is among those of its sort, knows its place there, and is on a line of the example. What
it says about code is about the code of that line and a node that starts there, and it says all of that or nothing. -/
theorem ofContent_marksLines (reader? : Option Code.Reader) (index : Nat) (content : String) (isViolation : Bool)
    (k : Nat) (marker : Marker) (h : ((ofContent reader? index content).markersOf isViolation)[k]? = some marker) :
    marker.isViolation = isViolation ∧ marker.index = k ∧
      marker.IsOn (reader?.bind fun read => (read content).root?) (Text.lines content.toList) ∧
      ∀ name ∈ codeFields, name ∈ fieldNames marker.toJson ↔ marker.highlight?.isSome := by
  rw [markersOf_ofContent] at h
  obtain ⟨source, hsource, hsort, rfl⟩ := exists_of_getElem?_numbered h
  obtain ⟨marked, hmarked, rfl⟩ := List.mem_map.mp hsource
  have hon := isOn_annotated reader? content hmarked
  exact ⟨hsort, rfl, ⟨hon.one_le, hon.le_length, hon.highlighted⟩, mem_fieldNames_iff _⟩

/-- A comment above the line that it speaks of, with another sort of comment behind the code. -/
def assignedText : String :=
  "x = 1; // ✅\n// ❌ text\n  s = 'é//'; // it's"

/-- The node of the assignment in the tree of the text. -/
def assignedTree : Code.Node :=
  ⟨.apexFile, 1, [⟨.assignmentExpression, 3, []⟩]⟩

theorem ofContent_marksLines_assigned : ∃ marker,
    ((ofContent (some fun _ => .parsed assignedTree) 1 assignedText).markersOf true)[0]? = some marker ∧
    marker.highlight? = some ⟨"AssignmentExpression", 2, 13, "s = 'é//';"⟩ ∧
    marker.IsOn (some assignedTree) (Text.lines assignedText.toList) := by
  have hmarker : ((ofContent (some fun _ => .parsed assignedTree) 1 assignedText).markersOf true)[0]? =
      some ⟨3, "text", true, 0, some ⟨"AssignmentExpression", 2, 13, "s = 'é//';"⟩⟩ := by
    decide +kernel
  exact ⟨_, hmarker, rfl, (ofContent_marksLines _ 1 assignedText true 0 _ hmarker).2.2.1⟩

end Exemplar.Example
