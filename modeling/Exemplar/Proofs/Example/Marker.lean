import Exemplar.Example.Basic
import Exemplar.Proofs.Example.Comment
import Exemplar.Proofs.Text.Search
import Mathlib.Data.List.Forall2

/-!
# How the lines of an example are classified

Both ways to mark code go over the lines once. Inline markers come one by one from the lines with a glyph, each
with a look at the lines below it. Sections are read with the open one in hand; what is left of that is again one
marker for each header, with a look at the lines down to the next header. So either way the markers are in the order
of the lines that they come from, and no line with code under a header is lost or counted twice.
-/

namespace Exemplar.Example

variable {lines before after : List (List Char)} {line : List Char} {i : Nat} {isViolation : Bool}

/-! ### What is said about the lines -/

/-- Line `i`, counted from 0, passes a test. -/
def PassesAt (test : List Char → Bool) (lines : List (List Char)) (i : Nat) : Prop :=
  ∃ line, lines[i]? = some line ∧ test line = true

/-- Line `j` is the first one from line `i` on that passes a test. -/
structure IsFirst (test : List Char → Bool) (lines : List (List Char)) (i j : Nat) : Prop where
  le : i ≤ j
  passes : PassesAt test lines j
  first : ∀ k, i ≤ k → k < j → ¬ PassesAt test lines k

/-- The comment of a line holds a glyph. -/
def isMarked (line : List Char) : Bool :=
  (splitComment line).2.any fun comment => comment.contains violationGlyph || comment.contains validGlyph

/-- The comment of a line holds the glyph of a violation, or only the other one. -/
def isMarkedAs (isViolation : Bool) (line : List Char) : Bool :=
  isMarked line && (splitComment line).2.any (·.contains violationGlyph) == isViolation

/-- A comment on line `i` speaks of the first line with code from there on, which may be its own, or else of its own
line. -/
inductive SpeaksOf (lines : List (List Char)) (i : Nat) : Nat → Prop
  | code {j : Nat} (first : IsFirst hasCode lines i j) : SpeaksOf lines i j
  | nothing (below : ∀ j, i ≤ j → ¬ PassesAt hasCode lines j) : SpeaksOf lines i i

/-- A line that opens a section. -/
def isHeader (line : List Char) : Bool :=
  (sectionHeader? line).isSome

def isHeaderOf (isViolation : Bool) (line : List Char) : Bool :=
  (sectionHeader? line).any (·.1 == isViolation)

/-- The section with its header on line `i` is on its first line with code, or else on the line of its header. It
goes down to the next header. -/
inductive SectionOn (lines : List (List Char)) (i : Nat) : Nat → Prop
  | code {j : Nat} (first : IsFirst hasCode lines (i + 1) j)
      (inside : ∀ k, i < k → k < j → ¬ PassesAt isHeader lines k) : SectionOn lines i j
  | empty (apart : ∀ j, i < j → PassesAt hasCode lines j → ∃ k, i < k ∧ k < j ∧ PassesAt isHeader lines k) :
      SectionOn lines i i

/-- What the last header above line `i` says. -/
def headerAbove? (lines : List (List Char)) (i : Nat) : Option (Bool × List Char) :=
  ((lines.take i).filterMap sectionHeader?).getLast?

/-- The markers of one sort. -/
def markersOf (ex : Example) (isViolation : Bool) : List Marker :=
  if isViolation then ex.violationMarkers else ex.validMarkers

/-- The code that is classified as one sort. -/
def codeOfSort (ex : Example) (isViolation : Bool) : List String :=
  if isViolation then ex.violations else ex.valids

/-- The code of a line, as it is classified. -/
def codeText (line : List Char) : String :=
  String.ofList (codeOf line)

/-- The lines with glyphs have one marker each, in their order, and the code that is classified is the code of the
lines that the markers speak of. -/
structure ClassifiedInline (lines : List (List Char)) (ex : Example) : Prop where
  markers (isViolation : Bool) : List.Forall₂
    (fun i marker => marker.isViolation = isViolation ∧ ∃ j, SpeaksOf lines i j ∧ marker.line = j + 1)
    (lines.findIdxs (isMarkedAs isViolation)) (ex.markersOf isViolation)
  code (isViolation : Bool) : ex.codeOfSort isViolation =
    (lines.findIdxs (isMarkedAs isViolation)).filterMap fun i => ((lines.drop i).find? hasCode).map codeText

/-- The headers have one marker each, in their order, and the code that is classified is the code of all lines below
the first header, in their order, each by the last header above it. -/
structure ClassifiedBySections (lines : List (List Char)) (ex : Example) : Prop where
  markers (isViolation : Bool) : List.Forall₂
    (fun i marker => marker.isViolation = isViolation ∧ ∃ j, SectionOn lines i j ∧ marker.line = j + 1)
    (lines.findIdxs (isHeaderOf isViolation)) (ex.markersOf isViolation)
  code (isViolation : Bool) : ex.codeOfSort isViolation =
    (lines.zipIdx.filter fun numbered =>
      hasCode numbered.1 && (headerAbove? lines numbered.2).any (·.1 == isViolation)).map (codeText ·.1)

/-! ### First lines -/

theorem isFirst_of_findIdx? {test : List Char → Bool} {k : Nat} (h : (lines.drop i).findIdx? test = some k) :
    IsFirst test lines i (i + k) := by
  obtain ⟨hk, hpasses, hfirst⟩ := List.findIdx?_eq_some_iff_getElem.mp h
  refine ⟨Nat.le_add_right i k, ⟨(lines.drop i)[k], ?_, hpasses⟩, fun m hm hlt hpass => ?_⟩
  · rw [← List.getElem?_drop, List.getElem?_eq_getElem hk]
  · obtain ⟨line, hline, htest⟩ := hpass
    obtain ⟨d, rfl⟩ := Nat.exists_eq_add_of_le hm
    have hd : d < k := by omega
    rw [← List.getElem?_drop, List.getElem?_eq_getElem (hd.trans hk), Option.some.injEq] at hline
    exact hfirst d hd (hline ▸ htest)

theorem not_passesAt_of_findIdx? {test : List Char → Bool} (h : (lines.drop i).findIdx? test = none) {j : Nat}
    (hj : i ≤ j) : ¬ PassesAt test lines j := by
  rintro ⟨line, hline, htest⟩
  obtain ⟨d, rfl⟩ := Nat.exists_eq_add_of_le hj
  rw [← List.getElem?_drop] at hline
  have hnone := List.findIdx?_eq_none_iff.mp h line (List.mem_of_getElem? hline)
  rw [hnone] at htest
  cases htest

/-! ### Markers line by line -/

/-- What is found on each line, given the lines below it. -/
def collectFrom (found? : Nat → List Char → List (List Char) → Option Marked) (index : Nat) :
    List (List Char) → List Marked
  | [] => []
  | line :: after => (found? index line after).toList ++ collectFrom found? (index + 1) after

/-- Markers found on the lines that pass a test are in the order of these lines. -/
theorem forall₂_collectFrom {found? : Nat → List Char → List (List Char) → Option Marked}
    {test : List Char → Bool} {keep : Marked → Bool} {R : Nat → Marked → Prop}
    (hfound : ∀ before line after, lines = before ++ line :: after →
      List.Forall₂ R (if test line then [before.length] else [])
        ((found? before.length line after).toList.filter keep)) :
    List.Forall₂ R (lines.findIdxs test) ((collectFrom found? 0 lines).filter keep) := by
  -- By the lines that are still to come, with those above them to say where they are.
  suffices hrest : ∀ before rest, lines = before ++ rest →
      List.Forall₂ R (rest.findIdxs test before.length) ((collectFrom found? before.length rest).filter keep) from
    hrest [] lines rfl
  intro before rest
  induction rest generalizing before with
  | nil => exact fun _ => .nil
  | cons line after ih =>
    intro hlines
    have hbelow := ih (before ++ [line]) (by rw [hlines, List.append_assoc, List.singleton_append])
    rw [List.length_append, List.length_singleton] at hbelow
    have hsplit : (line :: after).findIdxs test before.length =
        (if test line then [before.length] else []) ++ after.findIdxs test (before.length + 1) := by
      rw [List.findIdxs_cons]
      split <;> rfl
    rw [hsplit, collectFrom, List.filter_append]
    exact List.rel_append (hfound before line after hlines) hbelow

/-! ### Inline markers -/

/-- The glyph of a violation decides, if there is one. -/
theorem glyphOf?_sort (comment : List Char) : (glyphOf? comment).map Prod.fst =
    if comment.contains violationGlyph || comment.contains validGlyph then some (comment.contains violationGlyph)
    else none := by
  have hviolation := Text.isSome_splitOnce? violationGlyph comment
  have hvalid := Text.isSome_splitOnce? validGlyph comment
  rw [glyphOf?, ← hviolation, ← hvalid]
  cases Text.splitOnce? violationGlyph comment with
  | some _ => rfl
  | none => cases Text.splitOnce? validGlyph comment <;> rfl

theorem inlineMarkersFrom_eq (index : Nat) (lines : List (List Char)) :
    inlineMarkersFrom index lines = collectFrom inlineMarker? index lines := by
  induction lines generalizing index with
  | nil => rfl
  | cons line after ih => rw [inlineMarkersFrom, collectFrom, ih]

theorem targetLine_eq (i : Nat) (line : List Char) (after : List (List Char)) :
    targetLine i line after = (((line :: after).findIdx? hasCode).map (i + ·)).getD i := by
  rw [targetLine, List.findIdx?_cons]
  split
  · rfl
  · cases after.findIdx? hasCode with
    | none => rfl
    | some k => exact Nat.add_right_comm i 1 k

theorem speaksOf_targetLine (h : lines.drop i = line :: after) : SpeaksOf lines i (targetLine i line after) := by
  rw [targetLine_eq, ← h]
  cases hfirst : (lines.drop i).findIdx? hasCode with
  | some k => exact .code (isFirst_of_findIdx? hfirst)
  | none => exact .nothing fun j hj => not_passesAt_of_findIdx? hfirst hj

/-- An inline marker has the code of the line that it speaks of. -/
theorem code_targetLine (i : Nat) (line : List Char) (after : List (List Char)) :
    (if (codeOf (((line :: after)[targetLine i line after - i]?).getD [])).isEmpty then []
      else [codeText (((line :: after)[targetLine i line after - i]?).getD [])]) =
    (((line :: after).find? hasCode).map codeText).toList := by
  rw [targetLine_eq, List.find?_eq_bind_findIdx?_getElem?]
  cases hfirst : (line :: after).findIdx? hasCode with
  | some k =>
    obtain ⟨hk, hcode, -⟩ := List.findIdx?_eq_some_iff_getElem.mp hfirst
    rw [hasCode, Bool.not_eq_true'] at hcode
    rw [Option.map_some, Option.getD_some, Nat.add_sub_cancel_left, Option.bind_some]
    simp [List.getElem?_eq_getElem hk, hcode]
  | none =>
    have hline := List.findIdx?_eq_none_iff.mp hfirst line List.mem_cons_self
    rw [hasCode, Bool.not_eq_false'] at hline
    simp [hline]

theorem inlineMarker?_eq_none (h : isMarked line = false) (i : Nat) (after : List (List Char)) :
    inlineMarker? i line after = none := by
  rw [isMarked] at h
  rw [inlineMarker?]
  cases hcomment : (splitComment line).2 with
  | none => rfl
  | some comment =>
    have hsort := glyphOf?_sort comment
    rw [hcomment, Option.any_some] at h
    rw [h, if_neg Bool.false_ne_true, Option.map_eq_none_iff] at hsort
    simp [hsort]

theorem exists_inlineMarker? (h : isMarked line = true) (i : Nat) (after : List (List Char)) :
    ∃ marked, inlineMarker? i line after = some marked ∧ isMarkedAs marked.marker.isViolation line = true ∧
      marked.marker.line = targetLine i line after + 1 ∧
      marked.code = (((line :: after).find? hasCode).map codeText).toList := by
  have hmarked := h
  rw [isMarked, Option.any_eq_true] at h
  obtain ⟨comment, hcomment, hglyph⟩ := h
  have hsort := glyphOf?_sort comment
  rw [if_pos hglyph] at hsort
  obtain ⟨⟨isViolation, description⟩, hfound, rfl⟩ := Option.map_eq_some_iff.mp hsort
  refine ⟨_, by rw [inlineMarker?, hcomment, Option.bind_eq_bind, Option.bind_some, hfound]; rfl, ?_, rfl,
    code_targetLine i line after⟩
  simp [isMarkedAs, hmarked, hcomment]

/-- The inline markers of one sort are those of the lines marked as that. -/
theorem forall₂_inlineMarkers (lines : List (List Char)) (isViolation : Bool) :
    List.Forall₂ (fun i marked => marked.marker.isViolation = isViolation ∧
        (∃ j, SpeaksOf lines i j ∧ marked.marker.line = j + 1) ∧
        marked.code = (((lines.drop i).find? hasCode).map codeText).toList)
      (lines.findIdxs (isMarkedAs isViolation))
      ((inlineMarkers lines).filter (·.marker.isViolation == isViolation)) := by
  rw [inlineMarkers, inlineMarkersFrom_eq]
  refine forall₂_collectFrom fun before line after hlines => ?_
  have hdrop : lines.drop before.length = line :: after := by rw [hlines, List.drop_left]
  cases hmarked : isMarked line with
  | false =>
    rw [inlineMarker?_eq_none hmarked, isMarkedAs, hmarked]
    exact .nil
  | true =>
    obtain ⟨marked, hfound, hsort, hline, hcode⟩ := exists_inlineMarker? hmarked before.length after
    rw [hfound, Option.toList_some]
    -- The line is of the sort that its marker is of, so both are kept or neither.
    have hsame : isMarkedAs isViolation line = (marked.marker.isViolation == isViolation) := by
      rw [isMarkedAs, hmarked, Bool.true_and, beq_iff_eq] at hsort
      rw [isMarkedAs, hmarked, Bool.true_and, hsort]
    cases hkeep : marked.marker.isViolation == isViolation with
    | false => simp [hsame, hkeep]
    | true =>
      rw [hsame, List.filter_cons, hkeep]
      refine .cons ⟨beq_iff_eq.mp hkeep, ⟨_, speaksOf_targetLine hdrop, hline⟩, ?_⟩ .nil
      rw [hdrop, hcode]

/-! ### Sections -/

/-- In front of the slashes of a header there is nothing but white space. -/
theorem hasCode_of_isHeader (h : isHeader line = true) : hasCode line = false := by
  obtain ⟨header, hheader⟩ := Option.isSome_iff_exists.mp h
  rw [sectionHeader?] at hheader
  obtain ⟨rest, hopening, -⟩ := Option.bind_eq_some_iff.mp hheader
  have hline : line = line.takeWhile Text.isBlank ++ '/' :: '/' :: rest := by
    have hstart := List.append_eq_of_isPrefixOf?_eq_some hopening
    conv_lhs => rw [← List.takeWhile_append_dropWhile (p := Text.isBlank) (l := line)]
    rw [← Text.trimStart, ← hstart]
    rfl
  have hblank : ∀ c ∈ line.takeWhile Text.isBlank, Text.isBlank c = true := fun c hc =>
    List.all_eq_true.mp List.all_takeWhile c hc
  have hplain : ∀ c ∈ line.takeWhile Text.isBlank, c ≠ '\'' ∧ c ≠ '/' := by
    intro c hc
    constructor <;> rintro rfl <;> exact absurd (hblank _ hc) (by decide)
  -- Neither white space nor the slashes open a string, so the comment starts at the slashes.
  have hcode : codeOf line = [] := by
    have htrim := Text.trim_append_blank hblank (List.forall_mem_nil _) []
    rw [List.append_nil] at htrim
    rw [codeOf, hline, passesOver_plain hplain]
    exact htrim
  rw [hasCode, hcode]
  rfl

/-- A section with the lines with code among those from line `index` on. -/
def Marked.addLines (marked : Marked) (index : Nat) : List (List Char) → Marked
  | [] => marked
  | line :: after =>
    (if hasCode line then marked.addLine index (codeOf line) else marked).addLines (index + 1) after

/-- The section that a line opens, with the lines down to the next header. -/
def sectionOn? (index : Nat) (line : List Char) (after : List (List Char)) : Option Marked :=
  (sectionHeader? line).map fun header =>
    Marked.addLines ⟨⟨index + 1, String.ofList header.2, header.1, 0, none⟩, []⟩ (index + 1)
      (after.takeWhile (!isHeader ·))

/-- The open section ends in front of the next header, and the others do not depend on it. -/
theorem sectionsFrom_some (marked : Marked) (index : Nat) (lines : List (List Char)) :
    sectionsFrom (some marked) index lines =
      marked.addLines index (lines.takeWhile (!isHeader ·)) :: sectionsFrom none index lines := by
  induction lines generalizing marked index with
  | nil => rfl
  | cons line after ih =>
    cases hheader : sectionHeader? line with
    | some header => simp [sectionsFrom, hheader, isHeader, Marked.addLines]
    | none =>
      have hcode : (codeOf line).isEmpty = !hasCode line := by rw [hasCode, Bool.not_not]
      cases hline : hasCode line <;>
        simp [sectionsFrom, hheader, isHeader, Marked.addLines, hcode, hline, ih]

theorem sectionsFrom_none (index : Nat) (lines : List (List Char)) :
    sectionsFrom none index lines = collectFrom sectionOn? index lines := by
  induction lines generalizing index with
  | nil => rfl
  | cons line after ih =>
    cases hheader : sectionHeader? line with
    | some header => simp [sectionsFrom, collectFrom, sectionOn?, hheader, sectionsFrom_some, ih]
    | none => simp [sectionsFrom, collectFrom, sectionOn?, hheader, ih]

theorem marker_addLines (marked : Marked) (index : Nat) (lines : List (List Char)) :
    (marked.addLines index lines).marker =
      if marked.code.isEmpty then
        { marked.marker with line := ((lines.findIdx? hasCode).map (index + · + 1)).getD marked.marker.line }
      else marked.marker := by
  induction lines generalizing marked index with
  | nil => simp [Marked.addLines]
  | cons line after ih =>
    rw [Marked.addLines, ih, List.findIdx?_cons]
    cases hline : hasCode line with
    | true => simp [Marked.addLine]
    | false =>
      have hnext (k : Nat) : index + 1 + k + 1 = index + (k + 1) + 1 := by omega
      simp [Option.map_map, Function.comp_def, hnext]

/-- Among the lines below a header, those down to the next one decide where the section is. -/
theorem sectionOn_findIdx? (h : lines.drop (i + 1) = after) :
    SectionOn lines i ((((after.takeWhile (!isHeader ·)).findIdx? hasCode).map (i + 1 + ·)).getD i) := by
  have hsplit := List.takeWhile_append_dropWhile (p := (!isHeader ·)) (l := after)
  have hbody : ∀ line ∈ after.takeWhile (!isHeader ·), isHeader line = false := fun line hline => by
    simpa using List.all_eq_true.mp List.all_takeWhile line hline
  have hnext := List.head?_dropWhile_not (!isHeader ·) after
  generalize after.takeWhile (!isHeader ·) = body at hsplit hbody ⊢
  generalize after.dropWhile (!isHeader ·) = rest at hsplit hnext
  -- Lines below the header by their places in its section and behind it.
  have hat (d : Nat) : lines[i + 1 + d]? = (body ++ rest)[d]? := by rw [← List.getElem?_drop, h, hsplit]
  cases hfirst : body.findIdx? hasCode with
  | some k =>
    obtain ⟨hk, -⟩ := List.findIdx?_eq_some_iff_getElem.mp hfirst
    have hdrop : (lines.drop (i + 1)).findIdx? hasCode = some k := by
      rw [h, ← hsplit, List.findIdx?_append, hfirst, Option.some_or]
    refine .code (isFirst_of_findIdx? hdrop) ?_
    rintro m hm (hlt : m < i + 1 + k) ⟨line, hline, hheader⟩
    obtain ⟨d, rfl⟩ := Nat.exists_eq_add_of_lt hm
    rw [Nat.add_right_comm i d 1, hat, List.getElem?_append_left (by omega)] at hline
    simp [hbody line (List.mem_of_getElem? hline)] at hheader
  | none =>
    refine .empty ?_
    rintro j hj ⟨line, hline, hcode⟩
    obtain ⟨d, rfl⟩ := Nat.exists_eq_add_of_lt hj
    rw [Nat.add_right_comm i d 1] at hline ⊢
    rw [hat] at hline
    -- The code is behind the section, so there is a header in front of it.
    have hbehind : body.length ≤ d := by
      by_contra hinside
      rw [List.getElem?_append_left (by omega)] at hline
      rw [List.findIdx?_eq_none_iff.mp hfirst line (List.mem_of_getElem? hline)] at hcode
      cases hcode
    rw [List.getElem?_append_right hbehind] at hline
    cases rest with
    | nil => simp at hline
    | cons next rest =>
      have hheader : isHeader next = true := by simpa using hnext
      have hapart : d ≠ body.length := by
        rintro rfl
        rw [Nat.sub_self, List.getElem?_cons_zero, Option.some.injEq] at hline
        subst hline
        rw [hasCode_of_isHeader hheader] at hcode
        cases hcode
      exact ⟨i + 1 + body.length, by omega, by omega, next, by simp [hat], hheader⟩

/-- The sections of one sort are those of the headers of that sort. -/
theorem forall₂_sections (lines : List (List Char)) (isViolation : Bool) :
    List.Forall₂ (fun i marked => marked.marker.isViolation = isViolation ∧
        ∃ j, SectionOn lines i j ∧ marked.marker.line = j + 1)
      (lines.findIdxs (isHeaderOf isViolation))
      ((sections lines).filter (·.marker.isViolation == isViolation)) := by
  rw [sections, sectionsFrom_none]
  refine forall₂_collectFrom fun before line after hlines => ?_
  have hdrop : lines.drop (before.length + 1) = after := by
    rw [hlines, ← List.drop_drop, List.drop_left]
    rfl
  rw [isHeaderOf, sectionOn?]
  cases hheader : sectionHeader? line with
  | none => exact .nil
  | some header =>
    rw [Option.map_some, Option.toList_some, Option.any_some, List.filter_cons, marker_addLines]
    cases hkeep : header.1 == isViolation with
    | false => simp [hkeep]
    | true =>
      simp only [List.isEmpty_nil, if_true, hkeep, List.filter_nil]
      refine .cons ⟨?_, _, sectionOn_findIdx? hdrop, ?_⟩ .nil
      · rw [marker_addLines]
        exact beq_iff_eq.mp hkeep
      · rw [marker_addLines]
        cases (after.takeWhile (!isHeader ·)).findIdx? hasCode <;> rfl

/-! ### Code under headers -/

theorem classified_append (first more : List Marked) (isViolation : Bool) :
    classified (first ++ more) isViolation = classified first isViolation ++ classified more isViolation := by
  simp [classified]

theorem classified_singleton (marked : Marked) (isViolation : Bool) :
    classified [marked] isViolation = if marked.marker.isViolation == isViolation then marked.code else [] := by
  rw [classified, List.filter_cons]
  split <;> simp

/-- The code of the lines from line `index` on, each by the last header above it. -/
def codeUnder (isViolation : Bool) (lines : List (List Char)) (index : Nat) (rest : List (List Char)) : List String :=
  ((rest.zipIdx index).filter fun numbered =>
    hasCode numbered.1 && (headerAbove? lines numbered.2).any (·.1 == isViolation)).map (codeText ·.1)

theorem headerAbove?_append (before rest : List (List Char)) :
    headerAbove? (before ++ rest) before.length = (before.filterMap sectionHeader?).getLast? := by
  rw [headerAbove?, List.take_left]

theorem codeUnder_cons (isViolation : Bool) (lines : List (List Char)) (index : Nat) (line : List Char)
    (after : List (List Char)) : codeUnder isViolation lines index (line :: after) =
      (if hasCode line && (headerAbove? lines index).any (·.1 == isViolation) then [codeText line] else []) ++
        codeUnder isViolation lines (index + 1) after := by
  rw [codeUnder, List.zipIdx_cons, List.filter_cons]
  split <;> simp [codeUnder, *]

/-- A line joins the open section, if there is one, under the header of that section. -/
theorem classified_addLine (current : Option Marked) (index : Nat) (line : List Char) (isViolation : Bool) :
    classified (current.map (·.addLine index (codeOf line))).toList isViolation =
      classified current.toList isViolation ++
        if current.any (·.marker.isViolation == isViolation) then [codeText line] else [] := by
  cases current with
  | none => rfl
  | some marked =>
    have hsort : (marked.addLine index (codeOf line)).marker.isViolation = marked.marker.isViolation := by
      rw [Marked.addLine]
      split <;> rfl
    rw [Option.map_some, Option.toList_some, Option.toList_some, classified_singleton, classified_singleton, hsort,
      Option.any_some]
    split <;> rfl

/-- What is classified is what the open section has already, and the code of the lines to come. -/
theorem classified_sectionsFrom (isViolation : Bool) (before rest : List (List Char)) (current : Option Marked)
    (hcurrent : (headerAbove? (before ++ rest) before.length).map Prod.fst = current.map (·.marker.isViolation)) :
    classified (sectionsFrom current before.length rest) isViolation =
      classified current.toList isViolation ++ codeUnder isViolation (before ++ rest) before.length rest := by
  -- By the lines that are still to come. The invariant is that the open section is of the last header above them.
  induction rest generalizing before current with
  | nil => simp [sectionsFrom, codeUnder]
  | cons line after ih =>
    have hnext : headerAbove? (before ++ line :: after) (before.length + 1) =
        (sectionHeader? line).or (headerAbove? (before ++ line :: after) before.length) := by
      have habove := headerAbove?_append (before ++ [line]) after
      rw [← List.append_cons, List.length_append, List.length_singleton] at habove
      rw [habove, headerAbove?_append, List.filterMap_append, List.getLast?_append]
      cases hheader : sectionHeader? line <;> simp [hheader]
    have hbelow := ih (before ++ [line])
    rw [← List.append_cons, List.length_append, List.length_singleton, hnext] at hbelow
    rw [codeUnder_cons]
    cases hheader : sectionHeader? line with
    | some header =>
      -- The open section ends here, and the header is no code itself.
      have hcode : hasCode line = false := hasCode_of_isHeader (by rw [isHeader, hheader]; rfl)
      rw [hheader] at hbelow
      rw [sectionsFrom, hheader, hcode]
      dsimp only
      rw [classified_append, hbelow _ rfl]
      simp [classified]
    | none =>
      rw [hheader, Option.none_or] at hbelow
      have hsort : (headerAbove? (before ++ line :: after) before.length).any (·.1 == isViolation) =
          current.any (·.marker.isViolation == isViolation) := by
        have hany := congrArg (Option.any (· == isViolation)) hcurrent
        rwa [Option.any_map, Option.any_map] at hany
      rw [sectionsFrom, hheader]
      dsimp only
      cases hcode : hasCode line with
      | false =>
        rw [hasCode, Bool.not_eq_false'] at hcode
        rw [if_pos hcode, hbelow _ hcurrent]
        rfl
      | true =>
        rw [hasCode, Bool.not_eq_true'] at hcode
        -- A line does not change of which sort the section is.
        have hkept : (current.map (·.addLine before.length (codeOf line))).map (·.marker.isViolation) =
            current.map (·.marker.isViolation) := by
          rw [Option.map_map]
          congr 1
          funext marked
          rw [Function.comp_apply, Marked.addLine]
          split <;> rfl
        rw [if_neg (by simp [hcode]), hbelow _ (hcurrent.trans hkept.symm), classified_addLine, hsort, Bool.true_and,
          List.append_assoc]

/-! ### Examples -/

/-- A marker of an example, with what the tree of its code adds to it. -/
def annotated (lines : List (List Char)) (root? : Option Code.Node) (marked : Marked) : Marker :=
  match root? with
  | some root => marked.marker.locate lines root
  | none => marked.marker

@[simp] theorem line_annotated (lines : List (List Char)) (root? : Option Code.Node) (marked : Marked) :
    (annotated lines root? marked).line = marked.marker.line := by
  cases root? <;> rfl

@[simp] theorem isViolation_annotated (lines : List (List Char)) (root? : Option Code.Node) (marked : Marked) :
    (annotated lines root? marked).isViolation = marked.marker.isViolation := by
  cases root? <;> rfl

/-- The tree of an example's code, which is only asked for where there is something to mark. -/
def rootOf? (reader? : Option Code.Reader) (content : String) : Option Code.Node :=
  reader?.bind fun read => if (markers (Text.lines content.toList)).isEmpty then none else (read content).root?

theorem markersOf_ofContent (reader? : Option Code.Reader) (index : Nat) (content : String) (isViolation : Bool) :
    (ofContent reader? index content).markersOf isViolation =
      numbered ((markers (Text.lines content.toList)).map
        (annotated (Text.lines content.toList) (rootOf? reader? content))) isViolation := by
  cases isViolation <;> rfl

theorem codeOfSort_ofContent (reader? : Option Code.Reader) (index : Nat) (content : String) (isViolation : Bool) :
    (ofContent reader? index content).codeOfSort isViolation =
      classified (markers (Text.lines content.toList)) isViolation := by
  cases isViolation <;> rfl

/-- The tree and the numbers leave markers at their lines, in their order. -/
theorem forall₂_numbered {R : Nat → Nat → Prop} {places : List Nat} {marked : List Marked}
    (root? : Option Code.Node)
    (h : List.Forall₂ (fun i m => m.marker.isViolation = isViolation ∧ ∃ j, R i j ∧ m.marker.line = j + 1)
      places (marked.filter (·.marker.isViolation == isViolation))) :
    List.Forall₂ (fun i marker => marker.isViolation = isViolation ∧ ∃ j, R i j ∧ marker.line = j + 1)
      places (numbered (marked.map (annotated lines root?)) isViolation) := by
  have hkeep : (fun marker : Marker => marker.isViolation == isViolation) ∘ annotated lines root? =
      fun m : Marked => m.marker.isViolation == isViolation := by
    funext m
    rw [Function.comp_apply, isViolation_annotated]
  rw [numbered, List.filter_map, hkeep, List.zipIdx_map, List.map_map]
  rw [← List.zipIdx_map_fst 0 (marked.filter _), List.forall₂_map_right_iff] at h
  rw [List.forall₂_map_right_iff]
  exact h.imp fun i m hm => by simpa using hm

/-- There are inline markers where a comment has a glyph. -/
theorem isEmpty_inlineMarkersFrom (index : Nat) (lines : List (List Char)) :
    (inlineMarkersFrom index lines).isEmpty = !lines.any isMarked := by
  induction lines generalizing index with
  | nil => rfl
  | cons line after ih =>
    rw [inlineMarkersFrom, List.any_cons]
    cases hmarked : isMarked line with
    | false => rw [inlineMarker?_eq_none hmarked, Option.toList_none, List.nil_append, ih, Bool.false_or]
    | true =>
      obtain ⟨marked, hfound, -⟩ := exists_inlineMarker? hmarked index after
      rw [hfound]
      rfl

/-- Headers mean nothing next to a glyph. -/
theorem markers_eq (lines : List (List Char)) :
    markers lines = if lines.any isMarked then inlineMarkers lines else sections lines := by
  have hempty := isEmpty_inlineMarkersFrom 0 lines
  rw [markers, inlineMarkers]
  cases hany : lines.any isMarked with
  | false =>
    rw [hany, Bool.not_false, List.isEmpty_iff] at hempty
    rw [hempty]
    rfl
  | true =>
    rw [hany, Bool.not_true] at hempty
    cases hinline : inlineMarkersFrom 0 lines with
    | nil => simp [hinline] at hempty
    | cons marked more => rfl

/-- Where each marker has the code of one place at most, they have the code of the places. -/
theorem flatten_code {places : List Nat} {marked : List Marked} {code? : Nat → Option String}
    (h : List.Forall₂ (fun i m => m.code = (code? i).toList) places marked) :
    (marked.map Marked.code).flatten = places.filterMap code? := by
  induction h with
  | nil => rfl
  | @cons i m _ _ hcode _ ih =>
    rw [List.map_cons, List.flatten_cons, ih, hcode, List.filterMap_cons]
    cases code? i <;> rfl

/-- Every line with a glyph has its marker if there are any, and else every header and every line with code below
one has its place. -/
theorem ofContent_classifies (reader? : Option Code.Reader) (index : Nat) (content : String) :
    if (Text.lines content.toList).any isMarked then
      ClassifiedInline (Text.lines content.toList) (ofContent reader? index content)
    else ClassifiedBySections (Text.lines content.toList) (ofContent reader? index content) := by
  have hmarkers := markers_eq (Text.lines content.toList)
  split at hmarkers
  case isTrue hmarked =>
    rw [if_pos hmarked]
    refine ⟨fun isViolation => ?_, fun isViolation => ?_⟩
    · rw [markersOf_ofContent, hmarkers]
      exact forall₂_numbered _ ((forall₂_inlineMarkers _ isViolation).imp fun _ _ h => ⟨h.1, h.2.1⟩)
    · rw [codeOfSort_ofContent, hmarkers, classified]
      exact flatten_code ((forall₂_inlineMarkers _ isViolation).imp fun _ _ h => h.2.2)
  case isFalse hmarked =>
    rw [if_neg hmarked]
    refine ⟨fun isViolation => ?_, fun isViolation => ?_⟩
    · rw [markersOf_ofContent, hmarkers]
      exact forall₂_numbered _ (forall₂_sections _ isViolation)
    · rw [codeOfSort_ofContent, hmarkers]
      exact classified_sectionsFrom isViolation [] (Text.lines content.toList) none rfl

end Exemplar.Example
