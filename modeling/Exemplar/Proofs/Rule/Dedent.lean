import Exemplar.Proofs.Text.Join
import Exemplar.Rule.Basic
import Mathlib.Data.List.DropRight
import Mathlib.Data.List.Forall2
import Mathlib.Order.Bounds.Basic

/-!
# What common indentation is

The lines of an example between its blank ends keep their text: from each that is not blank the same number of
spaces and tabs is taken, as many as the line has that starts with the fewest of them. That line then starts
with something else. So nothing more is taken the second time, and the lines are the same ones again.

A blank line may have fewer bytes than are taken, or others: there may be a longer character where the cut would be.
Whatever is taken from it, it stays blank.
-/

namespace Exemplar.Rule

open Text (isBlankText joinLines lines)

variable {cs line kept : List Char} {ls body : List (List Char)} {n : Nat}

/-! ### Blank ends -/

/-- The lines from the first to the last one that is not blank. -/
structure BodyOf (ls body : List (List Char)) : Prop where
  split : ∃ front back, ls = front ++ body ++ back ∧ ∀ line ∈ front ++ back, isBlankText line = true
  first : ∀ line, body.head? = some line → isBlankText line = false
  last : ∀ line, body.getLast? = some line → isBlankText line = false

theorem bodyOf_dropBlankEnds (ls : List (List Char)) : BodyOf ls (dropBlankEnds ls) := by
  have hbody : dropBlankEnds ls = (ls.dropWhile isBlankText).rdropWhile isBlankText := rfl
  constructor
  · refine ⟨ls.takeWhile isBlankText, (ls.dropWhile isBlankText).rtakeWhile isBlankText, ?_, fun line h => ?_⟩
    · rw [hbody, List.append_assoc, List.rdropWhile_append_rtakeWhile, List.takeWhile_append_dropWhile]
    · rcases List.mem_append.mp h with h | h
      · exact List.mem_takeWhile_imp h
      · exact List.mem_rtakeWhile_imp h
  · intro line hline
    -- The body starts where the blank lines in front end.
    obtain ⟨rest, hrest⟩ := List.rdropWhile_prefix isBlankText (ls.dropWhile isBlankText)
    have hhead : (ls.dropWhile isBlankText).head? = some line := by
      rw [← hrest, ← hbody, List.head?_append, hline, Option.some_or]
    have hstop := List.head?_dropWhile_not isBlankText ls
    rw [hhead] at hstop
    simpa using hstop
  · intro line hline
    have hnonempty : dropBlankEnds ls ≠ [] := by
      intro h
      rw [h] at hline
      cases hline
    have hlast := List.rdropWhile_last_not isBlankText (ls.dropWhile isBlankText) hnonempty
    rw [List.getLast?_eq_some_getLast hnonempty] at hline
    obtain rfl := Option.some.inj hline
    exact Bool.eq_false_iff.mpr hlast

namespace BodyOf

theorem mem_iff (h : BodyOf ls body) (text : isBlankText line = false) : line ∈ body ↔ line ∈ ls := by
  obtain ⟨front, back, rfl, blank⟩ := h.split
  constructor
  · intro hmem
    exact List.mem_append_left back (List.mem_append_right front hmem)
  · intro hmem
    have hother : line ∉ front ++ back := by
      intro hline
      rw [blank line hline] at text
      cases text
    simp only [List.mem_append, not_or] at hmem hother
    rcases hmem with (hfront | hbody) | hback
    · exact absurd hfront hother.1
    · exact hbody
    · exact absurd hback hother.2

theorem subset (h : BodyOf ls body) : body ⊆ ls := by
  obtain ⟨front, back, rfl, -⟩ := h.split
  exact fun line hline => List.mem_append_left back (List.mem_append_right front hline)

theorem eq_nil_iff (h : BodyOf ls body) : body = [] ↔ ls.all isBlankText = true := by
  obtain ⟨front, back, rfl, blank⟩ := h.split
  constructor
  · rintro rfl
    rw [List.append_nil, List.all_eq_true]
    exact blank
  · intro hall
    cases body with
    | nil => rfl
    | cons line body =>
      have hline := List.all_eq_true.mp hall line (by simp)
      rw [h.first line rfl] at hline
      cases hline

end BodyOf

theorem dropBlankEnds_eq_self (first : ∀ line, ls.head? = some line → isBlankText line = false)
    (last : ∀ line, ls.getLast? = some line → isBlankText line = false) : dropBlankEnds ls = ls := by
  have hfront : ls.dropWhile isBlankText = ls := by
    cases ls with
    | nil => rfl
    | cons line ls => exact List.dropWhile_cons_of_neg (by rw [first line rfl]; exact Bool.false_ne_true)
  have hbody : dropBlankEnds ls = ls.rdropWhile isBlankText := by
    rw [dropBlankEnds, hfront]
    rfl
  rw [hbody, List.rdropWhile_eq_self_iff]
  intro nonempty
  rw [last _ (List.getLast?_eq_some_getLast nonempty)]
  exact Bool.false_ne_true

/-! ### Common indentation -/

/-- What the lines that are not blank are indented by. -/
def indentations (ls : List (List Char)) : Set Nat :=
  {n | ∃ line ∈ ls, isBlankText line = false ∧ indentation line = n}

theorem isLeast_commonIndentation (some : ls.all isBlankText = false) :
    IsLeast (indentations ls) (commonIndentation ls) := by
  have hmem (n : Nat) : n ∈ (ls.filter (!isBlankText ·)).map indentation ↔ n ∈ indentations ls := by
    simp [indentations, and_assoc]
  obtain ⟨line, hline, hblank⟩ := List.all_eq_false.mp some
  have hnonempty : (ls.filter (!isBlankText ·)).map indentation ≠ [] :=
    List.ne_nil_of_mem ((hmem _).mpr ⟨line, hline, by simpa using hblank, rfl⟩)
  obtain ⟨least, hleast⟩ := Option.isSome_iff_exists.mp (List.isSome_min?_iff.mpr hnonempty)
  rw [commonIndentation, hleast, Option.getD_some]
  exact ⟨(hmem least).mp (List.min?_mem hleast),
    fun n hn => (List.min?_eq_some_iff.mp hleast).2 n ((hmem n).mpr hn)⟩

/-! ### Outdented lines -/

section Indent

variable {indent : List Char} (chars : ∀ c ∈ indent, c = ' ' ∨ c = '\t')
include chars

theorem isBlankText_indent : isBlankText indent = true := by
  refine List.all_eq_true.mpr fun c hc => ?_
  rcases chars c hc with rfl | rfl <;> rfl

theorem byteSize_indent : Text.byteSize indent = indent.length := by
  induction indent with
  | nil => rfl
  | cons c indent ih =>
    have hc : c.utf8Size = 1 := by
      rcases chars c List.mem_cons_self with rfl | rfl <;> rfl
    rw [Text.byteSize_cons, hc, ih fun d hd => chars d (List.mem_cons_of_mem c hd), List.length_cons,
      Nat.add_comm]

theorem outdent_append (rest : List Char) : outdent indent.length (indent ++ rest) = rest := by
  rw [outdent, ← byteSize_indent chars, Text.cut?_byteSize]

theorem indentation_append (rest : List Char) :
    indentation (indent ++ rest) = indent.length + indentation rest := by
  have hchars : ∀ c ∈ indent, (c == ' ' || c == '\t') = true := by simpa using chars
  rw [indentation, List.takeWhile_append_of_pos hchars, List.length_append]
  rfl

end Indent

theorem exists_indent (h : n ≤ indentation line) :
    ∃ indent rest, line = indent ++ rest ∧ indent.length = n ∧ ∀ c ∈ indent, c = ' ' ∨ c = '\t' := by
  refine ⟨line.take n, line.drop n, (List.take_append_drop n line).symm, ?_, fun c hc => ?_⟩
  · exact List.length_take_of_le (h.trans (List.takeWhile_prefix _).length_le)
  · -- The first characters of the line are the first ones of its indentation.
    obtain ⟨rest, hrest⟩ := List.takeWhile_prefix (l := line) fun c => c == ' ' || c == '\t'
    rw [← hrest, List.take_append_of_le_length h] at hc
    simpa using List.mem_takeWhile_imp (List.mem_of_mem_take hc)

theorem outdent_suffix (n : Nat) (line : List Char) : outdent n line <:+ line := by
  rw [outdent]
  split
  next before rest hcut => exact ⟨before, (Text.append_of_cut? hcut).1.symm⟩
  next => exact List.dropWhile_suffix _

theorem head?_of_indentation_eq_zero (h : indentation line = 0) :
    line.head? ≠ some ' ' ∧ line.head? ≠ some '\t' := by
  cases line with
  | nil => simp
  | cons c line =>
    rw [List.head?_cons]
    refine ⟨?_, ?_⟩ <;> rintro ⟨rfl⟩ <;> simp [indentation] at h

/-- What is kept of a line when `n` spaces and tabs are taken from its start. A blank line stays blank. -/
inductive Outdented (n : Nat) : (line kept : List Char) → Prop
  | blank {line kept : List Char} (was : isBlankText line = true) (stays : isBlankText kept = true) :
      Outdented n line kept
  | text {indent kept : List Char} (length : indent.length = n) (chars : ∀ c ∈ indent, c = ' ' ∨ c = '\t')
      (text : isBlankText (indent ++ kept) = false) : Outdented n (indent ++ kept) kept

namespace Outdented

theorem isBlankText_eq (h : Outdented n line kept) : isBlankText kept = isBlankText line := by
  cases h with
  | blank was stays => rw [was, stays]
  | @text indent kept length chars text =>
    have hindent : indent.all Text.isBlank = true := isBlankText_indent chars
    rw [isBlankText, isBlankText, List.all_append, hindent, Bool.true_and]

theorem indentation_eq (h : Outdented n line kept) (text : isBlankText line = false) :
    indentation line = n + indentation kept := by
  cases h with
  | blank was =>
    rw [was] at text
    cases text
  | text length chars => rw [indentation_append chars, length]

end Outdented

/-- If a line that is not blank is indented by that much, nothing but spaces and tabs is taken from it. -/
theorem outdented_outdent (h : isBlankText line = false → n ≤ indentation line) :
    Outdented n line (outdent n line) := by
  cases hblank : isBlankText line with
  | true =>
    refine .blank hblank (List.all_eq_true.mpr fun c hc => ?_)
    exact List.all_eq_true.mp hblank c ((outdent_suffix n line).subset hc)
  | false =>
    obtain ⟨indent, rest, rfl, rfl, chars⟩ := exists_indent (h hblank)
    rw [outdent_append chars]
    exact .text rfl chars hblank

theorem outdent_zero (line : List Char) : outdent 0 line = line := by
  cases line <;> rfl

/-! ### The lines that are left -/

/-- The lines of a text between its blank ends. -/
def bodyLines (cs : List Char) : List (List Char) :=
  dropBlankEnds (lines cs)

/-- What all of these lines that are not blank are indented by at least. -/
def margin (cs : List Char) : Nat :=
  commonIndentation (bodyLines cs)

/-- The lines that are left of a text. -/
def outdentedLines (cs : List Char) : List (List Char) :=
  (bodyLines cs).map (outdent (margin cs))

theorem dedent_eq (cs : List Char) : dedent cs = joinLines (outdentedLines cs) := rfl

theorem bodyOf_bodyLines (cs : List Char) : BodyOf (lines cs) (bodyLines cs) :=
  bodyOf_dropBlankEnds (lines cs)

theorem bodyLines_eq_nil_iff : bodyLines cs = [] ↔ isBlankText cs = true := by
  rw [(bodyOf_bodyLines cs).eq_nil_iff, Text.all_isBlankText_lines]

theorem isLeast_margin (text : isBlankText cs = false) : IsLeast (indentations (bodyLines cs)) (margin cs) := by
  refine isLeast_commonIndentation (Bool.eq_false_iff.mpr fun hall => ?_)
  -- The first line of the body is not blank.
  have hnonempty : bodyLines cs ≠ [] := by
    rw [Ne, bodyLines_eq_nil_iff, text]
    exact Bool.false_ne_true
  obtain ⟨line, rest, hbody⟩ := List.exists_cons_of_ne_nil hnonempty
  have hline := List.all_eq_true.mp hall line (by rw [hbody]; exact List.mem_cons_self)
  rw [(bodyOf_bodyLines cs).first line (by rw [hbody]; rfl)] at hline
  cases hline

theorem outdented_of_mem (h : line ∈ bodyLines cs) : Outdented (margin cs) line (outdent (margin cs) line) := by
  refine outdented_outdent fun text => ?_
  have hsome : (bodyLines cs).all isBlankText = false :=
    List.all_eq_false.mpr ⟨line, h, by rw [text]; exact Bool.false_ne_true⟩
  exact (isLeast_commonIndentation hsome).2 ⟨line, h, text, rfl⟩

theorem outdented_bodyLines (cs : List Char) :
    List.Forall₂ (Outdented (margin cs)) (bodyLines cs) (outdentedLines cs) := by
  rw [outdentedLines, List.forall₂_map_right_iff, List.forall₂_same]
  exact fun line hline => outdented_of_mem hline

theorem head?_outdentedLines (h : (outdentedLines cs).head? = some kept) : isBlankText kept = false := by
  rw [outdentedLines, List.head?_map] at h
  obtain ⟨line, hline, rfl⟩ := Option.map_eq_some_iff.mp h
  rw [(outdented_of_mem (List.mem_of_head? hline)).isBlankText_eq]
  exact (bodyOf_bodyLines cs).first line hline

theorem getLast?_outdentedLines (h : (outdentedLines cs).getLast? = some kept) : isBlankText kept = false := by
  rw [outdentedLines, List.getLast?_map] at h
  obtain ⟨line, hline, rfl⟩ := Option.map_eq_some_iff.mp h
  rw [(outdented_of_mem (List.mem_of_getLast? hline)).isBlankText_eq]
  exact (bodyOf_bodyLines cs).last line hline

/-- A line with the smallest indentation has none of it left. -/
theorem exists_flush (text : isBlankText cs = false) :
    ∃ line ∈ outdentedLines cs, isBlankText line = false ∧ indentation line = 0 := by
  obtain ⟨⟨line, hline, hblank, hmargin⟩, -⟩ := isLeast_margin text
  have outdented := outdented_of_mem hline
  have hleft := outdented.indentation_eq hblank
  exact ⟨_, List.mem_map_of_mem hline, outdented.isBlankText_eq.trans hblank, by omega⟩

/-! ### Reading the result -/

theorem lines_dedent (free : '\r' ∉ cs) : lines (dedent cs) = outdentedLines cs := by
  refine Text.lines_joinLines (fun kept hkept => ?_) fun kept hlast => ?_
  · obtain ⟨line, hline, rfl⟩ := List.mem_map.mp hkept
    have hchars : ∀ c ∈ outdent (margin cs) line, c ∈ cs ∧ c ≠ '\n' := by
      intro c hc
      exact Text.mem_of_mem_lines ((bodyOf_bodyLines cs).subset hline) c ((outdent_suffix _ line).subset hc)
    exact ⟨fun hnewline => (hchars _ hnewline).2 rfl, fun hreturn => free (hchars _ hreturn).1⟩
  · rintro rfl
    have hblank := getLast?_outdentedLines hlast
    cases hblank

theorem dedent_eq_nil_iff (free : '\r' ∉ cs) : dedent cs = [] ↔ isBlankText cs = true := by
  constructor
  · intro h
    have hlines := lines_dedent free
    rw [h] at hlines
    exact bodyLines_eq_nil_iff.mp (List.map_eq_nil_iff.mp hlines.symm)
  · intro blank
    rw [dedent_eq, outdentedLines, bodyLines_eq_nil_iff.mpr blank]
    rfl

theorem bodyLines_dedent (free : '\r' ∉ cs) (text : isBlankText cs = false) :
    bodyLines (dedent cs) = outdentedLines cs ∧ margin (dedent cs) = 0 := by
  have hbody : bodyLines (dedent cs) = outdentedLines cs := by
    rw [bodyLines, lines_dedent free]
    exact dropBlankEnds_eq_self (fun _ => head?_outdentedLines) (fun _ => getLast?_outdentedLines)
  obtain ⟨line, hline, hblank, hflush⟩ := exists_flush text
  have hsome : isBlankText (dedent cs) = false := by
    rw [Bool.eq_false_iff, Ne, ← bodyLines_eq_nil_iff, hbody]
    exact List.ne_nil_of_mem hline
  have hzero : IsLeast (indentations (bodyLines (dedent cs))) 0 :=
    ⟨⟨line, hbody ▸ hline, hblank, hflush⟩, fun n _ => Nat.zero_le n⟩
  exact ⟨hbody, (isLeast_margin hsome).unique hzero⟩

theorem dedent_dedent (free : '\r' ∉ cs) : dedent (dedent cs) = dedent cs := by
  cases hblank : isBlankText cs with
  | true =>
    rw [(dedent_eq_nil_iff free).mpr hblank]
    rfl
  | false =>
    obtain ⟨hbody, hmargin⟩ := bodyLines_dedent free hblank
    rw [dedent_eq (dedent cs), outdentedLines, hbody, hmargin, funext outdent_zero, List.map_id', ← dedent_eq]

/-- Nothing is left of a text without carriage returns if it is blank. Otherwise its lines from the first to the last
one that is not blank are left: those that are not blank without as many spaces and tabs as each of them starts with,
the others still blank. Some line then starts with neither, and nothing changes the second time. -/
theorem dedent_outdents (free : '\r' ∉ cs) :
    (dedent cs = [] ↔ isBlankText cs = true) ∧
    (isBlankText cs = false → ∃ body k, BodyOf (lines cs) body ∧ body ≠ [] ∧
      IsLeast (indentations (lines cs)) k ∧ List.Forall₂ (Outdented k) body (lines (dedent cs)) ∧
      ∃ line ∈ lines (dedent cs), isBlankText line = false ∧ line.head? ≠ some ' ' ∧ line.head? ≠ some '\t') ∧
    dedent (dedent cs) = dedent cs := by
  refine ⟨dedent_eq_nil_iff free, fun text => ?_, dedent_dedent free⟩
  have hnonempty : bodyLines cs ≠ [] := by
    rw [Ne, bodyLines_eq_nil_iff, text]
    exact Bool.false_ne_true
  -- Lines outside of the body are blank, so they have no say in what the indentation is.
  have hindentations : indentations (lines cs) = indentations (bodyLines cs) := by
    ext n
    refine exists_congr fun line => ?_
    constructor
    · rintro ⟨hline, hblank, hn⟩
      exact ⟨((bodyOf_bodyLines cs).mem_iff hblank).mpr hline, hblank, hn⟩
    · rintro ⟨hline, hrest⟩
      exact ⟨(bodyOf_bodyLines cs).subset hline, hrest⟩
  obtain ⟨line, hline, hblank, hflush⟩ := exists_flush text
  refine ⟨bodyLines cs, margin cs, bodyOf_bodyLines cs, hnonempty, hindentations ▸ isLeast_margin text, ?_, line, ?_,
    hblank, ?_⟩
  · rw [lines_dedent free]
    exact outdented_bodyLines cs
  · rwa [lines_dedent free]
  · exact head?_of_indentation_eq_zero hflush

/-- Two lines that share a tab and a space. The blank line between them has a longer character where they are cut. -/
def indentedText : String :=
  "\n\t  a\n \u3000\n\t b\n"

/-- The first line keeps a space, and nothing is left of the second one. -/
theorem dedent_indentedText :
    ('\r' ∉ indentedText.toList ∧ isBlankText indentedText.toList = false) ∧
      dedent indentedText.toList = " a\n\nb".toList ∧
      (∃ body k, BodyOf (lines indentedText.toList) body ∧ IsLeast (indentations (lines indentedText.toList)) k ∧
        List.Forall₂ (Outdented k) body [" a".toList, [], "b".toList]) ∧
      dedent " a\n\nb".toList = " a\n\nb".toList := by
  have free : '\r' ∉ indentedText.toList := by decide +kernel
  have text : isBlankText indentedText.toList = false := by decide +kernel
  have hdedent : dedent indentedText.toList = " a\n\nb".toList := by decide +kernel
  have hlines : lines " a\n\nb".toList = [" a".toList, [], "b".toList] := by decide +kernel
  obtain ⟨-, hrest, hagain⟩ := dedent_outdents free
  obtain ⟨body, k, hbody, -, hleast, houtdented, -⟩ := hrest text
  rw [hdedent, hlines] at houtdented
  rw [hdedent] at hagain
  exact ⟨⟨free, text⟩, hdedent, ⟨body, k, hbody, hleast, houtdented⟩, hagain⟩

end Exemplar.Rule
