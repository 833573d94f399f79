import Exemplar.Proofs.Text.Line
import Mathlib.Data.List.Induction

/-!
# Lines of a part

A line of a part of a text is part of a line of the text, as many lines further down as there are newlines
before the part. The first and the last line of the part may go on beyond it, the others are lines of the text
as they are.
-/

namespace Exemplar.Text

/-! ### Rows -/

/-- In front of the last row there is one for each newline. -/
theorem length_of_rows_eq_append {cs last : List Char} {init : List (List Char)} (h : rows cs = init ++ [last]) :
    init.length = cs.count '\n' := by
  have hrows := length_rows cs
  rw [h, List.length_append, List.length_singleton] at hrows
  omega

/-- Two texts meet in a row: the last one of the first text goes on with the first one of the second. -/
theorem rows_append (as bs : List Char) :
    ∃ init last row rest, rows as = init ++ [last] ∧ rows bs = row :: rest ∧
      rows (as ++ bs) = init ++ (last ++ row) :: rest := by
  obtain ⟨row, rest, hbs⟩ := List.exists_cons_of_ne_nil (rows_ne_nil bs)
  induction as with
  | nil => exact ⟨[], [], row, rest, rfl, hbs, hbs⟩
  | cons c as ih =>
    obtain ⟨init, last, row', rest', has, hbs', happend⟩ := ih
    obtain ⟨rfl, rfl⟩ := List.cons.inj (hbs'.symm.trans hbs)
    rw [List.cons_append, rows_cons, rows_cons, has, happend]
    by_cases hc : c = '\n'
    · refine ⟨[] :: init, last, row', rest', ?_, hbs, ?_⟩ <;> cases init <;> simp [consRow, hc]
    · cases init with
      | nil => exact ⟨[], c :: last, row', rest', by simp [consRow, hc], hbs, by simp [consRow, hc]⟩
      | cons first init =>
        exact ⟨(c :: first) :: init, last, row', rest', by simp [consRow, hc], hbs,
          by simp [consRow, hc]⟩

/-- What comes before a text moves its rows on, and only the first one grows. -/
theorem exists_row_of_append_left (before : List Char) {cs row : List Char} {i : Nat}
    (h : (rows cs)[i]? = some row) :
    ∃ front, (rows (before ++ cs))[before.count '\n' + i]? = some (front ++ row) := by
  obtain ⟨init, last, first, rest, hbefore, hcs, happend⟩ := rows_append before cs
  have hlength : init.length = before.count '\n' := length_of_rows_eq_append hbefore
  rw [happend, ← hlength, List.getElem?_append_right (Nat.le_add_right _ _), Nat.add_sub_cancel_left]
  rw [hcs] at h
  cases i with
  | zero => exact ⟨last, by simpa using h⟩
  | succ i => exact ⟨[], by simpa using h⟩

/-- What comes behind a text changes none of its rows but the last one, which may go on. -/
theorem exists_row_of_append_right (after : List Char) {cs row : List Char} {i : Nat}
    (h : (rows cs)[i]? = some row) :
    ∃ back, (rows (cs ++ after))[i]? = some (row ++ back) ∧ (i < cs.count '\n' → back = []) := by
  obtain ⟨init, last, first, rest, hcs, -, happend⟩ := rows_append cs after
  have hlength : init.length = cs.count '\n' := length_of_rows_eq_append hcs
  rw [hcs] at h
  rw [happend]
  by_cases hi : i < init.length
  · rw [List.getElem?_append_left hi] at h
    exact ⟨[], by rw [List.getElem?_append_left hi, h, List.append_nil], fun _ => rfl⟩
  · have hge := Nat.le_of_not_lt hi
    rw [List.getElem?_append_right hge] at h
    obtain ⟨hzero, rfl⟩ : i - init.length = 0 ∧ last = row := by
      cases hindex : i - init.length with
      | zero => simpa [hindex] using h
      | succ k => simp [hindex] at h
    refine ⟨first, ?_, by omega⟩
    rw [List.getElem?_append_right hge, hzero]
    rfl

/-! ### Lines -/

/-- A line is a row without its carriage return, or the last row if that is not empty. -/
theorem getElem?_lines_eq_some_iff {cs line : List Char} {i : Nat} :
    (lines cs)[i]? = some line ↔ ∃ row, (rows cs)[i]? = some row ∧
      (i < cs.count '\n' ∧ line = dropReturn row ∨ i = cs.count '\n' ∧ row ≠ [] ∧ line = row) := by
  obtain ⟨init, last, hrows⟩ : ∃ init last, rows cs = init ++ [last] :=
    ⟨_, _, (List.dropLast_concat_getLast (rows_ne_nil cs)).symm⟩
  have hlength : init.length = cs.count '\n' := length_of_rows_eq_append hrows
  have hlines : lines cs = init.map dropReturn ++ if last.isEmpty then [] else [last] := by
    simp [lines, hrows]
  rw [hlines, hrows, ← hlength]
  rcases Nat.lt_trichotomy i init.length with hi | rfl | hi
  · rw [List.getElem?_append_left (by simpa using hi), List.getElem?_append_left hi, List.getElem?_map,
      List.getElem?_eq_getElem hi]
    simp [hi, Nat.ne_of_lt hi, eq_comm]
  · rw [List.getElem?_append_right (by simp), List.getElem?_append_right (Nat.le_refl _)]
    cases last <;> simp [eq_comm]
  · rw [List.getElem?_eq_none (by simp; split <;> simp <;> omega), List.getElem?_eq_none (by simp; omega)]
    simp

theorem dropReturn_append (front : List Char) {back : List Char} (nonempty : back ≠ []) :
    dropReturn (front ++ back) = front ++ dropReturn back := by
  rw [dropReturn, dropReturn, List.getLast?_append, List.getLast?_eq_some_getLast nonempty, Option.some_or]
  split
  · rw [List.dropLast_append_of_ne_nil nonempty]
  · rfl

theorem dropReturn_of_getLast?_ne {row : List Char} (h : row.getLast? ≠ some '\r') :
    dropReturn row = row := by
  rw [dropReturn, if_neg h]

theorem dropReturn_isPrefix (row : List Char) : dropReturn row <+: row := by
  rw [dropReturn]
  split
  · exact List.dropLast_prefix row
  · exact List.prefix_refl row

theorem dropReturn_infix (front row : List Char) : dropReturn row <:+: dropReturn (front ++ row) := by
  by_cases nonempty : row = []
  · subst nonempty
    exact List.nil_infix
  · rw [dropReturn_append front nonempty]
    exact (List.suffix_append _ _).isInfix

/-- The last row ends as the text does, unless it is empty. -/
theorem getLast?_lastRow {cs row : List Char} (h : (rows cs)[cs.count '\n']? = some row)
    (nonempty : row ≠ []) : row.getLast? = cs.getLast? := by
  rcases List.eq_nil_or_concat cs with rfl | ⟨cs, c, rfl⟩
  · obtain rfl := Option.some.inj h
    exact absurd rfl nonempty
  · obtain ⟨init, last, first, rest, hcs, hc, happend⟩ := rows_append cs [c]
    have hlength : init.length = cs.count '\n' := length_of_rows_eq_append hcs
    rw [List.concat_eq_append, happend] at h
    by_cases hnewline : c = '\n'
    · subst hnewline
      obtain ⟨rfl, rfl⟩ := List.cons.inj hc.symm
      simp [← hlength] at h
      exact absurd h nonempty
    · rw [rows_cons] at hc
      simp only [rows, List.foldr_nil, consRow, hnewline, if_false] at hc
      obtain ⟨rfl, rfl⟩ := List.cons.inj hc.symm
      simp [hnewline, ← hlength] at h
      simp [← h]

/-- A line of a part of a text is part of a line of the text: of the one that comes as many lines later as there
are newlines before the part. Only a carriage return at the very end of the part could get lost. -/
theorem exists_line_of_part (before : List Char) {middle line : List Char} (after : List Char) {i : Nat}
    (h : (lines middle)[i]? = some line) (ends : middle.getLast? ≠ some '\r') :
    ∃ whole, (lines (before ++ middle ++ after))[before.count '\n' + i]? = some whole ∧
      line <:+: whole := by
  obtain ⟨row, hrow, hline⟩ := getElem?_lines_eq_some_iff.mp h
  obtain ⟨front, hfront⟩ := exists_row_of_append_left before hrow
  obtain ⟨back, hback, hinner⟩ := exists_row_of_append_right after hfront
  have hcount : (before ++ middle).count '\n' = before.count '\n' + middle.count '\n' :=
    List.count_append
  have hwhole : (before ++ middle ++ after).count '\n' =
      before.count '\n' + middle.count '\n' + after.count '\n' := by
    rw [List.count_append, hcount]
  rcases hline with ⟨hi, rfl⟩ | ⟨rfl, nonempty, rfl⟩
  -- The row is closed in the part already.
  · obtain rfl := hinner (by omega)
    rw [List.append_nil] at hback
    exact ⟨dropReturn (front ++ row), getElem?_lines_eq_some_iff.mpr ⟨_, hback, Or.inl ⟨by omega, rfl⟩⟩,
      dropReturn_infix front row⟩
  -- It is the last row of the part, and may go on behind it.
  have hmiddle : middle ≠ [] := by
    rintro rfl
    exact nonempty (Option.some.inj hrow).symm
  · by_cases hlast : after.count '\n' = 0
    · refine ⟨front ++ line ++ back, getElem?_lines_eq_some_iff.mpr ⟨_, hback, Or.inr ⟨by omega, ?_, rfl⟩⟩,
        ⟨front, back, rfl⟩⟩
      simp [nonempty]
    · refine ⟨dropReturn (front ++ line ++ back),
        getElem?_lines_eq_some_iff.mpr ⟨_, hback, Or.inl ⟨by omega, rfl⟩⟩, ?_⟩
      by_cases hback : back = []
      · rw [hback, List.append_nil, dropReturn_of_getLast?_ne]
        · exact (List.suffix_append _ _).isInfix
        · have hend := List.getLast?_eq_some_getLast hmiddle
          rw [List.getLast?_append, getLast?_lastRow hrow nonempty, hend, Option.some_or, ← hend]
          exact ends
      · rw [dropReturn_append _ hback]
        exact ⟨front, _, rfl⟩

/-! ### What stands in one line -/

theorem prefix_of_rows {cs row : List Char} {rest : List (List Char)} (h : rows cs = row :: rest) :
    row <+: cs := by
  induction cs generalizing row rest with
  | nil =>
    obtain ⟨rfl, -⟩ := List.cons.inj h.symm
    exact List.nil_prefix
  | cons c cs ih =>
    obtain ⟨first, others, hcs⟩ := List.exists_cons_of_ne_nil (rows_ne_nil cs)
    rw [rows_cons, hcs] at h
    by_cases hc : c = '\n'
    · rw [consRow, if_pos hc] at h
      obtain ⟨rfl, -⟩ := List.cons.inj h.symm
      exact List.nil_prefix
    · rw [consRow, if_neg hc] at h
      obtain ⟨rfl, -⟩ := List.cons.inj h.symm
      exact List.cons_prefix_cons.mpr ⟨rfl, ih hcs⟩

theorem suffix_of_rows {cs last : List Char} {init : List (List Char)} (h : rows cs = init ++ [last]) :
    last <:+ cs := by
  induction cs using List.reverseRecOn generalizing init last with
  | nil =>
    have hnil : [] ++ [[]] = init ++ [last] := h
    obtain ⟨-, hlast⟩ := List.append_inj' hnil rfl
    obtain rfl := (List.cons.inj hlast).1
    exact List.nil_suffix
  | append_singleton cs c ih =>
    obtain ⟨init', last', row, rest, hcs, hc, happend⟩ := rows_append cs [c]
    rw [happend] at h
    by_cases hnewline : c = '\n'
    · -- Behind a newline the last row is empty.
      subst hnewline
      obtain ⟨rfl, rfl⟩ := List.cons.inj (hc : [[], []] = row :: rest)
      have hlast := congrArg List.getLast? h
      simp at hlast
      rw [hlast]
      exact List.nil_suffix
    · have hsingle : rows [c] = [[c]] := by simp [rows, consRow, hnewline]
      obtain ⟨rfl, rfl⟩ := List.cons.inj (hsingle.symm.trans hc)
      obtain ⟨-, hlast⟩ := List.append_inj' h rfl
      rw [← (List.cons.inj hlast).1]
      obtain ⟨front, hfront⟩ := ih hcs
      exact ⟨front, by rw [← hfront, List.append_assoc]⟩

theorem rows_of_not_mem {cs : List Char} (h : '\n' ∉ cs) : rows cs = [cs] := by
  induction cs with
  | nil => rfl
  | cons c cs ih =>
    obtain ⟨hc, hcs⟩ := not_or.mp (List.mem_cons.not.mp h)
    rw [rows_cons, ih hcs, consRow, if_neg fun hnewline => hc hnewline.symm]

/-- A part without newlines stands in one line, between an end of what is before it and a beginning of what is
behind it. -/
theorem exists_line_around (before : List Char) {middle : List Char} (after : List Char)
    (free : '\n' ∉ middle) (nonempty : middle ≠ []) (ends : middle.getLast? ≠ some '\r') :
    ∃ front back, (lines (before ++ middle ++ after))[before.count '\n']? = some (front ++ middle ++ back) ∧
      front <:+ before ∧ back <+: after := by
  -- The row of the part goes on to both sides up to the next newlines.
  obtain ⟨init, last, first, rest, hbefore, hmiddle, happend⟩ := rows_append before middle
  obtain ⟨rfl, rfl⟩ := List.cons.inj ((rows_of_not_mem free).symm.trans hmiddle)
  obtain ⟨init', last', row, more, hwhole, hafter, happend'⟩ := rows_append (before ++ middle) after
  obtain ⟨rfl, hlast⟩ := List.append_inj' (happend.symm.trans hwhole) rfl
  obtain ⟨rfl, -⟩ := List.cons.inj hlast
  have hlength : init.length = before.count '\n' := length_of_rows_eq_append hbefore
  have hrow : (rows (before ++ middle ++ after))[before.count '\n']? = some (last ++ middle ++ row) := by
    rw [happend', ← hlength, List.getElem?_append_right (Nat.le_refl _), Nat.sub_self]
    rfl
  have hcount : (before ++ middle ++ after).count '\n' = before.count '\n' + after.count '\n' := by
    rw [List.count_append, List.count_append, List.count_eq_zero.mpr free, Nat.add_zero]
  have hsuffix := suffix_of_rows hbefore
  have hprefix := prefix_of_rows hafter
  by_cases hopen : after.count '\n' = 0
  · -- The row is the last one.
    refine ⟨last, row, getElem?_lines_eq_some_iff.mpr ⟨_, hrow, Or.inr ⟨by omega, ?_, rfl⟩⟩, hsuffix, hprefix⟩
    simp [nonempty]
  · have hline := getElem?_lines_eq_some_iff.mpr ⟨_, hrow, Or.inl ⟨by omega, rfl⟩⟩
    by_cases hback : row = []
    · rw [hback, List.append_nil, dropReturn_of_getLast?_ne] at hline
      · exact ⟨last, [], by rwa [List.append_nil], hsuffix, List.nil_prefix⟩
      · rw [List.getLast?_append, List.getLast?_eq_some_getLast nonempty, Option.some_or]
        rwa [← List.getLast?_eq_some_getLast nonempty]
    · rw [dropReturn_append _ hback] at hline
      refine ⟨last, dropReturn row, hline, hsuffix, ?_⟩
      exact (dropReturn_isPrefix row).trans hprefix

end Exemplar.Text
