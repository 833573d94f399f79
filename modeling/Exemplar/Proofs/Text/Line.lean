import Exemplar.Text.Basic

/-!
# Counting lines

A text has one line for each of its newlines, and one more if something stands after the last of them.
It follows that the lines of a part, put behind the newlines before that part, are never more than the
lines of the whole.
-/

namespace Exemplar.Text

/-- Something stands after the last newline. -/
def endsOpen (cs : List Char) : Bool :=
  cs.getLast?.any (· != '\n')

/-- How a text ends is decided by its last part, unless that is empty. -/
theorem endsOpen_append (before : List Char) {after : List Char} (h : after ≠ []) :
    endsOpen (before ++ after) = endsOpen after := by
  rw [endsOpen, endsOpen, List.getLast?_append, List.getLast?_eq_some_getLast h, Option.some_or]

/-! ### Rows -/

theorem rows_cons (c : Char) (cs : List Char) : rows (c :: cs) = consRow c (rows cs) := rfl

theorem rows_ne_nil (cs : List Char) : rows cs ≠ [] := by
  cases cs with
  | nil => simp [rows]
  | cons c cs =>
    rw [rows_cons]
    cases rows cs <;> simp only [consRow] <;> split <;> simp

theorem length_rows (cs : List Char) : (rows cs).length = cs.count '\n' + 1 := by
  induction cs with
  | nil => rfl
  | cons c cs ih =>
    obtain ⟨row, others, hrows⟩ := List.exists_cons_of_ne_nil (rows_ne_nil cs)
    rw [hrows] at ih
    by_cases hc : c = '\n'
    · simpa [rows_cons, hrows, consRow, hc] using ih
    · simpa [rows_cons, hrows, consRow, hc] using ih

/-- A text with a single row has no newline, so what it ends with is no newline either. -/
private theorem endsOpen_of_count_eq_zero (c : Char) (cs : List Char)
    (none : (c :: cs).count '\n' = 0) : endsOpen (c :: cs) = true := by
  have hlast : (c :: cs).getLast (List.cons_ne_nil c cs) ≠ '\n' := by
    intro h
    exact List.count_eq_zero.mp none (h ▸ List.getLast_mem _)
  simpa [endsOpen, List.getLast?_eq_some_getLast] using hlast

/-- The last row is empty unless something stands after the last newline. -/
theorem isEmpty_lastRow (cs : List Char) :
    ((rows cs).getLast?.getD []).isEmpty = !endsOpen cs := by
  induction cs with
  | nil => rfl
  | cons c cs ih =>
    obtain ⟨row, others, hrows⟩ := List.exists_cons_of_ne_nil (rows_ne_nil cs)
    have hlength := length_rows cs
    rw [hrows] at ih hlength
    by_cases hc : c = '\n'
    -- A newline starts a row of its own in front of the others.
    · cases cs with
      | nil => subst hc; rfl
      | cons d cs => simpa [rows_cons, hrows, consRow, hc, endsOpen] using ih
    -- Another character joins the first row, which is the last one if there is no newline behind it.
    · rw [rows_cons, hrows, consRow, if_neg hc]
      cases others with
      | nil =>
        have hcount : (c :: cs).count '\n' = 0 := by
          simpa [hc] using hlength
        rw [endsOpen_of_count_eq_zero c cs hcount]
        rfl
      | cons other others =>
        cases cs with
        | nil => simp at hlength
        | cons d cs => simpa [endsOpen] using ih

/-! ### Lines -/

theorem length_lines (cs : List Char) :
    (lines cs).length = cs.count '\n' + if endsOpen cs then 1 else 0 := by
  have hrows := length_rows cs
  have hlast := isEmpty_lastRow cs
  simp only [lines, List.length_append, List.length_map, List.length_dropLast, hrows]
  cases hopen : endsOpen cs with
  | true => simp_all
  | false => simp_all

theorem length_lines_le (cs : List Char) : (lines cs).length ≤ cs.count '\n' + 1 := by
  rw [length_lines]
  split <;> omega

/-- Behind an open end there is a newline, or the end stays open. -/
private theorem count_add_endsOpen_pos (middle after : List Char) (h : endsOpen middle = true) :
    0 < after.count '\n' + if endsOpen (middle ++ after) then 1 else 0 := by
  cases after with
  | nil => simp [h]
  | cons c after =>
    rw [endsOpen_append middle (List.cons_ne_nil c after)]
    by_cases hcount : (c :: after).count '\n' = 0
    · simp [endsOpen_of_count_eq_zero c after hcount]
    · omega

/-- The lines of a part come after the newlines before it, and all of them are lines of the whole. -/
theorem count_add_length_lines_le (before middle after : List Char) :
    before.count '\n' + (lines middle).length ≤ (lines (before ++ middle ++ after)).length := by
  rw [length_lines, length_lines, List.count_append, List.count_append]
  cases hopen : endsOpen middle with
  | false => simp; omega
  | true =>
    -- The last line of the part is open. In the whole it is closed by a newline behind the part, or it is the
    -- open end of the whole; either way it counts once.
    have hmiddle : middle ≠ [] := by
      rintro rfl
      cases hopen
    have hwhole : endsOpen (before ++ middle) = true := by
      rw [endsOpen_append before hmiddle, hopen]
    have hend := count_add_endsOpen_pos (before ++ middle) after hwhole
    simp only [if_true]
    omega

end Exemplar.Text
