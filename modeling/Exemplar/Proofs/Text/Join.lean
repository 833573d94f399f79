import Exemplar.Proofs.Text.Part

/-!
# Lines put together

Lines that are put together with newlines are the lines of the text that comes out, unless the last one is empty:
that one would be no line. What a text has besides line endings it has in its lines, so that it is blank if
all of them are.
-/

namespace Exemplar.Text

variable {cs row line : List Char} {ls : List (List Char)}

/-! ### What is in lines -/

theorem mem_of_mem_rows (h : row ∈ rows cs) : ∀ c ∈ row, c ∈ cs ∧ c ≠ '\n' := by
  induction cs generalizing row with
  | nil =>
    obtain rfl := List.mem_singleton.mp h
    simp
  | cons d cs ih =>
    intro c hc
    have later {row : List Char} (h : row ∈ rows cs) (hc : c ∈ row) : c ∈ d :: cs ∧ c ≠ '\n' :=
      (ih h c hc).imp_left (List.mem_cons_of_mem d)
    obtain ⟨first, others, hrows⟩ := List.exists_cons_of_ne_nil (rows_ne_nil cs)
    rw [rows_cons, hrows] at h
    -- A newline stands in no row, any other character in the first one.
    by_cases hd : d = '\n'
    · rw [consRow, if_pos hd] at h
      rcases List.mem_cons.mp h with rfl | h
      · cases hc
      · exact later (hrows ▸ h) hc
    · rw [consRow, if_neg hd] at h
      rcases List.mem_cons.mp h with rfl | h
      · rcases List.mem_cons.mp hc with rfl | hc
        · exact ⟨List.mem_cons_self, hd⟩
        · exact later (hrows ▸ List.mem_cons_self) hc
      · exact later (hrows ▸ List.mem_cons_of_mem first h) hc

theorem mem_of_mem_lines (h : line ∈ lines cs) : ∀ c ∈ line, c ∈ cs ∧ c ≠ '\n' := by
  obtain ⟨i, hi⟩ := List.mem_iff_getElem?.mp h
  obtain ⟨row, hrow, hline⟩ := getElem?_lines_eq_some_iff.mp hi
  have part : line <+: row := by
    rcases hline with ⟨-, rfl⟩ | ⟨-, -, rfl⟩
    · exact dropReturn_isPrefix row
    · exact List.prefix_refl line
  exact fun c hc => mem_of_mem_rows (List.mem_of_getElem? hrow) c (part.subset hc)

theorem all_isBlankText_rows (cs : List Char) : (rows cs).all isBlankText = isBlankText cs := by
  induction cs with
  | nil => rfl
  | cons c cs ih =>
    obtain ⟨first, others, hrows⟩ := List.exists_cons_of_ne_nil (rows_ne_nil cs)
    have hcons : isBlankText (c :: cs) = (isBlank c && isBlankText cs) := List.all_cons
    rw [hcons, ← ih, rows_cons, hrows]
    by_cases hc : c = '\n'
    · subst hc
      rfl
    · rw [consRow, if_neg hc, List.all_cons, List.all_cons, ← Bool.and_assoc]
      rfl

theorem isBlankText_dropReturn (row : List Char) : isBlankText (dropReturn row) = isBlankText row := by
  rw [dropReturn]
  split
  next hlast =>
    obtain ⟨front, rfl⟩ := List.getLast?_eq_some_iff.mp hlast
    have hreturn : ['\r'].all isBlank = true := rfl
    rw [List.dropLast_concat, isBlankText, isBlankText, List.all_append, hreturn, Bool.and_true]
  next => rfl

/-- A text is blank if its lines are. -/
theorem all_isBlankText_lines (cs : List Char) : (lines cs).all isBlankText = isBlankText cs := by
  obtain ⟨init, last, hrows⟩ : ∃ init last, rows cs = init ++ [last] :=
    ⟨_, _, (List.dropLast_concat_getLast (rows_ne_nil cs)).symm⟩
  have hinit : (init.map dropReturn).all isBlankText = init.all isBlankText := by
    rw [List.all_map]
    exact congrArg init.all (funext isBlankText_dropReturn)
  have hlast : (if last.isEmpty then [] else [last]).all isBlankText = [last].all isBlankText := by
    cases last <;> rfl
  rw [← all_isBlankText_rows, lines, hrows, List.dropLast_concat, List.getLast?_concat, Option.getD_some,
    List.all_append, List.all_append, hinit, hlast]

/-! ### Joining lines -/

theorem rows_append_newline (free : '\n' ∉ line) (cs : List Char) :
    rows (line ++ '\n' :: cs) = line :: rows cs := by
  obtain ⟨first, others, hrows⟩ := List.exists_cons_of_ne_nil (rows_ne_nil cs)
  induction line with
  | nil => rw [List.nil_append, rows_cons, hrows, consRow, if_pos rfl]
  | cons c line ih =>
    obtain ⟨hc, hline⟩ := not_or.mp (List.mem_cons.not.mp free)
    rw [List.cons_append, rows_cons, ih hline, consRow, if_neg fun hnewline => hc hnewline.symm]

theorem rows_joinLines (free : ∀ line ∈ ls, '\n' ∉ line) (nonempty : ls ≠ []) : rows (joinLines ls) = ls := by
  induction ls with
  | nil => exact absurd rfl nonempty
  | cons line ls ih =>
    have hline := free line List.mem_cons_self
    cases ls with
    | nil =>
      rw [joinLines, List.intercalate_singleton]
      exact rows_of_not_mem hline
    | cons next ls =>
      have hjoin : joinLines (line :: next :: ls) = line ++ '\n' :: joinLines (next :: ls) := by
        rw [joinLines, List.intercalate_cons_cons, List.append_assoc]
        rfl
      rw [hjoin, rows_append_newline hline,
        ih (fun other h => free other (List.mem_cons_of_mem line h)) (List.cons_ne_nil next ls)]

/-- Lines are read back from the text that they make, if none of them has a line ending in it. -/
theorem lines_joinLines (free : ∀ line ∈ ls, '\n' ∉ line ∧ '\r' ∉ line)
    (closed : ∀ line, ls.getLast? = some line → line ≠ []) : lines (joinLines ls) = ls := by
  rcases List.eq_nil_or_concat ls with rfl | ⟨init, last, rfl⟩
  · rfl
  · rw [List.concat_eq_append] at free closed ⊢
    have hrows := rows_joinLines (fun line h => (free line h).1)
      (List.append_ne_nil_of_right_ne_nil init (List.cons_ne_nil last []))
    have hinit : init.map dropReturn = init := by
      refine (List.map_congr_left fun line hmem => ?_).trans (List.map_id init)
      have hreturn := (free line (List.mem_append_left _ hmem)).2
      exact dropReturn_of_getLast?_ne fun hlast => hreturn (List.mem_of_getLast? hlast)
    have hlast : last ≠ [] := closed last List.getLast?_concat
    rw [lines, hrows, List.dropLast_concat, List.getLast?_concat, Option.getD_some, hinit,
      List.isEmpty_eq_false_iff.mpr hlast]
    rfl

end Exemplar.Text
