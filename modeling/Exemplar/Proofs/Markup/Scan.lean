import Exemplar.Markup.Scan

/-!
# What a scan reads

A scan that succeeds has read some characters from the front of what it was given, and its cursor has gone on
by their bytes. This is shown for each of the basic scans and kept by putting scans together, so that every
scan built from them has it.
-/

namespace Exemplar.Markup

open Text (byteSize)

namespace Cursor

/-- One cursor is reached from another one by reading some characters. -/
structure Reads (start : Cursor) (read : List Char) (stop : Cursor) : Prop where
  rest : start.rest = read ++ stop.rest
  offset : stop.offset = start.offset + byteSize read

variable {start middle stop : Cursor} {read more : List Char}

theorem Reads.refl (cursor : Cursor) : cursor.Reads [] cursor := ⟨rfl, rfl⟩

theorem Reads.trans (first : start.Reads read middle) (second : middle.Reads more stop) :
    start.Reads (read ++ more) stop where
  rest := by rw [first.rest, second.rest, List.append_assoc]
  offset := by rw [second.offset, first.offset, Text.byteSize_append, Nat.add_assoc]

theorem Reads.eq_of_nil (reads : start.Reads [] stop) : start = stop := by
  obtain ⟨offset, rest⟩ := start
  obtain ⟨offset', rest'⟩ := stop
  obtain ⟨hrest, hoffset⟩ := reads
  rw [Cursor.mk.injEq]
  exact ⟨hoffset.symm, hrest⟩

/-- Characters are read one part after the other. -/
theorem Reads.exists_of_append (reads : start.Reads (read ++ more) stop) :
    ∃ middle : Cursor, start.Reads read middle ∧ middle.Reads more stop := by
  refine ⟨⟨start.offset + byteSize read, more ++ stop.rest⟩, ⟨?_, rfl⟩, ⟨rfl, ?_⟩⟩
  · rw [reads.rest, List.append_assoc]
  · rw [reads.offset, Text.byteSize_append, Nat.add_assoc]

theorem Reads.exists_of_cons {c : Char} (reads : start.Reads (c :: read) stop) :
    ∃ middle : Cursor, start.rest = c :: middle.rest ∧ start.Reads [c] middle ∧ middle.Reads read stop := by
  have reads : start.Reads ([c] ++ read) stop := reads
  obtain ⟨middle, first, second⟩ := reads.exists_of_append
  exact ⟨middle, first.rest, first, second⟩

theorem Reads.offset_le (reads : start.Reads read stop) : start.offset ≤ stop.offset := by
  rw [reads.offset]
  exact Nat.le_add_right _ _

/-- A cursor stands in a document if what is left of it starts at the cursor's byte. -/
def In (document : List Char) (cursor : Cursor) : Prop :=
  ∃ read, document = read ++ cursor.rest ∧ byteSize read = cursor.offset

theorem Reads.stays {document : List Char} (reads : start.Reads read stop)
    (inside : start.In document) : stop.In document := by
  obtain ⟨before, rfl, hsize⟩ := inside
  refine ⟨before ++ read, by rw [reads.rest, List.append_assoc], ?_⟩
  rw [Text.byteSize_append, hsize, reads.offset]

end Cursor

namespace Scan

variable {α β : Type} {start stop : Cursor}

/-! ### Opening a run -/

theorem run_bind_eq_some_iff {first : Scan α} {others : α → Scan β} {answer : β} :
    (first >>= others).run start = some (answer, stop) ↔
      ∃ value middle, first.run start = some (value, middle) ∧
        (others value).run middle = some (answer, stop) := by
  rw [StateT.run_bind, Option.bind_eq_bind, Option.bind_eq_some_iff]
  constructor
  · rintro ⟨⟨value, middle⟩, hfirst, hothers⟩
    exact ⟨value, middle, hfirst, hothers⟩
  · rintro ⟨value, middle, hfirst, hothers⟩
    exact ⟨(value, middle), hfirst, hothers⟩

theorem run_bind_of_run {first : Scan α} {others : α → Scan β} {value : α}
    (h : first.run start = some (value, stop)) :
    (first >>= others).run start = (others value).run stop := by
  rw [StateT.run_bind, h]
  rfl

theorem run_pure_eq_some_iff {value answer : α} :
    (pure value : Scan α).run start = some (answer, stop) ↔ value = answer ∧ start = stop := by
  rw [StateT.run_pure, Option.pure_def, Option.some.injEq, Prod.mk.injEq]

theorem run_failure_ne_some {answer : α} :
    ¬ (failure : Scan α).run start = some (answer, stop) := by
  intro h
  cases h

theorem run_offset_eq_some_iff {n : Nat} :
    offset.run start = some (n, stop) ↔ start.offset = n ∧ start = stop := by
  constructor
  · intro h
    cases h
    exact ⟨rfl, rfl⟩
  · rintro ⟨rfl, rfl⟩
    rfl

/-! ### Scans that go forward -/

/-- A scan goes forward if it only reads, whatever it answers. -/
def Advances (scan : Scan α) : Prop :=
  ∀ ⦃start value stop⦄, scan.run start = some (value, stop) → ∃ read, start.Reads read stop

namespace Advances

theorem pure (value : α) : Advances (Pure.pure value : Scan α) := by
  intro start answer stop h
  obtain ⟨-, rfl⟩ := run_pure_eq_some_iff.mp h
  exact ⟨[], .refl _⟩

theorem failure : Advances (Alternative.failure : Scan α) := by
  intro start answer stop h
  exact absurd h run_failure_ne_some

theorem bind {first : Scan α} {others : α → Scan β} (hfirst : Advances first)
    (hothers : ∀ value, Advances (others value)) : Advances (first >>= others) := by
  intro start answer stop h
  obtain ⟨value, middle, hvalue, hanswer⟩ := run_bind_eq_some_iff.mp h
  obtain ⟨read, reads⟩ := hfirst hvalue
  obtain ⟨more, readsMore⟩ := hothers value hanswer
  exact ⟨read ++ more, reads.trans readsMore⟩

theorem ite {condition : Prop} [Decidable condition] {yes no : Scan α} (hyes : Advances yes)
    (hno : Advances no) : Advances (if condition then yes else no) := by
  split
  · exact hyes
  · exact hno

end Advances

theorem advances_rest : Advances rest := by
  intro start value stop h
  cases h
  exact ⟨[], .refl _⟩

theorem advances_startsWith (text : String) : Advances (startsWith text) :=
  .bind advances_rest fun _ => .pure _

theorem advances_take (n : Nat) : Advances (take n) := by
  intro start value stop h
  cases h
  exact ⟨start.rest.take n, (List.take_append_drop n start.rest).symm, rfl⟩

theorem advances_takeWhile (test : Char → Bool) : Advances (takeWhile test) := by
  intro start value stop h
  cases h
  exact ⟨start.rest.takeWhile test, List.takeWhile_append_dropWhile.symm, rfl⟩

/-- A text that is eaten was read, and otherwise nothing was. -/
theorem reads_of_eat {text : String} {hit : Bool} (h : (eat text).run start = some (hit, stop)) :
    if hit then start.Reads text.toList stop else stop = start := by
  by_cases hnext : text.toList <+: start.rest
  · have hhit := List.isPrefixOf_iff_prefix.mpr hnext
    have hrun : (eat text).run start =
        ((take text.length).run start).map fun found => (true, found.2) := by
      simp [eat, startsWith, rest, hnext, hhit, StateT.run_bind]
    rw [hrun] at h
    cases h
    obtain ⟨after, hafter⟩ := hnext
    have htake : start.rest.take text.length = text.toList := by
      rw [← hafter, ← String.length_toList, List.take_left]
    have hdrop : start.rest.drop text.length = after := by
      rw [← hafter, ← String.length_toList, List.drop_left]
    exact ⟨by simp only [hdrop, hafter], by simp only [htake]⟩
  · have hmiss := Bool.eq_false_iff.mpr fun hhit => hnext (List.isPrefixOf_iff_prefix.mp hhit)
    have hrun : (eat text).run start = some (false, start) := by
      simp [eat, startsWith, rest, hnext, hmiss, StateT.run_bind]
    rw [hrun] at h
    cases h
    rfl

theorem advances_eat (text : String) : Advances (eat text) := by
  intro start hit stop h
  have reads := reads_of_eat h
  split at reads
  · exact ⟨_, reads⟩
  · exact ⟨[], reads ▸ .refl _⟩

theorem reads_of_expect {text : String} {answer : Unit}
    (h : (expect text).run start = some (answer, stop)) : start.Reads text.toList stop := by
  obtain ⟨hit, middle, heat, h⟩ := run_bind_eq_some_iff.mp h
  have reads := reads_of_eat heat
  cases hit with
  | true =>
    obtain ⟨-, rfl⟩ := run_pure_eq_some_iff.mp h
    exact reads
  | false => exact absurd h run_failure_ne_some

theorem advances_expect (text : String) : Advances (expect text) :=
  fun _ _ _ h => ⟨_, reads_of_expect h⟩

theorem advances_skipSpace : Advances skipSpace :=
  .bind (advances_takeWhile _) fun _ => .pure _

theorem advances_takeUntil (stop : List Char → Bool) : Advances (takeUntil stop) :=
  .bind advances_rest fun _ => .bind (advances_take _) fun _ => .ite (.pure _) .failure

theorem advances_takeThrough (text : String) : Advances (takeThrough text) :=
  .bind (advances_takeUntil _) fun _ => .bind (advances_expect text) fun _ => .pure _

theorem advances_name : Advances name :=
  .bind (advances_takeWhile _) fun _ => .ite (.pure _) .failure

theorem advances_within {item? : Scan (Option α)} (hitem : Advances item?) (bound : Nat) :
    Advances (many.within item? bound) := by
  induction bound with
  | zero => exact .failure
  | succ bound ih =>
    refine .bind hitem fun found => ?_
    cases found with
    | none => exact .pure _
    | some item => exact .bind ih fun _ => .pure _

theorem advances_many {item? : Scan (Option α)} (hitem : Advances item?) : Advances (many item?) :=
  .bind advances_rest fun _ => advances_within hitem _

end Scan

end Exemplar.Markup
