import Exemplar.Text.Place

/-!
# Places and the text around them

A byte offset is a place exactly if the text splits there. Everything that reads a text at an offset is
reduced to that split here, so that later arguments speak of what stands before and after a place and not
of numbers.
-/

namespace Exemplar.Text

/-! ### Cuts -/

theorem cut?_eq_some_iff {cs before after : List Char} {n : Nat} :
    cut? cs n = some (before, after) ↔ cs = before ++ after ∧ byteSize before = n := by
  constructor
  · exact append_of_cut?
  · rintro ⟨rfl, rfl⟩
    exact cut?_byteSize before after

theorem drop?_eq_some_iff {cs after : List Char} {n : Nat} :
    drop? cs n = some after ↔ ∃ before, cs = before ++ after ∧ byteSize before = n := by
  rw [drop?_eq, Option.map_eq_some_iff]
  constructor
  · rintro ⟨⟨before, rest⟩, hcut, rfl⟩
    exact ⟨before, cut?_eq_some_iff.mp hcut⟩
  · rintro ⟨before, split⟩
    exact ⟨(before, after), cut?_eq_some_iff.mpr split, rfl⟩

/-- No place lies strictly inside of a character. -/
theorem cut?_inside (before after : List Char) (c : Char) {n : Nat} (pos : 0 < n)
    (lt : n < c.utf8Size) : cut? (before ++ c :: after) (byteSize before + n) = none := by
  induction before with
  | nil =>
    obtain ⟨k, rfl⟩ : ∃ k, n = k + 1 := ⟨n - 1, by omega⟩
    rw [List.nil_append, byteSize_nil, Nat.zero_add, cut?, if_neg (by omega)]
  | cons b before ih =>
    -- The offset is past `b`, and as far into the rest as before.
    have hsize := b.utf8Size_pos
    obtain ⟨k, hk⟩ : ∃ k, byteSize (b :: before) + n = k + 1 :=
      ⟨byteSize (b :: before) + n - 1, by rw [byteSize_cons]; omega⟩
    have hrest : k + 1 - b.utf8Size = byteSize before + n := by
      rw [← hk, byteSize_cons]
      omega
    rw [hk, List.cons_append, cut?, hrest, ih, Option.map_none, ite_self]

theorem slice?_eq_some_iff {cs middle : List Char} {start stop : Nat} :
    slice? cs start stop = some middle ↔
      ∃ before after, cs = before ++ middle ++ after ∧ byteSize before = start ∧
        byteSize before + byteSize middle = stop := by
  unfold slice?
  constructor
  · intro h
    split at h
    next le =>
      obtain ⟨tail, hdrop, h⟩ := Option.bind_eq_some_iff.mp h
      obtain ⟨⟨inside, after⟩, hcut, h⟩ := Option.bind_eq_some_iff.mp h
      obtain rfl := Option.some.inj h
      obtain ⟨before, rfl, hbefore⟩ := drop?_eq_some_iff.mp hdrop
      obtain ⟨rfl, hinside⟩ := cut?_eq_some_iff.mp hcut
      exact ⟨before, after, (List.append_assoc ..).symm, hbefore, by omega⟩
    next => cases h
  · rintro ⟨before, after, rfl, rfl, rfl⟩
    have hdrop : drop? (before ++ middle ++ after) (byteSize before) = some (middle ++ after) :=
      drop?_eq_some_iff.mpr ⟨before, List.append_assoc .., rfl⟩
    rw [if_pos (Nat.le_add_right _ _), hdrop, Nat.add_sub_cancel_left]
    simp only [Option.bind_eq_bind, Option.bind_some, cut?_byteSize, Option.pure_def]

/-- Of what stands before two places of a text, one is the beginning of the other. -/
theorem prefix_of_byteSize_le {cs front front' : List Char} (hfront : front <+: cs)
    (hfront' : front' <+: cs) (le : byteSize front ≤ byteSize front') : front <+: front' := by
  rcases List.prefix_or_prefix_of_prefix hfront hfront' with h | ⟨rest, rfl⟩
  · exact h
  · -- What is too much has no bytes, so there is nothing of it.
    rw [byteSize_append] at le
    cases rest with
    | nil => simp
    | cons c rest =>
      have hpos := c.utf8Size_pos
      rw [byteSize_cons] at le
      omega

/-- A part that stands between the ends of another part lies in it. -/
theorem exists_part_of_byteSize_le {before middle after before' middle' after' : List Char}
    (split : before ++ middle ++ after = before' ++ middle' ++ after')
    (first : byteSize before ≤ byteSize before')
    (last : byteSize before' + byteSize middle' ≤ byteSize before + byteSize middle) :
    ∃ front back, before' = before ++ front ∧ middle = front ++ middle' ++ back := by
  -- Both parts start and stop in one text.
  have hstart : before <+: before ++ middle ++ after := ⟨middle ++ after, (List.append_assoc ..).symm⟩
  have hstart' : before' <+: before ++ middle ++ after :=
    ⟨middle' ++ after', by rw [split, List.append_assoc]⟩
  have hstop : before ++ middle <+: before ++ middle ++ after := ⟨after, rfl⟩
  have hstop' : before' ++ middle' <+: before ++ middle ++ after := ⟨after', split.symm⟩
  obtain ⟨front, rfl⟩ := prefix_of_byteSize_le hstart hstart' first
  obtain ⟨back, hback⟩ := prefix_of_byteSize_le hstop' hstop (by simpa only [byteSize_append] using last)
  refine ⟨front, back, rfl, ?_⟩
  rw [List.append_assoc, List.append_assoc] at hback
  rw [← List.append_cancel_left hback, List.append_assoc]

/-! ### Reading at a place -/

/-- Steps one after the other have an answer if the first one has an answer that the others go on from. -/
theorem bind_eq_ok_iff {ε α β : Type} {first : Except ε α} {others : α → Except ε β} {answer : β} :
    (first >>= others) = .ok answer ↔ ∃ value, first = .ok value ∧ others value = .ok answer := by
  cases first with
  | error fault => simp [bind, Except.bind]
  | ok value => simp [bind, Except.bind]

/-- A list is gone through to its end if each step succeeds. -/
theorem forM_eq_ok_iff {ε α : Type} {step : α → Except ε Unit} {items : List α} :
    items.forM step = .ok () ↔ ∀ item ∈ items, step item = .ok () := by
  induction items with
  | nil => simp [pure, Except.pure]
  | cons item items ih =>
    have hstep : (item :: items).forM step = (step item >>= fun _ => items.forM step) := rfl
    rw [hstep, bind_eq_ok_iff, List.forall_mem_cons, ← ih]
    constructor
    · rintro ⟨⟨⟩, hitem, hitems⟩
      exact ⟨hitem, hitems⟩
    · rintro ⟨hitem, hitems⟩
      exact ⟨(), hitem, hitems⟩

theorem mapM_eq_ok_iff {ε α β : Type} {step : α → Except ε β} {items : List α} {answers : List β} :
    items.mapM step = .ok answers ↔ items.map step = answers.map .ok := by
  induction items generalizing answers with
  | nil =>
    rw [List.mapM_nil, List.map_nil, List.nil_eq, List.map_eq_nil_iff]
    exact ⟨fun h => (Except.ok.inj h).symm, fun h => h ▸ rfl⟩
  | cons item items ih =>
    rw [List.mapM_cons, bind_eq_ok_iff, List.map_cons]
    constructor
    · rintro ⟨answer, hitem, hrest⟩
      obtain ⟨rest, hitems, hanswers⟩ := bind_eq_ok_iff.mp hrest
      obtain rfl := Except.ok.inj hanswers
      rw [hitem, ih.mp hitems, List.map_cons]
    · intro h
      cases answers with
      | nil => cases h
      | cons answer rest =>
        obtain ⟨hitem, hitems⟩ := List.cons.inj h
        exact ⟨answer, hitem, bind_eq_ok_iff.mpr ⟨rest, ih.mpr hitems, rfl⟩⟩

theorem mem_iff_of_mapM_eq_ok {ε α β : Type} {step : α → Except ε β} {items : List α} {answers : List β}
    (h : items.mapM step = .ok answers) {answer : β} :
    answer ∈ answers ↔ ∃ item ∈ items, step item = .ok answer := by
  have hmap := mapM_eq_ok_iff.mp h
  rw [← List.mem_map, hmap, List.mem_map]
  simp

theorem exists_mem_of_mapM_eq_ok {ε α β : Type} {step : α → Except ε β} {items : List α}
    {answers : List β} (h : items.mapM step = .ok answers) {item : α} (hitem : item ∈ items) :
    ∃ answer ∈ answers, step item = .ok answer := by
  have hmem := List.mem_map_of_mem (f := step) hitem
  rw [mapM_eq_ok_iff.mp h] at hmem
  obtain ⟨answer, hanswer, hof⟩ := List.mem_map.mp hmem
  exact ⟨answer, hanswer, hof.symm⟩

theorem exists_mapM_eq_ok {ε α β : Type} {step : α → Except ε β} {items : List α}
    (h : ∀ item ∈ items, ∃ answer, step item = .ok answer) : ∃ answers, items.mapM step = .ok answers := by
  induction items with
  | nil => exact ⟨[], rfl⟩
  | cons item items ih =>
    obtain ⟨answer, hitem⟩ := h item List.mem_cons_self
    obtain ⟨answers, hitems⟩ := ih fun item hmem => h item (List.mem_cons_of_mem _ hmem)
    rw [mapM_eq_ok_iff] at hitems
    exact ⟨answer :: answers, mapM_eq_ok_iff.mpr (by rw [List.map_cons, hitem, hitems, List.map_cons])⟩

/-- Steps one after the other have a fault if the first one has it, or the others have it behind its answer. -/
theorem bind_eq_error_iff {ε α β : Type} {first : Except ε α} {others : α → Except ε β} {fault : ε} :
    (first >>= others) = .error fault ↔
      first = .error fault ∨ ∃ value, first = .ok value ∧ others value = .error fault := by
  cases first with
  | error fault => simp [bind, Except.bind]
  | ok value => simp [bind, Except.bind]

theorem exists_of_forM_eq_error {ε α : Type} {step : α → Except ε Unit} {items : List α} {fault : ε}
    (h : items.forM step = .error fault) : ∃ item ∈ items, step item = .error fault := by
  induction items with
  | nil => cases h
  | cons item items ih =>
    rcases bind_eq_error_iff.mp h with hitem | ⟨_, _, hitems⟩
    · exact ⟨item, List.mem_cons_self, hitem⟩
    · obtain ⟨other, hmem, hother⟩ := ih hitems
      exact ⟨other, List.mem_cons_of_mem _ hmem, hother⟩

theorem exists_of_mapM_eq_error {ε α β : Type} {step : α → Except ε β} {items : List α} {fault : ε}
    (h : items.mapM step = .error fault) : ∃ item ∈ items, step item = .error fault := by
  induction items with
  | nil => cases h
  | cons item items ih =>
    rw [List.mapM_cons] at h
    rcases bind_eq_error_iff.mp h with hitem | ⟨_, _, hrest⟩
    · exact ⟨item, List.mem_cons_self, hitem⟩
    · rcases bind_eq_error_iff.mp hrest with hitems | ⟨_, _, hnone⟩
      · obtain ⟨other, hmem, hother⟩ := ih hitems
        exact ⟨other, List.mem_cons_of_mem _ hmem, hother⟩
      · cases hnone

theorem exists_of_isOk {ε α : Type} {answer : Except ε α} (h : answer.isOk = true) :
    ∃ value, answer = .ok value := by
  cases answer with
  | ok value => exact ⟨value, rfl⟩
  | error fault => cases h

theorem mapError_eq_ok_iff {ε ε' α : Type} {answer : Except ε α} {f : ε → ε'} {value : α} :
    answer.mapError f = .ok value ↔ answer = .ok value := by
  cases answer with
  | error fault => exact iff_of_false (fun h => by cases h) (fun h => by cases h)
  | ok found => exact ⟨fun h => congrArg _ (Except.ok.inj h), fun h => congrArg _ (Except.ok.inj h)⟩

/-- Lines are counted from one. -/
theorem one_le_of_lineAt {cs : List Char} {n line : Nat} (h : lineAt cs n = .ok line) : 1 ≤ line := by
  rw [lineAt] at h
  cases hline : lineAt? cs n with
  | none =>
    rw [hline] at h
    cases h
  | some found =>
    rw [hline] at h
    cases h
    obtain ⟨newlines, -, rfl⟩ := Option.map_eq_some_iff.mp hline
    exact Nat.le_add_left _ _

theorem lineAt?_append (before after : List Char) :
    lineAt? (before ++ after) (byteSize before) = some (before.count '\n' + 1) := by
  rw [lineAt?, newlinesBefore?_eq, cut?_byteSize]
  rfl

theorem lineAt_append (before after : List Char) :
    lineAt (before ++ after) (byteSize before) = .ok (before.count '\n' + 1) := by
  rw [lineAt, lineAt?_append]
  rfl

theorem drop_append (before after : List Char) :
    drop (before ++ after) (byteSize before) = .ok after := by
  rw [drop, drop?_eq_some_iff.mpr ⟨before, rfl, rfl⟩]
  rfl

theorem drop_inside (before after : List Char) (c : Char) {n : Nat} (pos : 0 < n)
    (lt : n < c.utf8Size) :
    drop (before ++ c :: after) (byteSize before + n) = .error ⟨byteSize before + n⟩ := by
  rw [drop, drop?_eq, cut?_inside before after c pos lt]
  rfl

theorem slice_append (before middle after : List Char) :
    slice (before ++ middle ++ after) (byteSize before) (byteSize before + byteSize middle) =
      .ok middle := by
  rw [slice, slice?_eq_some_iff.mpr ⟨before, after, rfl, rfl, rfl⟩]
  rfl

theorem skipBlank_append (before after : List Char) :
    skipBlank (before ++ after) (byteSize before) =
      .ok (byteSize (before ++ after.takeWhile isBlank)) := by
  rw [skipBlank, drop_append, byteSize_append]
  rfl

end Exemplar.Text
