import Exemplar.Proofs.Markup.Scan

/-!
# Scans do not look far

What a scan answers depends on what it reads and on few characters behind that, not on the rest of the document
or on how much was read before. A stretch of a document that was read on its own way through it can therefore be
cut out and read alone, with the same answer.
-/

namespace Exemplar.Markup

open Text (byteSize)

namespace Cursor

/-- A cursor as it is in a document with `before` more bytes in front and `after` behind. -/
def within (before : Nat) (after : List Char) (cursor : Cursor) : Cursor :=
  ⟨before + cursor.offset, cursor.rest ++ after⟩

variable {before : Nat} {after read more : List Char} {start middle stop : Cursor}

theorem within_injective (before : Nat) (after : List Char) :
    Function.Injective (within before after) := by
  rintro ⟨offset, rest⟩ ⟨offset', rest'⟩ h
  obtain ⟨hoffset, hrest⟩ := Cursor.mk.inj h
  obtain rfl := Nat.add_left_cancel hoffset
  obtain rfl := List.append_cancel_right hrest
  rfl

theorem reads_within_iff :
    (start.within before after).Reads read (stop.within before after) ↔ start.Reads read stop := by
  constructor
  · rintro ⟨hrest, hoffset⟩
    constructor
    · rw [within, within, ← List.append_assoc] at hrest
      exact List.append_cancel_right hrest
    · simp only [within] at hoffset
      omega
  · rintro ⟨hrest, hoffset⟩
    constructor
    · simp [within, hrest]
    · simp [within, hoffset, Nat.add_assoc]

/-- Between two cursors in the stretch every cursor is in it. -/
theorem exists_within_of_reads (first : (start.within before after).Reads read middle)
    (second : middle.Reads more (stop.within before after)) :
    ∃ inner : Cursor, middle = inner.within before after ∧ start.Reads read inner ∧
      inner.Reads more stop := by
  have hmiddle : middle =
      within before after ⟨start.offset + byteSize read, more ++ stop.rest⟩ := by
    obtain ⟨offset, rest⟩ := middle
    have hoffset : offset = before + (start.offset + byteSize read) := by
      rw [← Nat.add_assoc]
      exact first.offset
    have hrest : rest = more ++ (stop.rest ++ after) := second.rest
    simp [within, hoffset, hrest]
  subst hmiddle
  exact ⟨_, rfl, reads_within_iff.mp first, reads_within_iff.mp second⟩

end Cursor

namespace Scan

variable {α β : Type} {start stop : Cursor}

/-! ### What the basic scans read -/

theorem run_rest_bind {others : List Char → Scan β} :
    (rest >>= others).run start = (others start.rest).run start :=
  rfl

theorem run_offset_bind {others : Nat → Scan β} :
    (offset >>= others).run start = (others start.offset).run start :=
  rfl

theorem run_startsWith_bind {text : String} {others : Bool → Scan β} :
    (startsWith text >>= others).run start =
      (others (text.toList.isPrefixOf start.rest)).run start :=
  rfl

theorem run_startsWith_ite {text : String} {yes no : Scan β} :
    (startsWith text >>= fun hit => if hit then yes else no).run start =
      if text.toList <+: start.rest then yes.run start else no.run start := by
  rw [run_startsWith_bind]
  by_cases hnext : text.toList <+: start.rest
  · rw [if_pos hnext, if_pos (List.isPrefixOf_iff_prefix.mpr hnext)]
  · rw [if_neg hnext, if_neg (mt List.isPrefixOf_iff_prefix.mp hnext)]

theorem run_take_eq_some_iff {n : Nat} {read : List Char} :
    (take n).run start = some (read, stop) ↔
      start.Reads read stop ∧ read.length = min n start.rest.length := by
  constructor
  · intro h
    cases h
    exact ⟨⟨(List.take_append_drop n start.rest).symm, rfl⟩, List.length_take⟩
  · rintro ⟨reads, hlength⟩
    have htake : start.rest.take n = read := by
      rw [reads.rest, List.take_append, List.take_of_length_le (by omega)]
      -- Fewer characters are taken only if there are no more.
      have hshort : n - read.length = 0 ∨ stop.rest = [] := by
        rw [reads.rest, List.length_append] at hlength
        by_cases hn : n ≤ read.length
        · exact Or.inl (by omega)
        · exact Or.inr (List.eq_nil_of_length_eq_zero (by omega))
      rcases hshort with hn | hnil
      · rw [hn, List.take_zero, List.append_nil]
      · rw [hnil, List.take_nil, List.append_nil]
    have hdrop : start.rest.drop n = stop.rest := by
      have hsplit := List.take_append_drop n start.rest
      rw [htake] at hsplit
      exact List.append_cancel_left (hsplit.trans reads.rest)
    have hrun : (take n).run start =
        some (start.rest.take n, ⟨start.offset + byteSize (start.rest.take n), start.rest.drop n⟩) := rfl
    rw [hrun, htake, hdrop, ← reads.offset]

theorem run_takeWhile_eq_some_iff {test : Char → Bool} {read : List Char} :
    (takeWhile test).run start = some (read, stop) ↔
      start.Reads read stop ∧ (∀ c ∈ read, test c = true) ∧ stop.rest.head?.any test = false := by
  have hrun : (takeWhile test).run start = some (start.rest.takeWhile test,
      ⟨start.offset + byteSize (start.rest.takeWhile test), start.rest.dropWhile test⟩) := rfl
  constructor
  · intro h
    cases h
    refine ⟨⟨List.takeWhile_append_dropWhile.symm, rfl⟩, List.all_eq_true.mp List.all_takeWhile, ?_⟩
    have hfirst := List.head?_dropWhile_not test start.rest
    cases hrest : (start.rest.dropWhile test).head? with
    | none => rfl
    | some c => simpa [hrest] using hfirst
  · rintro ⟨reads, hread, hstop⟩
    have hhead : stop.rest.takeWhile test = [] ∧ stop.rest.dropWhile test = stop.rest := by
      cases hrest : stop.rest with
      | nil => exact ⟨rfl, rfl⟩
      | cons c cs =>
        have hc : ¬ test c = true := by simpa [hrest] using hstop
        exact ⟨List.takeWhile_cons_of_neg hc, List.dropWhile_cons_of_neg hc⟩
    have htake : start.rest.takeWhile test = read := by
      rw [reads.rest, List.takeWhile_append_of_pos hread, hhead.1, List.append_nil]
    have hdrop : start.rest.dropWhile test = stop.rest := by
      rw [reads.rest, List.dropWhile_append_of_pos hread, hhead.2]
    rw [hrun, htake, hdrop, ← reads.offset]

/-- All the space that is next is skipped. -/
theorem run_skipSpace {read : List Char} (reads : start.Reads read stop)
    (hread : ∀ c ∈ read, isSpace c = true) (hstop : stop.rest.head?.any isSpace = false) :
    skipSpace.run start = some ((), stop) :=
  run_bind_eq_some_iff.mpr ⟨read, stop, run_takeWhile_eq_some_iff.mpr ⟨reads, hread, hstop⟩, rfl⟩

theorem run_eat_eq_some_iff {text : String} {hit : Bool} :
    (eat text).run start = some (hit, stop) ↔
      if hit then start.Reads text.toList stop else stop = start ∧ ¬ text.toList <+: start.rest := by
  have hrun : (eat text).run start =
      if text.toList <+: start.rest then ((take text.length).run start).map fun found => (true, found.2)
      else some (false, start) := by
    rw [eat, run_startsWith_bind]
    by_cases hnext : text.toList <+: start.rest
    · rw [if_pos hnext, List.isPrefixOf_iff_prefix.mpr hnext]
      simp
    · rw [if_neg hnext, Bool.eq_false_iff.mpr fun h => hnext (List.isPrefixOf_iff_prefix.mp h)]
      simp
  rw [hrun]
  by_cases hnext : text.toList <+: start.rest
  · rw [if_pos hnext, Option.map_eq_some_iff]
    have hlength : text.toList.length = min text.length start.rest.length := by
      have hle := hnext.length_le
      rw [String.length_toList] at hle ⊢
      omega
    cases hit with
    | true =>
      rw [if_pos rfl]
      constructor
      · rintro ⟨⟨read, _⟩, htake, hstop⟩
        obtain ⟨reads, hread⟩ := run_take_eq_some_iff.mp htake
        obtain rfl := (Prod.mk.inj hstop).2
        -- Both are what stands in front, and of the same length.
        have hfront : read <+: start.rest := ⟨_, reads.rest.symm⟩
        have heq := List.prefix_of_prefix_length_le hfront hnext (by omega)
        rwa [heq.eq_of_length (by omega)] at reads
      · intro reads
        exact ⟨(text.toList, stop), run_take_eq_some_iff.mpr ⟨reads, hlength⟩, rfl⟩
    | false => simp [hnext]
  · rw [if_neg hnext, Option.some.injEq, Prod.mk.injEq]
    cases hit with
    | true =>
      simp only [Bool.false_eq_true, false_and, if_true, false_iff]
      exact fun reads => hnext ⟨stop.rest, reads.rest.symm⟩
    | false => simp [hnext, eq_comm]

theorem run_expect_eq_some_iff {text : String} :
    (expect text).run start = some ((), stop) ↔ start.Reads text.toList stop := by
  constructor
  · exact reads_of_expect
  · intro reads
    refine run_bind_eq_some_iff.mpr ⟨true, stop, run_eat_eq_some_iff.mpr reads, ?_⟩
    rfl

theorem countUntil_append_eq_length_iff {stop : List Char → Bool} {read after : List Char} :
    countUntil stop (read ++ after) = read.length ↔
      (∀ back, back <:+ read → back ≠ [] → stop (back ++ after) = false) ∧
        (after = [] ∨ stop after = true) := by
  induction read with
  | nil =>
    cases after with
    | nil => simp [countUntil]
    | cons c cs => simp [countUntil]
  | cons c read ih =>
    simp only [List.cons_append, countUntil, List.length_cons, List.suffix_cons_iff]
    cases hstop : stop (c :: (read ++ after)) with
    | true =>
      simp only [if_true, Nat.zero_ne_add_one, false_iff, not_and]
      intro hnone
      have hfirst := hnone (c :: read) (Or.inl rfl) (List.cons_ne_nil c read)
      rw [List.cons_append, hstop] at hfirst
      cases hfirst
    | false =>
      rw [if_neg Bool.false_ne_true, Nat.add_right_cancel_iff, ih]
      refine and_congr_left fun _ => ⟨fun hnone back hback hne => ?_, fun hnone back hback hne => ?_⟩
      · rcases hback with rfl | hback
        · exact hstop
        · exact hnone back hback hne
      · exact hnone back (Or.inr hback) hne

theorem run_takeUntil_eq_some_iff {test : List Char → Bool} {read : List Char} :
    (takeUntil test).run start = some (read, stop) ↔
      start.Reads read stop ∧ (∀ c ∈ read, isLegal c = true) ∧
        (∀ back, back <:+ read → back ≠ [] → test (back ++ stop.rest) = false) ∧
        (stop.rest = [] ∨ test stop.rest = true) := by
  rw [takeUntil, run_rest_bind, run_bind_eq_some_iff, ← countUntil_append_eq_length_iff]
  have hcount (cs : List Char) : countUntil test cs ≤ cs.length := by
    induction cs with
    | nil => exact Nat.le_refl 0
    | cons c cs ih =>
      rw [countUntil]
      split
      · exact Nat.zero_le _
      · exact Nat.succ_le_succ ih
  constructor
  · rintro ⟨found, middle, htake, hdone⟩
    obtain ⟨reads, hlength⟩ := run_take_eq_some_iff.mp htake
    split at hdone
    next hlegal =>
      obtain ⟨rfl, rfl⟩ := run_pure_eq_some_iff.mp hdone
      refine ⟨reads, List.all_eq_true.mp hlegal, ?_⟩
      rw [← reads.rest, hlength, Nat.min_eq_left (hcount _)]
    next => exact absurd hdone run_failure_ne_some
  · rintro ⟨reads, hlegal, hlength⟩
    rw [← reads.rest] at hlength
    refine ⟨read, stop, run_take_eq_some_iff.mpr ⟨reads, ?_⟩, ?_⟩
    · rw [hlength, Nat.min_eq_left (hlength ▸ hcount _)]
    · rw [if_pos (List.all_eq_true.mpr hlegal), run_pure_eq_some_iff]
      exact ⟨rfl, rfl⟩

theorem run_takeThrough_eq_some_iff {text : String} {read : List Char} :
    (takeThrough text).run start = some (read, stop) ↔
      start.Reads (read ++ text.toList) stop ∧ (∀ c ∈ read, isLegal c = true) ∧
        ∀ back, back <:+ read → back ≠ [] → ¬ text.toList <+: back ++ text.toList ++ stop.rest := by
  have hmiss (cs : List Char) : text.toList.isPrefixOf cs = false ↔ ¬ text.toList <+: cs := by
    rw [← Bool.not_eq_true, List.isPrefixOf_iff_prefix]
  rw [takeThrough, run_bind_eq_some_iff]
  constructor
  · rintro ⟨found, middle, huntil, hdone⟩
    obtain ⟨_, last, hexpect, hdone⟩ := run_bind_eq_some_iff.mp hdone
    obtain ⟨rfl, rfl⟩ := run_pure_eq_some_iff.mp hdone
    obtain ⟨reads, hlegal, hfirst, -⟩ := run_takeUntil_eq_some_iff.mp huntil
    have readsText := run_expect_eq_some_iff.mp hexpect
    refine ⟨reads.trans readsText, hlegal, fun back hback hne => ?_⟩
    rw [List.append_assoc, ← readsText.rest]
    exact (hmiss _).mp (hfirst back hback hne)
  · rintro ⟨reads, hlegal, hfirst⟩
    have readsRead : start.Reads read ⟨start.offset + byteSize read, text.toList ++ stop.rest⟩ :=
      ⟨by rw [reads.rest, List.append_assoc], rfl⟩
    have readsText : Cursor.Reads ⟨start.offset + byteSize read, text.toList ++ stop.rest⟩
        text.toList stop :=
      ⟨rfl, by rw [reads.offset, Text.byteSize_append, Nat.add_assoc]⟩
    refine ⟨read, _, run_takeUntil_eq_some_iff.mpr ⟨readsRead, hlegal, fun back hback hne => ?_, ?_⟩,
      run_bind_eq_some_iff.mpr ⟨(), stop, run_expect_eq_some_iff.mpr readsText, rfl⟩⟩
    · rw [hmiss, ← List.append_assoc]
      exact hfirst back hback hne
    · exact Or.inr (List.isPrefixOf_iff_prefix.mpr (List.prefix_append _ _))

/-! ### Scans that read something -/

/-- A scan reads `n` characters at least. -/
def Consumes (n : Nat) (scan : Scan α) : Prop :=
  ∀ ⦃start value stop⦄, scan.run start = some (value, stop) →
    ∃ read, start.Reads read stop ∧ n ≤ read.length

namespace Consumes

variable {n m : Nat}

theorem mono {scan : Scan α} (h : Consumes n scan) (le : m ≤ n) : Consumes m scan := by
  intro start value stop hrun
  obtain ⟨read, reads, hread⟩ := h hrun
  exact ⟨read, reads, Nat.le_trans le hread⟩

theorem failure : Consumes n (Alternative.failure : Scan α) := by
  intro start value stop h
  exact absurd h run_failure_ne_some

theorem expect (text : String) : Consumes text.toList.length (Scan.expect text) := by
  intro start value stop h
  exact ⟨text.toList, reads_of_expect h, Nat.le_refl _⟩

theorem first {first : Scan α} {others : α → Scan β} (hfirst : Consumes n first)
    (hothers : ∀ value, Advances (others value)) : Consumes n (first >>= others) := by
  intro start answer stop h
  obtain ⟨value, middle, hvalue, hanswer⟩ := run_bind_eq_some_iff.mp h
  obtain ⟨read, reads, hread⟩ := hfirst hvalue
  obtain ⟨more, readsMore⟩ := hothers value hanswer
  refine ⟨read ++ more, reads.trans readsMore, ?_⟩
  rw [List.length_append]
  omega

theorem later {first : Scan α} {others : α → Scan β} (hfirst : Advances first)
    (hothers : ∀ value, Consumes n (others value)) : Consumes n (first >>= others) := by
  intro start answer stop h
  obtain ⟨value, middle, hvalue, hanswer⟩ := run_bind_eq_some_iff.mp h
  obtain ⟨read, reads⟩ := hfirst hvalue
  obtain ⟨more, readsMore, hmore⟩ := hothers value hanswer
  refine ⟨read ++ more, reads.trans readsMore, ?_⟩
  rw [List.length_append]
  omega

theorem ite {condition : Prop} [Decidable condition] {yes no : Scan α} (hyes : Consumes n yes)
    (hno : Consumes n no) : Consumes n (if condition then yes else no) := by
  split
  · exact hyes
  · exact hno

end Consumes

/-! ### Scans that do not look far -/

/-- A scan that went through a stretch of a document does the same in the stretch alone, as long as `ahead`
characters of it are left. -/
structure Local (ahead : Nat) (scan : Scan α) : Prop where
  advances : Advances scan
  alone : ∀ ⦃before after start value stop⦄,
    scan.run (start.within before after) = some (value, stop.within before after) →
      ahead ≤ stop.rest.length → scan.run start = some (value, stop)

namespace Local

variable {n m : Nat} {text : String}

theorem mono {scan : Scan α} (h : Local n scan) (le : n ≤ m) : Local m scan where
  advances := h.advances
  alone _ _ _ _ _ hrun hleft := h.alone hrun (Nat.le_trans le hleft)

theorem pure (value : α) : Local 0 (Pure.pure value : Scan α) where
  advances := .pure value
  alone := by
    intro before after start answer stop h _
    obtain ⟨rfl, hstop⟩ := run_pure_eq_some_iff.mp h
    rw [run_pure_eq_some_iff]
    exact ⟨rfl, Cursor.within_injective before after hstop⟩

theorem failure : Local 0 (Alternative.failure : Scan α) where
  advances := .failure
  alone := by
    intro before after start answer stop h _
    exact absurd h run_failure_ne_some

theorem ite {condition : Prop} [Decidable condition] {yes no : Scan α} (hyes : Local n yes)
    (hno : Local n no) : Local n (if condition then yes else no) := by
  split
  · exact hyes
  · exact hno

/-- The first scan may look at what the others read. -/
theorem bind_consumes {k : Nat} {first : Scan α} {others : α → Scan β} (hfirst : Local n first)
    (hothers : ∀ value, Local m (others value)) (consumes : ∀ value, Consumes k (others value))
    (le : n ≤ k + m) : Local m (first >>= others) where
  advances := hfirst.advances.bind fun value => (hothers value).advances
  alone := by
    intro before after start answer stop h hleft
    obtain ⟨value, middle, hvalue, hanswer⟩ := run_bind_eq_some_iff.mp h
    obtain ⟨read, reads⟩ := hfirst.advances hvalue
    obtain ⟨more, readsMore, hmore⟩ := consumes value hanswer
    -- What the others read stands behind the first scan in the stretch, so that one may look at it.
    obtain ⟨inner, rfl, -, readsInner⟩ := Cursor.exists_within_of_reads reads readsMore
    refine run_bind_eq_some_iff.mpr ⟨value, inner, hfirst.alone hvalue ?_, (hothers value).alone hanswer hleft⟩
    rw [readsInner.rest, List.length_append]
    omega

theorem bind {first : Scan α} {others : α → Scan β} (hfirst : Local n first)
    (hothers : ∀ value, Local n (others value)) : Local n (first >>= others) := by
  refine hfirst.bind_consumes (k := 0) hothers (fun value start answer stop h => ?_) (by omega)
  obtain ⟨read, reads⟩ := (hothers value).advances h
  exact ⟨read, reads, Nat.zero_le _⟩

theorem startsWith (text : String) : Local text.toList.length (Scan.startsWith text) where
  advances := advances_startsWith text
  alone := by
    intro before after start hit stop h hleft
    obtain ⟨hhit, hstop⟩ := Prod.mk.inj (Option.some.inj h)
    obtain rfl := Cursor.within_injective before after hstop
    have hnext : text.toList.isPrefixOf start.rest = text.toList.isPrefixOf (start.rest ++ after) := by
      rw [Bool.eq_iff_iff, List.isPrefixOf_iff_prefix, List.isPrefixOf_iff_prefix]
      refine ⟨fun hfront => hfront.trans (List.prefix_append _ _), fun hfront => ?_⟩
      exact List.prefix_of_prefix_length_le hfront (List.prefix_append _ _) hleft
    exact congrArg (fun hit => some (hit, start)) (hnext.trans hhit)

/-- A text that is only looked for to be read can be looked for anywhere. -/
theorem startsWith_ite {yes no : Scan α} (hyes : Local n yes) (hno : Local n no)
    (consumes : Consumes text.toList.length yes) :
    Local n (Scan.startsWith text >>= fun hit => if hit then yes else no) where
  advances := .bind (advances_startsWith _) fun _ => .ite hyes.advances hno.advances
  alone := by
    intro before after start value stop h hleft
    rw [run_startsWith_ite] at h ⊢
    by_cases hnext : text.toList <+: (start.within before after).rest
    · rw [if_pos hnext] at h
      -- The text was read, so all of it stands in the stretch.
      obtain ⟨read, reads, hread⟩ := consumes h
      have readsInner := Cursor.reads_within_iff.mp reads
      have hhere : text.toList <+: start.rest := by
        refine List.prefix_of_prefix_length_le hnext (List.prefix_append _ _) ?_
        rw [readsInner.rest, List.length_append]
        omega
      rw [if_pos hhere]
      exact hyes.alone h hleft
    · rw [if_neg hnext] at h
      rw [if_neg fun hhere => hnext (hhere.trans (List.prefix_append _ _))]
      exact hno.alone h hleft

/-- The next character is the same in the stretch, unless the stretch ends before it. -/
theorem head_bind {others : List Char → Scan β} (hothers : ∀ next, Local n (others next))
    (same : ∀ next next', next.head? = next'.head? → others next = others next') (pos : 1 ≤ n) :
    Local n (rest >>= others) where
  advances := .bind advances_rest fun _ => (hothers _).advances
  alone := by
    intro before after start value stop h hleft
    rw [run_rest_bind] at h ⊢
    obtain ⟨read, reads⟩ := (hothers _).advances h
    have readsInner := Cursor.reads_within_iff.mp reads
    have hne : start.rest ≠ [] := by
      intro hnil
      have hlength := congrArg List.length readsInner.rest
      rw [hnil, List.length_append, List.length_nil] at hlength
      omega
    have hhead : (start.within before after).rest.head? = start.rest.head? := by
      obtain ⟨c, cs, hrest⟩ := List.exists_cons_of_ne_nil hne
      rw [Cursor.within, hrest]
      rfl
    rw [same _ _ hhead] at h
    exact (hothers _).alone h hleft

theorem take (k : Nat) : Local 0 (Scan.take k) where
  advances := advances_take k
  alone := by
    intro before after start read stop h _
    obtain ⟨reads, hlength⟩ := run_take_eq_some_iff.mp h
    have readsInner := Cursor.reads_within_iff.mp reads
    refine run_take_eq_some_iff.mpr ⟨readsInner, ?_⟩
    have hrest := congrArg List.length readsInner.rest
    rw [Cursor.within, List.length_append] at hlength
    rw [List.length_append] at hrest
    omega

theorem takeWhile (test : Char → Bool) : Local 0 (Scan.takeWhile test) where
  advances := advances_takeWhile test
  alone := by
    intro before after start read stop h _
    obtain ⟨reads, hread, hstop⟩ := run_takeWhile_eq_some_iff.mp h
    refine run_takeWhile_eq_some_iff.mpr ⟨Cursor.reads_within_iff.mp reads, hread, ?_⟩
    rw [Cursor.within] at hstop
    cases hrest : stop.rest with
    | nil => rfl
    | cons c cs => simpa [hrest] using hstop

theorem eat (text : String) : Local 0 (Scan.eat text) where
  advances := advances_eat text
  alone := by
    intro before after start hit stop h _
    have reads := run_eat_eq_some_iff.mp h
    rw [run_eat_eq_some_iff]
    cases hit with
    | true => exact Cursor.reads_within_iff.mp reads
    | false =>
      obtain ⟨hstop, hmiss⟩ := reads
      exact ⟨Cursor.within_injective before after hstop,
        fun hfront => hmiss (hfront.trans (List.prefix_append _ _))⟩

theorem expect (text : String) : Local 0 (Scan.expect text) :=
  .bind (.eat text) fun _ => .ite (.pure _) .failure

theorem skipSpace : Local 0 Scan.skipSpace :=
  .bind (.takeWhile _) fun _ => .pure _

theorem name : Local 0 Scan.name :=
  .bind (.takeWhile _) fun _ => .ite (.pure _) .failure

/-- Reading up to a character stays in the stretch, wherever it stops. -/
theorem takeUntil {test : List Char → Bool} {isEnd : Char → Bool}
    (htest : ∀ c cs, test (c :: cs) = isEnd c) : Local 0 (Scan.takeUntil test) where
  advances := advances_takeUntil test
  alone := by
    have hnext {cs : List Char} (after : List Char) (hne : cs ≠ []) : test (cs ++ after) = test cs := by
      cases cs with
      | nil => exact absurd rfl hne
      | cons c cs => rw [List.cons_append, htest, htest]
    intro before after start read stop h _
    obtain ⟨reads, hlegal, hfirst, hend⟩ := run_takeUntil_eq_some_iff.mp h
    refine run_takeUntil_eq_some_iff.mpr
      ⟨Cursor.reads_within_iff.mp reads, hlegal, fun back hback hne => ?_, ?_⟩
    · have hmiss := hfirst back hback hne
      rwa [Cursor.within, ← List.append_assoc, hnext after (by simp [hne])] at hmiss
    · -- Where the stretch ends, reading may have stopped at what follows it in the document.
      by_cases hnil : stop.rest = []
      · exact Or.inl hnil
      · rcases hend with hnone | hhit
        · exact absurd (List.append_eq_nil_iff.mp hnone).1 hnil
        · exact Or.inr (by rwa [Cursor.within, hnext after hnil] at hhit)

theorem takeThrough (text : String) : Local 0 (Scan.takeThrough text) where
  advances := advances_takeThrough text
  alone := by
    intro before after start read stop h _
    obtain ⟨reads, hlegal, hfirst⟩ := run_takeThrough_eq_some_iff.mp h
    refine run_takeThrough_eq_some_iff.mpr
      ⟨Cursor.reads_within_iff.mp reads, hlegal, fun back hback hne hfront => hfirst back hback hne ?_⟩
    rw [Cursor.within, ← List.append_assoc]
    exact hfront.trans (List.prefix_append _ _)

/-- Items that take something each are as many in the stretch, though its length bounds them, not that of the
document. -/
theorem many {item? : Scan (Option α)} (hitem : Local n item?)
    (consumes : ∀ ⦃start item stop⦄, item?.run start = some (some item, stop) →
      ∃ read, start.Reads read stop ∧ read ≠ []) : Local n (Scan.many item?) where
  advances := advances_many hitem.advances
  alone := by
    intro before after start items stop h hleft
    rw [Scan.many, run_rest_bind] at h ⊢
    generalize (start.within before after).rest.length + 1 = bound at h
    generalize hbound' : start.rest.length + 1 = bound'
    have hbound : start.rest.length < bound' := by omega
    clear hbound'
    -- By the bound in the document. That of the stretch may be any that is large enough.
    induction bound generalizing start items bound' with
    | zero => exact absurd h run_failure_ne_some
    | succ bound ih =>
      obtain ⟨found, middle, hfound, hrest⟩ := run_bind_eq_some_iff.mp h
      obtain ⟨bound', rfl⟩ := Nat.exists_eq_succ_of_ne_zero (Nat.ne_zero_of_lt hbound)
      cases found with
      | none =>
        obtain ⟨rfl, rfl⟩ := run_pure_eq_some_iff.mp hrest
        exact run_bind_eq_some_iff.mpr ⟨none, stop, hitem.alone hfound hleft, rfl⟩
      | some item =>
        obtain ⟨others, last, hothers, hdone⟩ := run_bind_eq_some_iff.mp hrest
        obtain ⟨rfl, rfl⟩ := run_pure_eq_some_iff.mp hdone
        obtain ⟨read, reads, hread⟩ := consumes hfound
        have hadvances : Advances (Scan.many.within item? bound) := advances_within hitem.advances bound
        obtain ⟨more, readsMore⟩ := hadvances hothers
        obtain ⟨inner, rfl, readsRead, readsInner⟩ := Cursor.exists_within_of_reads reads readsMore
        have hpos := List.length_pos_iff.mpr hread
        have hlength := congrArg List.length readsRead.rest
        have hlength' := congrArg List.length readsInner.rest
        rw [List.length_append] at hlength hlength'
        refine run_bind_eq_some_iff.mpr ⟨some item, inner, hitem.alone hfound (by omega), ?_⟩
        exact run_bind_eq_some_iff.mpr ⟨others, stop, ih hothers bound' (by omega), rfl⟩

end Local

end Scan

end Exemplar.Markup
