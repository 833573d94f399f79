import Exemplar.Files.Path
import Mathlib.Data.List.Lex
import Mathlib.Data.List.Sort

/-!
# The order of a report

Paths are in order by their steps. Reports are put in this order by a sort that leaves those with the same steps as
they come, so only the order of such reports has a part in the outcome.
-/

namespace Exemplar

/-! ### Paths -/

namespace Step

theorem rank_injective : Function.Injective rank := by
  intro step other h
  cases step <;> cases other <;> simp only [rank, List.cons.injEq, reduceCtorEq] at h <;> first
    | rfl
    | exact absurd h.1 (by decide)
    | skip
  next text text' =>
    have hchars := List.map_injective_iff.mpr (fun c d => Char.toNat_inj.mp) h.2
    rw [String.toList_inj.mp hchars]

end Step

namespace Path

variable {path other : String}

theorem rank_eq_iff : rank path = rank other ↔ steps path = steps other :=
  (List.map_injective_iff.mpr Step.rank_injective).eq_iff

theorem precedes_iff : precedes path other = true ↔ rank path ≤ rank other := by
  have hinner : (fun step step' : List Nat => List.lex step step' (fun m n => m < n) = true) =
      fun step step' => step < step' := by
    funext step step'
    simp only [List.lex_eq_true_iff_lex, decide_eq_true_eq]
    rfl
  rw [precedes, Bool.not_eq_true', List.lex_eq_false_iff_not_lex, hinner]
  exact not_lt (a := rank other) (b := rank path)

theorem precedes_trans {third : String} (h : precedes path other = true) (h' : precedes other third = true) :
    precedes path third = true :=
  precedes_iff.mpr ((precedes_iff.mp h).trans (precedes_iff.mp h'))

theorem precedes_total (path other : String) : (precedes path other || precedes other path) = true := by
  rw [Bool.or_eq_true, precedes_iff, precedes_iff]
  exact le_total _ _

theorem steps_eq_of_precedes (h : precedes path other = true) (h' : precedes other path = true) :
    steps path = steps other :=
  rank_eq_iff.mp (le_antisymm (precedes_iff.mp h) (precedes_iff.mp h'))

end Path

/-! ### Sorting -/

section Sorting

variable {α : Type} {le : α → α → Bool}

/-- The sort puts an element in front of the first one that it may stand before. -/
theorem mergeSort_cons_eq (trans : ∀ a b c, le a b = true → le b c = true → le a c = true)
    (total : ∀ a b, (le a b || le b a) = true) (a : α) (l : List α) :
    (a :: l).mergeSort le = (l.mergeSort le).orderedInsert (fun a b => le a b = true) a := by
  obtain ⟨front, back, hwith, hwithout, hfront⟩ := List.mergeSort_cons trans total a l
  have hback : ∀ b ∈ back, le a b = true := by
    have hsorted := List.pairwise_mergeSort trans total (a :: l)
    rw [hwith, List.pairwise_append, List.pairwise_cons] at hsorted
    exact hsorted.2.1.1
  rw [hwith, hwithout]
  clear hwith hwithout
  -- The element may not stand in front of anything in `front`, but in front of all of `back`.
  induction front with
  | nil =>
    cases back with
    | nil => rfl
    | cons b back => rw [List.nil_append, List.nil_append, List.orderedInsert, if_pos (hback b List.mem_cons_self)]
  | cons b front ih =>
    have hb : ¬ le a b = true := by simpa using hfront b List.mem_cons_self
    rw [List.cons_append, List.cons_append, List.orderedInsert, if_neg hb,
      ih fun c hc => hfront c (List.mem_cons_of_mem _ hc)]

/-- Elements with places of their own are put in in any order. -/
theorem orderedInsert_comm (trans : ∀ a b c, le a b = true → le b c = true → le a c = true)
    (total : ∀ a b, (le a b || le b a) = true) {a b : α} (apart : le a b = true → le b a = true → a = b)
    (l : List α) :
    (l.orderedInsert (fun a b => le a b = true) a).orderedInsert (fun a b => le a b = true) b =
      (l.orderedInsert (fun a b => le a b = true) b).orderedInsert (fun a b => le a b = true) a := by
  by_cases hab : a = b
  · rw [hab]
  have hone : ¬ (le a b = true ∧ le b a = true) := fun h => hab (apart h.1 h.2)
  have hother : le a b = true ∨ le b a = true := by simpa using total a b
  induction l with
  | nil =>
    simp only [List.orderedInsert]
    grind
  | cons c l ih =>
    have habc := trans a b c
    have hbac := trans b a c
    simp only [List.orderedInsert]
    grind [List.orderedInsert]

/-- What is in front is put in one by one, the last one first. -/
theorem mergeSort_append (trans : ∀ a b c, le a b = true → le b c = true → le a c = true)
    (total : ∀ a b, (le a b || le b a) = true) (front back : List α) :
    (front ++ back).mergeSort le =
      front.foldr (List.orderedInsert fun a b => le a b = true) (back.mergeSort le) := by
  induction front with
  | nil => rfl
  | cons a front ih => rw [List.cons_append, mergeSort_cons_eq trans total, ih, List.foldr_cons]

/-- Elements with places of their own may come in any order. -/
theorem mergeSort_append_of_perm (trans : ∀ a b c, le a b = true → le b c = true → le a c = true)
    (total : ∀ a b, (le a b || le b a) = true) {front front' : List α} (back : List α) (perm : front.Perm front')
    (apart : ∀ a ∈ front, ∀ b ∈ front, le a b = true → le b a = true → a = b) :
    (front ++ back).mergeSort le = (front' ++ back).mergeSort le := by
  rw [mergeSort_append trans total, mergeSort_append trans total]
  exact perm.foldr_eq' (fun a ha b hb l => orderedInsert_comm trans total (apart a ha b hb) l) _

end Sorting

/-! ### What comes of files -/

section Batch

open Exemplar.Path (steps)

variable {α : Type} {comes : String → Option α} {pathOf : α → String} {batch rest : List String}
  {earlier new later : List α}

/-- One may stand before another one if its path may. -/
theorem precedes_pathOf_trans (a b c : α) (h : Path.precedes (pathOf a) (pathOf b) = true)
    (h' : Path.precedes (pathOf b) (pathOf c) = true) : Path.precedes (pathOf a) (pathOf c) = true :=
  Path.precedes_trans h h'

theorem precedes_pathOf_total (a b : α) :
    (Path.precedes (pathOf a) (pathOf b) || Path.precedes (pathOf b) (pathOf a)) = true :=
  Path.precedes_total _ _

theorem pairwise_precedes (pathOf : α → String) (l : List α) :
    (l.mergeSort fun a b => Path.precedes (pathOf a) (pathOf b)).Pairwise fun a b =>
      Path.precedes (pathOf a) (pathOf b) = true :=
  List.pairwise_mergeSort precedes_pathOf_trans precedes_pathOf_total l

/-- What comes of two files has two places, as long as the files have. -/
theorem eq_of_precedes (hpath : ∀ path a, comes path = some a → pathOf a = path)
    (distinct : (batch.map steps).Nodup) {a b : α} (ha : a ∈ batch.filterMap comes) (hb : b ∈ batch.filterMap comes)
    (h : Path.precedes (pathOf a) (pathOf b) = true) (h' : Path.precedes (pathOf b) (pathOf a) = true) : a = b := by
  obtain ⟨path, hmem, hcomes⟩ := List.mem_filterMap.mp ha
  obtain ⟨path', hmem', hcomes'⟩ := List.mem_filterMap.mp hb
  rw [hpath path a hcomes, hpath path' b hcomes'] at h h'
  obtain rfl : path = path' :=
    List.inj_on_of_nodup_map distinct hmem hmem' (Path.steps_eq_of_precedes h h')
  exact Option.some.inj (hcomes.symm.trans hcomes')

/-- In whatever order new elements come from a batch, they end up in the same places. -/
theorem mergeSort_batch (hpath : ∀ path a, comes path = some a → pathOf a = path)
    (distinct : (batch.map steps).Nodup) (perm : new.Perm (batch.filterMap comes))
    (hlater : later.mergeSort (fun a b => Path.precedes (pathOf a) (pathOf b)) =
      (earlier ++ new ++ rest.filterMap comes).mergeSort fun a b => Path.precedes (pathOf a) (pathOf b)) :
    later.mergeSort (fun a b => Path.precedes (pathOf a) (pathOf b)) =
      (earlier ++ (batch ++ rest).filterMap comes).mergeSort fun a b => Path.precedes (pathOf a) (pathOf b) := by
  have hnew : (new ++ rest.filterMap comes).mergeSort (fun a b => Path.precedes (pathOf a) (pathOf b)) =
      (batch.filterMap comes ++ rest.filterMap comes).mergeSort fun a b =>
        Path.precedes (pathOf a) (pathOf b) :=
    mergeSort_append_of_perm precedes_pathOf_trans precedes_pathOf_total _ perm fun a ha b hb =>
      eq_of_precedes hpath distinct (perm.mem_iff.mp ha) (perm.mem_iff.mp hb)
  rw [hlater, List.append_assoc, mergeSort_append precedes_pathOf_trans precedes_pathOf_total, hnew,
    ← mergeSort_append precedes_pathOf_trans precedes_pathOf_total, List.filterMap_append]

end Batch

end Exemplar
