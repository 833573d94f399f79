import Exemplar.Proofs.Project.Pool
import Mathlib.Data.List.Count

/-!
# How many the limit admits

Files that ask at the same time look at what all share, take a number and let the others know, each step by
itself and with any steps of the others in between. More of them may take a number than the limit allows, since
they have looked before anybody let them know. Still as many are admitted as the limit allows, or all of them.

While the limit is not known to be exceeded nobody has been refused, so all who took a number are admitted or are
about to let it be known. Those who are admitted are the ones with the first numbers.
-/

namespace Exemplar

/-! ### A crowd -/

/-- Somebody who asks for a file: how far that is, or what the answer was. -/
inductive Caller where
  | asking (stage : Admission)
  | told (answer : Bool)
deriving DecidableEq

/-- Somebody after a step past the limit. -/
def Caller.after : Admission ⊕ Bool → Caller :=
  Sum.elim asking told

/-- The stage of somebody who has no answer yet. -/
def Caller.stage? : Caller → Option Admission
  | asking stage => some stage
  | told _ => none

/-- Some who ask for a file each. -/
structure Crowd where
  callers : List Caller
  limit : FileLimit

namespace Crowd

/-- So many, all of them about to ask. -/
def start (max? : Option Nat) (n : Nat) : Crowd :=
  ⟨.replicate n (.asking .looking), { max? }⟩

/-- One of them takes the next step, whoever it is. -/
inductive Step : Crowd → Crowd → Prop
  | turn (before behind : List Caller) {stage : Admission} {next : Admission ⊕ Bool} {limit limit' : FileLimit}
      (hpass : limit.pass stage = (next, limit')) :
      Step ⟨before ++ .asking stage :: behind, limit⟩ ⟨before ++ .after next :: behind, limit'⟩

/-- Any number of steps. -/
abbrev Steps : Crowd → Crowd → Prop :=
  Relation.ReflTransGen Step

/-- Those who have no answer yet. -/
def waiting (crowd : Crowd) : List Admission :=
  crowd.callers.filterMap Caller.stage?

/-- Everybody has an answer. -/
def IsDone (crowd : Crowd) : Prop :=
  crowd.waiting = []

/-- How many of them are as far. -/
def count (crowd : Crowd) (caller : Caller) : Nat :=
  crowd.callers.count caller

end Crowd

/-- How many of the first so many numbers are within the limit. -/
def FileLimit.within (max? : Option Nat) (count : Nat) : Nat :=
  max?.elim count (min count)

theorem FileLimit.within_succ {limit : FileLimit} {count : Nat} : within limit.max? (count + 1) =
    within limit.max? count + if limit.allows count then 1 else 0 := by
  unfold within
  cases hmax : limit.max? with
  | none => simp [allows, hmax]
  | some max =>
    simp only [allows, hmax, Option.elim_some, Option.all_some, decide_eq_true_eq]
    split <;> omega

theorem FileLimit.within_lt_iff {max? : Option Nat} {count : Nat} :
    within max? count < count ↔ ∃ max, max? = some max ∧ max < count := by
  cases max? with
  | none => simp [within]
  | some max => simp [within]

namespace Crowd

/-- What is true of a crowd of `n`, whoever had the turns. -/
structure Sound (max? : Option Nat) (n : Nat) (crowd : Crowd) : Prop where
  length : crowd.callers.length = n
  max : crowd.limit.max? = max?
  /-- Nobody takes two numbers. -/
  taken : crowd.limit.taken + crowd.count (.asking .looking) + crowd.count (.asking .taking) ≤ n
  admitted : crowd.count (.told true) = FileLimit.within max? crowd.limit.taken
  exceeded : crowd.limit.exceeded = true → crowd.count (.told true) < crowd.limit.taken
  /-- Unless the limit is known to be exceeded, all who took a number are still there. -/
  unknown : crowd.limit.exceeded = false → crowd.count (.told false) = 0 ∧
    crowd.limit.taken = crowd.count (.told true) + crowd.count (.asking .closing)

variable {max? : Option Nat} {n : Nat} {crowd crowd' : Crowd}

/-! ### One step -/

/-- One of those at a stage takes a step past the limit, and nobody else moves. -/
structure Moves (crowd : Crowd) (stage : Admission) (crowd' : Crowd) : Prop where
  waits : 0 < crowd.count (.asking stage)
  length : crowd'.callers.length = crowd.callers.length
  limit : crowd'.limit = (crowd.limit.pass stage).2
  count : ∀ caller, crowd'.count caller + (if .asking stage = caller then 1 else 0) =
    crowd.count caller + if .after (crowd.limit.pass stage).1 = caller then 1 else 0

theorem Step.exists_moves (h : crowd.Step crowd') : ∃ stage, crowd.Moves stage crowd' := by
  obtain @⟨before, behind, stage, next, limit, limit', hpass⟩ := h
  refine ⟨stage, ?_, by simp, by rw [hpass], fun caller => ?_⟩
  · exact List.count_pos_iff.mpr (List.mem_append_right _ List.mem_cons_self)
  · rw [hpass]
    simp only [Crowd.count, List.count_append, List.count_cons, beq_iff_eq]
    omega

/-- How many there are then at each stage, and how many with each answer. -/
theorem Moves.counts {stage : Admission} {next : Admission ⊕ Bool} {limit : FileLimit}
    (h : crowd.Moves stage crowd') (hpass : crowd.limit.pass stage = (next, limit)) : crowd'.limit = limit ∧
    crowd'.count (.asking .looking) + (if stage = .looking then 1 else 0) =
      crowd.count (.asking .looking) + (if .after next = Caller.asking .looking then 1 else 0) ∧
    crowd'.count (.asking .taking) + (if stage = .taking then 1 else 0) =
      crowd.count (.asking .taking) + (if .after next = Caller.asking .taking then 1 else 0) ∧
    crowd'.count (.asking .closing) + (if stage = .closing then 1 else 0) =
      crowd.count (.asking .closing) + (if .after next = Caller.asking .closing then 1 else 0) ∧
    crowd'.count (.told true) = crowd.count (.told true) + (if .after next = Caller.told true then 1 else 0) ∧
    crowd'.count (.told false) = crowd.count (.told false) + (if .after next = Caller.told false then 1 else 0) := by
  have hlimit := h.limit
  have hcount := h.count
  rw [hpass] at hcount hlimit
  refine ⟨hlimit, ?_, ?_, ?_, ?_, ?_⟩
  · simpa using hcount (.asking .looking)
  · simpa using hcount (.asking .taking)
  · simpa using hcount (.asking .closing)
  · simpa using hcount (.told true)
  · simpa using hcount (.told false)

namespace Sound

theorem start (max? : Option Nat) (n : Nat) : Sound max? n (.start max? n) := by
  have hcount (caller : Caller) :
      (Crowd.start max? n).count caller = if .asking .looking = caller then n else 0 := by
    rw [Crowd.count, Crowd.start, List.count_replicate]
    simp only [beq_iff_eq]
  have htaken : (Crowd.start max? n).limit.taken = 0 := rfl
  constructor
  · exact List.length_replicate
  · rfl
  · simp [hcount, htaken]
  · rw [htaken, hcount]
    cases max? <;> simp [FileLimit.within]
  · exact fun h => by cases h
  · simp [hcount, htaken]

/-- Whoever looks is refused at once if the limit is known to be exceeded, and will take a number otherwise. -/
theorem look (h : crowd.Sound max? n) (hmoves : crowd.Moves .looking crowd') : crowd'.Sound max? n := by
  obtain ⟨hlength, hmax, htaken, hadmitted, hexceeded, hunknown⟩ := h
  cases hknown : crowd.limit.exceeded with
  | true =>
    have hpass : crowd.limit.pass .looking = (.inr false, crowd.limit) := by rw [FileLimit.pass, if_pos hknown]
    obtain ⟨hlimit, hcounts⟩ := hmoves.counts hpass
    simp only [Caller.after, Sum.elim_inr, Caller.told.injEq, reduceCtorEq, Bool.false_eq_true, ↓reduceIte,
      Nat.add_zero] at hcounts
    -- Whoever is refused here has no number, so there are as many numbers and as many admitted as before.
    have hless := hexceeded hknown
    refine ⟨hmoves.length.trans hlength, ?_, ?_, ?_, ?_, ?_⟩ <;> rw [hlimit]
    · exact hmax
    · omega
    · omega
    · omega
    · intro h
      cases hknown.symm.trans h
  | false =>
    obtain ⟨hlimit, hcounts⟩ := hmoves.counts (FileLimit.pass_looking hknown)
    simp only [Caller.after, Sum.elim_inl, Caller.asking.injEq, reduceCtorEq, ↓reduceIte, Nat.add_zero] at hcounts
    have hall := hunknown hknown
    refine ⟨hmoves.length.trans hlength, ?_, ?_, ?_, ?_, ?_⟩ <;> rw [hlimit]
    · exact hmax
    · omega
    · omega
    · intro h
      cases hknown.symm.trans h
    · omega

/-- Whoever takes a number is admitted, or will let it be known that there are too many. -/
theorem take (h : crowd.Sound max? n) (hmoves : crowd.Moves .taking crowd') : crowd'.Sound max? n := by
  obtain ⟨hlength, rfl, htaken, hadmitted, hexceeded, hunknown⟩ := h
  obtain ⟨hlimit, hcounts⟩ := hmoves.counts (FileLimit.pass_taking crowd.limit)
  have hmax : crowd'.limit.max? = crowd.limit.max? := by rw [hlimit]; rfl
  have hnumber : crowd'.limit.taken = crowd.limit.taken + 1 := by rw [hlimit]; rfl
  have hsame : crowd'.limit.exceeded = crowd.limit.exceeded := by rw [hlimit]; rfl
  have hsucc := @FileLimit.within_succ crowd.limit crowd.limit.taken
  rw [← hnumber] at hsucc
  -- Whether the number is within the limit, one more is admitted or is about to let it be known.
  have hmoved : crowd'.count (.asking .looking) = crowd.count (.asking .looking) ∧
      crowd'.count (.asking .taking) + 1 = crowd.count (.asking .taking) ∧
      crowd'.count (.told false) = crowd.count (.told false) ∧
      crowd'.count (.told true) + crowd'.count (.asking .closing) =
        crowd.count (.told true) + crowd.count (.asking .closing) + 1 ∧
      crowd'.count (.told true) ≤ crowd.count (.told true) + 1 ∧
      crowd'.count (.told true) = FileLimit.within crowd.limit.max? crowd'.limit.taken := by
    cases hallows : crowd.limit.allows crowd.limit.taken with
    | true =>
      simp only [hallows, Caller.after, Sum.elim_inr, Caller.told.injEq, reduceCtorEq, Bool.true_eq_false, ↓reduceIte,
        Nat.add_zero] at hcounts hsucc
      omega
    | false =>
      simp only [hallows, Caller.after, Sum.elim_inl, Caller.asking.injEq, reduceCtorEq, Bool.false_eq_true,
        ↓reduceIte, Nat.add_zero] at hcounts hsucc
      omega
  obtain ⟨hlooking, htaking, hrefused, hnumbered, hmore, hwithin⟩ := hmoved
  refine ⟨hmoves.length.trans hlength, hmax, by omega, hwithin, fun h => ?_, fun h => ?_⟩
  · have hless := hexceeded (hsame.symm.trans h)
    omega
  · have hall := hunknown (hsame.symm.trans h)
    omega

/-- Whoever lets it be known has a number beyond the limit. -/
theorem close (h : crowd.Sound max? n) (hmoves : crowd.Moves .closing crowd') : crowd'.Sound max? n := by
  obtain ⟨hlength, rfl, htaken, hadmitted, hexceeded, hunknown⟩ := h
  have hpass : crowd.limit.pass .closing = (.inr false, crowd.limit.close) := rfl
  obtain ⟨hlimit, hcounts⟩ := hmoves.counts hpass
  have hmax : crowd'.limit.max? = crowd.limit.max? := by rw [hlimit]; rfl
  have hnumber : crowd'.limit.taken = crowd.limit.taken := by rw [hlimit]; rfl
  have hclosed : crowd'.limit.exceeded = true := by rw [hlimit]; rfl
  have hless : crowd.count (.told true) < crowd.limit.taken := by
    cases hknown : crowd.limit.exceeded with
    | true => exact hexceeded hknown
    | false =>
      -- Nobody has let it be known before, so this one has a number and is not admitted.
      have hall := hunknown hknown
      have hwaits := hmoves.waits
      omega
  simp only [Caller.after, Sum.elim_inr, Caller.told.injEq, reduceCtorEq, Bool.false_eq_true, ↓reduceIte,
    Nat.add_zero] at hcounts
  refine ⟨hmoves.length.trans hlength, hmax, by omega, ?_, fun _ => by omega, fun h => ?_⟩
  · rw [hnumber]
    omega
  · cases hclosed.symm.trans h

theorem step (h : crowd.Sound max? n) (hstep : crowd.Step crowd') : crowd'.Sound max? n := by
  obtain ⟨stage, hmoves⟩ := hstep.exists_moves
  cases stage with
  | looking => exact h.look hmoves
  | taking => exact h.take hmoves
  | closing => exact h.close hmoves

theorem steps (h : crowd.Sound max? n) (hsteps : crowd.Steps crowd') : crowd'.Sound max? n := by
  induction hsteps with
  | refl => exact h
  | tail _ hstep ih => exact ih.step hstep

end Sound

/-! ### A whole run -/

theorem length_callers (crowd : Crowd) : crowd.callers.length =
    crowd.count (.asking .looking) + crowd.count (.asking .taking) + crowd.count (.asking .closing) +
      crowd.count (.told true) + crowd.count (.told false) := by
  obtain ⟨callers, limit⟩ := crowd
  unfold Crowd.count
  induction callers with
  | nil => rfl
  | cons caller callers ih =>
    simp only [List.length_cons, List.count_cons, ih]
    rcases caller with (_ | _ | _) | (_ | _) <;> simp <;> omega

theorem isDone_iff : crowd.IsDone ↔ ∀ stage, crowd.count (.asking stage) = 0 := by
  unfold IsDone waiting Crowd.count
  simp only [List.count_eq_zero, List.filterMap_eq_nil_iff]
  constructor
  · intro h stage hmem
    cases h _ hmem
  · intro h caller hmem
    cases caller with
    | asking stage => exact absurd hmem (h stage)
    | told answer => rfl

/-- As many are admitted in the end as the limit allows, all others are refused, and the limit is known to be exceeded
if there are others. -/
theorem Sound.answers_of_isDone (h : crowd.Sound max? n) (done : crowd.IsDone) :
    crowd.count (.told true) = FileLimit.within max? n ∧
      crowd.count (.told true) + crowd.count (.told false) = n ∧
      (crowd.limit.exceeded = true ↔ ∃ max, max? = some max ∧ max < n) := by
  obtain ⟨hlength, hmax, htaken, hadmitted, hexceeded, hunknown⟩ := h
  rw [length_callers] at hlength
  have hnone := isDone_iff.mp done
  have hlooking := hnone .looking
  have htaking := hnone .taking
  have hclosing := hnone .closing
  rw [← FileLimit.within_lt_iff]
  cases hknown : crowd.limit.exceeded with
  | false =>
    -- All have taken a number, and none is beyond the limit.
    have hall := hunknown hknown
    have hnumber : crowd.limit.taken = n := by omega
    rw [hnumber] at hadmitted
    refine ⟨hadmitted, by omega, ?_⟩
    simp only [Bool.false_eq_true, false_iff, Nat.not_lt]
    omega
  | true =>
    -- A number beyond the limit was taken, so more have asked than the limit allows.
    have hless := hexceeded hknown
    rw [hadmitted, FileLimit.within_lt_iff] at hless
    obtain ⟨max, rfl, hmax⟩ := hless
    have htaken' : crowd.limit.taken ≤ n := by omega
    simp only [FileLimit.within, Option.elim_some] at hadmitted ⊢
    exact ⟨by omega, by omega, iff_of_true trivial (by omega)⟩

/-- Without a limit nobody is ever refused. -/
theorem Sound.open_of_none (h : crowd.Sound none n) :
    crowd.limit.exceeded = false ∧ crowd.count (.told false) = 0 := by
  have hopen : crowd.limit.exceeded = false := by
    rw [← Bool.not_eq_true]
    intro hknown
    have hless := h.exceeded hknown
    rw [h.admitted, FileLimit.within_lt_iff] at hless
    obtain ⟨max, hmax, -⟩ := hless
    cases hmax
  exact ⟨hopen, (h.unknown hopen).1⟩

/-- At most how many steps there are to go. -/
def ahead (crowd : Crowd) : Nat :=
  3 * crowd.count (.asking .looking) + 2 * crowd.count (.asking .taking) + crowd.count (.asking .closing)

theorem Step.ahead_lt (h : crowd.Step crowd') : crowd'.ahead < crowd.ahead := by
  obtain ⟨stage, hmoves⟩ := h.exists_moves
  have hwaits := hmoves.waits
  unfold ahead
  cases stage with
  | looking =>
    obtain ⟨-, hcounts⟩ := hmoves.counts rfl
    cases hknown : crowd.limit.exceeded <;> simp [hknown, Caller.after] at hcounts <;> omega
  | taking =>
    obtain ⟨-, hcounts⟩ := hmoves.counts (FileLimit.pass_taking crowd.limit)
    cases hallows : crowd.limit.allows crowd.limit.taken <;> simp [hallows, Caller.after] at hcounts <;> omega
  | closing =>
    obtain ⟨-, hcounts⟩ := hmoves.counts rfl
    simp only [Caller.after, Sum.elim_inr, Caller.told.injEq, reduceCtorEq, Bool.false_eq_true, ↓reduceIte,
      Nat.add_zero] at hcounts
    omega

/-- Somebody who waits can go on at once. -/
theorem exists_step {stage : Admission} {others : List Admission} (h : crowd.waiting.Perm (stage :: others)) :
    ∃ crowd', crowd.Step crowd' ∧ crowd'.limit = (crowd.limit.pass stage).2 ∧
      crowd'.waiting.Perm ((Caller.after (crowd.limit.pass stage).1).stage?.toList ++ others) := by
  obtain ⟨callers, limit⟩ := crowd
  obtain ⟨caller, hmem, hcaller⟩ := List.mem_filterMap.mp (h.mem_iff.mpr List.mem_cons_self)
  obtain rfl : caller = .asking stage := by
    cases caller with
    | asking other => rw [Option.some.inj hcaller]
    | told answer => cases hcaller
  -- The turn comes to somebody in the middle of the crowd, and the order of the others does not matter.
  obtain ⟨before, behind, rfl⟩ := List.append_of_mem hmem
  obtain ⟨next, limit', hpass⟩ : ∃ next limit', limit.pass stage = (next, limit') := ⟨_, _, rfl⟩
  rw [hpass]
  refine ⟨_, .turn before behind hpass, rfl, ?_⟩
  unfold waiting at h ⊢
  rw [List.filterMap_append, List.filterMap_cons_some hcaller] at h
  rw [List.filterMap_append, List.filterMap_cons]
  have hothers := (List.perm_middle.symm.trans h).cons_inv
  cases (Caller.after next).stage? with
  | none => exact hothers
  | some next => exact List.perm_middle.trans (hothers.cons next)

/-- Whatever was done so far, all can get their answers. -/
theorem exists_isDone (crowd : Crowd) : ∃ stop, crowd.Steps stop ∧ stop.IsDone := by
  -- There are fewer steps to go after each step, whoever takes it.
  induction hahead : crowd.ahead using Nat.strong_induction_on generalizing crowd with
  | _ ahead ih =>
    cases hwaiting : crowd.waiting with
    | nil => exact ⟨crowd, .refl, hwaiting⟩
    | cons stage others =>
      obtain ⟨crowd', hstep, -⟩ := exists_step (.of_eq hwaiting)
      obtain ⟨stop, hsteps, done⟩ := ih _ (hahead ▸ hstep.ahead_lt) crowd' rfl
      exact ⟨stop, .head hstep hsteps, done⟩

theorem waiting_start : (start max? n).waiting = .replicate n .looking := by
  simp [waiting, start, List.filterMap_replicate, Caller.stage?]

end Crowd

end Exemplar
