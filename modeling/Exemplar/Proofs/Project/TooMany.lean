import Exemplar.Proofs.Project.Ending
import Exemplar.Proofs.Project.Limit

/-!
# Too many files

As far as the limit goes, the workers on the files of a project are a crowd, whatever else they do between their steps
past the limit, and so are all workers one batch after the other. So the files are too many for the report exactly if
there are more of them than the limit allows, whoever has the turns, unless a misplaced lookup ends everything before.
That comes from the text of a file, and if it comes from all of them there is no word of the limit.
-/

namespace Exemplar

open Exemplar.Path (steps)

/-! ### Workers are a crowd -/

/-- How far a file is past the limit, unless it is past it. -/
def Stage.admission? : Stage → Option Admission
  | .admission stage => some stage
  | _ => none

def Progress.admission? : Progress → Option Admission
  | .next stage => stage.admission?
  | _ => none

namespace Stage

variable {source : FileSource Id} {settings : Settings} {path : String} {shared shared' : Shared} {stage : Stage}
  {progress : Progress}

/-- On the way past the limit, a file is somebody who asks. -/
theorem step_admission {admission : Admission}
    (h : Stage.step source settings path shared (.admission admission) = (progress, shared')) :
    shared'.limit = (shared.limit.pass admission).2 ∧
      progress.admission? = (Caller.after (shared.limit.pass admission).1).stage? := by
  rw [Stage.step] at h
  rcases hpass : shared.limit.pass admission with ⟨stage | _ | _, limit⟩ <;> rw [hpass] at h <;> cases h <;>
    exact ⟨rfl, rfl⟩

/-- A file that is past the limit does not come back to it. -/
theorem step_of_admitted (hstage : stage.admission? = none)
    (h : Stage.step source settings path shared stage = (progress, shared')) :
    shared'.limit = shared.limit ∧ progress.admission? = none := by
  cases stage with
  | admission admission => cases hstage
  | finding =>
    rw [Stage.step] at h
    split at h <;> cases h <;> exact ⟨rfl, rfl⟩
  | checking answer =>
    rw [Stage.step] at h
    split at h <;> cases h <;> exact ⟨rfl, rfl⟩
  | asking | keeping | forgetting =>
    cases h
    exact ⟨rfl, rfl⟩

end Stage

namespace Pool

/-- The files that ask, or will. -/
def asking (pool : Pool) : List Admission :=
  .replicate pool.pending.length .looking ++ pool.tasks.filterMap (·.2.admission?)

/-- As far as the limit goes, the workers are a crowd with those who will be on some more files. -/
structure IsCrowd (reserve : Nat) (pool : Pool) (crowd : Crowd) : Prop where
  limit : crowd.limit = pool.shared.limit
  waiting : crowd.waiting.Perm (pool.asking ++ .replicate reserve .looking)

variable {source : FileSource Id} {settings : Settings} {reserve : Nat} {pool pool' : Pool} {crowd : Crowd}

theorem asking_busy {pending : List String} {path : String} {stage : Stage} {findings : Findings}
    {workers : List Worker} {shared : Shared} {ended? : Option Text.Misplaced} :
    (Pool.asking ⟨pending, ⟨some (path, stage), findings⟩ :: workers, shared, ended?⟩).Perm
      (stage.admission?.toList ++ Pool.asking ⟨pending, workers, shared, ended?⟩) := by
  have htasks : Pool.tasks ⟨pending, ⟨some (path, stage), findings⟩ :: workers, shared, ended?⟩ =
      (path, stage) :: Pool.tasks ⟨pending, workers, shared, ended?⟩ :=
    rfl
  unfold asking
  rw [htasks, List.filterMap_cons]
  cases stage.admission? with
  | none => exact .refl _
  | some admission => exact List.perm_middle

/-- Each step is one of the crowd's, or none as far as the limit goes. -/
theorem IsCrowd.step (h : pool.IsCrowd reserve crowd) (hstep : Step source settings pool pool') :
    ∃ crowd', crowd.Steps crowd' ∧ pool'.IsCrowd reserve crowd' := by
  obtain ⟨hlimit, hwaiting⟩ := h
  cases hstep with
  | reorder hpending hworkers =>
    refine ⟨crowd, .refl, hlimit, hwaiting.trans (List.Perm.append_right _ ?_)⟩
    unfold asking tasks
    rw [hpending.length_eq]
    exact ((hworkers.filterMap _).filterMap _).append_left _
  | join => exact ⟨crowd, .refl, hlimit, hwaiting⟩
  | merge => exact ⟨crowd, .refl, hlimit, hwaiting⟩
  | @pull path pending findings workers shared =>
    refine ⟨crowd, .refl, hlimit, hwaiting.trans (List.Perm.append_right _ ?_)⟩
    exact (@asking_busy pending path (.admission .looking) findings workers shared none).symm
  | @work pending path stage findings workers shared shared' progress hstep =>
    have hafter : (Pool.asking ⟨pending, .after path findings progress :: workers, shared', progress.ended?⟩).Perm
        (progress.admission?.toList ++ Pool.asking ⟨pending, workers, shared, none⟩) := by
      cases progress with
      | next stage => exact asking_busy
      | refused | outcome | ended => exact .refl _
    have hothers := hwaiting.trans (asking_busy.append_right _)
    -- Only a file that asks to be let in is one of the crowd, and only its turn is a step of the crowd.
    cases hstage : stage.admission? with
    | none =>
      obtain ⟨hlimit', hprogress⟩ := Stage.step_of_admitted hstage hstep
      rw [hprogress] at hafter
      rw [hstage] at hothers
      exact ⟨crowd, .refl, hlimit.trans hlimit'.symm, hothers.trans (hafter.symm.append_right _)⟩
    | some admission =>
      obtain rfl : stage = .admission admission := by
        cases stage <;> cases hstage
        rfl
      obtain ⟨hlimit', hprogress⟩ := Stage.step_admission hstep
      rw [hstage, Option.toList_some, List.singleton_append, List.cons_append] at hothers
      obtain ⟨crowd', hturn, hlimit'', hwaiting'⟩ := Crowd.exists_step hothers
      rw [hlimit] at hlimit'' hwaiting'
      rw [← hprogress, ← List.append_assoc] at hwaiting'
      exact ⟨crowd', .single hturn, hlimit''.trans hlimit'.symm, hwaiting'.trans (hafter.symm.append_right _)⟩

theorem IsCrowd.steps (h : pool.IsCrowd reserve crowd) (hsteps : Steps source settings pool pool') :
    ∃ crowd', crowd.Steps crowd' ∧ pool'.IsCrowd reserve crowd' := by
  induction hsteps with
  | refl => exact ⟨crowd, .refl, h⟩
  | tail _ hstep ih =>
    obtain ⟨crowd', hcrowd, h'⟩ := ih
    obtain ⟨crowd'', hcrowd', h''⟩ := h'.step hstep
    exact ⟨crowd'', hcrowd.trans hcrowd', h''⟩

end Pool

/-- All workers, on all batches, are one crowd. -/
theorem Schedule.exists_crowd {source : FileSource Id} {settings : Settings} {batches : List (List String)}
    {run stop : Run} {crowd : Crowd} (h : Schedule source settings batches run stop) (hlimit : crowd.limit = run.limit)
    (hwaiting : crowd.waiting.Perm (.replicate batches.flatten.length .looking)) (going : stop.ended? = none) :
    ∃ crowd', crowd.Steps crowd' ∧ crowd'.IsDone ∧ crowd'.limit = stop.limit := by
  induction h generalizing crowd with
  | done => exact ⟨crowd, .refl, List.perm_nil.mp hwaiting, hlimit⟩
  | @batch files batches run stop findings shared hsteps hrest ih =>
    have hstart : Pool.IsCrowd batches.flatten.length ⟨files, [], run.shared, none⟩ crowd := by
      refine ⟨hlimit, ?_⟩
      rwa [List.flatten_cons, List.length_append, ← List.replicate_append_replicate,
        ← List.append_nil (List.replicate files.length _)] at hwaiting
    obtain ⟨crowd', hcrowd, hlimit', hwaiting'⟩ := hstart.steps hsteps
    obtain ⟨crowd'', hcrowd', done, hlimit''⟩ := ih hlimit' hwaiting' going
    exact ⟨crowd'', hcrowd.trans hcrowd', done, hlimit''⟩
  | ended => cases going

/-! ### The files of a project -/

namespace FileTree

variable {tree : FileTree} {settings : Settings} {paths : List String} {fault : Fault}

/-- The files that are handed to the workers. -/
def submitted (tree : FileTree) (settings : Settings) (paths : List String) : List String :=
  match tree.batches settings paths with
  | .ok batches => batches.flatten
  | .error _ => []

theorem submitted_of_batches {batches : List (List String)} (h : tree.batches settings paths = .ok batches) :
    tree.submitted settings paths = batches.flatten := by
  rw [submitted, h]

/-- No files are handed to anybody only if a pattern is at fault. -/
theorem exists_pattern_of_batches (h : tree.batches settings paths = .error fault) :
    ∃ pattern place, fault = .excludePattern pattern place := by
  -- Patterns are read twice: as they are written to validate them, and with slashes to use them.
  rcases Text.bind_eq_error_iff.mp h with hvalidate | ⟨_, _, hrest⟩
  · obtain ⟨pattern, -, hpattern⟩ := Text.exists_of_forM_eq_error hvalidate
    cases hglob : Glob.ofText pattern with
    | error place =>
      rw [hglob] at hpattern
      exact ⟨pattern, place, (Except.error.inj hpattern).symm⟩
    | ok glob =>
      rw [hglob] at hpattern
      cases hpattern
  · rcases Text.bind_eq_error_iff.mp hrest with hexclusions | ⟨_, _, hnone⟩
    · obtain ⟨pattern, -, hpattern⟩ := Text.exists_of_mapM_eq_error hexclusions
      cases hexclusion : Exclusion.ofText pattern with
      | error place =>
        rw [hexclusion] at hpattern
        exact ⟨pattern, place, (Except.error.inj hpattern).symm⟩
      | ok exclusion =>
        rw [hexclusion] at hpattern
        cases hpattern
    · cases hnone

end FileTree

theorem Run.report_eq_tooManyFiles_iff {run : Run} {max : Nat} (going : run.ended? = none) :
    (∃ count, run.report = .error (.tooManyFiles count max)) ↔
      run.limit.exceeded = true ∧ run.limit.max? = some max := by
  unfold report
  rw [going]
  cases run.limit.exceeded with
  | false => exact iff_of_false (fun ⟨_, h⟩ => by cases h) (fun h => by cases h.1)
  | true =>
    cases run.limit.max? with
    | none => exact iff_of_false (fun ⟨_, h⟩ => by cases h) (fun h => by cases h.2)
    | some max' =>
      constructor
      · rintro ⟨count, hreport⟩
        cases hreport
        exact ⟨rfl, rfl⟩
      · rintro ⟨-, hmax⟩
        cases hmax
        exact ⟨_, rfl⟩

/-- A project has too many files exactly if there are more than the limit allows, unless the check of a file ends
everything. -/
theorem FileTree.MayCheck.tooManyFiles_iff {tree : FileTree} {settings : Settings} {paths : List String}
    {outcome : Except Fault ProjectReport} {cache : Cache} (h : tree.MayCheck settings paths outcome cache) :
    ((∃ place, outcome = .error (.misplaced place)) ∧ tree.Ends settings (tree.submitted settings paths)) ∨
      ∀ max, (∃ count, outcome = .error (.tooManyFiles count max)) ↔
        settings.maxFiles? = some max ∧ max < (tree.submitted settings paths).length := by
  cases h with
  | refused hbatches =>
    obtain ⟨pattern, place, rfl⟩ := exists_pattern_of_batches hbatches
    refine .inr fun max => iff_of_false (fun ⟨_, h⟩ => by cases h) fun ⟨_, h⟩ => ?_
    -- Nobody has been given any file.
    rw [submitted, hbatches] at h
    cases h
  | @scheduled batches stop hbatches schedule =>
    rw [submitted_of_batches hbatches]
    cases hended : stop.ended? with
    | some place =>
      refine .inl ⟨⟨place, Run.report_of_ended hended⟩, ?_⟩
      refine (schedule.ends (List.Subset.refl _) (fun _ _ hfound => by cases hfound) rfl).resolve_left fun going => ?_
      cases hended.symm.trans going
    | none =>
      have hwaiting := @Crowd.waiting_start settings.maxFiles? batches.flatten.length
      obtain ⟨crowd, hsteps, done, hlimit⟩ := schedule.exists_crowd rfl (.of_eq hwaiting) hended
      have hsound := (Crowd.Sound.start _ _).steps hsteps
      obtain ⟨-, -, hexceeded⟩ := hsound.answers_of_isDone done
      refine .inr fun max => ?_
      rw [Run.report_eq_tooManyFiles_iff hended, ← hlimit, hexceeded, hsound.max]
      constructor
      · rintro ⟨⟨max', hmax', hless⟩, hmax⟩
        obtain rfl := Option.some.inj (hmax'.symm.trans hmax)
        exact ⟨hmax, hless⟩
      · rintro ⟨hmax, hless⟩
        exact ⟨⟨max, hmax, hless⟩, hmax⟩

/-- If the check of each file ends everything and the limit lets anybody in, there is never a word of too many files. -/
theorem FileTree.MayCheck.misplaced_of_stumbles {tree : FileTree} {settings : Settings} {paths : List String}
    {outcome : Except Fault ProjectReport} {cache : Cache} (h : tree.MayCheck settings paths outcome cache)
    (once : ((tree.submitted settings paths).map steps).Nodup)
    (hstumbles : ∀ path ∈ tree.submitted settings paths, tree.Stumbles settings path)
    (hsome : tree.submitted settings paths ≠ []) (hmax : settings.maxFiles? ≠ some 0) :
    ∃ place, outcome = .error (.misplaced place) := by
  cases h with
  | refused hbatches =>
    rw [submitted, hbatches] at hsome
    exact absurd rfl hsome
  | @scheduled batches stop hbatches schedule =>
    rw [submitted_of_batches hbatches] at once hstumbles hsome
    have hallows : (Run.ofMax settings.maxFiles?).limit.allows 0 = true := by
      refine FileLimit.allows_iff.mpr fun max hmax' => Nat.pos_of_ne_zero ?_
      rintro rfl
      exact hmax hmax'
    have hcache : (Run.ofMax settings.maxFiles?).cache.Faithful tree batches.flatten := fun _ _ hfound => by cases hfound
    have hended := schedule.ended_of_stumbles once hstumbles (List.Subset.refl _) hcache rfl hallows hsome
    obtain ⟨place, hplace⟩ := Option.isSome_iff_exists.mp hended
    exact ⟨place, Run.report_of_ended hplace⟩

/-- However the steps of all who ask come between each other, as many are admitted in the end as the limit allows, or
all of them, and the limit is known to be exceeded exactly if these are not all; without a limit nobody is ever refused.
So a project has too many files exactly if more are handed to the workers than the limit allows, whoever has the
turns, unless the check of one of them ends everything. -/
theorem FileLimit.admits_exactly (max? : Option Nat) (n : Nat) (tree : FileTree) (settings : Settings)
    (paths : List String) :
    (∀ crowd : Crowd, (Crowd.start max? n).Steps crowd →
      (∃ stop, crowd.Steps stop ∧ stop.IsDone) ∧
      (max? = none → crowd.limit.exceeded = false ∧ crowd.count (.told false) = 0) ∧
      (crowd.IsDone →
        crowd.count (.told true) = max?.elim n (min n) ∧ crowd.count (.told true) + crowd.count (.told false) = n ∧
        (crowd.limit.exceeded = true ↔ ∃ max, max? = some max ∧ max < n))) ∧
    ∀ outcome cache, tree.MayCheck settings paths outcome cache →
      ((∃ place, outcome = .error (.misplaced place)) ∧ tree.Ends settings (tree.submitted settings paths)) ∨
      ∀ max, (∃ count, outcome = .error (.tooManyFiles count max)) ↔
        settings.maxFiles? = some max ∧ max < (tree.submitted settings paths).length := by
  refine ⟨fun crowd hsteps => ?_, fun outcome cache h => h.tooManyFiles_iff⟩
  have hsound := (Crowd.Sound.start max? n).steps hsteps
  refine ⟨crowd.exists_isDone, ?_, hsound.answers_of_isDone⟩
  rintro rfl
  exact hsound.open_of_none

namespace FileTree

/-- Settings that allow for one file. -/
def singleSettings : Settings :=
  { exclude := [], maxFiles? := some 1 }

theorem submitted_twoFiles (text other : String) :
    (twoFiles text other).submitted singleSettings ["."] = ["./a.xml", "./b.xml"] := by
  have hbatches : (twoFiles text other).batches singleSettings ["."] = .ok [(twoFiles text other).filesFor [] "."] :=
    rfl
  rw [submitted, hbatches, filesFor_twoFiles]
  rfl

/-- Three who have all looked before anybody takes a number: two of the numbers are beyond the limit, and one is not.
Two files of a directory are one too many, whoever is first. -/
theorem admits_exactly_racing :
    (∃ crowd, (Crowd.start (some 1) 3).Steps crowd ∧ crowd.limit.taken = 3 ∧ crowd.IsDone ∧
      crowd.count (.told true) = 1 ∧ crowd.limit.exceeded = true) ∧
    ∀ outcome cache, (twoFiles plainFile plainFile).MayCheck singleSettings ["."] outcome cache →
      ∃ count, outcome = .error (.tooManyFiles count 1) := by
  obtain ⟨hcrowds, hchecks⟩ :=
    FileLimit.admits_exactly (some 1) 3 (twoFiles plainFile plainFile) singleSettings ["."]
  constructor
  · have hsteps : (Crowd.start (some 1) 3).Steps
        ⟨[.told true, .told false, .told false], ⟨some 1, 3, true⟩⟩ := by
      refine .head (.turn [] [.asking .looking, .asking .looking] rfl) ?_
      refine .head (.turn [.asking .taking] [.asking .looking] rfl) ?_
      refine .head (.turn [.asking .taking, .asking .taking] [] rfl) ?_
      refine .head (.turn [] [.asking .taking, .asking .taking] rfl) ?_
      refine .head (.turn [.told true] [.asking .taking] rfl) ?_
      refine .head (.turn [.told true, .asking .closing] [] rfl) ?_
      refine .head (.turn [.told true, .asking .closing] [] rfl) ?_
      exact .single (.turn [.told true] [.told false] rfl)
    obtain ⟨-, -, hdone⟩ := hcrowds _ hsteps
    obtain ⟨hadmitted, -, hexceeded⟩ := hdone rfl
    exact ⟨_, hsteps, rfl, rfl, hadmitted, hexceeded.mpr ⟨1, rfl, by decide⟩⟩
  · intro outcome cache h
    have hsubmitted := submitted_twoFiles plainFile plainFile
    rcases hchecks _ _ h with ⟨-, hends⟩ | hcount
    · -- Neither of the files ends anything.
      rw [hsubmitted] at hends
      obtain ⟨path, hmem, hstumbles⟩ := hends.exists_stumbles (by decide +kernel)
      have hsize : plainFile.toUTF8.size ≤ sizeLimit := by decide +kernel
      exact absurd hstumbles (steady_twoFiles hsize hsize (by decide +kernel) (by decide +kernel) path hmem)
    · refine (hcount 1).mpr ⟨rfl, ?_⟩
      rw [hsubmitted]
      decide

/-- There is no word of too many files if the check of each of two ends everything, although the limit is one: whoever
has the turns, one of them is let in. -/
theorem limit_endedFiles :
    (twoFiles Rule.accentedFile Rule.accentedFile).submitted singleSettings ["."] = ["./a.xml", "./b.xml"] ∧
    (∃ outcome cache, (twoFiles Rule.accentedFile Rule.accentedFile).MayCheck singleSettings ["."] outcome cache) ∧
    ∀ outcome cache, (twoFiles Rule.accentedFile Rule.accentedFile).MayCheck singleSettings ["."] outcome cache →
      (∃ place, outcome = .error (.misplaced place)) ∧ ¬ ∃ count, outcome = .error (.tooManyFiles count 1) := by
  have hsubmitted := submitted_twoFiles Rule.accentedFile Rule.accentedFile
  have hsize : Rule.accentedFile.toUTF8.size ≤ sizeLimit := by decide +kernel
  have hfirst : RuleFile.report singleSettings Code.reader "./a.xml" Rule.accentedFile =
      .error (.misplaced ⟨70⟩) := by
    decide +kernel
  have hsecond : RuleFile.report singleSettings Code.reader "./b.xml" Rule.accentedFile =
      .error (.misplaced ⟨70⟩) := by
    decide +kernel
  have hstumbles : ∀ path ∈ (twoFiles Rule.accentedFile Rule.accentedFile).submitted singleSettings ["."],
      (twoFiles Rule.accentedFile Rule.accentedFile).Stumbles singleSettings path := by
    rw [hsubmitted]
    intro path hmem
    rw [List.mem_cons, List.mem_singleton] at hmem
    rcases hmem with rfl | rfl
    · exact ⟨⟨70⟩, (outcome_of_read (read_twoFiles_first hsize)).trans hfirst⟩
    · exact ⟨⟨70⟩, (outcome_of_read (read_twoFiles_second hsize)).trans hsecond⟩
  refine ⟨hsubmitted, ⟨_, exists_mayCheck _ singleSettings ["."]⟩, fun outcome cache h => ?_⟩
  obtain ⟨place, rfl⟩ := h.misplaced_of_stumbles (by rw [hsubmitted]; decide +kernel) hstumbles
    (by rw [hsubmitted]; exact List.cons_ne_nil _ _) (by decide)
  refine ⟨⟨place, rfl⟩, ?_⟩
  rintro ⟨count, hcount⟩
  cases hcount

end FileTree

end Exemplar
