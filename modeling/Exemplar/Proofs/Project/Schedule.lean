import Exemplar.Proofs.Files.Tree
import Exemplar.Proofs.Project.Order
import Exemplar.Proofs.Project.Pool
import Exemplar.Proofs.Report.Rule

/-!
# Schedules

The check of a project takes its paths one after the other, and has workers go over the files that each of them stands
for. Who has the next turn is left open, so there are many ways to go. They all come to the same report, unless one
of the files ends everything: each file adds what comes of it, and the order of the report knows nothing of the turns.
-/

namespace Exemplar

open Exemplar.Path (steps)

namespace Run

/-- What the workers share when they start. -/
def shared (run : Run) : Shared :=
  ⟨run.cache, run.limit⟩

/-- The run with what workers have gathered, and with what they leave behind. -/
def after (run : Run) (findings : Findings) (shared : Shared) : Run :=
  { run with
    cache := shared.cache
    limit := shared.limit
    files := run.files ++ findings.files
    failures := run.failures ++ findings.failures }

theorem after_shared (run : Run) : run.after {} run.shared = run := by
  simp [after, shared]

theorem report_of_ended {run : Run} {place : Text.Misplaced} (h : run.ended? = some place) :
    run.report = .error (.misplaced place) := by
  rw [report, h]
  rfl

/-- Nothing is done after the end. -/
theorem foldl_visit_of_ended {source : FileSource Id} {settings : Settings} {run : Run} {place : Text.Misplaced}
    (h : run.ended? = some place) (files : List String) : files.foldl (visit source settings) run = run := by
  induction files with
  | nil => rfl
  | cons path files ih =>
    have hvisit : run.visit source settings path = run := by
      rw [visit, if_pos (by rw [h]; rfl)]
    rw [List.foldl_cons, hvisit, ih]

/-- What comes of a file is added to what was gathered. -/
theorem record_after {run : Run} {findings : Findings} {shared : Shared} {path : String}
    {outcome : Except Fault (List RuleReport)} (h : ∀ place, outcome ≠ .error (.misplaced place)) :
    (run.after findings shared).record path outcome = run.after (findings.add path outcome) shared := by
  unfold record
  split
  next rules => simp [after, Findings.add]
  next place => exact absurd rfl (h place)
  next fault _ => simp [after, Findings.add]

end Run

/-- A way to go over some batches of files. -/
inductive Schedule (source : FileSource Id) (settings : Settings) : List (List String) → Run → Run → Prop
  | done {run : Run} : Schedule source settings [] run run
  | batch {files : List String} {batches : List (List String)} {run stop : Run} {findings : Findings} {shared : Shared}
      (hsteps : Pool.Steps source settings ⟨files, [], run.shared, none⟩ ⟨[], [⟨none, findings⟩], shared, none⟩)
      (hrest : Schedule source settings batches (run.after findings shared) stop) :
      Schedule source settings (files :: batches) run stop
  | ended {files : List String} {batches : List (List String)} {run : Run} {pool : Pool} {place : Text.Misplaced}
      (hsteps : Pool.Steps source settings ⟨files, [], run.shared, none⟩ pool) (hended : pool.ended? = some place) :
      Schedule source settings (files :: batches) run { run.after {} pool.shared with ended? := some place }

namespace FileTree

/-- The files that each path stands for. -/
def batches (tree : FileTree) (settings : Settings) (paths : List String) : Except Fault (List (List String)) := do
  settings.validate
  let exclusions ← settings.exclusions
  return paths.map (tree.filesFor exclusions)

/-- What the check of some paths may come to, and what the cache may keep in the end. -/
inductive MayCheck (tree : FileTree) (settings : Settings) (paths : List String) :
    Except Fault ProjectReport → Cache → Prop
  | refused {fault : Fault} (hbatches : tree.batches settings paths = .error fault) :
      MayCheck tree settings paths (.error fault) {}
  | scheduled {batches : List (List String)} {stop : Run} (hbatches : tree.batches settings paths = .ok batches)
      (schedule : Schedule tree.read settings batches (.ofMax settings.maxFiles?) stop) :
      MayCheck tree settings paths stop.report stop.cache

end FileTree

/-! ### One after the other -/

namespace Pool

variable {source : FileSource Id} {settings : Settings} {path : String} {pending files : List String}
  {stage : Stage} {findings : Findings} {workers : List Worker} {shared shared' : Shared} {progress : Progress}

theorem Steps.work (hstep : stage.step source settings path shared = (progress, shared')) :
    Steps source settings ⟨pending, ⟨some (path, stage), findings⟩ :: workers, shared, none⟩
      ⟨pending, .after path findings progress :: workers, shared', progress.ended?⟩ :=
  .single (.work hstep)

/-- Whether a file is admitted is the limit's answer to it, if nobody comes in between. -/
theorem Steps.admission : Steps source settings
    ⟨pending, ⟨some (path, .admission .looking), findings⟩ :: workers, shared, none⟩
    ⟨pending, ⟨if shared.limit.ask.1 then some (path, .finding) else none, findings⟩ :: workers,
      { shared with limit := shared.limit.ask.2 }, none⟩ := by
  -- The steps are those that the limit takes in one: it looks, takes a number, and closes if there is none left.
  cases hexceeded : shared.limit.exceeded with
  | true =>
    have hlooking : Stage.step source settings path shared (.admission .looking) = (.refused, shared) := by
      rw [Stage.step, FileLimit.pass, if_pos hexceeded]
    rw [FileLimit.ask, if_pos hexceeded]
    exact Steps.work hlooking
  | false =>
    have hlooking : Stage.step source settings path shared (.admission .looking) =
        (.next (.admission .taking), shared) := by
      rw [Stage.step, FileLimit.pass_looking hexceeded]
    refine (Steps.work hlooking).trans ?_
    rw [FileLimit.ask_of_not_exceeded hexceeded]
    cases hallows : shared.limit.allows shared.limit.taken with
    | true =>
      have htaking : Stage.step source settings path shared (.admission .taking) =
          (.next .finding, { shared with limit := shared.limit.take.2 }) := by
        rw [Stage.step, FileLimit.pass_taking, if_pos hallows]
      exact Steps.work htaking
    | false =>
      have htaking : Stage.step source settings path shared (.admission .taking) =
          (.next (.admission .closing), { shared with limit := shared.limit.take.2 }) := by
        rw [Stage.step, FileLimit.pass_taking, if_neg (by rw [hallows]; exact Bool.false_ne_true)]
      exact (Steps.work htaking).trans (Steps.work rfl)

/-- The text comes through the cache. -/
theorem Steps.read : Steps source settings ⟨pending, ⟨some (path, .finding), findings⟩ :: workers, shared, none⟩
    ⟨pending, ⟨some (path, .checking (shared.cache.read (m := Id) source path).1), findings⟩ :: workers,
      { shared with cache := (shared.cache.read (m := Id) source path).2 }, none⟩ := by
  cases hfound : shared.cache.find? path with
  | some kept =>
    have hread : shared.cache.read (m := Id) source path = (kept.mapError .remembered, shared.cache) := by
      rw [Cache.read, hfound]
      rfl
    have hfinding : Stage.step source settings path shared .finding =
        (.next (.checking (kept.mapError .remembered)), shared) := by
      rw [Stage.step, hfound]
    rw [hread]
    exact Steps.work hfinding
  | none =>
    have hread : shared.cache.read (m := Id) source path =
        (((source path : Except ReadFailure String).mapError (Fault.read path)).mapError .remembered,
          shared.cache.keep path ((source path : Except ReadFailure String).mapError (.read path))) := by
      rw [Cache.read, hfound]
      rfl
    have hfinding : Stage.step source settings path shared .finding = (.next .asking, shared) := by
      rw [Stage.step, hfound]
    rw [hread]
    exact ((Steps.work hfinding).trans (Steps.work rfl)).trans (Steps.work rfl)

/-- A worker who is alone does with the next file what a run does with it. -/
theorem Steps.visit {run : Run} (going : run.ended? = none) :
    (∃ findings' shared', (run.after findings shared).visit source settings path = run.after findings' shared' ∧
      Steps source settings ⟨path :: pending, [⟨none, findings⟩], shared, none⟩
        ⟨pending, [⟨none, findings'⟩], shared', none⟩) ∨
    ∃ place pool, ((run.after findings shared).visit source settings path).ended? = some place ∧
      Steps source settings ⟨path :: pending, [⟨none, findings⟩], shared, none⟩ pool ∧ pool.ended? = some place := by
  -- The worker takes the file and asks the limit, which answers the run in the same way.
  have hpull : Steps source settings ⟨path :: pending, [⟨none, findings⟩], shared, none⟩
      ⟨pending, [⟨some (path, .admission .looking), findings⟩], shared, none⟩ := .single .pull
  have hadmission := hpull.trans Steps.admission
  have hgoing : (run.after findings shared).ended? = none := going
  have hvisit : (run.after findings shared).visit source settings path =
      if shared.limit.ask.1 then
        Run.checkFile source settings { run.after findings shared with limit := shared.limit.ask.2 } path
      else { run.after findings shared with limit := shared.limit.ask.2 } := by
    rw [Run.visit, if_neg (by rw [hgoing]; exact Bool.false_ne_true)]
    rfl
  rw [hvisit]
  cases hadmitted : shared.limit.ask.1 with
  | false =>
    rw [hadmitted] at hadmission
    exact .inl ⟨findings, { shared with limit := shared.limit.ask.2 }, rfl, hadmission⟩
  | true =>
    rw [hadmitted] at hadmission
    -- Both get the same answer out of the same cache. Only what comes of it makes a difference.
    have hread := hadmission.trans Steps.read
    have hcheck : Run.checkFile source settings { run.after findings shared with limit := shared.limit.ask.2 } path =
        (run.after findings ⟨(shared.cache.read (m := Id) source path).2.forget path, shared.limit.ask.2⟩).record path
          ((shared.cache.read (m := Id) source path).1.bind (RuleFile.report settings Code.reader path)) := rfl
    rw [if_pos rfl, hcheck]
    generalize shared.cache.read (m := Id) source path = answer at hread ⊢
    obtain ⟨answer, cache⟩ := answer
    by_cases hends : ∃ place, answer.bind (RuleFile.report settings Code.reader path) = .error (.misplaced place)
    · obtain ⟨place, hplace⟩ := hends
      have hchecking : Stage.step source settings path ⟨cache, shared.limit.ask.2⟩ (.checking answer) =
          (.ended place, ⟨cache, shared.limit.ask.2⟩) := by
        rw [Stage.step, hplace]
      rw [hplace]
      exact .inr ⟨place, _, rfl, hread.trans (Steps.work hchecking), rfl⟩
    · have hgoes (place : Text.Misplaced) :
          answer.bind (RuleFile.report settings Code.reader path) ≠ .error (.misplaced place) :=
        fun hplace => hends ⟨place, hplace⟩
      rw [Run.record_after hgoes]
      exact .inl ⟨_, _, rfl, (hread.trans (Steps.work (Stage.step_checking hgoes))).trans (Steps.work rfl)⟩

/-- A worker who is alone does with all files what a run does with them. -/
theorem Steps.foldl_visit (files : List String) {run : Run} (going : run.ended? = none) :
    (∃ findings' shared', files.foldl (Run.visit source settings) (run.after findings shared) =
        run.after findings' shared' ∧
      Steps source settings ⟨files, [⟨none, findings⟩], shared, none⟩ ⟨[], [⟨none, findings'⟩], shared', none⟩) ∨
    ∃ place pool, (files.foldl (Run.visit source settings) (run.after findings shared)).ended? = some place ∧
      Steps source settings ⟨files, [⟨none, findings⟩], shared, none⟩ pool ∧ pool.ended? = some place := by
  induction files generalizing findings shared with
  | nil => exact .inl ⟨findings, shared, rfl, .refl⟩
  | cons path files ih =>
    rw [List.foldl_cons]
    rcases Steps.visit going with ⟨findings', shared', hvisit, hsteps⟩ | ⟨place, pool, hvisit, hsteps, hended⟩
    · rw [hvisit]
      rcases @ih findings' shared' with ⟨findings'', shared'', hfoldl, hrest⟩ | ⟨place, pool, hfoldl, hrest, hended⟩
      · exact .inl ⟨findings'', shared'', hfoldl, hsteps.trans hrest⟩
      · exact .inr ⟨place, pool, hfoldl, hsteps.trans hrest, hended⟩
    · rw [Run.foldl_visit_of_ended hvisit]
      exact .inr ⟨place, pool, hvisit, hsteps, hended⟩

end Pool

/-- To take one file after the other is one way to go. -/
theorem Schedule.exists_report_eq (source : FileSource Id) (settings : Settings) (batches : List (List String))
    {run : Run} (going : run.ended? = none) :
    ∃ stop, Schedule source settings batches run stop ∧
      stop.report = (batches.flatten.foldl (Run.visit source settings) run).report := by
  induction batches generalizing run with
  | nil => exact ⟨run, .done, rfl⟩
  | cons files batches ih =>
    have hjoin : Pool.Steps source settings ⟨files, [], run.shared, none⟩ ⟨files, [{}], run.shared, none⟩ :=
      .single .join
    have hfiles := @Pool.Steps.foldl_visit source settings {} run.shared files run going
    rw [Run.after_shared] at hfiles
    rw [List.flatten_cons, List.foldl_append]
    rcases hfiles with ⟨findings, shared, hfoldl, hsteps⟩ | ⟨place, pool, hfoldl, hsteps, hended⟩
    · obtain ⟨stop, hrest, hreport⟩ := @ih (run.after findings shared) going
      rw [hfoldl]
      exact ⟨stop, .batch (hjoin.trans hsteps) hrest, hreport⟩
    · -- The batches behind are not looked at.
      refine ⟨_, .ended (hjoin.trans hsteps) hended, ?_⟩
      rw [Run.foldl_visit_of_ended hfoldl, Run.report_of_ended hfoldl]
      rfl

/-! ### Every way to go -/

/-- A run that is through with some files has gathered what comes of them, and nothing is left in the cache. -/
structure Run.Through (tree : FileTree) (settings : Settings) (paths : List String) (run stop : Run) : Prop where
  steady : ∀ path ∈ paths, ¬ tree.Stumbles settings path
  going : stop.ended? = none
  within : stop.limit.exceeded = false
  fresh : stop.cache = {}
  files : (stop.files.mergeSort fun file other => Path.precedes file.path other.path) =
    (run.files ++ paths.filterMap (tree.fileReport? settings)).mergeSort fun file other =>
      Path.precedes file.path other.path
  failures : (stop.failures.mergeSort fun failure other => Path.precedes failure.path other.path) =
    (run.failures ++ paths.filterMap (tree.fileFailure? settings)).mergeSort fun failure other =>
      Path.precedes failure.path other.path

section

variable {tree : FileTree} {settings : Settings} {batches : List (List String)} {run stop : Run}

theorem FileTree.path_of_fileReport? (path : String) (file : FileReport)
    (h : tree.fileReport? settings path = some file) : file.path = path := by
  have hfile : tree.fileReport settings path = .ok file := by
    unfold fileReport? at h
    cases hreport : tree.fileReport settings path with
    | error fault =>
      rw [hreport] at h
      cases h
    | ok file' =>
      rw [hreport] at h
      rw [Option.some.inj h]
  exact (fileReport_eq_ok_iff.mp hfile).1

theorem FileTree.path_of_fileFailure? (path : String) (failure : FileFailure)
    (h : tree.fileFailure? settings path = some failure) : failure.path = path := by
  unfold fileFailure? at h
  split at h
  · cases h
  · rw [← Option.some.inj h]

theorem Run.sound_start {files : List String} (within : run.limit.exceeded = false) (fresh : run.cache = {})
    (once : (files.map steps).Nodup)
    (enough : ∀ max, run.limit.max? = some max → run.limit.taken + (files :: batches).flatten.length ≤ max) :
    Pool.Sound tree settings files batches.flatten.length ⟨files, [], run.shared, none⟩ := by
  refine .start once fresh within fun max hmax => ?_
  have henough := enough max hmax
  rw [List.flatten_cons, List.length_append, ← Nat.add_assoc] at henough
  exact henough

/-- Each way to go gets through with all files, or ends at one that ends everything. -/
theorem Schedule.through (h : Schedule tree.read settings batches run stop) (going : run.ended? = none)
    (within : run.limit.exceeded = false) (fresh : run.cache = {}) (once : ∀ files ∈ batches, (files.map steps).Nodup)
    (enough : ∀ max, run.limit.max? = some max → run.limit.taken + batches.flatten.length ≤ max) :
    run.Through tree settings batches.flatten stop ∨
      (∃ path ∈ batches.flatten, tree.Stumbles settings path) ∧ stop.ended?.isSome = true := by
  -- What the numbers of the batches behind need is the reserve of the one in front.
  induction h with
  | done => exact .inl ⟨nofun, going, within, fresh, by simp, by simp⟩
  | @batch files batches run stop findings shared hsteps hrest ih =>
    have hdistinct := once files List.mem_cons_self
    rw [List.flatten_cons]
    rcases (Run.sound_start within fresh hdistinct enough).steps hsteps with hstop | ⟨-, hended⟩
    · obtain ⟨hfiles, hfailures, hsteady, hfresh⟩ := hstop.gathered
      have honce (files : List String) (hmem : files ∈ batches) : (files.map steps).Nodup :=
        once files (List.mem_cons_of_mem _ hmem)
      rcases ih going hstop.within hfresh honce hstop.enough with hrest | ⟨⟨path, hmem, hstumbles⟩, hended⟩
      · refine .inl ⟨fun path hmem => ?_, hrest.going, hrest.within, hrest.fresh, ?_, ?_⟩
        · exact (List.mem_append.mp hmem).elim (hsteady path) (hrest.steady path)
        · exact mergeSort_batch FileTree.path_of_fileReport? hdistinct hfiles hrest.files
        · exact mergeSort_batch FileTree.path_of_fileFailure? hdistinct hfailures hrest.failures
      · exact .inr ⟨⟨path, List.mem_append_right _ hmem, hstumbles⟩, hended⟩
    · cases hended
  | @ended files batches run pool place hsteps hended =>
    have hdistinct := once files List.mem_cons_self
    rw [List.flatten_cons]
    rcases (Run.sound_start within fresh hdistinct enough).steps hsteps with hstop | ⟨⟨path, hmem, hstumbles⟩, -⟩
    · rw [hstop.going] at hended
      cases hended
    · exact .inr ⟨⟨path, List.mem_append_left _ hmem, hstumbles⟩, rfl⟩

/-! ### Reports -/

/-- A report with all that comes of some files, and nothing else. -/
structure ProjectReport.Collects (report : ProjectReport) (tree : FileTree) (settings : Settings)
    (paths : List String) : Prop where
  files : report.files.Perm (paths.filterMap (tree.fileReport? settings))
  failures : report.failures.Perm (paths.filterMap (tree.fileFailure? settings))
  filesInOrder : report.files.Pairwise fun file other => Path.precedes file.path other.path = true
  failuresInOrder : report.failures.Pairwise fun failure other => Path.precedes failure.path other.path = true
  filesChecked : report.filesChecked = report.files.length + report.failures.length
  /-- Each file is in one of the two lists. -/
  each : report.filesChecked = paths.length

/-- There is a report on a file or a failure, and never both. -/
theorem FileTree.fileReport?_or_fileFailure? (tree : FileTree) (settings : Settings) (path : String) :
    (∃ file, tree.fileReport? settings path = some file ∧ tree.fileFailure? settings path = none) ∨
      ∃ failure, tree.fileReport? settings path = none ∧ tree.fileFailure? settings path = some failure := by
  unfold fileReport? fileFailure? fileReport
  cases tree.outcome settings path with
  | ok rules => exact .inl ⟨_, rfl, rfl⟩
  | error fault => exact .inr ⟨_, rfl, rfl⟩

theorem FileTree.length_filterMap (tree : FileTree) (settings : Settings) (paths : List String) :
    (paths.filterMap (tree.fileReport? settings)).length + (paths.filterMap (tree.fileFailure? settings)).length =
      paths.length := by
  induction paths with
  | nil => rfl
  | cons path paths ih =>
    rcases tree.fileReport?_or_fileFailure? settings path with
      ⟨file, hreport, hfailure⟩ | ⟨failure, hreport, hfailure⟩
    · rw [List.filterMap_cons_some hreport, List.filterMap_cons_none hfailure, List.length_cons, List.length_cons, ← ih]
      omega
    · rw [List.filterMap_cons_none hreport, List.filterMap_cons_some hfailure, List.length_cons, List.length_cons, ← ih]
      omega

/-- The report on some files. -/
def FileTree.reportOn (tree : FileTree) (settings : Settings) (paths : List String) : ProjectReport where
  files := (paths.filterMap (tree.fileReport? settings)).mergeSort fun file other =>
    Path.precedes file.path other.path
  failures := (paths.filterMap (tree.fileFailure? settings)).mergeSort fun failure other =>
    Path.precedes failure.path other.path
  filesChecked := paths.length

theorem FileTree.collects_reportOn (tree : FileTree) (settings : Settings) (paths : List String) :
    (tree.reportOn settings paths).Collects tree settings paths where
  files := List.mergeSort_perm _ _
  failures := List.mergeSort_perm _ _
  filesInOrder := pairwise_precedes FileReport.path _
  failuresInOrder := pairwise_precedes FileFailure.path _
  filesChecked := by
    rw [reportOn, List.length_mergeSort, List.length_mergeSort, tree.length_filterMap]
  each := rfl

/-- What the report is does not depend on the way that the run has gone. -/
theorem Run.Through.report {paths : List String} {max? : Option Nat}
    (h : (Run.ofMax max?).Through tree settings paths stop) :
    stop.report = .ok (tree.reportOn settings paths) := by
  have hfiles : stop.files.length = (paths.filterMap (tree.fileReport? settings)).length := by
    simpa [Run.ofMax] using congrArg List.length h.files
  have hfailures : stop.failures.length = (paths.filterMap (tree.fileFailure? settings)).length := by
    simpa [Run.ofMax] using congrArg List.length h.failures
  have hlimit : stop.limit.exceeded = true → stop.limit.max?.isSome = true := by
    intro hexceeded
    rw [h.within] at hexceeded
    cases hexceeded
  refine (Run.report_eq_ok_iff hlimit).mpr ⟨h.going, h.within, ?_⟩
  rw [h.files, h.failures, hfiles, hfailures, tree.length_filterMap]
  rfl

end

namespace FileTree

variable {tree : FileTree} {settings : Settings} {paths : List String} {outcome : Except Fault ProjectReport}
  {cache : Cache} {batches : List (List String)}

theorem check_eq (tree : FileTree) (settings : Settings) (paths : List String) :
    tree.check settings paths = (tree.batches settings paths).bind fun batches =>
      (batches.flatten.foldl (Run.visit tree.read settings) (.ofMax settings.maxFiles?)).report := by
  unfold check batches
  cases settings.validate with
  | error fault => rfl
  | ok _ =>
    cases settings.exclusions with
    | error fault => rfl
    | ok exclusions => simp [Except.bind, bind, pure, Except.pure, List.flatMap]

/-- To check one file after the other is one of the ways. -/
theorem exists_mayCheck (tree : FileTree) (settings : Settings) (paths : List String) :
    ∃ cache, tree.MayCheck settings paths (tree.check settings paths) cache := by
  rw [check_eq]
  cases hbatches : tree.batches settings paths with
  | error fault => exact ⟨{}, .refused hbatches⟩
  | ok batches =>
    obtain ⟨stop, schedule, hreport⟩ :=
      Schedule.exists_report_eq tree.read settings batches (rfl : (Run.ofMax settings.maxFiles?).ended? = none)
    rw [Except.bind, ← hreport]
    exact ⟨stop.cache, .scheduled hbatches schedule⟩

theorem MayCheck.eq_of_error {fault : Fault} (h : tree.MayCheck settings paths outcome cache)
    (hbatches : tree.batches settings paths = .error fault) : outcome = .error fault ∧ cache = {} := by
  cases h with
  | refused hrefused =>
    obtain rfl := Except.error.inj (hrefused.symm.trans hbatches)
    exact ⟨rfl, rfl⟩
  | scheduled hscheduled => cases hscheduled.symm.trans hbatches

/-- Every way comes to the one report, or ends at a file that ends everything. -/
theorem MayCheck.cases_of_batches (h : tree.MayCheck settings paths outcome cache)
    (hbatches : tree.batches settings paths = .ok batches) (once : ∀ files ∈ batches, (files.map steps).Nodup)
    (within : ∀ max, settings.maxFiles? = some max → batches.flatten.length ≤ max) :
    ((∀ path ∈ batches.flatten, ¬ tree.Stumbles settings path) ∧
        outcome = .ok (tree.reportOn settings batches.flatten) ∧ cache = {}) ∨
      (∃ path ∈ batches.flatten, tree.Stumbles settings path) ∧ ∃ place, outcome = .error (.misplaced place) := by
  cases h with
  | refused hrefused => cases hrefused.symm.trans hbatches
  | @scheduled batches' stop hscheduled schedule =>
    obtain rfl := Except.ok.inj (hscheduled.symm.trans hbatches)
    have enough : ∀ max, (Run.ofMax settings.maxFiles?).limit.max? = some max →
        (Run.ofMax settings.maxFiles?).limit.taken + batches'.flatten.length ≤ max := by
      intro max hmax
      have hwithin := within max hmax
      rwa [← Nat.zero_add batches'.flatten.length] at hwithin
    refine (schedule.through rfl rfl rfl once enough).imp (fun hthrough => ?_) fun ⟨hstumbles, hended⟩ => ?_
    · exact ⟨hthrough.steady, hthrough.report, hthrough.fresh⟩
    · obtain ⟨place, hplace⟩ := Option.isSome_iff_exists.mp hended
      exact ⟨hstumbles, place, Run.report_of_ended hplace⟩

/-! ### The outcome -/

/-- If no path yields a file twice and there are not too many files, every way through the files of a project comes to
the same outcome, which is that of taking one after the other: a report with all that comes of the files, once for
each path that yields them, and in order. Nothing is left in the cache. Only a file that ends everything keeps
all others from being reported, and it always does. -/
theorem schedules_agree (tree : FileTree) (settings : Settings) (paths : List String)
    (once : ∀ batches, tree.batches settings paths = .ok batches → ∀ files ∈ batches, (files.map steps).Nodup)
    (within : ∀ batches max, tree.batches settings paths = .ok batches → settings.maxFiles? = some max →
      batches.flatten.length ≤ max) :
    (∃ cache, tree.MayCheck settings paths (tree.check settings paths) cache) ∧
    ∀ outcome cache, tree.MayCheck settings paths outcome cache →
      (∀ fault, tree.batches settings paths = .error fault → outcome = .error fault ∧ cache = {}) ∧
      ∀ batches, tree.batches settings paths = .ok batches →
        ((∃ path ∈ batches.flatten, tree.Stumbles settings path) → ∃ place, outcome = .error (.misplaced place)) ∧
        ((∀ path ∈ batches.flatten, ¬ tree.Stumbles settings path) →
          outcome = tree.check settings paths ∧ cache = {} ∧
            ∃ report, outcome = .ok report ∧ report.Collects tree settings batches.flatten) := by
  obtain ⟨cacheInTurn, hinTurn⟩ := tree.exists_mayCheck settings paths
  refine ⟨⟨cacheInTurn, hinTurn⟩, fun outcome cache h => ⟨fun fault => h.eq_of_error, fun batches hbatches => ⟨?_, ?_⟩⟩⟩
  · rintro ⟨path, hmem, hstumbles⟩
    rcases h.cases_of_batches hbatches (once batches hbatches) fun max => within batches max hbatches with
      ⟨hsteady, -⟩ | ⟨-, hended⟩
    · exact absurd hstumbles (hsteady path hmem)
    · exact hended
  · intro hsteady
    -- Both ways come to the one report on the files.
    have hreport {outcome : Except Fault ProjectReport} {cache : Cache}
        (h : tree.MayCheck settings paths outcome cache) :
        outcome = .ok (tree.reportOn settings batches.flatten) ∧ cache = {} := by
      rcases h.cases_of_batches hbatches (once batches hbatches) fun max => within batches max hbatches with
        ⟨-, hreported⟩ | ⟨⟨path, hmem, hstumbles⟩, -⟩
      · exact hreported
      · exact absurd hstumbles (hsteady path hmem)
    obtain ⟨houtcome, hcache⟩ := hreport h
    exact ⟨houtcome.trans (hreport hinTurn).1.symm, hcache, _, houtcome, tree.collects_reportOn settings _⟩

/-- A rule file without a query. -/
def plainFile : String :=
  "<rule name=\"A\"/>"

/-- Settings without patterns for exclusion. -/
def openSettings : Settings :=
  { exclude := [] }

theorem batches_twoFiles (text other : String) :
    (twoFiles text other).batches openSettings ["."] = .ok [["./a.xml", "./b.xml"]] := by
  have hbatches : (twoFiles text other).batches openSettings ["."] = .ok [(twoFiles text other).filesFor [] "."] := rfl
  rw [hbatches, filesFor_twoFiles]

theorem outcome_of_read {path text : String} (h : tree.read path = .ok text) :
    tree.outcome settings path = RuleFile.report settings Code.reader path text := by
  rw [outcome, h]
  rfl

/-- Nothing ends the check of two files whose texts have reports on their rules. -/
theorem steady_twoFiles {text other : String} (hsize : text.toUTF8.size ≤ sizeLimit)
    (hsize' : other.toUTF8.size ≤ sizeLimit)
    (hfirst : (RuleFile.report settings Code.reader "./a.xml" text).isOk = true)
    (hsecond : (RuleFile.report settings Code.reader "./b.xml" other).isOk = true) :
    ∀ path ∈ ["./a.xml", "./b.xml"], ¬ (twoFiles text other).Stumbles settings path := by
  rintro path hmem ⟨place, hplace⟩
  rw [List.mem_cons, List.mem_singleton] at hmem
  rcases hmem with rfl | rfl
  · rw [outcome_of_read (read_twoFiles_first hsize)] at hplace
    rw [hplace] at hfirst
    cases hfirst
  · rw [outcome_of_read (read_twoFiles_second hsize')] at hplace
    rw [hplace] at hsecond
    cases hsecond

/-- Two files of a directory, which nothing ends, have one report. -/
theorem schedules_agree_plainFiles :
    (∀ path ∈ ["./a.xml", "./b.xml"], ¬ (twoFiles plainFile plainFile).Stumbles openSettings path) ∧
      ∀ outcome cache, (twoFiles plainFile plainFile).MayCheck openSettings ["."] outcome cache →
        outcome = (twoFiles plainFile plainFile).check openSettings ["."] ∧ cache = {} ∧ ∃ report,
          outcome = .ok report ∧
            report.Collects (twoFiles plainFile plainFile) openSettings ["./a.xml", "./b.xml"] := by
  have hsize : plainFile.toUTF8.size ≤ sizeLimit := by decide +kernel
  have hsteady : ∀ path ∈ ["./a.xml", "./b.xml"], ¬ (twoFiles plainFile plainFile).Stumbles openSettings path :=
    steady_twoFiles hsize hsize (by decide +kernel) (by decide +kernel)
  have hbatches := batches_twoFiles plainFile plainFile
  refine ⟨hsteady, fun outcome cache h => ?_⟩
  have hagree := (schedules_agree (twoFiles plainFile plainFile) openSettings ["."] (fun batches h files hmem => ?_)
    fun batches max h hmax => ?_).2 outcome cache h
  · exact (hagree.2 _ hbatches).2 (by simpa using hsteady)
  · obtain rfl := Except.ok.inj (hbatches.symm.trans h)
    obtain rfl := List.mem_singleton.mp hmem
    decide +kernel
  · obtain rfl := Except.ok.inj (hbatches.symm.trans h)
    obtain rfl := Option.some.inj hmax
    decide

/-- There is no report on two files if one of them ends everything, although the other one has reports on its rules. -/
theorem check_unevenFiles :
    (twoFiles plainFile Rule.accentedFile).batches openSettings ["."] = .ok [["./a.xml", "./b.xml"]] ∧
      ((twoFiles plainFile Rule.accentedFile).outcome openSettings "./a.xml").isOk = true ∧
      ((twoFiles plainFile Rule.accentedFile).check openSettings ["."]).isOk = false := by
  have hsize : plainFile.toUTF8.size ≤ sizeLimit := by decide +kernel
  have hsize' : Rule.accentedFile.toUTF8.size ≤ sizeLimit := by decide +kernel
  have hfirst : (RuleFile.report openSettings Code.reader "./a.xml" plainFile).isOk = true := by decide +kernel
  have hsecond : RuleFile.report openSettings Code.reader "./b.xml" Rule.accentedFile =
      .error (.misplaced ⟨70⟩) := by
    decide +kernel
  have hbatches := batches_twoFiles plainFile Rule.accentedFile
  refine ⟨hbatches, ?_, ?_⟩
  · rw [outcome_of_read (read_twoFiles_first hsize)]
    exact hfirst
  · have hstumbles : (twoFiles plainFile Rule.accentedFile).Stumbles openSettings "./b.xml" :=
      ⟨⟨70⟩, (outcome_of_read (read_twoFiles_second hsize')).trans hsecond⟩
    obtain ⟨cache, hcheck⟩ := (twoFiles plainFile Rule.accentedFile).exists_mayCheck openSettings ["."]
    rcases hcheck.cases_of_batches hbatches (by decide +kernel) (by decide) with ⟨hsteady, -⟩ | ⟨-, place, hplace⟩
    · exact absurd hstumbles (hsteady _ (by decide))
    · rw [hplace]
      rfl

end FileTree

end Exemplar
