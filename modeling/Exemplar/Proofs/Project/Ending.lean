import Exemplar.Proofs.Project.Schedule

/-!
# What ends a run

A misplaced lookup in the text of a file ends everything. What a worker has for a file is what the tree has for it,
even if others have put it into the cache. So nothing ends a run but what ends the check of one of its files.

Where the check of each file ends everything, all ways to go come to such an end as long as the limit lets anybody in.
Until somebody takes the first number all files are still to be done, and whoever is past the limit goes on to the
check.
-/

namespace Exemplar

open Exemplar.Path (steps)

/-! ### What there is for a file -/

/-- The check of one of some files ends everything, with what was read at one of them that may stand for it. -/
def FileTree.Ends (tree : FileTree) (settings : Settings) (files : List String) : Prop :=
  ∃ path ∈ files, ∃ other ∈ files, steps other = steps path ∧ ∃ place,
    ((tree.answer other).mapError .remembered).bind (RuleFile.report settings Code.reader path) =
      .error (.misplaced place)

/-- What a cache has for files is what the tree has for them. -/
def Cache.Faithful (cache : Cache) (tree : FileTree) (files : List String) : Prop :=
  ∀ path answer, cache.find? path = some answer → ∃ other ∈ files, steps other = steps path ∧ answer = tree.answer other

/-- What a worker has for a file is what the tree has for it. -/
def Stage.Faithful (tree : FileTree) (files : List String) (path : String) : Stage → Prop
  | .keeping answer => answer = tree.answer path
  | .checking answer =>
    ∃ other ∈ files, steps other = steps path ∧ answer = (tree.answer other).mapError .remembered
  | _ => True

/-- What workers have for files is what the tree has for them. -/
structure Pool.Faithful (tree : FileTree) (settings : Settings) (files : List String) (pool : Pool) : Prop where
  pending : pool.pending ⊆ files
  tasks : ∀ path stage, (path, stage) ∈ pool.tasks → path ∈ files ∧ stage.Faithful tree files path
  cache : pool.shared.cache.Faithful tree files
  ended : pool.ended?.isSome = true → tree.Ends settings files

section

variable {tree : FileTree} {settings : Settings} {files pending : List String} {pool pool' : Pool} {path : String}
  {shared shared' : Shared} {progress : Progress}

/-- What a step of a worker comes to. -/
structure Progress.Faithful (tree : FileTree) (settings : Settings) (files : List String) (path : String)
    (progress : Progress) (shared : Shared) : Prop where
  next : ∀ stage, progress = .next stage → stage.Faithful tree files path
  cache : shared.cache.Faithful tree files
  ended : progress.ended?.isSome = true → tree.Ends settings files

/-- The file goes on with what the tree has for it. -/
theorem Progress.Faithful.goOn {stage : Stage} (hstage : stage.Faithful tree files path)
    (hcache : shared.cache.Faithful tree files) : (Progress.next stage).Faithful tree settings files path shared := by
  refine ⟨?_, hcache, fun hended => by cases hended⟩
  rintro _ ⟨⟩
  exact hstage

theorem Stage.Faithful.step {stage : Stage} (h : stage.Faithful tree files path) (hpath : path ∈ files)
    (hcache : shared.cache.Faithful tree files)
    (hstep : stage.step tree.read settings path shared = (progress, shared')) :
    progress.Faithful tree settings files path shared' := by
  cases stage with
  | admission admission =>
    rw [Stage.step] at hstep
    split at hstep
    next =>
      cases hstep
      exact .goOn trivial hcache
    next =>
      cases hstep
      exact .goOn trivial hcache
    next =>
      cases hstep
      exact ⟨(fun _ hnext => by cases hnext), hcache, fun hended => by cases hended⟩
  | finding =>
    rw [Stage.step] at hstep
    split at hstep
    next answer hfound =>
      cases hstep
      obtain ⟨other, hother, hsame, rfl⟩ := hcache path answer hfound
      exact .goOn ⟨other, hother, hsame, rfl⟩ hcache
    next =>
      cases hstep
      exact .goOn trivial hcache
  | asking =>
    cases hstep
    exact .goOn rfl hcache
  | keeping answer =>
    obtain rfl : answer = tree.answer path := h
    cases hstep
    -- The new entry is what the tree answers for the file itself; all others were there before.
    refine .goOn ⟨path, hpath, rfl, rfl⟩ fun other answer hfound => ?_
    rw [Cache.find?_keep] at hfound
    split at hfound
    next hsame => exact ⟨path, hpath, hsame, (Option.some.inj hfound).symm⟩
    next => exact hcache other answer hfound
  | checking answer =>
    -- The answer may have been kept for another path to the same place.
    obtain ⟨other, hother, hsame, rfl⟩ := h
    rw [Stage.step] at hstep
    split at hstep
    next place hplace =>
      cases hstep
      exact ⟨(fun _ hnext => by cases hnext), hcache, fun _ => ⟨path, hpath, other, hother, hsame, place, hplace⟩⟩
    next =>
      cases hstep
      exact .goOn trivial hcache
  | forgetting outcome =>
    cases hstep
    refine ⟨(fun _ hnext => by cases hnext), fun other answer hfound => ?_, fun hended => by cases hended⟩
    rw [Cache.find?_forget] at hfound
    split at hfound
    next => cases hfound
    next => exact hcache other answer hfound

theorem Pool.Faithful.start (hpending : pending ⊆ files) (hcache : shared.cache.Faithful tree files) :
    Pool.Faithful tree settings files ⟨pending, [], shared, none⟩ :=
  ⟨hpending, (fun _ _ htask => by cases htask), hcache, fun hended => by cases hended⟩

theorem Pool.Faithful.step (h : pool.Faithful tree settings files) (hstep : Pool.Step tree.read settings pool pool') :
    pool'.Faithful tree settings files := by
  obtain ⟨hpending, htasks, hcache, hended⟩ := h
  cases hstep with
  | reorder hpending' hworkers =>
    refine ⟨List.Subset.trans hpending'.symm.subset hpending, fun path stage hmem => htasks path stage ?_, hcache, hended⟩
    exact (hworkers.filterMap _).mem_iff.mpr hmem
  | join => exact ⟨hpending, htasks, hcache, hended⟩
  | merge => exact ⟨hpending, htasks, hcache, hended⟩
  | pull =>
    obtain ⟨hpath, hrest⟩ := List.cons_subset.mp hpending
    refine ⟨hrest, fun path stage hmem => ?_, hcache, hended⟩
    rcases List.mem_cons.mp hmem with hnew | hother
    · cases hnew
      exact ⟨hpath, trivial⟩
    · exact htasks path stage hother
  | @work pending path stage findings workers shared shared' progress hwork =>
    obtain ⟨hpath, hstage⟩ := htasks path stage List.mem_cons_self
    have hprogress := hstage.step hpath hcache hwork
    refine ⟨hpending, fun other stage' hmem => ?_, hprogress.cache, hprogress.ended⟩
    have hothers (hmem : (other, stage') ∈ workers.filterMap Worker.task?) :
        other ∈ files ∧ stage'.Faithful tree files other :=
      htasks other stage' (List.mem_cons_of_mem _ hmem)
    cases progress with
    | next stage =>
      rcases List.mem_cons.mp hmem with hnew | hother
      · cases hnew
        exact ⟨hpath, hprogress.next _ rfl⟩
      · exact hothers hother
    | refused | outcome | ended => exact hothers hmem

theorem Pool.Faithful.steps (h : pool.Faithful tree settings files)
    (hsteps : Pool.Steps tree.read settings pool pool') : pool'.Faithful tree settings files := by
  induction hsteps with
  | refl => exact h
  | tail _ hstep ih => exact ih.step hstep

/-- Nothing ends a run but what ends the check of one of its files. -/
theorem Schedule.ends {batches : List (List String)} {run stop : Run}
    (h : Schedule tree.read settings batches run stop) (hfiles : batches.flatten ⊆ files)
    (hcache : run.cache.Faithful tree files) (going : run.ended? = none) :
    stop.ended? = none ∨ tree.Ends settings files := by
  induction h with
  | done => exact .inl going
  | @batch batch batches run stop findings shared hsteps hrest ih =>
    obtain ⟨hbatch, hbatches⟩ := List.append_subset.mp hfiles
    exact ih hbatches ((Pool.Faithful.start hbatch hcache).steps hsteps).cache going
  | @ended batch batches run pool place hsteps hended =>
    obtain ⟨hbatch, -⟩ := List.append_subset.mp hfiles
    exact .inr (((Pool.Faithful.start hbatch hcache).steps hsteps).ended (by rw [hended]; rfl))

/-- If no file is given twice, such a file is one that ends everything whatever else is checked. -/
theorem FileTree.Ends.exists_stumbles (h : tree.Ends settings files) (once : (files.map steps).Nodup) :
    ∃ path ∈ files, tree.Stumbles settings path := by
  obtain ⟨path, hpath, other, hother, hsame, hplace⟩ := h
  obtain rfl := List.inj_on_of_nodup_map once hother hpath hsame
  exact ⟨other, hpath, hplace⟩

/-! ### Where every file ends everything -/

/-- A file that is past the limit and not checked yet. -/
def Stage.isUnchecked : Stage → Bool
  | .finding | .asking | .keeping _ | .checking _ => true
  | .admission _ | .forgetting _ => false

/-- All of so many files are still to be done, none of them has a number, and the next number is within the limit. -/
structure Pool.Unnumbered (count : Nat) (pool : Pool) : Prop where
  length : pool.todo.length = count
  stages : ∀ task ∈ pool.tasks, task.2.isUnnumbered = true
  known : pool.shared.limit.exceeded = false
  allows : pool.shared.limit.allows pool.shared.limit.taken = true

/-- Somebody is past the limit with a file that is not checked yet. -/
def Pool.HasUnchecked (pool : Pool) : Prop :=
  ∃ task ∈ pool.tasks, task.2.isUnchecked = true

theorem Pool.Unnumbered.start {limit : FileLimit} {cache : Cache} (known : limit.exceeded = false)
    (allows : limit.allows limit.taken = true) : Pool.Unnumbered files.length ⟨files, [], ⟨cache, limit⟩, none⟩ :=
  ⟨congrArg List.length (List.append_nil files), (fun _ htask => by cases htask), known, allows⟩

/-- Whoever takes the first number gets past the limit. -/
theorem Pool.Unnumbered.step {source : FileSource Id} {count : Nat} (h : pool.Unnumbered count)
    (hstep : Pool.Step source settings pool pool') : pool'.Unnumbered count ∨ pool'.HasUnchecked := by
  obtain ⟨hlength, hstages, hknown, hallows⟩ := h
  cases hstep with
  | reorder hpending hworkers =>
    have htasks := hworkers.filterMap Worker.task?
    refine .inl ⟨?_, fun task htask => hstages task (htasks.mem_iff.mpr htask), hknown, hallows⟩
    exact (hpending.append (htasks.map Prod.fst)).length_eq.symm.trans hlength
  | join => exact .inl ⟨hlength, hstages, hknown, hallows⟩
  | merge => exact .inl ⟨hlength, hstages, hknown, hallows⟩
  | pull =>
    refine .inl ⟨todo_perm.length_eq.trans hlength, fun task htask => ?_, hknown, hallows⟩
    rcases List.mem_cons.mp htask with rfl | hother
    · rfl
    · exact hstages task hother
  | @work pending path stage findings workers shared shared' progress hwork =>
    have hunnumbered : stage.isUnnumbered = true := hstages (path, stage) List.mem_cons_self
    cases stage with
    | admission admission =>
      cases admission with
      | looking =>
        rw [Stage.step, FileLimit.pass_looking hknown] at hwork
        cases hwork
        refine .inl ⟨hlength, fun task htask => ?_, hknown, hallows⟩
        rcases List.mem_cons.mp htask with rfl | hother
        · rfl
        · exact hstages task (List.mem_cons_of_mem _ hother)
      | taking =>
        rw [Stage.step, FileLimit.pass_taking, if_pos hallows] at hwork
        cases hwork
        exact .inr ⟨(path, .finding), List.mem_cons_self, rfl⟩
      | closing => cases hunnumbered
    | finding | asking | keeping | checking | forgetting => cases hunnumbered

/-- A file that ends everything goes on to its check, and there is nothing behind it. -/
theorem Stage.Faithful.step_of_isUnchecked {stage : Stage} (h : stage.Faithful tree files path) (hpath : path ∈ files)
    (once : (files.map steps).Nodup) (hstumbles : tree.Stumbles settings path) (hunchecked : stage.isUnchecked = true)
    (hstep : stage.step tree.read settings path shared = (progress, shared')) :
    progress.ended?.isSome = true ∨ ∃ stage', progress = .next stage' ∧ stage'.isUnchecked = true := by
  cases stage with
  | admission | forgetting => cases hunchecked
  | finding =>
    rw [Stage.step] at hstep
    split at hstep <;> cases hstep <;> exact .inr ⟨_, rfl, rfl⟩
  | asking | keeping =>
    cases hstep
    exact .inr ⟨_, rfl, rfl⟩
  | checking answer =>
    -- No other path leads to the file, so the answer is its own.
    obtain ⟨other, hother, hsame, rfl⟩ := h
    obtain rfl := List.inj_on_of_nodup_map once hother hpath hsame
    obtain ⟨place, hplace⟩ := hstumbles
    have houtcome : ((tree.answer other).mapError .remembered).bind (RuleFile.report settings Code.reader other) =
        .error (.misplaced place) :=
      hplace
    rw [Stage.step, houtcome] at hstep
    cases hstep
    exact .inl rfl

section

variable (once : (files.map steps).Nodup) (hstumbles : ∀ path ∈ files, tree.Stumbles settings path)

include once hstumbles

/-- Nobody who is past the limit is done with a file before the end. -/
theorem Pool.HasUnchecked.step (h : pool.HasUnchecked) (hfaithful : pool.Faithful tree settings files)
    (hstep : Pool.Step tree.read settings pool pool') : pool'.ended?.isSome = true ∨ pool'.HasUnchecked := by
  obtain ⟨⟨path, stage⟩, htask, hunchecked⟩ := h
  cases hstep with
  | reorder _ hworkers => exact .inr ⟨_, (hworkers.filterMap _).mem_iff.mp htask, hunchecked⟩
  | join => exact .inr ⟨_, htask, hunchecked⟩
  | merge => exact .inr ⟨_, htask, hunchecked⟩
  | pull => exact .inr ⟨_, List.mem_cons_of_mem _ htask, hunchecked⟩
  | @work pending path' stage' findings workers shared shared' progress hwork =>
    rcases List.mem_cons.mp htask with hturn | hother
    · cases hturn
      obtain ⟨hpath, hstage⟩ := hfaithful.tasks path stage htask
      rcases hstage.step_of_isUnchecked hpath once (hstumbles path hpath) hunchecked hwork with hended | hnext
      · exact .inl hended
      · obtain ⟨stage', rfl, hunchecked'⟩ := hnext
        exact .inr ⟨(path, stage'), List.mem_cons_self, hunchecked'⟩
    · refine .inr ⟨_, ?_, hunchecked⟩
      cases progress with
      | next stage => exact List.mem_cons_of_mem _ hother
      | refused | outcome | ended => exact hother

/-- Until the end nobody has a number, or somebody is past the limit. -/
theorem Pool.Unnumbered.steps {count : Nat} (h : pool.Unnumbered count) (hfaithful : pool.Faithful tree settings files)
    (hsteps : Pool.Steps tree.read settings pool pool') :
    pool'.ended?.isSome = true ∨ pool'.Unnumbered count ∨ pool'.HasUnchecked := by
  induction hsteps with
  | refl => exact .inr (.inl h)
  | tail hbefore hstep ih =>
    rcases ih with hended | hunnumbered | hunchecked
    · rw [hstep.ended?_eq_none] at hended
      cases hended
    · exact .inr (hunnumbered.step hstep)
    · exact (hunchecked.step once hstumbles (hfaithful.steps hbefore) hstep).imp_right .inr

/-- If each file ends everything and there is a number for one of them, all ways to go come to such an end. -/
theorem Schedule.ended_of_stumbles {batches : List (List String)} {run stop : Run}
    (h : Schedule tree.read settings batches run stop) (hfiles : batches.flatten ⊆ files)
    (hcache : run.cache.Faithful tree files) (known : run.limit.exceeded = false)
    (allows : run.limit.allows run.limit.taken = true) (hsome : batches.flatten ≠ []) : stop.ended?.isSome = true := by
  induction h with
  | done => exact absurd rfl hsome
  | @batch batch batches run stop findings shared hsteps hrest ih =>
    obtain ⟨hbatch, hbatches⟩ := List.append_subset.mp hfiles
    have hfaithful : Pool.Faithful tree settings files ⟨batch, [], run.shared, none⟩ := .start hbatch hcache
    rcases (Pool.Unnumbered.start known allows).steps once hstumbles hfaithful hsteps with
      hended | ⟨hlength, -, hknown, hallows⟩ | ⟨_, htask, -⟩
    · cases hended
    · -- Only an empty batch is done without a number, and then the next one is as good as the first.
      obtain rfl := List.length_eq_zero_iff.mp hlength.symm
      exact ih hbatches (hfaithful.steps hsteps).cache hknown hallows hsome
    · cases htask
  | ended => rfl

end

end

end Exemplar
