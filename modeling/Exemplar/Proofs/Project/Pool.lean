import Exemplar.Proofs.Files.Cache
import Exemplar.Proofs.Project.Check
import Mathlib.Algebra.Order.Group.Multiset
import Mathlib.Logic.Relation
import Mathlib.Tactic.Abel

/-!
# Workers on the files of a directory

The files that are found below a directory are shared out among workers, who also share the cache and the limit. What
a worker does with a file is cut into steps that nobody else comes in between of; before and after each of them any
other worker may have a turn. A worker gathers what comes out, and in the end all that was gathered is put together.

No file has a part in what comes of another one: while a worker is on a file, nobody else touches what the cache keeps
for it.
-/

namespace Exemplar

open Exemplar.Path (steps)

/-! ### One file -/

/-- The way of a file past the limit. -/
inductive Admission where
  /-- About to look whether the limit is known to be exceeded. -/
  | looking
  /-- About to take the next number. -/
  | taking
  /-- Beyond the limit, and about to let it be known. -/
  | closing
deriving DecidableEq, Repr

/-- One step past the limit: on to another one, or to the answer whether the file is admitted. -/
def FileLimit.pass (limit : FileLimit) : Admission → (Admission ⊕ Bool) × FileLimit
  | .looking => (if limit.exceeded then .inr false else .inl .taking, limit)
  | .taking =>
    let (number, limit) := limit.take
    (if limit.allows number then .inr true else .inl .closing, limit)
  | .closing => (.inr false, limit.close)

theorem FileLimit.pass_looking {limit : FileLimit} (h : limit.exceeded = false) :
    limit.pass .looking = (.inl .taking, limit) := by
  rw [pass, if_neg (by rw [h]; exact Bool.false_ne_true)]

theorem FileLimit.pass_taking (limit : FileLimit) : limit.pass .taking =
    (if limit.allows limit.taken then .inr true else .inl .closing, limit.take.2) :=
  rfl

/-- How far a worker is with a file. -/
inductive Stage where
  | admission (stage : Admission)
  /-- About to look for the file in the cache. -/
  | finding
  /-- About to ask for it, as it is not in the cache. -/
  | asking
  | keeping (answer : FileAnswer)
  | checking (answer : FileAnswer)
  | forgetting (outcome : Except Fault (List RuleReport))

/-- What all workers share. -/
structure Shared where
  cache : Cache := {}
  limit : FileLimit

/-- What a step leads to. -/
inductive Progress where
  | next (stage : Stage)
  /-- The file is one too many. -/
  | refused
  | outcome (outcome : Except Fault (List RuleReport))
  /-- A misplaced lookup ends everything. -/
  | ended (place : Text.Misplaced)

def Progress.ended? : Progress → Option Text.Misplaced
  | ended place => some place
  | _ => none

/-- The next step with a file. -/
def Stage.step (source : FileSource Id) (settings : Settings) (path : String) (shared : Shared) :
    Stage → Progress × Shared
  | .admission stage =>
    match shared.limit.pass stage with
    | (.inl stage, limit) => (.next (.admission stage), { shared with limit })
    | (.inr true, limit) => (.next .finding, { shared with limit })
    | (.inr false, limit) => (.refused, { shared with limit })
  | .finding =>
    match shared.cache.find? path with
    | some answer => (.next (.checking (answer.mapError .remembered)), shared)
    | none => (.next .asking, shared)
  | .asking => (.next (.keeping ((source path : Except ReadFailure String).mapError (.read path))), shared)
  | .keeping answer =>
    (.next (.checking (answer.mapError .remembered)), { shared with cache := shared.cache.keep path answer })
  | .checking answer =>
    match answer.bind (RuleFile.report settings Code.reader path) with
    | .error (.misplaced place) => (.ended place, shared)
    | outcome => (.next (.forgetting outcome), shared)
  | .forgetting outcome => (.outcome outcome, { shared with cache := shared.cache.forget path })

theorem Stage.step_checking {source : FileSource Id} {settings : Settings} {path : String} {shared : Shared}
    {answer : FileAnswer}
    (h : ∀ place, answer.bind (RuleFile.report settings Code.reader path) ≠ .error (.misplaced place)) :
    Stage.step source settings path shared (.checking answer) =
      (.next (.forgetting (answer.bind (RuleFile.report settings Code.reader path))), shared) := by
  rw [step]
  split
  next place hplace => exact absurd hplace (h place)
  next => rfl

/-! ### Workers -/

/-- What a worker gathers. -/
structure Findings where
  files : List FileReport := []
  failures : List FileFailure := []

namespace Findings

/-- Adds what came out for a file. -/
def add (findings : Findings) (path : String) : Except Fault (List RuleReport) → Findings
  | .ok rules => { findings with files := findings.files ++ [⟨path, rules⟩] }
  | .error fault => { findings with failures := findings.failures ++ [⟨path, fault.message⟩] }

/-- All that two have gathered. -/
def merge (findings others : Findings) : Findings :=
  ⟨findings.files ++ others.files, findings.failures ++ others.failures⟩

end Findings

/-- A worker, possibly on a file. -/
structure Worker where
  task? : Option (String × Stage) := none
  findings : Findings := {}

/-- A worker on a file, after a step. -/
def Worker.after (path : String) (findings : Findings) : Progress → Worker
  | .next stage => ⟨some (path, stage), findings⟩
  | .outcome outcome => ⟨none, findings.add path outcome⟩
  | .refused | .ended _ => ⟨none, findings⟩

/-- Files that nobody is on yet, and those who are on others. -/
structure Pool where
  pending : List String
  workers : List Worker := []
  shared : Shared
  ended? : Option Text.Misplaced := none

namespace Pool

/-- What may happen next. -/
inductive Step (source : FileSource Id) (settings : Settings) : Pool → Pool → Prop
  /-- Files are found, and workers have their turns, in any order. -/
  | reorder {pending pending' : List String} {workers workers' : List Worker} {shared : Shared}
      (hpending : pending.Perm pending') (hworkers : workers.Perm workers') :
      Step source settings ⟨pending, workers, shared, none⟩ ⟨pending', workers', shared, none⟩
  | join {pending : List String} {workers : List Worker} {shared : Shared} :
      Step source settings ⟨pending, workers, shared, none⟩ ⟨pending, {} :: workers, shared, none⟩
  | pull {path : String} {pending : List String} {findings : Findings} {workers : List Worker} {shared : Shared} :
      Step source settings ⟨path :: pending, ⟨none, findings⟩ :: workers, shared, none⟩
        ⟨pending, ⟨some (path, .admission .looking), findings⟩ :: workers, shared, none⟩
  | work {pending : List String} {path : String} {stage : Stage} {findings : Findings} {workers : List Worker}
      {shared shared' : Shared} {progress : Progress}
      (hstep : stage.step source settings path shared = (progress, shared')) :
      Step source settings ⟨pending, ⟨some (path, stage), findings⟩ :: workers, shared, none⟩
        ⟨pending, .after path findings progress :: workers, shared', progress.ended?⟩
  /-- Two who are done become one. -/
  | merge {pending : List String} {findings others : Findings} {workers : List Worker} {shared : Shared} :
      Step source settings ⟨pending, ⟨none, findings⟩ :: ⟨none, others⟩ :: workers, shared, none⟩
        ⟨pending, ⟨none, findings.merge others⟩ :: workers, shared, none⟩

/-- Nothing happens once everything is ended. -/
theorem Step.ended?_eq_none {source : FileSource Id} {settings : Settings} {pool pool' : Pool}
    (h : Step source settings pool pool') : pool.ended? = none := by
  cases h <;> rfl

/-- Any number of steps. -/
abbrev Steps (source : FileSource Id) (settings : Settings) : Pool → Pool → Prop :=
  Relation.ReflTransGen (Step source settings)

end Pool

/-- A file that has not taken its number. -/
def Stage.isUnnumbered : Stage → Bool
  | .admission .looking | .admission .taking => true
  | _ => false

namespace Pool

/-- The files that workers are on. -/
def tasks (pool : Pool) : List (String × Stage) :=
  pool.workers.filterMap Worker.task?

/-- The files that are not done. -/
def todo (pool : Pool) : List String :=
  pool.pending ++ pool.tasks.map Prod.fst

/-- How many files have not taken their numbers. -/
def unnumbered (pool : Pool) : Nat :=
  pool.pending.length + pool.tasks.countP (Stage.isUnnumbered ·.2)

section

variable {path : String} {pending : List String} {stage : Stage} {findings : Findings} {workers : List Worker}
  {shared : Shared} {ended? : Option Text.Misplaced}

/-- The file of the worker whose turn it is may as well stand in front of all others. -/
theorem todo_perm : (Pool.todo ⟨pending, ⟨some (path, stage), findings⟩ :: workers, shared, ended?⟩).Perm
    (path :: Pool.todo ⟨pending, ⟨none, findings⟩ :: workers, shared, ended?⟩) :=
  List.perm_middle

theorem unnumbered_idle : Pool.unnumbered ⟨pending, ⟨none, findings⟩ :: workers, shared, ended?⟩ =
    pending.length + (workers.filterMap Worker.task?).countP (Stage.isUnnumbered ·.2) :=
  rfl

theorem unnumbered_busy : Pool.unnumbered ⟨pending, ⟨some (path, stage), findings⟩ :: workers, shared, ended?⟩ =
    Pool.unnumbered ⟨pending, ⟨none, findings⟩ :: workers, shared, ended?⟩ + if stage.isUnnumbered then 1 else 0 := by
  rw [unnumbered_idle, Nat.add_assoc]
  exact congrArg (pending.length + ·) List.countP_cons

end

end Pool

/-! ### What comes of the files -/

namespace FileTree

/-- The answer for a path, as a cache keeps it. -/
def answer (tree : FileTree) (path : String) : FileAnswer :=
  (tree.read path).mapError (.read path)

/-- The check of the file ends everything. -/
def Stumbles (tree : FileTree) (settings : Settings) (path : String) : Prop :=
  ∃ place, tree.outcome settings path = .error (.misplaced place)

def fileReport? (tree : FileTree) (settings : Settings) (path : String) : Option FileReport :=
  (tree.fileReport settings path).toOption

def fileFailure? (tree : FileTree) (settings : Settings) (path : String) : Option FileFailure :=
  match tree.outcome settings path with
  | .ok _ => none
  | .error fault => some ⟨path, fault.message⟩

end FileTree

section

variable {tree : FileTree} {settings : Settings} {path : String} {findings : Findings}

theorem Findings.files_add : (findings.add path (tree.outcome settings path)).files =
    findings.files ++ (tree.fileReport? settings path).toList := by
  unfold add FileTree.fileReport? FileTree.fileReport
  cases tree.outcome settings path <;> simp [Except.map, Except.toOption]

theorem Findings.failures_add : (findings.add path (tree.outcome settings path)).failures =
    findings.failures ++ (tree.fileFailure? settings path).toList := by
  unfold add FileTree.fileFailure?
  cases tree.outcome settings path <;> simp

/-- A worker has done all right with a file so far, if the cache keeps the given answer for it. -/
inductive Stage.Sound (tree : FileTree) (settings : Settings) (path : String) : Stage → Option FileAnswer → Prop
  | looking : Sound tree settings path (.admission .looking) none
  | taking : Sound tree settings path (.admission .taking) none
  | finding : Sound tree settings path .finding none
  | asking : Sound tree settings path .asking none
  | keeping : Sound tree settings path (.keeping (tree.answer path)) none
  | checking :
      Sound tree settings path (.checking ((tree.answer path).mapError .remembered)) (some (tree.answer path))
  | forgetting (going : ¬ tree.Stumbles settings path) :
      Sound tree settings path (.forgetting (tree.outcome settings path)) (some (tree.answer path))

theorem Stage.Sound.of_forgetting {outcome : Except Fault (List RuleReport)} {kept? : Option FileAnswer}
    (h : Stage.Sound tree settings path (.forgetting outcome) kept?) :
    ¬ tree.Stumbles settings path ∧ outcome = tree.outcome settings path := by
  cases h with
  | forgetting going => exact ⟨going, rfl⟩

end

/-- What holds of a pool that has started with the files of a batch, while nothing has ended it: what was
gathered so far and what will come of the files to be done are what comes of the batch. Others will need some
more numbers. -/
structure Pool.Sound (tree : FileTree) (settings : Settings) (batch : List String) (reserve : Nat) (pool : Pool) :
    Prop where
  going : pool.ended? = none
  /-- No file is found twice. -/
  distinct : (pool.todo.map steps).Nodup
  within : pool.shared.limit.exceeded = false
  enough : ∀ max, pool.shared.limit.max? = some max →
    pool.shared.limit.taken + pool.unnumbered + reserve ≤ max
  stages : ∀ path stage, (path, stage) ∈ pool.tasks →
    stage.Sound tree settings path (pool.shared.cache.find? path)
  /-- The cache keeps only what workers are on. -/
  kept : ∀ key ∈ pool.shared.cache.keys, ∃ task ∈ pool.tasks, steps task.1 = key
  files : (pool.workers.flatMap (·.findings.files) ++ pool.todo.filterMap (tree.fileReport? settings)).Perm
    (batch.filterMap (tree.fileReport? settings))
  failures : (pool.workers.flatMap (·.findings.failures) ++ pool.todo.filterMap (tree.fileFailure? settings)).Perm
    (batch.filterMap (tree.fileFailure? settings))
  found : ∀ path ∈ pool.todo, path ∈ batch
  /-- A file that ends everything is not done. -/
  stumbling : ∀ path ∈ batch, tree.Stumbles settings path → path ∈ pool.todo

namespace Pool.Sound

variable {tree : FileTree} {settings : Settings} {batch pending pending' : List String} {reserve : Nat}
  {workers workers' : List Worker} {shared shared' : Shared} {path other : String} {stage stage' : Stage}
  {findings others : Findings} {outcome : Except Fault (List RuleReport)} {progress : Progress} {pool pool' : Pool}

theorem start (distinct : (batch.map steps).Nodup) (fresh : shared.cache = {})
    (within : shared.limit.exceeded = false)
    (enough : ∀ max, shared.limit.max? = some max → shared.limit.taken + batch.length + reserve ≤ max) :
    Pool.Sound tree settings batch reserve ⟨batch, [], shared, none⟩ where
  going := rfl
  distinct := by simpa [todo, tasks] using distinct
  within := within
  enough := by simpa [unnumbered, tasks] using enough
  stages _ _ h := nomatch h
  kept key h := by
    rw [fresh] at h
    cases h
  files := by simp [todo, tasks]
  failures := by simp [todo, tasks]
  found _ h := by simpa [todo, tasks] using h
  stumbling _ h _ := by simpa [todo, tasks] using h

/-- Nobody's turn comes at a place of its own. -/
theorem reorder (h : Pool.Sound tree settings batch reserve ⟨pending, workers, shared, none⟩)
    (hpending : pending.Perm pending') (hworkers : workers.Perm workers') :
    Pool.Sound tree settings batch reserve ⟨pending', workers', shared, none⟩ := by
  have htasks : (workers.filterMap Worker.task?).Perm (workers'.filterMap Worker.task?) := hworkers.filterMap _
  have htodo : (Pool.todo ⟨pending, workers, shared, none⟩).Perm (Pool.todo ⟨pending', workers', shared, none⟩) :=
    hpending.append (htasks.map _)
  exact {
    going := rfl
    distinct := ((htodo.map steps).nodup_iff).mp h.distinct
    within := h.within
    enough := fun max hmax => by
      have henough := h.enough max hmax
      unfold unnumbered tasks at henough ⊢
      rwa [← hpending.length_eq, ← htasks.countP_eq]
    stages := fun path stage hmem => h.stages path stage (htasks.mem_iff.mpr hmem)
    kept := fun key hkey => by
      obtain ⟨task, htask, hsame⟩ := h.kept key hkey
      exact ⟨task, htasks.mem_iff.mp htask, hsame⟩
    files := ((hworkers.flatMap_right _).append (htodo.filterMap _)).symm.trans h.files
    failures := ((hworkers.flatMap_right _).append (htodo.filterMap _)).symm.trans h.failures
    found := fun path hmem => h.found path (htodo.mem_iff.mpr hmem)
    stumbling := fun path hmem hstumbles => htodo.mem_iff.mp (h.stumbling path hmem hstumbles) }

theorem join (h : Pool.Sound tree settings batch reserve ⟨pending, workers, shared, none⟩) :
    Pool.Sound tree settings batch reserve ⟨pending, {} :: workers, shared, none⟩ :=
  ⟨rfl, h.distinct, h.within, h.enough, h.stages, h.kept, h.files, h.failures, h.found, h.stumbling⟩

theorem merge
    (h : Pool.Sound tree settings batch reserve
      ⟨pending, ⟨none, findings⟩ :: ⟨none, others⟩ :: workers, shared, none⟩) :
    Pool.Sound tree settings batch reserve ⟨pending, ⟨none, findings.merge others⟩ :: workers, shared, none⟩ := by
  have hfiles := h.files
  have hfailures := h.failures
  rw [List.flatMap_cons, List.flatMap_cons, ← List.append_assoc findings.files] at hfiles
  rw [List.flatMap_cons, List.flatMap_cons, ← List.append_assoc findings.failures] at hfailures
  exact ⟨rfl, h.distinct, h.within, h.enough, h.stages, h.kept, hfiles, hfailures, h.found, h.stumbling⟩

/-- The cache keeps nothing for a file that nobody is on. -/
theorem find?_eq_none (h : Pool.Sound tree settings batch reserve ⟨path :: pending, workers, shared, none⟩) :
    shared.cache.find? path = none := by
  rw [← Option.not_isSome_iff_eq_none, Cache.isSome_find?_iff]
  intro hkept
  obtain ⟨task, htask, hsame⟩ := h.kept _ hkept
  have hdistinct := h.distinct
  rw [todo, List.cons_append, List.map_cons, List.nodup_cons] at hdistinct
  apply hdistinct.1
  rw [List.mem_map]
  exact ⟨task.1, List.mem_append_right _ (List.mem_map_of_mem htask), hsame⟩

theorem pull (h : Pool.Sound tree settings batch reserve
      ⟨path :: pending, ⟨none, findings⟩ :: workers, shared, none⟩) :
    Pool.Sound tree settings batch reserve
      ⟨pending, ⟨some (path, .admission .looking), findings⟩ :: workers, shared, none⟩ := by
  have htodo : (Pool.todo ⟨path :: pending, ⟨none, findings⟩ :: workers, shared, none⟩).Perm
      (Pool.todo ⟨pending, ⟨some (path, .admission .looking), findings⟩ :: workers, shared, none⟩) :=
    todo_perm.symm
  exact {
    going := rfl
    distinct := ((htodo.map steps).nodup_iff).mp h.distinct
    within := h.within
    enough := fun max hmax => by
      -- The file is no longer one of the pending ones, but it has no number yet.
      have henough := h.enough max hmax
      rw [unnumbered_idle, List.length_cons] at henough
      have hnew : Stage.isUnnumbered (.admission .looking) = true := rfl
      rw [unnumbered_busy, unnumbered_idle, if_pos hnew]
      dsimp only at henough ⊢
      omega
    stages := fun other stage hmem => by
      rcases List.mem_cons.mp hmem with hnew | hother
      · cases hnew
        rw [h.find?_eq_none]
        exact .looking
      · exact h.stages other stage hother
    kept := fun key hkey => by
      obtain ⟨task, htask, hsame⟩ := h.kept key hkey
      exact ⟨task, List.mem_cons_of_mem _ htask, hsame⟩
    files := ((htodo.filterMap _).append_left _).symm.trans h.files
    failures := ((htodo.filterMap _).append_left _).symm.trans h.failures
    found := fun other hmem => h.found other (htodo.mem_iff.mpr hmem)
    stumbling := fun other hmem hstumbles => htodo.mem_iff.mp (h.stumbling other hmem hstumbles) }

/-! What a worker does with a file leaves alone what the cache keeps for the other ones. -/

section

variable (h : Pool.Sound tree settings batch reserve ⟨pending, ⟨some (path, stage), findings⟩ :: workers, shared, none⟩)

include h

/-- Two workers are never on one file. -/
theorem apart (hother : (other, stage') ∈ workers.filterMap Worker.task?) : steps path ≠ steps other := by
  have hdistinct := ((todo_perm.map steps).nodup_iff).mp h.distinct
  rw [List.map_cons, List.nodup_cons] at hdistinct
  intro hsame
  apply hdistinct.1
  rw [hsame]
  exact List.mem_map_of_mem (List.mem_append_right _ (List.mem_map_of_mem hother))

theorem stages_others
    (hothers : ∀ other, steps path ≠ steps other → shared'.cache.find? other = shared.cache.find? other)
    (hmem : (other, stage') ∈ workers.filterMap Worker.task?) :
    stage'.Sound tree settings other (shared'.cache.find? other) := by
  rw [hothers other (h.apart hmem)]
  exact h.stages other stage' (List.mem_cons_of_mem _ hmem)

/-- A worker goes on with a file. -/
theorem next (hstage : stage'.Sound tree settings path (shared'.cache.find? path))
    (hothers : ∀ other, steps path ≠ steps other → shared'.cache.find? other = shared.cache.find? other)
    (hkeys : ∀ key ∈ shared'.cache.keys, key = steps path ∨ key ∈ shared.cache.keys)
    (within : shared'.limit.exceeded = false) (hmax : shared'.limit.max? = shared.limit.max?)
    (hnumber : shared'.limit.taken + (if stage'.isUnnumbered then 1 else 0) ≤
      shared.limit.taken + (if stage.isUnnumbered then 1 else 0)) :
    Pool.Sound tree settings batch reserve ⟨pending, ⟨some (path, stage'), findings⟩ :: workers, shared', none⟩ := by
  exact {
    going := rfl
    distinct := h.distinct
    within := within
    enough := fun max hmax' => by
      have henough := h.enough max (hmax ▸ hmax')
      rw [unnumbered_busy, unnumbered_idle] at henough ⊢
      dsimp only at henough ⊢
      omega
    stages := fun other stage'' hmem => by
      rcases List.mem_cons.mp hmem with hnew | hother
      · cases hnew
        exact hstage
      · exact h.stages_others hothers hother
    kept := fun key hkey => by
      rcases hkeys key hkey with rfl | hold
      · exact ⟨(path, stage'), List.mem_cons_self, rfl⟩
      · obtain ⟨task, htask, hsame⟩ := h.kept key hold
        rcases List.mem_cons.mp htask with rfl | hother
        · exact ⟨(path, stage'), List.mem_cons_self, hsame⟩
        · exact ⟨task, List.mem_cons_of_mem _ hother, hsame⟩
    files := h.files
    failures := h.failures
    found := h.found
    stumbling := h.stumbling }

/-- A worker goes on with a file on its own, and has no part in what all share. -/
theorem goOn (hstage : stage'.Sound tree settings path (shared.cache.find? path))
    (hnumber : stage'.isUnnumbered = true → stage.isUnnumbered = true) :
    Pool.Sound tree settings batch reserve ⟨pending, ⟨some (path, stage'), findings⟩ :: workers, shared, none⟩ := by
  apply h.next hstage (fun _ _ => rfl) (fun _ => .inr) h.within rfl
  apply Nat.add_le_add_left
  by_cases hnew : stage'.isUnnumbered = true
  · rw [if_pos hnew, if_pos (hnumber hnew)]
  · rw [if_neg hnew]
    exact Nat.zero_le _

end

/-- What will come of a file is gathered when it is done. -/
theorem perm_of_done {α : Type} {f : String → Option α} (gathered others : List α) {todo todo' : List String}
    (h : todo.Perm (path :: todo')) : ((gathered ++ others) ++ todo.filterMap f).Perm
      (((gathered ++ (f path).toList) ++ others) ++ todo'.filterMap f) := by
  refine ((h.filterMap f).append_left _).trans ?_
  cases hpath : f path with
  | none => simp [hpath]
  | some new =>
    rw [List.filterMap_cons_some hpath, Option.toList_some, List.append_assoc gathered, List.append_assoc gathered,
      List.append_assoc gathered]
    exact List.perm_middle.append_left gathered

/-- A worker is done with a file. -/
theorem done (h : Pool.Sound tree settings batch reserve
      ⟨pending, ⟨some (path, .forgetting outcome), findings⟩ :: workers, shared, none⟩) :
    Pool.Sound tree settings batch reserve
      ⟨pending, ⟨none, findings.add path outcome⟩ :: workers, { shared with cache := shared.cache.forget path },
        none⟩ := by
  obtain ⟨going, rfl⟩ := (h.stages path _ List.mem_cons_self).of_forgetting
  have htodo : (Pool.todo ⟨pending, ⟨some (path, .forgetting (tree.outcome settings path)), findings⟩ :: workers,
      shared, none⟩).Perm (path :: Pool.todo ⟨pending, ⟨none, findings.add path (tree.outcome settings path)⟩ :: workers,
        { shared with cache := shared.cache.forget path }, none⟩) :=
    todo_perm
  exact {
    going := rfl
    distinct := (List.nodup_cons.mp (((htodo.map steps).nodup_iff).mp h.distinct)).2
    within := h.within
    enough := fun max hmax => by
      have henough := h.enough max hmax
      rw [unnumbered_busy, unnumbered_idle] at henough
      rw [unnumbered_idle]
      dsimp only at henough ⊢
      omega
    stages := fun other stage hmem => by
      -- What is forgotten belongs to no other worker's file.
      apply h.stages_others (fun other hother => ?_) hmem
      rw [Cache.find?_forget, if_neg hother]
    kept := fun key hkey => by
      obtain ⟨task, htask, hsame⟩ := h.kept key (Cache.keys_forget_subset hkey)
      rcases List.mem_cons.mp htask with rfl | hother
      · -- There is nothing any more under the steps of the file itself.
        rw [← hsame, ← Cache.isSome_find?_iff, Cache.find?_forget, if_pos rfl] at hkey
        cases hkey
      · exact ⟨task, hother, hsame⟩
    files := by
      rw [List.flatMap_cons, Findings.files_add]
      exact (perm_of_done _ _ htodo).symm.trans h.files
    failures := by
      rw [List.flatMap_cons, Findings.failures_add]
      exact (perm_of_done _ _ htodo).symm.trans h.failures
    found := fun other hmem => h.found other (htodo.mem_iff.mpr (List.mem_cons_of_mem _ hmem))
    stumbling := fun other hmem hstumbles => by
      rcases List.mem_cons.mp (htodo.mem_iff.mp (h.stumbling other hmem hstumbles)) with rfl | hrest
      · exact absurd hstumbles going
      · exact hrest }

/-- Whatever a worker does with a file keeps everything sound, unless the check of the file ends it all. -/
theorem work (h : Pool.Sound tree settings batch reserve
      ⟨pending, ⟨some (path, stage), findings⟩ :: workers, shared, none⟩)
    (hstep : stage.step tree.read settings path shared = (progress, shared')) :
    Pool.Sound tree settings batch reserve
        ⟨pending, .after path findings progress :: workers, shared', progress.ended?⟩ ∨
      tree.Stumbles settings path ∧ progress.ended?.isSome = true := by
  have hstage := h.stages path stage List.mem_cons_self
  generalize hkept : shared.cache.find? path = kept? at hstage
  have hwithin : shared.limit.exceeded = false := h.within
  cases hstage with
  | looking =>
    rw [Stage.step, FileLimit.pass_looking hwithin] at hstep
    cases hstep
    exact .inl (h.goOn (hkept ▸ .taking) fun _ => rfl)
  | taking =>
    -- The file has kept its number free, as long as it had not taken it.
    have hallows : shared.limit.allows shared.limit.taken = true := by
      apply FileLimit.allows_iff.mpr
      intro max hmax
      have henough := h.enough max hmax
      have htaking : Stage.isUnnumbered (.admission .taking) = true := rfl
      rw [unnumbered_busy, if_pos htaking] at henough
      dsimp only at henough
      omega
    rw [Stage.step, FileLimit.pass_taking, if_pos hallows] at hstep
    cases hstep
    exact .inl (h.next (hkept ▸ .finding) (fun _ _ => rfl) (fun _ => .inr) h.within rfl le_rfl)
  | finding =>
    rw [Stage.step, hkept] at hstep
    cases hstep
    exact .inl (h.goOn (hkept ▸ .asking) nofun)
  | asking =>
    cases hstep
    exact .inl (h.goOn (hkept ▸ .keeping) nofun)
  | keeping =>
    cases hstep
    refine .inl (h.next ?_ (fun other hother => ?_) (fun key hkey => ?_) h.within rfl le_rfl)
    · rw [Cache.find?_keep, if_pos rfl]
      exact .checking
    · rw [Cache.find?_keep, if_neg hother]
    · exact (List.mem_cons.mp hkey).imp_right fun hold => Cache.keys_forget_subset hold
  | checking =>
    have houtcome : (((tree.answer path).mapError .remembered).bind (RuleFile.report settings Code.reader path)) =
        tree.outcome settings path := rfl
    by_cases hstumbles : tree.Stumbles settings path
    · obtain ⟨place, hplace⟩ := hstumbles
      rw [Stage.step, houtcome, hplace] at hstep
      cases hstep
      exact .inr ⟨⟨place, hplace⟩, rfl⟩
    · rw [Stage.step_checking fun place hplace => hstumbles ⟨place, houtcome.symm.trans hplace⟩, houtcome] at hstep
      cases hstep
      exact .inl (h.goOn (hkept ▸ .forgetting hstumbles) nofun)
  | forgetting going =>
    cases hstep
    exact .inl h.done

theorem step (h : pool.Sound tree settings batch reserve) (hstep : Step tree.read settings pool pool') :
    pool'.Sound tree settings batch reserve ∨
      (∃ path ∈ batch, tree.Stumbles settings path) ∧ pool'.ended?.isSome = true := by
  cases hstep with
  | reorder hpending hworkers => exact .inl (h.reorder hpending hworkers)
  | join => exact .inl h.join
  | pull => exact .inl h.pull
  | merge => exact .inl h.merge
  | @work pending path stage findings workers shared shared' progress hstep =>
    refine (h.work hstep).imp_right fun hended => ?_
    have hfound := h.found path (todo_perm.mem_iff.mpr List.mem_cons_self)
    exact ⟨⟨path, hfound, hended.1⟩, hended.2⟩

/-- Everything stays sound, whoever has the next turn, until a file ends it. -/
theorem steps (h : pool.Sound tree settings batch reserve) (hsteps : Steps tree.read settings pool pool') :
    pool'.Sound tree settings batch reserve ∨
      (∃ path ∈ batch, tree.Stumbles settings path) ∧ pool'.ended?.isSome = true := by
  induction hsteps with
  | refl => exact .inl h
  | tail _ hstep ih =>
    rcases ih with hsound | ⟨-, hended⟩
    · exact hsound.step hstep
    · rw [hstep.ended?_eq_none] at hended
      cases hended

/-- When all is gathered by one worker, it is what comes of the batch, and the cache is empty again. -/
theorem gathered (h : Pool.Sound tree settings batch reserve ⟨[], [⟨none, findings⟩], shared, none⟩) :
    findings.files.Perm (batch.filterMap (tree.fileReport? settings)) ∧
      findings.failures.Perm (batch.filterMap (tree.fileFailure? settings)) ∧
      (∀ path ∈ batch, ¬ tree.Stumbles settings path) ∧ shared.cache = {} := by
  refine ⟨by simpa [todo, tasks] using h.files, by simpa [todo, tasks] using h.failures, fun path hmem hstumbles => ?_,
    ?_⟩
  · exact nomatch h.stumbling path hmem hstumbles
  · have hkeys : shared.cache.keys = [] := by
      refine List.eq_nil_iff_forall_not_mem.mpr fun key hkey => ?_
      obtain ⟨task, htask, -⟩ := h.kept key hkey
      cases htask
    exact congrArg Cache.mk (List.map_eq_nil_iff.mp hkeys)

end Pool.Sound

end Exemplar
