import Exemplar.Proofs.Project.RuleFile

/-!
# Runs without a fault

A run goes through its files with nothing remembered from one to the next, so each file adds its own outcome. As
soon as a file is at fault, or is one too many, the run stays faulty to its end. A run that is clean at its end
has thus taken every file that it was given.
-/

namespace Exemplar

/-- The report on the file at a path, whatever else is checked. -/
def FileTree.fileReport (tree : FileTree) (settings : Settings) (path : String) : Except Fault FileReport :=
  (tree.outcome settings path).map fun rules => ⟨path, rules⟩

theorem FileTree.fileReport_eq_ok_iff {tree : FileTree} {settings : Settings} {path : String}
    {file : FileReport} :
    tree.fileReport settings path = .ok file ↔
      file.path = path ∧ tree.outcome settings path = .ok file.rules := by
  obtain ⟨path', rules⟩ := file
  rw [fileReport]
  cases tree.outcome settings path with
  | error fault => simp [Except.map]
  | ok rules' => simp [Except.map, eq_comm]

namespace FileLimit

variable {limit : FileLimit}

theorem ask_of_not_exceeded (h : limit.exceeded = false) :
    limit.ask = if limit.allows limit.taken then (true, limit.take.2) else (false, limit.take.2.close) := by
  rw [ask, if_neg (by rw [h]; exact Bool.false_ne_true)]
  rfl

theorem allows_iff {number : Nat} :
    limit.allows number = true ↔ ∀ max, limit.max? = some max → number < max := by
  cases hmax : limit.max? <;> simp [allows, hmax]

/-- Asking changes no limit, and only where there is one can it be exceeded. -/
theorem ask_max? (limit : FileLimit) : limit.ask.2.max? = limit.max? := by
  rw [ask]
  split
  · rfl
  · dsimp only [take]
    split <;> rfl

theorem isSome_of_ask_exceeded (h : limit.exceeded = true → limit.max?.isSome = true)
    (exceeded : limit.ask.2.exceeded = true) : limit.ask.2.max?.isSome = true := by
  rw [ask_max?]
  cases hexceeded : limit.exceeded with
  | true => exact h hexceeded
  | false =>
    rw [ask_of_not_exceeded hexceeded] at exceeded
    cases hmax : limit.max? with
    | some max => rfl
    | none =>
      -- Without a limit every number is allowed.
      have hallows : limit.allows limit.taken = true := allows_iff.mpr (by simp [hmax])
      rw [hallows, if_pos rfl] at exceeded
      exact absurd (hexceeded.symm.trans exceeded) Bool.false_ne_true

end FileLimit

namespace Run

variable {tree : FileTree} {settings : Settings} {run : Run} {path : String} {paths : List String}

/-- Nothing has gone wrong so far. -/
structure Clean (run : Run) : Prop where
  ended : run.ended? = none
  exceeded : run.limit.exceeded = false
  failures : run.failures = []

/-! ### One file -/

theorem limit_record (run : Run) (path : String) (outcome : Except Fault (List RuleReport)) :
    (run.record path outcome).limit = run.limit := by
  unfold record
  split <;> rfl

theorem Clean.of_record {outcome : Except Fault (List RuleReport)} (h : (run.record path outcome).Clean) :
    run.Clean ∧ ∃ rules, outcome = .ok rules := by
  unfold record at h
  split at h
  next rules => exact ⟨⟨h.ended, h.exceeded, h.failures⟩, rules, rfl⟩
  next place => cases h.ended
  next fault _ => exact absurd h.failures (List.append_ne_nil_of_right_ne_nil _ (List.cons_ne_nil _ _))

theorem checkFile_eq (fresh : run.cache = {}) :
    run.checkFile tree.read settings path = run.record path (tree.outcome settings path) := by
  have hcheck : RuleFile.check (m := Id) tree.read settings Code.reader {} path =
      (tree.outcome settings path, Cache.keep {} path ((tree.read path).mapError (Fault.read path))) := rfl
  have hforget (answer : FileAnswer) : (Cache.keep {} path answer).forget path = {} := by
    simp [Cache.keep, Cache.forget]
  obtain ⟨cache, limit, files, failures, ended?⟩ := run
  obtain rfl : cache = {} := fresh
  simp only [checkFile, hcheck, hforget]

theorem visit_of_going (going : run.ended? = none) (hlimit : run.limit.exceeded = false) :
    run.visit tree.read settings path =
      if run.limit.allows run.limit.taken then
        checkFile tree.read settings { run with limit := run.limit.take.2 } path
      else { run with limit := run.limit.take.2.close } := by
  rw [visit, going, if_neg (by exact Bool.false_ne_true), FileLimit.ask_of_not_exceeded hlimit]
  cases run.limit.allows run.limit.taken <;> rfl

/-- A file that is admitted and has a report is added to a clean run. -/
theorem visit_of_fileReport (clean : run.Clean) (fresh : run.cache = {})
    (admitted : run.limit.allows run.limit.taken = true) {file : FileReport}
    (hfile : tree.fileReport settings path = .ok file) :
    run.visit tree.read settings path =
      { run with limit := run.limit.take.2, files := run.files ++ [file] } := by
  obtain ⟨rfl, houtcome⟩ := FileTree.fileReport_eq_ok_iff.mp hfile
  have hchecked := @checkFile_eq tree settings { run with limit := run.limit.take.2 } file.path fresh
  rw [visit_of_going clean.ended clean.exceeded, if_pos admitted, hchecked, houtcome]
  rfl

/-- What went wrong is not forgotten. -/
theorem Clean.of_visit (h : (run.visit tree.read settings path).Clean) :
    run.Clean ∧ run.limit.allows run.limit.taken = true := by
  -- Otherwise the run had ended, or too many files were taken, before the visit or by it.
  cases going : run.ended? with
  | some place =>
    rw [visit, going, if_pos Option.isSome_some] at h
    exact absurd (going.symm.trans h.ended) (Option.some_ne_none place)
  | none =>
    cases hlimit : run.limit.exceeded with
    | true =>
      rw [visit, going, if_neg (by exact Bool.false_ne_true), FileLimit.ask, if_pos hlimit] at h
      exact absurd (hlimit.symm.trans h.exceeded) (Ne.symm Bool.false_ne_true)
    | false =>
      rw [visit_of_going going hlimit] at h
      cases hallows : run.limit.allows run.limit.taken with
      | false =>
        rw [hallows] at h
        cases h.exceeded
      | true =>
        rw [hallows, if_pos rfl] at h
        exact ⟨⟨going, hlimit, h.of_record.1.failures⟩, rfl⟩

/-- A clean run that stays clean had a report on the file. -/
theorem Clean.exists_fileReport (fresh : run.cache = {}) (h : (run.visit tree.read settings path).Clean) :
    ∃ file, tree.fileReport settings path = .ok file := by
  obtain ⟨clean, admitted⟩ := h.of_visit
  have hchecked := @checkFile_eq tree settings { run with limit := run.limit.take.2 } path fresh
  rw [visit_of_going clean.ended clean.exceeded, if_pos admitted, hchecked] at h
  obtain ⟨-, rules, houtcome⟩ := h.of_record
  exact ⟨⟨path, rules⟩, FileTree.fileReport_eq_ok_iff.mpr ⟨rfl, houtcome⟩⟩

/-! ### All files -/

/-- If there are not too many files and each one has a report, all of them are added. -/
theorem foldl_visit_of_mapM {files : List FileReport} (clean : run.Clean) (fresh : run.cache = {})
    (enough : ∀ max, run.limit.max? = some max → run.limit.taken + paths.length ≤ max)
    (hfiles : paths.mapM (tree.fileReport settings) = .ok files) :
    paths.foldl (visit tree.read settings) run =
      { run with
        limit := { run.limit with taken := run.limit.taken + paths.length }
        files := run.files ++ files } := by
  rw [Text.mapM_eq_ok_iff] at hfiles
  induction paths generalizing run files with
  | nil =>
    obtain rfl : files = [] := List.map_eq_nil_iff.mp hfiles.symm
    simp
  | cons path paths ih =>
    cases files with
    | nil => cases hfiles
    | cons file files =>
      obtain ⟨hfile, hrest⟩ := List.cons.inj hfiles
      have admitted : run.limit.allows run.limit.taken = true := by
        apply FileLimit.allows_iff.mpr
        intro max hmax
        have := enough max hmax
        rw [List.length_cons] at this
        omega
      -- The visit leaves the run clean and the cache empty, with a number less to give.
      rw [List.foldl_cons, visit_of_fileReport clean fresh admitted hfile, ih _ _ _ hrest]
      · simp [FileLimit.take, Nat.add_assoc, Nat.add_comm 1]
      · exact ⟨clean.ended, clean.exceeded, clean.failures⟩
      · exact fresh
      · intro max hmax
        have := enough max hmax
        rw [List.length_cons] at this
        change run.limit.taken + 1 + paths.length ≤ max
        omega

theorem Clean.of_foldl_visit (h : (paths.foldl (visit tree.read settings) run).Clean) : run.Clean := by
  induction paths generalizing run with
  | nil => exact h
  | cons path paths ih => exact (ih h).of_visit.1

/-- A run that is clean at its end has not taken too many files, and there is a report on each of them. -/
theorem Clean.exists_mapM_of_foldl_visit (fresh : run.cache = {})
    (within : ∀ max, run.limit.max? = some max → run.limit.taken ≤ max)
    (h : (paths.foldl (visit tree.read settings) run).Clean) :
    (∀ max, run.limit.max? = some max → run.limit.taken + paths.length ≤ max) ∧
      ∃ files, paths.mapM (tree.fileReport settings) = .ok files := by
  induction paths generalizing run with
  | nil => exact ⟨within, [], rfl⟩
  | cons path paths ih =>
    rw [List.foldl_cons] at h
    have hvisited := h.of_foldl_visit
    obtain ⟨clean, admitted⟩ := hvisited.of_visit
    obtain ⟨file, hfile⟩ := hvisited.exists_fileReport fresh
    rw [visit_of_fileReport clean fresh admitted hfile] at h
    obtain ⟨enough, files, hfiles⟩ := ih (by exact fresh) (by
      intro max hmax
      exact FileLimit.allows_iff.mp admitted max hmax) h
    refine ⟨?_, file :: files, ?_⟩
    · intro max hmax
      have hrest := enough max hmax
      rw [List.length_cons]
      change run.limit.taken + 1 + paths.length ≤ max at hrest
      omega
    · rw [Text.mapM_eq_ok_iff] at hfiles ⊢
      rw [List.map_cons, List.map_cons, hfile, hfiles]

/-! ### The report -/

theorem limit_visit (source : FileSource Id) (settings : Settings) (run : Run) (path : String) :
    (run.visit source settings path).limit = run.limit ∨
      (run.visit source settings path).limit = run.limit.ask.2 := by
  rw [visit]
  split
  · exact Or.inl rfl
  · obtain ⟨admitted, limit⟩ := run.limit.ask
    cases admitted with
    | false => exact Or.inr rfl
    | true => exact Or.inr (limit_record _ path _)

/-- Only a limit that there is can be exceeded. -/
theorem isSome_of_exceeded {source : FileSource Id}
    (h : run.limit.exceeded = true → run.limit.max?.isSome = true) :
    (paths.foldl (visit source settings) run).limit.exceeded = true →
      (paths.foldl (visit source settings) run).limit.max?.isSome = true := by
  induction paths generalizing run with
  | nil => exact h
  | cons path paths ih =>
    apply ih
    rcases limit_visit source settings run path with hlimit | hlimit
    · rw [hlimit]
      exact h
    · rw [hlimit]
      exact FileLimit.isSome_of_ask_exceeded h

theorem report_eq_ok_iff (h : run.limit.exceeded = true → run.limit.max?.isSome = true)
    {report : ProjectReport} :
    run.report = .ok report ↔ run.ended? = none ∧ run.limit.exceeded = false ∧
      report = {
        files := run.files.mergeSort fun file other => Path.precedes file.path other.path
        failures := run.failures.mergeSort fun file other => Path.precedes file.path other.path
        filesChecked := run.files.length + run.failures.length } := by
  rw [Run.report]
  cases hended : run.ended? with
  | some place => exact iff_of_false (fun h => by cases h) (fun h => by cases h.1)
  | none =>
    cases hexceeded : run.limit.exceeded with
    | true =>
      obtain ⟨max, hmax⟩ := Option.isSome_iff_exists.mp (h hexceeded)
      rw [hmax]
      exact iff_of_false (fun h => by cases h) (fun h => by cases h.2.1)
    | false => exact ⟨fun h => ⟨rfl, rfl, (Except.ok.inj h).symm⟩, fun h => congrArg _ h.2.2.symm⟩

theorem report_without_failures_iff (h : run.limit.exceeded = true → run.limit.max?.isSome = true)
    {report : ProjectReport} :
    run.report = .ok report ∧ report.failures = [] ↔ run.Clean ∧
      report = {
        files := run.files.mergeSort fun file other => Path.precedes file.path other.path
        filesChecked := run.files.length } := by
  rw [report_eq_ok_iff h]
  constructor
  · rintro ⟨⟨hended, hexceeded, rfl⟩, hfailures⟩
    -- Putting failures in order loses none.
    have hnone : run.failures = [] := by
      have hperm := List.mergeSort_perm run.failures fun file other => Path.precedes file.path other.path
      exact List.perm_nil.mp (hperm.symm.trans (.of_eq hfailures))
    exact ⟨⟨hended, hexceeded, hnone⟩, by simp [hnone]⟩
  · rintro ⟨clean, rfl⟩
    exact ⟨⟨clean.ended, clean.exceeded, by simp [clean.failures]⟩, rfl⟩

end Run

/-- There is a report without failures exactly if the settings are in order, there are not too many files, and
there is a report on each of them. -/
theorem FileTree.check_without_failures_iff {tree : FileTree} {settings : Settings} {paths : List String}
    {report : ProjectReport} :
    tree.check settings paths = .ok report ∧ report.failures = [] ↔
      settings.validate = .ok () ∧ ∃ exclusions files, settings.exclusions = .ok exclusions ∧
        (∀ max, settings.maxFiles? = some max →
          (paths.flatMap (tree.filesFor exclusions)).length ≤ max) ∧
        (paths.flatMap (tree.filesFor exclusions)).mapM (tree.fileReport settings) = .ok files ∧
        report = {
          files := files.mergeSort fun file other => Path.precedes file.path other.path
          filesChecked := files.length } := by
  have clean : (Run.ofMax settings.maxFiles?).Clean := ⟨rfl, rfl, rfl⟩
  have hlimit : (Run.ofMax settings.maxFiles?).limit.exceeded = true →
      (Run.ofMax settings.maxFiles?).limit.max?.isSome = true := fun h => by cases h
  -- The settings come first, then the run over the files that they leave.
  have hcheck : tree.check settings paths = .ok report ↔ settings.validate = .ok () ∧
      ∃ exclusions, settings.exclusions = .ok exclusions ∧
        ((paths.flatMap (tree.filesFor exclusions)).foldl (Run.visit tree.read settings)
          (.ofMax settings.maxFiles?)).report = .ok report := by
    constructor
    · intro h
      obtain ⟨⟨⟩, hvalid, hrest⟩ := Text.bind_eq_ok_iff.mp h
      exact ⟨hvalid, Text.bind_eq_ok_iff.mp hrest⟩
    · rintro ⟨hvalid, hrest⟩
      exact Text.bind_eq_ok_iff.mpr ⟨(), hvalid, Text.bind_eq_ok_iff.mpr hrest⟩
  rw [hcheck]
  constructor
  · rintro ⟨⟨hvalid, exclusions, hexclusions, hreport⟩, hfailures⟩
    obtain ⟨hclean, rfl⟩ :=
      (Run.report_without_failures_iff (Run.isSome_of_exceeded hlimit)).mp ⟨hreport, hfailures⟩
    obtain ⟨enough, files, hfiles⟩ := hclean.exists_mapM_of_foldl_visit rfl fun _ _ => Nat.zero_le _
    refine ⟨hvalid, exclusions, files, hexclusions, by simpa [Run.ofMax] using enough, hfiles, ?_⟩
    rw [Run.foldl_visit_of_mapM clean rfl enough hfiles]
    rfl
  · rintro ⟨hvalid, exclusions, files, hexclusions, enough, hfiles, rfl⟩
    have hrun := Run.foldl_visit_of_mapM clean rfl (by simpa [Run.ofMax] using enough) hfiles
    have hreport := (Run.report_without_failures_iff (Run.isSome_of_exceeded hlimit)).mpr
      ⟨by rw [hrun]; exact ⟨rfl, rfl, rfl⟩, rfl⟩
    rw [hrun] at hreport
    refine ⟨⟨hvalid, exclusions, hexclusions, ?_⟩, rfl⟩
    rw [hrun]
    exact hreport.1

/-! ### Covered files -/

theorem ProjectReport.isCovered_iff {report : ProjectReport} :
    report.isCovered = true ↔ ∀ file ∈ report.files, ∀ rule ∈ file.rules, rule.isCovered = true := by
  simp only [isCovered, rules, List.all_eq_true, List.mem_flatMap, List.mem_map]
  constructor
  · intro h file hfile rule hrule
    exact h (file.path, rule) ⟨file, hfile, rule, hrule, rfl⟩
  · rintro h _ ⟨file, hfile, rule, hrule, rfl⟩
    exact h file hfile rule hrule

namespace FileTree

variable {tree : FileTree} {settings : Settings} {paths : List String} {report : ProjectReport}

theorem covers_iff_fileReport {path : String} :
    tree.Covers settings path ↔
      ∃ file, tree.fileReport settings path = .ok file ∧ ∀ rule ∈ file.rules, rule.isCovered = true := by
  rw [covers_iff]
  constructor
  · rintro ⟨rules, houtcome, hcovered⟩
    exact ⟨⟨path, rules⟩, fileReport_eq_ok_iff.mpr ⟨rfl, houtcome⟩, hcovered⟩
  · rintro ⟨file, hfile, hcovered⟩
    exact ⟨file.rules, (fileReport_eq_ok_iff.mp hfile).2, hcovered⟩

/-- There is a report without failures and with covered rules only, exactly if the settings are in order, there
are not too many files, and every file is covered. -/
theorem check_isCovered_iff :
    (∃ report, tree.check settings paths = .ok report ∧ report.failures = [] ∧ report.isCovered = true) ↔
      settings.validate = .ok () ∧ ∃ exclusions, settings.exclusions = .ok exclusions ∧
        (∀ max, settings.maxFiles? = some max →
          (paths.flatMap (tree.filesFor exclusions)).length ≤ max) ∧
        ∀ path ∈ paths, ∀ file ∈ tree.filesFor exclusions path, tree.Covers settings file := by
  constructor
  · rintro ⟨report, hcheck, hfailures, hcovered⟩
    obtain ⟨hvalid, exclusions, files, hexclusions, enough, hfiles, rfl⟩ :=
      check_without_failures_iff.mp ⟨hcheck, hfailures⟩
    refine ⟨hvalid, exclusions, hexclusions, enough, ?_⟩
    intro path hpath file hfile
    obtain ⟨fileReport, hmem, hof⟩ :=
      Text.exists_mem_of_mapM_eq_ok hfiles (List.mem_flatMap.mpr ⟨path, hpath, hfile⟩)
    exact covers_iff_fileReport.mpr ⟨fileReport, hof,
      ProjectReport.isCovered_iff.mp hcovered fileReport (List.mem_mergeSort.mpr hmem)⟩
  · rintro ⟨hvalid, exclusions, hexclusions, enough, hcovers⟩
    -- Each file has a report, so all of them have one together.
    have hof (file : String) (hfile : file ∈ paths.flatMap (tree.filesFor exclusions)) :
        ∃ fileReport, tree.fileReport settings file = .ok fileReport ∧
          ∀ rule ∈ fileReport.rules, rule.isCovered = true := by
      obtain ⟨path, hpath, hmem⟩ := List.mem_flatMap.mp hfile
      exact covers_iff_fileReport.mp (hcovers path hpath file hmem)
    obtain ⟨files, hfiles⟩ := Text.exists_mapM_eq_ok fun file hfile =>
      (hof file hfile).imp fun fileReport h => h.1
    obtain ⟨hcheck, hfailures⟩ :=
      check_without_failures_iff.mpr ⟨hvalid, exclusions, files, hexclusions, enough, hfiles, rfl⟩
    refine ⟨_, hcheck, hfailures, ProjectReport.isCovered_iff.mpr ?_⟩
    intro fileReport hmem
    obtain ⟨file, hfile, hreport⟩ :=
      (Text.mem_iff_of_mapM_eq_ok hfiles).mp (List.mem_mergeSort.mp hmem)
    obtain ⟨fileReport', hreport', hrules⟩ := hof file hfile
    obtain rfl := Except.ok.inj (hreport.symm.trans hreport')
    exact hrules

/-- Every report on a rule in a report without failures is the report of some rule. -/
theorem exists_rule_of_check (hcheck : tree.check settings paths = .ok report)
    (hfailures : report.failures = []) {file : FileReport} (hfile : file ∈ report.files) {of : RuleReport}
    (hrule : of ∈ file.rules) : ∃ rule : Rule, rule.report settings Code.reader = .ok of := by
  obtain ⟨-, exclusions, files, -, -, hfiles, rfl⟩ := check_without_failures_iff.mp ⟨hcheck, hfailures⟩
  obtain ⟨path, -, hof⟩ := (Text.mem_iff_of_mapM_eq_ok hfiles).mp (List.mem_mergeSort.mp hfile)
  exact exists_rule_of_outcome (fileReport_eq_ok_iff.mp hof).2 hrule

end FileTree

end Exemplar
