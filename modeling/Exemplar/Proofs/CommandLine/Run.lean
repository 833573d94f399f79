import Exemplar.CommandLine.Run
import Exemplar.Proofs.Project.Check

/-!
# What the exit code says

A run exits with 0 exactly if its settings are in order and every file that its paths stand for is covered. A
path that leads nowhere stands for no file. So it takes nothing away from a run that would exit with 0 without it,
and a run with no other path exits with 0, too.
-/

namespace Exemplar

theorem FileTree.filesFor_of_not_holds {tree : FileTree} {path : String} (h : tree.holds path = false)
    (exclusions : List Exclusion) : tree.filesFor exclusions path = [] := by
  have hnone : tree.resolve? true path = none := by simpa [holds, entry?] using h
  have hfile : tree.isFile path = false := by simp [isFile, entry?, hnone]
  simp [filesFor, hfile, ruleFilesBelow, hnone]

namespace CommandLine

variable {tree : FileTree} {arguments : Arguments}

theorem validate_of_settings {asked : Settings} (h : settings tree arguments = .ok asked) :
    asked.validate = .ok () := by
  rw [settings] at h
  split at h
  next => cases h
  next =>
    split at h
    next hvalid =>
      obtain rfl := Except.ok.inj h
      exact hvalid
    next => cases h

theorem report_eq_ok_iff {report : ProjectReport} :
    CommandLine.report tree arguments = .ok report ↔
      ∃ asked, settings tree arguments = .ok asked ∧ tree.check asked arguments.paths = .ok report := by
  rw [CommandLine.report, Text.bind_eq_ok_iff]
  simp only [Text.mapError_eq_ok_iff]

theorem exitCode_eq_zero_iff {report : ProjectReport} :
    exitCode report = 0 ↔ report.failures = [] ∧ report.isCovered = true := by
  rw [exitCode]
  cases hfailures : report.failures with
  | nil => cases report.isCovered <;> simp
  | cons failure failures => simp

/-- Without a report the exit code is not 0. -/
theorem exitCode_run_iff_report (terminal : Bool) :
    (run tree terminal arguments).exitCode = 0 ↔
      ∃ report, CommandLine.report tree arguments = .ok report ∧ report.failures = [] ∧
        report.isCovered = true := by
  rw [run]
  cases hreport : CommandLine.report tree arguments with
  | ok report => simp [exitCode_eq_zero_iff]
  | error stop => cases stop <;> simp [abortCode]

/-- A run exits with 0 exactly if its settings are in order and leave not too many files, and every file that a
path stands for is read, is a document, and has no rule with a category that fails. All categories in its report
succeed then. But a path that leads nowhere stands for no file at all. -/
theorem exitCode_run_eq_zero_iff (tree : FileTree) (terminal : Bool) (arguments : Arguments) :
    ((run tree terminal arguments).exitCode = 0 ↔
        ∃ asked exclusions, settings tree arguments = .ok asked ∧ asked.exclusions = .ok exclusions ∧
          (∀ max, asked.maxFiles? = some max →
            (arguments.paths.flatMap (tree.filesFor exclusions)).length ≤ max) ∧
          ∀ path ∈ arguments.paths, ∀ file ∈ tree.filesFor exclusions path, tree.Covers asked file) ∧
      ((run tree terminal arguments).exitCode = 0 →
        ∃ report, CommandLine.report tree arguments = .ok report ∧ report.failures = [] ∧
          ∀ file ∈ report.files, ∀ rule ∈ file.rules, ∀ result ∈ rule.coverage.results,
            result.success = true) ∧
      ∀ exclusions path, tree.holds path = false → tree.filesFor exclusions path = [] := by
  refine ⟨?_, ?_, fun exclusions path nowhere => FileTree.filesFor_of_not_holds nowhere exclusions⟩
  · rw [exitCode_run_iff_report]
    constructor
    · rintro ⟨report, hreport, hclean⟩
      obtain ⟨asked, hasked, hcheck⟩ := report_eq_ok_iff.mp hreport
      obtain ⟨-, exclusions, hcovers⟩ := FileTree.check_isCovered_iff.mp ⟨report, hcheck, hclean⟩
      exact ⟨asked, exclusions, hasked, hcovers⟩
    · rintro ⟨asked, exclusions, hasked, hcovers⟩
      obtain ⟨report, hcheck, hclean⟩ :=
        FileTree.check_isCovered_iff.mpr ⟨validate_of_settings hasked, exclusions, hcovers⟩
      exact ⟨report, report_eq_ok_iff.mpr ⟨asked, hasked, hcheck⟩, hclean⟩
  · intro hzero
    obtain ⟨report, hreport, hfailures, hcovered⟩ := (exitCode_run_iff_report terminal).mp hzero
    obtain ⟨asked, -, hcheck⟩ := report_eq_ok_iff.mp hreport
    refine ⟨report, hreport, hfailures, ?_⟩
    intro file hfile rule hrule
    obtain ⟨of, hof⟩ := FileTree.exists_rule_of_check hcheck hfailures hfile hrule
    exact (Rule.isCovered_report_iff hof).mp (ProjectReport.isCovered_iff.mp hcovered file hfile rule hrule)

/-- A tree with nothing in it. -/
def emptyTree : FileTree := ⟨.directory [], []⟩

theorem not_holds_emptyTree : emptyTree.holds "missing" = false := by
  have hpieces : Path.pieces "missing" = [['m', 'i', 's', 's', 'i', 'n', 'g']] := by decide +kernel
  have hstep : Step.ofPiece? ['m', 'i', 's', 's', 'i', 'n', 'g'] = some (.name "missing") := by
    decide +kernel
  have hdown : (Trail.ofRoot (.directory [])).down? "missing" = none := rfl
  have hroot : Trail.ofPlace? (.directory []) [] = some (.ofRoot (.directory [])) := rfl
  have hrelative : Path.isAbsolute "missing" = false := by decide +kernel
  simp [FileTree.holds, FileTree.entry?, FileTree.resolve?, emptyTree, hpieces, hrelative, hroot,
    FileTree.resolveFrom, hstep, hdown]

/-- A path that leads nowhere does not keep a run from exiting with 0. -/
theorem exitCode_missingPath :
    emptyTree.holds "missing" = false ∧ (run emptyTree false { paths := ["missing"] }).exitCode = 0 := by
  refine ⟨not_holds_emptyTree, ?_⟩
  obtain ⟨⟨⟩, hvalid⟩ := Text.exists_of_isOk (by decide +kernel : ({} : Settings).validate.isOk = true)
  obtain ⟨exclusions, hexclusions⟩ :=
    Text.exists_of_isOk (by decide +kernel : ({} : Settings).exclusions.isOk = true)
  have hsettings : settings emptyTree { paths := ["missing"] } = .ok {} := by
    simp only [settings, Settings.loadOrDefault, hvalid]
    rfl
  have hfiles : ["missing"].flatMap (emptyTree.filesFor exclusions) = [] := by
    simp [FileTree.filesFor_of_not_holds not_holds_emptyTree]
  have enough : ∀ max, ({} : Settings).maxFiles? = some max →
      (["missing"].flatMap (emptyTree.filesFor exclusions)).length ≤ max := by
    simp [hfiles]
  have hnone : (["missing"].flatMap (emptyTree.filesFor exclusions)).mapM (emptyTree.fileReport {}) =
      .ok [] := by
    rw [hfiles]
    rfl
  obtain ⟨hcheck, hfailures⟩ := FileTree.check_without_failures_iff.mpr
    ⟨hvalid, exclusions, [], hexclusions, enough, hnone, rfl⟩
  exact (exitCode_run_iff_report false).mpr
    ⟨_, report_eq_ok_iff.mpr ⟨_, hsettings, hcheck⟩, hfailures, by simp [ProjectReport.isCovered_iff]⟩

end CommandLine

end Exemplar
