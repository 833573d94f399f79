import Exemplar.Proofs.Text.Place
import Exemplar.Project.Check

/-!
# What comes of a file

A file has an outcome of its own: as every file is forgotten once it is checked, nothing that was read before
has a part in it. The reports on the rules of a file are all covered exactly if the file is read, its text is a
document, there is a report on each of its rules, and each category of each rule succeeds.
-/

namespace Exemplar

/-! ### Covered rules -/

/-- A rule is covered if all its categories succeed. -/
theorem Coverage.success_check_iff {analysis : Query.Analysis} {ctx : Context} {settings : Settings} :
    (check analysis ctx settings).success = true ↔
      ∀ result ∈ (check analysis ctx settings).results, result.success = true := by
  rw [check]
  split <;> exact List.all_eq_true

theorem Rule.isCovered_report_iff {rule : Rule} {settings : Settings} {reader : Code.Reader}
    {report : RuleReport} (h : rule.report settings reader = .ok report) :
    report.isCovered = true ↔ ∀ result ∈ report.coverage.results, result.success = true := by
  obtain ⟨⟨⟩, -, hreport⟩ := Text.bind_eq_ok_iff.mp h
  obtain rfl := Except.ok.inj hreport
  exact Coverage.success_check_iff

/-! ### Outcomes -/

/-- What comes of the file at a path, whatever else is checked. -/
def FileTree.outcome (tree : FileTree) (settings : Settings) (path : String) :
    Except Fault (List RuleReport) :=
  (((tree.read path).mapError (Fault.read path)).mapError .remembered).bind
    (RuleFile.report settings Code.reader path)

/-- A file is read and its text is a document, and there is a report on each of its rules, all categories of
which succeed. -/
def FileTree.Covers (tree : FileTree) (settings : Settings) (path : String) : Prop :=
  ∃ text rules, tree.read path = .ok text ∧ Rule.ofText? text = some rules ∧
    ∀ rule ∈ rules, ∃ report,
      (RuleFile.named (Path.stem path) rule).report settings Code.reader = .ok report ∧
        ∀ result ∈ report.coverage.results, result.success = true

variable {tree : FileTree} {settings : Settings} {path : String} {reports : List RuleReport}

/-- The reports on a file come from the rules in its text, one from each. -/
theorem FileTree.outcome_eq_ok_iff :
    tree.outcome settings path = .ok reports ↔
      ∃ text rules inOrder, tree.read path = .ok text ∧ Rule.ofText? text = some rules ∧
        (rules.mapM fun rule => (RuleFile.named (Path.stem path) rule).report settings Code.reader) =
          .ok inOrder ∧
        reports = List.mergeSort inOrder fun report other => decide (report.name ≤ other.name) := by
  constructor
  · intro h
    obtain ⟨text, hread, houtcome⟩ := Text.bind_eq_ok_iff.mp h
    rw [Text.mapError_eq_ok_iff, Text.mapError_eq_ok_iff] at hread
    rw [RuleFile.report] at houtcome
    cases hrules : Rule.ofText? text with
    | none =>
      rw [hrules] at houtcome
      cases houtcome
    | some rules =>
      rw [hrules] at houtcome
      obtain ⟨inOrder, hreports, hsorted⟩ := Text.bind_eq_ok_iff.mp houtcome
      rw [Text.mapError_eq_ok_iff] at hreports
      exact ⟨text, rules, inOrder, hread, hrules, hreports, (Except.ok.inj hsorted).symm⟩
  · rintro ⟨text, rules, inOrder, hread, hrules, hreports, rfl⟩
    apply Text.bind_eq_ok_iff.mpr
    refine ⟨text, Text.mapError_eq_ok_iff.mpr (Text.mapError_eq_ok_iff.mpr hread), ?_⟩
    rw [RuleFile.report, hrules]
    apply Text.bind_eq_ok_iff.mpr
    exact ⟨inOrder, Text.mapError_eq_ok_iff.mpr hreports, rfl⟩

/-- Every report on a file is a report on one of its rules. -/
theorem FileTree.exists_rule_of_outcome (h : tree.outcome settings path = .ok reports) {report : RuleReport}
    (hreport : report ∈ reports) : ∃ rule : Rule, rule.report settings Code.reader = .ok report := by
  obtain ⟨text, rules, inOrder, -, -, hreports, rfl⟩ := outcome_eq_ok_iff.mp h
  obtain ⟨rule, -, hrule⟩ := (Text.mem_iff_of_mapM_eq_ok hreports).mp (List.mem_mergeSort.mp hreport)
  exact ⟨_, hrule⟩

/-- A file is covered if it has reports and all of them are. -/
theorem FileTree.covers_iff :
    tree.Covers settings path ↔
      ∃ reports, tree.outcome settings path = .ok reports ∧ ∀ report ∈ reports, report.isCovered = true := by
  constructor
  · rintro ⟨text, rules, hread, hrules, hcovered⟩
    -- Each rule has a report, so the file has them all, only in another order.
    obtain ⟨inOrder, hreports⟩ := Text.exists_mapM_eq_ok fun rule hrule => (hcovered rule hrule).imp
      fun report hreport => hreport.1
    refine ⟨_, outcome_eq_ok_iff.mpr ⟨text, rules, inOrder, hread, hrules, hreports, rfl⟩, ?_⟩
    intro report hreport
    obtain ⟨rule, hrule, hof⟩ := (Text.mem_iff_of_mapM_eq_ok hreports).mp (List.mem_mergeSort.mp hreport)
    obtain ⟨report', hof', hsuccess⟩ := hcovered rule hrule
    obtain rfl := Except.ok.inj (hof.symm.trans hof')
    exact (Rule.isCovered_report_iff hof).mpr hsuccess
  · rintro ⟨reports, houtcome, hcovered⟩
    obtain ⟨text, rules, inOrder, hread, hrules, hreports, rfl⟩ := outcome_eq_ok_iff.mp houtcome
    refine ⟨text, rules, hread, hrules, ?_⟩
    intro rule hrule
    obtain ⟨report, hreport, hof⟩ := Text.exists_mem_of_mapM_eq_ok hreports hrule
    exact ⟨report, hof, (Rule.isCovered_report_iff hof).mp
      (hcovered report (List.mem_mergeSort.mpr hreport))⟩

end Exemplar
