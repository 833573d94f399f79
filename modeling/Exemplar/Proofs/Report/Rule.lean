import Exemplar.Proofs.Coverage.Growth
import Exemplar.Proofs.Location.Locator
import Exemplar.Proofs.Rule.Basic
import Exemplar.Report.Basic

/-!
# Reports on rules

What holds of every report on a rule: when there is one, where its lines are, and what one more example
changes. A rule is checked in two steps, the verdicts and the lookups for them, and only the lookups can end
the run.
-/

namespace Exemplar

open Coverage

namespace Rule

variable (rule : Rule) (settings : Settings) (reader : Code.Reader)

theorem isKept_locator : rule.locator.IsKept :=
  Locator.isKept_withProperty rule.text rule.query rule.querySpan? rule.lineOffset

/-! ### When there is a report -/

/-- There is a report on a rule unless its locator stumbles over a target that is looked up for it. -/
theorem report_eq_ok_iff (report : RuleReport) :
    rule.report settings reader = .ok report ↔
      report = rule.check settings reader ∧
        ∀ target ∈ (rule.check settings reader).coverage.targets,
          ¬ rule.locator.StumblesOver target := by
  rw [← Locator.lookUp_eq_ok_iff rule.isKept_locator, Rule.report, Text.bind_eq_ok_iff]
  constructor
  · rintro ⟨⟨⟩, hlookups, hreport⟩
    exact ⟨(Except.ok.inj hreport).symm, hlookups⟩
  · rintro ⟨rfl, hlookups⟩
    exact ⟨(), hlookups, rfl⟩

/-- A lookup ends the run exactly if the locator stumbles: the text has no line for the target, and one byte
behind the first `value=` of the query's property lies inside of a character. A rule has a report exactly if
none of the targets that are looked up for it is such a one. -/
theorem lookups_stumble_iff (settings : Settings) (reader : Code.Reader) :
    (∀ text query property? lineOffset target,
      (∃ line?, (Locator.withProperty text query property? lineOffset).locate target = .ok line?) ↔
        ¬ (Locator.withProperty text query property? lineOffset).StumblesOver target) ∧
    ∀ rule : Rule,
      (∃ report, rule.report settings reader = .ok report) ↔
        ∀ target ∈ (rule.check settings reader).coverage.targets,
          ¬ rule.locator.StumblesOver target := by
  constructor
  · intro text query property? lineOffset target
    exact Locator.locate_isOk_iff (Locator.isKept_withProperty text query property? lineOffset)
  · intro rule
    simp only [report_eq_ok_iff, exists_eq_left]

/-- A rule file with a description in front of the query that spells `value=` and an accented letter. -/
def accentedFile : String :=
  "<rule name=\"R\"><properties><property name=\"xpath\" description=\"value=é\"" ++
    " value=\"//A[@B and   @C]\"/></properties></rule>"

/-- The one rule of that file has no report. Its clause is looked up with a single blank behind `and`, which
no line has, and the third answer begins inside of the letter. -/
theorem report_accentedFile :
    (ofText? accentedFile).map (List.map fun rule =>
      (rule.report {} fun _ => .unusable "").isOk) = some [false] := by
  decide +kernel

/-! ### Lines -/

/-- A line that a detail carries is behind the lines before the rule, and it is the answer to a lookup: a line
of the rule, and so of the file, unless the lookup overshoots. -/
theorem line_of_mem_details {file : String} {rules : List Rule} {rule : Rule}
    (hfile : ofText? file = some rules) (hrule : rule ∈ rules) (settings : Settings)
    (reader : Code.Reader) {result : Result}
    (hresult : result ∈ (rule.check settings reader).coverage.results) {detail : Detail}
    (hdetail : detail ∈ result.details) {n : Nat} (hline : detail.line? = some n) :
    rule.lineOffset < n ∧
      rule.lineOffset + (Text.lines rule.text.toList).length ≤ (Text.lines file.toList).length ∧
      ∃ target ∈ result.targets, rule.locator.locate target = .ok (some n) ∧
        (n ≤ rule.lineOffset + (Text.lines rule.text.toList).length ↔
          ¬ rule.locator.Overshoots target) := by
  obtain ⟨target, htarget, hlookup⟩ := linesLookedUp_check hresult detail hdetail n hline
  -- A lookup that ends the run leaves no line, so this one had an answer.
  have hlocate : rule.locator.locate target = .ok (some n) := by
    change (rule.locator.locate target).toOption.join = some n at hlookup
    cases hanswer : rule.locator.locate target with
    | error misplaced =>
      rw [hanswer] at hlookup
      cases hlookup
    | ok line? =>
      rw [hanswer] at hlookup
      exact congrArg _ hlookup
  obtain ⟨behind, inside⟩ := Locator.locate_bounds rule.isKept_locator hlocate
  exact ⟨behind, lines_le_of_mem_ofText? hfile hrule, target, htarget, hlocate, inside⟩

/-- A rule file of one line, the query of which has a newline that is written as a character reference. -/
def referenceFile : String :=
  "<rule name=\"R\"><properties><property name=\"xpath\" value=\"//A&#10;[@B and   @C]\"/>" ++
    "</properties><example>x</example></rule>"

/-- The rule of that file. -/
def referenceRule : Rule where
  name := "R"
  query? := some "//A\n[@B and   @C]"
  examples := ["x"]
  text := referenceFile
  querySpan? := some ⟨27, 81⟩

/-- The only line of that file is the only line of its rule, and a detail about the rule points at a second
one. -/
theorem lines_referenceFile :
    (ofText? referenceFile).map (List.map fun rule =>
      (rule.lineOffset + (Text.lines rule.text.toList).length,
        (rule.check {} fun _ => .unusable "").coverage.results.flatMap fun result =>
          result.details.filterMap Detail.line?)) = some [(1, [1, 1, 2])] := by
  decide +kernel

/-- The lookup behind that line overshoots. -/
theorem overshoots_referenceRule :
    ∃ result ∈ (referenceRule.check {} fun _ => .unusable "").coverage.results,
      ∃ target ∈ result.targets, referenceRule.locator.locate target = .ok (some 2) ∧
        referenceRule.locator.Overshoots target := by
  have hfile : ofText? referenceFile = some [referenceRule] := by decide +kernel
  have hpoints : ((referenceRule.check {} fun _ => .unusable "").coverage.results.any fun result =>
      result.details.any fun detail => detail.line? == some 2) = true := by
    decide +kernel
  obtain ⟨result, hresult, hdetails⟩ := List.any_eq_true.mp hpoints
  obtain ⟨detail, hdetail, hline⟩ := List.any_eq_true.mp hdetails
  obtain ⟨-, inside, target, htarget, hlocate, bounds⟩ :=
    line_of_mem_details hfile (List.mem_singleton_self _) {} _ hresult hdetail (beq_iff_eq.mp hline)
  refine ⟨result, hresult, target, htarget, hlocate, ?_⟩
  have hlines : (Text.lines referenceFile.toList).length = 1 := by decide +kernel
  -- The line is behind the only one that there is.
  by_contra keeps
  have hbound := bounds.mpr keeps
  omega

/-! ### One more example -/

/-- The rule with one more example behind the others. -/
def withExample (body : String) : Rule :=
  { rule with examples := rule.examples ++ [body] }

theorem extendedBy_withExample (body : String) :
    (rule.context reader).ExtendedBy ((rule.withExample body).context reader) where
  examples := by
    refine ⟨Example.ofContent (some reader) (rule.examples.length + 1) body, ?_⟩
    simp [context, withExample, Example.ofContents, List.zipIdx_append]
  query := rfl
  reader := rfl

theorem coverageKept_withExample (body : String) :
    CoverageKept (rule.check settings reader).coverage
      ((rule.withExample body).check settings reader).coverage :=
  check_of_extendedBy (rule.extendedBy_withExample reader body) settings.policy rule.query settings

/-- One more example loses no coverage. It can lose the report, but only of a rule whose examples had nothing
but white space in them, so that no missing part of the query was looked up for it: then the locator may
stumble over one of those parts. -/
theorem report_withExample (body : String) :
    CoverageKept (rule.check settings reader).coverage
        ((rule.withExample body).check settings reader).coverage ∧
      ∀ before, rule.report settings reader = .ok before →
        ((∃ after, (rule.withExample body).report settings reader = .ok after ∧
            CoverageKept before.coverage after.coverage) ↔
          ¬ ((rule.context reader).hasContent = false ∧
            ∃ target ∈ ((rule.withExample body).check settings reader).coverage.targets,
              rule.locator.StumblesOver target)) := by
  have kept := rule.coverageKept_withExample settings reader body
  refine ⟨kept, fun before hbefore => ?_⟩
  obtain ⟨rfl, steady⟩ := (report_eq_ok_iff rule settings reader before).mp hbefore
  constructor
  · rintro ⟨after, hafter, -⟩ ⟨-, target, htarget, stumbles⟩
    exact ((report_eq_ok_iff _ settings reader after).mp hafter).2 target htarget stumbles
  · intro spared
    refine ⟨_, (report_eq_ok_iff _ settings reader _).mpr ⟨rfl, ?_⟩, kept⟩
    intro target htarget stumbles
    -- With content in the examples all that is looked up was looked up before, when nothing went wrong.
    cases hcontent : (rule.context reader).hasContent with
    | true =>
      have hold := targets_of_extendedBy (rule.extendedBy_withExample reader body) settings.policy
        rule.query settings hcontent
      exact steady target (hold target htarget) stumbles
    | false => exact spared ⟨hcontent, target, htarget, stumbles⟩

/-- A rule file without examples. Its property spells `value=` and an accented letter in front of the query,
and the `@` of the query as a character reference. -/
def mutedFile : String :=
  "<rule name=\"R\"><properties><property name=\"xpath\" description=\"value=é\"" ++
    " value=\"//A[&#64;B]\"/></properties></rule>"

/-- The rule of that file. -/
def mutedRule : Rule where
  name := "R"
  query? := some "//A[@B]"
  text := mutedFile
  querySpan? := some ⟨27, 94⟩

/-- There is a report on that rule, and with one more example there is none. -/
theorem report_mutedRule :
    ofText? mutedFile = some [mutedRule] ∧
      (mutedRule.report {} fun _ => .unusable "").isOk = true ∧
      ((mutedRule.withExample "x").report {} fun _ => .unusable "").isOk = false := by
  decide +kernel

/-- Its locator stumbles over the attribute, which is missing once there is an example to miss it in. -/
theorem stumbles_mutedRule :
    (mutedRule.context fun _ => .unusable "").hasContent = false ∧
      ∃ target ∈ ((mutedRule.withExample "x").check {} fun _ => .unusable "").coverage.targets,
        mutedRule.locator.StumblesOver target := by
  have hbefore : mutedRule.report {} (fun _ => .unusable "") =
      .ok (mutedRule.check {} fun _ => .unusable "") := by
    rw [report_eq_ok_iff]
    have hnone : (mutedRule.check {} fun _ => .unusable "").coverage.targets = [] := by
      decide +kernel
    simp [hnone]
  obtain ⟨-, spared⟩ := report_withExample mutedRule {} (fun _ => .unusable "") "x"
  -- Were there nothing to stumble over, there would be a report with the example, too.
  by_contra hspared
  obtain ⟨after, hafter, -⟩ := (spared _ hbefore).mpr hspared
  have hends : ((mutedRule.withExample "x").report {} fun _ => .unusable "").isOk = false := by
    decide +kernel
  rw [hafter] at hends
  cases hends

end Rule

end Exemplar
