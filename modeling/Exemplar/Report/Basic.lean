import Exemplar.Code.Parser
import Exemplar.Coverage.Check
import Exemplar.Coverage.Result
import Exemplar.Query.LetBlock
import Exemplar.Query.Literal

/-!
# Reports

What a run finds out: about each rule, about each file with its rules, about files that could not be
checked, and about all of them together.
-/

namespace Exemplar

/-- What is known about a rule once it is checked. -/
structure RuleReport where
  name : String
  analysis : Query.Analysis
  coverage : Coverage.Summary
  hardcodedValues : List Query.Literal
  letVariables : List Query.LetVariable
  examples : List Example
deriving DecidableEq, Repr

namespace RuleReport

def isCovered (report : RuleReport) : Bool :=
  report.coverage.success

end RuleReport

namespace Rule

/-- The query of a rule; a rule without one has an empty query. -/
def query (rule : Rule) : String :=
  rule.query?.getD ""

/-- The locator for the file that a rule is from. -/
def locator (rule : Rule) : Locator :=
  .withProperty rule.text rule.query rule.querySpan? rule.lineOffset

/-- What the checks of a rule look at. Lines are those of the file that the rule is from. -/
def context (rule : Rule) (reader : Code.Reader) : Coverage.Context :=
  let examples := Example.ofContents (some reader) rule.examples
  { examples, query := rule.query, reader, locator? := some rule.locator }

def check (rule : Rule) (settings : Settings) (reader : Code.Reader) : RuleReport :=
  let ctx := rule.context reader
  let analysis := Query.analyze settings.policy ctx.query
  { name := rule.name
    analysis
    coverage := Coverage.check analysis ctx settings
    hardcodedValues := if settings.reportHardcoded then Query.hardcodedValues ctx.query else []
    letVariables := Query.letVariables ctx.query
    examples := ctx.examples }

/-- The report on a rule, unless one of the lookups for it ends the run. -/
def report (rule : Rule) (settings : Settings) (reader : Code.Reader) :
    Except Text.Misplaced RuleReport := do
  let report := rule.check settings reader
  rule.locator.lookUp report.coverage.targets
  return report

end Rule

/-- The rules of one file. -/
structure FileReport where
  path : String
  rules : List RuleReport
deriving DecidableEq, Repr

/-- A file that could not be checked, and why. -/
structure FileFailure where
  path : String
  error : String
deriving DecidableEq, Repr

/-- Everything about one run. -/
structure ProjectReport where
  files : List FileReport := []
  failures : List FileFailure := []
  filesChecked : Nat := 0
deriving DecidableEq, Repr

namespace ProjectReport

def rules (report : ProjectReport) : List (String × RuleReport) :=
  report.files.flatMap fun file => file.rules.map (file.path, ·)

def isCovered (report : ProjectReport) : Bool :=
  report.rules.all fun (_, rule) => rule.isCovered

def uncoveredRules (report : ProjectReport) : Nat :=
  report.rules.countP fun (_, rule) => !rule.isCovered

end ProjectReport

end Exemplar
