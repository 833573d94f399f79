import Exemplar.Report.Basic
import Exemplar.Report.Style

/-!
# Reports as text

Every file with its rules, every rule with its results, every result that failed with the gaps that were
found; then the files that could not be checked, and a line that sums up.
-/

namespace Exemplar

open Style (paint)

namespace Coverage

/-- What a detail has to say about a gap, if it is about one. -/
def Detail.describe? : Detail → Option String
  | missingNodeType nodeType _ => some s!"node type {nodeType} not found in examples"
  | missingAttribute name _ => some s!"attribute @{name} not demonstrated"
  | missingOperator operator _ => some s!"operator '{operator}' not demonstrated"
  | uncoveredConditional expression strategy _ =>
    some s!"{strategy.name} `{expression}` not demonstrated"
  | unimplementedStrategy strategy _ => some s!"no checker for {strategy.name} conditionals"
  | parseFailure index reason => some s!"example {index} could not be parsed: {reason}"
  | skippedStrategy _ | demonstratedValues _ _ | heuristicMatch _ => none

/-- The line for a detail, if it is about a gap. -/
def Detail.text? (styled : Bool) (path : String) (detail : Detail) : Option String :=
  detail.describe?.map fun description =>
    let location := match detail.line? with
      | some line => s!"{path}:{line}"
      | none => path
    "      " ++ paint styled .cyan (location ++ ":") ++ " " ++ description

def Result.text (styled : Bool) (path : String) (result : Result) : List String :=
  let mark := if result.success then paint styled .green "✓" else paint styled .red "✗"
  s!"    {mark} {result.category.label}: {result.message}" ::
    if result.success then [] else result.details.filterMap (Detail.text? styled path)

end Coverage

/-- What a text report shows. -/
structure TextStyle where
  styled : Bool
  /-- Whether it lists the literals of the queries. -/
  literals : Bool
deriving DecidableEq, Repr

def RuleReport.text (style : TextStyle) (path : String) (report : RuleReport) : List String :=
  let status :=
    if report.isCovered then paint style.styled .green "covered"
    else paint style.styled .red "uncovered"
  let values := ", ".intercalate (report.hardcodedValues.map (·.value))
  [s!"  {paint style.styled .bold report.name} ({status})"] ++
    report.coverage.results.flatMap (Coverage.Result.text style.styled path) ++
    if style.literals && !report.hardcodedValues.isEmpty then
      ["    " ++ paint style.styled .yellow "hardcoded:" ++ " " ++ values]
    else []

def FileReport.text (style : TextStyle) (report : FileReport) : List String :=
  [paint style.styled .bold report.path] ++
    (if report.rules.isEmpty then ["  " ++ paint style.styled .dimmed "no rules found"] else []) ++
    report.rules.flatMap (RuleReport.text style report.path) ++ [""]

/-- How errors are announced. -/
def errorLabel (styled : Bool) : String :=
  paint styled .boldRed "error:"

def FileFailure.text (style : TextStyle) (failure : FileFailure) : String :=
  s!"{errorLabel style.styled} {failure.path}: {failure.error}"

namespace ProjectReport

def summary (styled : Bool) (report : ProjectReport) : String :=
  let total := report.rules.length
  let uncovered := report.uncoveredRules
  let files := report.filesChecked
  if files = 0 then paint styled .yellow "No rule files found"
  else
    let line :=
      if uncovered = 0 then s!"All {total} rules covered in {files} files"
      else s!"Found {uncovered} uncovered of {total} rules in {files} files"
    if report.failures.isEmpty && uncovered == 0 then paint styled .boldGreen line
    else paint styled .boldRed line

def textLines (style : TextStyle) (report : ProjectReport) : List String :=
  report.files.flatMap (FileReport.text style) ++ report.failures.map (FileFailure.text style) ++
    [report.summary style.styled]

def renderText (style : TextStyle) (report : ProjectReport) : String :=
  String.join (report.textLines style |>.map (· ++ "\n"))

end ProjectReport

end Exemplar
