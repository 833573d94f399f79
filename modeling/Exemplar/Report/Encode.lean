import Exemplar.Report.Basic
import Exemplar.Report.Json

/-!
# Reports as JSON

The fields of each part of a report, in order. A line that is not known is `null`; the code that a marker
speaks of is left out if it is not known.
-/

namespace Exemplar

/-! ### Queries -/

namespace Query

def Conditional.toJson (c : Conditional) : Json :=
  .obj [("type", .str c.kind.keyword), ("expression", .str c.expression),
    ("position", .nat c.position)]

def Analysis.toJson (analysis : Analysis) : Json :=
  .obj [("nodeTypes", .strs analysis.nodeTypes), ("attributes", .strs analysis.attributes),
    ("operators", .strs analysis.operators),
    ("conditionals", .arr (analysis.conditionals.map Conditional.toJson)),
    ("hasUnions", .bool analysis.hasUnions),
    ("hasLetExpressions", .bool analysis.hasLetExpressions)]

/-- How reports call a sort of literals. -/
def LiteralKind.name : LiteralKind → String
  | string => "string"
  | number => "number"

def Literal.toJson (value : Literal) : Json :=
  .obj [("type", .str value.kind.name), ("value", .str value.value),
    ("position", .nat value.position)]

def LetVariable.toJson (variable_ : LetVariable) : Json :=
  .obj [("name", .str variable_.name), ("value", .str variable_.value)]

end Query

/-! ### Examples -/

namespace Example

def Highlight.fields (highlight : Highlight) : List (String × Json) :=
  [("astNodeType", .str highlight.nodeType),
    ("codeSpan", .obj [("start", .nat highlight.start), ("end", .nat highlight.stop)]),
    ("codeText", .str highlight.text)]

def Marker.toJson (marker : Marker) : Json :=
  .obj ([("lineNumber", .nat marker.line), ("description", .str marker.description),
    ("isViolation", .bool marker.isViolation), ("index", .nat marker.index)] ++
    (marker.highlight?.map Highlight.fields).getD [])

def toJson (ex : Example) : Json :=
  .obj [("exampleIndex", .nat ex.index), ("content", .str ex.content),
    ("violations", .strs ex.violations), ("valids", .strs ex.valids),
    ("violationMarkers", .arr (ex.violationMarkers.map Marker.toJson)),
    ("validMarkers", .arr (ex.validMarkers.map Marker.toJson))]

end Example

/-! ### Coverage -/

namespace Coverage

/-- How reports call a sort of evidence. -/
def EvidenceKind.name : EvidenceKind → String
  | valid => "valid"
  | violation => "violation"

def Evidence.toJson (evidence : Evidence) : Json :=
  .obj [("type", .str evidence.kind.name), ("count", .nat evidence.count),
    ("required", .nat evidence.required), ("description", .str evidence.description)]

def Category.toJson : Category → Json
  | expression => .obj [("kind", .str "expression")]
  | nodeTypes => .obj [("kind", .str "node_types")]
  | attributes => .obj [("kind", .str "attributes")]
  | operators => .obj [("kind", .str "operators")]
  | conditional c strategy =>
    .obj [("kind", .str "conditional"), ("conditional", c.toJson), ("strategy", .str strategy.name)]

def Detail.toJson : Detail → Json
  | missingNodeType nodeType line? =>
    .obj [("type", .str "missing_node_type"), ("node_type", .str nodeType), ("line", .nat? line?)]
  | missingAttribute name line? =>
    .obj [("type", .str "missing_attribute"), ("attribute", .str name), ("line", .nat? line?)]
  | missingOperator operator line? =>
    .obj [("type", .str "missing_operator"), ("operator", .str operator), ("line", .nat? line?)]
  | uncoveredConditional expression strategy line? =>
    .obj [("type", .str "uncovered_conditional"), ("expression", .str expression),
      ("strategy", .str strategy.name), ("line", .nat? line?)]
  | unimplementedStrategy strategy line? =>
    .obj [("type", .str "unimplemented_strategy"), ("strategy", .str strategy.name),
      ("line", .nat? line?)]
  | skippedStrategy strategy =>
    .obj [("type", .str "skipped_strategy"), ("strategy", .str strategy.name)]
  | demonstratedValues name values =>
    .obj [("type", .str "demonstrated_values"), ("attribute", .str name), ("values", .strs values)]
  | heuristicMatch nodeType =>
    .obj [("type", .str "heuristic_match"), ("node_type", .str nodeType)]
  | parseFailure index reason =>
    .obj [("type", .str "parse_failure"), ("example", .nat index), ("reason", .str reason)]

def Result.toJson (result : Result) : Json :=
  .obj [("category", result.category.toJson), ("success", .bool result.success),
    ("message", .str result.message), ("evidence", .arr (result.evidence.map Evidence.toJson)),
    ("details", .arr (result.details.map Detail.toJson))]

def Summary.toJson (summary : Summary) : Json :=
  .obj [("coverage", .arr (summary.results.map Result.toJson)),
    ("uncoveredBranches", .strs summary.uncovered), ("overallSuccess", .bool summary.success)]

end Coverage

/-! ### Reports -/

def RuleReport.toJson (report : RuleReport) : Json :=
  .obj [("ruleName", .str report.name), ("analysis", report.analysis.toJson),
    ("coverage", report.coverage.toJson),
    ("hardcodedValues", .arr (report.hardcodedValues.map Query.Literal.toJson)),
    ("letVariables", .arr (report.letVariables.map Query.LetVariable.toJson)),
    ("examples", .arr (report.examples.map Example.toJson))]

def FileReport.toJson (report : FileReport) : Json :=
  .obj [("path", .str report.path), ("rules", .arr (report.rules.map RuleReport.toJson))]

def FileFailure.toJson (failure : FileFailure) : Json :=
  .obj [("path", .str failure.path), ("error", .str failure.error)]

def ProjectReport.toJson (report : ProjectReport) : Json :=
  .obj [("files", .arr (report.files.map FileReport.toJson)),
    ("failures", .arr (report.failures.map FileFailure.toJson)),
    ("filesChecked", .nat report.filesChecked)]

/-- A report as the text of a JSON document. -/
def ProjectReport.renderJson (report : ProjectReport) : String :=
  report.toJson.pretty ++ "\n"

end Exemplar
