import Exemplar.Coverage.Conditionals
import Exemplar.Coverage.Members
import Exemplar.Coverage.NodeTypes
import Exemplar.Query.Analysis

/-!
# Coverage of a query

Checks every category of a query that the settings ask for. Without a query there is one category only,
and it fails.
-/

namespace Exemplar.Coverage

/-- The results for the parts of a query. -/
def results (analysis : Query.Analysis) (ctx : Context) (settings : Settings) : List Result :=
  let checks := settings.checks
  [checkNodeTypes analysis.nodeTypes ctx] ++
    (if checks.attributes then [checkAttributes analysis.attributes ctx] else []) ++
    (if checks.operators then [checkOperators analysis.operators ctx] else []) ++
    (if checks.conditionals then
      analysis.conditionals.map fun c => checkConditional c ctx settings
    else [])

/-- How far the examples cover a query. -/
def check (analysis : Query.Analysis) (ctx : Context) (settings : Settings) : Summary :=
  if Text.isBlankText ctx.query.toList then
    .ofResults [⟨.expression, false, "No XPath expression to check", [], []⟩]
  else .ofResults (results analysis ctx settings)

end Exemplar.Coverage
