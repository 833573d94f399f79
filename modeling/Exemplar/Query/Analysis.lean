import Exemplar.Query.Attribute
import Exemplar.Query.Conditional
import Exemplar.Query.Literal
import Exemplar.Query.NodeType

/-!
# Analysis of a query

The parts of a query that the examples of its rule have to exercise. The analysis is textual: it
recognises the parts without evaluating anything, and every query has one, however malformed.
-/

namespace Exemplar.Query

/-- The parts of a query. -/
structure Analysis where
  nodeTypes : List String := []
  attributes : List String := []
  operators : List String := []
  conditionals : List Conditional := []
  hasUnions : Bool := false
  hasLetExpressions : Bool := false
deriving DecidableEq, Repr

namespace Analysis

def isEmpty (analysis : Analysis) : Bool :=
  analysis.nodeTypes.isEmpty && analysis.attributes.isEmpty && analysis.operators.isEmpty &&
    analysis.conditionals.isEmpty

end Analysis

/-- The parts of a query under a policy for attribute names. -/
def analyze (policy : CollisionPolicy) (query : String) : Analysis where
  nodeTypes := nodeTypes policy query
  attributes := attributes query
  operators := operators query
  conditionals := conditionals query
  hasUnions := query.toList.contains '|'
  hasLetExpressions := Text.contains query.toList "let ".toList

end Exemplar.Query
