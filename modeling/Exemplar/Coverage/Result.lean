import Exemplar.Coverage.Strategy
import Exemplar.Location.Needle
import Exemplar.Query.Conditional

/-!
# Results

Each category of a rule's query has a result: whether the examples cover it, a message, the counts behind
the verdict and details that point at the gaps. A rule is covered if every category is.

Details about parts of the query carry lines that were looked up. Of a list only the members that are missing
are looked up, each for the detail about it. A conditional is looked up before anything is decided about it.
-/

namespace Exemplar.Coverage

open Location (Target)
open Query (Conditional)

/-- Whether a count is about code that violates the rule or about valid code. -/
inductive EvidenceKind where
  | valid
  | violation
deriving DecidableEq, Repr

/-- How many of the parts asked for were found. -/
structure Evidence where
  kind : EvidenceKind
  count : Nat
  required : Nat
  description : String
deriving DecidableEq, Repr

/-- What a result is about. -/
inductive Category where
  /-- The query as a whole, if there is none. -/
  | expression
  | nodeTypes
  | attributes
  | operators
  | conditional (conditional : Conditional) (strategy : Strategy)
deriving DecidableEq, Repr

namespace Category

def label : Category → String
  | expression => "XPath expression"
  | nodeTypes => "Node types"
  | attributes => "Attributes"
  | operators => "Operators"
  | conditional c _ => "Conditional `" ++ c.searchText ++ "`"

end Category

/-- A finding behind a result. Gaps carry the line of the rule file they point at, if it is known. -/
inductive Detail where
  | missingNodeType (nodeType : String) (line? : Option Nat)
  | missingAttribute (name : String) (line? : Option Nat)
  | missingOperator (operator : String) (line? : Option Nat)
  | uncoveredConditional (expression : String) (strategy : Strategy) (line? : Option Nat)
  | unimplementedStrategy (strategy : Strategy) (line? : Option Nat)
  | skippedStrategy (strategy : Strategy)
  | demonstratedValues (name : String) (values : List String)
  | heuristicMatch (nodeType : String)
  | parseFailure (exampleIndex : Nat) (reason : String)
deriving DecidableEq, Repr

namespace Detail

/-- The line of the rule file that the detail points at. -/
def line? : Detail → Option Nat
  | missingNodeType _ line? | missingAttribute _ line? | missingOperator _ line?
  | uncoveredConditional _ _ line? | unimplementedStrategy _ line? => line?
  | skippedStrategy _ | demonstratedValues _ _ | heuristicMatch _ | parseFailure _ _ => none

end Detail

/-- The verdict on one category. -/
structure Result where
  category : Category
  success : Bool
  message : String
  evidence : List Evidence := []
  details : List Detail := []
deriving DecidableEq, Repr

/-- The verdicts on all categories of a query, with a line for each one that failed. -/
structure Summary where
  results : List Result
  uncovered : List String
  success : Bool
deriving DecidableEq, Repr

namespace Summary

/-- Puts results together: all have to succeed, and those that do not are listed in order. -/
def ofResults (results : List Result) : Summary where
  results
  uncovered := (results.filter (!·.success)).map fun r => s!"{r.category.label}: {r.message}"
  success := results.all (·.success)

end Summary

/-! ### Lookups -/

/-- The part of the query that a detail was looked up for. -/
def Detail.target? : Detail → Option Target
  | missingNodeType nodeType _ => some (.nodeType nodeType)
  | missingAttribute name _ => some (.attr name)
  | missingOperator operator _ => some (.operator operator)
  | _ => none

/-- The conditional that a category is about. -/
def Category.target? : Category → Option Target
  | conditional c _ => some (.conditional c)
  | _ => none

/-- The parts of the query that a check looked up for its result. -/
def Result.targets (result : Result) : List Target :=
  result.category.target?.toList ++ result.details.filterMap Detail.target?

/-- The parts of the query that a check of all categories looked up. -/
def Summary.targets (summary : Summary) : List Target :=
  summary.results.flatMap Result.targets

end Exemplar.Coverage
