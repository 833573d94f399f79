import Exemplar.Coverage.Evidence
import Exemplar.Coverage.Result
import Exemplar.Example.Basic
import Exemplar.Location.Locator

/-!
# What checks look at

The examples of a rule, its query, the reader for its examples' code and, if there is one, the locator
for its file.
-/

namespace Exemplar.Coverage

/-- What every check of one rule looks at. -/
structure Context where
  examples : List Example
  query : String
  reader : Code.Reader
  locator? : Option Locator := none
  /-- The contents of all examples, put together once. -/
  content : Content := .ofText (Example.combined examples)
  content_eq : content = .ofText (Example.combined examples) := by rfl

/-- What checks say when there is nothing to look at. -/
def noContent : String := "No example content to check"

namespace Context

def hasContent (ctx : Context) : Bool :=
  !ctx.content.isBlank

def marksViolations (ctx : Context) : Bool :=
  ctx.examples.any fun ex => !ex.violationMarkers.isEmpty

def marksValids (ctx : Context) : Bool :=
  ctx.examples.any fun ex => !ex.validMarkers.isEmpty

/-- The line of the rule file on which a part of the query stands. -/
def line? (ctx : Context) (target : Location.Target) : Option Nat :=
  ctx.locator?.bind (·.line? target)

end Context

/-- A text with the line it points at. -/
def withLine (text : String) : Option Nat → String
  | some line => s!"{text} (line {line})"
  | none => text

/-- Texts with commas between them. -/
def listed (texts : List String) : String :=
  ", ".intercalate texts

end Exemplar.Coverage
