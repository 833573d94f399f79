import Exemplar.Coverage.Context

/-!
# Attributes and operators

Each attribute of the query must be evidenced somewhere in the examples, and each operator must occur in
them.
-/

namespace Exemplar.Coverage

/-- A category whose members are checked one by one. -/
structure Membership where
  category : Category
  /-- What messages call the members. -/
  noun : String
  /-- Whether the examples cover a member. -/
  isEvidenced : Context → String → Bool
  /-- What to look for in the rule file to find a member. -/
  target : String → Location.Target
  /-- How messages write a member. -/
  label : String → String
  /-- The detail for a member that is missing. -/
  missing : String → Option Nat → Detail

namespace Membership

def ofAttributes : Membership where
  category := .attributes
  noun := "attributes"
  isEvidenced ctx name := ctx.content.evidences ctx.query name
  target := .attr
  label name := s!"@{name}"
  missing := .missingAttribute

def ofOperators : Membership where
  category := .operators
  noun := "operators"
  isEvidenced ctx operator := ctx.content.containsText operator
  target := .operator
  label operator := s!"'{operator}'"
  missing := .missingOperator

/-- A result with its message repeated by the count behind it. -/
def counted (category : Category) (success : Bool) (count required : Nat) (message : String)
    (details : List Detail) : Result :=
  ⟨category, success, message, [⟨.violation, count, required, message⟩], details⟩

def check (m : Membership) (items : List String) (ctx : Context) : Result :=
  if items.isEmpty then ⟨m.category, true, s!"No {m.noun} to check", [], []⟩
  else if !ctx.hasContent then counted m.category false 0 items.length noContent []
  else
    let missing := (items.filter (!m.isEvidenced ctx ·)).map fun item =>
      (item, ctx.line? (m.target item))
    let covered := items.length - missing.length
    if missing.isEmpty then
      counted m.category true covered items.length s!"All {items.length} {m.noun} covered" []
    else
      let names := missing.map fun (item, line?) => withLine (m.label item) line?
      counted m.category false covered items.length s!"Missing {m.noun}: {listed names}"
        (missing.map fun (item, line?) => m.missing item line?)

end Membership

def checkAttributes (names : List String) (ctx : Context) : Result :=
  Membership.ofAttributes.check names ctx

def checkOperators (values : List String) (ctx : Context) : Result :=
  Membership.ofOperators.check values ctx

end Exemplar.Coverage
