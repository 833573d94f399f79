import Exemplar.Coverage.Context
import Exemplar.Settings.Basic

/-!
# Conditionals

Each conditional is demonstrated, or not, in the way of its strategy. Two strategies have no way to
demonstrate anything yet; a conditional of theirs fails, which is not the same as one that was looked at
and not demonstrated. A strategy that is switched off passes.
-/

namespace Exemplar.Coverage

open Query (Conditional)

/-- What a demonstration comes to. -/
structure Verdict where
  demonstrated : Bool
  reason : String
  details : List Detail := []

/-! ### Evidence for a clause -/

/-- Whether the examples evidence an attribute of a clause, by a literal of the clause or of the whole
query. -/
def isEvidencedFor (conditional : Conditional) (ctx : Context) (name : String) : Bool :=
  ctx.content.evidences ctx.query name || ctx.content.evidences conditional.expression name

/-- Attributes as queries write them. -/
def references (names : List String) : String :=
  listed (names.map fun name => s!"@{name}")

/-- Demonstrated if every attribute of the clause is evidenced. -/
def attributesVerdict (conditional : Conditional) (ctx : Context) (reason : String) : Verdict :=
  match (Query.attributes conditional.expression).filter (!isEvidencedFor conditional ctx ·) with
  | [] => ⟨true, reason, []⟩
  | missing => ⟨false, s!"no evidence for {references missing}", []⟩

/-! ### Strategies -/

/-- Annotations give values to two attributes at least, and not all the same one. -/
def demonstrateComparison (conditional : Conditional) (ctx : Context) : Verdict :=
  let names := Query.attributes conditional.expression
  let annotated := (names.map fun name => (name, ctx.content.annotatedValues name)).filter
    fun (_, values) => !values.isEmpty
  let details := annotated.map fun (name, values) => Detail.demonstratedValues name values
  if annotated.length < 2 then
    let wanted := references names
    let sample := names.head?.getD "Attr"
    ⟨false, s!"annotate values for at least two of {wanted} (e.g. `// {sample}: 5`)", details⟩
  else
    let values := (annotated.map Prod.snd).flatten
    if values.any fun value => some value != values.head? then
      ⟨true, "Compared attributes show differing values", details⟩
    else ⟨false, "all annotated values are identical", details⟩

/-- A literal of the clause occurs in the examples; without literals, its attributes are evidenced. -/
def demonstrateFunction (conditional : Conditional) (ctx : Context) : Verdict :=
  match Query.stringValues conditional.expression with
  | [] => attributesVerdict conditional ctx "Function attributes are evidenced"
  | literals =>
    match literals.find? ctx.content.containsText with
    | some hit => ⟨true, s!"Function argument '{hit}' appears in examples", []⟩
    | none =>
      let wanted := " or ".intercalate (literals.map fun l => s!"'{l}'")
      ⟨false, s!"no example contains {wanted}", []⟩

/-- The attributes are evidenced, and the examples mark both violations and valid code. -/
def demonstrateNot (conditional : Conditional) (ctx : Context) : Verdict :=
  let verdict := attributesVerdict conditional ctx "Negated attributes are evidenced"
  if !verdict.demonstrated then verdict
  else if ctx.marksViolations && ctx.marksValids then
    ⟨true, "Negation shown with violation and valid examples", []⟩
  else ⟨false, "a negation needs both a violation and a valid example", []⟩

/-- The attributes are evidenced, and the examples mark a violation. -/
def demonstrateAnd (conditional : Conditional) (ctx : Context) : Verdict :=
  let verdict := attributesVerdict conditional ctx "All clause attributes are evidenced"
  if verdict.demonstrated && !ctx.marksViolations then
    ⟨false, "no violation marker exercises the clause", []⟩
  else verdict

/-- One attribute or one literal of the branch is enough; a branch without any needs a violation. -/
def demonstrateOr (conditional : Conditional) (ctx : Context) : Verdict :=
  let names := Query.attributes conditional.expression
  let literals := Query.stringValues conditional.expression
  if names.isEmpty && literals.isEmpty then
    if ctx.marksViolations then
      ⟨true, "Branch has nothing to evidence beyond a violation", []⟩
    else ⟨false, "branch has no attribute or literal and no violation marker", []⟩
  else
    match names.find? (isEvidencedFor conditional ctx), literals.find? ctx.content.containsText with
    | some name, _ => ⟨true, s!"Branch attribute @{name} is evidenced", []⟩
    | none, some literal => ⟨true, s!"Branch literal '{literal}' appears in examples", []⟩
    | none, none => ⟨false, "no attribute or literal of the branch appears in examples", []⟩

/-- The way to demonstrate a conditional of a strategy, if there is one. -/
def Strategy.demonstration? : Strategy → Option (Conditional → Context → Verdict)
  | comparison => some demonstrateComparison
  | booleanFunction => some demonstrateFunction
  | notCondition => some demonstrateNot
  | andOperator => some demonstrateAnd
  | orBranch => some demonstrateOr
  | quantified | ifCondition => none

/-! ### Checks -/

def Verdict.result (verdict : Verdict) (conditional : Conditional) (strategy : Strategy)
    (line? : Option Nat) : Result :=
  let evidence : Evidence :=
    ⟨.violation, if verdict.demonstrated then 1 else 0, 1, verdict.reason⟩
  let message :=
    if verdict.demonstrated then verdict.reason
    else withLine s!"Not demonstrated: {verdict.reason}" line?
  let gap :=
    if verdict.demonstrated then []
    else [Detail.uncoveredConditional conditional.expression strategy line?]
  ⟨.conditional conditional strategy, verdict.demonstrated, message, [evidence], gap ++ verdict.details⟩

def checkConditional (conditional : Conditional) (ctx : Context) (settings : Settings) : Result :=
  let strategy := Strategy.classify conditional
  let category := Category.conditional conditional strategy
  let line? := ctx.line? (.conditional conditional)
  if settings.isDisabled strategy.name then
    ⟨category, true, s!"Strategy `{strategy.name}` skipped", [], [.skippedStrategy strategy]⟩
  else
    match strategy.demonstration? with
    | none =>
      ⟨category, false, withLine s!"Strategy `{strategy.name}` is not implemented" line?, [],
        [.unimplementedStrategy strategy line?]⟩
    | some demonstrate =>
      if !ctx.hasContent then
        ⟨category, false, noContent, [⟨.violation, 0, 1, noContent⟩], []⟩
      else (demonstrate conditional ctx).result conditional strategy line?

end Exemplar.Coverage
