import Exemplar.Code.Presence
import Exemplar.Coverage.Context

/-!
# Node types

Each node type of the query must be present in at least one example. Every example is read on its own,
so that a fragment and a whole class can stand side by side. A type that is only credited because the
text looks like it is noted, and so is every example whose code has no tree.
-/

namespace Exemplar.Coverage

open Code (Outcome Presence)

/-- Code that is already read, with the number of its example. -/
structure Reading where
  exampleIndex : Nat
  source : String
  outcome : Outcome

namespace Reading

/-- Why the code has no tree. -/
def failure? (reading : Reading) : Option String :=
  match reading.outcome with
  | .parsed _ => none
  | .unusable reason => some reason

end Reading

/-- The best that several readings say about a node type. -/
def presenceAcross (nodeType : String) (readings : List Reading) : Presence :=
  let found := readings.map fun r => Code.checkPresence nodeType r.source r.outcome
  match found.find? fun p => p == .present || p == .implicit with
  | some presence => presence
  | none =>
    if nodeType == Code.implicitType then .implicit
    else if found.contains .heuristic then .heuristic
    else .absent

/-- The examples with content, read. -/
def readings (ctx : Context) : List Reading :=
  (ctx.examples.filter fun ex => !Text.isBlankText ex.content.toList).map fun ex =>
    ⟨ex.index, ex.content, ctx.reader ex.content⟩

/-- The code that examples mark as valid, read. -/
def validReadings (ctx : Context) : List Reading :=
  (ctx.examples.filter fun ex => !ex.valids.isEmpty).map fun ex =>
    let code := "\n".intercalate ex.valids
    ⟨ex.index, code, ctx.reader code⟩

/-- How many node types valid code has too; this decides nothing. -/
def validEvidence (nodeTypes : List String) (ctx : Context) : List Evidence :=
  match validReadings ctx with
  | [] => []
  | readings =>
    let count := (nodeTypes.filter fun t => (presenceAcross t readings).isPresent).length
    [⟨.valid, count, nodeTypes.length, "Node types also present in valid code"⟩]

/-- The detail about a node type, unless it is plainly there. -/
def presenceDetail? (ctx : Context) (nodeType : String) : Presence → Option Detail
  | .absent => some (.missingNodeType nodeType (ctx.line? (.nodeType nodeType)))
  | .heuristic => some (.heuristicMatch nodeType)
  | .present | .implicit => none

/-- The node types that are missing, as messages list them. -/
def missingNames (ctx : Context) (found : List (String × Presence)) : List String :=
  (found.filter fun (_, presence) => !presence.isPresent).map fun (nodeType, _) =>
    withLine nodeType (ctx.line? (.nodeType nodeType))

/-- What to say about node types, of which `covered` are found and `implicit` are taken for granted. -/
def nodeTypesMessage (required covered implicit : Nat) (missing : List String)
    (readings : List Reading) : String :=
  let failures := readings.filterMap Reading.failure?
  if missing.isEmpty then s!"All {required} node types covered"
  else if covered == implicit && failures.length == readings.length then
    let reason := failures.head?.getD ""
    s!"AST parsing failed ({reason}); missing node types: {listed missing}"
  else s!"Missing node types: {listed missing}"

def checkNodeTypes (nodeTypes : List String) (ctx : Context) : Result :=
  let required := nodeTypes.length
  let implicit := nodeTypes.count Code.implicitType
  if implicit == required then
    let message :=
      if required == 0 then "No node types to check" else s!"All {required} node types covered"
    ⟨.nodeTypes, true, message, [⟨.violation, required, required, message⟩], []⟩
  else if !ctx.hasContent then
    ⟨.nodeTypes, false, noContent, [⟨.violation, implicit, required, noContent⟩], []⟩
  else
    let readings := readings ctx
    let found := nodeTypes.map fun t => (t, presenceAcross t readings)
    let missing := missingNames ctx found
    let covered := (found.filter fun (_, presence) => presence.isPresent).length
    let failures := readings.filterMap fun r =>
      r.failure?.map fun reason => Detail.parseFailure r.exampleIndex reason
    let message := nodeTypesMessage required covered implicit missing readings
    { category := .nodeTypes
      success := missing.isEmpty
      message
      evidence := ⟨.violation, covered, required, message⟩ :: validEvidence nodeTypes ctx
      details := found.filterMap (fun (t, presence) => presenceDetail? ctx t presence) ++ failures }

end Exemplar.Coverage
