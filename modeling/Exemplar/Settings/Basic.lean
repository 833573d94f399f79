import Exemplar.Fault
import Exemplar.Files.Exclude
import Exemplar.Query.NodeType

/-!
# Settings

What a run checks and where it looks for rule files. Every setting has a default; an adjustment changes
one of them.

Patterns for exclusion are looked at twice: as they are written, and as they are used. The first one that
is at fault is reported.
-/

namespace Exemplar

/-- How node types are told from attribute names of the same shape. -/
structure NodeTypeSettings where
  excludeCollisions : Bool := true
  extraCollisions : List String := []
deriving DecidableEq, Repr

/-- Which parts of a query are checked. Node types always are. -/
structure CheckSettings where
  attributes : Bool := true
  operators : Bool := true
  conditionals : Bool := true
  /-- Names of strategies whose conditionals are passed over. -/
  disabledStrategies : List String := []
deriving DecidableEq, Repr

/-- The settings of a run. -/
structure Settings where
  nodeTypes : NodeTypeSettings := {}
  checks : CheckSettings := {}
  reportHardcoded : Bool := true
  /-- Patterns of files and directories to pass over. -/
  exclude : List String := ["target/**", ".git/**", "node_modules/**"]
  /-- How many files a run may check, if there is a limit. -/
  maxFiles? : Option Nat := some 10000
deriving DecidableEq, Repr

namespace Settings

/-- The policy for attribute names in step position. -/
def policy (settings : Settings) : Query.CollisionPolicy :=
  if !settings.nodeTypes.excludeCollisions then .keepAll
  else if settings.nodeTypes.extraCollisions.isEmpty then .dropKnown
  else .dropAlso settings.nodeTypes.extraCollisions

/-- Whether conditionals of a strategy are passed over. Case does not matter. -/
def isDisabled (settings : Settings) (strategy : String) : Bool :=
  settings.checks.disabledStrategies.any fun name =>
    Text.sameIgnoringCase name.toList strategy.toList

/-! ### Adjustments -/

/-- A change of one setting. -/
inductive Adjustment where
  | excludeCollisions (enabled : Bool)
  | extraCollision (name : String)
  | checkAttributes (enabled : Bool)
  | checkOperators (enabled : Bool)
  | checkConditionals (enabled : Bool)
  | disableStrategy (name : String)
  | reportHardcoded (enabled : Bool)
  | exclude (patterns : List String)
  | maxFiles (limit? : Option Nat)

/-- The settings after a change. Names are added, everything else is replaced. -/
def adjust (settings : Settings) : Adjustment → Settings
  | .excludeCollisions enabled =>
    { settings with nodeTypes := { settings.nodeTypes with excludeCollisions := enabled } }
  | .extraCollision name =>
    { settings with nodeTypes :=
        { settings.nodeTypes with extraCollisions := settings.nodeTypes.extraCollisions ++ [name] } }
  | .checkAttributes enabled =>
    { settings with checks := { settings.checks with attributes := enabled } }
  | .checkOperators enabled =>
    { settings with checks := { settings.checks with operators := enabled } }
  | .checkConditionals enabled =>
    { settings with checks := { settings.checks with conditionals := enabled } }
  | .disableStrategy name =>
    { settings with checks :=
        { settings.checks with disabledStrategies := settings.checks.disabledStrategies ++ [name] } }
  | .reportHardcoded enabled => { settings with reportHardcoded := enabled }
  | .exclude patterns => { settings with exclude := patterns }
  | .maxFiles limit? => { settings with maxFiles? := limit? }

/-! ### Patterns -/

/-- Nothing if all patterns are well-formed as they are written. -/
def validate (settings : Settings) : Except Fault Unit :=
  settings.exclude.forM fun pattern =>
    ((Glob.ofText pattern).mapError (Fault.excludePattern pattern)).map fun _ => ()

/-- The patterns as they are used. -/
def exclusions (settings : Settings) : Except Fault (List Exclusion) :=
  settings.exclude.mapM fun pattern =>
    (Exclusion.ofText pattern).mapError (Fault.excludePattern pattern)

end Settings

end Exemplar
