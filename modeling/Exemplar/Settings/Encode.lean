import Exemplar.Files.Tree
import Exemplar.Report.Json
import Exemplar.Settings.Basic
import Exemplar.Toml.Document

/-!
# Settings as texts

A settings file is a TOML document. What it does not mention keeps its default, and what it mentions
without need is passed over. The settings of a group are looked up by name in a table; an array holds them
in order instead. A file that cannot be read, or does not say what the settings are, is a fault; who can do
without it goes on with the defaults and a warning.

Settings are written as JSON, under the names that settings files give them.
-/

namespace Exemplar

open Toml (Value)

/-! ### Reading -/

namespace Settings

/-- The settings of a group under their names. Dates are tables without any. -/
def fields? (names : List String) : Value → Option (List (String × Value))
  | .table _ entries => some entries
  | .dateTime => some []
  | .array items | .tables items => some (names.zip items)
  | _ => none

/-- A setting, or its default if it is not there. -/
def field {α : Type} (fields : List (String × Value)) (name : String) (decode : Value → Option α)
    (default : α) : Option α :=
  match fields.lookup name with
  | some value => decode value
  | none => some default

def bool? : Value → Option Bool
  | .boolean value => some value
  | _ => none

def nat? : Value → Option Nat
  | .integer number => if 0 ≤ number then some number.toNat else none
  | _ => none

def string? : Value → Option String
  | .string text => some text
  | _ => none

def strings? : Value → Option (List String)
  | .array items | .tables items => items.mapM string?
  | _ => none

def nodeTypes? (value : Value) : Option NodeTypeSettings := do
  let fields ← fields? ["exclude_attribute_collisions", "extra_collisions"] value
  let default : NodeTypeSettings := {}
  return {
    excludeCollisions :=
      ← field fields "exclude_attribute_collisions" bool? default.excludeCollisions
    extraCollisions := ← field fields "extra_collisions" strings? default.extraCollisions }

def checks? (value : Value) : Option CheckSettings := do
  let fields ← fields? ["attributes", "operators", "conditionals", "disabled_strategies"] value
  let default : CheckSettings := {}
  return {
    attributes := ← field fields "attributes" bool? default.attributes
    operators := ← field fields "operators" bool? default.operators
    conditionals := ← field fields "conditionals" bool? default.conditionals
    disabledStrategies := ← field fields "disabled_strategies" strings? default.disabledStrategies }

/-- The settings that a document stands for. -/
def ofValue? (value : Value) : Option Settings := do
  let fields ← fields? [] value
  let default : Settings := {}
  return {
    nodeTypes := ← field fields "node_types" nodeTypes? default.nodeTypes
    checks := ← field fields "checks" checks? default.checks
    reportHardcoded := ← field fields "report_hardcoded_values" bool? default.reportHardcoded
    exclude := ← field fields "exclude" strings? default.exclude
    maxFiles? := ← field fields "max_files" (fun v => (nat? v).map some) default.maxFiles? }

/-- The settings in the text of a settings file. -/
def ofText? (text : String) : Option Settings := do
  ofValue? (← Value.ofText? text)

/-! ### Loading -/

/-- The settings in the file at a path. -/
def load (tree : FileTree) (path : String) : Except Fault Settings :=
  match tree.read path with
  | .error failure => throw (.read path failure)
  | .ok text =>
    match ofText? text with
    | some settings => return settings
    | none => throw (.malformedSettings path)

/-- The warning that goes with a fault. -/
def warning (path : String) (fault : Fault) : String :=
  s!"Failed to load config {path}: {fault.message}; using defaults"

/-- The settings in the file at a path if there is one, or else the defaults, with a warning if the file
is to blame. -/
def loadOrDefault (tree : FileTree) (path? : Option String) : Settings × Option String :=
  match path? with
  | none => ({}, none)
  | some path =>
    match load tree path with
    | .ok settings => (settings, none)
    | .error fault => ({}, some (warning path fault))

end Settings

/-! ### Writing -/

def NodeTypeSettings.toJson (settings : NodeTypeSettings) : Json :=
  .obj [("exclude_attribute_collisions", .bool settings.excludeCollisions),
    ("extra_collisions", .strs settings.extraCollisions)]

def CheckSettings.toJson (settings : CheckSettings) : Json :=
  .obj [("attributes", .bool settings.attributes), ("operators", .bool settings.operators),
    ("conditionals", .bool settings.conditionals),
    ("disabled_strategies", .strs settings.disabledStrategies)]

def Settings.toJson (settings : Settings) : Json :=
  .obj [("node_types", settings.nodeTypes.toJson), ("checks", settings.checks.toJson),
    ("report_hardcoded_values", .bool settings.reportHardcoded), ("exclude", .strs settings.exclude),
    ("max_files", .nat? settings.maxFiles?)]

end Exemplar
