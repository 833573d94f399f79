import Exemplar.Files.Cache
import Exemplar.Report.Basic

/-!
# Checking a rule file

The text comes through a cache. Rules without a name get that of the file without its extension, and
reports are put in order by name.
-/

namespace Exemplar

namespace RuleFile

variable {m : Type → Type} [Monad m]

/-- A rule with a name. -/
def named (name : String) (rule : Rule) : Rule :=
  if rule.name = "" then { rule with name } else rule

/-- Reports on the rules in the text of a file. -/
def report (settings : Settings) (reader : Code.Reader) (path text : String) :
    Except Fault (List RuleReport) :=
  match Rule.ofText? text with
  | none => throw (.malformedRules path)
  | some rules => do
    let reports ← (rules.mapM fun rule =>
      (named (Path.stem path) rule).report settings reader).mapError .misplaced
    return reports.mergeSort fun report other => decide (report.name ≤ other.name)

/-- Reports on the rules of the file at a path. -/
def check (source : FileSource m) (settings : Settings) (reader : Code.Reader) (cache : Cache)
    (path : String) : m (Except Fault (List RuleReport) × Cache) := do
  let (answer, cache) ← cache.read source path
  return (answer.bind (report settings reader path), cache)

/-- The line of a target of a query in the file at a path, if the file can be read. -/
def locate (source : FileSource m) (cache : Cache) (path query : String)
    (target : Location.Target) : m (Except Text.Misplaced (Option Nat) × Cache) := do
  let (text?, cache) ← cache.get source path
  let answer := match text? with
    | none => .ok none
    | some text => (Locator.ofText text query 0).locate target
  return (answer, cache)

end RuleFile

end Exemplar
