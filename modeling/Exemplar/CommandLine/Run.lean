import Exemplar.CommandLine.Arguments
import Exemplar.Project.Check
import Exemplar.Report.Encode
import Exemplar.Report.Text
import Exemplar.Settings.Encode

/-!
# Running from the command line

A run prints its report and exits with 0 if every rule is covered, 1 if some rule is not, and 2 if a file
could not be checked. Where there is no report, there is an error and the exit code is 2 as well. Settings
that cannot be loaded are an error here, because they were asked for. A run that is ended by a misplaced
lookup is aborted and prints nothing of its own.
-/

namespace Exemplar.CommandLine

/-- What a run leaves behind. -/
structure Result where
  exitCode : Nat
  stdout : String
  stderr : String
deriving DecidableEq, Repr

/-- Why there is no report. -/
inductive Stop where
  /-- There is an error to print. -/
  | error (message : String)
  /-- The run was aborted. -/
  | aborted
deriving DecidableEq, Repr

/-- The settings that arguments ask for, or an error. -/
def settings (tree : FileTree) (arguments : Arguments) : Except Stop Settings :=
  match Settings.loadOrDefault tree arguments.config? with
  | (_, some warning) => throw (.error warning)
  | (settings, none) =>
    match settings.validate with
    | .ok () => return settings
    | .error fault => throw (.error ("invalid configuration: " ++ fault.message))

/-- What a fault of the whole run comes to. -/
def stopOf : Fault → Stop
  | .misplaced _ => .aborted
  | fault => .error ("failed to check rule files: " ++ fault.message)

/-- The report that arguments ask for, or why there is none. -/
def report (tree : FileTree) (arguments : Arguments) : Except Stop ProjectReport := do
  let settings ← settings tree arguments
  (tree.check settings arguments.paths).mapError stopOf

def exitCode (report : ProjectReport) : Nat :=
  if !report.failures.isEmpty then 2
  else if report.isCovered then 0
  else 1

def abortCode : Nat := 134

/-- A report in the format that arguments ask for. -/
def render (styled : Bool) (arguments : Arguments) (report : ProjectReport) : String :=
  match arguments.format?.getD .text with
  | .text => report.renderText ⟨styled, arguments.showHardcoded⟩
  | .json => report.renderJson

/-- Runs with arguments. Text is styled if the terminal can show it and no argument is against it. -/
def run (tree : FileTree) (terminal : Bool) (arguments : Arguments) : Result :=
  let styled := terminal && !arguments.noColor
  match report tree arguments with
  | .ok report => ⟨exitCode report, render styled arguments report, ""⟩
  | .error (.error message) => ⟨2, "", errorLabel styled ++ " " ++ message ++ "\n"⟩
  | .error .aborted => ⟨abortCode, "", ""⟩

end Exemplar.CommandLine
