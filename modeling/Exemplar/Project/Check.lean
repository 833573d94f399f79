import Exemplar.Files.Walk
import Exemplar.Project.RuleFile
import Exemplar.Settings.Basic

/-!
# Checking a project

A run takes the files that its paths stand for one by one. A file that cannot be checked is a failure and
does not stop the run; too many files do, and so does a misplaced lookup in the text of a rule. In the
report, files and failures are in order of their paths.

Every file asks to be admitted: it looks whether the limit is known to be exceeded, takes the next number, and
lets the others know if that number is beyond the limit. These three are steps of their own, so that files
which ask at the same time can be told apart.
-/

namespace Exemplar

/-! ### The file limit -/

/-- What all who ask share. -/
structure FileLimit where
  max? : Option Nat
  /-- The number to take next. -/
  taken : Nat := 0
  exceeded : Bool := false
deriving DecidableEq, Repr

namespace FileLimit

/-- Takes the next number. -/
def take (limit : FileLimit) : Nat × FileLimit :=
  (limit.taken, { limit with taken := limit.taken + 1 })

/-- Whether a number is within the limit. -/
def allows (limit : FileLimit) (number : Nat) : Bool :=
  limit.max?.all fun max => number < max

/-- Lets it be known that the limit is exceeded. -/
def close (limit : FileLimit) : FileLimit :=
  { limit with exceeded := true }

/-- Asks for one file, with nobody else asking in between. -/
def ask (limit : FileLimit) : Bool × FileLimit :=
  if limit.exceeded then (false, limit)
  else
    let (number, limit) := limit.take
    if limit.allows number then (true, limit) else (false, limit.close)

end FileLimit

/-! ### Runs -/

/-- What a run knows after some of its files. -/
structure Run where
  cache : Cache := {}
  limit : FileLimit
  files : List FileReport := []
  failures : List FileFailure := []
  /-- What ended the run before it was through. -/
  ended? : Option Text.Misplaced := none

namespace Run

/-- A run that may take some number of files. -/
def ofMax (max? : Option Nat) : Run where
  limit := { max? }

/-- Adds what came out for a file. -/
def record (run : Run) (path : String) : Except Fault (List RuleReport) → Run
  | .ok rules => { run with files := run.files ++ [⟨path, rules⟩] }
  | .error (.misplaced place) => { run with ended? := some place }
  | .error fault => { run with failures := run.failures ++ [⟨path, fault.message⟩] }

/-- Checks a file and forgets its text. -/
def checkFile (source : FileSource Id) (settings : Settings) (run : Run) (path : String) : Run :=
  let (outcome, cache) := RuleFile.check source settings Code.reader run.cache path
  { run with cache := cache.forget path }.record path outcome

/-- Takes a file if the limit admits it. -/
def visit (source : FileSource Id) (settings : Settings) (run : Run) (path : String) : Run :=
  if run.ended?.isSome then run
  else
    let (admitted, limit) := run.limit.ask
    if admitted then checkFile source settings { run with limit } path else { run with limit }

/-- The report of a run, unless it was ended or there were too many files. -/
def report (run : Run) : Except Fault ProjectReport :=
  match run.ended?, run.limit.exceeded, run.limit.max? with
  | some place, _, _ => throw (.misplaced place)
  | none, true, some max => throw (.tooManyFiles run.limit.taken max)
  | none, _, _ => return {
      files := run.files.mergeSort fun file other => Path.precedes file.path other.path
      failures := run.failures.mergeSort fun file other => Path.precedes file.path other.path
      filesChecked := run.files.length + run.failures.length }

end Run

/-- Checks all files that some paths stand for. -/
def FileTree.check (tree : FileTree) (settings : Settings) (paths : List String) :
    Except Fault ProjectReport := do
  settings.validate
  let exclusions ← settings.exclusions
  let files := paths.flatMap (tree.filesFor exclusions)
  (files.foldl (Run.visit tree.read settings) (.ofMax settings.maxFiles?)).report

end Exemplar
