import Exemplar.Files.Glob
import Exemplar.Text.Place

/-!
# Faults

What keeps a run, or the check of one file, from an answer. Queries that the examples do not cover are no
faults; reports tell about them.
-/

namespace Exemplar

/-- Size in bytes of the largest file that is read. -/
def sizeLimit : Nat := 4 * 1024 * 1024

/-- Why a file is not read. -/
inductive ReadFailure where
  /-- It is not there, or its bytes are no text. -/
  | unreadable
  | symlink
  /-- It is a directory or the like. -/
  | irregular
  /-- It has more bytes than the limit allows. -/
  | tooBig (size : Nat)
deriving DecidableEq, Repr

/-- What went wrong. -/
inductive Fault where
  | read (path : String) (failure : ReadFailure)
  /-- The text of a rule file is no document. -/
  | malformedRules (path : String)
  | excludePattern (pattern : String) (fault : Glob.Fault)
  /-- The text of a settings file does not say what the settings are. -/
  | malformedSettings (path : String)
  | tooManyFiles (count limit : Nat)
  /-- A place in the text of a rule is none. Unlike all other faults, this one ends the run. -/
  | misplaced (place : Text.Misplaced)
  /-- A fault that came up before and was kept. -/
  | remembered (fault : Fault)
deriving DecidableEq, Repr

namespace Fault

def message : Fault → String
  | read path .unreadable => s!"Failed to read file: {path}"
  | read path .symlink => s!"Refusing to read symlink: {path}"
  | read path .irregular => s!"Not a regular file: {path}"
  | read path (.tooBig size) => s!"File too large: {path} ({size} bytes, limit {sizeLimit} bytes)"
  | malformedRules path => s!"Malformed rule file {path}"
  | excludePattern pattern fault => s!"Invalid exclude pattern: {pattern} ({fault.message})"
  | malformedSettings path => s!"Invalid config {path}: TOML parse error"
  | tooManyFiles count limit => s!"Too many rule files: {count} files found, limit is {limit}"
  | misplaced place => s!"No character starts at byte {place.offset}"
  | remembered fault => fault.message

def path? : Fault → Option String
  | read path _ | malformedRules path | malformedSettings path => some path
  | excludePattern _ _ | tooManyFiles _ _ | misplaced _ => none
  | remembered fault => fault.path?

end Fault

end Exemplar
