import Exemplar.Fault
import Exemplar.Files.Path

/-!
# Remembered files

A cache asks for each file once and keeps the answer, be it a text or a fault, until it is told to forget
it. Paths with the same steps are the same file; a fault that was kept names the path that was asked for
first.
-/

namespace Exemplar

/-- Where texts of files come from. The answer for a path may change from one request to the next. -/
abbrev FileSource (m : Type → Type) := String → m (Except ReadFailure String)

/-- The answer for a path. -/
abbrev FileAnswer := Except Fault String

/-- Answers that were given before, each under the steps of its path. -/
structure Cache where
  entries : List (List Step × FileAnswer) := []

namespace Cache

def find? (cache : Cache) (path : String) : Option FileAnswer :=
  cache.entries.lookup (Path.steps path)

def forget (cache : Cache) (path : String) : Cache :=
  let steps := Path.steps path
  ⟨cache.entries.filter fun entry => entry.1 != steps⟩

def keep (cache : Cache) (path : String) (answer : FileAnswer) : Cache :=
  ⟨(Path.steps path, answer) :: (cache.forget path).entries⟩

def size (cache : Cache) : Nat :=
  cache.entries.length

def isEmpty (cache : Cache) : Bool :=
  cache.entries.isEmpty

variable {m : Type → Type} [Monad m]

/-- The answer for a path, which the source is asked for if none was kept. -/
def read (source : FileSource m) (cache : Cache) (path : String) : m (FileAnswer × Cache) :=
  match cache.find? path with
  | some answer => return (answer.mapError .remembered, cache)
  | none => do
    let answer := (← source path).mapError (Fault.read path)
    return (answer.mapError .remembered, cache.keep path answer)

/-- The text of the file at a path, if it can be read. -/
def get (source : FileSource m) (cache : Cache) (path : String) : m (Option String × Cache) := do
  let (answer, cache) ← cache.read source path
  return (answer.toOption, cache)

end Cache

end Exemplar
