import Exemplar.Files.Cache

/-!
# Files in memory

A source of texts that is filled by hand and counts how often it is asked. Reading can be made to fail for
a path; a path that nothing is known about cannot be read.
-/

namespace Exemplar

/-- Answers under the steps of their paths, and the number of requests so far. -/
structure FileMemory where
  answers : List (List Step × Except ReadFailure String) := []
  requests : Nat := 0

namespace FileMemory

def remove (memory : FileMemory) (path : String) : FileMemory :=
  let steps := Path.steps path
  { memory with answers := memory.answers.filter fun entry => entry.1 != steps }

def put (memory : FileMemory) (path : String) (answer : Except ReadFailure String) : FileMemory :=
  { memory with answers := (Path.steps path, answer) :: (memory.remove path).answers }

def answer (memory : FileMemory) (path : String) : Except ReadFailure String :=
  (memory.answers.lookup (Path.steps path)).getD (.error .unreadable)

/-- Answers requests and counts them. -/
def source : FileSource (StateM FileMemory) := fun path => do
  let memory ← get
  set { memory with requests := memory.requests + 1 }
  return memory.answer path

end FileMemory

end Exemplar
