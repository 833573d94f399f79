import Exemplar.Example.Marker

/-!
# Examples

An example of a rule: its text, the code lines that its markers classify, and the markers themselves.
-/

namespace Exemplar

/-- An example, numbered from 1 within its rule. -/
structure Example where
  index : Nat
  content : String
  violations : List String
  valids : List String
  violationMarkers : List Example.Marker
  validMarkers : List Example.Marker
deriving DecidableEq, Repr

namespace Example

/-- The markers of one sort, numbered from 0. -/
def numbered (markers : List Marker) (isViolation : Bool) : List Marker :=
  (markers.filter (·.isViolation == isViolation)).zipIdx.map fun (marker, index) =>
    { marker with index }

/-- The code that the markers of one sort classify. -/
def classified (marked : List Marked) (isViolation : Bool) : List String :=
  ((marked.filter (·.marker.isViolation == isViolation)).map Marked.code).flatten

/-- Reads an example. With a reader for its code, the markers learn which nodes they speak of. -/
def ofContent (reader? : Option Code.Reader) (index : Nat) (content : String) : Example :=
  let lines := Text.lines content.toList
  let marked := markers lines
  let root? := reader?.bind fun read => if marked.isEmpty then none else (read content).root?
  let markers := marked.map fun m =>
    match root? with
    | some root => m.marker.locate lines root
    | none => m.marker
  { index
    content
    violations := classified marked true
    valids := classified marked false
    violationMarkers := numbered markers true
    validMarkers := numbered markers false }

def hasMarkers (ex : Example) : Bool :=
  !ex.violationMarkers.isEmpty || !ex.validMarkers.isEmpty

def ofContents (reader? : Option Code.Reader) (contents : List String) : List Example :=
  contents.zipIdx.map fun (content, i) => ofContent reader? (i + 1) content

/-- The contents of several examples with newlines between them. -/
def combined (examples : List Example) : String :=
  "\n".intercalate (examples.map Example.content)

end Example

end Exemplar
