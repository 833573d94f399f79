import Exemplar.Code.Grammar.Basic

/-!
# Modifiers

Annotations, modifier keywords and sharing declarations, in any order. However many there are, also
none, they make one node whose children are the annotations.
-/

namespace Exemplar.Code.Grammar

open Parse

def modifierWords : List String :=
  ["public", "private", "protected", "global", "static", "final", "abstract", "virtual", "override",
   "transient", "webservice", "testmethod"]

/-- The words that make a sharing declaration together with `sharing`. -/
def sharingWords : List String :=
  ["with", "without", "inherited"]

/-- The name that may stand in front of the value of an annotation's parameter. -/
def parameterName : Parse Unit := do
  if ← aheadPair Token.isIdent (·.isSymbol .assign) then skip 2

/-- A parameter of an annotation; a comma is only passed over. -/
def annotationParameter : Parse (Option Node) := do
  if ← eat .comma then return none
  let line ← line
  parameterName
  let _ ← expectIf (fun token => token.symbol?.isNone) .expectedAnnotationValue
  return some (.leaf .annotationParameter line)

def annotationUse : Parse Node := do
  let line ← line
  expect .atSign
  let _ ← expectIdent
  if ← eat .openParen then
    let parameters ← collectTo .closeParen annotationParameter
    return ⟨.annotationUse, line, parameters.filterMap id⟩
  return .leaf .annotationUse line

/-- The next modifier, if there is one, with its node if it is an annotation. -/
def modifier? : Parse (Option (Option Node)) := do
  if ← atSymbol .atSign then
    return some (some (← annotationUse))
  if ← eatIf fun token => modifierWords.any token.isWord then
    return some none
  if ← aheadPair (fun token => sharingWords.any token.isWord) (·.isWord "sharing") then
    skip 2
    return some none
  return none

def modifiers : Parse Node := do
  let line ← line
  let annotations ← many modifier?
  return ⟨.modifierNode, line, annotations.filterMap id⟩

end Exemplar.Code.Grammar
