import Exemplar.Code.Grammar.Statement

/-!
# Declarations

Types with their members, and triggers. Every class, interface, enum, method, property and field
declaration starts with the node of its modifiers.
-/

namespace Exemplar.Code.Grammar

open Parse

/-! ### Members -/

/-- A parameter of a method; a comma is only passed over. -/
def parameter? (sub : Nested) : Parse (Option Node) := do
  if ← eat .comma then return none
  let line ← line
  let mods ← modifiers
  sub.typeRef
  let _ ← expectIdent
  return some ⟨.parameter, line, [mods]⟩

/-- The body of a method or an accessor, unless a semicolon stands for it. -/
def body (sub : Nested) : Parse (List Node) := do
  if ← eat .semicolon then return []
  return [← block sub]

/-- A method from its parameters on. -/
def methodRest (sub : Nested) (line : Nat) (mods : Node) : Parse Node := do
  expect .openParen
  let parameters ← collectUntil .closeParen "parameter list" (parameter? sub)
  return ⟨.method, line, mods :: parameters.filterMap id ++ (← body sub)⟩

/-- An accessor of a property, which leaves its body. -/
def accessor (sub : Nested) : Parse (List Node) := do
  let _ ← modifiers
  let _ ← expectIf (fun token => token.isWord "get" || token.isWord "set") .expectedAccessor
  body sub

/-- A property from its accessors on. -/
def propertyRest (sub : Nested) (line : Nat) (mods : Node) : Parse Node := do
  expect .openBrace
  let bodies ← collectUntil .closeBrace "property" (accessor sub)
  return ⟨.property, line, mods :: bodies.flatten⟩

/-- A field from behind its name on. -/
def fieldValue (sub : Nested) (name : Token) : Parse Node := do
  return ⟨.fieldDeclaration, name.line, ← initialValue sub⟩

/-- The fields after the first one. -/
def furtherFields (sub : Nested) : Parse (List Node) :=
  many do
    if ← eat .comma then
      return some (← fieldValue sub (← expectIdent))
    return none

/-- Fields from behind the first name on: one `field` node each, then the declaration of all. -/
def fieldRest (sub : Nested) (line : Nat) (mods : Node) (name : Token) : Parse (List Node) := do
  let first ← fieldValue sub name
  let declarations := first :: (← furtherFields sub)
  expect .semicolon
  return declarations.map (fun declaration => .leaf .field declaration.line) ++
    [⟨.fieldDeclarationStatements, line, mods :: declarations⟩]

/-! ### Types -/

/-- A value of an enum, a comma or a semicolon. -/
def enumItem : Parse Unit := do
  if ← eatIf fun token => token.isSymbol .comma || token.isSymbol .semicolon then return
  let _ ← expectIdent

/-- The kind of type that the next word declares; the word is read. -/
def typeWord : Parse Kind := do
  if ← eatWord "class" then return .userClass
  if ← eatWord "interface" then return .userInterface
  if ← eatWord "enum" then return .userEnum
  complain .expectedTypeDeclaration

/-- The types that are listed behind a word, if it is next. -/
def typesAfter (sub : Nested) (word : String) : Parse Unit := do
  if ← eatWord word then typeList sub

/-- An enum from its values on. -/
def enumRest (line : Nat) (mods : Node) : Parse Node := do
  expect .openBrace
  let _ ← collectUntil .closeBrace "enum" enumItem
  return ⟨.userEnum, line, [mods]⟩

/-- A class or an interface from behind its name on. -/
def classRest (sub : Nested) (kind : Kind) (line : Nat) (mods : Node) : Parse Node := do
  typesAfter sub "extends"
  typesAfter sub "implements"
  expect .openBrace
  let members ← collectUntil .closeBrace "type body" sub.member
  return ⟨kind, line, mods :: members.flatten⟩

/-- A class, interface or enum after its modifiers. -/
def typeBody (sub : Nested) (mods : Node) : Parse Node := do
  let line ← line
  let kind ← typeWord
  let _ ← expectIdent
  if kind == .userEnum then enumRest line mods
  else classRest sub kind line mods

/-- A method, a property or fields, from the type on. -/
def typedMember (sub : Nested) (line : Nat) (mods : Node) : Parse (List Node) := do
  sub.typeRef
  let name ← expectIdent
  if ← atSymbol .openParen then
    return [← methodRest sub line mods]
  else if ← atSymbol .openBrace then
    return [← propertyRest sub line mods]
  else fieldRest sub line mods name

/-- A member of a type. Fields leave several nodes, a lone semicolon none. -/
def member (sub : Nested) : Parse (List Node) := do
  if ← eat .semicolon then return []
  let mods ← modifiers
  let line ← line
  if ← ahead 0 fun token => ["class", "interface", "enum"].any token.isWord then
    return [← typeBody sub mods]
  else if ← atSymbol .openBrace then
    return [← block sub]
  else if ← aheadPair Token.isIdent (·.isSymbol .openParen) then
    advance
    return [← methodRest sub line mods]
  else typedMember sub line mods

/-! ### Triggers and top-level types -/

/-- An event of a trigger or a comma. -/
def triggerEvent : Parse Unit := do
  match ← next? with
  | some token =>
    if token.isIdent || token.isSymbol .comma then return
    else complain .expectedTriggerEvent
  | none => complain .expectedTriggerEvent

/-- A trigger, from the word `trigger` on. -/
def trigger (sub : Nested) : Parse Node := do
  let line ← line
  advance
  let _ ← expectIdent
  expectWord "on"
  let _ ← expectIdent
  expect .openParen
  let _ ← collectTo .closeParen triggerEvent
  return ⟨.userTrigger, line, [← block sub]⟩

/-- A declaration at the top of a file. -/
def typeDeclaration (sub : Nested) : Parse Node := do
  if ← aheadPair (·.isWord "trigger") Token.isIdent then
    trigger sub
  else
    typeBody sub (← modifiers)

end Exemplar.Code.Grammar
