import Exemplar.Markup.Event

/-!
# Documents

A document is its outermost element. Elements have their local name, their attributes, what is in them,
and the bytes from the first character of their start tag to the end of their end tag. Namespaces only
decide whether a document is well-formed, which attributes are the same, and that an attribute in a
namespace has no plain name.
-/

namespace Exemplar.Markup

/-- A stretch of bytes, from `start` up to `stop`. -/
structure Span where
  start : Nat
  stop : Nat
deriving DecidableEq, Repr

/-- An attribute with the namespace it is in, if it is in one. -/
structure Attribute where
  space? : Option (List Char)
  name : String
  value : String
deriving DecidableEq, Repr

/-- A piece of a document. -/
inductive Node where
  | text (content : String)
  | element (name : String) (attributes : List Attribute) (children : List Node) (span : Span)
deriving Repr

/-! ### Namespaces -/

/-- The namespace of the reserved part `xml`. -/
def xmlSpace : List Char :=
  "http://www.w3.org/XML/1998/namespace".toList

/-- The namespace of the reserved part `xmlns`. -/
def xmlnsSpace : List Char :=
  "http://www.w3.org/2000/xmlns/".toList

/-- Declared parts of names, each with its namespace; the first one of a name counts. The empty part is
the default. -/
abbrev Spaces := List (List Char × List Char)

/-- Reads one attribute as the declaration of a namespace if it is one, on top of those its element has
declared already. -/
def declareSpace? (declared : Spaces) (raw : RawAttribute) : Option Spaces :=
  if raw.name.space == "xmlns".toList then
    let isXml := raw.value == xmlSpace
    if raw.value == xmlnsSpace || isXml != (raw.name.localName == "xml".toList) ||
        declared.any (·.1 == raw.name.localName) then none
    else some (if isXml then declared else declared ++ [(raw.name.localName, raw.value)])
  else if raw.name.localName == "xmlns".toList then
    if raw.value == xmlnsSpace || raw.value == xmlSpace then none
    else some (declared ++ [([], raw.value)])
  else some declared

/-- Whether an attribute declares a namespace. -/
def RawAttribute.isDeclaration (raw : RawAttribute) : Bool :=
  raw.name.space == "xmlns".toList || raw.name.localName == "xmlns".toList

/-- The namespace of an attribute; one without a colon is in none. -/
def attributeSpace? (spaces : Spaces) (name : QName) : Option (Option (List Char)) :=
  if name.space == "xml".toList then some (some xmlSpace)
  else if name.space.isEmpty then some none
  else (spaces.lookup name.space).map some

/-- Whether the element name's part before the colon is known. -/
def knowsSpace (spaces : Spaces) (name : QName) : Bool :=
  name.space != "xmlns".toList && (name.space.isEmpty || (spaces.lookup name.space).isSome)

/-- Reads the attributes of an element; none may occur twice. -/
def resolveAttributes? (spaces : Spaces) (read : List Attribute) :
    List RawAttribute → Option (List Attribute)
  | [] => some read
  | raw :: rest => do
    let space? ← attributeSpace? spaces raw.name
    let name := String.ofList raw.name.localName
    if read.any fun other => other.space? == space? && other.name == name then none
    else resolveAttributes? spaces (read ++ [⟨space?, name, String.ofList raw.value⟩]) rest

/-! ### From events to trees -/

/-- An element that is open: its name and attributes, where it starts, the namespaces known in it, and
what is read of its children, the last one first. -/
structure Frame where
  name : QName
  attributes : List Attribute
  start : Nat
  spaces : Spaces
  children : List Node

/-- The open elements, innermost first, and the outermost one once it is closed. -/
structure Assembly where
  frames : List Frame := []
  root? : Option Node := none

namespace Assembly

/-- Adds a finished piece to the innermost open element. -/
def addNode (assembly : Assembly) (node : Node) : Assembly :=
  match assembly.frames with
  | [] => { assembly with root? := some node }
  | frame :: outer =>
    { assembly with frames := { frame with children := node :: frame.children } :: outer }

/-- Takes in one event. -/
def step (assembly : Assembly) : Event → Option Assembly
  | .text content => some (assembly.addNode (.text (String.ofList content)))
  | .opening name raw start => do
    let outer := (assembly.frames.head?.map Frame.spaces).getD []
    let declared ← raw.foldlM declareSpace? []
    let spaces := declared ++ outer
    let attributes ← resolveAttributes? spaces [] (raw.filter (!·.isDeclaration))
    if knowsSpace spaces name then
      some { assembly with frames := ⟨name, attributes, start, spaces, []⟩ :: assembly.frames }
    else none
  | .closing name? stop =>
    match assembly.frames with
    | [] => none
    | frame :: outer =>
      if name?.all (· == frame.name) then
        let node := Node.element (String.ofList frame.name.localName) frame.attributes
          frame.children.reverse ⟨frame.start, stop⟩
        some (addNode { assembly with frames := outer } node)
      else none

end Assembly

namespace Node

/-- The tree of some events. -/
def ofEvents? (events : List Event) : Option Node := do
  let assembly ← events.foldlM Assembly.step {}
  assembly.root?

/-- The outermost element of a document, if the document is well-formed. -/
def ofText? (text : String) : Option Node := do
  ofEvents? (← Event.ofText? text.toList)

/-! ### Looking around -/

mutual

/-- The piece itself, then everything in it, in document order. -/
def descendants : Node → List Node
  | .text content => [.text content]
  | .element name attributes children span =>
    .element name attributes children span :: descendantsOfAll children

/-- Everything in several pieces, in document order. -/
def descendantsOfAll : List Node → List Node
  | [] => []
  | node :: nodes => node.descendants ++ descendantsOfAll nodes

end

/-- Whether the piece is an element of that name. -/
def isElement (node : Node) (name : String) : Bool :=
  match node with
  | .element own _ _ _ => own == name
  | .text _ => false

def children : Node → List Node
  | .element _ _ children _ => children
  | .text _ => []

/-- Where an element stands. -/
def span : Node → Span
  | .element _ _ _ span => span
  | .text _ => ⟨0, 0⟩

/-- The value of an attribute that is in no namespace. -/
def attribute? (node : Node) (name : String) : Option String :=
  match node with
  | .element _ attributes _ _ =>
    (attributes.find? fun a => a.space?.isNone && a.name == name).map Attribute.value
  | .text _ => none

/-- All text inside, put together. -/
def textContent (node : Node) : String :=
  String.join (node.descendants.filterMap fun
    | .text content => some content
    | .element _ _ _ _ => none)

end Node

end Exemplar.Markup
