import Exemplar.Files.Glob

/-!
# Patterns of ignore files

These patterns are for the bytes of a path. `?` stands for a byte and `*` for any bytes, other than slashes;
`[…]` stands for one of some bytes and `[!…]` or `[^…]` for any other one; two stars between slashes stand
for any number of components, at the start and at the end of a pattern too; `{…,…}` stands for either of
its branches. Everything else stands for itself, and so does what follows a backslash.

Brackets that are not closed stand for themselves, and braces that are not closed make no pattern.
-/

namespace Exemplar

namespace IgnorePattern

open Glob (CharRange)

/-- A part of a pattern. -/
inductive Part where
  | char (c : Char)
  | anyByte
  | anyBytes
  | oneOf (ranges : List CharRange)
  | noneOf (ranges : List CharRange)
  /-- Any number of components in front, each with the slash after it. -/
  | leading
  /-- A slash, any number of components with a slash after each one. -/
  | between
  /-- A slash and whatever follows it. -/
  | trailing
  /-- One of some branches, or nothing if there is none. -/
  | either (branches : List (List Part))

end IgnorePattern

/-- A pattern of an ignore file that has been read. -/
structure IgnorePattern where
  parts : List IgnorePattern.Part

namespace IgnorePattern

open Glob (CharRange)

/-! ### Reading -/

/-- How the reading of a pair of brackets ends. -/
inductive Brackets where
  | unclosed
  /-- A range ends before it starts. -/
  | reversed
  | closed (ranges : List CharRange) (rest : List Char)

namespace Brackets

/-- Adds a character to ranges, the last one first. After a dash it ends the last range, which it must not
come before. -/
def add? (dashed : Bool) (c : Char) : List CharRange → Option (List CharRange)
  | [] => some [⟨c, c⟩]
  | range :: ranges =>
    if !dashed then some (⟨c, c⟩ :: range :: ranges)
    else if c < range.first then none
    else some (⟨range.first, c⟩ :: ranges)

/-- Reads on between brackets, after some ranges and maybe a dash. The first character is neither such a
dash nor the closing bracket. -/
def ofChars (ranges : List CharRange) (dashed : Bool) : List Char → Brackets
  | [] => unclosed
  | c :: cs =>
    if c = ']' && !ranges.isEmpty then closed (if dashed then ⟨'-', '-'⟩ :: ranges else ranges) cs
    else if c = '-' && !ranges.isEmpty && !dashed then ofChars ranges true cs
    else match add? dashed c ranges with
      | some ranges => ofChars ranges false cs
      | none => reversed

/-- What is left after brackets is shorter than the text they stand in. -/
theorem length_of_ofChars {ranges read : List CharRange} {dashed : Bool} {cs rest : List Char}
    (h : ofChars ranges dashed cs = closed read rest) : rest.length < cs.length := by
  induction cs generalizing ranges dashed with
  | nil => simp [ofChars] at h
  | cons c cs ih =>
    rw [ofChars] at h
    split at h
    · cases h; simp
    · split at h
      · exact Nat.lt_succ_of_lt (ih h)
      · split at h
        · exact Nat.lt_succ_of_lt (ih h)
        · cases h

end Brackets

/-- Braces that are not closed yet. -/
structure Group where
  /-- What stands before them, the last part first. -/
  outside : List Part
  /-- Their branches but the last one. -/
  branches : List (List Part)

/-- How far a pattern has been read. -/
structure Reading where
  /-- The parts of the pattern, or of the last branch in the innermost braces, the last one first. -/
  parts : List Part
  /-- The braces around, the innermost ones first. -/
  groups : List Group
  previous : Option Char
  /-- Whether brackets have turned out to be unclosed, so that no later ones are closed either. -/
  unclosed : Bool

namespace Reading

def start : Reading := ⟨[], [], none, false⟩

/-- Adds a part that ends with a character. -/
def push (reading : Reading) (part : Part) (last : Char) : Reading :=
  { reading with parts := part :: reading.parts, previous := some last }

/-- Whether two stars before a character, or before the end, are the last thing in their branch. -/
def endsBranch (reading : Reading) (next : Option Char) : Bool :=
  next.all fun c => !reading.groups.isEmpty && (c == ',' || c == '}')

/-- Whether a component can start after what has been read. -/
def startsComponent (reading : Reading) : Bool :=
  reading.previous.any fun c => c == '/' || !reading.groups.isEmpty && (c == ',' || c == '{')

/-- The parts once two stars have been read that stand for components, which they do where they make a
component of their own. They take the place of the slash before them, and more stars after such ones add
nothing. -/
def componentStars? (reading : Reading) (next : Option Char) : Option (List Part) :=
  match reading.parts with
  | [] => if next.all (· == '/') then some [.leading] else none
  | last :: parts =>
    if !reading.startsComponent then none
    else if reading.endsBranch next || next == some '/' then
      some <| match last with
        | .leading | .trailing => last :: parts
        | _ => (if next == some '/' then .between else .trailing) :: parts
    else none

def pushStars (reading : Reading) (next : Option Char) : Reading :=
  match reading.componentStars? next with
  | some parts => { reading with parts, previous := if next == some '/' then next else some '*' }
  | none => { reading with parts := .anyBytes :: .anyBytes :: reading.parts, previous := some '*' }

/-- Whether two stars take the slash after them. -/
def takesSlash (reading : Reading) (next : Option Char) : Bool :=
  next == some '/' && (reading.componentStars? next).isSome

/-- Whether a branch stands for nothing. -/
def isBlank (parts : List Part) : Bool :=
  parts.all fun | .either [] => true | _ => false

def openBraces (reading : Reading) : Reading :=
  { reading with parts := [], groups := ⟨reading.parts, []⟩ :: reading.groups, previous := some '{' }

/-- Reads a comma, which ends a branch inside of braces. -/
def pushComma (reading : Reading) : Reading :=
  match reading.groups with
  | [] => reading.push (.char ',') ','
  | ⟨outside, branches⟩ :: groups =>
    let groups := ⟨outside, branches ++ [reading.parts.reverse]⟩ :: groups
    { reading with parts := [], groups, previous := some ',' }

/-- Closes braces, if there are any to close. Branches that stand for nothing do not count. -/
def closeBraces? (reading : Reading) : Option Reading :=
  match reading.groups with
  | [] => none
  | ⟨outside, branches⟩ :: groups =>
    let branches := (branches ++ [reading.parts.reverse]).filter (!isBlank ·)
    some { reading with parts := .either branches :: outside, groups, previous := some '}' }

end Reading

/-- Whether brackets stand for all but what is between them. -/
def isNegation (c : Char) : Bool :=
  c == '!' || c == '^'

/-- Reads a pattern to its end. -/
def partsFrom? (reading : Reading) : List Char → Option (List Part)
  | [] => if reading.groups.isEmpty then some reading.parts.reverse else none
  | '?' :: cs => partsFrom? (reading.push .anyByte '?') cs
  | '*' :: '*' :: cs =>
    partsFrom? (reading.pushStars cs.head?) (if reading.takesSlash cs.head? then cs.drop 1 else cs)
  | '*' :: cs => partsFrom? (reading.push .anyBytes '*') cs
  | '{' :: cs => partsFrom? reading.openBraces cs
  | '}' :: cs =>
    match reading.closeBraces? with
    | none => none
    | some reading => partsFrom? reading cs
  | ',' :: cs => partsFrom? reading.pushComma cs
  | '\\' :: c :: cs => partsFrom? (reading.push (.char c) c) cs
  | ['\\'] => none
  | '[' :: cs =>
    let negated := cs.head?.any isNegation
    if reading.unclosed then partsFrom? (reading.push (.char '[') '[') cs
    else
      match _closed : Brackets.ofChars [] false (if negated then cs.drop 1 else cs) with
      | .unclosed => partsFrom? { reading.push (.char '[') '[' with unclosed := true } cs
      | .reversed => none
      | .closed ranges rest =>
        partsFrom? (reading.push (if negated then .noneOf ranges else .oneOf ranges) ']') rest
  | c :: cs => partsFrom? (reading.push (.char c) c) cs
termination_by cs => cs.length
decreasing_by
  all_goals try (simp only [List.length_cons]; omega)
  · split <;> simp only [List.length_cons, List.length_drop] <;> omega
  · have := Brackets.length_of_ofChars _closed
    split at this <;> simp only [List.length_cons, List.length_drop] at this ⊢ <;> omega

def ofText? (text : List Char) : Option IgnorePattern :=
  (partsFrom? .start text).map IgnorePattern.mk

/-! ### Matching -/

def bytesOf (c : Char) : List UInt8 :=
  String.utf8EncodeChar c

/-- Bytes in a row, from the first through the last. -/
structure ByteRange where
  first : UInt8
  last : UInt8
deriving DecidableEq, Repr

/-- The bytes between brackets. A range goes from the last byte of its first character through the first
byte of its last one, and the other bytes of both stand by themselves. -/
def byteRanges (range : CharRange) : List ByteRange :=
  let single (byte : UInt8) : ByteRange := ⟨byte, byte⟩
  if range.first = range.last then (bytesOf range.first).map single
  else
    match (bytesOf range.first).reverse, bytesOf range.last with
    | first :: before, last :: after => before.map single ++ ⟨first, last⟩ :: after.map single
    | _, _ => []

/-- Whether one of some ranges holds a byte. -/
def within (ranges : List ByteRange) (byte : UInt8) : Bool :=
  ranges.any fun range => range.first ≤ byte && byte ≤ range.last

def slash : UInt8 := '/'.toUInt8

/-- Whether a later table says so after some bytes. -/
def afterBytes (bytes path : List UInt8) (later : Answers) : Answers :=
  bytes.foldr (fun byte later => .afterOne (· == byte) path later) later

/-- Whether a later table says so here, or after any later slash. -/
def afterComponents (path : List UInt8) (later : Answers) : Answers :=
  later.either (.afterMany (fun _ => true) path (.afterOne (· == slash) path later))

mutual

/-- Whether a part and a later table match the ends of a path. -/
def partAnswers (path : List UInt8) (later : Answers) : Part → Answers
  | .char c => afterBytes (bytesOf c) path later
  | .anyByte => .afterOne (· != slash) path later
  | .anyBytes => .afterMany (· != slash) path later
  | .oneOf ranges => .afterOne (within (ranges.flatMap byteRanges)) path later
  | .noneOf ranges => .afterOne (!within (ranges.flatMap byteRanges) ·) path later
  | .leading => afterComponents path later
  | .between => .afterOne (· == slash) path (afterComponents path later)
  | .trailing => .afterOne (· == slash) path (.afterMany (fun _ => true) path later)
  | .either [] => later
  | .either (parts :: branches) =>
    (partsAnswers path later parts).either (branchesAnswers path later branches)

/-- Whether parts and a later table match the ends of a path. -/
def partsAnswers (path : List UInt8) (later : Answers) : List Part → Answers
  | [] => later
  | part :: parts => partAnswers path (partsAnswers path later parts) part

/-- Whether some branch and a later table match the ends of a path. -/
def branchesAnswers (path : List UInt8) (later : Answers) : List (List Part) → Answers
  | [] => .of (fun _ => false) path
  | parts :: branches =>
    (partsAnswers path later parts).either (branchesAnswers path later branches)

end

/-- Whether a pattern matches a whole path. One of nothing but two stars matches any path. -/
def accepts (pattern : IgnorePattern) (path : List UInt8) : Bool :=
  match pattern.parts with
  | [.leading] => true
  | parts => (partsAnswers path (.nothing path) parts).whole

end IgnorePattern

end Exemplar
