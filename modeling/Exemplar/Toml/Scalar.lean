import Exemplar.Files.Path
import Exemplar.Toml.Value

/-!
# TOML scalars

Values that are written as one word: booleans, numbers, dates and times. Digits can be grouped by single
underscores, and integers fit into 64 bits. A float is not larger than the largest double, and a date is
one of the calendar.
-/

namespace Exemplar.Toml

/-! ### Numbers -/

/-- The sign of a number and what follows it. -/
def splitSign : List Char → Bool × List Char
  | '-' :: cs => (true, cs)
  | '+' :: cs => (false, cs)
  | cs => (false, cs)

/-- The digits of a number without the underscores between them. -/
def digits? (isDigit : Char → Bool) (cs : List Char) : Option (List Char) :=
  let groups := Text.pieces '_' cs
  if groups.all fun group => !group.isEmpty && group.all isDigit then some groups.flatten else none

/-- Digits that do not start with a zero, other than zero itself. -/
def wholeDigits? (cs : List Char) : Option (List Char) :=
  (digits? Char.isDigit cs).filter fun ds => ds = ['0'] || ds.head? != some '0'

/-- The value of a digit up to `f`. -/
def digitValue (c : Char) : Nat :=
  if c.isDigit then c.toNat - '0'.toNat else c.toLower.toNat - 'a'.toNat + 10

/-- The number that digits stand for. -/
def numeral (base : Nat) (ds : List Char) : Nat :=
  ds.foldl (fun n d => n * base + digitValue d) 0

def isHexDigit (c : Char) : Bool :=
  c.isDigit || ('a' ≤ c && c ≤ 'f') || ('A' ≤ c && c ≤ 'F')

/-- The size of an integer without its sign. Only decimal ones can have a sign. -/
def magnitude? (signed : Bool) (cs : List Char) : Option Nat :=
  match cs with
  | '0' :: 'x' :: ds => if signed then none else (digits? isHexDigit ds).map (numeral 16)
  | '0' :: 'o' :: ds =>
    if signed then none else (digits? (fun d => '0' ≤ d && d ≤ '7') ds).map (numeral 8)
  | '0' :: 'b' :: ds =>
    if signed then none else (digits? (fun d => d == '0' || d == '1') ds).map (numeral 2)
  | ds => (wholeDigits? ds).map (numeral 10)

/-- An integer of 64 bits. -/
def integer? (cs : List Char) : Option Int := do
  let (negative, rest) := splitSign cs
  let size ← magnitude? (rest.length < cs.length) rest
  if negative then
    if size ≤ Nat.pow 2 63 then return -size else none
  else if size < Nat.pow 2 63 then return size else none

/-- Whether decimal digits with an exponent are nearer to the largest double than to what would come
next. More than 400 places are too many and fewer than 300 are not, whatever the digits are. -/
def fitsDouble (ds : List Char) (exponent : Int) : Bool :=
  let significant := ds.dropWhile (· == '0')
  let places := significant.length + exponent
  if significant.isEmpty || places < 300 then true
  else if 400 < places then false
  else
    let limit := Nat.pow 2 1024 - Nat.pow 2 970
    let size := numeral 10 significant
    if 0 ≤ exponent then size * Nat.pow 10 exponent.toNat < limit
    else size < limit * Nat.pow 10 exponent.natAbs

/-- What stands before and after an `e` of either case. -/
def splitExponent (cs : List Char) : List Char × Option (List Char) :=
  match cs.dropWhile fun c => c != 'e' && c != 'E' with
  | [] => (cs, none)
  | _ :: after => (cs.takeWhile fun c => c != 'e' && c != 'E', some after)

/-- The value of an exponent, which is zero if there is none. -/
def exponent? : Option (List Char) → Option Int
  | none => some 0
  | some cs => do
    let (negative, rest) := splitSign cs
    let size := numeral 10 (← digits? Char.isDigit rest)
    return if negative then -size else size

/-- The digits after the point, if there is one. -/
def fraction? : Option (List Char) → Option (List Char)
  | none => some []
  | some cs => digits? Char.isDigit cs

/-- Whether a word is a float: a number with a fraction or an exponent, or one of the special ones. -/
def isFloat (cs : List Char) : Bool :=
  let (negative, unsigned) := splitSign cs
  let (mantissa, exponent) := splitExponent unsigned
  let (whole, fraction) := match Text.splitOnce? '.' mantissa with
    | some (whole, fraction) => (whole, some fraction)
    | none => (mantissa, none)
  let number := do
    let ds ← wholeDigits? whole
    let more ← fraction? fraction
    let power ← exponent? exponent
    return negative || fitsDouble (ds ++ more) (power - more.length)
  unsigned = "inf".toList || unsigned = "nan".toList ||
    (fraction.isSome || exponent.isSome) && number.getD false

/-! ### Dates and times -/

/-- The number that two digits stand for, if it is not above a limit. -/
def twoDigits? (least most : Nat) (a b : Char) : Option Nat :=
  if a.isDigit && b.isDigit then
    let n := numeral 10 [a, b]
    if least ≤ n && n ≤ most then some n else none
  else none

def daysInMonth (year month : Nat) : Nat :=
  if month = 2 then
    if year % 4 = 0 && (year % 100 != 0 || year % 400 = 0) then 29 else 28
  else if month = 4 || month = 6 || month = 9 || month = 11 then 30
  else 31

def afterDate? : List Char → Option (List Char)
  | y₁ :: y₂ :: y₃ :: y₄ :: '-' :: m₁ :: m₂ :: '-' :: d₁ :: d₂ :: rest => do
    if [y₁, y₂, y₃, y₄].all Char.isDigit then
      let month ← twoDigits? 1 12 m₁ m₂
      let _ ← twoDigits? 1 (daysInMonth (numeral 10 [y₁, y₂, y₃, y₄]) month) d₁ d₂
      return rest
    else none
  | _ => none

/-- What follows a time of day. A minute can have a leap second. -/
def afterTime? : List Char → Option (List Char)
  | h₁ :: h₂ :: ':' :: m₁ :: m₂ :: ':' :: s₁ :: s₂ :: rest => do
    let _ ← twoDigits? 0 23 h₁ h₂
    let _ ← twoDigits? 0 59 m₁ m₂
    let _ ← twoDigits? 0 60 s₁ s₂
    match rest with
    | '.' :: d :: more => return if d.isDigit then more.dropWhile Char.isDigit else rest
    | _ => return rest
  | _ => none

/-- Whether a text says how far a time is from universal time, or nothing. -/
def isOffset : List Char → Bool
  | [] | ['Z'] | ['z'] => true
  | [sign, h₁, h₂, ':', m₁, m₂] =>
    (sign == '+' || sign == '-') && (twoDigits? 0 23 h₁ h₂).isSome && (twoDigits? 0 59 m₁ m₂).isSome
  | _ => false

/-- Whether a word is a date, a time of day, or both with an offset. -/
def isDateTime (cs : List Char) : Bool :=
  match afterDate? cs with
  | none => afterTime? cs = some []
  | some [] => true
  | some (separator :: rest) =>
    (separator == 'T' || separator == 't' || separator == ' ') && (afterTime? rest).any isOffset

/-! ### Words -/

def scalar? (word : List Char) : Option Value :=
  if word = "true".toList then some (.boolean true)
  else if word = "false".toList then some (.boolean false)
  else match integer? word with
    | some n => some (.integer n)
    | none =>
      if isFloat word then some .float
      else if isDateTime word then some .dateTime
      else none

end Exemplar.Toml
