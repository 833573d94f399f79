import Exemplar.Text.Search

/-!
# TOML strings

Strings in double quotes know escapes, strings in single quotes do not. Three quotes open a string that
may go over several lines: its line endings count as newlines, one directly after the opening is dropped,
and it may hold one or two quotes in a row, also directly before its end. In double quotes a backslash at
the end of a line joins it with the next text.
-/

namespace Exemplar.Toml

/-- Space or tab. -/
def isSpace (c : Char) : Bool :=
  c == ' ' || c == '\t'

/-- A character that may stand in strings and comments: no control character other than a tab. -/
def isPlain (c : Char) : Bool :=
  c == '\t' || (' ' ≤ c && c ≤ '~') || '\x80' ≤ c

/-- What follows a line ending at the head. -/
def afterNewline? : List Char → Option (List Char)
  | '\n' :: cs => some cs
  | '\r' :: '\n' :: cs => some cs
  | _ => none

/-! ### Escapes -/

/-- The character with a code in hexadecimal digits, if there is one. -/
def charOfCode? (ds : List Char) : Option Char :=
  let value? := ds.foldlM (fun n d =>
    if d.isDigit then some (n * 16 + (d.toNat - '0'.toNat))
    else if 'a' ≤ d.toLower && d.toLower ≤ 'f' then some (n * 16 + (d.toLower.toNat - 'a'.toNat + 10))
    else none) 0
  value?.bind fun (n : Nat) => if n.isValidChar then some (Char.ofNat n) else none

/-- The character that is written with a backslash, and how many characters follow the backslash. -/
def escape? : List Char → Option (Char × Nat)
  | 'b' :: _ => some ('\x08', 1)
  | 't' :: _ => some ('\t', 1)
  | 'n' :: _ => some ('\n', 1)
  | 'f' :: _ => some ('\x0c', 1)
  | 'r' :: _ => some ('\r', 1)
  | '"' :: _ => some ('"', 1)
  | '\\' :: _ => some ('\\', 1)
  | 'u' :: cs => if 4 ≤ cs.length then (charOfCode? (cs.take 4)).map (·, 5) else none
  | 'U' :: cs => if 8 ≤ cs.length then (charOfCode? (cs.take 8)).map (·, 9) else none
  | _ => none

/-- What follows the white space and line endings at the head. -/
def afterBlankLines (cs : List Char) : List Char :=
  match cs with
  | [] => []
  | '\r' :: '\n' :: cs => afterBlankLines cs
  | c :: cs => if isSpace c || c == '\n' then afterBlankLines cs else c :: cs

theorem length_afterBlankLines (cs : List Char) : (afterBlankLines cs).length ≤ cs.length := by
  fun_induction afterBlankLines cs <;> simp_all <;> omega

/-- What follows the end of a line and the blank lines after it, if nothing but white space is left in
the line. -/
def afterJoint? (cs : List Char) : Option (List Char) :=
  (afterNewline? (cs.dropWhile isSpace)).map afterBlankLines

theorem length_afterJoint? {cs rest : List Char} (h : afterJoint? cs = some rest) :
    rest.length ≤ cs.length := by
  obtain ⟨tail, htail, rfl⟩ := Option.map_eq_some_iff.1 h
  have hdrop : (cs.dropWhile isSpace).length ≤ cs.length := (List.dropWhile_suffix _).length_le
  have hnew : tail.length ≤ (cs.dropWhile isSpace).length := by
    generalize cs.dropWhile isSpace = ds at htail
    unfold afterNewline? at htail
    split at htail <;> simp_all
    omega
  have := length_afterBlankLines tail
  omega

/-! ### One line -/

/-- The text of a string in double quotes after its opening, and what follows its end. -/
def basic? (cs : List Char) : Option (List Char × List Char) :=
  match cs with
  | [] => none
  | '"' :: cs => some ([], cs)
  | '\\' :: cs => do
    let (c, taken) ← escape? cs
    let (text, rest) ← basic? (cs.drop taken)
    return (c :: text, rest)
  | c :: cs => do
    if isPlain c then
      let (text, rest) ← basic? cs
      return (c :: text, rest)
    else none
termination_by cs.length

/-- The text of a string in single quotes after its opening, and what follows its end. -/
def literal? (cs : List Char) : Option (List Char × List Char) := do
  let (text, rest) ← Text.splitOnce? '\'' cs
  if text.all isPlain then return (text, rest) else none

/-! ### Several lines -/

/-- The quotes that belong to a string whose end starts here, and what follows the end. -/
def closing? (quote : Char) (cs : List Char) : Option (List Char × List Char) :=
  let run := cs.takeWhile (· == quote)
  if 3 ≤ run.length then
    let kept := min 2 (run.length - 3)
    some (List.replicate kept quote, cs.drop (kept + 3))
  else none

/-- The text of a string in three double quotes after its opening, and what follows its end. -/
def longBasic? (cs : List Char) : Option (List Char × List Char) :=
  match closing? '"' cs with
  | some closed => some closed
  | none =>
    match cs with
    | [] => none
    | '\\' :: cs =>
      match _h : afterJoint? cs with
      | some rest => longBasic? rest
      | none => do
        let (c, taken) ← escape? cs
        let (text, rest) ← longBasic? (cs.drop taken)
        return (c :: text, rest)
    | '\r' :: '\n' :: cs => do
      let (text, rest) ← longBasic? cs
      return ('\n' :: text, rest)
    | c :: cs => do
      if isPlain c || c == '\n' then
        let (text, rest) ← longBasic? cs
        return (c :: text, rest)
      else none
termination_by cs.length
decreasing_by
  · have := length_afterJoint? _h
    simp only [List.length_cons]
    omega
  all_goals
    simp only [List.length_cons, List.length_drop]
    omega

/-- The text of a string in three single quotes after its opening, and what follows its end. -/
def longLiteral? (cs : List Char) : Option (List Char × List Char) :=
  match closing? '\'' cs with
  | some closed => some closed
  | none =>
    match cs with
    | [] => none
    | '\r' :: '\n' :: cs => do
      let (text, rest) ← longLiteral? cs
      return ('\n' :: text, rest)
    | c :: cs => do
      if isPlain c || c == '\n' then
        let (text, rest) ← longLiteral? cs
        return (c :: text, rest)
      else none
termination_by cs.length

/-! ### Any string -/

/-- The text of a string at the head, and what follows it. Only values may go over several lines. -/
def quoted? (long : Bool) : List Char → Option (List Char × List Char)
  | '"' :: '"' :: '"' :: cs =>
    if long then longBasic? ((afterNewline? cs).getD cs) else basic? ('"' :: '"' :: cs)
  | '\'' :: '\'' :: '\'' :: cs =>
    if long then longLiteral? ((afterNewline? cs).getD cs) else literal? ('\'' :: '\'' :: cs)
  | '"' :: cs => basic? cs
  | '\'' :: cs => literal? cs
  | _ => none

end Exemplar.Toml
