import Exemplar.Query.Quote

/-!
# Let blocks

`let $a := …, $b := … return …` binds names before the query proper. A block reaches from the first
keyword `let` with white space after it to the keyword `return` that closes it, both outside of quotes
and the latter outside of brackets too. Without that `return` there is no block.
-/

namespace Exemplar.Query

/-- The declarations of a query, with the offsets of the keywords around them. -/
structure LetBlock where
  /-- Offset of `let`. -/
  start : Nat
  /-- What stands between the white space after `let` and the closing `return`. -/
  declarations : List Char
  /-- Offset of `return`. -/
  stop : Nat

/-- A binding of a name, which includes its `$`. -/
structure LetVariable where
  name : String
  value : String
deriving DecidableEq, Repr

/-! ### Finding the block -/

/-- The effect of a character outside of quotes on the number of open brackets. The readers of a block count without
bounds: a number that does not fit into 32 bits takes more brackets than a file within `sizeLimit` has bytes. -/
def stepDepth (depth : Int) (c : Char) : Int :=
  if "([\x7b".toList.contains c then depth + 1
  else if ")]\x7d".toList.contains c then depth - 1
  else depth

/-- Offset of the first `let` followed by white space, and what follows that white space. -/
def letFrom? : (pos : Nat) → (quote before : Option Char) → List Char → Option (Nat × List Char)
  | _, _, _, [] => none
  | pos, quote, before, c :: cs =>
    let found := do
      let after ← if quote.isNone then afterKeyword? "let" before (c :: cs) else none
      if after.head?.any Text.isAsciiBlank then some after else none
    match found with
    | some after => some (pos, after.dropWhile Text.isAsciiBlank)
    | none => letFrom? (pos + c.utf8Size) (stepQuote quote c) (some c) cs

/-- What stands before the closing `return`. More closing than opening brackets also count as
outside of brackets. -/
def beforeReturn? (quote before : Option Char) (depth : Int) : List Char → Option (List Char)
  | [] => none
  | c :: cs =>
    if quote.isNone && depth ≤ 0 && (afterKeyword? "return" before (c :: cs)).isSome then some []
    else
      let depth := if quote.isNone then stepDepth depth c else depth
      (beforeReturn? (stepQuote quote c) (some c) depth cs).map (c :: ·)

/-- The let block of a query, if it has one. -/
def letBlock? (query : List Char) : Option LetBlock := do
  let (start, after) ← letFrom? 0 none none query
  let declarations ← beforeReturn? none (some ' ') 0 after
  return ⟨start, declarations, Text.byteSize query - Text.byteSize after + Text.byteSize declarations⟩

/-! ### Splitting the declarations -/

/-- The texts of the bindings. `current` holds the binding being read, last character first. A binding
starts at a `$` outside of quotes and brackets and ends before the next such comma. -/
def bindingTextsFrom (quote : Option Char) (depth : Int) (current : Option (List Char)) :
    List Char → List (List Char)
  | [] => (current.map List.reverse).toList
  | c :: cs =>
    let plain := quote.isNone && depth == 0
    if plain && c == ',' then
      (current.map List.reverse).toList ++ bindingTextsFrom quote depth none cs
    else
      let current := match current with
        | some read => some (c :: read)
        | none => if plain && c == '$' then some [c] else none
      let depth := if quote.isNone then stepDepth depth c else depth
      bindingTextsFrom (stepQuote quote c) depth current cs

def bindingTexts (declarations : List Char) : List (List Char) :=
  bindingTextsFrom none 0 none declarations

/-- A character that goes on with the name of a variable. -/
def isVariableChar (c : Char) : Bool :=
  Text.isIdentChar c || c == '.' || c == '-'

/-- The binding that a text spells: a name, `:=` or `=`, and a value that is not blank. -/
def bindingOf? (text : List Char) : Option LetVariable := do
  let named ← ['$'].isPrefixOf? (Text.trim text)
  if named.head?.any Text.isIdentStart then
    let name := named.takeWhile isVariableChar
    let rest := Text.trimStart (named.dropWhile isVariableChar)
    let value ← Text.afterAny? [[':', '='], ['=']] rest
    let value := Text.trim value
    if value.isEmpty then none else some ⟨String.ofList ('$' :: name), String.ofList value⟩
  else none

/-- The bindings of a query's let block, in order. -/
def letVariables (query : String) : List LetVariable :=
  match letBlock? query.toList with
  | none => []
  | some block => (bindingTexts block.declarations).filterMap bindingOf?

end Exemplar.Query
