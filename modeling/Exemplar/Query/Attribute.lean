import Exemplar.Query.Quote

/-!
# Attributes and operators

Attributes are written `@Name`. The attribute `Op` is special: the text it is compared with is an
operator that the query asks for.
-/

namespace Exemplar.Query

/-! ### Attributes -/

/-- The attribute whose comparisons name operators. -/
def operatorAttribute : String := "Op"

/-- The attribute name after an `@`. A name with a qualifier or a hyphen after it is part of something
longer and counts as none. -/
def attributeName? (cs : List Char) : Option (List Char) :=
  if cs.head?.any Text.isIdentStart then
    match cs.dropWhile Text.isIdentChar with
    | '-' :: _ => none
    | ':' :: '=' :: _ => some (cs.takeWhile Text.isIdentChar)
    | ':' :: _ => none
    | _ => some (cs.takeWhile Text.isIdentChar)
  else none

/-- References from `pos` on, given the open quotation mark. -/
def attributeRefsFrom : (pos : Nat) → (quote : Option Char) → List Char → List (String × Nat)
  | _, _, [] => []
  | pos, quote, c :: cs =>
    let name? := if quote.isNone && c == '@' then attributeName? cs else none
    (name?.map fun name => (String.ofList name, pos)).toList ++
      attributeRefsFrom (pos + c.utf8Size) (stepQuote quote c) cs

/-- Every reference to an attribute outside of quotes, with the offset of its `@`. -/
def attributeRefs (query : String) : List (String × Nat) :=
  attributeRefsFrom 0 none query.toList

/-- The attributes of a query in the order of their first reference, operators aside. -/
def attributes (query : String) : List String :=
  ((attributeRefs query).map Prod.fst |>.filter (· != operatorAttribute)).eraseDups

/-! ### Operators -/

/-- The comparison operators, longer ones before their beginnings. -/
def comparators : List (List Char) :=
  [['!', '='], ['<', '='], ['>', '='], ['='], ['<'], ['>']]

/-- A comparison of the operator attribute with a quoted text, wherever it stands. -/
def operatorComparison : Text.Matcher (List Char) := fun _ cs => do
  let rest ← ('@' :: operatorAttribute.toList).isPrefixOf? cs
  let rest ← ['='].isPrefixOf? (Text.trimStart rest)
  Text.quoted? (Text.trimStart rest)

/-- The operators of a query in the order of their first comparison. -/
def operators (query : String) : List String :=
  ((Text.allMatches operatorComparison query.toList).map fun (_, value) => String.ofList value).eraseDups

end Exemplar.Query
