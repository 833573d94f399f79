import Exemplar.Query.Quote

/-!
# Conditionals

The clauses of a query that can be true or false. Each keyword is looked for on its own: `not` takes
what stands in its parentheses up to the first closing one, `and` and `or` take everything up to the
end of the predicate. A clause of an `or` that stands inside one of an `and` is therefore part of the
latter and also a conditional of its own.

A keyword must start at a word boundary. `and` and `or` must be followed by white space, so that they
cannot go on as a longer name.
-/

namespace Exemplar.Query

/-- The keyword of a conditional. -/
inductive ConditionalKind where
  | not
  | and
  | or
deriving DecidableEq, Repr

namespace ConditionalKind

def keyword : ConditionalKind → String
  | not => "not"
  | and => "and"
  | or => "or"

end ConditionalKind

/-- A clause with the offset of its first character in the query. -/
structure Conditional where
  kind : ConditionalKind
  expression : String
  position : Nat
deriving DecidableEq, Repr

namespace Conditional

/-- What to look for to find the clause again: its first line, after the keyword unless that is
`not`. -/
def searchText (conditional : Conditional) : String :=
  let first := (Text.lines conditional.expression.toList).head?.getD []
  let first := String.ofList (Text.trimEnd first)
  match conditional.kind with
  | .not => first
  | kind => s!"{kind.keyword} {first}"

end Conditional

/-- A stretch of a query that may hold a clause: what stands before it since the keyword, and the
stretch itself. -/
structure Clause where
  lead : List Char
  body : List Char

/-- What follows a keyword at the head, if a word starts there. -/
def afterWordStart? (kind : ConditionalKind) (before : Option Char) (cs : List Char) :
    Option (List Char) :=
  if before.any Text.isWordChar then none else kind.keyword.toList.isPrefixOf? cs

/-- The parentheses after `not`. -/
def negation : Text.Matcher Clause := fun before cs => do
  let rest ← afterWordStart? .not before cs
  let blank := rest.takeWhile Text.isBlank
  let opened ← ['('].isPrefixOf? (rest.dropWhile Text.isBlank)
  let (body, after) ← Text.splitOnce? ')' opened
  return (⟨ConditionalKind.not.keyword.toList ++ blank ++ ['('], body⟩, after)

/-- The rest of the predicate after `and` or `or`, which must not be blank. -/
def conjunct (kind : ConditionalKind) : Text.Matcher Clause := fun before cs => do
  let rest ← afterWordStart? kind before cs
  let blank := rest.takeWhile Text.isBlank
  let body := (rest.dropWhile Text.isBlank).takeWhile (· != ']')
  if blank.isEmpty || body.isEmpty then none
  else some (⟨kind.keyword.toList ++ blank, body⟩, (rest.dropWhile Text.isBlank).dropWhile (· != ']'))

/-- The stretches that belong to a keyword. -/
def clauses (kind : ConditionalKind) (query : List Char) : List (Nat × Clause) :=
  match kind with
  | .not => Text.allMatches negation query
  | _ => Text.allMatches (conjunct kind) query

/-- The conditional in a stretch, if that is not blank. -/
def conditionalOf? (kind : ConditionalKind) (offset : Nat) (clause : Clause) : Option Conditional :=
  let expression := Text.trim clause.body
  if expression.isEmpty then none
  else
    let blank := clause.body.takeWhile Text.isBlank
    some ⟨kind, String.ofList expression, offset + Text.byteSize clause.lead + Text.byteSize blank⟩

/-- The conditionals of one keyword, by increasing position. -/
def conditionalsOf (kind : ConditionalKind) (query : String) : List Conditional :=
  (clauses kind query.toList).filterMap fun (offset, clause) => conditionalOf? kind offset clause

/-- The conditionals of a query: all of `not`, then all of `and`, then all of `or`. -/
def conditionals (query : String) : List Conditional :=
  conditionalsOf .not query ++ conditionalsOf .and query ++ conditionalsOf .or query

end Exemplar.Query
