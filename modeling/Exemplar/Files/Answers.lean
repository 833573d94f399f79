/-!
# Answers for the ends of a text

Whether a pattern matches a text depends on whether its later parts match what the earlier ones leave, which
is an end of the text. A text has one end more than characters, so the answers for all of them make a
short table, and the table of a pattern comes from the one of its later parts in a single pass. Nothing
is tried twice, however many wildcards a pattern has.

Each pass has a lemma that says what it does to a table that holds the answers of a predicate.
-/

namespace Exemplar

/-- The ends of a text: all of it, and what follows each of its elements. -/
def ends {α : Type} : List α → List (List α)
  | [] => [[]]
  | c :: cs => (c :: cs) :: ends cs

/-- An answer for each end of a text, the longest one first. -/
abbrev Answers := List Bool

namespace Answers

variable {α : Type}

/-- The answers of a predicate. -/
def of (matched : List α → Bool) (cs : List α) : Answers :=
  (ends cs).map matched

@[simp] theorem of_nil (matched : List α → Bool) : of matched [] = [matched []] := rfl

@[simp] theorem of_cons (matched : List α → Bool) (c : α) (cs : List α) :
    of matched (c :: cs) = matched (c :: cs) :: of matched cs := rfl

/-- The answer for the longest end. -/
def whole (answers : Answers) : Bool :=
  answers.headD false

@[simp] theorem whole_cons (answer : Bool) (answers : Answers) : whole (answer :: answers) = answer := rfl

@[simp] theorem whole_of (matched : List α → Bool) (cs : List α) :
    whole (of matched cs) = matched cs := by
  cases cs <;> rfl

/-- Whether nothing is left. -/
def nothing (cs : List α) : Answers :=
  of List.isEmpty cs

/-- Whether either of two tables says so. -/
def either (answers others : Answers) : Answers :=
  List.zipWith (· || ·) answers others

theorem either_of (matched other : List α → Bool) (cs : List α) :
    either (of matched cs) (of other cs) = of (fun rest => matched rest || other rest) cs := by
  simp [either, of, List.zipWith_map]

/-- Whether a later table says so after one element that satisfies a test. -/
def afterOne (test : α → Bool) : List α → Answers → Answers
  | [], _ => [false]
  | c :: cs, later => (test c && whole later.tail) :: afterOne test cs later.tail

theorem afterOne_of (test : α → Bool) (matched : List α → Bool) (cs : List α) :
    afterOne test cs (of matched cs) =
      of (fun | [] => false | c :: rest => test c && matched rest) cs := by
  induction cs with
  | nil => rfl
  | cons c cs ih => simp [afterOne, ih]

/-- Whether a later table says so after any number of elements that satisfy a test. -/
def afterMany (test : α → Bool) : List α → Answers → Answers
  | [], later => [whole later]
  | c :: cs, later =>
    let rest := afterMany test cs later.tail
    (whole later || test c && whole rest) :: rest

theorem afterMany_of (matched : List α → Bool) (cs : List α) :
    afterMany (fun _ => true) cs (of matched cs) = of (fun rest => (ends rest).any matched) cs := by
  induction cs with
  | nil => simp [afterMany, ends]
  | cons c cs ih => simp [afterMany, ih, ends]

end Answers

end Exemplar
