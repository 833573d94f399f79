import Exemplar.Code.Grammar.Basic
import Exemplar.Proofs.Code.Reading

/-!
# What is read as a type

A production is as good as the readers of the constructs inside of it: `Nested.Sound` is what it may rely on,
and what the whole grammar promises in turn. References to types leave no node. Their square brackets stand
in pairs, and angle brackets are none.
-/

namespace Exemplar.Code

open Parse

/-- Readers of constructs that yield what they should, inside of `depth` constructs, and always read
something. -/
structure Nested.Sound (sub : Nested) (depth : Nat) : Prop where
  statement (tokens : List Token) : Meets depth sub.statement tokens fun node? read _ =>
    read ≠ [] ∧ Yields (.optional Kind.statements) node?.toList read
  member (tokens : List Token) : Meets depth sub.member tokens fun nodes read _ =>
    read ≠ [] ∧ Yields (.many Kind.members) nodes read
  expression (tokens : List Token) : Meets depth sub.expression tokens fun node read _ =>
    Yields (.one Kind.expressions) [node] read
  operand (tokens : List Token) : Meets depth sub.operand tokens fun node read _ =>
    Yields (.one Kind.expressions) [node] read
  typeRef (tokens : List Token) : Meets depth sub.typeRef tokens fun _ read _ =>
    read ≠ [] ∧ Reading read []

namespace Grammar

variable {sub : Nested} {depth : Nat} {tokens : List Token}

theorem meets_qualifiers : Meets depth qualifiers tokens fun _ read _ => Reading read [] :=
  meets_skipPairs fun _ _ hdot hname => (Reading.ofSymbol hdot rfl).append (.ofIdent hname)

section

variable (sound : sub.Sound depth)
include sound

theorem meets_typeList : Meets depth (typeList sub) tokens fun _ read _ => Reading read [] := by
  refine .map ((meets_separated [] (fun _ => []) fun tokens => ?_).mono ?_)
  · exact (sound.typeRef tokens).mono fun _ _ _ _ h => ⟨h.1, .silent h.2⟩
  · exact fun _ _ _ _ h => .unseen h.2.reading

theorem meets_typeArguments : Meets depth (typeArguments sub) tokens fun _ read _ => Reading read [] := by
  refine .expect fun less _ hless => ?_
  refine .bind (meets_typeList sound) fun _ types _ _ htypes => ?_
  refine meets_expect.mono ?_
  rintro _ _ _ rfl ⟨greater, rfl, hgreater⟩
  exact (Reading.ofSymbol hless rfl).after (htypes.before (.ofSymbol hgreater rfl))

theorem meets_typeArguments? : Meets depth (typeArguments? sub) tokens fun _ read _ => Reading read [] :=
  .ifAhead (fun _ _ _ _ => .map (meets_typeArguments sound)) (.pure .nil)

theorem meets_typeRef : Meets depth (typeRef sub) tokens fun _ read _ => read ≠ [] ∧ Reading read [] := by
  refine .expectIdent fun name _ hname => ?_
  refine .bind meets_qualifiers fun _ further _ _ hfurther => ?_
  refine .bind (meets_typeArguments? sound) fun _ arguments _ _ harguments => ?_
  refine (meets_skipPairs ?_).mono fun _ brackets _ _ hbrackets => ⟨by simp, ?_⟩
  · intro opening closing hopening hclosing
    exact Reading.nil.between hopening hclosing rfl
  · exact (Reading.ofIdent hname).after (hfurther.after (harguments.after hbrackets))

end

end Grammar

end Exemplar.Code
