import Exemplar.Proofs.Code.Bracket
import Exemplar.Proofs.Code.Parser
import Exemplar.Proofs.Code.Tree

/-!
# Balance

No construct of the grammar looks at the balance of a whole source. It comes from what every construct reads:
a bracket is only read together with the one that closes it.
-/

namespace Exemplar.Code

theorem Reading.closed {tokens : List Token} {nodes : List Node} (h : Reading tokens nodes) :
    Closed tokens := by
  induction h with
  | nil => exact .nil
  | token plain => exact .singleton plain
  | query hopening hword hclosed => exact .query hopening hword hclosed
  | bracketed hpair _ ih => exact ih.bracketed hpair
  | append _ _ ihFront ihBack => exact ihFront.append ihBack
  | unseen _ ih => exact ih
  | node _ _ _ _ _ ih => exact ih
  | modified _ _ _ _ _ ihAnnotations ihBack => exact ihAnnotations.append ihBack
  | declared _ _ _ _ _ _ _ _ _ ihAnnotations ihBack => exact ihAnnotations.append ihBack

/-- Only balanced code has a tree: outside of its queries, the brackets of the source are closed by their own
sort and in the right order. -/
theorem isBalanced_of_parsed {source : String} {root : Node} (h : reader source = .parsed root) :
    ∃ tokens, tokenize source = .ok tokens ∧ isBalanced (withoutQueries tokens) = true := by
  obtain ⟨tokens, nodes, htokens, -, entry, hyields⟩ := exists_of_parsed h
  refine ⟨tokens, htokens, ?_⟩
  have hbalanced := hyields.reading.closed.balanced [] []
  rwa [List.append_nil] at hbalanced

/-- An index that is a query. In the query a bracket is left open. -/
def querySource : String :=
  "a = b[[select (c from D where e[0]]];"

/-- Only with its query the source is out of balance. -/
theorem isBalanced_of_querySource : ∃ tokens, tokenize querySource = .ok tokens ∧
    isBalanced tokens = false ∧ isBalanced (withoutQueries tokens) = true := by
  have hread : (reader querySource).root?.isSome = true := by decide +kernel
  have hwhole : (tokenize querySource).toOption.map isBalanced = some false := by decide +kernel
  obtain ⟨root, hroot⟩ := Option.isSome_iff_exists.mp hread
  obtain ⟨tokens, htokens, hbalanced⟩ := isBalanced_of_parsed (Outcome.root?_eq_some_iff.mp hroot)
  rw [htokens] at hwhole
  exact ⟨tokens, htokens, Option.some.inj hwhole, hbalanced⟩

end Exemplar.Code
