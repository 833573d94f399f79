import Exemplar.Proofs.Location.Locator
import Exemplar.Proofs.Query.Conditional
import Exemplar.Proofs.Query.NodeType
import Exemplar.Query.Analysis

/-!
# Every part of a query is found in it again

What the analysis of a query takes for a part of it is found in the query by the needle for that part: names
end where identifiers end, which is what the needles ask for, and nothing that is found before them stands in
their way.
-/

namespace Exemplar

open Location
open Query (CollisionPolicy)
open Text (byteSize)

/-- The parts of a query that have a place in it. -/
def Query.Analysis.targets (analysis : Query.Analysis) : List Target :=
  analysis.nodeTypes.map .nodeType ++ analysis.attributes.map .attr ++
    analysis.operators.map .operator ++ analysis.conditionals.map .conditional

namespace Location.Needle

/-- An attribute is found where an identifier ends. -/
theorem isSome_find?_attr_of {name : String} (chars : ∀ c ∈ name.toList, Text.isIdentChar c = true)
    (front : List Char) {back : List Char} (ends : back.head?.any Text.isIdentChar = false) :
    ((ofTarget (.attr name)).find? (front ++ ('@' :: name.toList) ++ back)).isSome = true := by
  -- The needle begins with an `@` and has no other one, so no two places for it overlap.
  have once : '@' ∉ name.toList := by
    intro hat
    have hident := chars '@' hat
    revert hident
    decide
  have here := Text.mem_occurrences_of_clear (List.cons_ne_nil '@' name.toList) front back
    (Text.clear_of_head_not_mem front back once)
  apply isSome_find?_of_mem (List.mem_singleton_self _) (List.cons_ne_nil _ _) here
  simp [ofTarget, Boundary.accepts, ends]

theorem isSome_find?_attr {query name : String} (h : name ∈ Query.attributes query) :
    ((ofTarget (.attr name)).find? query.toList).isSome = true := by
  obtain ⟨front, back, found⟩ := Query.exists_of_mem_attributes h
  have hsplit : query.toList = front ++ ('@' :: name.toList) ++ back := by
    simp [found.split]
  rw [hsplit]
  exact isSome_find?_attr_of found.chars front found.ends

/-- A node type is found where an identifier starts and ends, and not behind an `@`. -/
theorem isSome_find?_nodeType_of {name : String} (nonempty : name.toList ≠ [])
    (chars : ∀ c ∈ name.toList, Text.isIdentChar c = true) {front back : List Char}
    (starts : ∀ c, front.getLast? = some c → Text.isIdentChar c = false ∧ c ≠ '@')
    (ends : back.head?.any Text.isIdentChar = false) :
    ((ofTarget (.nodeType name)).find? (front ++ name.toList ++ back)).isSome = true := by
  have bare : Boundary.word.accepts front.getLast? back.head? = true := by
    rw [Boundary.accepts_word_iff]
    cases hlast : front.getLast? with
    | none => simp [ends]
    | some c => simp [ends, starts c hlast]
  obtain ⟨⟨hstarts, -⟩, hends⟩ := Boundary.accepts_word_iff.mp bare
  have run : Query.RunIn name.toList front back (front ++ name.toList ++ back) :=
    ⟨⟨rfl, nonempty, chars, hends⟩, hstarts⟩
  exact isSome_find?_of_mem (List.mem_singleton_self _) nonempty run.mem_occurrences bare

theorem isSome_find?_nodeType {policy : CollisionPolicy} {query name : String}
    (h : name ∈ Query.nodeTypes policy query) :
    ((ofTarget (.nodeType name)).find? query.toList).isSome = true := by
  obtain ⟨front, back, found, c, hlast, hident, hat⟩ := Query.exists_of_mem_nodeTypes h
  have starts : ∀ d, front.getLast? = some d → Text.isIdentChar d = false ∧ d ≠ '@' := by
    intro d hd
    obtain rfl := Option.some.inj (hd.symm.trans hlast)
    exact ⟨hident, hat⟩
  rw [found.split]
  exact isSome_find?_nodeType_of found.nonempty found.chars starts found.ends

theorem isSome_find?_operator {query operator : String} (h : operator ∈ Query.operators query) :
    ((ofTarget (.operator operator)).find? query.toList).isSome = true := by
  obtain ⟨q, front, back, hquote, hsplit⟩ := Query.exists_of_mem_operators h
  have hpattern : q :: operator.toList ++ [q] ∈ (ofTarget (.operator operator)).patterns := by
    simp only [Text.isQuote, Bool.or_eq_true, beq_iff_eq] at hquote
    rcases hquote with rfl | rfl <;> simp [ofTarget]
  -- Other quoted texts may overlap this one, but any of them is as good.
  have nonempty : q :: operator.toList ++ [q] ≠ [] := by simp
  have hsome := Text.occurrencesFrom_ne_nil nonempty front back 0 0 none (Nat.zero_le _)
  rw [← hsplit] at hsome
  obtain ⟨found, hfound⟩ := List.exists_mem_of_ne_nil _ hsome
  exact isSome_find?_of_mem hpattern (by simp) hfound rfl

end Location.Needle

/-- Every part of a query has a place in it. -/
theorem Locator.exists_queryOffset? (locator : Locator) {policy : CollisionPolicy} {target : Target}
    (h : target ∈ (Query.analyze policy locator.query).targets) :
    ∃ front back, locator.query.toList = front ++ back ∧
      locator.queryOffset? (.ofTarget target) target = some (byteSize front) := by
  have hneedle (hsome : ((Needle.ofTarget target).find? locator.query.toList).isSome = true) :
      ∃ front back, locator.query.toList = front ++ back ∧
        (Needle.ofTarget target).find? locator.query.toList = some (byteSize front) := by
    obtain ⟨n, hn⟩ := Option.isSome_iff_exists.mp hsome
    obtain ⟨pattern, -, -, front, back, split, rfl⟩ := Needle.exists_of_find? hn
    exact ⟨front, pattern ++ back, by rw [split, List.append_assoc], hn⟩
  simp only [Query.Analysis.targets, List.mem_append, List.mem_map] at h
  -- Conditionals know their place. Everything else is searched for, and it was read off the query.
  rcases h with ((⟨name, hname, rfl⟩ | ⟨name, hname, rfl⟩) | ⟨operator, hoperator, rfl⟩) |
    ⟨conditional, hconditional, rfl⟩
  · exact hneedle (Needle.isSome_find?_nodeType hname)
  · exact hneedle (Needle.isSome_find?_attr hname)
  · exact hneedle (Needle.isSome_find?_operator hoperator)
  · obtain ⟨front, back, split, position⟩ := Query.exists_of_mem_conditionals hconditional
    refine ⟨front, conditional.expression.toList ++ back, ?_, congrArg some position⟩
    rw [split, List.append_assoc]

/-- The newlines before a part of a query are newlines of the query. -/
theorem Locator.exists_newlinesBefore? (locator : Locator) {policy : CollisionPolicy} {target : Target}
    (h : target ∈ (Query.analyze policy locator.query).targets) :
    ∃ newlines, locator.newlinesBefore? (.ofTarget target) target = some newlines ∧
      newlines ≤ locator.query.toList.count '\n' := by
  obtain ⟨front, back, split, hoffset⟩ := locator.exists_queryOffset? h
  refine ⟨front.count '\n', ?_, ?_⟩
  · rw [newlinesBefore?, hoffset, Option.bind_eq_bind, Option.bind_some, Text.newlinesBefore?_eq, split,
      Text.cut?_byteSize]
    rfl
  · rw [split, List.count_append]
    exact Nat.le_add_right _ _

end Exemplar
