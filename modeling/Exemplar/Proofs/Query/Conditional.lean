import Exemplar.Proofs.Text.Search
import Exemplar.Query.Conditional

/-!
# Conditionals stand in the query

A conditional knows its position. That is a place of the query, and the clause stands there.
-/

namespace Exemplar.Query

open Text (byteSize)

/-- A keyword stands where a word starts. -/
theorem afterWordStart?_eq_some_iff {kind : ConditionalKind} {before : Option Char} {cs rest : List Char} :
    afterWordStart? kind before cs = some rest ↔
      before.any Text.isWordChar = false ∧ cs = kind.keyword.toList ++ rest := by
  rw [afterWordStart?]
  split
  next hword => simp [hword]
  next hstarts =>
    rw [List.isPrefixOf?_eq_some_iff_append_eq, eq_comm]
    exact (and_iff_right (Bool.eq_false_iff.mpr hstarts)).symm

theorem exists_of_negation {before : Option Char} {cs after : List Char} {clause : Clause}
    (h : negation before cs = some (clause, after)) :
    ∃ close, cs = clause.lead ++ clause.body ++ (close ++ after) := by
  unfold negation at h
  obtain ⟨rest, hrest, h⟩ := Option.bind_eq_some_iff.mp h
  obtain ⟨opened, hopened, h⟩ := Option.bind_eq_some_iff.mp h
  obtain ⟨⟨body, closed⟩, hbody, h⟩ := Option.bind_eq_some_iff.mp h
  obtain ⟨rfl, rfl⟩ := Prod.mk.inj (Option.some.inj h)
  refine ⟨[')'], ?_⟩
  -- The clause ends at the first closing parenthesis.
  have hblank : rest = rest.takeWhile Text.isBlank ++ (['('] ++ (body ++ ')' :: closed)) := by
    rw [← Text.append_of_splitOnce? hbody, List.append_eq_of_isPrefixOf?_eq_some hopened,
      List.takeWhile_append_dropWhile]
  rw [(afterWordStart?_eq_some_iff.mp hrest).2]
  conv_lhs => rw [hblank]
  simp only [List.append_assoc, List.cons_append, List.nil_append]

theorem exists_of_conjunct {kind : ConditionalKind} {before : Option Char} {cs after : List Char}
    {clause : Clause} (h : conjunct kind before cs = some (clause, after)) :
    ∃ close, cs = clause.lead ++ clause.body ++ (close ++ after) := by
  unfold conjunct at h
  obtain ⟨rest, hrest, h⟩ := Option.bind_eq_some_iff.mp h
  obtain ⟨-, hfound⟩ := Option.ite_none_left_eq_some.mp h
  obtain ⟨rfl, rfl⟩ := Prod.mk.inj (Option.some.inj hfound)
  refine ⟨[], ?_⟩
  rw [(afterWordStart?_eq_some_iff.mp hrest).2]
  simp only [List.nil_append, List.append_assoc, List.takeWhile_append_dropWhile]

/-- The three kinds differ only in the rule that reads a clause. It reads the clause first, and what closes it. -/
theorem exists_rule_clauses (kind : ConditionalKind) :
    ∃ rule : Text.Matcher Clause, clauses kind = Text.allMatches rule ∧
      ∀ before cs clause after, rule before cs = some (clause, after) →
        ∃ close, cs = clause.lead ++ clause.body ++ (close ++ after) := by
  cases kind
  case not => exact ⟨negation, rfl, fun _ _ _ _ => exists_of_negation⟩
  case and => exact ⟨conjunct .and, rfl, fun _ _ _ _ => exists_of_conjunct⟩
  case or => exact ⟨conjunct .or, rfl, fun _ _ _ _ => exists_of_conjunct⟩

theorem exists_of_mem_clauses {kind : ConditionalKind} {query : List Char} {found : Nat × Clause}
    (h : found ∈ clauses kind query) :
    ∃ front back, query = front ++ (found.2.lead ++ found.2.body ++ back) ∧
      found.1 = byteSize front := by
  obtain ⟨rule, hrule, reads⟩ := exists_rule_clauses kind
  rw [hrule] at h
  obtain ⟨front, rest, after, rfl, -, matched, offset⟩ := Text.exists_of_mem_allMatches h
  obtain ⟨close, rfl⟩ := reads _ _ _ _ matched
  exact ⟨front, close ++ after, rfl, offset⟩

/-- The conditional in a stretch is what is left of it once it is trimmed. -/
theorem conditionalOf?_eq_some_iff {kind : ConditionalKind} {offset : Nat} {clause : Clause}
    {conditional : Conditional} :
    conditionalOf? kind offset clause = some conditional ↔ Text.trim clause.body ≠ [] ∧
      Conditional.mk kind (String.ofList (Text.trim clause.body))
        (offset + byteSize clause.lead + byteSize (clause.body.takeWhile Text.isBlank)) = conditional := by
  rw [conditionalOf?, Option.ite_none_left_eq_some, List.isEmpty_iff, Option.some_inj]

theorem exists_of_mem_conditionalsOf {kind : ConditionalKind} {query : String}
    {conditional : Conditional} (h : conditional ∈ conditionalsOf kind query) :
    ∃ front back, query.toList = front ++ conditional.expression.toList ++ back ∧
      conditional.position = byteSize front := by
  obtain ⟨⟨offset, clause⟩, hclause, hconditional⟩ := List.mem_filterMap.mp h
  obtain ⟨front, back, split, rfl⟩ := exists_of_mem_clauses hclause
  obtain ⟨-, rfl⟩ := conditionalOf?_eq_some_iff.mp hconditional
  obtain ⟨rest, -, hbody⟩ := Text.exists_of_trim clause.body
  -- The position is where the body starts once it is trimmed.
  refine ⟨front ++ clause.lead ++ clause.body.takeWhile Text.isBlank, rest ++ back, ?_, ?_⟩
  · rw [split, String.toList_ofList]
    conv_lhs => rw [hbody]
    simp only [List.append_assoc]
  · simp only [Text.byteSize_append]

/-- The clause of a conditional stands at its position. -/
theorem exists_of_mem_conditionals {query : String} {conditional : Conditional}
    (h : conditional ∈ conditionals query) :
    ∃ front back, query.toList = front ++ conditional.expression.toList ++ back ∧
      conditional.position = byteSize front := by
  simp only [conditionals, List.mem_append] at h
  rcases h with (h | h) | h <;> exact exists_of_mem_conditionalsOf h

end Exemplar.Query
