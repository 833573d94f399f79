import Exemplar.Proofs.Query.Attribute
import Exemplar.Query.NodeType

/-!
# Steps stand in the query

Whatever is taken for a step is an identifier that the query has between two places where no identifier goes
on, and not behind an `@`.
-/

namespace Exemplar.Query

/-- A step can only start behind a character that is no `@`. -/
theorem exists_of_startsStep {before : List Char} (starts : startsStep before = true) :
    ∃ c, before.head? = some c ∧ c ≠ '@' := by
  cases before with
  | nil => cases starts
  | cons c before =>
    refine ⟨c, rfl, ?_⟩
    rintro rfl
    simp [startsStep, Text.isAsciiBlank] at starts

theorem exists_of_mem_stepsFrom {quote : Option Char} {pos : Nat} {before cs : List Char} {step : Step}
    (h : step ∈ stepsFrom quote pos before cs) :
    ∃ front back, IdentifierIn step.name.toList front back cs ∧
      step.offset = pos + Text.byteSize front ∧ startsStep (front.reverse ++ before) = true ∧
      (front.reverse ++ before).head?.any Text.isIdentChar = false := by
  induction cs generalizing quote pos before with
  | nil => cases h
  | cons c cs ih =>
    rcases List.mem_append.mp h with h | h
    · split at h
      next opens =>
        obtain rfl := List.mem_singleton.mp h
        simp only [Bool.and_eq_true, Bool.not_eq_true'] at opens
        obtain ⟨⟨⟨⟨-, hstart⟩, hboundary⟩, starts⟩, -⟩ := opens
        -- The step starts here, and its name is the identifier up to its end.
        have hc : Text.isIdentChar c = true := Text.isIdentChar_of_isIdentStart hstart
        have starts' : (c :: cs).head?.any Text.isIdentStart = true := by simpa using hstart
        have here := identifierIn_head starts'
        rw [List.takeWhile_cons_of_pos hc, List.dropWhile_cons_of_pos hc] at here
        refine ⟨[], cs.dropWhile Text.isIdentChar, ?_, rfl, by simpa using starts, by simpa using hboundary⟩
        rwa [String.toList_ofList]
      next => cases h
    · obtain ⟨front, back, found, hoffset, starts, boundary⟩ := ih h
      refine ⟨c :: front, back,
        ⟨congrArg (c :: ·) found.split, found.nonempty, found.chars, found.ends⟩, ?_, ?_, ?_⟩
      · rw [hoffset, Text.byteSize_cons, Nat.add_assoc]
      · simpa using starts
      · simpa using boundary

/-- Every step of a query is an identifier at its offset, with neither an identifier character nor an `@`
before it. -/
theorem exists_of_mem_steps {query : String} {step : Step} (h : step ∈ steps query) :
    ∃ front back, IdentifierIn step.name.toList front back query.toList ∧
      step.offset = Text.byteSize front ∧
      ∃ c, front.getLast? = some c ∧ Text.isIdentChar c = false ∧ c ≠ '@' := by
  obtain ⟨front, back, found, hoffset, starts, boundary⟩ := exists_of_mem_stepsFrom h
  rw [List.append_nil] at starts boundary
  obtain ⟨c, hc, hat⟩ := exists_of_startsStep starts
  refine ⟨front, back, found, hoffset.trans (Nat.zero_add _), c, ?_, ?_, hat⟩
  · rwa [List.head?_reverse] at hc
  · simpa [hc] using boundary

/-- Every node type of a query is the name of a step. -/
theorem exists_step_of_mem_nodeTypes {policy : CollisionPolicy} {query name : String}
    (h : name ∈ nodeTypes policy query) : ∃ offset, ⟨name, offset⟩ ∈ steps query := by
  rw [nodeTypes, List.mem_eraseDups, List.mem_filter] at h
  obtain ⟨⟨_, offset⟩, hstep, rfl⟩ := List.mem_map.mp h.1
  exact ⟨offset, hstep⟩

/-- Every node type of a query is an identifier of the query, with neither an identifier character nor an
`@` before it. -/
theorem exists_of_mem_nodeTypes {policy : CollisionPolicy} {query name : String}
    (h : name ∈ nodeTypes policy query) :
    ∃ front back, IdentifierIn name.toList front back query.toList ∧
      ∃ c, front.getLast? = some c ∧ Text.isIdentChar c = false ∧ c ≠ '@' := by
  obtain ⟨offset, hstep⟩ := exists_step_of_mem_nodeTypes h
  obtain ⟨front, back, found, -, hbefore⟩ := exists_of_mem_steps hstep
  exact ⟨front, back, found, hbefore⟩

end Exemplar.Query
