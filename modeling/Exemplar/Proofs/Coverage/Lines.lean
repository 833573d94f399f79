import Exemplar.Coverage.Check
import Exemplar.Coverage.Result

/-!
# Where the lines of details are from

A detail that carries a line got it from a lookup, and the targets of its result name what was looked up.
So whatever holds of all answers of a locator holds of all lines of a report.
-/

namespace Exemplar.Coverage

open Location (Target)
open Query (Conditional)

variable {ctx : Context} {n : Nat}

/-- Each detail of a result that carries a line carries the one of a target that the result looked up. -/
def Result.LinesLookedUp (result : Result) (ctx : Context) : Prop :=
  ∀ detail ∈ result.details, ∀ n, detail.line? = some n →
    ∃ target ∈ result.targets, ctx.line? target = some n

/-- Details that name what they were looked up for carry its line. -/
theorem Result.LinesLookedUp.of_target {result : Result}
    (h : ∀ detail ∈ result.details, ∀ n, detail.line? = some n →
      ∃ target, detail.target? = some target ∧ ctx.line? target = some n) :
    result.LinesLookedUp ctx := by
  intro detail hdetail n hline
  obtain ⟨target, htarget, hlookup⟩ := h detail hdetail n hline
  refine ⟨target, ?_, hlookup⟩
  exact List.mem_append_right _ (List.mem_filterMap.mpr ⟨detail, hdetail, htarget⟩)

/-! ### Attributes and operators -/

namespace Membership

/-- The details about a missing member carry the line of that member and name it as their target. -/
structure Located (m : Membership) : Prop where
  line : ∀ item line?, (m.missing item line?).line? = line?
  target : ∀ item line?, (m.missing item line?).target? = some (m.target item)

theorem located_ofAttributes : ofAttributes.Located where
  line _ _ := rfl
  target _ _ := rfl

theorem located_ofOperators : ofOperators.Located where
  line _ _ := rfl
  target _ _ := rfl

variable (m : Membership) (items : List String) (ctx : Context)

theorem category_check : (m.check items ctx).category = m.category := by
  rw [check]
  split
  · rfl
  split
  · rfl
  dsimp only
  split <;> rfl

/-- There is one detail for each member that is missing, as soon as the examples have content. -/
theorem details_check :
    (m.check items ctx).details =
      if ctx.hasContent then
        (items.filter (!m.isEvidenced ctx ·)).map fun item => m.missing item (ctx.line? (m.target item))
      else [] := by
  rw [check]
  cases items with
  | nil => simp
  | cons item items =>
    cases ctx.hasContent with
    | false => rfl
    | true =>
      simp only [List.isEmpty_cons, Bool.false_eq_true, if_false, if_true, Bool.not_true,
        List.isEmpty_map]
      split
      next hnone =>
        rw [List.isEmpty_iff.mp hnone]
        rfl
      next => simp [counted]

/-- The members that are missing are looked up, as soon as the examples have content. -/
theorem mem_targets_check (located : m.Located) (plain : m.category.target? = none)
    (target : Target) :
    target ∈ (m.check items ctx).targets ↔
      ctx.hasContent = true ∧ ∃ item ∈ items, m.isEvidenced ctx item = false ∧ m.target item = target := by
  rw [Result.targets, category_check, plain, details_check, Option.toList_none, List.nil_append]
  cases ctx.hasContent with
  | false => simp
  | true => simp [located.target, and_assoc]

theorem linesLookedUp_check (located : m.Located) : (m.check items ctx).LinesLookedUp ctx := by
  apply Result.LinesLookedUp.of_target
  intro detail hdetail n hline
  rw [details_check] at hdetail
  split at hdetail
  · obtain ⟨item, -, rfl⟩ := List.mem_map.mp hdetail
    exact ⟨m.target item, located.target item _, by rwa [located.line] at hline⟩
  · cases hdetail

end Membership

/-! ### Node types -/

theorem category_checkNodeTypes (nodeTypes : List String) (ctx : Context) :
    (checkNodeTypes nodeTypes ctx).category = .nodeTypes := by
  rw [checkNodeTypes]
  dsimp only
  split
  · rfl
  split <;> rfl

theorem details_checkNodeTypes (nodeTypes : List String) (ctx : Context) :
    (checkNodeTypes nodeTypes ctx).details =
      if nodeTypes.count Code.implicitType == nodeTypes.length || !ctx.hasContent then []
      else (nodeTypes.filterMap fun t => presenceDetail? ctx t (presenceAcross t (readings ctx))) ++
        (readings ctx).filterMap fun r =>
          r.failure?.map fun reason => .parseFailure r.exampleIndex reason := by
  rw [checkNodeTypes]
  dsimp only
  cases nodeTypes.count Code.implicitType == nodeTypes.length with
  | true => rfl
  | false =>
    cases ctx.hasContent with
    | false => rfl
    | true =>
      simp only [List.filterMap_map]
      rfl

/-- The node types that are absent are looked up, unless nothing is asked of the examples. -/
theorem mem_targets_checkNodeTypes (nodeTypes : List String) (ctx : Context) (target : Target) :
    target ∈ (checkNodeTypes nodeTypes ctx).targets ↔
      (nodeTypes.count Code.implicitType == nodeTypes.length) = false ∧ ctx.hasContent = true ∧
        ∃ nodeType ∈ nodeTypes, (presenceAcross nodeType (readings ctx)).isPresent = false ∧
          .nodeType nodeType = target := by
  -- Only the details about absent node types name a target.
  have hfailure (r : Reading) : (r.failure?.map fun reason =>
      Detail.parseFailure r.exampleIndex reason).bind Detail.target? = none := by
    cases r.failure? <;> rfl
  have habsent (nodeType : String) (presence : Code.Presence) :
      (presenceDetail? ctx nodeType presence).bind Detail.target? = some target ↔
        presence.isPresent = false ∧ .nodeType nodeType = target := by
    cases presence <;> simp [presenceDetail?, Detail.target?, Code.Presence.isPresent]
  rw [Result.targets, category_checkNodeTypes, details_checkNodeTypes]
  split
  next hnone =>
    simp only [Bool.or_eq_true, Bool.not_eq_true'] at hnone
    rcases hnone with hnone | hnone <;> simp [hnone, Category.target?]
  next hsome =>
    simp only [Bool.or_eq_true, Bool.not_eq_true', not_or, Bool.not_eq_true, Bool.not_eq_false] at hsome
    simp [hsome, Category.target?, List.filterMap_append, List.filterMap_filterMap, hfailure, habsent]

theorem linesLookedUp_checkNodeTypes (nodeTypes : List String) (ctx : Context) :
    (checkNodeTypes nodeTypes ctx).LinesLookedUp ctx := by
  apply Result.LinesLookedUp.of_target
  intro detail hdetail n hline
  rw [details_checkNodeTypes] at hdetail
  split at hdetail
  · cases hdetail
  · rcases List.mem_append.mp hdetail with hfound | hfailure
    · obtain ⟨nodeType, -, hpresence⟩ := List.mem_filterMap.mp hfound
      -- A detail about a node type that was found, if only by chance, has no line.
      generalize presenceAcross nodeType (readings ctx) = presence at hpresence
      cases presence with
      | absent =>
        obtain rfl := Option.some.inj hpresence
        exact ⟨.nodeType nodeType, rfl, hline⟩
      | heuristic =>
        obtain rfl := Option.some.inj hpresence
        cases hline
      | present => cases hpresence
      | implicit => cases hpresence
    · obtain ⟨reading, -, hreason⟩ := List.mem_filterMap.mp hfailure
      obtain ⟨reason, -, rfl⟩ := Option.map_eq_some_iff.mp hreason
      cases hline

/-! ### Conditionals -/

section Demonstrations

variable (conditional : Conditional) (ctx : Context)

theorem details_attributesVerdict (reason : String) :
    (attributesVerdict conditional ctx reason).details = [] := by
  rw [attributesVerdict]
  split <;> rfl

theorem details_demonstrateComparison : ∀ detail ∈ (demonstrateComparison conditional ctx).details,
    ∃ name values, detail = .demonstratedValues name values := by
  intro detail hdetail
  rw [demonstrateComparison] at hdetail
  dsimp only at hdetail
  have hmem : ∀ annotated : List (String × List String),
      detail ∈ (annotated.map fun x => Detail.demonstratedValues x.1 x.2) →
        ∃ name values, detail = .demonstratedValues name values := by
    intro annotated hannotated
    obtain ⟨⟨name, values⟩, -, rfl⟩ := List.mem_map.mp hannotated
    exact ⟨name, values, rfl⟩
  split at hdetail
  · exact hmem _ hdetail
  · split at hdetail <;> exact hmem _ hdetail

theorem details_demonstrateFunction : (demonstrateFunction conditional ctx).details = [] := by
  rw [demonstrateFunction]
  split
  · exact details_attributesVerdict conditional ctx _
  · split <;> rfl

theorem details_demonstrateNot : (demonstrateNot conditional ctx).details = [] := by
  rw [demonstrateNot]
  split
  · exact details_attributesVerdict conditional ctx _
  · split <;> rfl

theorem details_demonstrateAnd : (demonstrateAnd conditional ctx).details = [] := by
  rw [demonstrateAnd]
  split
  · rfl
  · exact details_attributesVerdict conditional ctx _

theorem details_demonstrateOr : (demonstrateOr conditional ctx).details = [] := by
  rw [demonstrateOr]
  split
  · split <;> rfl
  · split <;> rfl

end Demonstrations

/-- A verdict's own details are about values, not about places. -/
theorem exists_of_mem_demonstration {strategy : Strategy}
    {demonstrate : Conditional → Context → Verdict} (hway : strategy.demonstration? = some demonstrate)
    {conditional : Conditional} {detail : Detail}
    (h : detail ∈ (demonstrate conditional ctx).details) :
    ∃ name values, detail = .demonstratedValues name values := by
  -- Only the comparison has details of its own.
  cases strategy <;> cases hway
  case comparison => exact details_demonstrateComparison conditional ctx detail h
  case booleanFunction => simp [details_demonstrateFunction] at h
  case notCondition => simp [details_demonstrateNot] at h
  case andOperator => simp [details_demonstrateAnd] at h
  case orBranch => simp [details_demonstrateOr] at h

theorem category_checkConditional (conditional : Conditional) (ctx : Context) (settings : Settings) :
    (checkConditional conditional ctx settings).category =
      .conditional conditional (Strategy.classify conditional) := by
  rw [checkConditional]
  split
  · rfl
  split
  · rfl
  split <;> rfl

/-- A detail about a conditional carries the line of the conditional, or none; it names no target, as the
category does that already. -/
theorem of_mem_details_checkConditional {conditional : Conditional} {settings : Settings}
    {detail : Detail} (h : detail ∈ (checkConditional conditional ctx settings).details) :
    detail.target? = none ∧
      (detail.line? = none ∨ detail.line? = ctx.line? (.conditional conditional)) := by
  rw [checkConditional] at h
  -- The strategy is disabled, or not implemented, or it demonstrates something.
  split at h
  · obtain rfl := List.mem_singleton.mp h
    exact ⟨rfl, Or.inl rfl⟩
  split at h
  · obtain rfl := List.mem_singleton.mp h
    exact ⟨rfl, Or.inr rfl⟩
  next demonstrate hway =>
    split at h
    · cases h
    · rcases List.mem_append.mp h with hgap | hown
      · split at hgap
        · cases hgap
        · obtain rfl := List.mem_singleton.mp hgap
          exact ⟨rfl, Or.inr rfl⟩
      · obtain ⟨name, values, rfl⟩ := exists_of_mem_demonstration hway hown
        exact ⟨rfl, Or.inl rfl⟩

/-- A conditional is looked up, whatever becomes of it, and nothing else is for it. -/
theorem targets_checkConditional (conditional : Conditional) (ctx : Context) (settings : Settings) :
    (checkConditional conditional ctx settings).targets = [.conditional conditional] := by
  have hnone : (checkConditional conditional ctx settings).details.filterMap Detail.target? = [] :=
    List.filterMap_eq_nil_iff.mpr fun _ hdetail => (of_mem_details_checkConditional hdetail).1
  rw [Result.targets, category_checkConditional, hnone]
  rfl

theorem linesLookedUp_checkConditional (conditional : Conditional) (ctx : Context)
    (settings : Settings) : (checkConditional conditional ctx settings).LinesLookedUp ctx := by
  intro detail hdetail n hline
  refine ⟨.conditional conditional, by simp [targets_checkConditional], ?_⟩
  rcases (of_mem_details_checkConditional hdetail).2 with hnone | hsome
  · rw [hnone] at hline
    cases hline
  · rwa [hsome] at hline

/-! ### All categories -/

/-- Node types are checked always, everything else as the settings say. -/
theorem mem_results_iff {analysis : Query.Analysis} {settings : Settings} {result : Result} :
    result ∈ results analysis ctx settings ↔
      result = checkNodeTypes analysis.nodeTypes ctx ∨
      settings.checks.attributes = true ∧ result = checkAttributes analysis.attributes ctx ∨
      settings.checks.operators = true ∧ result = checkOperators analysis.operators ctx ∨
      settings.checks.conditionals = true ∧
        ∃ conditional ∈ analysis.conditionals, result = checkConditional conditional ctx settings := by
  cases hattributes : settings.checks.attributes <;> cases hoperators : settings.checks.operators <;>
    cases hconditionals : settings.checks.conditionals <;>
      simp [results, hattributes, hoperators, hconditionals, eq_comm]

theorem linesLookedUp_of_mem_results {analysis : Query.Analysis} {settings : Settings} {result : Result}
    (h : result ∈ results analysis ctx settings) : result.LinesLookedUp ctx := by
  rcases mem_results_iff.mp h with rfl | ⟨-, rfl⟩ | ⟨-, rfl⟩ | ⟨-, conditional, -, rfl⟩
  · exact linesLookedUp_checkNodeTypes _ ctx
  · exact Membership.linesLookedUp_check _ _ ctx Membership.located_ofAttributes
  · exact Membership.linesLookedUp_check _ _ ctx Membership.located_ofOperators
  · exact linesLookedUp_checkConditional conditional ctx settings

/-- Every line that a detail of a check carries is the answer to a lookup. -/
theorem linesLookedUp_check {analysis : Query.Analysis} {settings : Settings} {result : Result}
    (h : result ∈ (check analysis ctx settings).results) : result.LinesLookedUp ctx := by
  rw [check] at h
  split at h
  · obtain rfl := List.mem_singleton.mp h
    exact fun detail hdetail => absurd hdetail List.not_mem_nil
  · exact linesLookedUp_of_mem_results h

end Exemplar.Coverage
