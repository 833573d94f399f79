import Exemplar.Proofs.Coverage.Growth

/-!
# Counts, verdicts and gaps agree

Every check says the same thing four times: by its verdict, by its counts, by the gaps among its details and
by the line of the summary about it. No two of them come from the same computation, and a result without
content or without anything to check takes a way of its own. Here they are shown to agree whatever is checked.
-/

namespace Exemplar.Coverage

open Query (Conditional)

/-- The part of a query that a detail reports missing from the examples. -/
def Detail.missing? : Detail → Option String
  | missingNodeType part _ | missingAttribute part _ | missingOperator part _ => some part
  | _ => none

/-- Whether a detail is about something that is not covered. -/
def Detail.isGap : Detail → Bool
  | missingNodeType _ _ | missingAttribute _ _ | missingOperator _ _ => true
  | uncoveredConditional _ _ _ | unimplementedStrategy _ _ => true
  | skippedStrategy _ | demonstratedValues _ _ | heuristicMatch _ | parseFailure _ _ => false

/-- Whether a detail is about a node type that the text only looks like. -/
def Detail.isHeuristic : Detail → Bool
  | heuristicMatch _ => true
  | _ => false

namespace Result

/-- The parts of the query that a result reports missing, in the order of its details. -/
def missing (result : Result) : List String :=
  result.details.filterMap Detail.missing?

/-- The counts that decide, which are those of violating code. -/
def tallies (result : Result) : List Evidence :=
  result.evidence.filter (·.kind == .violation)

/-- How many parts of the query are covered. -/
def covered (result : Result) : Nat :=
  result.tallies.head?.elim 0 Evidence.count

/-- The verdict of a result agrees with its counts and its details. -/
structure Balanced (result : Result) : Prop where
  bounded : ∀ evidence ∈ result.evidence, evidence.count ≤ evidence.required
  single : result.tallies.length ≤ 1
  decides : ∀ evidence ∈ result.tallies, (result.success = true ↔ evidence.count = evidence.required)
  gapless : result.success = true → ∀ detail ∈ result.details, detail.isGap = false

/-- A result about a list counts each part of it once, as covered or as missing. -/
structure AccountsFor (result : Result) (parts : List String) : Prop where
  complete : result.missing.length + result.covered = parts.length
  ordered : result.missing.Sublist parts

end Result

/-- The list of a query's parts that a category is about. -/
def Category.parts? (analysis : Query.Analysis) : Category → Option (List String)
  | nodeTypes => some analysis.nodeTypes
  | attributes => some analysis.attributes
  | operators => some analysis.operators
  | expression | conditional _ _ => none

private theorem countP_eq_length_iff_all {parts : List String} {p : String → Bool} :
    parts.countP p = parts.length ↔ parts.all p = true := by
  rw [List.countP_eq_length, List.all_eq_true]

private theorem length_filter_not_add_countP (parts : List String) (p : String → Bool) :
    (parts.filter (!p ·)).length + parts.countP p = parts.length := by
  rw [← List.countP_eq_length_filter, Nat.add_comm, List.length_eq_countP_add_countP p]
  simp

/-! ### Attributes and operators -/

namespace Membership

variable (m : Membership) (items : List String) (ctx : Context)

/-- How many members are covered. Without content none is. -/
def tally : Nat :=
  if ctx.hasContent then items.countP (m.isEvidenced ctx) else 0

theorem tally_le : m.tally items ctx ≤ items.length := by
  rw [tally]
  split
  · exact List.countP_le_length
  · exact Nat.zero_le _

theorem evidence_check : (m.check items ctx).evidence = if items.isEmpty then [] else
    [⟨.violation, m.tally items ctx, items.length, (m.check items ctx).message⟩] := by
  rw [check, tally]
  cases items.isEmpty with
  | true => rfl
  | false =>
    cases ctx.hasContent with
    | false => rfl
    | true =>
      -- What is subtracted are the members that are missing.
      have hcount := length_filter_not_add_countP items (m.isEvidenced ctx)
      have htally : items.length - (items.filter (!m.isEvidenced ctx ·)).length =
          items.countP (m.isEvidenced ctx) := by omega
      simp only [Bool.false_eq_true, if_false, if_true, Bool.not_true, List.length_map, htally]
      split <;> rfl

theorem balanced_check : (m.check items ctx).Balanced := by
  have hevidence := m.evidence_check items ctx
  have htallies : (m.check items ctx).tallies = (m.check items ctx).evidence := by
    rw [Result.tallies, hevidence]
    split <;> rfl
  cases hitems : items.isEmpty with
  | true =>
    obtain rfl := List.isEmpty_iff.mp hitems
    have hnone : (m.check [] ctx).evidence = [] := hevidence
    constructor
    · simp [hnone]
    · simp [htallies, hnone]
    · simp [htallies, hnone]
    · simp [details_check]
  | false =>
    rw [hitems] at hevidence
    constructor
    · simp [hevidence, tally_le]
    · simp [htallies, hevidence]
    · intro evidence htally
      rw [htallies, hevidence] at htally
      obtain rfl := List.mem_singleton.mp htally
      -- Without content the tally is 0, which is not enough as there is something to check.
      have hpos : items.length ≠ 0 := by simpa using hitems
      rw [success_check, hitems, tally]
      cases ctx.hasContent with
      | false => simp [hpos.symm]
      | true => simp
    · intro hsuccess
      rw [success_check, hitems, Bool.false_or, Bool.and_eq_true, List.all_eq_true] at hsuccess
      have hmissing : items.filter (!m.isEvidenced ctx ·) = [] := by
        simpa [List.filter_eq_nil_iff] using hsuccess.2
      simp [details_check, hmissing]

theorem accountsFor_check (names : ∀ item line?, (m.missing item line?).missing? = some item)
    (content : ctx.hasContent = true) : (m.check items ctx).AccountsFor items := by
  have hmissing : (m.check items ctx).missing = items.filter (!m.isEvidenced ctx ·) := by
    rw [Result.missing, details_check, content, if_pos rfl, List.filterMap_map]
    simp [names]
  have hcovered : (m.check items ctx).covered = items.countP (m.isEvidenced ctx) := by
    rw [Result.covered, Result.tallies, evidence_check, tally, content]
    cases items <;> rfl
  constructor
  · rw [hmissing, hcovered, length_filter_not_add_countP]
  · rw [hmissing]
    exact List.filter_sublist

end Membership

/-! ### Node types -/

section NodeTypes

variable (nodeTypes : List String) (ctx : Context)

/-- Whether some example has a node type, or none has to. -/
def isFound (nodeType : String) : Bool :=
  (presenceAcross nodeType (readings ctx)).isPresent

/-- How many node types are covered. Without content these are the ones taken for granted. -/
def nodeTypeTally : Nat :=
  if ctx.hasContent then nodeTypes.countP (isFound ctx) else nodeTypes.count Code.implicitType

theorem isFound_implicitType : isFound ctx Code.implicitType = true := by
  simp [isFound, isPresent_presenceAcross]

/-- Node types that are all taken for granted are all covered. -/
theorem nodeTypeTally_of_granted (h : nodeTypes.count Code.implicitType = nodeTypes.length) :
    nodeTypeTally nodeTypes ctx = nodeTypes.length := by
  rw [nodeTypeTally]
  split
  · rw [List.countP_eq_length]
    intro nodeType hnodeType
    rw [← List.count_eq_length.mp h nodeType hnodeType]
    exact isFound_implicitType ctx
  · exact h

theorem nodeTypeTally_le : nodeTypeTally nodeTypes ctx ≤ nodeTypes.length := by
  rw [nodeTypeTally]
  split
  · exact List.countP_le_length
  · exact List.count_le_length

theorem success_checkNodeTypes_iff :
    (checkNodeTypes nodeTypes ctx).success = true ↔ nodeTypeTally nodeTypes ctx = nodeTypes.length := by
  rw [success_checkNodeTypes, Bool.or_eq_true, beq_iff_eq, Bool.and_eq_true]
  constructor
  · rintro (hgranted | ⟨hcontent, hall⟩)
    · exact nodeTypeTally_of_granted nodeTypes ctx hgranted
    · rw [nodeTypeTally, if_pos hcontent]
      exact countP_eq_length_iff_all.mpr hall
  · intro htally
    rw [nodeTypeTally] at htally
    split at htally
    next hcontent => exact Or.inr ⟨hcontent, countP_eq_length_iff_all.mp htally⟩
    next => exact Or.inl htally

theorem validEvidence_bounded : ∀ evidence ∈ validEvidence nodeTypes ctx,
    evidence.kind = .valid ∧ evidence.count ≤ evidence.required := by
  intro evidence hevidence
  rw [validEvidence] at hevidence
  split at hevidence
  · cases hevidence
  · obtain rfl := List.mem_singleton.mp hevidence
    exact ⟨rfl, List.length_filter_le _ _⟩

/-- The count that decides comes first, and those of valid code follow. -/
theorem evidence_checkNodeTypes : ∃ valids,
    (∀ evidence ∈ valids, evidence.kind = .valid ∧ evidence.count ≤ evidence.required) ∧
    (checkNodeTypes nodeTypes ctx).evidence = ⟨.violation, nodeTypeTally nodeTypes ctx, nodeTypes.length,
      (checkNodeTypes nodeTypes ctx).message⟩ :: valids := by
  rw [checkNodeTypes]
  dsimp only
  -- No node type needs an example; the examples are empty; the node types in them are counted.
  split
  next hgranted =>
    rw [nodeTypeTally_of_granted nodeTypes ctx (beq_iff_eq.mp hgranted)]
    exact ⟨[], by simp, rfl⟩
  split
  next hcontent =>
    rw [nodeTypeTally, if_neg (by simpa using hcontent)]
    exact ⟨[], by simp, rfl⟩
  next hcontent =>
    rw [nodeTypeTally, if_pos (by simpa using hcontent)]
    refine ⟨validEvidence nodeTypes ctx, validEvidence_bounded nodeTypes ctx, ?_⟩
    simp only [List.filter_map, List.length_map, ← List.countP_eq_length_filter]
    rfl

theorem tallies_checkNodeTypes : (checkNodeTypes nodeTypes ctx).tallies =
    [⟨.violation, nodeTypeTally nodeTypes ctx, nodeTypes.length, (checkNodeTypes nodeTypes ctx).message⟩] := by
  obtain ⟨valids, hvalids, hevidence⟩ := evidence_checkNodeTypes nodeTypes ctx
  have hnone : valids.filter (·.kind == .violation) = [] := by
    rw [List.filter_eq_nil_iff]
    intro evidence hmem
    simp [(hvalids evidence hmem).1]
  simp [Result.tallies, hevidence, hnone]

/-- What is reported missing are the node types that no example has, in the order of the query. -/
theorem missing_checkNodeTypes (content : ctx.hasContent = true) :
    (checkNodeTypes nodeTypes ctx).missing = nodeTypes.filter (!isFound ctx ·) := by
  have hfailure (r : Reading) : (r.failure?.map fun reason =>
      Detail.parseFailure r.exampleIndex reason).bind Detail.missing? = none := by
    cases r.failure? <;> rfl
  have hreported (nodeType : String) (presence : Code.Presence) :
      (presenceDetail? ctx nodeType presence).bind Detail.missing? =
        if !presence.isPresent then some nodeType else none := by
    cases presence <;> rfl
  rw [Result.missing, details_checkNodeTypes, content, Bool.not_true, Bool.or_false]
  split
  next hgranted =>
    symm
    rw [List.filterMap_nil, List.filter_eq_nil_iff]
    intro nodeType hnodeType
    rw [← List.count_eq_length.mp (beq_iff_eq.mp hgranted) nodeType hnodeType]
    simp [isFound_implicitType]
  next =>
    rw [List.filterMap_append, List.filterMap_filterMap, List.filterMap_filterMap,
      List.filterMap_eq_nil_iff.mpr fun r _ => hfailure r, List.append_nil, ← List.filterMap_eq_filter]
    exact List.filterMap_congr fun nodeType _ => hreported nodeType _

/-- Only node types that are found have a detail about what the text looks like. -/
theorem countP_isHeuristic_le :
    (checkNodeTypes nodeTypes ctx).details.countP Detail.isHeuristic ≤ nodeTypeTally nodeTypes ctx := by
  have hfailures : ((readings ctx).filterMap fun r => r.failure?.map fun reason =>
      Detail.parseFailure r.exampleIndex reason).countP Detail.isHeuristic = 0 := by
    rw [List.countP_eq_zero]
    intro detail hdetail
    obtain ⟨r, -, hreason⟩ := List.mem_filterMap.mp hdetail
    obtain ⟨reason, -, rfl⟩ := Option.map_eq_some_iff.mp hreason
    simp [Detail.isHeuristic]
  rw [details_checkNodeTypes, nodeTypeTally]
  split
  · simp
  next hsome =>
    simp only [Bool.or_eq_true, Bool.not_eq_true', not_or, Bool.not_eq_false] at hsome
    rw [if_pos hsome.2, List.countP_append, hfailures, Nat.add_zero, List.countP_filterMap]
    refine List.countP_mono_left fun nodeType _ hheuristic => ?_
    rw [isFound]
    generalize presenceAcross nodeType (readings ctx) = presence at hheuristic
    cases presence with
    | absent => cases hheuristic
    | heuristic | present | implicit => rfl

theorem covered_checkNodeTypes : (checkNodeTypes nodeTypes ctx).covered = nodeTypeTally nodeTypes ctx := by
  rw [Result.covered, tallies_checkNodeTypes]
  rfl

theorem balanced_checkNodeTypes : (checkNodeTypes nodeTypes ctx).Balanced := by
  obtain ⟨valids, hvalids, hevidence⟩ := evidence_checkNodeTypes nodeTypes ctx
  have htallies := tallies_checkNodeTypes nodeTypes ctx
  constructor
  · intro evidence hmem
    rw [hevidence] at hmem
    rcases List.mem_cons.mp hmem with rfl | hvalid
    · exact nodeTypeTally_le nodeTypes ctx
    · exact (hvalids evidence hvalid).2
  · simp [htallies]
  · intro evidence htally
    rw [htallies] at htally
    obtain rfl := List.mem_singleton.mp htally
    exact success_checkNodeTypes_iff nodeTypes ctx
  · intro hsuccess detail hdetail
    rw [details_checkNodeTypes] at hdetail
    split at hdetail
    · cases hdetail
    next hsome =>
      rw [Bool.or_eq_true, not_or, Bool.not_eq_true] at hsome
      rw [success_checkNodeTypes, hsome.1, Bool.false_or, Bool.and_eq_true, List.all_eq_true] at hsuccess
      -- With success no node type is absent, and that an example cannot be read is no gap.
      rcases List.mem_append.mp hdetail with hfound | hfailure
      · obtain ⟨nodeType, hnodeType, hpresence⟩ := List.mem_filterMap.mp hfound
        have hpresent := hsuccess.2 nodeType hnodeType
        generalize presenceAcross nodeType (readings ctx) = presence at hpresence hpresent
        cases presence with
        | absent => cases hpresent
        | heuristic =>
          obtain rfl := Option.some.inj hpresence
          rfl
        | present | implicit => cases hpresence
      · obtain ⟨r, -, hreason⟩ := List.mem_filterMap.mp hfailure
        obtain ⟨reason, -, rfl⟩ := Option.map_eq_some_iff.mp hreason
        rfl

theorem accountsFor_checkNodeTypes (content : ctx.hasContent = true) :
    (checkNodeTypes nodeTypes ctx).AccountsFor nodeTypes := by
  constructor
  · rw [missing_checkNodeTypes nodeTypes ctx content, covered_checkNodeTypes, nodeTypeTally,
      if_pos content, length_filter_not_add_countP]
  · rw [missing_checkNodeTypes nodeTypes ctx content]
    exact List.filter_sublist

end NodeTypes

/-! ### Conditionals -/

theorem Verdict.balanced_result {verdict : Verdict} {conditional : Conditional} {strategy : Strategy}
    {line? : Option Nat} (own : ∀ detail ∈ verdict.details, detail.isGap = false) :
    (verdict.result conditional strategy line?).Balanced := by
  rw [result]
  constructor
  · simp only [List.mem_singleton, forall_eq]
    split <;> omega
  · exact Nat.le_refl 1
  · simp only [Result.tallies, List.filter_cons, beq_self_eq_true, if_true, List.filter_nil,
      List.mem_singleton, forall_eq]
    cases verdict.demonstrated <;> simp
  · intro hsuccess
    simp only at hsuccess ⊢
    rw [if_pos hsuccess]
    exact own

theorem balanced_checkConditional (conditional : Conditional) (ctx : Context) (settings : Settings) :
    (checkConditional conditional ctx settings).Balanced := by
  rw [checkConditional]
  split
  · constructor <;> simp [Result.tallies, Detail.isGap]
  split
  · constructor <;> simp [Result.tallies]
  next demonstrate hway =>
    split
    · constructor <;> simp [Result.tallies]
    · refine Verdict.balanced_result fun detail hdetail => ?_
      obtain ⟨name, values, rfl⟩ := exists_of_mem_demonstration hway hdetail
      rfl

/-! ### All categories -/

/-- How a result fits the query that it is about. -/
structure Result.Accounted (result : Result) (analysis : Query.Analysis) (ctx : Context) : Prop where
  balanced : result.Balanced
  accounts : ctx.hasContent = true →
    ∀ parts, result.category.parts? analysis = some parts → result.AccountsFor parts
  heuristics : result.category = .nodeTypes →
    result.details.countP Detail.isHeuristic ≤ result.covered

theorem accounted_checkNodeTypes (analysis : Query.Analysis) (ctx : Context) :
    (checkNodeTypes analysis.nodeTypes ctx).Accounted analysis ctx where
  balanced := balanced_checkNodeTypes _ ctx
  accounts hcontent parts hsome := by
    rw [category_checkNodeTypes] at hsome
    obtain rfl := Option.some.inj hsome
    exact accountsFor_checkNodeTypes _ ctx hcontent
  heuristics _ := by
    rw [covered_checkNodeTypes]
    exact countP_isHeuristic_le _ ctx

theorem Membership.accounted_check {m : Membership} {items : List String} {analysis : Query.Analysis}
    (names : ∀ item line?, (m.missing item line?).missing? = some item)
    (hparts : m.category.parts? analysis = some items) (hcategory : m.category ≠ .nodeTypes) (ctx : Context) :
    (m.check items ctx).Accounted analysis ctx where
  balanced := m.balanced_check items ctx
  accounts hcontent parts hsome := by
    rw [m.category_check, hparts] at hsome
    obtain rfl := Option.some.inj hsome
    exact m.accountsFor_check items ctx names hcontent
  heuristics hnone := by
    rw [m.category_check] at hnone
    exact absurd hnone hcategory

/-- A conditional is no list of parts, and no node type. -/
theorem accounted_checkConditional (conditional : Conditional) (analysis : Query.Analysis) (ctx : Context)
    (settings : Settings) : (checkConditional conditional ctx settings).Accounted analysis ctx where
  balanced := balanced_checkConditional conditional ctx settings
  accounts _ parts hsome := by
    rw [category_checkConditional] at hsome
    cases hsome
  heuristics hnone := by
    rw [category_checkConditional] at hnone
    cases hnone

theorem accounted_of_mem_results {analysis : Query.Analysis} {ctx : Context} {settings : Settings}
    {result : Result} (h : result ∈ results analysis ctx settings) : result.Accounted analysis ctx := by
  rcases mem_results_iff.mp h with rfl | ⟨-, rfl⟩ | ⟨-, rfl⟩ | ⟨-, conditional, -, rfl⟩
  · exact accounted_checkNodeTypes analysis ctx
  · exact Membership.accounted_check (fun _ _ => rfl) rfl (fun h => by cases h) ctx
  · exact Membership.accounted_check (fun _ _ => rfl) rfl (fun h => by cases h) ctx
  · exact accounted_checkConditional conditional analysis ctx settings

theorem success_ofResults_iff (results : List Result) :
    (Summary.ofResults results).success = true ↔ ∀ result ∈ results, result.success = true :=
  List.all_eq_true

theorem uncovered_ofResults_eq_nil_iff (results : List Result) :
    (Summary.ofResults results).uncovered = [] ↔ ∀ result ∈ results, result.success = true := by
  simp [Summary.ofResults, List.filter_eq_nil_iff]

/-- A check covers a query exactly if each of its results succeeds, and exactly if nothing is listed as
uncovered; there is one line for each result that fails, in their order. The verdict of each result agrees
with its counts and its details; where there is content, each part of a list is covered or reported missing;
and a node type that the text only looks like is covered. -/
theorem check_balanced (analysis : Query.Analysis) (ctx : Context) (settings : Settings) :
    ((check analysis ctx settings).success = true ↔
      ∀ result ∈ (check analysis ctx settings).results, result.success = true) ∧
    ((check analysis ctx settings).uncovered = [] ↔
      ∀ result ∈ (check analysis ctx settings).results, result.success = true) ∧
    List.Forall₂ (fun line result => line = s!"{result.category.label}: {result.message}")
      (check analysis ctx settings).uncovered
      ((check analysis ctx settings).results.filter (!·.success)) ∧
    ∀ result ∈ (check analysis ctx settings).results, result.Accounted analysis ctx := by
  obtain ⟨results, hcheck, haccounted⟩ : ∃ results, check analysis ctx settings = .ofResults results ∧
      ∀ result ∈ results, result.Accounted analysis ctx := by
    rw [check]
    split
    · -- Without a query there is one result, which counts nothing.
      refine ⟨_, rfl, fun result hresult => ?_⟩
      obtain rfl := List.mem_singleton.mp hresult
      constructor
      · constructor <;> simp [Result.tallies]
      · intro _ parts hsome
        cases hsome
      · intro hnone
        cases hnone
    · exact ⟨_, rfl, fun _ hresult => accounted_of_mem_results hresult⟩
  rw [hcheck]
  refine ⟨success_ofResults_iff results, uncovered_ofResults_eq_nil_iff results, ?_, haccounted⟩
  rw [Summary.ofResults, List.forall₂_map_left_iff, List.forall₂_same]
  exact fun _ _ => rfl

end Exemplar.Coverage
