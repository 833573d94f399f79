import Exemplar.Proofs.Coverage.Lines
import Mathlib.Data.List.Forall2

/-!
# Checks of a text that starts further down

Lines are looked up, written into details and into remarks, and never looked at. Two contexts whose lookups differ
by a number of lines and by nothing else therefore have the same results, but for the lines in them, and these
differ by the same number.
-/

namespace Exemplar.Coverage

open Query (Conditional)

/-! ### Moving on -/

/-- Two texts that are the same but for the lines in remarks. The second one has every line `n` further down than
the first one, whose lines are listed. -/
inductive RemarksMoved (n : Nat) : List Nat → String → String → Prop where
  | plain (text : String) : RemarksMoved n [] text text
  | remark (line : Nat) : RemarksMoved n [line] s!" (line {line})" s!" (line {line + n})"
  | append {lines more : List Nat} {front front' back back' : String}
      (first : RemarksMoved n lines front front') (second : RemarksMoved n more back back') :
      RemarksMoved n (lines ++ more) (front ++ back) (front' ++ back')

/-- The same detail `n` lines further down. -/
def Detail.moveOn (n : Nat) : Detail → Detail
  | missingNodeType nodeType line? => missingNodeType nodeType (line?.map (· + n))
  | missingAttribute name line? => missingAttribute name (line?.map (· + n))
  | missingOperator operator line? => missingOperator operator (line?.map (· + n))
  | uncoveredConditional expression strategy line? =>
    uncoveredConditional expression strategy (line?.map (· + n))
  | unimplementedStrategy strategy line? => unimplementedStrategy strategy (line?.map (· + n))
  | skippedStrategy strategy => skippedStrategy strategy
  | demonstratedValues name values => demonstratedValues name values
  | heuristicMatch nodeType => heuristicMatch nodeType
  | parseFailure exampleIndex reason => parseFailure exampleIndex reason

/-- The lines that a result points at. -/
def Result.lines (result : Result) : List Nat :=
  result.details.filterMap Detail.line?

/-- The same count, with remarks `n` lines further down. -/
structure Evidence.MovedOn (n : Nat) (evidence moved : Evidence) : Prop where
  kind : moved.kind = evidence.kind
  count : moved.count = evidence.count
  required : moved.required = evidence.required
  description : ∃ lines, RemarksMoved n lines evidence.description moved.description

/-- The same result `n` lines further down. The remarks of its message are about the lines of its details. -/
structure Result.MovedOn (n : Nat) (result moved : Result) : Prop where
  category : moved.category = result.category
  success : moved.success = result.success
  details : moved.details = result.details.map (Detail.moveOn n)
  message : RemarksMoved n result.lines result.message moved.message
  evidence : List.Forall₂ (Evidence.MovedOn n) result.evidence moved.evidence

/-- The same summary `n` lines further down. -/
structure Summary.MovedOn (n : Nat) (summary moved : Summary) : Prop where
  results : List.Forall₂ (Result.MovedOn n) summary.results moved.results
  uncovered : List.Forall₂ (fun text text' => ∃ lines, RemarksMoved n lines text text')
    summary.uncovered moved.uncovered
  success : moved.success = summary.success

/-- A context that differs in its locator only, whose lines are `n` further down. -/
structure Context.MovedOn (n : Nat) (ctx moved : Context) : Prop where
  same : ∃ locator?, moved = { ctx with locator? }
  lines : ∀ target, moved.line? target = (ctx.line? target).map (· + n)

variable {n : Nat} {ctx moved : Context}

theorem Detail.target?_moveOn (n : Nat) (detail : Detail) : (detail.moveOn n).target? = detail.target? := by
  cases detail <;> rfl

theorem Detail.moveOn_of_unplaced (n : Nat) {detail : Detail} (h : detail.line? = none) :
    detail.moveOn n = detail := by
  cases detail with
  | missingNodeType | missingAttribute | missingOperator | uncoveredConditional | unimplementedStrategy =>
    obtain rfl : _ = none := h
    rfl
  | skippedStrategy | demonstratedValues | heuristicMatch | parseFailure => rfl

/-- Details without lines stay as they are. -/
theorem map_moveOn_of_unplaced (n : Nat) {details : List Detail} (h : ∀ detail ∈ details, detail.line? = none) :
    details.map (Detail.moveOn n) = details :=
  (List.map_congr_left fun detail hdetail => Detail.moveOn_of_unplaced n (h detail hdetail)).trans (List.map_id _)

/-! ### Remarks -/

namespace RemarksMoved

/-- Plain text in front adds no lines. -/
theorem after {lines : List Nat} {back back' : String} (text : String) (h : RemarksMoved n lines back back') :
    RemarksMoved n lines (text ++ back) (text ++ back') := by
  have moved : RemarksMoved n ([] ++ lines) (text ++ back) (text ++ back') := .append (.plain text) h
  exact moved

theorem withLine (text : String) (line? : Option Nat) : RemarksMoved n line?.toList (Coverage.withLine text line?)
    (Coverage.withLine text (line?.map (· + n))) := by
  cases line? with
  | none => exact .plain text
  | some line =>
    have hremark (line : Nat) : Coverage.withLine text (some line) = text ++ s!" (line {line})" := by
      simp only [Coverage.withLine, toString, String.append_assoc]
    rw [Option.map_some, hremark, hremark]
    exact .append (.plain text) (.remark line)

/-- Lists of texts have the remarks of their texts. -/
theorem listed {α : Type} (items : List α) {lines : α → List Nat} {text text' : α → String}
    (h : ∀ item ∈ items, RemarksMoved n (lines item) (text item) (text' item)) :
    RemarksMoved n (items.flatMap lines) (Coverage.listed (items.map text))
      (Coverage.listed (items.map text')) := by
  induction items with
  | nil => exact .plain _
  | cons item items ih =>
    have hfirst := h item List.mem_cons_self
    have hothers := ih fun other hother => h other (List.mem_cons_of_mem _ hother)
    -- Commas stand between the texts only, so the last one is a case of its own.
    cases items with
    | nil => simpa [Coverage.listed] using hfirst
    | cons next items =>
      have hjoined (text : α → String) : Coverage.listed ((item :: next :: items).map text) =
          text item ++ (", " ++ Coverage.listed ((next :: items).map text)) := by
        simp [Coverage.listed, String.append_assoc]
      rw [hjoined, hjoined, List.flatMap_cons]
      exact .append hfirst (.after ", " hothers)

end RemarksMoved

/-- A result without lines is the same everywhere. -/
theorem Result.MovedOn.of_unplaced {result : Result} (h : ∀ detail ∈ result.details, detail.line? = none) :
    result.MovedOn n result where
  category := rfl
  success := rfl
  details := (map_moveOn_of_unplaced n h).symm
  message := by
    rw [Result.lines, List.filterMap_eq_nil_iff.mpr h]
    exact .plain _
  evidence := List.forall₂_same.mpr fun _ _ => ⟨rfl, rfl, rfl, [], .plain _⟩

/-! ### Attributes and operators -/

namespace Membership

/-- The details about a missing member move on with the line of that member. -/
def Moves (m : Membership) : Prop :=
  ∀ n item line?, (m.missing item line?).moveOn n = m.missing item (line?.map (· + n))

/-- Whether a member is evidenced does not depend on where lines are. -/
def Unplaced (m : Membership) : Prop :=
  ∀ ctx locator?, m.isEvidenced { ctx with locator? } = m.isEvidenced ctx

theorem movedOn_counted {category : Category} {success : Bool} {count required : Nat} {message message' : String}
    {details : List Detail} (h : RemarksMoved n (details.filterMap Detail.line?) message message') :
    (counted category success count required message details).MovedOn n
      (counted category success count required message' (details.map (Detail.moveOn n))) where
  category := rfl
  success := rfl
  details := rfl
  message := h
  evidence := .cons ⟨rfl, rfl, rfl, _, h⟩ .nil

theorem movedOn_check {m : Membership} (located : m.Located) (moves : m.Moves) (unplaced : m.Unplaced)
    (items : List String) (h : ctx.MovedOn n moved) : (m.check items ctx).MovedOn n (m.check items moved) := by
  obtain ⟨⟨locator?, rfl⟩, hlines⟩ := h
  rw [check, check, unplaced ctx locator?]
  cases items.isEmpty with
  | true => exact .of_unplaced (List.forall_mem_nil _)
  | false =>
    cases hcontent : ctx.hasContent with
    | false =>
      have hmoved : Context.hasContent { ctx with locator? } = false := hcontent
      rw [hmoved]
      exact .of_unplaced (List.forall_mem_nil _)
    | true =>
      have hmoved : Context.hasContent { ctx with locator? } = true := hcontent
      rw [hmoved]
      -- The same members are missing from both, as no line decides about that.
      generalize items.filter (!m.isEvidenced ctx ·) = missing
      simp only [Bool.false_eq_true, if_false, Bool.not_true, List.length_map, List.isEmpty_map, hlines,
        List.map_map, Function.comp_def]
      split
      · exact .of_unplaced (List.forall_mem_nil _)
      · have hdetails : missing.map (fun item => m.missing item ((ctx.line? (m.target item)).map (· + n))) =
            (missing.map fun item => m.missing item (ctx.line? (m.target item))).map (Detail.moveOn n) := by
          simp [moves n]
        have hlines : (missing.map fun item => m.missing item (ctx.line? (m.target item))).filterMap Detail.line? =
            missing.flatMap fun item => (ctx.line? (m.target item)).toList := by
          rw [List.filterMap_map, List.filterMap_eq_flatMap_toList]
          simp [located.line]
        rw [hdetails]
        apply movedOn_counted
        rw [hlines]
        exact .after s!"Missing {m.noun}: " (.listed missing fun item _ => .withLine (m.label item) _)

theorem moves_ofAttributes : ofAttributes.Moves :=
  fun _ _ _ => rfl

theorem moves_ofOperators : ofOperators.Moves :=
  fun _ _ _ => rfl

theorem unplaced_ofAttributes : ofAttributes.Unplaced :=
  fun _ _ => rfl

theorem unplaced_ofOperators : ofOperators.Unplaced :=
  fun _ _ => rfl

end Membership

/-! ### Node types -/

/-- The node types that were not found. -/
def absentTypes (found : List (String × Code.Presence)) : List String :=
  (found.filter fun x => !x.2.isPresent).map Prod.fst

theorem missingNames_eq (ctx : Context) (found : List (String × Code.Presence)) : missingNames ctx found =
    (absentTypes found).map fun nodeType => withLine nodeType (ctx.line? (.nodeType nodeType)) := by
  rw [missingNames, absentTypes, List.map_map]
  rfl

/-- Only the details about absent node types have lines. -/
theorem filterMap_line?_presenceDetail? (ctx : Context) (found : List (String × Code.Presence)) :
    (found.filterMap fun x => presenceDetail? ctx x.1 x.2).filterMap Detail.line? =
      (absentTypes found).flatMap fun nodeType => (ctx.line? (.nodeType nodeType)).toList := by
  rw [List.filterMap_filterMap, absentTypes, ← List.filterMap_eq_flatMap_toList, List.filterMap_map,
    List.filterMap_filter]
  refine List.filterMap_congr fun found _ => ?_
  obtain ⟨nodeType, presence⟩ := found
  cases presence <;> rfl

theorem presenceDetail?_movedOn (h : ctx.MovedOn n moved) (nodeType : String) (presence : Code.Presence) :
    presenceDetail? moved nodeType presence = (presenceDetail? ctx nodeType presence).map (Detail.moveOn n) := by
  cases presence <;> simp [presenceDetail?, Detail.moveOn, h.lines]

theorem movedOn_nodeTypesMessage (h : ctx.MovedOn n moved) (required covered implicit : Nat)
    (found : List (String × Code.Presence)) (readings : List Reading) :
    RemarksMoved n ((absentTypes found).flatMap fun nodeType => (ctx.line? (.nodeType nodeType)).toList)
      (nodeTypesMessage required covered implicit (missingNames ctx found) readings)
      (nodeTypesMessage required covered implicit (missingNames moved found) readings) := by
  rw [missingNames_eq, missingNames_eq]
  simp only [h.lines]
  have hlisted := RemarksMoved.listed (n := n) (absentTypes found) fun nodeType _ =>
    .withLine nodeType (ctx.line? (.nodeType nodeType))
  rw [nodeTypesMessage, nodeTypesMessage]
  simp only [List.isEmpty_map]
  split
  next hnone =>
    rw [List.isEmpty_iff.mp hnone]
    exact .plain _
  split
  · exact hlisted.after _
  · exact hlisted.after _

theorem movedOn_checkNodeTypes (nodeTypes : List String) (h : ctx.MovedOn n moved) :
    (checkNodeTypes nodeTypes ctx).MovedOn n (checkNodeTypes nodeTypes moved) := by
  obtain ⟨locator?, rfl⟩ := h.same
  have hcontent : Context.hasContent { ctx with locator? } = ctx.hasContent := rfl
  have hreadings : readings { ctx with locator? } = readings ctx := rfl
  have hvalids : validEvidence nodeTypes { ctx with locator? } = validEvidence nodeTypes ctx := rfl
  rw [checkNodeTypes, checkNodeTypes, hcontent, hreadings, hvalids]
  dsimp only
  split
  · exact .of_unplaced (List.forall_mem_nil _)
  split
  · exact .of_unplaced (List.forall_mem_nil _)
  · generalize nodeTypes.map (fun t => (t, presenceAcross t (readings ctx))) = found
    generalize hfailures : ((readings ctx).filterMap fun r =>
      r.failure?.map fun reason => Detail.parseFailure r.exampleIndex reason) = failures
    -- Failures to read an example are about that example and have no line of the rule.
    have unplaced : ∀ detail ∈ failures, detail.line? = none := by
      intro detail hdetail
      rw [← hfailures] at hdetail
      obtain ⟨r, -, hreason⟩ := List.mem_filterMap.mp hdetail
      obtain ⟨reason, -, rfl⟩ := Option.map_eq_some_iff.mp hreason
      rfl
    have message := movedOn_nodeTypesMessage h nodeTypes.length (found.filter fun x => x.2.isPresent).length
      (nodeTypes.count Code.implicitType) found (readings ctx)
    constructor
    · rfl
    · simp only [missingNames_eq, List.isEmpty_map]
    · simp only [presenceDetail?_movedOn h, List.map_append, map_moveOn_of_unplaced n unplaced, List.map_filterMap]
    · rw [Result.lines, List.filterMap_append, filterMap_line?_presenceDetail?,
        List.filterMap_eq_nil_iff.mpr unplaced, List.append_nil]
      exact message
    · exact .cons ⟨rfl, rfl, rfl, _, message⟩
        (List.forall₂_same.mpr fun _ _ => ⟨rfl, rfl, rfl, [], .plain _⟩)

/-! ### Conditionals -/

theorem demonstrate_unplaced {strategy : Strategy} {demonstrate : Conditional → Context → Verdict}
    (hway : strategy.demonstration? = some demonstrate) (conditional : Conditional) (ctx : Context)
    (locator? : Option Locator) :
    demonstrate conditional { ctx with locator? } = demonstrate conditional ctx := by
  cases strategy <;> cases hway <;> rfl

theorem Verdict.movedOn_result {verdict : Verdict} (conditional : Conditional) (strategy : Strategy)
    (line? : Option Nat) (own : ∀ detail ∈ verdict.details, detail.line? = none) :
    (verdict.result conditional strategy line?).MovedOn n
      (verdict.result conditional strategy (line?.map (· + n))) := by
  have hlines : verdict.details.filterMap Detail.line? = [] := List.filterMap_eq_nil_iff.mpr own
  have hdetails := map_moveOn_of_unplaced n own
  have hevidence (evidence : Evidence) : Evidence.MovedOn n evidence evidence := ⟨rfl, rfl, rfl, [], .plain _⟩
  rw [result, result]
  cases verdict.demonstrated with
  | true =>
    refine ⟨rfl, rfl, hdetails.symm, ?_, .cons (hevidence _) .nil⟩
    rw [Result.lines]
    simp only [if_true, List.nil_append, hlines]
    exact .plain _
  | false =>
    refine ⟨rfl, rfl, by simp [hdetails, Detail.moveOn], ?_, .cons (hevidence _) .nil⟩
    -- Only the detail in front has a line, and it is the one in the message.
    have hgap : (Detail.uncoveredConditional conditional.expression strategy line? :: verdict.details).filterMap
        Detail.line? = line?.toList := by
      rw [List.filterMap_cons, hlines]
      cases line? <;> rfl
    rw [Result.lines]
    simp only [Bool.false_eq_true, if_false, List.singleton_append, hgap]
    exact .withLine _ _

theorem movedOn_checkConditional (conditional : Conditional) (settings : Settings) (h : ctx.MovedOn n moved) :
    (checkConditional conditional ctx settings).MovedOn n (checkConditional conditional moved settings) := by
  obtain ⟨⟨locator?, rfl⟩, hlines⟩ := h
  have hcontent : Context.hasContent { ctx with locator? } = ctx.hasContent := rfl
  rw [checkConditional, checkConditional, hcontent]
  simp only [hlines]
  split
  · exact .of_unplaced (by simp [Detail.line?])
  split
  next hnone =>
    refine ⟨rfl, rfl, rfl, ?_, .nil⟩
    have hgap : [Detail.unimplementedStrategy (Strategy.classify conditional)
        (ctx.line? (.conditional conditional))].filterMap Detail.line? =
          (ctx.line? (.conditional conditional)).toList := by
      cases ctx.line? (.conditional conditional) <;> rfl
    rw [Result.lines, hgap]
    exact .withLine _ _
  next demonstrate hway =>
    split
    · exact .of_unplaced (List.forall_mem_nil _)
    · rw [demonstrate_unplaced hway conditional ctx locator?]
      refine Verdict.movedOn_result conditional _ _ fun detail hdetail => ?_
      obtain ⟨name, values, rfl⟩ := exists_of_mem_demonstration hway hdetail
      rfl

/-! ### All categories -/

theorem movedOn_results (analysis : Query.Analysis) (settings : Settings) (h : ctx.MovedOn n moved) :
    List.Forall₂ (Result.MovedOn n) (results analysis ctx settings) (results analysis moved settings) := by
  have optional {enabled : Bool} {result result' : Result} (hresult : result.MovedOn n result') :
      List.Forall₂ (Result.MovedOn n) (if enabled then [result] else []) (if enabled then [result'] else []) := by
    cases enabled with
    | false => exact .nil
    | true => exact .cons hresult .nil
  have hattributes := Membership.movedOn_check Membership.located_ofAttributes Membership.moves_ofAttributes
    Membership.unplaced_ofAttributes analysis.attributes h
  have hoperators := Membership.movedOn_check Membership.located_ofOperators Membership.moves_ofOperators
    Membership.unplaced_ofOperators analysis.operators h
  rw [results, results]
  refine List.rel_append (List.rel_append (List.rel_append (.cons ?_ .nil) (optional hattributes))
    (optional hoperators)) ?_
  · exact movedOn_checkNodeTypes analysis.nodeTypes h
  · split
    · rw [List.forall₂_map_left_iff, List.forall₂_map_right_iff, List.forall₂_same]
      exact fun conditional _ => movedOn_checkConditional conditional settings h
    · exact .nil

theorem Summary.movedOn_ofResults {results results' : List Result}
    (h : List.Forall₂ (Result.MovedOn n) results results') :
    (Summary.ofResults results).MovedOn n (Summary.ofResults results') where
  results := h
  uncovered := by
    rw [Summary.ofResults, Summary.ofResults]
    induction h with
    | nil => exact .nil
    | @cons result result' _ _ hfirst _ ih =>
      simp only [List.filter_cons, hfirst.success]
      split
      · refine .cons ⟨result.lines, ?_⟩ ih
        dsimp only
        rw [hfirst.category]
        exact hfirst.message.after _
      · exact ih
  success := by
    rw [Summary.ofResults, Summary.ofResults]
    induction h with
    | nil => rfl
    | cons hfirst _ ih =>
      simp only [List.all_cons, hfirst.success]
      exact congrArg _ ih

/-- A check whose lines are further down says the same, with its lines further down. -/
theorem movedOn_check (analysis : Query.Analysis) (settings : Settings) (h : ctx.MovedOn n moved) :
    (check analysis ctx settings).MovedOn n (check analysis moved settings) := by
  obtain ⟨locator?, rfl⟩ := h.same
  rw [check, check]
  split
  · exact Summary.movedOn_ofResults (.cons (.of_unplaced (List.forall_mem_nil _)) .nil)
  · exact Summary.movedOn_ofResults (movedOn_results analysis settings h)

/-- What is looked up does not move on. -/
theorem Summary.MovedOn.targets {summary moved : Summary} (h : summary.MovedOn n moved) :
    moved.targets = summary.targets := by
  rw [Summary.targets, Summary.targets]
  generalize summary.results = results, moved.results = results', h.results = hresults
  induction hresults with
  | nil => rfl
  | cons hfirst _ ih =>
    rw [List.flatMap_cons, List.flatMap_cons, ih, Result.targets, Result.targets, hfirst.category, hfirst.details,
      List.filterMap_map]
    simp only [Function.comp_def, Detail.target?_moveOn]

end Exemplar.Coverage
