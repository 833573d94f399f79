import Exemplar.Coverage.Check
import Exemplar.Proofs.Coverage.Evidence
import Exemplar.Proofs.Coverage.Lines

/-!
# More examples cover no less

One more example behind the others leaves every category of a query in its place, and covers whatever was
covered without it. Each check comes down to one question about the examples, and the answer to it can only
turn from no to yes: evidence in their text is kept, their markers and their code are looked at one example
at a time, and to have content at all is kept as well.
-/

namespace Exemplar.Coverage

open Code (Presence)
open Query (Conditional)

/-- How a summary stands to one for more examples: the categories are the same, one by one, and nothing that
was covered is lost. -/
structure CoverageKept (before after : Summary) : Prop where
  categories : after.results.map Result.category = before.results.map Result.category
  covered : List.Forall₂ (fun old new => old.success = true → new.success = true)
    before.results after.results
  success : before.success = true → after.success = true

/-- How a context stands to the one with one more example. -/
structure Context.ExtendedBy (ctx longer : Context) : Prop where
  examples : ∃ ex, longer.examples = ctx.examples ++ [ex]
  query : longer.query = ctx.query
  reader : longer.reader = ctx.reader

/-! ### What checks ask for -/

namespace Context.ExtendedBy

variable {ctx longer : Context}

theorem continuedBy (h : ctx.ExtendedBy longer) :
    ContinuedBy ctx.content.text longer.content.text := by
  obtain ⟨ex, hexamples⟩ := h.examples
  rw [ctx.content_eq, longer.content_eq, hexamples]
  by_cases hnone : ctx.examples = []
  · exact Or.inl (by simp [hnone, Example.combined, Content.ofText])
  · refine Or.inr ⟨ex.content.toList, ?_⟩
    -- There is a line break between two examples, but none behind no example at all.
    have hmap : ctx.examples.map Example.content ≠ [] := mt List.map_eq_nil_iff.mp hnone
    simp [Content.ofText, Example.combined, String.intercalate_append_of_ne_nil hmap]

theorem hasContent (h : ctx.ExtendedBy longer) (has : ctx.hasContent = true) :
    longer.hasContent = true := by
  rw [Context.hasContent, Bool.not_eq_true'] at has ⊢
  exact Content.isBlank_of_continuedBy h.continuedBy has

theorem any_examples (h : ctx.ExtendedBy longer) {p : Example → Bool}
    (has : ctx.examples.any p = true) : longer.examples.any p = true := by
  obtain ⟨ex, hexamples⟩ := h.examples
  rw [hexamples, List.any_append, has, Bool.true_or]

theorem marksViolations (h : ctx.ExtendedBy longer) (has : ctx.marksViolations = true) :
    longer.marksViolations = true :=
  h.any_examples has

theorem marksValids (h : ctx.ExtendedBy longer) (has : ctx.marksValids = true) :
    longer.marksValids = true :=
  h.any_examples has

theorem containsText (h : ctx.ExtendedBy longer) {text : String}
    (has : ctx.content.containsText text = true) : longer.content.containsText text = true :=
  Content.containsText_of_continuedBy h.continuedBy has

/-- Attributes are identifiers, so their evidence is kept. -/
theorem evidences (h : ctx.ExtendedBy longer) {query source name : String}
    (hname : name ∈ Query.attributes source) (has : ctx.content.evidences query name = true) :
    longer.content.evidences query name = true := by
  obtain ⟨front, back, found⟩ := Query.exists_of_mem_attributes hname
  exact Content.evidences_of_continuedBy h.continuedBy found.nonempty found.chars has

theorem annotatedValues_sublist (h : ctx.ExtendedBy longer) {source name : String}
    (hname : name ∈ Query.attributes source) :
    (ctx.content.annotatedValues name).Sublist (longer.content.annotatedValues name) := by
  obtain ⟨front, back, found⟩ := Query.exists_of_mem_attributes hname
  exact Content.annotatedValues_sublist h.continuedBy found.nonempty found.chars

theorem readings (h : ctx.ExtendedBy longer) :
    ∃ more, Coverage.readings longer = Coverage.readings ctx ++ more := by
  obtain ⟨ex, hexamples⟩ := h.examples
  rw [Coverage.readings, Coverage.readings, hexamples, h.reader, List.filter_append,
    List.map_append]
  exact ⟨_, rfl⟩

end Context.ExtendedBy

/-! ### Attributes and operators -/

namespace Membership

variable (m : Membership) (items : List String) (ctx : Context)

/-- Members are covered if each one is evidenced. -/
theorem success_check :
    (m.check items ctx).success = (items.isEmpty || ctx.hasContent && items.all (m.isEvidenced ctx)) := by
  rw [check]
  cases hitems : items.isEmpty with
  | true => rfl
  | false =>
    cases hcontent : ctx.hasContent with
    | false => rfl
    | true =>
      cases hall : items.all (m.isEvidenced ctx) with
      | true =>
        have hmissing : items.filter (!m.isEvidenced ctx ·) = [] := by
          simpa [List.filter_eq_nil_iff] using hall
        simp [hmissing, counted]
      | false =>
        have hmissing : items.filter (!m.isEvidenced ctx ·) ≠ [] := by
          simpa [List.filter_eq_nil_iff] using hall
        simp [hmissing, counted]

theorem success_check_of_extendedBy {ctx longer : Context} (h : ctx.ExtendedBy longer)
    (keeps : ∀ item ∈ items, m.isEvidenced ctx item = true → m.isEvidenced longer item = true)
    (has : (m.check items ctx).success = true) : (m.check items longer).success = true := by
  simp only [success_check, Bool.or_eq_true, Bool.and_eq_true, List.all_eq_true] at has ⊢
  rcases has with hnone | ⟨hcontent, hall⟩
  · exact Or.inl hnone
  · exact Or.inr ⟨h.hasContent hcontent, fun item hitem => keeps item hitem (hall item hitem)⟩

end Membership

/-! ### Node types -/

/-- A node type is present somewhere if it is taken for granted or if any one reading has it. -/
theorem isPresent_presenceAcross (nodeType : String) (readings : List Reading) :
    (presenceAcross nodeType readings).isPresent = (nodeType == Code.implicitType ||
      readings.any fun r => (Code.checkPresence nodeType r.source r.outcome).isPresent) := by
  rw [presenceAcross, ← Function.comp_def (f := Presence.isPresent), ← List.any_map]
  generalize readings.map (fun r => Code.checkPresence nodeType r.source r.outcome) = found
  cases hplain : found.find? fun p => p == .present || p == .implicit with
  | some p =>
    have hp := List.find?_some hplain
    -- A reading that has the node type for certain is taken over any other.
    have hpresent : p.isPresent = true := by cases p <;> simp_all [Presence.isPresent]
    have hany : found.any Presence.isPresent = true :=
      List.any_eq_true.mpr ⟨p, List.mem_of_find?_eq_some hplain, hpresent⟩
    rw [hany, Bool.or_true]
    exact hpresent
  | none =>
    -- Nothing is certain, so what is present is so by heuristics.
    have hvague : found.any Presence.isPresent = found.contains .heuristic := by
      rw [Bool.eq_iff_iff, List.any_eq_true, List.contains_iff_mem]
      constructor
      · rintro ⟨p, hp, hpresent⟩
        have hplain := List.find?_eq_none.mp hplain p hp
        cases p <;> simp_all [Presence.isPresent]
      · exact fun h => ⟨.heuristic, h, rfl⟩
    rw [hvague]
    cases nodeType == Code.implicitType with
    | true => rfl
    | false => cases found.contains Presence.heuristic <;> rfl

/-- Node types are covered if each one is taken for granted, or each one is present. -/
theorem success_checkNodeTypes (nodeTypes : List String) (ctx : Context) :
    (checkNodeTypes nodeTypes ctx).success =
      (nodeTypes.count Code.implicitType == nodeTypes.length || ctx.hasContent &&
        nodeTypes.all fun t => (presenceAcross t (readings ctx)).isPresent) := by
  rw [checkNodeTypes]
  dsimp only
  cases nodeTypes.count Code.implicitType == nodeTypes.length with
  | true => rfl
  | false =>
    cases ctx.hasContent with
    | false => rfl
    | true =>
      simp only [missingNames, List.filter_map, List.map_map, List.isEmpty_map, Bool.true_and,
        Bool.false_or, Bool.not_true, if_false, Bool.false_eq_true]
      rw [Bool.eq_iff_iff, List.isEmpty_iff, List.filter_eq_nil_iff, List.all_eq_true]
      simp

theorem success_checkNodeTypes_of_extendedBy {ctx longer : Context} (h : ctx.ExtendedBy longer)
    {nodeTypes : List String} (has : (checkNodeTypes nodeTypes ctx).success = true) :
    (checkNodeTypes nodeTypes longer).success = true := by
  obtain ⟨more, hreadings⟩ := h.readings
  simp only [success_checkNodeTypes, isPresent_presenceAcross, hreadings, List.any_append,
    Bool.or_eq_true, Bool.and_eq_true, List.all_eq_true] at has ⊢
  rcases has with hgranted | ⟨hcontent, hall⟩
  · exact Or.inl hgranted
  · refine Or.inr ⟨h.hasContent hcontent, fun nodeType hnodeType => ?_⟩
    rcases hall nodeType hnodeType with hgranted | hpresent
    · exact Or.inl hgranted
    · exact Or.inr (Or.inl hpresent)

/-! ### Conditionals -/

section Demonstrations

variable (conditional : Conditional) (ctx : Context)

/-- Whether every attribute of a clause is evidenced. -/
def allEvidencedFor : Bool :=
  (Query.attributes conditional.expression).all (isEvidencedFor conditional ctx)

theorem demonstrated_attributesVerdict (reason : String) :
    (attributesVerdict conditional ctx reason).demonstrated = allEvidencedFor conditional ctx := by
  rw [attributesVerdict, allEvidencedFor, Bool.eq_iff_iff, List.all_eq_true]
  split
  next hnone => simpa [List.filter_eq_nil_iff] using hnone
  next hsome => simpa [List.filter_eq_nil_iff] using hsome

/-- Two values differ exactly if some value is not the first one. -/
private theorem any_ne_head?_iff {values : List String} :
    (values.any fun value => some value != values.head?) = true ↔
      ∃ a b, a ≠ b ∧ a ∈ values ∧ b ∈ values := by
  rw [List.any_eq_true]
  constructor
  · rintro ⟨a, ha, hdiffers⟩
    obtain ⟨b, others, rfl⟩ := List.exists_cons_of_ne_nil (List.ne_nil_of_mem ha)
    exact ⟨a, b, by simpa using hdiffers, ha, List.mem_cons_self⟩
  · rintro ⟨a, b, hdiffers, ha, hb⟩
    obtain ⟨first, others, rfl⟩ := List.exists_cons_of_ne_nil (List.ne_nil_of_mem ha)
    by_cases hfirst : a = first
    · exact ⟨b, hb, by simpa using hfirst ▸ hdiffers.symm⟩
    · exact ⟨a, ha, by simpa using hfirst⟩

theorem demonstrated_demonstrateComparison :
    (demonstrateComparison conditional ctx).demonstrated = true ↔
      2 ≤ (Query.attributes conditional.expression).countP
          (fun name => !(ctx.content.annotatedValues name).isEmpty) ∧
        ∃ a b, a ≠ b ∧
          (∃ name ∈ Query.attributes conditional.expression, a ∈ ctx.content.annotatedValues name) ∧
          ∃ name ∈ Query.attributes conditional.expression, b ∈ ctx.content.annotatedValues name := by
  rw [demonstrateComparison]
  dsimp only
  generalize Query.attributes conditional.expression = names
  generalize hannotated : (names.map fun name => (name, ctx.content.annotatedValues name)).filter
    (fun x => !x.2.isEmpty) = annotated
  -- What is compared are the attributes that have annotated values, with all of those values.
  have hlength : annotated.length =
      names.countP fun name => !(ctx.content.annotatedValues name).isEmpty := by
    rw [← hannotated, ← List.countP_eq_length_filter, List.countP_map]
    rfl
  have hmem (value : String) : value ∈ (annotated.map Prod.snd).flatten ↔
      ∃ name ∈ names, value ∈ ctx.content.annotatedValues name := by
    rw [← hannotated]
    simp only [List.mem_flatten, List.mem_map, List.mem_filter, Bool.not_eq_true']
    constructor
    · rintro ⟨_, ⟨_, ⟨⟨name, hname, rfl⟩, -⟩, rfl⟩, hvalue⟩
      exact ⟨name, hname, hvalue⟩
    · rintro ⟨name, hname, hvalue⟩
      exact ⟨_, ⟨_, ⟨⟨name, hname, rfl⟩, by simpa using List.ne_nil_of_mem hvalue⟩, rfl⟩, hvalue⟩
  rw [← hlength]
  split
  next hfew =>
    simp only [Bool.false_eq_true, false_iff, not_and]
    omega
  next hmany =>
    rw [and_iff_right (by omega : 2 ≤ annotated.length)]
    simp only [← hmem, ← any_ne_head?_iff]
    split
    next hdiffers => simpa using hdiffers
    next hsame => simpa using hsame

theorem demonstrated_demonstrateFunction :
    (demonstrateFunction conditional ctx).demonstrated =
      if (Query.stringValues conditional.expression).isEmpty then allEvidencedFor conditional ctx
      else (Query.stringValues conditional.expression).any ctx.content.containsText := by
  rw [demonstrateFunction]
  split
  next hnone => rw [hnone, demonstrated_attributesVerdict]; rfl
  next hsome =>
    rw [if_neg (mt List.isEmpty_iff.mp hsome), ← List.isSome_find?]
    split
    next hit => rw [hit]; rfl
    next hmiss => rw [hmiss]; rfl

theorem demonstrated_demonstrateNot :
    (demonstrateNot conditional ctx).demonstrated =
      (allEvidencedFor conditional ctx && (ctx.marksViolations && ctx.marksValids)) := by
  rw [demonstrateNot]
  rw [demonstrated_attributesVerdict]
  cases hall : allEvidencedFor conditional ctx with
  | false => simpa using hall ▸ demonstrated_attributesVerdict conditional ctx _
  | true => cases ctx.marksViolations && ctx.marksValids <;> rfl

theorem demonstrated_demonstrateAnd :
    (demonstrateAnd conditional ctx).demonstrated =
      (allEvidencedFor conditional ctx && ctx.marksViolations) := by
  rw [demonstrateAnd]
  rw [demonstrated_attributesVerdict]
  cases hmarks : ctx.marksViolations with
  | false => cases hall : allEvidencedFor conditional ctx <;>
      simp [demonstrated_attributesVerdict, hall]
  | true => simp [demonstrated_attributesVerdict]

theorem demonstrated_demonstrateOr :
    (demonstrateOr conditional ctx).demonstrated =
      if (Query.attributes conditional.expression).isEmpty &&
          (Query.stringValues conditional.expression).isEmpty then ctx.marksViolations
      else (Query.attributes conditional.expression).any (isEvidencedFor conditional ctx) ||
        (Query.stringValues conditional.expression).any ctx.content.containsText := by
  rw [demonstrateOr]
  rw [← List.isSome_find?, ← List.isSome_find?]
  split
  · cases ctx.marksViolations <;> rfl
  · split
    next hname => rw [hname]; rfl
    next hname hliteral => rw [hname, hliteral]; rfl
    next hname hliteral => rw [hname, hliteral]; rfl

end Demonstrations

section Conditionals

variable {conditional : Conditional} {ctx longer : Context} (h : ctx.ExtendedBy longer)
include h

theorem isEvidencedFor_of_extendedBy {source name : String} (hname : name ∈ Query.attributes source)
    (has : isEvidencedFor conditional ctx name = true) :
    isEvidencedFor conditional longer name = true := by
  rw [isEvidencedFor, Bool.or_eq_true] at has ⊢
  rw [h.query]
  rcases has with hquery | hclause
  · exact Or.inl (h.evidences hname hquery)
  · exact Or.inr (h.evidences hname hclause)

theorem allEvidencedFor_of_extendedBy (has : allEvidencedFor conditional ctx = true) :
    allEvidencedFor conditional longer = true := by
  rw [allEvidencedFor, List.all_eq_true] at has ⊢
  exact fun name hname => isEvidencedFor_of_extendedBy h hname (has name hname)

theorem any_containsText_of_extendedBy {literals : List String}
    (has : literals.any ctx.content.containsText = true) :
    literals.any longer.content.containsText = true := by
  rw [List.any_eq_true] at has ⊢
  obtain ⟨literal, hliteral, hfound⟩ := has
  exact ⟨literal, hliteral, h.containsText hfound⟩

/-- The values to compare may change with more annotations, also the first one of them, which the others
are compared with; but two different values stay two different values. -/
theorem demonstrateComparison_of_extendedBy
    (has : (demonstrateComparison conditional ctx).demonstrated = true) :
    (demonstrateComparison conditional longer).demonstrated = true := by
  rw [demonstrated_demonstrateComparison] at has ⊢
  obtain ⟨hmany, a, b, hdiffers, ⟨left, hleft, ha⟩, right, hright, hb⟩ := has
  refine ⟨hmany.trans (List.countP_mono_left fun name hname hvalues => ?_), a, b, hdiffers, ?_, ?_⟩
  · rw [Bool.not_eq_true', List.isEmpty_eq_false_iff_exists_mem] at hvalues ⊢
    obtain ⟨value, hvalue⟩ := hvalues
    exact ⟨value, (h.annotatedValues_sublist hname).subset hvalue⟩
  · exact ⟨left, hleft, (h.annotatedValues_sublist hleft).subset ha⟩
  · exact ⟨right, hright, (h.annotatedValues_sublist hright).subset hb⟩

theorem demonstrateFunction_of_extendedBy
    (has : (demonstrateFunction conditional ctx).demonstrated = true) :
    (demonstrateFunction conditional longer).demonstrated = true := by
  rw [demonstrated_demonstrateFunction] at has ⊢
  split at has
  next hnone =>
    rw [if_pos hnone]
    exact allEvidencedFor_of_extendedBy h has
  next hsome =>
    rw [if_neg hsome]
    exact any_containsText_of_extendedBy h has

theorem demonstrateNot_of_extendedBy (has : (demonstrateNot conditional ctx).demonstrated = true) :
    (demonstrateNot conditional longer).demonstrated = true := by
  simp only [demonstrated_demonstrateNot, Bool.and_eq_true] at has ⊢
  obtain ⟨hall, hviolations, hvalids⟩ := has
  exact ⟨allEvidencedFor_of_extendedBy h hall, h.marksViolations hviolations, h.marksValids hvalids⟩

theorem demonstrateAnd_of_extendedBy (has : (demonstrateAnd conditional ctx).demonstrated = true) :
    (demonstrateAnd conditional longer).demonstrated = true := by
  simp only [demonstrated_demonstrateAnd, Bool.and_eq_true] at has ⊢
  exact ⟨allEvidencedFor_of_extendedBy h has.1, h.marksViolations has.2⟩

theorem demonstrateOr_of_extendedBy (has : (demonstrateOr conditional ctx).demonstrated = true) :
    (demonstrateOr conditional longer).demonstrated = true := by
  rw [demonstrated_demonstrateOr] at has ⊢
  split at has
  next hnone =>
    rw [if_pos hnone]
    exact h.marksViolations has
  next hsome =>
    rw [if_neg hsome]
    rw [Bool.or_eq_true] at has ⊢
    rcases has with hnames | hliterals
    · obtain ⟨name, hname, hevidenced⟩ := List.any_eq_true.mp hnames
      exact Or.inl (List.any_eq_true.mpr
        ⟨name, hname, isEvidencedFor_of_extendedBy h hname hevidenced⟩)
    · exact Or.inr (any_containsText_of_extendedBy h hliterals)

/-- Whatever the strategy, what was demonstrated still is. -/
theorem demonstration_of_extendedBy {strategy : Strategy}
    {demonstrate : Conditional → Context → Verdict} (hway : strategy.demonstration? = some demonstrate)
    (has : (demonstrate conditional ctx).demonstrated = true) :
    (demonstrate conditional longer).demonstrated = true := by
  -- Strategies without a way to demonstrate anything are gone; each of the others has its own lemma.
  cases strategy <;> cases hway
  case comparison => exact demonstrateComparison_of_extendedBy h has
  case booleanFunction => exact demonstrateFunction_of_extendedBy h has
  case notCondition => exact demonstrateNot_of_extendedBy h has
  case andOperator => exact demonstrateAnd_of_extendedBy h has
  case orBranch => exact demonstrateOr_of_extendedBy h has

end Conditionals

/-- A conditional is covered if its strategy is switched off, or if the examples have content and demonstrate
it. -/
theorem success_checkConditional (conditional : Conditional) (ctx : Context) (settings : Settings) :
    (checkConditional conditional ctx settings).success =
      (settings.isDisabled (Strategy.classify conditional).name || ctx.hasContent &&
        (Strategy.classify conditional).demonstration?.any fun demonstrate =>
          (demonstrate conditional ctx).demonstrated) := by
  rw [checkConditional]
  cases settings.isDisabled (Strategy.classify conditional).name with
  | true => rfl
  | false =>
    cases hway : (Strategy.classify conditional).demonstration? with
    | none => simp
    | some demonstrate => cases ctx.hasContent <;> rfl

theorem success_checkConditional_of_extendedBy {ctx longer : Context} (h : ctx.ExtendedBy longer)
    {conditional : Conditional} {settings : Settings}
    (has : (checkConditional conditional ctx settings).success = true) :
    (checkConditional conditional longer settings).success = true := by
  simp only [success_checkConditional, Bool.or_eq_true, Bool.and_eq_true, Option.any_eq_true] at has ⊢
  rcases has with hdisabled | ⟨hcontent, demonstrate, hway, hdemonstrated⟩
  · exact Or.inl hdisabled
  · exact Or.inr ⟨h.hasContent hcontent, demonstrate, hway,
      demonstration_of_extendedBy h hway hdemonstrated⟩

/-! ### All categories -/

/-- How one result stands to the one for more examples. Once the examples had content, one more example leads
to no new lookup: members that are missing were missing before, and a conditional is looked up in any
case. -/
structure ResultKept (hadContent : Bool) (before after : Result) : Prop where
  category : after.category = before.category
  success : before.success = true → after.success = true
  lookups : hadContent = true → ∀ target ∈ after.targets, target ∈ before.targets

theorem CoverageKept.ofResults {hadContent : Bool} {before after : List Result}
    (h : List.Forall₂ (ResultKept hadContent) before after) :
    CoverageKept (.ofResults before) (.ofResults after) where
  categories := by
    simp only [Summary.ofResults]
    induction h with
    | nil => rfl
    | cons kept _ ih => rw [List.map_cons, List.map_cons, kept.category, ih]
  covered := h.imp fun _ _ kept => kept.success
  success := by
    simp only [Summary.ofResults]
    induction h with
    | nil => exact id
    | cons kept _ ih =>
      simp only [List.all_cons, Bool.and_eq_true]
      exact fun has => ⟨kept.success has.1, ih has.2⟩

theorem targets_ofResults {hadContent : Bool} {before after : List Result}
    (h : List.Forall₂ (ResultKept hadContent) before after) (hcontent : hadContent = true) :
    ∀ target ∈ (Summary.ofResults after).targets, target ∈ (Summary.ofResults before).targets := by
  simp only [Summary.targets, Summary.ofResults]
  induction h with
  | nil => exact fun _ htarget => htarget
  | cons kept _ ih =>
    simp only [List.flatMap_cons, List.mem_append]
    rintro target (htarget | htarget)
    · exact Or.inl (kept.lookups hcontent target htarget)
    · exact Or.inr (ih target htarget)

section All

variable {ctx longer : Context} (h : ctx.ExtendedBy longer)
include h

theorem resultKept_checkNodeTypes (nodeTypes : List String) :
    ResultKept ctx.hasContent (checkNodeTypes nodeTypes ctx) (checkNodeTypes nodeTypes longer) where
  category := by simp only [category_checkNodeTypes]
  success := success_checkNodeTypes_of_extendedBy h
  lookups hcontent target htarget := by
    obtain ⟨more, hreadings⟩ := h.readings
    rw [mem_targets_checkNodeTypes] at htarget ⊢
    obtain ⟨hasked, -, nodeType, hnodeType, habsent, rfl⟩ := htarget
    refine ⟨hasked, hcontent, nodeType, hnodeType, ?_, rfl⟩
    simp only [isPresent_presenceAcross, hreadings, List.any_append, Bool.or_eq_false_iff] at habsent ⊢
    exact ⟨habsent.1, habsent.2.1⟩

theorem resultKept_checkMembers {m : Membership} (located : m.Located)
    (plain : m.category.target? = none) {items : List String}
    (keeps : ∀ item ∈ items, m.isEvidenced ctx item = true → m.isEvidenced longer item = true) :
    ResultKept ctx.hasContent (m.check items ctx) (m.check items longer) where
  category := by simp only [Membership.category_check]
  success := m.success_check_of_extendedBy items h keeps
  lookups hcontent target htarget := by
    rw [Membership.mem_targets_check _ _ _ located plain] at htarget ⊢
    obtain ⟨-, item, hitem, hmissing, rfl⟩ := htarget
    refine ⟨hcontent, item, hitem, ?_, rfl⟩
    -- Were the member evidenced before, it would be so still.
    by_contra hevidenced
    rw [keeps item hitem (by simpa using hevidenced)] at hmissing
    cases hmissing

theorem resultKept_checkConditional (conditional : Conditional) (settings : Settings) :
    ResultKept ctx.hasContent (checkConditional conditional ctx settings)
      (checkConditional conditional longer settings) where
  category := by simp only [category_checkConditional]
  success := success_checkConditional_of_extendedBy h
  lookups _ target htarget := by rwa [targets_checkConditional] at htarget ⊢

/-- One result after the other is kept. The attributes are those that the analysis found in a query, so
they are identifiers. -/
theorem results_of_extendedBy (policy : Query.CollisionPolicy) (query : String) (settings : Settings) :
    List.Forall₂ (ResultKept ctx.hasContent) (results (Query.analyze policy query) ctx settings)
      (results (Query.analyze policy query) longer settings) := by
  -- Which categories there are is decided by the query alone, so both lists are built in the same way.
  refine List.rel_append (List.rel_append (List.rel_append (.cons ?_ .nil) ?_) ?_) ?_
  · exact resultKept_checkNodeTypes h _
  · split
    · refine .cons (resultKept_checkMembers h Membership.located_ofAttributes rfl ?_) .nil
      intro name hname has
      simp only [Membership.ofAttributes, h.query] at has ⊢
      exact h.evidences hname has
    · exact .nil
  · split
    · refine .cons (resultKept_checkMembers h Membership.located_ofOperators rfl ?_) .nil
      exact fun _ _ has => h.containsText has
    · exact .nil
  · split
    · rw [List.forall₂_map_left_iff, List.forall₂_map_right_iff, List.forall₂_same]
      exact fun conditional _ => resultKept_checkConditional h conditional settings
    · exact .nil

variable (policy : Query.CollisionPolicy) (query : String) (settings : Settings)

/-- No coverage is lost with one more example. -/
theorem check_of_extendedBy :
    CoverageKept (check (Query.analyze policy query) ctx settings)
      (check (Query.analyze policy query) longer settings) := by
  rw [check, check, h.query]
  split
  -- Without a query there is one result, and it has nothing to do with the examples.
  · exact .ofResults (.cons (⟨rfl, id, fun _ _ => id⟩ : ResultKept true _ _) .nil)
  · exact .ofResults (results_of_extendedBy h policy query settings)

/-- Once the examples have content, one more example leads to no new lookup. -/
theorem targets_of_extendedBy (hcontent : ctx.hasContent = true) :
    ∀ target ∈ (check (Query.analyze policy query) longer settings).targets,
      target ∈ (check (Query.analyze policy query) ctx settings).targets := by
  rw [check, check, h.query]
  split
  · exact fun _ => id
  · exact targets_ofResults (results_of_extendedBy h policy query settings) hcontent

end All

end Exemplar.Coverage
