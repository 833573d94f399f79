import Exemplar.Proofs.Query.Conditional
import Exemplar.Proofs.Text.Match
import Exemplar.Proofs.Text.Place
import Mathlib.Data.List.Forall2
import Mathlib.Data.List.ReduceOption
import Mathlib.Order.WellFounded

/-!
# One clause for each predicate

A clause of `and` or `or` runs to the end of its predicate, and a closing bracket is the end of every predicate. So
what is found can be said of each segment between two closing brackets alone: the first place where the keyword
begins a word, with white space and more text behind it, and nothing if there is no such place. What stands in
the segment behind the first clause is part of that clause, and is passed over with it.
-/

namespace Exemplar.Query

open Text (byteSize)

variable {kind : ConditionalKind} {before : Option Char} {segment text blank rest back : List Char}

/-! ### Segments and their clauses -/

/-- Pieces of a text, each with its offset, where one byte stands between two of them. -/
def placed (pos : Nat) : List (List Char) → List (Nat × List Char)
  | [] => []
  | piece :: pieces => (pos, piece) :: placed (pos + byteSize piece + 1) pieces

/-- The segments of a query between its closing brackets, each with its offset. -/
def segments (query : List Char) : List (Nat × List Char) :=
  placed 0 (query.splitOn ']')

/-- A text begins with the keyword as the start of a word, with white space behind it and more text behind that. -/
structure ClauseAt (kind : ConditionalKind) (before : Option Char) (text blank rest : List Char) : Prop where
  starts : before.any Text.isWordChar = false
  split : text = kind.keyword.toList ++ blank ++ rest
  spaced : blank ≠ []
  blanks : ∀ c ∈ blank, Text.isBlank c = true
  nonempty : rest ≠ []
  goesOn : rest.head?.any Text.isBlank = false

/-- The conditional that a keyword has in a segment: the first clause with the rest of the segment, or none. -/
inductive Yields (kind : ConditionalKind) : Nat × List Char → Option Conditional → Prop
  | first {offset : Nat} {lead text blank rest : List Char} (clause : ClauseAt kind lead.getLast? text blank rest)
      (first : ∀ lead' text' blank' rest', lead ++ text = lead' ++ text' →
        ClauseAt kind lead'.getLast? text' blank' rest' → lead.length ≤ lead'.length) :
      Yields kind (offset, lead ++ text)
        (some ⟨kind, String.ofList (Text.trim rest), offset + byteSize (lead ++ kind.keyword.toList ++ blank)⟩)
  | nothing {offset : Nat} {segment : List Char}
      (absent : ∀ lead text blank rest, segment = lead ++ text → ¬ ClauseAt kind lead.getLast? text blank rest) :
      Yields kind (offset, segment) none

/-! ### The clause at a place -/

/-- No keyword has a closing bracket. -/
theorem keyword_ne_bracket : ∀ c ∈ kind.keyword.toList, (c != ']') = true := by
  apply List.all_eq_true.mp
  cases kind <;> decide

theorem keyword_ne_nil (kind : ConditionalKind) : kind.keyword.toList ≠ [] := by
  cases kind <;> decide

theorem isBlank_ne_bracket {c : Char} (h : Text.isBlank c = true) : (c != ']') = true := by
  apply bne_iff_ne.mpr
  rintro rfl
  exact absurd h (by decide)

namespace ClauseAt

theorem text_ne_nil (clause : ClauseAt kind before text blank rest) : text ≠ [] := by
  rw [clause.split]
  simp only [ne_eq, List.append_eq_nil_iff, keyword_ne_nil, false_and, not_false_eq_true]

/-- A clause is read up to the end of its segment. -/
theorem conjunct_eq (clause : ClauseAt kind before text blank rest) (free : ∀ c ∈ text, (c != ']') = true)
    (stops : back.head?.any (· != ']') = false) :
    conjunct kind before (text ++ back) = some (⟨kind.keyword.toList ++ blank, rest⟩, back) := by
  obtain ⟨starts, rfl, spaced, blanks, nonempty, goesOn⟩ := clause
  have hword : afterWordStart? kind before (kind.keyword.toList ++ (blank ++ (rest ++ back))) =
      some (blank ++ (rest ++ back)) := afterWordStart?_eq_some_iff.mpr ⟨starts, rfl⟩
  have hgoesOn : (rest ++ back).head?.any Text.isBlank = false := by
    rwa [List.head?_append_of_ne_nil _ nonempty]
  have hrest : ∀ c ∈ rest, (c != ']') = true := fun c hc => free c (List.mem_append_right _ hc)
  simp only [conjunct, List.append_assoc, hword, Option.bind_eq_bind, Option.bind_some,
    Text.takeWhile_append_stop blanks hgoesOn, Text.dropWhile_append_stop blanks hgoesOn,
    Text.takeWhile_append_stop hrest stops, Text.dropWhile_append_stop hrest stops]
  rw [if_neg (by simp [spaced, nonempty])]

/-- Without a clause of the segment nothing is read. -/
theorem conjunct_eq_none (absent : ∀ blank rest, ¬ ClauseAt kind before text blank rest)
    (free : ∀ c ∈ text, (c != ']') = true) (stops : back.head?.any (· != ']') = false) :
    conjunct kind before (text ++ back) = none := by
  rw [Option.eq_none_iff_forall_ne_some]
  intro found h
  unfold conjunct at h
  obtain ⟨behind, hbehind, h⟩ := Option.bind_eq_some_iff.mp h
  obtain ⟨hnonempty, -⟩ := Option.ite_none_left_eq_some.mp h
  rw [Bool.or_eq_true, not_or, List.isEmpty_iff, List.isEmpty_iff] at hnonempty
  obtain ⟨starts, hsplit⟩ := afterWordStart?_eq_some_iff.mp hbehind
  have hblank := List.takeWhile_append_dropWhile (p := Text.isBlank) (l := behind)
  have hbody := List.takeWhile_append_dropWhile (p := (· != ']')) (l := behind.dropWhile Text.isBlank)
  have hblanks : ∀ c ∈ behind.takeWhile Text.isBlank, Text.isBlank c = true := fun c => List.mem_takeWhile_imp
  have hread : ∀ c ∈ kind.keyword.toList ++ behind.takeWhile Text.isBlank ++
      (behind.dropWhile Text.isBlank).takeWhile (· != ']'), (c != ']') = true := by
    intro c hc
    rw [List.mem_append, List.mem_append] at hc
    rcases hc with (hc | hc) | hc
    · exact keyword_ne_bracket c hc
    · exact isBlank_ne_bracket (hblanks c hc)
    · exact List.mem_takeWhile_imp (p := (· != ']')) hc
  apply absent
  refine ⟨starts, ?_, hnonempty.1, hblanks, hnonempty.2, ?_⟩
  · -- Both the segment and what is read end at the first closing bracket.
    rw [← Text.takeWhile_append_stop free stops,
      ← Text.takeWhile_append_stop hread (Text.any_head?_dropWhile (· != ']') (behind.dropWhile Text.isBlank)),
      List.append_assoc, hbody, List.append_assoc, hblank, hsplit]
  · have hstop := Text.any_head?_dropWhile Text.isBlank behind
    rw [← hbody, List.head?_append_of_ne_nil _ hnonempty.2] at hstop
    exact hstop

/-- A clause is never blank, and it begins right behind the white space. -/
theorem conditionalOf?_eq (clause : ClauseAt kind before text blank rest) (offset : Nat) :
    conditionalOf? kind offset ⟨kind.keyword.toList ++ blank, rest⟩ =
      some ⟨kind, String.ofList (Text.trim rest), offset + byteSize (kind.keyword.toList ++ blank)⟩ := by
  obtain ⟨c, rest', hrest⟩ := List.exists_cons_of_ne_nil clause.nonempty
  have hc : Text.isBlank c = false := by
    have hgoesOn := clause.goesOn
    rw [hrest] at hgoesOn
    exact hgoesOn
  have hstart : rest.takeWhile Text.isBlank = [] := by
    rw [hrest, List.takeWhile_cons_of_neg (by simp [hc])]
  have hnonblank : Text.trim rest ≠ [] := by
    intro hnil
    obtain ⟨blank', hblank', hsplit⟩ := Text.exists_of_trim rest
    rw [hnil, hstart, List.nil_append, List.nil_append, hrest] at hsplit
    rw [hblank' c (hsplit ▸ List.mem_cons_self)] at hc
    cases hc
  rw [conditionalOf?_eq_some_iff]
  refine ⟨hnonblank, ?_⟩
  simp only [hstart, Text.byteSize_nil, Nat.add_zero]

end ClauseAt

/-! ### The clause of a segment -/

/-- The conditionals of `and` or `or` in the rest of a query. -/
def conjunctsFrom (kind : ConditionalKind) (pos : Nat) (before : Option Char) (cs : List Char) : List Conditional :=
  (Text.matchesFrom (conjunct kind) pos 0 before cs).filterMap fun found => conditionalOf? kind found.1 found.2

/-- A closing bracket is passed over. -/
theorem conjunctsFrom_bracket (kind : ConditionalKind) (pos : Nat) (before : Option Char) (cs : List Char) :
    conjunctsFrom kind pos before (']' :: cs) = conjunctsFrom kind (pos + 1) (some ']') cs := by
  have hnone : conjunct kind before ([] ++ ']' :: cs) = none :=
    ClauseAt.conjunct_eq_none (fun blank rest clause => clause.text_ne_nil rfl) (List.forall_mem_nil _) (by simp)
  rw [List.nil_append] at hnone
  rw [conjunctsFrom, Text.matchesFrom, hnone]
  rfl

/-- If there is a clause in a segment, there is a first one. -/
theorem exists_first
    (h : ∃ lead text blank rest, segment = lead ++ text ∧ ClauseAt kind lead.getLast? text blank rest) :
    ∃ lead text blank rest, segment = lead ++ text ∧ ClauseAt kind lead.getLast? text blank rest ∧
      ∀ lead' text' blank' rest', segment = lead' ++ text' → ClauseAt kind lead'.getLast? text' blank' rest' →
        lead.length ≤ lead'.length := by
  obtain ⟨lead, ⟨text, blank, rest, split, clause⟩, shortest⟩ := (measure List.length).wf.has_min
    {lead | ∃ text blank rest, segment = lead ++ text ∧ ClauseAt kind lead.getLast? text blank rest} h
  refine ⟨lead, text, blank, rest, split, clause, fun lead' text' blank' rest' split' clause' => ?_⟩
  exact Nat.le_of_not_lt (shortest lead' ⟨text', blank', rest', split', clause'⟩)

/-- A segment has what its first clause yields, and the search goes on behind the segment. -/
theorem exists_yields_segment (kind : ConditionalKind) (free : ∀ c ∈ segment, (c != ']') = true) (back : List Char)
    (stops : back.head?.any (· != ']') = false) (starts : before.any Text.isWordChar = false) (pos : Nat) :
    ∃ found, Yields kind (pos, segment) found ∧ conjunctsFrom kind pos before (segment ++ back) =
      found.toList ++ conjunctsFrom kind (pos + byteSize segment) (segment.getLast?.or before) back := by
  -- What stands before a segment is no part of a word, so only the segment decides where a word begins.
  have hstarts (part : List Char) : (part.getLast?.or before).any Text.isWordChar =
      part.getLast?.any Text.isWordChar := by
    cases part.getLast? with
    | none => exact starts
    | some c => rfl
  have inSegment {part text blank rest : List Char}
      (clause : ClauseAt kind (part.getLast?.or before) text blank rest) :
      ClauseAt kind part.getLast? text blank rest :=
    { clause with starts := (hstarts part) ▸ clause.starts }
  by_cases h : ∃ lead text blank rest, segment = lead ++ text ∧ ClauseAt kind lead.getLast? text blank rest
  · obtain ⟨lead, text, blank, rest, rfl, clause, first⟩ := exists_first h
    refine ⟨_, .first clause first, ?_⟩
    have hlead : ∀ part more, lead = part ++ more → more ≠ [] →
        conjunct kind (part.getLast?.or before) (more ++ (text ++ back)) = none := by
      rintro part more rfl hmore
      rw [List.append_assoc] at free
      rw [← List.append_assoc]
      apply ClauseAt.conjunct_eq_none _ (fun c hc => free c (List.mem_append_right part hc)) stops
      intro blank' rest' early
      -- A clause in front of the first one would have a shorter lead.
      have hlength := first part (more ++ text) blank' rest' (List.append_assoc ..) (inSegment early)
      rw [List.length_append] at hlength
      exact hmore (List.eq_nil_of_length_eq_zero (by omega))
    have hclause : ClauseAt kind (lead.getLast?.or before) text blank rest :=
      { clause with starts := (hstarts lead).trans clause.starts }
    have hread := hclause.conjunct_eq (fun c hc => free c (List.mem_append_right lead hc)) stops
    -- The clause reads the rest of its segment, so the search is behind the segment then.
    rw [conjunctsFrom, List.append_assoc, Text.matchesFrom_append_of_none _ _ hlead,
      Text.matchesFrom_append_of_some _ hread clause.text_ne_nil]
    simp only [List.filterMap_cons, clause.conditionalOf?_eq, Option.toList_some, List.singleton_append,
      conjunctsFrom, List.getLast?_append, Text.byteSize_append, Nat.add_assoc, Option.or_assoc]
  · refine ⟨none, .nothing fun lead text blank rest split clause => h ⟨lead, text, blank, rest, split, clause⟩, ?_⟩
    rw [conjunctsFrom, Text.matchesFrom_append_of_none]
    · rfl
    · rintro part more rfl -
      apply ClauseAt.conjunct_eq_none _ (fun c hc => free c (List.mem_append_right part hc)) stops
      intro blank rest clause
      exact h ⟨part, more, blank, rest, rfl, inSegment clause⟩

/-- Every segment has what its first clause yields, and nothing else is found. -/
theorem exists_yields (kind : ConditionalKind) (query : List Char) (pos : Nat) (before : Option Char)
    (starts : before.any Text.isWordChar = false) :
    ∃ found, List.Forall₂ (Yields kind) (placed pos (query.splitOn ']')) found ∧
      conjunctsFrom kind pos before query = found.reduceOption := by
  -- Behind the first segment the query is shorter. There the closing bracket stands before the text.
  induction hlength : query.length using Nat.strong_induction_on generalizing query pos before with
  | _ n ih =>
    cases hsplit : Text.splitOnce? ']' query with
    | none =>
      have hfree := Text.splitOnce?_eq_none_iff.mp hsplit
      have free : ∀ c ∈ query, (c != ']') = true := fun c hc => bne_iff_ne.mpr fun h => hfree (h ▸ hc)
      obtain ⟨found, yields, hfound⟩ := exists_yields_segment kind free [] rfl starts pos
      refine ⟨[found], ?_, ?_⟩
      · rw [List.splitOn_eq_singleton hfree]
        exact .cons yields .nil
      · rw [List.append_nil] at hfound
        rw [hfound, List.reduceOption_singleton]
        exact List.append_nil _
    | some split =>
      obtain ⟨segment, rest⟩ := split
      obtain ⟨rfl, hfree⟩ := Text.splitOnce?_eq_some_iff.mp hsplit
      have free : ∀ c ∈ segment, (c != ']') = true := fun c hc => bne_iff_ne.mpr fun h => hfree (h ▸ hc)
      have hshorter : rest.length < n := by
        rw [← hlength, List.length_append, List.length_cons]
        omega
      obtain ⟨found, yields, hfound⟩ := exists_yields_segment kind free (']' :: rest) (by simp) starts pos
      obtain ⟨later, hlater, hrest⟩ := ih rest.length hshorter rest (pos + byteSize segment + 1) (some ']') rfl rfl
      refine ⟨found :: later, ?_, ?_⟩
      · rw [List.splitOn_append_cons_self_of_not_mem hfree]
        exact .cons yields hlater
      · rw [hfound, conjunctsFrom_bracket, hrest]
        cases found with
        | none => rfl
        | some conditional => rfl

/-! ### The conditionals of a query -/

/-- The place of a keyword in the list of conditionals. -/
def ConditionalKind.rank : ConditionalKind → Nat
  | not => 0
  | and => 1
  | or => 2

/-- Conditionals come by their keywords, and those of one keyword by their positions. -/
def Conditional.Precedes (conditional later : Conditional) : Prop :=
  conditional.kind.rank < later.kind.rank ∨
    conditional.kind = later.kind ∧ conditional.position < later.position

theorem kind_of_mem_conditionalsOf {query : String} {conditional : Conditional}
    (h : conditional ∈ conditionalsOf kind query) : conditional.kind = kind := by
  obtain ⟨⟨offset, clause⟩, -, hconditional⟩ := List.mem_filterMap.mp h
  obtain ⟨-, rfl⟩ := conditionalOf?_eq_some_iff.mp hconditional
  rfl

/-- A conditional begins within its clause. -/
theorem position_lt_of_conditionalOf? {offset : Nat} {clause : Clause} {conditional : Conditional}
    (h : conditionalOf? kind offset clause = some conditional) :
    offset ≤ conditional.position ∧ conditional.position < offset + byteSize (clause.lead ++ clause.body) := by
  obtain ⟨hnonempty, rfl⟩ := conditionalOf?_eq_some_iff.mp h
  obtain ⟨back, -, hsplit⟩ := Text.exists_of_trim clause.body
  have hpos : 0 < byteSize (Text.trim clause.body) := by
    obtain ⟨c, rest, hcons⟩ := List.exists_cons_of_ne_nil hnonempty
    rw [hcons, Text.byteSize_cons]
    exact Nat.add_pos_left c.utf8Size_pos _
  have hsize := congrArg byteSize hsplit
  rw [Text.byteSize_append, Text.byteSize_append] at hsize
  rw [Text.byteSize_append]
  constructor <;> dsimp only <;> omega

theorem pairwise_conditionalsOf (kind : ConditionalKind) (query : String) :
    (conditionalsOf kind query).Pairwise fun conditional later => conditional.position < later.position := by
  obtain ⟨rule, hrule, reads⟩ := exists_rule_clauses kind
  have hapart := Text.pairwise_allMatches rule (fun clause : Clause => byteSize (clause.lead ++ clause.body))
    (fun before cs clause after matched => ?_) query.toList
  · rw [conditionalsOf, hrule]
    refine List.Pairwise.filterMap _ ?_ hapart
    rintro ⟨offset, clause⟩ ⟨offset', clause'⟩ ⟨-, hoffset⟩ conditional hconditional later hlater
    obtain ⟨-, hposition⟩ := position_lt_of_conditionalOf? hconditional
    obtain ⟨hposition', -⟩ := position_lt_of_conditionalOf? hlater
    -- A conditional begins before its clause ends, and the next clause begins after that.
    dsimp only at hoffset
    omega
  · obtain ⟨close, hread⟩ := reads before cs clause after matched
    refine ⟨clause.lead ++ clause.body ++ close, by rw [hread, List.append_assoc _ close after], ?_⟩
    rw [Text.byteSize_append _ close]
    exact Nat.le_add_right _ _

/-- A clause is not blank, and there is no white space at its ends. -/
theorem trim_of_mem_conditionalsOf {query : String} {conditional : Conditional}
    (h : conditional ∈ conditionalsOf kind query) :
    conditional.expression.toList ≠ [] ∧ Text.trim conditional.expression.toList = conditional.expression.toList := by
  obtain ⟨⟨offset, clause⟩, -, hconditional⟩ := List.mem_filterMap.mp h
  obtain ⟨hnonempty, rfl⟩ := conditionalOf?_eq_some_iff.mp hconditional
  rw [String.toList_ofList]
  exact ⟨hnonempty, Text.trim_trim _⟩

theorem conditionalsOf_eq (hkind : kind ≠ .not) (query : String) :
    conditionalsOf kind query = conjunctsFrom kind 0 none query.toList := by
  cases kind
  case not => exact absurd rfl hkind
  case and => rfl
  case or => rfl

theorem filter_conditionals (kind : ConditionalKind) (query : String) :
    (conditionals query).filter (·.kind == kind) = conditionalsOf kind query := by
  have hsame (kind : ConditionalKind) : (conditionalsOf kind query).filter (·.kind == kind) =
      conditionalsOf kind query :=
    List.filter_eq_self.mpr fun conditional h => beq_iff_eq.mpr (kind_of_mem_conditionalsOf h)
  have hother {other kind : ConditionalKind} (hne : other ≠ kind) :
      (conditionalsOf other query).filter (·.kind == kind) = [] :=
    List.filter_eq_nil_iff.mpr fun conditional h => by simpa [kind_of_mem_conditionalsOf h] using hne
  rw [conditionals, List.filter_append, List.filter_append]
  cases kind
  case not => rw [hsame, hother (by decide), hother (by decide), List.append_nil, List.append_nil]
  case and => rw [hother (by decide), hsame, hother (by decide), List.nil_append, List.append_nil]
  case or => rw [hother (by decide), hother (by decide), hsame, List.append_nil, List.nil_append]

/-- The conditionals of a query come by keyword and position, and each is a trimmed clause that stands at its position.
Of `and` and of `or` a query has what its segments yield. -/
theorem conditionals_segments (query : String) :
    (conditionals query).Pairwise Conditional.Precedes ∧
    (∀ conditional ∈ conditionals query,
      conditional.expression.toList ≠ [] ∧
      Text.trim conditional.expression.toList = conditional.expression.toList ∧
      Text.slice? query.toList conditional.position
        (conditional.position + byteSize conditional.expression.toList) = some conditional.expression.toList) ∧
    ∀ kind, kind ≠ .not → ∃ found, List.Forall₂ (Yields kind) (segments query.toList) found ∧
      (conditionals query).filter (·.kind == kind) = found.reduceOption := by
  refine ⟨?_, fun conditional h => ?_, fun kind hkind => ?_⟩
  · -- Within a keyword they come by position, and the keywords come by rank.
    have hsame (kind : ConditionalKind) : (conditionalsOf kind query).Pairwise Conditional.Precedes := by
      apply (pairwise_conditionalsOf kind query).imp_of_mem
      intro conditional later h hlater hposition
      rw [Conditional.Precedes, kind_of_mem_conditionalsOf h, kind_of_mem_conditionalsOf hlater]
      exact .inr ⟨rfl, hposition⟩
    have hother {kind kind' : ConditionalKind} (hrank : kind.rank < kind'.rank) :
        ∀ conditional ∈ conditionalsOf kind query, ∀ later ∈ conditionalsOf kind' query,
          conditional.Precedes later := by
      intro conditional h later hlater
      rw [Conditional.Precedes, kind_of_mem_conditionalsOf h, kind_of_mem_conditionalsOf hlater]
      exact .inl hrank
    rw [conditionals, List.pairwise_append, List.pairwise_append]
    refine ⟨⟨hsame .not, hsame .and, hother (by decide)⟩, hsame .or, fun conditional h => ?_⟩
    rcases List.mem_append.mp h with h | h
    · exact hother (by decide) conditional h
    · exact hother (by decide) conditional h
  · have hmem : ∃ kind, conditional ∈ conditionalsOf kind query := by
      rw [conditionals, List.mem_append, List.mem_append] at h
      rcases h with (h | h) | h
      · exact ⟨_, h⟩
      · exact ⟨_, h⟩
      · exact ⟨_, h⟩
    obtain ⟨kind, hmem⟩ := hmem
    obtain ⟨nonempty, trimmed⟩ := trim_of_mem_conditionalsOf hmem
    obtain ⟨front, back, split, hposition⟩ := exists_of_mem_conditionals h
    refine ⟨nonempty, trimmed, Text.slice?_eq_some_iff.mpr ⟨front, back, split, hposition.symm, ?_⟩⟩
    rw [hposition]
  · obtain ⟨found, yields, hfound⟩ := exists_yields kind query.toList 0 none rfl
    exact ⟨found, yields, by rw [filter_conditionals, conditionalsOf_eq hkind, hfound]⟩

/-- A clause of `or` within one of `and` is a conditional of its own. Of each keyword only the first clause of a
segment is found. -/
example : conditionals "//A[@B and not(@C) or @D and @E]/F[ or ]" =
    [⟨.not, "@C", 15⟩, ⟨.and, "not(@C) or @D and @E", 11⟩, ⟨.or, "@D and @E", 22⟩] := by
  decide +kernel

end Exemplar.Query
