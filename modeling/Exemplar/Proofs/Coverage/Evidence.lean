import Exemplar.Coverage.Evidence
import Exemplar.Proofs.Query.Attribute
import Exemplar.Proofs.Text.Search
import Exemplar.Proofs.Text.Word

/-!
# Evidence is never lost

Evidence in example text stays evidence when more examples follow. What could go wrong are the matches
near the old end of the text. A line break follows there, which belongs to no word, no name and no value;
so words still end where they ended and values do not grow. An annotation that only the longer text
completes begins with the name, and behind that had nothing but white space and its colon: no other
annotation can have begun there.
-/

namespace Exemplar.Coverage

open Text (isBlank isIdentChar isWordBoundary isWordChar)

/-- Whether a longer text has all of a text in front of a line break. An empty text needs no line break. -/
def ContinuedBy (text longer : List Char) : Prop :=
  text = [] ∨ ∃ rest, longer = text ++ '\n' :: rest

theorem ContinuedBy.lower {text longer : List Char} (h : ContinuedBy text longer) :
    ContinuedBy (Text.lower text) (Text.lower longer) := by
  rcases h with rfl | ⟨rest, rfl⟩
  · exact Or.inl rfl
  · refine Or.inr ⟨Text.lower rest, ?_⟩
    simp only [Text.lower, List.map_append, List.map_cons]
    rfl

namespace Content

variable {content longer : Content}

/-! ### Words and texts -/

theorem lowered_continuedBy (h : ContinuedBy content.text longer.text) :
    ContinuedBy content.lowered longer.lowered := by
  rw [content.lowered_eq, longer.lowered_eq]
  exact h.lower

theorem containsWord_of_continuedBy (h : ContinuedBy content.text longer.text) {word : String}
    (has : content.containsWord word = true) : longer.containsWord word = true := by
  simp only [containsWord, Bool.and_eq_true, List.any_eq_true] at has ⊢
  obtain ⟨nonempty, found, hfound, starts, ends⟩ := has
  refine ⟨nonempty, ?_⟩
  rcases lowered_continuedBy h with hnone | ⟨rest, hlonger⟩
  · rw [hnone] at hfound
    cases hfound
  · rw [hlonger]
    -- What follows the word is what followed it before, or the line break.
    refine ⟨_, Text.exists_mem_occurrencesFrom_append ('\n' :: rest) hfound, starts, ?_⟩
    cases hafter : found.after with
    | none => rfl
    | some c => simpa [hafter] using ends

theorem containsText_of_continuedBy (h : ContinuedBy content.text longer.text) {text : String}
    (has : content.containsText text = true) : longer.containsText text = true := by
  simp only [containsText, Bool.and_eq_true] at has ⊢
  refine ⟨has.1, ?_⟩
  rcases lowered_continuedBy h with hnone | ⟨rest, hlonger⟩
  · rw [hnone] at has
    cases has.2
  · rw [hlonger]
    exact Text.contains_append has.2 _

theorem isBlank_of_continuedBy (h : ContinuedBy content.text longer.text)
    (has : content.isBlank = false) : longer.isBlank = false := by
  rcases h with hnone | ⟨rest, hlonger⟩
  · rw [Content.isBlank, hnone] at has
    cases has
  · rw [Content.isBlank, Text.isBlankText] at has ⊢
    rw [hlonger, List.all_append, has, Bool.false_and]

end Content

/-! ### Annotations -/

section Annotations

variable {name : List Char}

/-- How an annotation is spelled: the name, a colon and a value, with white space around the colon. -/
theorem annotationOf_eq_some_iff {cs : List Char} {before : Option Char}
    {found : List Char × List Char} :
    annotationOf name before cs = some found ↔
      isWordBoundary before cs.head? = true ∧ ∃ named colon,
        Text.afterFolded? Text.sameFold name cs = some named ∧ Text.trimStart named = ':' :: colon ∧
        (Text.trimStart colon).head?.any isValueChar = true ∧
        found = ((Text.trimStart colon).takeWhile isValueChar,
          (Text.trimStart colon).dropWhile isValueChar) := by
  constructor
  · intro h
    unfold annotationOf at h
    split at h
    next boundary =>
      obtain ⟨named, hnamed, h⟩ := Option.bind_eq_some_iff.mp h
      obtain ⟨colon, hcolon, h⟩ := Option.bind_eq_some_iff.mp h
      obtain ⟨starts, hfound⟩ := Option.ite_none_right_eq_some.mp h
      have split := List.append_eq_of_isPrefixOf?_eq_some hcolon
      exact ⟨boundary, named, colon, hnamed, split.symm, starts, (Option.some.inj hfound).symm⟩
    next => cases h
  · rintro ⟨boundary, named, colon, hnamed, hcolon, starts, rfl⟩
    have hhead : [':'].isPrefixOf? (':' :: colon) = some colon :=
      List.isPrefixOf?_eq_some_iff_append_eq.mpr rfl
    simp only [annotationOf, boundary, if_true, hnamed, hcolon, hhead, starts,
      Option.bind_eq_bind, Option.bind_some]

/-- Unless it is all white space, a text that goes on goes on behind its trimmed part. -/
private theorem trimStart_append {cs : List Char} (h : Text.trimStart cs ≠ []) (tail : List Char) :
    Text.trimStart (cs ++ tail) = Text.trimStart cs ++ tail := by
  have hopen : ¬ (cs.dropWhile isBlank).isEmpty = true := mt List.isEmpty_iff.mp h
  rw [Text.trimStart, List.dropWhile_append, if_neg hopen, Text.trimStart]

private theorem takeWhile_isValueChar (value rest : List Char) :
    (value ++ '\n' :: rest).takeWhile isValueChar = value.takeWhile isValueChar := by
  rw [List.takeWhile_append]
  split
  next whole =>
    have hbreak : isValueChar '\n' = false := by decide
    rw [List.takeWhile_cons_of_neg (by simp [hbreak]), List.append_nil,
      (List.takeWhile_prefix isValueChar).eq_of_length whole]
  next => rfl

private theorem dropWhile_isValueChar (value rest : List Char) :
    (value ++ '\n' :: rest).dropWhile isValueChar =
      value.dropWhile isValueChar ++ '\n' :: rest := by
  have hbreak : isValueChar '\n' = false := by decide
  rw [List.dropWhile_append]
  split
  next hnone => simp [List.isEmpty_iff.mp hnone, hbreak]
  next => rfl

/-- A name that ends in a line break is none of an identifier. -/
private theorem sameFold_newline (identifier : ∀ c ∈ name, isIdentChar c = true) :
    ∀ c ∈ name, Text.sameFold c '\n' = false := by
  intro c hc
  by_contra same
  have hword := Text.isWordChar_of_sameFold (identifier c hc) (by simpa using same)
  cases hword

/-- An annotation is read in the same way when the text goes on. -/
theorem annotationOf_append {cs value after : List Char} {before : Option Char}
    (identifier : ∀ c ∈ name, isIdentChar c = true) (rest : List Char) (nonempty : cs ≠ [])
    (h : annotationOf name before cs = some (value, after)) :
    annotationOf name before (cs ++ '\n' :: rest) = some (value, after ++ '\n' :: rest) := by
  obtain ⟨boundary, named, colon, hnamed, hcolon, starts, hfound⟩ := annotationOf_eq_some_iff.mp h
  obtain ⟨rfl, rfl⟩ := Prod.mk.inj hfound
  have hvalue : Text.trimStart colon ≠ [] := by
    intro hnone
    rw [hnone] at starts
    cases starts
  rw [annotationOf_eq_some_iff]
  refine ⟨?_, named ++ '\n' :: rest, colon ++ '\n' :: rest, ?_, ?_, ?_, ?_⟩
  · rwa [List.head?_append_of_ne_nil cs nonempty]
  · rw [Text.afterFolded?_append (sameFold_newline identifier), hnamed]
    rfl
  · rw [trimStart_append (by simp [hcolon]), hcolon]
    rfl
  · rwa [trimStart_append hvalue, List.head?_append_of_ne_nil _ hvalue]
  · rw [trimStart_append hvalue, takeWhile_isValueChar, dropWhile_isValueChar]

/-- An annotation that only the longer text completes leaves room for nothing but white space and its colon
behind the name. -/
private theorem exists_of_annotationOf_late {cs rest : List Char} {before : Option Char}
    {found : List Char × List Char} (identifier : ∀ c ∈ name, isIdentChar c = true)
    (nonempty : cs ≠ []) (hnone : annotationOf name before cs = none)
    (h : annotationOf name before (cs ++ '\n' :: rest) = some found) :
    ∃ written named, cs = written ++ named ∧
      List.Forall₂ (fun p c => Text.sameFold p c = true) name written ∧
      ∀ c ∈ named, isBlank c = true ∨ c = ':' := by
  obtain ⟨boundary, longer, colon, hlonger, hcolon, starts, -⟩ := annotationOf_eq_some_iff.mp h
  -- The name was there before: no line break is part of it.
  rw [List.head?_append_of_ne_nil cs nonempty] at boundary
  rw [Text.afterFolded?_append (sameFold_newline identifier)] at hlonger
  obtain ⟨named, hnamed, rfl⟩ := Option.map_eq_some_iff.mp hlonger
  obtain ⟨written, rfl, hwritten⟩ := Text.afterFolded?_eq_some_iff.mp hnamed
  refine ⟨written, named, rfl, hwritten, ?_⟩
  -- Behind the name there is white space, a colon if there is room for it, and white space again. Had
  -- anything followed that, the annotation would have been complete before.
  have hsplit : named = named.takeWhile isBlank ++ Text.trimStart named :=
    List.takeWhile_append_dropWhile.symm
  have hblank (cs : List Char) : ∀ c ∈ cs.takeWhile isBlank, isBlank c = true :=
    fun c hc => List.mem_takeWhile_imp hc
  intro c hc
  by_cases hopen : Text.trimStart named = []
  · rw [hsplit, hopen, List.append_nil] at hc
    exact Or.inl (hblank named c hc)
  · rw [trimStart_append hopen] at hcolon
    obtain ⟨d, value, hvalue⟩ := List.exists_cons_of_ne_nil hopen
    rw [hvalue, List.cons_append, List.cons.injEq] at hcolon
    obtain ⟨rfl, rfl⟩ := hcolon
    by_cases hstop : Text.trimStart value = []
    · have hvalueBlank : value = value.takeWhile isBlank := by
        have := List.takeWhile_append_dropWhile (p := isBlank) (l := value)
        rw [Text.trimStart] at hstop
        rwa [hstop, List.append_nil, eq_comm] at this
      rw [hsplit, hvalue, List.mem_append, List.mem_cons] at hc
      rcases hc with hc | rfl | hc
      · exact Or.inl (hblank named c hc)
      · exact Or.inr rfl
      · rw [hvalueBlank] at hc
        exact Or.inl (hblank value c hc)
    · rw [trimStart_append hstop, List.head?_append_of_ne_nil _ hstop] at starts
      rw [annotationOf_eq_some_iff.mpr ⟨boundary, named, value, hnamed, hvalue, starts, rfl⟩] at hnone
      cases hnone

private theorem isWordChar_of_written {written : List Char}
    (identifier : ∀ c ∈ name, isIdentChar c = true)
    (hwritten : List.Forall₂ (fun p c => Text.sameFold p c = true) name written) :
    ∀ c ∈ written, isWordChar c = true := by
  induction hwritten with
  | nil => simp
  | cons same _ ih =>
    intro c hc
    rcases List.mem_cons.mp hc with rfl | hc
    · exact Text.isWordChar_of_sameFold (identifier _ List.mem_cons_self) same
    · exact ih (fun c hc => identifier c (List.mem_cons_of_mem _ hc)) c hc

/-- Where a name is followed by nothing but white space and a colon, no annotation begins behind the first
character of the name: a name is a word, and words begin at word boundaries. -/
private theorem matchesFrom_annotationOf_eq_nil {written named cs : List Char} {c : Char}
    (identifier : ∀ c ∈ name, isIdentChar c = true) (nonempty : name ≠ [])
    (split : c :: cs = written ++ named)
    (hwritten : List.Forall₂ (fun p c => Text.sameFold p c = true) name written)
    (hnamed : ∀ c ∈ named, isBlank c = true ∨ c = ':') (pos skip : Nat) :
    Text.matchesFrom (annotationOf name) pos skip (some c) cs = [] := by
  rw [List.eq_nil_iff_forall_not_mem]
  intro found h
  obtain ⟨front, rest, after, rfl, -, matched, -⟩ := Text.exists_of_mem_matchesFrom h
  obtain ⟨boundary, following, colon, hfollowing, -⟩ := annotationOf_eq_some_iff.mp matched
  obtain ⟨again, rfl, hagain⟩ := Text.afterFolded?_eq_some_iff.mp hfollowing
  obtain ⟨p, ps, rfl⟩ := List.exists_cons_of_ne_nil nonempty
  obtain ⟨d, ds, hd, -, rfl⟩ := List.forall₂_cons_left_iff.mp hagain
  -- An annotation that begins further on begins with a word character, either inside of the name or behind
  -- it.
  have hword : isWordChar d = true :=
    Text.isWordChar_of_sameFold (identifier p List.mem_cons_self) hd
  rcases List.append_eq_append_iff.mp (show (c :: front) ++ (d :: ds ++ following) = _ from split)
    with ⟨inside, rfl, -⟩ | ⟨behind, -, rfl⟩
  -- Inside of the name it has a word character before it, so it is not at a word boundary.
  · have hbefore : isWordChar ((c :: front).getLast (List.cons_ne_nil c front)) = true := by
      apply isWordChar_of_written identifier hwritten
      exact List.mem_append_left _ (List.getLast_mem _)
    have hlast : front.getLast?.or (some c) = some ((c :: front).getLast (List.cons_ne_nil c front)) := by
      rw [← List.getLast?_eq_some_getLast, List.getLast?_cons]
      cases front.getLast? <;> rfl
    rw [hlast] at boundary
    simp [isWordBoundary, hbefore, hword] at boundary
  -- Behind the name there are no word characters.
  · rcases hnamed d (by simp) with hblank | rfl
    · rw [Text.isWordChar_of_isBlank hblank] at hword
      cases hword
    · cases hword

end Annotations

/-- An identifier keeps the values that annotations give to it. -/
theorem Content.annotatedValues_sublist {content longer : Content} {name : String}
    (h : ContinuedBy content.text longer.text) (nonempty : name.toList ≠ [])
    (identifier : ∀ c ∈ name.toList, isIdentChar c = true) :
    (content.annotatedValues name).Sublist (longer.annotatedValues name) := by
  rcases h with hnone | ⟨rest, hlonger⟩
  · simp [Content.annotatedValues, Text.allMatches, hnone, Text.matchesFrom]
  · rw [Content.annotatedValues, Content.annotatedValues, hlonger]
    apply List.Sublist.filterMap
    apply Text.matchesFrom_sublist_append
    · intro before cs value after hcs matched
      exact annotationOf_append identifier rest hcs matched
    · intro before c cs found hnone matched
      obtain ⟨written, named, split, hwritten, hnamed⟩ :=
        exists_of_annotationOf_late identifier (List.cons_ne_nil c cs) hnone matched
      exact matchesFrom_annotationOf_eq_nil identifier nonempty split hwritten hnamed

/-- An attribute that is evidenced stays so. -/
theorem Content.evidences_of_continuedBy {content longer : Content} {query name : String}
    (h : ContinuedBy content.text longer.text) (nonempty : name.toList ≠ [])
    (identifier : ∀ c ∈ name.toList, isIdentChar c = true)
    (has : content.evidences query name = true) : longer.evidences query name = true := by
  simp only [Content.evidences, Bool.or_eq_true, Bool.not_eq_true', List.any_eq_true] at has ⊢
  rcases has with (hword | hvalues) | ⟨literal, hliteral, htext⟩
  · exact Or.inl (Or.inl (Content.containsWord_of_continuedBy h hword))
  · refine Or.inl (Or.inr ?_)
    rw [List.isEmpty_eq_false_iff_exists_mem] at hvalues ⊢
    obtain ⟨value, hvalue⟩ := hvalues
    exact ⟨value, (Content.annotatedValues_sublist h nonempty identifier).subset hvalue⟩
  · exact Or.inr ⟨literal, hliteral, Content.containsText_of_continuedBy h htext⟩

end Exemplar.Coverage
