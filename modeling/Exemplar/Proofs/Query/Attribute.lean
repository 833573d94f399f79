import Exemplar.Proofs.Text.Search
import Exemplar.Query.Attribute
import Mathlib.Data.List.TakeWhile

/-!
# Attributes and operators stand in the query

Whatever is taken for an attribute is an identifier that the query has behind an `@`, up to where the
identifier ends. Whatever is taken for an operator stands in the query between two quotation marks.

An identifier that also starts where it stands is a run. A search finds it there, for nothing can overlap it.
-/

namespace Exemplar.Query

/-- An identifier, with what stands before and after it in a text. -/
structure IdentifierIn (name before after cs : List Char) : Prop where
  split : cs = before ++ name ++ after
  nonempty : name ≠ []
  chars : ∀ c ∈ name, Text.isIdentChar c = true
  ends : after.head?.any Text.isIdentChar = false

/-- The identifier at the head of a text. -/
theorem identifierIn_head {cs : List Char} (starts : cs.head?.any Text.isIdentStart = true) :
    IdentifierIn (cs.takeWhile Text.isIdentChar) [] (cs.dropWhile Text.isIdentChar) cs where
  split := List.takeWhile_append_dropWhile.symm
  nonempty := by
    cases cs with
    | nil => cases starts
    | cons c cs =>
      have hc : Text.isIdentChar c = true := Text.isIdentChar_of_isIdentStart (by simpa using starts)
      simp [hc]
  chars _ hc := List.mem_takeWhile_imp hc
  ends := Text.any_head?_dropWhile Text.isIdentChar cs

/-! ### Runs -/

/-- A maximal run of identifier characters, with what stands before and after it in a text. -/
structure RunIn (run before after cs : List Char) : Prop extends IdentifierIn run before after cs where
  starts : before.getLast?.any Text.isIdentChar = false

section

variable {word before after cs : List Char}

/-- A run is found by itself. -/
theorem RunIn.mem_occurrences (found : RunIn word before after cs) :
    (⟨Text.byteSize before, before.getLast?, after.head?⟩ : Text.Occurrence) ∈ Text.occurrences word cs := by
  have foreign : ∀ c, before.getLast? = some c → c ∉ word := by
    intro c hlast hmem
    have hident := found.starts
    rw [hlast, Option.any_some, found.chars c hmem] at hident
    cases hident
  rw [found.split]
  exact Text.mem_occurrences_of_clear found.nonempty before after (Text.clear_of_getLast? after foreign)

/-- An identifier that is found between other characters is a run. -/
theorem exists_runIn_of_mem_occurrences (nonempty : word ≠ [])
    (chars : ∀ c ∈ word, Text.isIdentChar c = true) {found : Text.Occurrence}
    (h : found ∈ Text.occurrences word cs) (starts : found.before.any Text.isIdentChar = false)
    (ends : found.after.any Text.isIdentChar = false) : ∃ before after, RunIn word before after cs ∧
      found = ⟨Text.byteSize before, before.getLast?, after.head?⟩ := by
  obtain ⟨before, after, split, offset, left, right⟩ := Text.exists_of_mem_occurrences h
  rw [left] at starts
  rw [right] at ends
  refine ⟨before, after, ⟨⟨split, nonempty, chars, ends⟩, starts⟩, ?_⟩
  rw [← offset, ← left, ← right]

end

/-! ### References -/

theorem eq_takeWhile_of_attributeName? {cs name : List Char} (h : attributeName? cs = some name) :
    cs.head?.any Text.isIdentStart = true ∧ name = cs.takeWhile Text.isIdentChar := by
  rw [attributeName?] at h
  split at h
  next starts =>
    refine ⟨starts, ?_⟩
    split at h <;> cases h <;> rfl
  next => cases h

theorem exists_of_mem_attributeRefsFrom {pos : Nat} {quote : Option Char} {cs : List Char}
    {reference : String × Nat} (h : reference ∈ attributeRefsFrom pos quote cs) :
    ∃ front back, IdentifierIn reference.1.toList (front ++ ['@']) back cs ∧
      reference.2 = pos + Text.byteSize front := by
  induction cs generalizing pos quote with
  | nil => cases h
  | cons c cs ih =>
    rcases List.mem_append.mp h with h | h
    · split at h
      next opens =>
        obtain ⟨name, hname, rfl⟩ := Option.map_eq_some_iff.mp (Option.mem_toList.mp h)
        obtain ⟨starts, rfl⟩ := eq_takeWhile_of_attributeName? hname
        obtain ⟨-, rfl⟩ : quote.isNone = true ∧ c = '@' := by simpa using opens
        -- Only an `@` outside of quotes starts a reference; the name is all that follows of an identifier.
        have here := identifierIn_head starts
        refine ⟨[], cs.dropWhile Text.isIdentChar, ⟨?_, ?_, ?_, here.ends⟩, rfl⟩
        · simp
        · simpa using here.nonempty
        · simpa using here.chars
      next => cases h
    · obtain ⟨front, back, found, hoffset⟩ := ih h
      refine ⟨c :: front, back,
        ⟨congrArg (c :: ·) found.split, found.nonempty, found.chars, found.ends⟩, ?_⟩
      rw [hoffset, Text.byteSize_cons, Nat.add_assoc]

/-- Every reference of a query to an attribute is an identifier behind the `@` at its offset. -/
theorem exists_of_mem_attributeRefs {query : String} {reference : String × Nat}
    (h : reference ∈ attributeRefs query) :
    ∃ front back, IdentifierIn reference.1.toList (front ++ ['@']) back query.toList ∧
      reference.2 = Text.byteSize front := by
  obtain ⟨front, back, found, hoffset⟩ := exists_of_mem_attributeRefsFrom h
  exact ⟨front, back, found, hoffset.trans (Nat.zero_add _)⟩

/-- Every attribute of a query is referred to. -/
theorem exists_ref_of_mem_attributes {query name : String} (h : name ∈ attributes query) :
    ∃ offset, (name, offset) ∈ attributeRefs query := by
  rw [attributes, List.mem_eraseDups, List.mem_filter] at h
  obtain ⟨⟨_, offset⟩, hreference, rfl⟩ := List.mem_map.mp h.1
  exact ⟨offset, hreference⟩

/-- Every attribute of a query is an identifier that stands behind an `@` of the query. -/
theorem exists_of_mem_attributes {query name : String} (h : name ∈ attributes query) :
    ∃ front back, IdentifierIn name.toList (front ++ ['@']) back query.toList := by
  obtain ⟨offset, hreference⟩ := exists_ref_of_mem_attributes h
  obtain ⟨front, back, found, -⟩ := exists_of_mem_attributeRefs hreference
  exact ⟨front, back, found⟩

/-! ### Operators -/

theorem exists_of_operatorComparison {before : Option Char} {cs value after : List Char}
    (h : operatorComparison before cs = some (value, after)) :
    ∃ q front back, Text.isQuote q = true ∧ cs = front ++ (q :: value ++ [q]) ++ back := by
  unfold operatorComparison at h
  obtain ⟨named, hnamed, h⟩ := Option.bind_eq_some_iff.mp h
  obtain ⟨compared, hcompared, h⟩ := Option.bind_eq_some_iff.mp h
  obtain ⟨q, hquote, hvalue⟩ := Text.exists_of_quoted? h
  have hcompared := List.append_eq_of_isPrefixOf?_eq_some hcompared
  refine ⟨q, '@' :: operatorAttribute.toList ++ named.takeWhile Text.isBlank ++ ['='] ++
    compared.takeWhile Text.isBlank, after, hquote, ?_⟩
  -- The comparison is put together again from its end: the quoted value, then what is before it.
  have hlast : compared = compared.takeWhile Text.isBlank ++ (q :: value ++ q :: after) := by
    rw [← hvalue]
    exact List.takeWhile_append_dropWhile.symm
  have hfirst : named = named.takeWhile Text.isBlank ++ (['='] ++ compared) := by
    rw [hcompared]
    exact List.takeWhile_append_dropWhile.symm
  rw [← List.append_eq_of_isPrefixOf?_eq_some hnamed]
  conv_lhs => rw [hfirst, hlast]
  simp only [List.append_assoc, List.cons_append, List.nil_append]

/-- Every operator of a query stands in the query between two quotation marks of the same sort. -/
theorem exists_of_mem_operators {query operator : String} (h : operator ∈ operators query) :
    ∃ q front back, Text.isQuote q = true ∧
      query.toList = front ++ (q :: operator.toList ++ [q]) ++ back := by
  rw [operators, List.mem_eraseDups] at h
  obtain ⟨found, hfound, rfl⟩ := List.mem_map.mp h
  obtain ⟨before, rest, after, split, -, matched, -⟩ := Text.exists_of_mem_allMatches hfound
  obtain ⟨q, front, back, hquote, rfl⟩ := exists_of_operatorComparison matched
  refine ⟨q, before ++ front, back, hquote, ?_⟩
  rw [split, String.toList_ofList]
  simp only [List.append_assoc]

end Exemplar.Query
