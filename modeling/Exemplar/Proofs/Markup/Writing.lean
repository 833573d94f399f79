import Exemplar.Proofs.Markup.Prefix
import Exemplar.Proofs.Markup.Reference
import Exemplar.Proofs.Text.Search
import Mathlib.Data.List.Nodup
import Mathlib.Data.List.TakeWhile

/-!
# Elements as they can be written

A tag with plain names and written values is read as that tag, and a text is read back from either of the ways to
write it, wherever in a document they stand. What is read depends on one more character, which must not go on
with a name or with the text.
-/

namespace Exemplar.Markup

open Scan
open Event (attributeAfterSpace? qname qualify? rawAttribute)

variable {start first last middle stop : Cursor} {name value : List Char} {cs : List Char}

/-! ### Names -/

/-- Whether a text is a name without a prefix. -/
def isPlainName (name : List Char) : Bool :=
  name.head?.any isNameStart && name.all isNameChar && !name.contains ':'

theorem exists_cons_of_plain (h : isPlainName name = true) :
    ∃ c others, name = c :: others ∧ isNameStart c = true := by
  cases name with
  | nil => cases h
  | cons c others =>
    simp only [isPlainName, Bool.and_eq_true] at h
    exact ⟨c, others, rfl, h.1.1⟩

/-- No sign that means something in a tag starts a name. -/
theorem ne_of_isNameStart {c d : Char} (h : isNameStart c = true) (hd : isNameStart d = false) : c ≠ d := by
  rintro rfl
  rw [h] at hd
  cases hd

theorem qualify?_of_plain (h : isPlainName name = true) : qualify? name = some ⟨[], name⟩ := by
  simp only [isPlainName, Bool.and_eq_true, Bool.not_eq_true', List.contains_eq_mem, decide_eq_false_iff_not] at h
  obtain ⟨⟨hhead, -⟩, hcolon⟩ := h
  have hsplit : Text.splitOnce? ':' name = none := by
    have hnone : name.dropWhile (· != ':') = [] := by
      rw [List.dropWhile_eq_nil_iff]
      exact fun c hc => bne_iff_ne.mpr (ne_of_mem_of_not_mem hc hcolon)
    rw [Text.splitOnce?, hnone]
  rw [qualify?, hsplit]
  simp [hhead]

theorem run_qname (h : isPlainName name = true) (reads : start.Reads name stop)
    (hstop : stop.rest.head?.any isNameChar = false) : qname.run start = some (⟨[], name⟩, stop) := by
  have hchars : ∀ c ∈ name, isNameChar c = true := by
    simp only [isPlainName, Bool.and_eq_true] at h
    exact List.all_eq_true.mp h.1.2
  refine run_bind_eq_some_iff.mpr ⟨name, stop, run_takeWhile_eq_some_iff.mpr ⟨reads, hchars, hstop⟩, ?_⟩
  rw [qualify?_of_plain h]
  rfl

/-! ### Attributes -/

/-- An attribute that can be written with its name and value as they are: it has no prefix, declares none, and
its value keeps its white space when it is read. -/
structure RawAttribute.IsPlain (raw : RawAttribute) : Prop where
  space : raw.name.space = []
  name : isPlainName raw.name.localName = true
  declares : raw.name.localName ≠ "xmlns".toList
  legal : ∀ c ∈ raw.value, isLegal c = true
  spaces : ∀ c ∈ raw.value, isSpace c = true → c = ' '

/-- An attribute as a tag may write it, with the space before it. -/
def RawAttribute.written (raw : RawAttribute) : List Char :=
  ' ' :: (raw.name.localName ++ "=\"".toList ++ escape raw.value ++ "\"".toList)

theorem run_rawAttribute (hname : isPlainName name = true) (legal : ∀ c ∈ value, isLegal c = true)
    (reads : start.Reads (name ++ "=\"".toList ++ escape value ++ "\"".toList) stop) :
    rawAttribute.run start = some ((⟨[], name⟩, escape value), stop) := by
  obtain ⟨closed, reads, readsClose⟩ := reads.exists_of_append
  obtain ⟨opened, reads, readsValue⟩ := reads.exists_of_append
  obtain ⟨named, readsName, readsOpen⟩ := reads.exists_of_append
  obtain ⟨equated, hnamed, readsEquals, readsQuote⟩ := Cursor.Reads.exists_of_cons readsOpen
  -- Each part of the attribute is read from one of these places to the next one.
  have hequated : equated.rest = '"' :: opened.rest := readsQuote.rest
  have hclosed : closed.rest = '"' :: stop.rest := readsClose.rest
  have hread := run_qname hname readsName (by rw [hnamed]; rfl)
  have hskip : skipSpace.run named = some ((), named) := run_skipSpace (.refl _) (List.forall_mem_nil _) (by rw [hnamed]; rfl)
  have hequals : (expect "=").run named = some ((), equated) := run_expect_eq_some_iff.mpr readsEquals
  have hskipOpen : skipSpace.run equated = some ((), equated) :=
    run_skipSpace (.refl _) (List.forall_mem_nil _) (by rw [hequated]; rfl)
  have hopen : (take 1).run equated = some (['"'], opened) := by
    refine run_take_eq_some_iff.mpr ⟨readsQuote, ?_⟩
    rw [hequated]
    simp
  have hvalue : (takeUntil fun rest => rest.head?.any fun c => c == '"' || c == '<').run opened =
      some (escape value, closed) := by
    refine run_takeUntil_eq_some_iff.mpr ⟨readsValue, fun c hc => isLegal_of_mem_escape legal hc, ?_, Or.inr ?_⟩
    · -- No quote and no tag begins in a written value.
      intro back hback hne
      obtain ⟨c, others, rfl⟩ := List.exists_cons_of_ne_nil hne
      have hc : c ∈ escape value := hback.subset List.mem_cons_self
      have hquote : c ≠ '"' := ne_of_mem_of_not_mem hc (not_mem_escape (by decide))
      have hopening : c ≠ '<' := ne_of_mem_of_not_mem hc (not_mem_escape (by decide))
      simp [hquote, hopening]
    · rw [hclosed]
      rfl
  have hclose : (expect "\"").run closed = some ((), stop) := run_expect_eq_some_iff.mpr readsClose
  rw [rawAttribute, run_bind_of_run hread, run_bind_of_run hskip, run_bind_of_run hequals,
    run_bind_of_run hskipOpen, run_bind_of_run hopen]
  refine (run_bind_of_run hvalue).trans ?_
  exact run_bind_of_run hclose

theorem run_attributeAfterSpace? {raw : RawAttribute} (plain : raw.IsPlain) (reads : start.Reads raw.written stop) :
    attributeAfterSpace?.run start = some (some raw, stop) := by
  obtain ⟨spaced, hstart, readsSpace, reads⟩ := reads.exists_of_cons
  obtain ⟨c, others, hname, hc⟩ := exists_cons_of_plain plain.name
  have hspaced : spaced.rest = c :: (others ++ "=\"".toList ++ escape raw.value ++ "\"".toList ++ stop.rest) := by
    rw [reads.rest, hname]
    simp
  -- The name begins with no white space, so only the space before it is passed over.
  have hskip : skipSpace.run start = some ((), spaced) := by
    refine run_skipSpace readsSpace (List.forall_mem_singleton.mpr rfl) ?_
    have apart : ∀ d ∈ " \t\n\r".toList, c ≠ d := by
      have signs : " \t\n\r".toList.all (!isNameStart ·) = true := by decide
      intro d hd
      have hsign := List.all_eq_true.mp signs d hd
      exact ne_of_isNameStart hc (by simpa using hsign)
    rw [hspaced]
    simpa [isSpace, and_assoc] using apart
  -- Nor does it begin like the end of the tag.
  have hclose : ">".toList.isPrefixOf spaced.rest = false := by
    have apart : '>' ≠ c := (ne_of_isNameStart hc (by decide)).symm
    rw [hspaced]
    simp [List.isPrefixOf, apart]
  have hslash : "/".toList.isPrefixOf spaced.rest = false := by
    have apart : '/' ≠ c := (ne_of_isNameStart hc (by decide)).symm
    rw [hspaced]
    simp [List.isPrefixOf, apart]
  rw [attributeAfterSpace?, run_rest_bind, hstart]
  refine run_bind_eq_some_iff.mpr ⟨(), spaced, hskip, ?_⟩
  rw [run_startsWith_bind, run_startsWith_bind, hclose, hslash]
  refine run_bind_eq_some_iff.mpr ⟨_, stop, run_rawAttribute plain.name plain.legal reads, ?_⟩
  obtain ⟨⟨space, localName⟩, value⟩ := raw
  obtain rfl : space = [] := plain.space
  dsimp only
  rw [attributeValue?_escape plain.spaces]
  rfl

/-- A tag ends where no attribute comes. -/
theorem run_attributeAfterSpace?_of_end (hend : start.rest.head? = some '>' ∨ start.rest.head? = some '/') :
    attributeAfterSpace?.run start = some (none, start) := by
  have hspace : start.rest.head?.any isSpace = false := by
    rcases hend with hend | hend <;> rw [hend] <;> rfl
  have hnext : (">".toList.isPrefixOf start.rest || "/".toList.isPrefixOf start.rest) = true := by
    rcases hend with hend | hend <;> obtain ⟨others, hrest⟩ := List.head?_eq_some_iff.mp hend <;>
      simp [hrest]
  rw [attributeAfterSpace?, run_rest_bind]
  refine run_bind_eq_some_iff.mpr ⟨(), start, run_skipSpace (.refl _) (List.forall_mem_nil _) hspace, ?_⟩
  rw [run_startsWith_bind, run_startsWith_bind, hnext]
  rfl

/-- All attributes of a tag are read, and each takes a character at least. -/
theorem run_attributes {attributes : List RawAttribute} (plain : ∀ raw ∈ attributes, raw.IsPlain)
    (reads : start.Reads (attributes.flatMap RawAttribute.written) stop)
    (hend : stop.rest.head? = some '>' ∨ stop.rest.head? = some '/') :
    (many attributeAfterSpace?).run start = some (attributes, stop) := by
  -- Each attribute uses up one of the steps allowed, so any number of steps above what is left to read is enough.
  have hwithin {bound : Nat} (le : start.rest.length < bound) :
      (many.within attributeAfterSpace? bound).run start = some (attributes, stop) := by
    induction attributes generalizing start bound with
    | nil =>
      obtain ⟨bound, rfl⟩ := Nat.exists_eq_succ_of_ne_zero (Nat.ne_zero_of_lt le)
      obtain rfl := Cursor.Reads.eq_of_nil reads
      exact run_bind_eq_some_iff.mpr ⟨none, start, run_attributeAfterSpace?_of_end hend, rfl⟩
    | cons raw attributes ih =>
      obtain ⟨bound, rfl⟩ := Nat.exists_eq_succ_of_ne_zero (Nat.ne_zero_of_lt le)
      rw [List.flatMap_cons] at reads
      obtain ⟨middle, readsFirst, readsOthers⟩ := reads.exists_of_append
      obtain ⟨hfirst, hothers⟩ := List.forall_mem_cons.mp plain
      have shorter : middle.rest.length < bound := by
        rw [readsFirst.rest, List.length_append, RawAttribute.written, List.length_cons] at le
        omega
      refine run_bind_eq_some_iff.mpr ⟨some raw, middle, run_attributeAfterSpace? hfirst readsFirst, ?_⟩
      exact run_bind_eq_some_iff.mpr ⟨attributes, stop, ih hothers readsOthers shorter, rfl⟩
  rw [many, run_rest_bind]
  exact hwithin (Nat.lt_succ_self _)

/-! ### Tags -/

/-- A start tag or an empty tag up to its end. -/
def writtenTag (name : List Char) (attributes : List RawAttribute) : List Char :=
  '<' :: name ++ attributes.flatMap RawAttribute.written

section Tags

variable {attributes : List RawAttribute} (hname : isPlainName name = true)
  (plain : ∀ raw ∈ attributes, raw.IsPlain)
include hname plain

/-- A tag is read up to its end. -/
theorem run_startTag_of_end (reads : start.Reads (writtenTag name attributes) middle)
    (hend : middle.rest.head? = some '>' ∨ middle.rest.head? = some '/') :
    Piece.startTag.run start = (do
      if ← eat ">" then return Piece.opening ⟨[], name⟩ attributes
      expect "/>"
      return Piece.hollow ⟨[], name⟩ attributes : Scan Piece).run middle := by
  obtain ⟨named, reads, readsAttributes⟩ := reads.exists_of_append
  obtain ⟨opened, -, readsOpen, readsName⟩ := reads.exists_of_cons
  -- The name ends at the space before the first attribute, or at the end of the tag.
  have hnamed : named.rest.head?.any isNameChar = false := by
    rw [readsAttributes.rest]
    cases attributes with
    | nil => rcases hend with hend | hend <;> rw [List.flatMap_nil, List.nil_append, hend] <;> decide
    | cons raw others => rfl
  have hopen : (expect "<").run start = some ((), opened) := run_expect_eq_some_iff.mpr readsOpen
  rw [Piece.startTag, run_bind_of_run hopen, run_bind_of_run (run_qname hname readsName hnamed),
    run_bind_of_run (run_attributes plain readsAttributes hend)]

theorem run_startTag_opening (reads : start.Reads (writtenTag name attributes ++ ">".toList) stop) :
    Piece.startTag.run start = some (.opening ⟨[], name⟩ attributes, stop) := by
  obtain ⟨middle, readsTag, readsEnd⟩ := reads.exists_of_append
  rw [run_startTag_of_end hname plain readsTag (Or.inl (by rw [readsEnd.rest]; rfl))]
  have heat : (eat ">").run middle = some (true, stop) := run_eat_eq_some_iff.mpr readsEnd
  rw [run_bind_of_run heat]
  rfl

theorem run_startTag_hollow (reads : start.Reads (writtenTag name attributes ++ "/>".toList) stop) :
    Piece.startTag.run start = some (.hollow ⟨[], name⟩ attributes, stop) := by
  obtain ⟨middle, readsTag, readsEnd⟩ := reads.exists_of_append
  rw [run_startTag_of_end hname plain readsTag (Or.inr (by rw [readsEnd.rest]; rfl))]
  have heat : (eat ">").run middle = some (false, middle) := by
    refine run_eat_eq_some_iff.mpr ⟨rfl, ?_⟩
    rw [readsEnd.rest]
    simp
  have hexpect : (expect "/>").run middle = some ((), stop) := run_expect_eq_some_iff.mpr readsEnd
  rw [run_bind_of_run heat, if_neg Bool.false_ne_true, run_bind_of_run hexpect]
  rfl

end Tags

theorem next_endTag (hname : isPlainName name = true) (reads : start.Reads ("</".toList ++ name ++ ">".toList) stop) :
    Piece.next.run start = some (.closing ⟨[], name⟩, stop) := by
  obtain ⟨named, reads, readsClose⟩ := reads.exists_of_append
  obtain ⟨opened, readsOpen, readsName⟩ := reads.exists_of_append
  have hstart : start.rest = '<' :: '/' :: opened.rest := readsOpen.rest
  have hnamed : named.rest = '>' :: stop.rest := readsClose.rest
  have hopen : (expect "</").run start = some ((), opened) := run_expect_eq_some_iff.mpr readsOpen
  have hclose : (expect ">").run named = some ((), stop) := run_expect_eq_some_iff.mpr readsClose
  have hskip : skipSpace.run named = some ((), named) := run_skipSpace (.refl _) (List.forall_mem_nil _) (by rw [hnamed]; rfl)
  have hread := run_qname hname readsName (by rw [hnamed]; rfl)
  rw [Piece.run_next, if_neg (by simp [hstart]), if_neg (by simp [hstart]), if_neg (by simp [hstart]),
    if_pos (by simp [hstart]), Piece.endTag, run_bind_of_run hopen, run_bind_of_run hread, run_bind_of_run hskip,
    run_bind_of_run hclose]
  rfl

/-! ### Text -/

/-- A section is read up to its first end. With the end written behind it a text has no earlier one than it has
itself: two brackets at its end do not begin one. -/
theorem next_verbatim (legal : ∀ c ∈ cs, isLegal c = true) (clear : ¬ "]]>".toList <:+: cs)
    (reads : start.Reads ("<![CDATA[".toList ++ cs ++ "]]>".toList) stop) :
    Piece.next.run start = some (.text (verbatimValue cs), stop) := by
  rw [List.append_assoc] at reads
  obtain ⟨opened, readsOpen, readsRest⟩ := reads.exists_of_append
  have hstart : start.rest = '<' :: '!' :: '[' :: ("CDATA[".toList ++ opened.rest) := readsOpen.rest
  have hopen : (expect "<![CDATA[").run start = some ((), opened) := run_expect_eq_some_iff.mpr readsOpen
  have hthrough : (takeThrough "]]>").run opened = some (cs, stop) := by
    refine run_takeThrough_eq_some_iff.mpr ⟨readsRest, legal, fun back hback hne hbehind => ?_⟩
    -- An end that begins one or two characters earlier would have its `>` where the last one has a bracket.
    rcases back with _ | ⟨c, _ | ⟨d, _ | ⟨e, others⟩⟩⟩
    · exact hne rfl
    · simp at hbehind
    · simp at hbehind
    · refine clear (List.IsInfix.trans (List.IsPrefix.isInfix ?_) hback.isInfix)
      simpa using hbehind
  rw [Piece.run_next, if_neg (by simp [hstart]), if_pos (by simp [hstart]), Piece.verbatim, run_bind_of_run hopen,
    run_bind_of_run hthrough]
  rfl

/-- Characters are what is next where no tag is. -/
theorem next_characters {piece : Piece} (h : Piece.characters.run start = some (piece, stop)) :
    Piece.next.run start = some (piece, stop) := by
  obtain ⟨read, content, reads, hne, hchars, -⟩ := Piece.run_characters_eq_some_iff.mp h
  obtain ⟨c, others, rfl⟩ := List.exists_cons_of_ne_nil hne
  have hc : '<' ≠ c := (hchars c List.mem_cons_self).2.symm
  have hstart : start.rest = c :: (others ++ stop.rest) := reads.rest
  have other {text : String} {more : List Char} (htext : text.toList = '<' :: more) :
      ¬ text.toList <+: start.rest := by
    rw [htext, hstart, List.cons_prefix_cons]
    exact fun h => hc h.1
  rw [Piece.run_next, if_neg (other rfl), if_neg (other rfl), if_neg (other rfl), if_neg (other rfl),
    if_neg (other rfl)]
  exact h

/-! ### What is held -/

variable {spaces outer : Spaces} {events more : List Event} {nodes others : List Node}

theorem Holds.append (front : Holds spaces start events nodes middle) (back : Holds spaces middle more others stop) :
    Holds spaces start (events ++ more) (nodes ++ others) stop := by
  induction front with
  | nil => exact back
  | silent read _ ih => exact .silent read (ih back)
  | text read _ ih => exact .text read (ih back)
  | hollow read known _ ih => exact .hollow read known (ih back)
  | element read known held close _ _ ih =>
    rw [List.cons_append, List.append_assoc, List.cons_append]
    exact .element read known held close (ih back)

/-- Text in several pieces. -/
def textNodes (pieces : List (List Char)) : List Node :=
  pieces.map fun piece => .text (String.ofList piece)

theorem descendantsOfAll_textNodes (pieces : List (List Char)) :
    Node.descendantsOfAll (textNodes pieces) = textNodes pieces := by
  induction pieces with
  | nil => rfl
  | cons piece pieces ih =>
    rw [textNodes, List.map_cons, ← textNodes, Node.descendantsOfAll, Node.descendants, ih]
    rfl

/-- Put together, the text of an element is all of its pieces. -/
theorem textContent_element (name : String) (attributes : List Attribute) (pieces : List (List Char)) (span : Span) :
    (Node.element name attributes (textNodes pieces) span).textContent = String.ofList pieces.flatten := by
  have hjoin (read : String) : (pieces.map String.ofList).foldl (fun read piece => read ++ piece) read =
      read ++ String.ofList pieces.flatten := by
    induction pieces generalizing read with
    | nil => simp
    | cons piece pieces ih =>
      rw [List.map_cons, List.foldl_cons, ih, List.flatten_cons, String.ofList_append, String.append_assoc]
  rw [Node.textContent, Node.descendants, descendantsOfAll_textNodes, List.filterMap_cons_none rfl, textNodes,
    List.filterMap_map]
  change String.join (pieces.filterMap (some ∘ String.ofList)) = _
  rw [List.filterMap_eq_map, String.join, hjoin, String.empty_append]

theorem declaresPrefixes_texts (declared : List (List (List Char))) (pieces : List (List Char)) :
    declaresPrefixes declared (pieces.map .text ++ events) = declaresPrefixes declared events := by
  induction pieces with
  | nil => rfl
  | cons piece pieces ih => exact ih

/-- Between two cursors stands nothing but text, in one or more pieces. -/
def HoldsText (spaces : Spaces) (start : Cursor) (content : List Char) (stop : Cursor) : Prop :=
  ∃ pieces : List (List Char), pieces.flatten = content ∧
    Holds spaces start (pieces.map .text) (textNodes pieces) stop

namespace HoldsText

variable {content moreContent : List Char}

theorem nil (spaces : Spaces) (cursor : Cursor) : HoldsText spaces cursor [] cursor :=
  ⟨[], rfl, .nil⟩

theorem append (front : HoldsText spaces start content middle) (back : HoldsText spaces middle moreContent stop) :
    HoldsText spaces start (content ++ moreContent) stop := by
  obtain ⟨pieces, rfl, held⟩ := front
  obtain ⟨morePieces, rfl, heldMore⟩ := back
  refine ⟨pieces ++ morePieces, by rw [List.flatten_append], ?_⟩
  rw [textNodes, List.map_append, List.map_append]
  exact held.append heldMore

theorem of_next (h : Piece.next.run start = some (.text content, stop)) : HoldsText spaces start content stop :=
  ⟨[content], by simp, .text h .nil⟩

/-- Text in front of a tag is held with its value. -/
theorem of_textValue? (reads : start.Reads cs stop) (hchars : ∀ c ∈ cs, isLegal c = true ∧ c ≠ '<' ∧ c ≠ '>')
    (hstop : stop.rest.head? = some '<') (hvalue : textValue? cs = some content) :
    HoldsText spaces start content stop := by
  cases cs with
  | nil =>
    obtain rfl := reads.eq_of_nil
    cases hvalue
    exact nil spaces start
  | cons c others =>
    -- The end of a section has a `>`, and there is none.
    have clear : Text.contains (c :: others) "]]>".toList = false := by
      refine Text.contains_eq_false fun inside => ?_
      exact (hchars '>' (inside.subset (by decide))).2.2 rfl
    refine of_next (next_characters (Piece.run_characters_eq_some_iff.mpr ?_))
    exact ⟨c :: others, content, reads, List.cons_ne_nil _ _, fun d hd => ⟨(hchars d hd).1, (hchars d hd).2.1⟩,
      Or.inr hstop, clear, hvalue, rfl⟩

theorem of_written (legal : ∀ c ∈ cs, isLegal c = true) (noReturn : '\r' ∉ cs) (reads : start.Reads (escape cs) stop)
    (hstop : stop.rest.head? = some '<') : HoldsText spaces start cs stop := by
  refine of_textValue? reads (fun c hc => ⟨isLegal_of_mem_escape legal hc, ?_, ?_⟩) hstop (textValue?_escape noReturn)
  · exact ne_of_mem_of_not_mem hc (not_mem_escape (by decide))
  · exact ne_of_mem_of_not_mem hc (not_mem_escape (by decide))

theorem of_verbatim (legal : ∀ c ∈ cs, isLegal c = true) (noReturn : '\r' ∉ cs) (clear : ¬ "]]>".toList <:+: cs)
    (reads : start.Reads ("<![CDATA[".toList ++ cs ++ "]]>".toList) stop) : HoldsText spaces start cs stop := by
  have hnext := next_verbatim legal clear reads
  rw [verbatimValue_of_clear noReturn] at hnext
  exact of_next hnext

/-- White space stays white space, whatever becomes of its line endings. -/
theorem exists_of_blank (legal : ∀ c ∈ cs, isLegal c = true) (blank : ∀ c ∈ cs, Text.isBlank c = true)
    (reads : start.Reads cs stop) (hstop : stop.rest.head? = some '<') :
    ∃ content, (∀ c ∈ content, Text.isBlank c = true) ∧ HoldsText spaces start content stop := by
  -- White space holds no ampersand and nothing of a tag.
  have apart {sign : Char} (hsign : Text.isBlank sign = false) : sign ∉ cs := by
    intro hmem
    rw [blank sign hmem] at hsign
    cases hsign
  obtain ⟨content, hvalue, hcontent⟩ := exists_textValue?_of_plain (apart (by decide : Text.isBlank '&' = false))
  refine ⟨content, fun c hc => ?_, of_textValue? reads (fun c hc => ⟨legal c hc, ?_, ?_⟩) hstop hvalue⟩
  · rcases hcontent c hc with rfl | hmem
    · decide
    · exact blank c hmem
  · exact ne_of_mem_of_not_mem hc (apart (by decide))
  · exact ne_of_mem_of_not_mem hc (apart (by decide))

end HoldsText

/-! ### Plain attributes -/

/-- A plain attribute once it is read. -/
def RawAttribute.attribute (raw : RawAttribute) : Attribute :=
  ⟨none, String.ofList raw.name.localName, String.ofList raw.value⟩

theorem resolveAttributes?_of_plain {attributes : List RawAttribute} {read : List Attribute}
    (plain : ∀ raw ∈ attributes, raw.IsPlain)
    (distinct : ((read ++ attributes.map RawAttribute.attribute).map Attribute.name).Nodup) :
    resolveAttributes? spaces read attributes = some (read ++ attributes.map RawAttribute.attribute) := by
  induction attributes generalizing read with
  | nil => rw [List.map_nil, List.append_nil]; rfl
  | cons raw attributes ih =>
    obtain ⟨hraw, hothers⟩ := List.forall_mem_cons.mp plain
    have hspace : attributeSpace? spaces raw.name = some none := by
      have hxml : ([] == "xml".toList) = false := rfl
      rw [attributeSpace?, hraw.space, hxml]
      rfl
    -- No attribute has the name of one before it.
    have hnew : (read.any fun other =>
        other.space? == none && other.name == String.ofList raw.name.localName) = false := by
      rw [List.any_eq_false]
      intro other hother
      rw [List.map_append, List.nodup_append] at distinct
      have hne := distinct.2.2 other.name (List.mem_map_of_mem hother) (String.ofList raw.name.localName)
        (by simp [RawAttribute.attribute])
      simp [hne]
    rw [List.map_cons, List.append_cons] at distinct ⊢
    rw [resolveAttributes?, hspace, Option.bind_eq_bind, Option.bind_some]
    dsimp only
    rw [hnew]
    exact ih hothers distinct

/-- Plain attributes declare nothing and are looked up as they are written. -/
theorem enter?_of_plain {attributes : List RawAttribute} (plain : ∀ raw ∈ attributes, raw.IsPlain)
    (distinct : (attributes.map RawAttribute.name).Nodup) (localName : List Char) :
    enter? outer ⟨[], localName⟩ attributes = some (outer, attributes.map RawAttribute.attribute) := by
  -- No attribute declares anything, so nothing is added to what is known.
  have hdeclare : attributes.foldlM declareSpace? [] = some [] := by
    clear distinct
    induction attributes with
    | nil => rfl
    | cons raw attributes ih =>
      obtain ⟨hraw, hothers⟩ := List.forall_mem_cons.mp plain
      have hnone : declareSpace? [] raw = some [] := by
        have hxmlns : ([] == "xmlns".toList) = false := rfl
        rw [declareSpace?, hraw.space, hxmlns]
        simpa using hraw.declares
      rw [List.foldlM_cons, hnone]
      exact ih hothers
  have hfilter : attributes.filter (!·.isDeclaration) = attributes := by
    rw [List.filter_eq_self]
    intro raw hraw
    simpa [RawAttribute.isDeclaration, (plain raw hraw).space] using (plain raw hraw).declares
  have hresolve : resolveAttributes? outer [] attributes = some (attributes.map RawAttribute.attribute) := by
    refine resolveAttributes?_of_plain plain ?_
    have hnames : (attributes.map RawAttribute.attribute).map Attribute.name =
        (attributes.map RawAttribute.name).map fun name => String.ofList name.localName := by
      rw [List.map_map, List.map_map]
      rfl
    rw [List.nil_append, hnames]
    -- Names without prefixes differ if and only if their local parts do.
    refine distinct.map_on fun name hname other hother heq => ?_
    obtain ⟨raw, hraw, rfl⟩ := List.mem_map.mp hname
    obtain ⟨raw', hraw', rfl⟩ := List.mem_map.mp hother
    have hlocal : raw.name.localName = raw'.name.localName := String.ofList_injective heq
    have hspace : raw.name.space = raw'.name.space := by rw [(plain raw hraw).space, (plain raw' hraw').space]
    change (⟨raw.name.space, raw.name.localName⟩ : QName) = ⟨raw'.name.space, raw'.name.localName⟩
    rw [hspace, hlocal]
  rw [enter?, hdeclare, hfilter]
  simp only [Option.bind_eq_bind, Option.bind_some, List.nil_append, hresolve]
  rfl

/-- An element with plain attributes is read wherever what it holds is read. -/
theorem ElementIn.ofTags {attributes : List RawAttribute} (hname : isPlainName name = true)
    (plain : ∀ raw ∈ attributes, raw.IsPlain) (distinct : (attributes.map RawAttribute.name).Nodup)
    (readsOpen : start.Reads (writtenTag name attributes ++ ">".toList) first)
    (held : Holds outer first events nodes last) (readsClose : last.Reads ("</".toList ++ name ++ ">".toList) stop) :
    ElementIn outer start
      (.opening ⟨[], name⟩ attributes start.offset :: (events ++ [.closing (some ⟨[], name⟩) stop.offset]))
      (.element (String.ofList name) (attributes.map RawAttribute.attribute) nodes ⟨start.offset, stop.offset⟩) stop :=
  .paired (run_startTag_opening hname plain readsOpen) (enter?_of_plain plain distinct name) held
    (next_endTag hname readsClose)

/-- An empty tag with plain attributes is read as an element with nothing in it. -/
theorem ElementIn.ofEmptyTag {attributes : List RawAttribute} (hname : isPlainName name = true)
    (plain : ∀ raw ∈ attributes, raw.IsPlain) (distinct : (attributes.map RawAttribute.name).Nodup)
    (reads : start.Reads (writtenTag name attributes ++ "/>".toList) stop) :
    ElementIn outer start [.opening ⟨[], name⟩ attributes start.offset, .closing none stop.offset]
      (.element (String.ofList name) (attributes.map RawAttribute.attribute) [] ⟨start.offset, stop.offset⟩) stop :=
  .hollow (run_startTag_hollow hname plain reads) (enter?_of_plain plain distinct name)

end Exemplar.Markup
