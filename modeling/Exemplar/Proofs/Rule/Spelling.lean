import Exemplar.Proofs.Markup.Writing
import Exemplar.Proofs.Rule.Slice

/-!
# Spellings of a query

A query can be written in a rule as text, in a section in which references mean nothing, or as an attribute value.
Whatever it looks like, it is read back without the white space around it, and so all spellings say the same. What
is written is an element, and that element is read alike as a document of its own and in the middle of one.
-/

namespace Exemplar.Rule

open Markup
open Text (byteSize isBlank)

/-- The ways to write a property with a query. A section may have white space around it, and an attribute value
keeps neither newlines nor tabs. -/
inductive Spells (query : List Char) : List Char → Prop where
  | escaped : Spells query
      ("<property name=\"xpath\"><value>".toList ++ escape query ++ "</value></property>".toList)
  | verbatim {before after : List Char} (legal : ∀ c ∈ before ++ after, isLegal c = true)
      (blank : ∀ c ∈ before ++ after, isBlank c = true) (clear : ¬ "]]>".toList <:+: query) : Spells query
      ("<property name=\"xpath\"><value>".toList ++
        (before ++ ("<![CDATA[".toList ++ query ++ "]]>".toList) ++ after) ++ "</value></property>".toList)
  | inTag (oneLine : '\n' ∉ query) (noTab : '\t' ∉ query) : Spells query
      ("<property name=\"xpath\" value=\"".toList ++ escape query ++ "\"/>".toList)

/-- A property with a query, and no rule in it. -/
structure HoldsQuery (node : Node) (query : List Char) : Prop where
  property : queryProperty? node = some node
  query : queryOf node = String.ofList query
  apart : ∀ part ∈ node.descendants, part.isElement "rule" = false

/-- Some text is read as a property with a query, wherever it stands. -/
def WritesQuery (written query : List Char) : Prop :=
  ∀ (outer : Spaces) ⦃start stop : Cursor⦄, start.Reads written stop →
    ∃ events node, ElementIn outer start events node stop ∧ declaresPrefixes [] events = true ∧
      HoldsQuery node query

/-! ### Properties that are written -/

/-- The attribute that says that a property is the query. -/
def nameAttribute : RawAttribute :=
  ⟨⟨[], "name".toList⟩, "xpath".toList⟩

/-- The attribute with the query. -/
def valueAttribute (query : List Char) : RawAttribute :=
  ⟨⟨[], "value".toList⟩, query⟩

theorem isPlain_nameAttribute : nameAttribute.IsPlain where
  space := rfl
  name := by decide
  declares := by decide
  legal := List.all_eq_true.mp (by decide : "xpath".toList.all isLegal = true)
  spaces := by simp [nameAttribute, isSpace]

variable {query content : List Char} {outer : Spaces} {start first last stop : Cursor} {span inner : Span}

theorem isPlain_valueAttribute (legal : ∀ c ∈ query, isLegal c = true) (noReturn : '\r' ∉ query)
    (oneLine : '\n' ∉ query) (noTab : '\t' ∉ query) : (valueAttribute query).IsPlain where
  space := rfl
  name := (by decide : isPlainName "value".toList = true)
  declares := (by decide : "value".toList ≠ "xmlns".toList)
  legal := legal
  spaces := by
    intro c hc hspace
    have hreturn : c ≠ '\r' := ne_of_mem_of_not_mem hc noReturn
    have hnewline : c ≠ '\n' := ne_of_mem_of_not_mem hc oneLine
    have htab : c ≠ '\t' := ne_of_mem_of_not_mem hc noTab
    simpa [isSpace, hreturn, hnewline, htab] using hspace

/-! ### What properties hold -/

/-- The first property in a property with the right name is that one itself. -/
theorem queryProperty?_named (more : List Attribute) (children : List Node) :
    queryProperty? (.element "property" (nameAttribute.attribute :: more) children span) =
      some (.element "property" (nameAttribute.attribute :: more) children span) := by
  rw [queryProperty?, Node.descendants]
  exact List.find?_cons_of_pos rfl

/-- A property with nothing but a `value` element holds the text of that element. -/
theorem holdsQuery_element (pieces : List (List Char)) : HoldsQuery
    (.element "property" [nameAttribute.attribute] [.element "value" [] (textNodes pieces) inner] span)
    (Text.trim pieces.flatten) := by
  constructor
  · exact queryProperty?_named [] _
  · change String.ofList (Text.trim (Node.textContent (.element "value" [] (textNodes pieces) inner)).toList) = _
    rw [textContent_element, String.toList_ofList]
  · intro part hpart
    rw [Node.descendants, Node.descendantsOfAll, Node.descendants, descendantsOfAll_textNodes] at hpart
    simp only [List.cons_append, List.mem_cons, List.mem_append, textNodes, List.mem_map] at hpart
    rcases hpart with rfl | rfl | ⟨piece, -, rfl⟩ | hnone
    · rfl
    · rfl
    · rfl
    · cases hnone

/-- A property with the query in an attribute holds that. -/
theorem holdsQuery_attribute : HoldsQuery
    (.element "property" [nameAttribute.attribute, (valueAttribute query).attribute] [] span)
    (Text.trim query) := by
  constructor
  · exact queryProperty?_named _ []
  · have hvalue : Node.attribute? (.element "property"
        [nameAttribute.attribute, (valueAttribute query).attribute] [] span) "value" =
          some (String.ofList query) := rfl
    rw [queryOf, hvalue]
    simp only [String.toList_ofList]
  · intro part hpart
    obtain rfl := List.mem_singleton.mp hpart
    rfl

/-! ### Properties that are read -/

/-- A property with a `value` element is read as it is written. -/
theorem exists_elementIn_of_holdsText (readsOpen : start.Reads "<property name=\"xpath\"><value>".toList first)
    (held : HoldsText outer first content last) (readsClose : last.Reads "</value></property>".toList stop) :
    ∃ events node, ElementIn outer start events node stop ∧ declaresPrefixes [] events = true ∧
      HoldsQuery node (Text.trim content) := by
  have readsOpen : start.Reads ((writtenTag "property".toList [nameAttribute] ++ ">".toList) ++
      (writtenTag "value".toList [] ++ ">".toList)) first := readsOpen
  have readsClose : last.Reads (("</".toList ++ "value".toList ++ ">".toList) ++
      ("</".toList ++ "property".toList ++ ">".toList)) stop := readsClose
  -- From the inside: the text is in the value element, and that is all there is in the property.
  obtain ⟨inside, readsProperty, readsValue⟩ := readsOpen.exists_of_append
  obtain ⟨closed, readsCloseValue, readsCloseProperty⟩ := readsClose.exists_of_append
  obtain ⟨pieces, rfl, held⟩ := held
  have value := ElementIn.ofTags (by decide) (by simp) (by simp) readsValue held readsCloseValue
  have property := ElementIn.ofTags (by decide) (by simpa using isPlain_nameAttribute) (by decide) readsProperty
    (value.holds .nil) readsCloseProperty
  refine ⟨_, _, property, ?_, holdsQuery_element pieces⟩
  simp only [List.append_nil, List.append_assoc, List.cons_append, List.nil_append, declaresPrefixes,
    declaresPrefixes_texts]
  decide

/-- Every spelling is a property with the query, as long as a document may hold the query and no line ending
changes when it is read. -/
theorem Spells.writesQuery {written : List Char} (legal : ∀ c ∈ query, isLegal c = true) (noReturn : '\r' ∉ query)
    (spells : Spells query written) : WritesQuery written (Text.trim query) := by
  intro outer start stop reads
  cases spells with
  | escaped =>
    obtain ⟨last, reads, readsClose⟩ := reads.exists_of_append
    obtain ⟨first, readsOpen, readsQuery⟩ := reads.exists_of_append
    have hlast : last.rest.head? = some '<' := by rw [readsClose.rest]; rfl
    exact exists_elementIn_of_holdsText readsOpen (.of_written legal noReturn readsQuery hlast) readsClose
  | @verbatim before after legalAround blank clear =>
    obtain ⟨last, reads, readsClose⟩ := reads.exists_of_append
    obtain ⟨first, readsOpen, reads⟩ := reads.exists_of_append
    obtain ⟨closed, reads, readsAfter⟩ := reads.exists_of_append
    obtain ⟨opened, readsBefore, readsSection⟩ := reads.exists_of_append
    have hlast : last.rest.head? = some '<' := by rw [readsClose.rest]; rfl
    have hopened : opened.rest.head? = some '<' := by rw [readsSection.rest]; rfl
    rw [List.forall_mem_append] at legalAround blank
    obtain ⟨front, blankFront, holdsFront⟩ :=
      HoldsText.exists_of_blank legalAround.1 blank.1 readsBefore hopened
    obtain ⟨back, blankBack, holdsBack⟩ := HoldsText.exists_of_blank legalAround.2 blank.2 readsAfter hlast
    -- What stands around the section is read as text too, and trimming takes it away.
    have held : HoldsText outer first (front ++ query ++ back) last :=
      (holdsFront.append (.of_verbatim legal noReturn clear readsSection)).append holdsBack
    rw [← Text.trim_append_blank blankFront blankBack query]
    exact exists_elementIn_of_holdsText readsOpen held readsClose
  | inTag oneLine noTab =>
    have hwritten : "<property name=\"xpath\" value=\"".toList ++ escape query ++ "\"/>".toList =
        writtenTag "property".toList [nameAttribute, valueAttribute query] ++ "/>".toList := by
      simp only [writtenTag, RawAttribute.written, List.flatMap_cons, List.flatMap_nil, List.append_nil,
        List.append_assoc, List.cons_append]
      rfl
    rw [hwritten] at reads
    -- This is where newlines and tabs would be lost: an attribute is plain only without them.
    have plain : ∀ raw ∈ [nameAttribute, valueAttribute query], raw.IsPlain := by
      simpa using ⟨isPlain_nameAttribute, isPlain_valueAttribute legal noReturn oneLine noTab⟩
    have distinct : ([nameAttribute, valueAttribute query].map RawAttribute.name).Nodup :=
      (by decide : [nameAttribute.name, (⟨[], "value".toList⟩ : QName)].Nodup)
    exact ⟨_, _, .ofEmptyTag (by decide) plain distinct reads, rfl, holdsQuery_attribute⟩

/-! ### Where properties are read -/

/-- A rule with nothing in it but a property has the query of that property. -/
theorem ofText?_of_holdsQuery {file : String} {attributes : List Attribute} {node : Node}
    (hroot : Node.ofText? file = some (.element "rule" attributes [node] span))
    (noRef : Node.attribute? (.element "rule" attributes [node] span) "ref" = none) (holds : HoldsQuery node query) :
    ∃ rule, ofText? file = some [rule] ∧ rule.query? = some (String.ofList query) := by
  generalize hnode : Node.element "rule" attributes [node] span = root at hroot noRef
  have hdescendants : root.descendants = root :: node.descendants := by
    rw [← hnode, Node.descendants, Node.descendantsOfAll_singleton]
  have helement (name : String) : root.isElement name = ("rule" == name) := by
    rw [← hnode, Node.isElement]
  -- There is no rule in the property, so the root is the only one.
  have hfilter : root.descendants.filter isDefinition = [root] := by
    rw [hdescendants, List.filter_cons_of_pos (isDefinition_iff.mpr ⟨helement "rule", noRef⟩),
      List.filter_eq_nil_iff.mpr]
    intro part hpart
    rw [isDefinition_iff, holds.apart part hpart]
    simp
  -- The root is no property itself, and the search goes on to the one in it.
  have hproperty : queryProperty? root = some node := by
    rw [← holds.property, queryProperty?, queryProperty?, hdescendants]
    refine List.find?_cons_of_neg ?_
    rw [helement]
    simp
  have hnotBlank := Node.isBlankText_of_ofText? hroot
  refine ⟨ofElement file.toList root, ?_, by rw [ofElement, hproperty, Option.map_some, holds.query]⟩
  rw [ofText?, hnotBlank, if_neg Bool.false_ne_true]
  refine Option.bind_eq_some_iff.mpr ⟨root, hroot, ?_⟩
  rw [hfilter]
  rfl

namespace WritesQuery

variable {written : List Char}

/-- What is written is a document, and its property is found in it. -/
theorem exists_document (writes : WritesQuery written query) :
    ∃ node, Node.ofText? (String.ofList written) = some node ∧ HoldsQuery node query ∧
      usesOwnPrefixes written = true := by
  have reads : Cursor.Reads ⟨0, written⟩ written ⟨byteSize written, []⟩ :=
    ⟨(List.append_nil written).symm, (Nat.zero_add _).symm⟩
  obtain ⟨events, node, element, declares, holds⟩ := writes [] reads
  have own : usesOwnPrefixes written = true := by
    rwa [usesOwnPrefixes, Event.ofText?_of_elementIn element]
  rw [← String.toList_ofList (l := written)] at element
  exact ⟨node, Node.ofText?_of_elementIn element, holds, own⟩

/-- The query of a text that is the property. -/
theorem queryIn?_eq (writes : WritesQuery written query) :
    queryIn? (String.ofList written) = some (String.ofList query) := by
  obtain ⟨node, hnode, holds, -⟩ := writes.exists_document
  refine Option.bind_eq_some_iff.mpr ⟨node, hnode, ?_⟩
  rw [holds.property, Option.map_some, holds.query]

/-- The query of a rule with nothing in it but the property. -/
theorem ofText?_rule (writes : WritesQuery written query) {attributes : List RawAttribute}
    (plain : ∀ raw ∈ attributes, raw.IsPlain) (distinct : (attributes.map RawAttribute.name).Nodup)
    (noRef : ∀ raw ∈ attributes, raw.name.localName ≠ "ref".toList) :
    ∃ rule, ofText? (String.ofList (writtenTag "rule".toList attributes ++ ">".toList ++ written ++
      "</rule>".toList)) = some [rule] ∧ rule.query? = some (String.ofList query) := by
  generalize hfile : writtenTag "rule".toList attributes ++ ">".toList ++ written ++ "</rule>".toList = file
  have reads : Cursor.Reads ⟨0, (String.ofList file).toList⟩ (writtenTag "rule".toList attributes ++ ">".toList ++
      written ++ ("</".toList ++ "rule".toList ++ ">".toList)) ⟨byteSize file, []⟩ := by
    rw [String.toList_ofList, ← hfile]
    exact ⟨(List.append_nil _).symm, (Nat.zero_add _).symm⟩
  obtain ⟨last, reads, readsClose⟩ := reads.exists_of_append
  obtain ⟨first, readsOpen, readsWritten⟩ := reads.exists_of_append
  obtain ⟨events, node, element, -, holds⟩ := writes [] readsWritten
  have hroot := Node.ofText?_of_elementIn
    (ElementIn.ofTags (by decide) plain distinct readsOpen (element.holds .nil) readsClose)
  refine ofText?_of_holdsQuery hroot ?_ holds
  rw [Node.attribute?, List.find?_eq_none.mpr, Option.map_none]
  intro other hother
  obtain ⟨raw, hraw, rfl⟩ := List.mem_map.mp hother
  have hname : String.ofList raw.name.localName ≠ "ref" := by
    intro heq
    exact noRef raw hraw (by rw [← heq, String.toList_ofList])
  simp [RawAttribute.attribute, hname]

/-- The query of any rule of any file with the property written in this way. -/
theorem query?_of_slice (writes : WritesQuery written query) {file : String} {rules : List Rule} {rule : Rule}
    {span : Span} (hfile : ofText? file = some rules) (hrule : rule ∈ rules) (hspan : rule.querySpan? = some span)
    (hslice : Text.slice? rule.text.toList span.start span.stop = some written) :
    rule.query? = some (String.ofList query) := by
  obtain ⟨root, property, hroot, part, helement, hquery, hslice⟩ :=
    exists_property_of_querySpan? hfile hrule hspan hslice
  obtain ⟨before, inside, after, hsplit, hproperty, halone⟩ := Node.exists_slice hroot part helement
  have hinside : Text.slice? file.toList property.span.start property.span.stop = some inside :=
    Text.slice?_eq_some_iff.mpr ⟨before, after, hsplit, by rw [hproperty], by rw [hproperty]⟩
  obtain rfl := Option.some.inj (hslice.symm.trans hinside)
  obtain ⟨node, hnode, holds, own⟩ := writes.exists_document
  -- Cut out of the file the property is what is written, and that is read in one way only.
  obtain ⟨alone, hparsed, rfl⟩ := halone own
  obtain rfl := Option.some.inj (hnode.symm.trans hparsed)
  rw [hquery, queryOf_moveOn, holds.query]

end WritesQuery

/-- However a query is spelled, it is read without the white space around it: from the property alone, from a rule
with that property, and from any rule of any file whose property is spelled in this way. -/
theorem query?_of_spells {written : List Char} (legal : ∀ c ∈ query, isLegal c = true) (noReturn : '\r' ∉ query)
    (spells : Spells query written) :
    queryIn? (String.ofList written) = some (String.ofList (Text.trim query)) ∧
      (∀ attributes : List RawAttribute, (∀ raw ∈ attributes, raw.IsPlain) →
        (attributes.map RawAttribute.name).Nodup → (∀ raw ∈ attributes, raw.name.localName ≠ "ref".toList) →
        ∃ rule, ofText? (String.ofList (writtenTag "rule".toList attributes ++ ">".toList ++ written ++
          "</rule>".toList)) = some [rule] ∧ rule.query? = some (String.ofList (Text.trim query))) ∧
      ∀ file rules, ofText? file = some rules → ∀ rule ∈ rules, ∀ span, rule.querySpan? = some span →
        Text.slice? rule.text.toList span.start span.stop = some written →
        rule.query? = some (String.ofList (Text.trim query)) := by
  have writes := spells.writesQuery legal noReturn
  refine ⟨writes.queryIn?_eq, ?_, ?_⟩
  · intro attributes plain distinct noRef
    exact writes.ofText?_rule plain distinct noRef
  · intro file rules hfile rule hrule span hspan hslice
    exact writes.query?_of_slice hfile hrule hspan hslice

/-- A query that looks like one that is written already, with white space around it. -/
def entityQuery : List Char :=
  " //A[@B = '&amp;']\n".toList

/-- Both of its spellings over several lines say what it is. -/
theorem queryIn?_entityQuery :
    queryIn? "<property name=\"xpath\"><value> //A[@B = &apos;&amp;amp;&apos;]\n</value></property>" =
        some "//A[@B = '&amp;']" ∧
      queryIn? "<property name=\"xpath\"><value>\r\n\t<![CDATA[ //A[@B = '&amp;']\n]]>\n</value></property>" =
        some "//A[@B = '&amp;']" := by
  have legal : entityQuery.all isLegal = true := by decide +kernel
  have legalAround : ("\r\n\t".toList ++ "\n".toList).all isLegal = true := by decide
  have blank : ("\r\n\t".toList ++ "\n".toList).all isBlank = true := by decide
  have noReturn : '\r' ∉ entityQuery := by decide +kernel
  have clear : ¬ "]]>".toList <:+: entityQuery := by decide +kernel
  have asText : Spells entityQuery
      "<property name=\"xpath\"><value> //A[@B = &apos;&amp;amp;&apos;]\n</value></property>".toList := by
    have spells : Spells entityQuery _ := .escaped
    have hwritten : "<property name=\"xpath\"><value>".toList ++ escape entityQuery ++ "</value></property>".toList =
        "<property name=\"xpath\"><value> //A[@B = &apos;&amp;amp;&apos;]\n</value></property>".toList := by
      decide +kernel
    rwa [hwritten] at spells
  have asSection : Spells entityQuery
      "<property name=\"xpath\"><value>\r\n\t<![CDATA[ //A[@B = '&amp;']\n]]>\n</value></property>".toList := by
    have spells : Spells entityQuery _ :=
      .verbatim (List.all_eq_true.mp legalAround) (List.all_eq_true.mp blank) clear
    have hwritten : "<property name=\"xpath\"><value>".toList ++ ("\r\n\t".toList ++ ("<![CDATA[".toList ++
        entityQuery ++ "]]>".toList) ++ "\n".toList) ++ "</value></property>".toList =
        "<property name=\"xpath\"><value>\r\n\t<![CDATA[ //A[@B = '&amp;']\n]]>\n</value></property>".toList := by
      decide +kernel
    rwa [hwritten] at spells
  have htrim : String.ofList (Text.trim entityQuery) = "//A[@B = '&amp;']" := by decide +kernel
  have fromText := (query?_of_spells (List.all_eq_true.mp legal) noReturn asText).1
  have fromSection := (query?_of_spells (List.all_eq_true.mp legal) noReturn asSection).1
  rw [htrim, String.ofList_toList] at fromText fromSection
  exact ⟨fromText, fromSection⟩

end Exemplar.Rule
