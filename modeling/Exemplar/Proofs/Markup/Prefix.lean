import Exemplar.Proofs.Markup.Tree

/-!
# Prefixes of names

What the part of a name before its colon stands for is looked up in the element and then in those around it. An
element whose tags only use such prefixes as it declares itself is the same element wherever it stands: nothing is
looked up outside of it.
-/

namespace Exemplar.Markup

/-- The prefix that attributes have anywhere and elements nowhere. No declaration changes that. -/
def xmlPrefix : List Char :=
  "xml".toList

/-- The prefixes that a start tag declares. -/
def declaredPrefixes (raw : List RawAttribute) : List (List Char) :=
  ((raw.filter (·.name.space == "xmlns".toList)).map (·.name.localName)).filter (· != xmlPrefix)

/-- The prefixes that a start tag uses, in its own name and in those of its attributes. -/
def usedPrefixes (name : QName) (raw : List RawAttribute) : List (List Char) :=
  (name.space :: ((raw.filter (!·.isDeclaration)).map (·.name.space)).filter (· != xmlPrefix)).filter
    (!·.isEmpty)

/-- Whether every prefix is used where it is declared, by an element that is open then. What the open elements
declare is given, innermost first. -/
def declaresPrefixes : (declared : List (List (List Char))) → List Event → Bool
  | _, [] => true
  | declared, .text _ :: events => declaresPrefixes declared events
  | declared, .closing _ _ :: events => declaresPrefixes declared.tail events
  | declared, .opening name raw _ :: events =>
    let declared := declaredPrefixes raw :: declared
    (usedPrefixes name raw).all declared.flatten.contains && declaresPrefixes declared events

/-- Whether a text that can be read uses only prefixes that it declares itself. -/
def usesOwnPrefixes (text : List Char) : Bool :=
  (Event.ofText? text).all (declaresPrefixes [])

/-! ### Lookups -/

theorem isSome_lookup_of_mem {own : Spaces} {part : List Char} (h : part ∈ own.map Prod.fst) :
    (own.lookup part).isSome = true := by
  obtain ⟨entry, hmem, rfl⟩ := List.mem_map.mp h
  cases hlookup : own.lookup entry.1 with
  | none =>
    have hmiss := List.lookup_eq_none_iff.mp hlookup entry hmem
    simp at hmiss
  | some found => rfl

theorem lookup_append_of_mem {own : Spaces} (outer : Spaces) {part : List Char}
    (h : part ∈ own.map Prod.fst) : (own ++ outer).lookup part = own.lookup part := by
  obtain ⟨space, hspace⟩ := Option.isSome_iff_exists.mp (isSome_lookup_of_mem h)
  rw [List.lookup_append, hspace]
  rfl

theorem map_fst_of_declareSpace? {declared result : Spaces} {raw : RawAttribute}
    (h : declareSpace? declared raw = some result) :
    declared.map Prod.fst ⊆ result.map Prod.fst ∧
      (raw.name.space = "xmlns".toList → raw.name.localName ≠ xmlPrefix →
        raw.name.localName ∈ result.map Prod.fst) := by
  rw [declareSpace?] at h
  dsimp only at h
  -- A prefix is declared, or the space of names without one, or nothing.
  split at h
  next =>
    obtain ⟨hallowed, hresult⟩ := Option.ite_none_left_eq_some.mp h
    obtain rfl := Option.some.inj hresult
    simp only [Bool.or_eq_true, not_or, bne_iff_ne, ne_eq, Decidable.not_not] at hallowed
    split
    next hxml =>
      refine ⟨List.Subset.refl _, fun _ hother => absurd ?_ hother⟩
      exact beq_iff_eq.mp (hallowed.1.2.symm.trans hxml)
    next => simp
  next hspace =>
    rw [beq_iff_eq] at hspace
    refine ⟨?_, fun hdeclares => absurd hdeclares hspace⟩
    split at h
    · obtain ⟨-, hresult⟩ := Option.ite_none_left_eq_some.mp h
      obtain rfl := Option.some.inj hresult
      simp
    · obtain rfl := Option.some.inj h
      exact List.Subset.refl _

/-- What a start tag declares can be looked up, and so can what was declared before. -/
theorem map_fst_of_foldlM {declared result : Spaces} {raw : List RawAttribute}
    (h : raw.foldlM declareSpace? declared = some result) :
    declared.map Prod.fst ⊆ result.map Prod.fst ∧ declaredPrefixes raw ⊆ result.map Prod.fst := by
  induction raw generalizing declared with
  | nil =>
    obtain rfl := Option.some.inj h
    exact ⟨List.Subset.refl _, nofun⟩
  | cons first raw ih =>
    rw [List.foldlM_cons] at h
    obtain ⟨middle, hfirst, hrest⟩ := Option.bind_eq_some_iff.mp h
    obtain ⟨hkept, hdeclares⟩ := map_fst_of_declareSpace? hfirst
    obtain ⟨hkeptRest, hresolves⟩ := ih hrest
    refine ⟨List.Subset.trans hkept hkeptRest, fun part hpart => ?_⟩
    simp only [declaredPrefixes, List.mem_filter, List.mem_map, List.mem_cons] at hpart hresolves
    obtain ⟨⟨other, ⟨rfl | hother, hspace⟩, rfl⟩, hxml⟩ := hpart
    · exact hkeptRest (hdeclares (beq_iff_eq.mp hspace) (bne_iff_ne.mp hxml))
    · exact hresolves (List.mem_filter.mpr
        ⟨List.mem_map.mpr ⟨other, List.mem_filter.mpr ⟨hother, hspace⟩, rfl⟩, hxml⟩)

variable {own outer : Spaces}

theorem attributeSpace?_append {name : QName}
    (h : name.space ≠ [] → name.space ≠ xmlPrefix → name.space ∈ own.map Prod.fst) :
    attributeSpace? (own ++ outer) name = attributeSpace? own name := by
  rw [attributeSpace?, attributeSpace?]
  split
  · rfl
  next hxml =>
    split
    · rfl
    next hempty =>
      rw [lookup_append_of_mem outer (h (by simpa using hempty) (by simpa [xmlPrefix] using hxml))]

theorem resolveAttributes?_append {read : List Attribute} {raw : List RawAttribute}
    (h : ∀ first ∈ raw, first.name.space ≠ [] → first.name.space ≠ xmlPrefix →
      first.name.space ∈ own.map Prod.fst) :
    resolveAttributes? (own ++ outer) read raw = resolveAttributes? own read raw := by
  induction raw generalizing read with
  | nil => rfl
  | cons first raw ih =>
    rw [resolveAttributes?, resolveAttributes?, attributeSpace?_append (h first List.mem_cons_self)]
    refine congrArg (Option.bind _) (funext fun space? => ?_)
    dsimp only
    rw [ih fun other hother => h other (List.mem_cons_of_mem _ hother)]

theorem knowsSpace_append {name : QName} (h : name.space ≠ [] → name.space ∈ own.map Prod.fst) :
    knowsSpace (own ++ outer) name = knowsSpace own name := by
  rw [knowsSpace, knowsSpace]
  by_cases hempty : name.space = []
  · rw [hempty]
    rfl
  · rw [lookup_append_of_mem outer (h hempty)]

/-- A start tag that uses only prefixes that are declared in it or around it is entered without what is known
from further outside. -/
theorem enter?_of_append {name : QName} {raw : List RawAttribute} {declared : List (List (List Char))}
    {inner : Spaces} {attributes : List Attribute} (resolves : declared.flatten ⊆ own.map Prod.fst)
    (used : (usedPrefixes name raw).all (declaredPrefixes raw :: declared).flatten.contains = true)
    (h : enter? (own ++ outer) name raw = some (inner, attributes)) :
    ∃ ownInner, inner = ownInner ++ outer ∧ enter? own name raw = some (ownInner, attributes) ∧
      (declaredPrefixes raw :: declared).flatten ⊆ ownInner.map Prod.fst := by
  obtain ⟨spaces, hspaces, h⟩ := Option.bind_eq_some_iff.mp h
  obtain ⟨resolved, hresolved, h⟩ := Option.bind_eq_some_iff.mp h
  obtain ⟨hknown, hentered⟩ := Option.ite_none_right_eq_some.mp h
  obtain ⟨rfl, rfl⟩ := Prod.mk.inj (Option.some.inj hentered)
  -- Inside the tag everything that it declares is known, and all that was known before.
  have hinner : (declaredPrefixes raw :: declared).flatten ⊆ (spaces ++ own).map Prod.fst := by
    rw [List.flatten_cons, List.map_append]
    exact List.append_subset.mpr ⟨fun _ hpart => List.mem_append_left _ ((map_fst_of_foldlM hspaces).2 hpart),
      fun _ hpart => List.mem_append_right _ (resolves hpart)⟩
  have hused : ∀ part ∈ usedPrefixes name raw, part ∈ (spaces ++ own).map Prod.fst :=
    fun part hpart => hinner (List.contains_iff_mem.mp (List.all_eq_true.mp used part hpart))
  -- The tag uses nothing else, so neither its attributes nor its name is looked up further outside.
  rw [← List.append_assoc, resolveAttributes?_append] at hresolved
  · rw [← List.append_assoc, knowsSpace_append] at hknown
    · refine ⟨spaces ++ own, (List.append_assoc _ _ _).symm, ?_, hinner⟩
      refine Option.bind_eq_some_iff.mpr ⟨spaces, hspaces, ?_⟩
      refine Option.bind_eq_some_iff.mpr ⟨resolved, hresolved, ?_⟩
      rw [if_pos hknown]
    · exact fun hne => hused _ (by simp [usedPrefixes, hne])
  · intro first hfirst hne hxml
    refine hused _ (List.mem_filter.mpr ⟨List.mem_cons_of_mem _ (List.mem_filter.mpr ⟨?_, ?_⟩), ?_⟩)
    · exact List.mem_map_of_mem hfirst
    · simpa using hxml
    · simpa using hne

/-! ### Elements with their own prefixes -/

variable {start stop : Cursor} {events : List Event} {nodes : List Node}

/-- What an element holds stays what it is without the namespaces from outside, if their prefixes are not used. -/
theorem Holds.of_append {spaces : Spaces} {declared : List (List (List Char))} {more : List Event}
    (h : Holds spaces start events nodes stop) (hspaces : spaces = own ++ outer)
    (resolves : declared.flatten ⊆ own.map Prod.fst)
    (declares : declaresPrefixes declared (events ++ more) = true) :
    Holds own start events nodes stop ∧ declaresPrefixes declared more = true := by
  -- What an element declares is known to what it holds and to nothing behind it. So the induction is for all that is
  -- known outside, and the events behind are left with what is declared there.
  induction h generalizing own declared more with
  | nil => exact ⟨.nil, declares⟩
  | silent read _ ih =>
    obtain ⟨rest, after⟩ := ih hspaces resolves declares
    exact ⟨.silent read rest, after⟩
  | text read _ ih =>
    obtain ⟨rest, after⟩ := ih hspaces resolves declares
    exact ⟨.text read rest, after⟩
  | hollow read known _ ih =>
    subst hspaces
    obtain ⟨used, declares⟩ := Bool.and_eq_true_iff.mp declares
    obtain ⟨ownInner, rfl, entered, -⟩ := enter?_of_append resolves used known
    obtain ⟨rest, after⟩ := ih rfl resolves declares
    exact ⟨.hollow read entered rest, after⟩
  | element read known _ close _ ihHeld ih =>
    subst hspaces
    rw [List.cons_append, List.append_assoc] at declares
    obtain ⟨used, declares⟩ := Bool.and_eq_true_iff.mp declares
    obtain ⟨ownInner, rfl, entered, resolvesInner⟩ := enter?_of_append resolves used known
    obtain ⟨held, declares⟩ := ihHeld rfl resolvesInner declares
    obtain ⟨rest, after⟩ := ih rfl resolves declares
    exact ⟨.element read entered held close rest, after⟩

/-- An element with its own prefixes stays what it is without what is known around it. -/
theorem ElementIn.of_declaresPrefixes {node : Node} (h : ElementIn outer start events node stop)
    (declares : declaresPrefixes [] events = true) : ElementIn [] start events node stop := by
  have nothing : List.flatten ([] : List (List (List Char))) ⊆ List.map Prod.fst ([] : Spaces) :=
    List.nil_subset _
  cases h with
  | hollow read known =>
    obtain ⟨used, -⟩ := Bool.and_eq_true_iff.mp declares
    obtain ⟨ownInner, rfl, entered, -⟩ := enter?_of_append nothing used known
    exact .hollow read entered
  | paired read known held close =>
    obtain ⟨used, declares⟩ := Bool.and_eq_true_iff.mp declares
    obtain ⟨ownInner, rfl, entered, resolves⟩ := enter?_of_append nothing used known
    obtain ⟨heldOwn, -⟩ := held.of_append rfl resolves declares
    exact .paired read entered heldOwn close

end Exemplar.Markup
