import Exemplar.Proofs.Markup.Prefix
import Mathlib.Data.List.Basic

/-!
# Elements on their own

An element of a document can be cut out of it and read as a document of its own. If it uses no prefixes but its
own, its tree is the same as in the document, only that every place in it is counted from its own start.
-/

namespace Exemplar.Markup

open Scan
open Text (byteSize)

/-! ### Moving on -/

/-- The same stretch with `n` more bytes in front. -/
def Span.moveOn (n : Nat) (span : Span) : Span :=
  ⟨n + span.start, n + span.stop⟩

/-- The same event with `n` more bytes in front. -/
def Event.moveOn (n : Nat) : Event → Event
  | opening name attributes start => opening name attributes (n + start)
  | closing name? stop => closing name? (n + stop)
  | text content => text content

namespace Node

mutual

/-- The same piece with `n` more bytes in front. -/
def moveOn (n : Nat) : Node → Node
  | .text content => .text content
  | .element name attributes children span =>
    .element name attributes (moveOnAll n children) (span.moveOn n)

/-- The same pieces with `n` more bytes in front. -/
def moveOnAll (n : Nat) : List Node → List Node
  | [] => []
  | node :: nodes => node.moveOn n :: moveOnAll n nodes

end

theorem moveOnAll_eq_map (n : Nat) (nodes : List Node) : moveOnAll n nodes = nodes.map (moveOn n) := by
  induction nodes with
  | nil => rfl
  | cons node nodes ih => rw [moveOnAll, ih, List.map_cons]

/-- Moving on keeps what is in a piece, and its order. -/
theorem descendants_moveOn (n : Nat) : ∀ node : Node,
    (node.moveOn n).descendants = node.descendants.map (moveOn n)
  | .text content => by rw [moveOn, descendants, List.map_singleton, moveOn]
  | .element name attributes children span => by
    -- The recursion is through the list of children, whose members are smaller than the element.
    have hchildren : ∀ child ∈ children,
        (child.moveOn n).descendants = child.descendants.map (moveOn n) :=
      fun child hchild => by
        have smaller := List.sizeOf_lt_of_mem hchild
        exact descendants_moveOn n child
    rw [moveOn, descendants, descendants, List.map_cons, descendantsOfAll_eq_flatMap,
      descendantsOfAll_eq_flatMap, moveOnAll_eq_map, List.flatMap_map, List.map_flatMap, moveOn,
      moveOnAll_eq_map]
    exact congrArg _ (List.flatMap_congr hchildren)

variable (n : Nat) (node : Node)

theorem isElement_moveOn (name : String) : (node.moveOn n).isElement name = node.isElement name := by
  cases node <;> rfl

theorem attribute?_moveOn (name : String) : (node.moveOn n).attribute? name = node.attribute? name := by
  cases node <;> rfl

theorem children_moveOn : (node.moveOn n).children = node.children.map (moveOn n) := by
  cases node with
  | text content => rfl
  | element name attributes children span => exact moveOnAll_eq_map n children

theorem textContent_moveOn : (node.moveOn n).textContent = node.textContent := by
  rw [textContent, textContent, descendants_moveOn, List.filterMap_map]
  refine congrArg String.join (List.filterMap_congr fun piece _ => ?_)
  cases piece <;> rfl

theorem span_moveOn {name : String} (h : node.isElement name = true) :
    (node.moveOn n).span = node.span.moveOn n := by
  cases node with
  | text content => cases h
  | element _ _ _ span => rfl

end Node

/-! ### Cutting out -/

variable {n : Nat} {after more : List Char} {start middle stop : Cursor} {spaces outer : Spaces}
  {events : List Event} {nodes : List Node} {node : Node}

theorem Piece.next_alone {piece : Piece}
    (h : Piece.next.run (start.within n after) = some (piece, middle))
    (rest : middle.Reads more (stop.within n after)) :
    ∃ inner : Cursor, middle = inner.within n after ∧ Piece.next.run start = some (piece, inner) := by
  obtain ⟨read, reads⟩ := Piece.local_next.advances h
  obtain ⟨inner, rfl, -, -⟩ := Cursor.exists_within_of_reads reads rest
  exact ⟨inner, rfl, Piece.local_next.alone h (Nat.zero_le _)⟩

/-- What stands between two cursors in the stretch is the same in the stretch alone. -/
theorem Holds.exists_alone {first last : Cursor} (h : Holds spaces first events nodes last)
    (hfirst : first = start.within n after) (hlast : last = stop.within n after) :
    ∃ events' nodes', Holds spaces start events' nodes' stop ∧
      events = events'.map (Event.moveOn n) ∧ nodes = Node.moveOnAll n nodes' := by
  -- The cursors between the pieces have to be in the stretch as well. They are, because what is behind each of them is
  -- read up to a cursor in the stretch.
  induction h generalizing start stop with
  | nil =>
    obtain rfl := Cursor.within_injective n after (hfirst.symm.trans hlast)
    exact ⟨[], [], .nil, rfl, rfl⟩
  | silent read rest ih =>
    subst hfirst hlast
    obtain ⟨behind, reads⟩ := rest.exists_reads
    obtain ⟨inner, rfl, readAlone⟩ := Piece.next_alone read reads
    obtain ⟨events', nodes', restAlone, rfl, rfl⟩ := ih rfl rfl
    exact ⟨events', nodes', .silent readAlone restAlone, rfl, rfl⟩
  | @text _ _ _ _ content _ _ read rest ih =>
    subst hfirst hlast
    obtain ⟨behind, reads⟩ := rest.exists_reads
    obtain ⟨inner, rfl, readAlone⟩ := Piece.next_alone read reads
    obtain ⟨events', nodes', restAlone, rfl, rfl⟩ := ih rfl rfl
    exact ⟨_, .text (String.ofList content) :: nodes', .text readAlone restAlone, rfl,
      by simp [Node.moveOnAll, Node.moveOn]⟩
  | hollow read known rest ih =>
    subst hfirst hlast
    obtain ⟨behind, reads⟩ := rest.exists_reads
    obtain ⟨inner, rfl, readAlone⟩ := Piece.next_alone read reads
    obtain ⟨events', nodes', restAlone, rfl, rfl⟩ := ih rfl rfl
    exact ⟨_, _, .hollow readAlone known restAlone, rfl, by rw [Node.moveOnAll, Node.moveOn, Node.moveOnAll]; rfl⟩
  | element read known held close rest ihHeld ih =>
    subst hfirst hlast
    obtain ⟨behind, reads⟩ := rest.exists_reads
    obtain ⟨tag, readsTag⟩ := Piece.local_next.advances close
    obtain ⟨inside, readsInside⟩ := held.exists_reads
    obtain ⟨first, rfl, readAlone⟩ :=
      Piece.next_alone read ((readsInside.trans readsTag).trans reads)
    obtain ⟨last, rfl, -, -⟩ := Cursor.exists_within_of_reads readsInside (readsTag.trans reads)
    obtain ⟨middle, rfl, closeAlone⟩ := Piece.next_alone close reads
    obtain ⟨own', children', heldAlone, rfl, rfl⟩ := ihHeld rfl rfl
    obtain ⟨events', nodes', restAlone, rfl, rfl⟩ := ih rfl rfl
    exact ⟨_, _, .element readAlone known heldAlone closeAlone restAlone, by simp [Event.moveOn, Cursor.within],
      by rw [Node.moveOnAll, Node.moveOn]; rfl⟩

theorem ElementIn.exists_alone
    (h : ElementIn outer (start.within n after) events node (stop.within n after)) :
    ∃ events' node', ElementIn outer start events' node' stop ∧
      events = events'.map (Event.moveOn n) ∧ node = node'.moveOn n := by
  generalize hstop : stop.within n after = last at h
  cases h with
  | hollow read known =>
    subst hstop
    exact ⟨_, _, .hollow (Piece.local_startTag.alone read (Nat.zero_le _)) known, rfl,
      by rw [Node.moveOn, Node.moveOnAll]; rfl⟩
  | paired read known held close =>
    subst hstop
    obtain ⟨tag, readsTag⟩ := Piece.local_next.advances close
    obtain ⟨inside, readsInside⟩ := held.exists_reads
    obtain ⟨opening, readsOpening⟩ := Piece.local_startTag.advances read
    -- Between its tags, the element stays in the stretch.
    obtain ⟨first, rfl, -, -⟩ := Cursor.exists_within_of_reads readsOpening (readsInside.trans readsTag)
    obtain ⟨last, rfl, -, -⟩ := Cursor.exists_within_of_reads readsInside readsTag
    obtain ⟨own', children', heldAlone, rfl, rfl⟩ := held.exists_alone rfl rfl
    exact ⟨_, _, .paired (Piece.local_startTag.alone read (Nat.zero_le _)) known heldAlone
        (Piece.local_next.alone close (Nat.zero_le _)), by simp [Event.moveOn, Cursor.within],
      by rw [Node.moveOn]; rfl⟩

/-- An element of a document, cut out of it, can be read again. With no prefixes but its own it is the same
element. -/
theorem Node.exists_slice {text : String} {root : Node} (hroot : Node.ofText? text = some root)
    (part : node.PartOf root) {name : String} (helement : node.isElement name = true) :
    ∃ before inside after, text.toList = before ++ inside ++ after ∧
      node.span = ⟨byteSize before, byteSize before + byteSize inside⟩ ∧
      (usesOwnPrefixes inside = true → ∃ alone,
        Node.ofText? (String.ofList inside) = some alone ∧ node = alone.moveOn (byteSize before)) := by
  obtain ⟨start, events, stop, ⟨lead, htext, hlead⟩, hdocument⟩ := Node.exists_elementIn_of_ofText? hroot
  have hmem : node ∈ Node.descendantsOfAll [root] := by
    rwa [Node.descendantsOfAll_singleton, Node.mem_descendants_iff]
  obtain ⟨outer, first, own, last, front, back, element, readsFront, readsBack⟩ :=
    (hdocument.holds .nil).elementBetween hmem helement
  obtain ⟨inside, reads⟩ := element.exists_reads
  have hoffset : first.offset = byteSize (lead ++ front) := by
    rw [Text.byteSize_append, hlead, readsFront.offset]
  -- The element stands behind `lead ++ front`, and is cut out there.
  have hfirst : first = Cursor.within (byteSize (lead ++ front)) last.rest ⟨0, inside⟩ := by
    obtain ⟨offset, rest⟩ := first
    simp only [Cursor.within, Nat.add_zero, Cursor.mk.injEq]
    exact ⟨hoffset, reads.rest⟩
  have hlast : last = Cursor.within (byteSize (lead ++ front)) last.rest ⟨byteSize inside, []⟩ := by
    obtain ⟨offset, rest⟩ := last
    simp only [Cursor.within, List.nil_append, Cursor.mk.injEq, and_true]
    rw [← hoffset]
    exact reads.offset
  rw [hfirst, hlast] at element
  obtain ⟨events', node', alone, -, rfl⟩ := element.exists_alone
  refine ⟨lead ++ front, inside, last.rest, ?_, ?_, ?_⟩
  · rw [htext, readsFront.rest, reads.rest]
    simp
  · rw [element.span_eq, Cursor.within, Cursor.within, Nat.add_zero]
  · intro declares
    -- Cut out, the element still knows what is declared around it. As it does not use that, it can do without.
    rw [usesOwnPrefixes, Event.ofText?_of_elementIn alone] at declares
    have own : ElementIn [] ⟨0, (String.ofList inside).toList⟩ events' node' ⟨byteSize inside, []⟩ := by
      rw [String.toList_ofList]
      exact alone.of_declaresPrefixes declares
    exact ⟨node', Node.ofText?_of_elementIn own, rfl⟩

/-- A document is not blank. -/
theorem Node.isBlankText_of_ofText? {text : String} {root : Node} (hroot : Node.ofText? text = some root) :
    Text.isBlankText text.toList = false := by
  obtain ⟨start, events, stop, ⟨lead, htext, -⟩, hdocument⟩ := Node.exists_elementIn_of_ofText? hroot
  have atTag : start.IsAtTag := by
    cases hdocument with
    | hollow read | paired read => exact Piece.isAtTag_of_startTag read
  obtain ⟨c, cs, hrest, -⟩ := atTag
  rw [htext, hrest, Text.isBlankText, List.all_append, List.all_cons, Bool.and_eq_false_iff]
  exact Or.inr rfl

end Exemplar.Markup
