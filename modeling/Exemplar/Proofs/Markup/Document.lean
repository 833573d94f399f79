import Exemplar.Markup.Document
import Exemplar.Proofs.Markup.Event
import Exemplar.Proofs.Text.Place

/-!
# Where elements stand

An element of a document covers the bytes from a `<` to a `>`, and so do the elements in it, between those
two and one after the other. Hence the pieces of a document come in the order in which they start, and none
of them comes twice.
-/

namespace Exemplar.Markup

open Text (byteSize)

/-- What stands in angle brackets, with the brackets. -/
def bracketed (inside : List Char) : List Char :=
  '<' :: inside ++ ['>']

theorem byteSize_bracketed (inside : List Char) : byteSize (bracketed inside) = byteSize inside + 2 := by
  have hopen : '<'.utf8Size = 1 := rfl
  have hclose : byteSize ['>'] = 1 := rfl
  rw [bracketed, List.cons_append, Text.byteSize_cons, Text.byteSize_append, hopen, hclose]
  omega

theorem getLast?_bracketed (inside : List Char) : (bracketed inside).getLast? = some '>' :=
  List.getLast?_concat

/-- A span covers a stretch of a document from a `<` to a `>`. -/
structure Covers (document : List Char) (span : Span) (before inside after : List Char) : Prop where
  split : document = before ++ bracketed inside ++ after
  start : span.start = byteSize before
  stop : span.stop = byteSize before + byteSize (bracketed inside)

theorem Covers.start_lt {document before inside after : List Char} {span : Span}
    (covers : Covers document span before inside after) : span.start + 1 < span.stop := by
  rw [covers.start, covers.stop, byteSize_bracketed]
  omega

theorem exists_covers {document : List Char} {start stop : Nat} (opens : OpensAt document start)
    (closes : ClosesAt document stop) (lt : start + 1 < stop) :
    ∃ before inside after, Covers document ⟨start, stop⟩ before inside after := by
  obtain ⟨before, rest, hopen, rfl⟩ := opens
  obtain ⟨front, after, hclose, rfl⟩ := closes
  have hsize : byteSize (before ++ ['<']) = byteSize before + 1 := by
    rw [Text.byteSize_append]
    rfl
  -- The `<` stands in front of the `>`.
  have hbefore : before ++ ['<'] <+: document := ⟨rest, by rw [hopen, List.append_assoc]; rfl⟩
  have hfront : front <+: document := ⟨'>' :: after, hclose.symm⟩
  obtain ⟨inside, rfl⟩ := Text.prefix_of_byteSize_le hbefore hfront (by omega)
  refine ⟨before, inside, after, ?_, rfl, ?_⟩
  · rw [hclose]
    simp [bracketed]
  · rw [byteSize_bracketed]
    simp only [Text.byteSize_append] at hsize ⊢
    omega

/-! ### Pieces of a document -/

/-- Pieces that stand between two bytes of a document, one after the other. Where text stands is not known. -/
inductive NodesIn (document : List Char) : Nat → List Node → Nat → Prop where
  | nil {start stop : Nat} (le : start ≤ stop) : NodesIn document start [] stop
  | text {start stop : Nat} {content : String} {nodes : List Node}
      (rest : NodesIn document start nodes stop) :
      NodesIn document start (.text content :: nodes) stop
  | element {start stop : Nat} {name : String} {attributes : List Attribute} {span : Span}
      {children nodes : List Node} {before inside after : List Char} (le : start ≤ span.start)
      (covers : Covers document span before inside after)
      (held : NodesIn document (span.start + 1) children span.stop)
      (rest : NodesIn document span.stop nodes stop) :
      NodesIn document start (.element name attributes children span :: nodes) stop

namespace NodesIn

variable {document : List Char} {start middle stop : Nat} {nodes others : List Node}

theorem of_le (le : start ≤ middle) (standing : NodesIn document middle nodes stop) :
    NodesIn document start nodes stop := by
  induction standing generalizing start with
  | nil le' => exact .nil (Nat.le_trans le le')
  | text _ ih => exact .text (ih le)
  | element le' covers held rest => exact .element (Nat.le_trans le le') covers held rest

theorem append (first : NodesIn document start nodes middle)
    (second : NodesIn document middle others stop) :
    NodesIn document start (nodes ++ others) stop := by
  induction first with
  | nil le => exact second.of_le le
  | text _ ih => exact .text (ih second)
  | element le covers held _ _ ih => exact .element le covers held (ih second)

theorem le (standing : NodesIn document start nodes stop) : start ≤ stop := by
  induction standing with
  | nil le => exact le
  | text _ ih => exact ih
  | element le covers _ _ _ ih =>
    have hspan := covers.start_lt
    omega

end NodesIn

/-! ### From events to trees -/

/-- Open elements, innermost first, with what is read of them up to a byte of the document. -/
inductive FramesIn (document : List Char) : List Frame → Nat → Prop where
  | nil {position : Nat} : FramesIn document [] position
  | cons {frame : Frame} {outer : List Frame} {position : Nat} (opens : OpensAt document frame.start)
      (held : NodesIn document (frame.start + 1) frame.children.reverse position)
      (around : FramesIn document outer frame.start) : FramesIn document (frame :: outer) position

/-- What is read up to a byte of the document stands there. -/
structure Assembly.StandsIn (document : List Char) (assembly : Assembly) (position : Nat) : Prop where
  frames : FramesIn document assembly.frames position
  root : ∀ node, assembly.root? = some node → ∃ stop, NodesIn document 0 [node] stop

namespace Assembly

variable {document : List Char} {assembly result : Assembly} {position stop : Nat}

/-- A finished piece stands behind what is read of the element around it. -/
theorem StandsIn.addNode {node : Node} (standing : assembly.StandsIn document position)
    (hnode : NodesIn document position [node] stop) : (assembly.addNode node).StandsIn document stop := by
  obtain ⟨frames, root?⟩ := assembly
  obtain ⟨framesIn, rootIn⟩ := standing
  cases framesIn with
  | nil =>
    refine ⟨.nil, ?_⟩
    rintro _ ⟨⟩
    exact ⟨stop, hnode.of_le (Nat.zero_le _)⟩
  | cons opens held around =>
    refine ⟨.cons opens ?_ around, rootIn⟩
    rw [List.reverse_cons]
    exact held.append hnode

theorem StandsIn.of_le (standing : assembly.StandsIn document position) (le : position ≤ stop) :
    assembly.StandsIn document stop := by
  obtain ⟨frames, root?⟩ := assembly
  obtain ⟨framesIn, rootIn⟩ := standing
  refine ⟨?_, rootIn⟩
  cases framesIn with
  | nil => exact .nil
  | cons opens held around =>
    have hheld := held.append (.nil le)
    rw [List.append_nil] at hheld
    exact .cons opens hheld around

theorem StandsIn.opening {name : QName} {raw : List RawAttribute} {offset : Nat}
    (standing : assembly.StandsIn document position) (le : position ≤ offset)
    (opens : OpensAt document offset) (h : assembly.step (.opening name raw offset) = some result) :
    result.StandsIn document (offset + 1) := by
  obtain ⟨declared, -, h⟩ := Option.bind_eq_some_iff.mp h
  obtain ⟨attributes, -, h⟩ := Option.bind_eq_some_iff.mp h
  obtain ⟨-, h⟩ := Option.ite_none_right_eq_some.mp h
  obtain rfl := Option.some.inj h
  exact ⟨.cons opens (.nil (Nat.le_refl _)) (standing.of_le le).frames, standing.root⟩

theorem StandsIn.closing {name? : Option QName} {offset : Nat}
    (standing : assembly.StandsIn document position) (lt : position < offset)
    (closes : ClosesAt document offset) (h : assembly.step (.closing name? offset) = some result) :
    result.StandsIn document offset := by
  obtain ⟨frames, root?⟩ := assembly
  obtain ⟨framesIn, rootIn⟩ := standing
  cases framesIn with
  | nil => cases h
  | @cons frame outer _ opens held around =>
    obtain ⟨-, h⟩ := Option.ite_none_right_eq_some.mp h
    obtain rfl := Option.some.inj h
    have hstart := held.le
    obtain ⟨before, inside, after, covers⟩ := exists_covers opens closes (by omega)
    have hheld := held.append (.nil (Nat.le_of_lt lt))
    rw [List.append_nil] at hheld
    -- The closed element stands where its frame started, in the element around.
    have outerIn : StandsIn document ⟨outer, root?⟩ frame.start := ⟨around, rootIn⟩
    exact outerIn.addNode (.element (Nat.le_refl _) covers hheld (.nil (Nat.le_refl _)))

/-- Reading on keeps everything at its place. -/
theorem StandsIn.foldlM {events : List Event} (standing : assembly.StandsIn document position)
    (hevents : EventsIn document position events stop)
    (h : events.foldlM step assembly = some result) : result.StandsIn document stop := by
  induction hevents generalizing assembly with
  | nil le =>
    obtain rfl := Option.some.inj h
    exact standing.of_le le
  | text _ ih =>
    rw [List.foldlM_cons] at h
    obtain ⟨next, hnext, hrest⟩ := Option.bind_eq_some_iff.mp h
    obtain rfl := Option.some.inj hnext
    exact ih (standing.addNode (.text (.nil (Nat.le_refl _)))) hrest
  | opening le opens _ ih =>
    rw [List.foldlM_cons] at h
    obtain ⟨next, hnext, hrest⟩ := Option.bind_eq_some_iff.mp h
    exact ih (standing.opening le opens hnext) hrest
  | closing lt closes _ ih =>
    rw [List.foldlM_cons] at h
    obtain ⟨next, hnext, hrest⟩ := Option.bind_eq_some_iff.mp h
    exact ih (standing.closing lt closes hnext) hrest

end Assembly

/-! ### Elements in elements -/

namespace NodesIn

variable {document : List Char} {start stop : Nat} {nodes : List Node}

/-- Every element, however deep, covers a stretch of the document between the two bytes. -/
theorem of_mem_descendants (standing : NodesIn document start nodes stop) {node : Node}
    (hnode : node ∈ Node.descendantsOfAll nodes) {name : String} (helement : node.isElement name = true) :
    NodesIn document node.span.start [node] node.span.stop ∧ start ≤ node.span.start ∧
      node.span.stop ≤ stop := by
  -- The element is one of the nodes, or below one of them, or comes later.
  induction standing with
  | nil => cases hnode
  | text _ ih =>
    rcases List.mem_cons.mp hnode with rfl | hrest
    · cases helement
    · exact ih hrest
  | @element start stop own attributes span children nodes before inside after le covers held rest ihHeld
      ihRest =>
    have hspan := covers.start_lt
    have hstop := rest.le
    rcases List.mem_append.mp hnode with hown | hrest
    · rcases List.mem_cons.mp hown with rfl | hinside
      · exact ⟨.element (Nat.le_refl _) covers held (.nil (Nat.le_refl _)), le, hstop⟩
      · obtain ⟨stands, first, last⟩ := ihHeld hinside
        exact ⟨stands, by omega, by omega⟩
    · obtain ⟨stands, first, last⟩ := ihRest hrest
      exact ⟨stands, by omega, by omega⟩

theorem exists_covers {node : Node} (standing : NodesIn document start [node] stop) {name : String}
    (helement : node.isElement name = true) :
    ∃ before inside after, Covers document node.span before inside after := by
  cases standing with
  | text => cases helement
  | element _ covers _ _ => exact ⟨_, _, _, covers⟩

/-- Elements come in the order in which they start. -/
theorem pairwise_start (standing : NodesIn document start nodes stop) :
    (Node.descendantsOfAll nodes).Pairwise fun node other =>
      ∀ name name', node.isElement name = true → other.isElement name' = true →
        node.span.start < other.span.start := by
  induction standing with
  | nil => exact .nil
  | text _ ih => exact .cons (fun _ _ _ _ h => by cases h) ih
  | @element start stop own attributes span children nodes before inside after le covers held rest ihHeld
      ihRest =>
    have hspan := covers.start_lt
    apply List.pairwise_append.mpr
    refine ⟨.cons ?_ ihHeld, ihRest, ?_⟩
    -- What is inside starts behind the `<` of the element.
    · intro other hother _ _ _ helement
      obtain ⟨-, first, -⟩ := held.of_mem_descendants hother helement
      exact first
    -- What follows starts behind its `>`.
    · intro node hnode other hother _ _ hnodeElement helement
      obtain ⟨-, first, -⟩ := rest.of_mem_descendants hother helement
      rcases List.mem_cons.mp hnode with rfl | hinside
      · exact Nat.lt_of_lt_of_le (Nat.lt_of_succ_lt hspan) first
      · obtain ⟨stands, -, last⟩ := held.of_mem_descendants hinside hnodeElement
        obtain ⟨_, _, _, inner⟩ := stands.exists_covers hnodeElement
        have hinner := inner.start_lt
        omega

end NodesIn

/-! ### Parts of a document -/

namespace Node

/-- A piece is part of another one if it is that piece, or part of something that stands in it. -/
inductive PartOf (node : Node) : Node → Prop where
  | refl : PartOf node node
  | child {child parent : Node} (hchild : child ∈ parent.children) (part : PartOf node child) :
      PartOf node parent

theorem PartOf.trans {node middle root : Node} (inner : node.PartOf middle) (outer : middle.PartOf root) :
    node.PartOf root := by
  induction outer with
  | refl => exact inner
  | child hchild _ ih => exact .child hchild ih

theorem descendantsOfAll_eq_flatMap (nodes : List Node) :
    descendantsOfAll nodes = nodes.flatMap descendants := by
  induction nodes with
  | nil => rfl
  | cons node nodes ih => rw [descendantsOfAll, List.flatMap_cons, ih]

theorem partOf_of_mem_descendants : ∀ {root node : Node}, node ∈ root.descendants → node.PartOf root
  | .text content, node, h => by
    obtain rfl := List.mem_singleton.mp h
    exact .refl
  | .element name attributes children span, node, h => by
    rcases List.mem_cons.mp h with rfl | hinside
    · exact .refl
    · rw [descendantsOfAll_eq_flatMap] at hinside
      obtain ⟨child, hchild, hmem⟩ := List.mem_flatMap.mp hinside
      have smaller := List.sizeOf_lt_of_mem hchild
      exact .child hchild (partOf_of_mem_descendants hmem)

/-- Going through a document comes to all of its parts, and to nothing else. -/
theorem mem_descendants_iff {root node : Node} : node ∈ root.descendants ↔ node.PartOf root := by
  constructor
  · exact partOf_of_mem_descendants
  · intro part
    induction part with
    | refl => cases node <;> exact List.mem_cons_self
    | @child child parent hchild _ ih =>
      cases parent with
      | text content => cases hchild
      | element name attributes children span =>
        refine List.mem_cons_of_mem _ ?_
        rw [descendantsOfAll_eq_flatMap]
        exact List.mem_flatMap.mpr ⟨child, hchild, ih⟩

theorem descendantsOfAll_singleton (node : Node) : descendantsOfAll [node] = node.descendants := by
  rw [descendantsOfAll, descendantsOfAll, List.append_nil]

/-- The outermost element of a document stands in it. -/
theorem nodesIn_of_ofText? {text : String} {root : Node} (h : ofText? text = some root) :
    ∃ stop, NodesIn text.toList 0 [root] stop := by
  obtain ⟨events, hevents, h⟩ := Option.bind_eq_some_iff.mp h
  obtain ⟨assembly, hassembly, hroot⟩ := Option.bind_eq_some_iff.mp h
  obtain ⟨stop, standing⟩ := Event.eventsIn_of_ofText? hevents
  have empty : Assembly.StandsIn text.toList {} 0 := ⟨.nil, fun _ h => by cases h⟩
  exact (empty.foldlM standing hassembly).root root hroot

end Node

end Exemplar.Markup
