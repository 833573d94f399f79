import Exemplar.Proofs.Markup.Document
import Exemplar.Proofs.Markup.Piece

/-!
# Elements as they are written

A document is read twice: pieces become events while tags are counted, and events become a tree while names and
namespaces are looked after. Here both are put together. An element is a start tag, what it holds, and an end tag
with the same name; what it holds is pieces and elements. Reading a document finds such an element, and any such
element can be read.
-/

namespace Exemplar.Markup

open Scan
open Event (content elementRest stepDepth)

/-- The namespaces known in an element and its attributes, if they are in order. -/
def enter? (outer : Spaces) (name : QName) (raw : List RawAttribute) : Option (Spaces × List Attribute) := do
  let declared ← raw.foldlM declareSpace? []
  let spaces := declared ++ outer
  let attributes ← resolveAttributes? spaces [] (raw.filter (!·.isDeclaration))
  if knowsSpace spaces name then some (spaces, attributes) else none

/-- What stands between two cursors inside of an element, with the events and the nodes that it leaves. -/
inductive Holds : Spaces → Cursor → List Event → List Node → Cursor → Prop where
  | nil {spaces : Spaces} {cursor : Cursor} : Holds spaces cursor [] [] cursor
  | silent {spaces : Spaces} {start middle stop : Cursor} {events : List Event} {nodes : List Node}
      (read : Piece.next.run start = some (.silent, middle))
      (rest : Holds spaces middle events nodes stop) : Holds spaces start events nodes stop
  | text {spaces : Spaces} {start middle stop : Cursor} {content : List Char} {events : List Event}
      {nodes : List Node} (read : Piece.next.run start = some (.text content, middle))
      (rest : Holds spaces middle events nodes stop) :
      Holds spaces start (.text content :: events) (.text (String.ofList content) :: nodes) stop
  | hollow {spaces inner : Spaces} {start middle stop : Cursor} {name : QName} {raw : List RawAttribute}
      {attributes : List Attribute} {events : List Event} {nodes : List Node}
      (read : Piece.next.run start = some (.hollow name raw, middle))
      (known : enter? spaces name raw = some (inner, attributes))
      (rest : Holds spaces middle events nodes stop) :
      Holds spaces start (.opening name raw start.offset :: .closing none middle.offset :: events)
        (.element (String.ofList name.localName) attributes [] ⟨start.offset, middle.offset⟩ :: nodes) stop
  | element {spaces inner : Spaces} {start first last middle stop : Cursor} {name : QName}
      {raw : List RawAttribute} {attributes : List Attribute} {own events : List Event}
      {children nodes : List Node} (read : Piece.next.run start = some (.opening name raw, first))
      (known : enter? spaces name raw = some (inner, attributes))
      (held : Holds inner first own children last)
      (close : Piece.next.run last = some (.closing name, middle))
      (rest : Holds spaces middle events nodes stop) :
      Holds spaces start
        (.opening name raw start.offset :: (own ++ .closing (some name) middle.offset :: events))
        (.element (String.ofList name.localName) attributes children ⟨start.offset, middle.offset⟩ :: nodes)
        stop

/-- An element that stands between two cursors. -/
inductive ElementIn (outer : Spaces) (start : Cursor) : List Event → Node → Cursor → Prop where
  | hollow {inner : Spaces} {stop : Cursor} {name : QName} {raw : List RawAttribute}
      {attributes : List Attribute} (read : Piece.startTag.run start = some (.hollow name raw, stop))
      (known : enter? outer name raw = some (inner, attributes)) :
      ElementIn outer start [.opening name raw start.offset, .closing none stop.offset]
        (.element (String.ofList name.localName) attributes [] ⟨start.offset, stop.offset⟩) stop
  | paired {inner : Spaces} {first last stop : Cursor} {name : QName} {raw : List RawAttribute}
      {attributes : List Attribute} {own : List Event} {children : List Node}
      (read : Piece.startTag.run start = some (.opening name raw, first))
      (known : enter? outer name raw = some (inner, attributes))
      (held : Holds inner first own children last)
      (close : Piece.next.run last = some (.closing name, stop)) :
      ElementIn outer start
        (.opening name raw start.offset :: (own ++ [.closing (some name) stop.offset]))
        (.element (String.ofList name.localName) attributes children ⟨start.offset, stop.offset⟩) stop

variable {outer spaces : Spaces} {start middle stop : Cursor} {events own more : List Event}
  {node : Node} {nodes children : List Node}

/-! ### Start tags -/

/-- A tag begins with `<` and a character of a name. -/
def Cursor.IsAtTag (cursor : Cursor) : Prop :=
  ∃ c cs, cursor.rest = '<' :: c :: cs ∧ isNameChar c = true

theorem Cursor.IsAtTag.not_prefix {cursor : Cursor} (h : cursor.IsAtTag) {text : String} {second : Char}
    {others : List Char} (htext : text.toList = '<' :: second :: others)
    (hsecond : isNameChar second = false) : ¬ text.toList <+: cursor.rest := by
  obtain ⟨c, cs, hrest, hc⟩ := h
  rw [htext, hrest, List.cons_prefix_cons, List.cons_prefix_cons]
  rintro ⟨-, rfl, -⟩
  rw [hsecond] at hc
  cases hc

namespace Piece

variable {piece : Piece}

theorem isAtTag_of_startTag (h : startTag.run start = some (piece, stop)) : start.IsAtTag := by
  obtain ⟨_, opened, hopen, h⟩ := run_bind_eq_some_iff.mp h
  obtain ⟨name, named, hname, -⟩ := run_bind_eq_some_iff.mp h
  obtain ⟨read, last, hread, hqualify⟩ := run_bind_eq_some_iff.mp hname
  obtain ⟨reads, hchars, -⟩ := run_takeWhile_eq_some_iff.mp hread
  cases read with
  | nil => exact absurd hqualify run_failure_ne_some
  | cons c cs =>
    refine ⟨c, cs ++ last.rest, ?_, hchars c List.mem_cons_self⟩
    rw [(reads_of_expect hopen).rest, reads.rest]
    rfl

/-- What is next at a start tag is that tag. -/
theorem next_of_startTag (h : startTag.run start = some (piece, stop)) :
    next.run start = some (piece, stop) := by
  -- Behind the `<` is a character of a name, which none of the other texts has there.
  have atTag := isAtTag_of_startTag h
  have htag : "<".toList <+: start.rest := by
    obtain ⟨c, cs, hrest, -⟩ := atTag
    exact ⟨c :: cs, hrest.symm⟩
  rw [run_next, if_neg (atTag.not_prefix rfl rfl), if_neg (atTag.not_prefix rfl rfl),
    if_neg (atTag.not_prefix rfl rfl), if_neg (atTag.not_prefix rfl rfl), if_pos htag]
  exact h

/-- Whether a piece opens an element. -/
def opens : Piece → Bool
  | opening _ _ | hollow _ _ => true
  | silent | text _ | closing _ => false

theorem opens_of_startTag (h : startTag.run start = some (piece, stop)) : piece.opens = true := by
  obtain ⟨_, _, -, h⟩ := run_bind_eq_some_iff.mp h
  obtain ⟨name, _, -, h⟩ := run_bind_eq_some_iff.mp h
  obtain ⟨attributes, _, -, h⟩ := run_bind_eq_some_iff.mp h
  obtain ⟨hit, _, -, h⟩ := run_bind_eq_some_iff.mp h
  split at h
  · obtain ⟨rfl, -⟩ := run_pure_eq_some_iff.mp h
    rfl
  · obtain ⟨_, _, -, h⟩ := run_bind_eq_some_iff.mp h
    obtain ⟨rfl, -⟩ := run_pure_eq_some_iff.mp h
    rfl

/-- Nothing but a start tag opens an element. -/
theorem startTag_of_next (h : next.run start = some (piece, stop)) (opens : piece.opens = true) :
    startTag.run start = some (piece, stop) := by
  -- Of the six ways to go on, five answer with a piece that opens nothing.
  have silent {scan : Scan Unit} (h : (scan >>= fun _ => pure silent).run start = some (piece, stop)) :
      False := by
    obtain ⟨_, _, -, h⟩ := run_bind_eq_some_iff.mp h
    obtain ⟨rfl, -⟩ := run_pure_eq_some_iff.mp h
    cases opens
  rw [run_next] at h
  split at h
  · exact (silent h).elim
  split at h
  · obtain ⟨_, _, -, h⟩ := run_bind_eq_some_iff.mp h
    obtain ⟨_, _, -, h⟩ := run_bind_eq_some_iff.mp h
    obtain ⟨rfl, -⟩ := run_pure_eq_some_iff.mp h
    cases opens
  split at h
  · exact (silent h).elim
  split at h
  · obtain ⟨_, _, -, h⟩ := run_bind_eq_some_iff.mp h
    obtain ⟨_, _, -, h⟩ := run_bind_eq_some_iff.mp h
    obtain ⟨_, _, -, h⟩ := run_bind_eq_some_iff.mp h
    obtain ⟨_, _, -, h⟩ := run_bind_eq_some_iff.mp h
    obtain ⟨rfl, -⟩ := run_pure_eq_some_iff.mp h
    cases opens
  split at h
  · exact h
  · obtain ⟨_, content, -, -, -, -, -, -, rfl⟩ := run_characters_eq_some_iff.mp h
    cases opens

end Piece

/-! ### What is read -/

theorem Holds.exists_reads (h : Holds spaces start events nodes stop) : ∃ read, start.Reads read stop := by
  induction h with
  | nil => exact ⟨[], .refl _⟩
  | silent read _ ih | text read _ ih | hollow read _ _ ih =>
    obtain ⟨front, readsFront⟩ := Piece.local_next.advances read
    obtain ⟨back, readsBack⟩ := ih
    exact ⟨front ++ back, readsFront.trans readsBack⟩
  | element read _ _ close _ ihHeld ih =>
    obtain ⟨front, readsFront⟩ := Piece.local_next.advances read
    obtain ⟨inside, readsInside⟩ := ihHeld
    obtain ⟨tag, readsTag⟩ := Piece.local_next.advances close
    obtain ⟨back, readsBack⟩ := ih
    exact ⟨_, ((readsFront.trans readsInside).trans readsTag).trans readsBack⟩

theorem Holds.length_le (h : Holds spaces start events nodes stop) :
    stop.rest.length ≤ start.rest.length := by
  obtain ⟨read, reads⟩ := h.exists_reads
  rw [reads.rest, List.length_append]
  exact Nat.le_add_left _ _

theorem ElementIn.holds (h : ElementIn outer start own node middle)
    (rest : Holds outer middle events nodes stop) :
    Holds outer start (own ++ events) (node :: nodes) stop := by
  cases h with
  | hollow read known => exact .hollow (Piece.next_of_startTag read) known rest
  | paired read known held close =>
    rw [List.cons_append, List.append_assoc, List.singleton_append]
    exact .element (Piece.next_of_startTag read) known held close rest

theorem ElementIn.exists_reads (h : ElementIn outer start events node stop) :
    ∃ read, start.Reads read stop :=
  (h.holds .nil).exists_reads

theorem ElementIn.span_eq (h : ElementIn outer start events node stop) :
    node.span = ⟨start.offset, stop.offset⟩ := by
  cases h <;> rfl

/-- An element stands somewhere between two cursors, whatever is known around it. -/
def ElementBetween (node : Node) (start stop : Cursor) : Prop :=
  ∃ outer first events last front back, ElementIn outer first events node last ∧ start.Reads front first ∧
    last.Reads back stop

namespace ElementBetween

theorem whole (element : ElementIn outer start events node stop) : ElementBetween node start stop :=
  ⟨outer, start, events, stop, [], [], element, .refl _, .refl _⟩

theorem behind {read : List Char} (reads : start.Reads read middle) (inside : ElementBetween node middle stop) :
    ElementBetween node start stop := by
  obtain ⟨outer, first, events, last, front, back, element, before, after⟩ := inside
  exact ⟨outer, first, events, last, _, back, element, reads.trans before, after⟩

theorem inFrontOf {read : List Char} (inside : ElementBetween node start middle) (reads : middle.Reads read stop) :
    ElementBetween node start stop := by
  obtain ⟨outer, first, events, last, front, back, element, before, after⟩ := inside
  exact ⟨outer, first, events, last, front, _, element, before, after.trans reads⟩

end ElementBetween

/-- An element among what is held stands somewhere in it. -/
theorem Holds.elementBetween (h : Holds spaces start events nodes stop)
    (hnode : node ∈ Node.descendantsOfAll nodes) {name : String} (helement : node.isElement name = true) :
    ElementBetween node start stop := by
  -- It may be the first node, or one inside of that, or a later one. Pieces are read before and behind it.
  induction h with
  | nil => cases hnode
  | silent read _ ih =>
    obtain ⟨piece, reads⟩ := Piece.local_next.advances read
    exact (ih hnode).behind reads
  | text read _ ih =>
    obtain ⟨piece, reads⟩ := Piece.local_next.advances read
    rcases List.mem_cons.mp hnode with rfl | hrest
    · cases helement
    · exact (ih hrest).behind reads
  | hollow read known rest ih =>
    obtain ⟨piece, reads⟩ := Piece.local_next.advances read
    obtain ⟨back, readsBack⟩ := rest.exists_reads
    rcases List.mem_cons.mp hnode with rfl | hrest
    · exact (ElementBetween.whole (.hollow (Piece.startTag_of_next read rfl) known)).inFrontOf readsBack
    · exact (ih hrest).behind reads
  | element read known held close rest ihHeld ih =>
    obtain ⟨piece, reads⟩ := Piece.local_next.advances read
    obtain ⟨inside, readsInside⟩ := held.exists_reads
    obtain ⟨tag, readsTag⟩ := Piece.local_next.advances close
    obtain ⟨back, readsBack⟩ := rest.exists_reads
    rcases List.mem_append.mp hnode with hown | hrest
    · rcases List.mem_cons.mp hown with rfl | hinside
      · exact (ElementBetween.whole (.paired (Piece.startTag_of_next read rfl) known held close)).inFrontOf readsBack
      · exact ((ihHeld hinside).behind reads).inFrontOf (readsTag.trans readsBack)
    · exact (ih hrest).behind ((reads.trans readsInside).trans readsTag)

/-! ### Any element can be read -/

theorem run_elementRest_succ_iff {bound depth : Nat} :
    (elementRest (bound + 1) (depth + 1)).run start = some (events, stop) ↔
      ∃ piece middle more, Piece.next.run start = some (piece, middle) ∧
        (elementRest bound ((piece.events start.offset middle.offset).foldl stepDepth (depth + 1))).run
          middle = some (more, stop) ∧
        events = piece.events start.offset middle.offset ++ more := by
  rw [elementRest, run_bind_eq_some_iff]
  constructor
  · rintro ⟨own, middle, hcontent, h⟩
    obtain ⟨more, last, hmore, hdone⟩ := run_bind_eq_some_iff.mp h
    obtain ⟨rfl, rfl⟩ := run_pure_eq_some_iff.mp hdone
    rw [Piece.run_content, Option.map_eq_some_iff] at hcontent
    obtain ⟨⟨piece, middle⟩, hnext, heq⟩ := hcontent
    obtain ⟨rfl, rfl⟩ := Prod.mk.inj heq
    exact ⟨piece, middle, more, hnext, hmore, rfl⟩
  · rintro ⟨piece, middle, more, hnext, hmore, rfl⟩
    refine ⟨_, middle, ?_, run_bind_eq_some_iff.mpr ⟨more, stop, hmore, rfl⟩⟩
    rw [Piece.run_content, hnext]
    rfl

/-- Reading goes on in the same way if more pieces may follow. -/
theorem run_elementRest_of_le {bound bound' depth : Nat} (le : bound ≤ bound')
    (h : (elementRest bound depth).run start = some (events, stop)) :
    (elementRest bound' depth).run start = some (events, stop) := by
  induction bound generalizing bound' depth start events with
  | zero =>
    cases depth with
    | zero => rwa [elementRest] at h ⊢
    | succ depth => exact absurd h run_failure_ne_some
  | succ bound ih =>
    obtain ⟨bound', rfl⟩ := Nat.exists_eq_succ_of_ne_zero (Nat.ne_zero_of_lt le)
    cases depth with
    | zero => rwa [elementRest] at h ⊢
    | succ depth =>
      obtain ⟨piece, middle, more, hnext, hmore, rfl⟩ := run_elementRest_succ_iff.mp h
      exact run_elementRest_succ_iff.mpr
        ⟨piece, middle, more, hnext, ih (Nat.le_of_succ_le_succ le) hmore, rfl⟩

theorem Piece.length_lt_of_next {piece : Piece} (h : Piece.next.run start = some (piece, stop)) :
    stop.rest.length < start.rest.length := by
  obtain ⟨read, reads, hread⟩ := Piece.consumes_next h
  rw [reads.rest, List.length_append]
  omega

/-- What an element holds is read before the rest of it. Each piece takes a character, so that characters bound
how many pieces are read. -/
theorem Holds.run_elementRest (h : Holds spaces start own nodes stop) {bound bound' depth : Nat} {last : Cursor}
    (hrest : (elementRest bound (depth + 1)).run stop = some (more, last))
    (le : bound + start.rest.length ≤ bound' + stop.rest.length) :
    (elementRest bound' (depth + 1)).run start = some (own ++ more, last) := by
  induction h generalizing bound bound' depth more last with
  | nil => exact run_elementRest_of_le (by omega) hrest
  | @silent _ start middle stop events nodes read rest ih | @text _ start middle stop content events nodes read rest ih
  | @hollow _ inner start middle stop name raw attributes events nodes read _ rest ih =>
    -- The piece takes one step and one character at least.
    have hlt := Piece.length_lt_of_next read
    have hle := rest.length_le
    obtain ⟨bound', rfl⟩ := Nat.exists_eq_succ_of_ne_zero (n := bound') (by omega)
    exact run_elementRest_succ_iff.mpr ⟨_, middle, _, read, ih hrest (by omega), rfl⟩
  | @element _ inner start first inside middle stop name raw attributes own events children nodes read known
      held close rest ihHeld ih =>
    have hopen := Piece.length_lt_of_next read
    have hclose := Piece.length_lt_of_next close
    have hheld := held.length_le
    have hle := rest.length_le
    obtain ⟨bound', rfl⟩ := Nat.exists_eq_succ_of_ne_zero (n := bound') (by omega)
    -- From the back: what follows, the end tag, what is inside, the start tag.
    have hafter : (elementRest (bound + (middle.rest.length - stop.rest.length)) (depth + 1)).run middle =
        some (events ++ more, last) := ih hrest (by omega)
    have htag : (elementRest (bound + (middle.rest.length - stop.rest.length) + 1) (depth + 1 + 1)).run inside =
        some (.closing (some name) middle.offset :: (events ++ more), last) :=
      run_elementRest_succ_iff.mpr ⟨_, middle, _, close, hafter, rfl⟩
    refine run_elementRest_succ_iff.mpr ⟨_, first, _, read, ihHeld htag (by omega), ?_⟩
    simp [Piece.events]

end Exemplar.Markup
