import Exemplar.Proofs.Markup.Element

/-!
# Documents are read as their elements

A well-formed document has an element, with only what leaves no event around it, and the tree of the document is
the node of that element. The other way around, a text that is an element is a document.
-/

namespace Exemplar.Markup

open Scan
open Event (content elementRest stepDepth)
open Assembly (step)

variable {start stop : Cursor} {events : List Event} {nodes : List Node} {assembly result : Assembly}
  {frame : Frame} {frames : List Frame} {root? : Option Node}

/-! ### Building the tree -/

namespace Frame

/-- An open element with more of its children read. -/
def holding (frame : Frame) (nodes : List Node) : Frame :=
  { frame with children := nodes.reverse ++ frame.children }

theorem spaces_holding (frame : Frame) (nodes : List Node) : (frame.holding nodes).spaces = frame.spaces :=
  rfl

theorem holding_holding (frame : Frame) (nodes others : List Node) :
    (frame.holding nodes).holding others = frame.holding (nodes ++ others) := by
  simp [holding]

/-- The node of an element that closes. -/
def node (frame : Frame) (stop : Nat) : Node :=
  .element (String.ofList frame.name.localName) frame.attributes frame.children.reverse ⟨frame.start, stop⟩

theorem node_holding (name : QName) (attributes : List Attribute) (start stop : Nat) (spaces : Spaces)
    (nodes : List Node) : (holding ⟨name, attributes, start, spaces, []⟩ nodes).node stop =
      .element (String.ofList name.localName) attributes nodes ⟨start, stop⟩ := by
  simp [holding, node]

end Frame

namespace Assembly

/-- The namespaces known around the next piece. -/
def known (assembly : Assembly) : Spaces :=
  (assembly.frames.head?.map Frame.spaces).getD []

theorem known_cons : known ⟨frame :: frames, root?⟩ = frame.spaces :=
  rfl

theorem addNode_cons {node : Node} : addNode ⟨frame :: frames, root?⟩ node = ⟨frame.holding [node] :: frames, root?⟩ :=
  rfl

theorem step_opening_eq_some_iff {name : QName} {raw : List RawAttribute} {offset : Nat} :
    assembly.step (.opening name raw offset) = some result ↔
      ∃ inner attributes, enter? assembly.known name raw = some (inner, attributes) ∧
        result = ⟨⟨name, attributes, offset, inner, []⟩ :: assembly.frames, assembly.root?⟩ := by
  have hstep : assembly.step (.opening name raw offset) = (enter? assembly.known name raw).map fun entered =>
      ⟨⟨name, entered.2, offset, entered.1, []⟩ :: assembly.frames, assembly.root?⟩ := by
    rw [step, enter?, known]
    cases raw.foldlM declareSpace? ([] : Spaces) with
    | none => rfl
    | some declared =>
      simp only [Option.bind_eq_bind, Option.bind_some, Option.map_bind]
      refine congrArg (Option.bind _) (funext fun attributes => ?_)
      rw [Function.comp_apply]
      split <;> rfl
  rw [hstep, Option.map_eq_some_iff]
  constructor
  · rintro ⟨⟨inner, attributes⟩, henter, rfl⟩
    exact ⟨inner, attributes, henter, rfl⟩
  · rintro ⟨inner, attributes, henter, rfl⟩
    exact ⟨(inner, attributes), henter, rfl⟩

theorem step_closing_eq_some_iff {name? : Option QName} {offset : Nat} :
    step ⟨frame :: frames, root?⟩ (.closing name? offset) = some result ↔
      (∀ name, name? = some name → name = frame.name) ∧
        result = addNode ⟨frames, root?⟩ (frame.node offset) := by
  have hname : name?.all (· == frame.name) = true ↔ ∀ name, name? = some name → name = frame.name := by
    cases name? <;> simp
  rw [← hname]
  refine Option.ite_none_right_eq_some.trans (and_congr_right fun _ => ?_)
  rw [Option.some.injEq, eq_comm]
  rfl

section Elements

variable {name : QName} {raw : List RawAttribute} {inner : Spaces} {attributes : List Attribute} {start stop : Nat}
  (known : enter? assembly.known name raw = some (inner, attributes))
include known

/-- The events of an element leave its node, once those of what it holds have left its children. -/
theorem foldlM_element {name? : Option QName} (own more : List Event) (children : List Node)
    (held : own.foldlM step ⟨⟨name, attributes, start, inner, []⟩ :: assembly.frames, assembly.root?⟩ =
      some ⟨Frame.holding ⟨name, attributes, start, inner, []⟩ children :: assembly.frames, assembly.root?⟩)
    (hname : ∀ closed, name? = some closed → closed = name) :
    (.opening name raw start :: (own ++ .closing name? stop :: more)).foldlM step assembly = more.foldlM step
      (assembly.addNode (.element (String.ofList name.localName) attributes children ⟨start, stop⟩)) := by
  have hopen : assembly.step (.opening name raw start) =
      some ⟨⟨name, attributes, start, inner, []⟩ :: assembly.frames, assembly.root?⟩ :=
    step_opening_eq_some_iff.mpr ⟨inner, attributes, known, rfl⟩
  have hclose : step ⟨Frame.holding ⟨name, attributes, start, inner, []⟩ children :: assembly.frames,
      assembly.root?⟩ (.closing name? stop) =
        some (assembly.addNode (.element (String.ofList name.localName) attributes children ⟨start, stop⟩)) := by
    rw [← Frame.node_holding name attributes start stop inner children]
    exact step_closing_eq_some_iff.mpr ⟨hname, rfl⟩
  simp only [List.foldlM_cons, hopen, Option.bind_eq_bind, Option.bind_some, List.foldlM_append, held, hclose]

theorem foldlM_hollow (more : List Event) :
    (.opening name raw start :: .closing none stop :: more).foldlM step assembly = more.foldlM step
      (assembly.addNode (.element (String.ofList name.localName) attributes [] ⟨start, stop⟩)) :=
  foldlM_element known [] more [] rfl (by simp)

theorem foldlM_paired (own more : List Event) (children : List Node)
    (held : own.foldlM step ⟨⟨name, attributes, start, inner, []⟩ :: assembly.frames, assembly.root?⟩ =
      some ⟨Frame.holding ⟨name, attributes, start, inner, []⟩ children :: assembly.frames, assembly.root?⟩) :
    (.opening name raw start :: (own ++ .closing (some name) stop :: more)).foldlM step assembly = more.foldlM step
      (assembly.addNode (.element (String.ofList name.localName) attributes children ⟨start, stop⟩)) :=
  foldlM_element known own more children held (by simp [eq_comm])

end Elements

end Assembly

/-- What an element holds becomes its children. -/
theorem Holds.foldlM_step {spaces : Spaces} (h : Holds spaces start events nodes stop)
    (hspaces : frame.spaces = spaces) : events.foldlM Assembly.step ⟨frame :: frames, root?⟩ =
      some ⟨frame.holding nodes :: frames, root?⟩ := by
  induction h generalizing frame frames with
  | nil => rfl
  | silent _ _ ih => exact ih hspaces
  | text _ _ ih =>
    rw [List.foldlM_cons]
    refine Option.bind_eq_some_iff.mpr ⟨_, rfl, ?_⟩
    rw [Assembly.addNode_cons, ih ((Frame.spaces_holding _ _).trans hspaces), Frame.holding_holding]
    rfl
  | hollow _ known _ ih =>
    rw [← hspaces, ← Assembly.known_cons] at known
    rw [Assembly.foldlM_hollow known, Assembly.addNode_cons, ih ((Frame.spaces_holding _ _).trans hspaces),
      Frame.holding_holding]
    rfl
  | element _ known _ _ _ ihHeld ih =>
    rw [← hspaces, ← Assembly.known_cons] at known
    rw [Assembly.foldlM_paired known _ _ _ (ihHeld rfl), Assembly.addNode_cons,
      ih ((Frame.spaces_holding _ _).trans hspaces), Frame.holding_holding]
    rfl

/-- An element becomes a node. -/
theorem ElementIn.foldlM_step {node : Node} (h : ElementIn assembly.known start events node stop) :
    events.foldlM Assembly.step assembly = some (assembly.addNode node) := by
  cases h with
  | hollow _ known => exact Assembly.foldlM_hollow known []
  | paired _ known held _ => exact Assembly.foldlM_paired known _ [] _ (held.foldlM_step rfl)

/-! ### Finding elements -/

/-- What is read of an open element up to its end tag, and what is read behind that. -/
inductive Closing (frame : Frame) (frames : List Frame) (root? : Option Node) (bound depth : Nat)
    (start : Cursor) (stop : Cursor) (result : Assembly) : List Event → Prop where
  | mk {bound' : Nat} {own more : List Event} {children : List Node} {last middle : Cursor}
      (le : bound' < bound) (held : Holds frame.spaces start own children last)
      (close : Piece.next.run last = some (.closing frame.name, middle))
      (rest : (elementRest bound' depth).run middle = some (more, stop))
      (built : more.foldlM Assembly.step
        (Assembly.addNode ⟨frames, root?⟩ ((frame.holding children).node middle.offset)) = some result) :
      Closing frame frames root? bound depth start stop result
        (own ++ .closing (some frame.name) middle.offset :: more)

namespace Closing

variable {bound bound' depth : Nat} {middle : Cursor}

/-- Another child in front. -/
theorem front (own : List Event) (nodes : List Node)
    (h : Closing (frame.holding nodes) frames root? bound' depth middle stop result events)
    (held : ∀ {more children last}, Holds frame.spaces middle more children last →
      Holds frame.spaces start (own ++ more) (nodes ++ children) last) (le : bound' ≤ bound) :
    Closing frame frames root? bound depth start stop result (own ++ events) := by
  obtain ⟨lt, rest, close, after, built⟩ := h
  rw [← List.append_assoc]
  rw [Frame.holding_holding] at built
  exact .mk (Nat.lt_of_lt_of_le lt le) (held rest) close after built

end Closing

theorem closing_of_elementRest {bound depth : Nat}
    (hrun : (elementRest bound (depth + 1)).run start = some (events, stop))
    (hfold : events.foldlM Assembly.step ⟨frame :: frames, root?⟩ = some result) :
    Closing frame frames root? bound depth start stop result events := by
  -- Strong induction on the steps allowed: after an inner element the reading goes on with all that it has left, not
  -- with one less.
  induction bound using Nat.strongRecOn generalizing depth start events frame frames with
  | ind bound ih =>
  cases bound with
  | zero => exact absurd hrun run_failure_ne_some
  | succ bound =>
    obtain ⟨piece, middle, more, hnext, hmore, rfl⟩ := run_elementRest_succ_iff.mp hrun
    cases piece with
    | silent =>
      exact (ih bound (Nat.lt_succ_self _) hmore hfold).front [] [] (.silent hnext) (Nat.le_succ _)
    | text content =>
      rw [Piece.events, List.singleton_append, List.foldlM_cons] at hfold
      exact (ih bound (Nat.lt_succ_self _) hmore hfold).front [.text content] [.text (String.ofList content)]
        (.text hnext) (Nat.le_succ _)
    | hollow name raw =>
      rw [Piece.events, List.cons_append, List.singleton_append, List.foldlM_cons] at hfold
      obtain ⟨_, hopen, hfold⟩ := Option.bind_eq_some_iff.mp hfold
      obtain ⟨inner, attributes, known, rfl⟩ := Assembly.step_opening_eq_some_iff.mp hopen
      rw [List.foldlM_cons] at hfold
      obtain ⟨_, hclose, hfold⟩ := Option.bind_eq_some_iff.mp hfold
      obtain ⟨-, rfl⟩ := Assembly.step_closing_eq_some_iff.mp hclose
      exact (ih bound (Nat.lt_succ_self _) hmore hfold).front
        [.opening name raw start.offset, .closing none middle.offset] [Frame.node _ middle.offset]
        (.hollow hnext known) (Nat.le_succ _)
    | closing name =>
      rw [Piece.events, List.singleton_append, List.foldlM_cons] at hfold
      obtain ⟨_, hclose, hafter⟩ := Option.bind_eq_some_iff.mp hfold
      obtain ⟨hname, rfl⟩ := Assembly.step_closing_eq_some_iff.mp hclose
      obtain rfl := hname name rfl
      exact .mk (Nat.lt_succ_self _) .nil hnext hmore hafter
    | opening name raw =>
      rw [Piece.events, List.singleton_append, List.foldlM_cons] at hfold
      obtain ⟨_, hopen, hfold⟩ := Option.bind_eq_some_iff.mp hfold
      obtain ⟨inner, attributes, known, rfl⟩ := Assembly.step_opening_eq_some_iff.mp hopen
      rw [Assembly.known_cons] at known
      -- First the inner element up to its end tag, then what follows it.
      obtain ⟨lt, held, close, after, built⟩ := ih bound (Nat.lt_succ_self _) hmore hfold
      rw [Frame.node_holding] at built
      have behind := ih _ (Nat.lt_succ_of_lt lt) after built
      have whole := behind.front (.opening name raw start.offset :: (_ ++ [.closing (some name) _])) [_]
        (fun rest => by simpa using Holds.element hnext known held close rest)
        (Nat.le_succ_of_le (Nat.le_of_lt lt))
      simpa [Piece.events] using whole

/-! ### Elements and documents -/

theorem run_elementRest_zero (bound : Nat) : (elementRest bound 0).run start = some ([], start) := by
  cases bound <;> rfl

theorem run_element_eq_some_iff : Event.element.run start = some (events, stop) ↔
    ∃ piece first more, Piece.startTag.run start = some (piece, first) ∧
      (elementRest (first.rest.length + 1)
        ((piece.events start.offset first.offset).foldl stepDepth 0)).run first = some (more, stop) ∧
      events = piece.events start.offset first.offset ++ more := by
  rw [Event.element, run_bind_eq_some_iff]
  constructor
  · rintro ⟨own, first, htag, hrest⟩
    rw [run_rest_bind] at hrest
    obtain ⟨more, last, hmore, hdone⟩ := run_bind_eq_some_iff.mp hrest
    obtain ⟨rfl, rfl⟩ := run_pure_eq_some_iff.mp hdone
    rw [Piece.run_startTag, Option.map_eq_some_iff] at htag
    obtain ⟨⟨piece, first⟩, htag, heq⟩ := htag
    obtain ⟨rfl, rfl⟩ := Prod.mk.inj heq
    exact ⟨piece, first, more, htag, hmore, rfl⟩
  · rintro ⟨piece, first, more, htag, hmore, rfl⟩
    refine ⟨_, first, ?_, run_rest_bind.trans (run_bind_eq_some_iff.mpr ⟨more, stop, hmore, rfl⟩)⟩
    rw [Piece.run_startTag, htag]
    rfl

theorem ElementIn.run_element {outer : Spaces} {node : Node} (h : ElementIn outer start events node stop) :
    Event.element.run start = some (events, stop) := by
  rw [run_element_eq_some_iff]
  cases h with
  | hollow read _ => exact ⟨_, stop, [], read, run_elementRest_zero _, rfl⟩
  | @paired _ first last _ name _ _ _ _ read _ held close =>
    have hclose : (elementRest 1 1).run last = some ([.closing (some name) stop.offset], stop) :=
      run_elementRest_succ_iff.mpr ⟨_, stop, [], close, run_elementRest_zero _, rfl⟩
    exact ⟨_, first, _, read, held.run_elementRest hclose (by omega), rfl⟩

/-- What is read as an element and makes a tree is an element. -/
theorem exists_elementIn_of_run (hrun : Event.element.run start = some (events, stop))
    (hfold : events.foldlM Assembly.step {} = some result) :
    ∃ node, ElementIn [] start events node stop ∧ result.root? = some node := by
  obtain ⟨piece, first, more, htag, hmore, rfl⟩ := run_element_eq_some_iff.mp hrun
  have opens := Piece.opens_of_startTag htag
  cases piece with
  | silent | text | closing => cases opens
  | hollow name raw =>
    -- The tag has closed the element already, and nothing more is read.
    rw [Piece.events] at hmore hfold ⊢
    obtain ⟨rfl, rfl⟩ := Prod.mk.inj (Option.some.inj ((run_elementRest_zero _).symm.trans hmore))
    rw [List.append_nil, List.foldlM_cons] at hfold
    obtain ⟨_, hopen, hfold⟩ := Option.bind_eq_some_iff.mp hfold
    obtain ⟨inner, attributes, known, rfl⟩ := Assembly.step_opening_eq_some_iff.mp hopen
    rw [List.foldlM_cons] at hfold
    obtain ⟨_, hclose, hfold⟩ := Option.bind_eq_some_iff.mp hfold
    obtain ⟨-, rfl⟩ := Assembly.step_closing_eq_some_iff.mp hclose
    obtain rfl := Option.some.inj hfold
    exact ⟨_, .hollow htag known, rfl⟩
  | opening name raw =>
    rw [Piece.events, List.singleton_append, List.foldlM_cons] at hfold
    obtain ⟨_, hopen, hfold⟩ := Option.bind_eq_some_iff.mp hfold
    obtain ⟨inner, attributes, known, rfl⟩ := Assembly.step_opening_eq_some_iff.mp hopen
    obtain ⟨-, held, close, after, built⟩ := closing_of_elementRest hmore hfold
    obtain ⟨rfl, rfl⟩ := Prod.mk.inj (Option.some.inj ((run_elementRest_zero _).symm.trans after))
    rw [Frame.node_holding] at built
    obtain rfl := Option.some.inj built
    exact ⟨_, .paired htag known held close, rfl⟩

/-- A document that has a tree is an element with something that leaves no event around it. -/
theorem Node.exists_elementIn_of_ofText? {text : String} {root : Node} (h : Node.ofText? text = some root) :
    ∃ start events stop, start.In text.toList ∧ ElementIn [] start events root stop := by
  obtain ⟨events, hevents, h⟩ := Option.bind_eq_some_iff.mp h
  obtain ⟨assembly, hassembly, hroot⟩ := Option.bind_eq_some_iff.mp h
  obtain ⟨⟨answer, last⟩, hrun, rfl⟩ := Option.map_eq_some_iff.mp hevents
  -- With or without a declaration in front, the same three parts follow.
  have hbody {cursor : Cursor} (inside : cursor.In text.toList)
      (hbody : (do
        let _ ← many Event.misc?
        let events ← Event.element
        let _ ← many Event.misc?
        if (← rest).isEmpty then return events else failure : Scan (List Event)).run cursor =
          some (answer, last)) :
      ∃ start events stop, start.In text.toList ∧ ElementIn [] start events root stop := by
    obtain ⟨_, start, hmisc, hbody⟩ := run_bind_eq_some_iff.mp hbody
    obtain ⟨events, stop, helement, hbody⟩ := run_bind_eq_some_iff.mp hbody
    obtain ⟨_, _, -, hbody⟩ := run_bind_eq_some_iff.mp hbody
    rw [run_rest_bind] at hbody
    split at hbody
    · obtain ⟨rfl, rfl⟩ := run_pure_eq_some_iff.mp hbody
      obtain ⟨node, element, hnode⟩ := exists_elementIn_of_run helement hassembly
      obtain rfl := Option.some.inj (hnode.symm.trans hroot)
      obtain ⟨_, reads⟩ := advances_many Event.advances_misc? hmisc
      exact ⟨start, events, stop, reads.stays inside, element⟩
    · exact absurd hbody run_failure_ne_some
  obtain ⟨_, marked, hmark, hrun⟩ := run_bind_eq_some_iff.mp hrun
  obtain ⟨_, readsMark⟩ := advances_eat _ hmark
  have inside := readsMark.stays (⟨[], rfl, rfl⟩ : Cursor.In text.toList ⟨0, text.toList⟩)
  rw [run_startsWith_bind] at hrun
  split at hrun
  · obtain ⟨_, declared, hdeclaration, hrun⟩ := run_bind_eq_some_iff.mp hrun
    obtain ⟨_, reads⟩ := Event.advances_declaration hdeclaration
    exact hbody (reads.stays inside) hrun
  · exact hbody inside hrun

/-- Nothing is skipped in front of a tag or at the end. -/
theorem run_many_misc?_of_none (hspace : start.rest.head?.any isSpace = false)
    (hcomment : ¬ "<!--".toList <+: start.rest) (hinstruction : ¬ "<?".toList <+: start.rest) :
    (many Event.misc?).run start = some ([], start) := by
  have hskip : skipSpace.run start = some ((), start) := run_skipSpace (.refl _) nofun hspace
  have hmisc : Event.misc?.run start = some (none, start) := by
    refine run_bind_eq_some_iff.mpr ⟨(), start, hskip, ?_⟩
    rw [run_startsWith_ite, if_neg hcomment, run_startsWith_ite, if_neg hinstruction]
    rfl
  rw [many, run_rest_bind]
  exact run_bind_eq_some_iff.mpr ⟨none, start, hmisc, rfl⟩

/-- A text that is an element can be read, also where the element knows namespaces from outside of it. -/
theorem Event.ofText?_of_elementIn {cs : List Char} {outer : Spaces} {root : Node} {n : Nat}
    (h : ElementIn outer ⟨0, cs⟩ events root ⟨n, []⟩) : Event.ofText? cs = some events := by
  have atTag : Cursor.IsAtTag ⟨0, cs⟩ := by
    cases h with
    | hollow read | paired read => exact Piece.isAtTag_of_startTag read
  obtain ⟨c, others, hcs, -⟩ := id atTag
  change cs = '<' :: c :: others at hcs
  -- The text begins with a tag, so that nothing is there of what a document may have before it.
  have hmark : ¬ "\uFEFF".toList <+: cs := by
    rw [hcs]
    rintro ⟨_, hmark⟩
    cases hmark
  have hspace : cs.head?.any isSpace = false := by
    rw [hcs]
    rfl
  have hrun : Event.document.run ⟨0, cs⟩ = some (events, ⟨n, []⟩) := by
    refine run_bind_eq_some_iff.mpr ⟨false, ⟨0, cs⟩, run_eat_eq_some_iff.mpr ⟨rfl, hmark⟩, ?_⟩
    rw [run_startsWith_ite, if_neg (atTag.not_prefix rfl rfl)]
    refine run_bind_eq_some_iff.mpr ⟨[], ⟨0, cs⟩, run_many_misc?_of_none hspace
      (atTag.not_prefix rfl rfl) (atTag.not_prefix rfl rfl), ?_⟩
    refine run_bind_eq_some_iff.mpr ⟨events, ⟨n, []⟩, h.run_element, ?_⟩
    exact run_bind_eq_some_iff.mpr ⟨[], ⟨n, []⟩, run_many_misc?_of_none rfl (by simp) (by simp), rfl⟩
  rw [Event.ofText?, hrun]
  rfl

/-- A text that is an element is a document with the node of that element. -/
theorem Node.ofText?_of_elementIn {text : String} {root : Node} {n : Nat}
    (h : ElementIn [] ⟨0, text.toList⟩ events root ⟨n, []⟩) : Node.ofText? text = some root := by
  have assembled : ElementIn (Assembly.known {}) ⟨0, text.toList⟩ events root ⟨n, []⟩ := h
  refine Option.bind_eq_some_iff.mpr ⟨events, Event.ofText?_of_elementIn h, ?_⟩
  exact Option.bind_eq_some_iff.mpr ⟨_, assembled.foldlM_step, rfl⟩

end Exemplar.Markup
