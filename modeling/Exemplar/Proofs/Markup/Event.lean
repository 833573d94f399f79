import Exemplar.Markup.Event
import Exemplar.Proofs.Markup.Scan

/-!
# Where events stand

The events of a document come in the order in which it is read: an element opens at a `<` and closes behind
a `>`, and neither place is before that of an event further to the front.
-/

namespace Exemplar.Markup

open Text (byteSize)

/-- A `<` stands at a byte of a document. -/
def OpensAt (document : List Char) (n : Nat) : Prop :=
  ∃ before after, document = before ++ '<' :: after ∧ byteSize before = n

/-- A `>` stands in front of a byte of a document. -/
def ClosesAt (document : List Char) (n : Nat) : Prop :=
  ∃ before after, document = before ++ '>' :: after ∧ byteSize before + 1 = n

/-- Events that stand between two bytes of a document, one after the other. -/
inductive EventsIn (document : List Char) : Nat → List Event → Nat → Prop where
  | nil {start stop : Nat} (le : start ≤ stop) : EventsIn document start [] stop
  | text {start stop : Nat} {content : List Char} {events : List Event}
      (rest : EventsIn document start events stop) :
      EventsIn document start (.text content :: events) stop
  | opening {start offset stop : Nat} {name : QName} {attributes : List RawAttribute}
      {events : List Event} (le : start ≤ offset) (opens : OpensAt document offset)
      (rest : EventsIn document (offset + 1) events stop) :
      EventsIn document start (.opening name attributes offset :: events) stop
  | closing {start offset stop : Nat} {name? : Option QName} {events : List Event}
      (lt : start < offset) (closes : ClosesAt document offset)
      (rest : EventsIn document offset events stop) :
      EventsIn document start (.closing name? offset :: events) stop

namespace EventsIn

variable {document : List Char} {start middle stop : Nat} {events others : List Event}

theorem of_le (le : start ≤ middle) (events : EventsIn document middle others stop) :
    EventsIn document start others stop := by
  induction events generalizing start with
  | nil le' => exact .nil (Nat.le_trans le le')
  | text _ ih => exact .text (ih le)
  | opening le' opens rest => exact .opening (Nat.le_trans le le') opens rest
  | closing lt closes rest => exact .closing (Nat.lt_of_le_of_lt le lt) closes rest

theorem append (first : EventsIn document start events middle)
    (second : EventsIn document middle others stop) :
    EventsIn document start (events ++ others) stop := by
  induction first with
  | nil le => exact second.of_le le
  | text _ ih => exact .text (ih second)
  | opening le opens _ ih => exact .opening le opens (ih second)
  | closing lt closes _ ih => exact .closing lt closes (ih second)

end EventsIn

namespace Event

open Scan

/-! ### Pieces of tags -/

theorem advances_qname : Advances qname := by
  refine .bind (advances_takeWhile _) fun read => ?_
  cases qualify? read with
  | none => exact .failure
  | some name => exact .pure name

theorem advances_rawAttribute : Advances rawAttribute := by
  refine .bind advances_qname fun name => .bind advances_skipSpace fun _ =>
    .bind (advances_expect _) fun _ => .bind advances_skipSpace fun _ =>
    .bind (advances_take 1) fun read => ?_
  cases read.head? with
  | none => exact .failure
  | some quote =>
    exact .ite (.bind (advances_takeUntil _) fun _ => .bind (advances_expect _) fun _ => .pure _) .failure

theorem advances_attributeAfterSpace? : Advances attributeAfterSpace? := by
  refine .bind advances_rest fun _ => .bind advances_skipSpace fun _ =>
    .bind (advances_startsWith _) fun _ => .bind (advances_startsWith _) fun _ =>
    .ite (.pure _) (.ite (.bind advances_rawAttribute fun (name, written) => ?_) .failure)
  dsimp only
  cases attributeValue? written with
  | none => exact .failure
  | some value => exact .pure _

/-! ### Markup -/

theorem advances_comment : Advances comment :=
  .bind (advances_expect _) fun _ => .bind (advances_takeThrough _) fun _ => .ite .failure (.pure _)

theorem advances_instruction : Advances instruction := by
  have body : Advances (do
      expect "<?"
      let _ ← name
      skipSpace
      let _ ← takeThrough "?>" : Scan Unit) :=
    .bind (advances_expect _) fun _ => .bind advances_name fun _ => .bind advances_skipSpace fun _ =>
      .bind (advances_takeThrough _) fun _ => .pure _
  exact .bind (advances_startsWith _) fun _ => .ite (.bind .failure fun _ => body) body

/-- A scan yields events that stand in what it has read. -/
def Yields (scan : Scan (List Event)) : Prop :=
  ∀ ⦃document start events stop⦄, start.In document → scan.run start = some (events, stop) →
    stop.In document ∧ EventsIn document start.offset events stop.offset

namespace Yields

theorem nil : Yields (pure []) := by
  intro document start events stop inside h
  obtain ⟨rfl, rfl⟩ := run_pure_eq_some_iff.mp h
  exact ⟨inside, .nil (Nat.le_refl _)⟩

theorem text (content : List Char) : Yields (pure [.text content]) := by
  intro document start events stop inside h
  obtain ⟨rfl, rfl⟩ := run_pure_eq_some_iff.mp h
  exact ⟨inside, .text (.nil (Nat.le_refl _))⟩

theorem failure : Yields Alternative.failure := by
  intro document start events stop inside h
  exact absurd h run_failure_ne_some

theorem ite {condition : Prop} [Decidable condition] {yes no : Scan (List Event)}
    (hyes : Yields yes) (hno : Yields no) : Yields (if condition then yes else no) := by
  split
  · exact hyes
  · exact hno

/-- What is read before the first event does not matter. -/
theorem after {α : Type} {first : Scan α} {others : α → Scan (List Event)} (hfirst : Advances first)
    (hothers : ∀ value, Yields (others value)) : Yields (first >>= others) := by
  intro document start events stop inside h
  obtain ⟨value, middle, hvalue, hanswer⟩ := run_bind_eq_some_iff.mp h
  obtain ⟨read, reads⟩ := hfirst hvalue
  obtain ⟨ends, standing⟩ := hothers value (reads.stays inside) hanswer
  exact ⟨ends, standing.of_le reads.offset_le⟩

theorem append {first : Scan (List Event)} {others : List Event → Scan (List Event)}
    (hfirst : Yields first) (hothers : ∀ events, Yields (others events)) :
    Yields (do let events ← first; return events ++ (← others events)) := by
  intro document start answer stop inside h
  obtain ⟨events, middle, hevents, hanswer⟩ := run_bind_eq_some_iff.mp h
  obtain ⟨more, last, hmore, hdone⟩ := run_bind_eq_some_iff.mp hanswer
  obtain ⟨rfl, rfl⟩ := run_pure_eq_some_iff.mp hdone
  obtain ⟨middleIn, standing⟩ := hfirst inside hevents
  obtain ⟨ends, standingMore⟩ := hothers events middleIn hmore
  exact ⟨ends, standing.append standingMore⟩

end Yields

theorem opensAt {document : List Char} {start stop : Cursor} {read : List Char}
    (inside : start.In document) (reads : start.Reads ('<' :: read) stop) :
    OpensAt document start.offset := by
  obtain ⟨before, rfl, hsize⟩ := inside
  exact ⟨before, read ++ stop.rest, by rw [reads.rest]; rfl, hsize⟩

theorem closesAt {document : List Char} {start stop : Cursor} {read : List Char}
    (inside : start.In document) (reads : start.Reads (read ++ ['>']) stop) :
    ClosesAt document stop.offset := by
  obtain ⟨before, rfl, hsize⟩ := inside
  refine ⟨before ++ read, stop.rest, by rw [reads.rest]; simp, ?_⟩
  rw [reads.offset, ← hsize, Text.byteSize_append, Text.byteSize_append]
  rfl

theorem yields_startTag : Yields startTag := by
  intro document start events stop inside h
  obtain ⟨_, _, hoffset, h⟩ := run_bind_eq_some_iff.mp h
  obtain ⟨rfl, rfl⟩ := run_offset_eq_some_iff.mp hoffset
  obtain ⟨_, opened, hopen, h⟩ := run_bind_eq_some_iff.mp h
  obtain ⟨name, named, hname, h⟩ := run_bind_eq_some_iff.mp h
  obtain ⟨attributes, middle, hattributes, h⟩ := run_bind_eq_some_iff.mp h
  obtain ⟨hit, ended, heat, h⟩ := run_bind_eq_some_iff.mp h
  -- Whatever stands in the tag, it begins with `<`.
  have opening := reads_of_expect hopen
  obtain ⟨_, readsName⟩ := advances_qname hname
  obtain ⟨_, readsAttributes⟩ := advances_many advances_attributeAfterSpace? hattributes
  have readsTag := readsName.trans readsAttributes
  have middleIn := readsTag.stays (opening.stays inside)
  have hfirst : start.offset + 1 ≤ middle.offset := by
    have hopened := opening.offset
    have hread := readsTag.offset_le
    have hsize : byteSize "<".toList = 1 := rfl
    omega
  have opens := opensAt inside opening
  have reads := reads_of_eat heat
  cases hit with
  | true =>
    rw [if_pos rfl] at h
    obtain ⟨rfl, rfl⟩ := run_pure_eq_some_iff.mp h
    refine ⟨reads.stays middleIn, .opening (Nat.le_refl _) opens (.nil ?_)⟩
    exact Nat.le_trans hfirst reads.offset_le
  | false =>
    have hsame : ended = middle := reads
    rw [if_neg Bool.false_ne_true, hsame] at h
    obtain ⟨_, closed, hclose, h⟩ := run_bind_eq_some_iff.mp h
    obtain ⟨_, _, hoffset, h⟩ := run_bind_eq_some_iff.mp h
    obtain ⟨rfl, rfl⟩ := run_offset_eq_some_iff.mp hoffset
    obtain ⟨rfl, rfl⟩ := run_pure_eq_some_iff.mp h
    have closing : middle.Reads ("/".toList ++ ['>']) closed := reads_of_expect hclose
    have hlast : middle.offset + 2 = closed.offset := closing.offset.symm
    exact ⟨closing.stays middleIn, .opening (Nat.le_refl _) opens
      (.closing (by omega) (closesAt middleIn closing) (.nil (Nat.le_refl _)))⟩

theorem yields_endTag : Yields endTag := by
  intro document start events stop inside h
  obtain ⟨_, opened, hopen, hnamed⟩ := run_bind_eq_some_iff.mp h
  obtain ⟨name, named, hname, hspaced⟩ := run_bind_eq_some_iff.mp hnamed
  obtain ⟨_, spaced, hspace, hclosed⟩ := run_bind_eq_some_iff.mp hspaced
  obtain ⟨_, closed, hclose, hended⟩ := run_bind_eq_some_iff.mp hclosed
  obtain ⟨_, _, hoffset, hdone⟩ := run_bind_eq_some_iff.mp hended
  obtain ⟨rfl, rfl⟩ := run_offset_eq_some_iff.mp hoffset
  obtain ⟨rfl, rfl⟩ := run_pure_eq_some_iff.mp hdone
  obtain ⟨_, readsName⟩ := advances_qname hname
  obtain ⟨_, readsSpace⟩ := advances_skipSpace hspace
  have readsTag := ((reads_of_expect hopen).trans readsName).trans readsSpace
  have spacedIn := readsTag.stays inside
  have closing : spaced.Reads ([] ++ ['>']) closed := reads_of_expect hclose
  have hfirst := readsTag.offset_le
  have hlast : spaced.offset + 1 = closed.offset := closing.offset.symm
  exact ⟨closing.stays spacedIn,
    .closing (by omega) (closesAt spacedIn closing) (.nil (Nat.le_refl _))⟩

theorem yields_verbatim : Yields verbatim :=
  .after (advances_expect _) fun _ => .after (advances_takeThrough _) fun _ => .text _

theorem yields_characters : Yields characters := by
  refine .after (advances_takeUntil _) fun read => .ite (.after .failure fun _ => ?_) ?_
  -- What is read is text, if it can be.
  all_goals
    split
    next content _ => exact .text content
    next => exact .failure

theorem yields_content : Yields content :=
  .after (advances_startsWith _) fun _ => .ite (.after advances_comment fun _ => .nil) <|
    .after (advances_startsWith _) fun _ => .ite yields_verbatim <|
    .after (advances_startsWith _) fun _ => .ite (.after advances_instruction fun _ => .nil) <|
    .after (advances_startsWith _) fun _ => .ite yields_endTag <|
    .after (advances_startsWith _) fun _ => .ite yields_startTag yields_characters

theorem yields_elementRest (bound depth : Nat) : Yields (elementRest bound depth) := by
  induction bound generalizing depth with
  | zero =>
    cases depth with
    | zero => exact .nil
    | succ depth => exact .failure
  | succ bound ih =>
    cases depth with
    | zero => exact .nil
    | succ depth => exact .append yields_content fun _ => ih _

theorem yields_element : Yields element := by
  have hassoc : element = (do
      let events ← startTag
      return events ++ (← (do elementRest ((← rest).length + 1) (events.foldl stepDepth 0)))) := by
    simp only [element, bind_assoc]
  rw [hassoc]
  exact .append yields_startTag fun _ => .after advances_rest fun _ => yields_elementRest _ _

/-! ### Documents -/

theorem advances_misc? : Advances misc? :=
  .bind advances_skipSpace fun _ => .bind (advances_startsWith _) fun _ =>
    .ite (.bind advances_comment fun _ => .pure _) <|
    .bind (advances_startsWith _) fun _ => .ite (.bind advances_instruction fun _ => .pure _) (.pure _)

theorem advances_declarationSpace : Advances declarationSpace :=
  .bind advances_rest fun _ => .ite advances_skipSpace <|
    .bind (advances_startsWith _) fun _ => .ite (.pure _) .failure

theorem advances_declarationPart (word : String) : Advances (declarationPart word) := by
  have part : Advances (do let _ ← rawAttribute : Scan Unit) :=
    .bind advances_rawAttribute fun _ => .pure _
  exact .bind (advances_startsWith word) fun _ => .ite part (.bind .failure fun _ => part)

theorem advances_declaration : Advances declaration := by
  have close : Advances (do skipSpace; expect "?>" : Scan Unit) :=
    .bind advances_skipSpace fun _ => advances_expect _
  have standalone : Advances (do
      if ← startsWith "standalone" then
        declarationPart "standalone"
      skipSpace
      expect "?>" : Scan Unit) :=
    .bind (advances_startsWith _) fun _ =>
      .ite (.bind (advances_declarationPart _) fun _ => close) close
  exact .bind (advances_expect _) fun _ => .bind advances_declarationSpace fun _ =>
    .bind (advances_declarationPart _) fun _ => .bind advances_declarationSpace fun _ =>
    .bind (advances_startsWith _) fun _ => .ite
      (.bind (advances_declarationPart _) fun _ => .bind advances_declarationSpace fun _ => standalone)
      standalone

/-- Comments and the like around the outermost element leave no event. -/
theorem yields_body : Yields (do
    let _ ← many misc?
    let events ← element
    let _ ← many misc?
    if (← rest).isEmpty then return events else failure) := by
  refine .after (advances_many advances_misc?) fun _ => ?_
  intro document start answer stop inside h
  obtain ⟨events, middle, hevents, hrest⟩ := run_bind_eq_some_iff.mp h
  obtain ⟨_, last, hmisc, hleft⟩ := run_bind_eq_some_iff.mp hrest
  obtain ⟨left, _, hlook, hdone⟩ := run_bind_eq_some_iff.mp hleft
  cases hlook
  split at hdone
  · obtain ⟨rfl, rfl⟩ := run_pure_eq_some_iff.mp hdone
    obtain ⟨middleIn, standing⟩ := yields_element inside hevents
    obtain ⟨_, reads⟩ := advances_many advances_misc? hmisc
    have standingOn := standing.append (.nil reads.offset_le)
    rw [List.append_nil] at standingOn
    exact ⟨reads.stays middleIn, standingOn⟩
  · exact absurd hdone run_failure_ne_some

theorem yields_document : Yields document :=
  .after (advances_eat _) fun _ => .after (advances_startsWith _) fun _ =>
    .ite (.after advances_declaration fun _ => yields_body) yields_body

/-- The events of a document stand in it from its start on. -/
theorem eventsIn_of_ofText? {cs : List Char} {events : List Event} (h : ofText? cs = some events) :
    ∃ stop, EventsIn cs 0 events stop := by
  obtain ⟨⟨answer, stop⟩, hrun, rfl⟩ := Option.map_eq_some_iff.mp h
  exact ⟨stop.offset, (yields_document ⟨[], rfl, rfl⟩ hrun).2⟩

end Event

end Exemplar.Markup
