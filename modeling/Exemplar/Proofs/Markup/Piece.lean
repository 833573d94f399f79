import Exemplar.Proofs.Markup.Event
import Exemplar.Proofs.Markup.Local

/-!
# Pieces of markup

What a document holds next is a piece of markup: a tag, some text, or something that leaves no event. Which one
it is does not depend on where it stands. Only the events say so, and they follow from the piece and from the two
bytes between which it was read.
-/

namespace Exemplar.Markup

/-- What a document holds next, wherever that is. -/
inductive Piece where
  | silent
  | text (content : List Char)
  | opening (name : QName) (attributes : List RawAttribute)
  /-- An empty tag, which opens an element and closes it. -/
  | hollow (name : QName) (attributes : List RawAttribute)
  | closing (name : QName)

namespace Piece

open Scan
open Event (attributeAfterSpace? comment instruction qname rawAttribute)

/-- The events of a piece that stands between two bytes. -/
def events (start stop : Nat) : Piece → List Event
  | silent => []
  | text content => [.text content]
  | opening name attributes => [.opening name attributes start]
  | hollow name attributes => [.opening name attributes start, .closing none stop]
  | closing name => [.closing (some name) stop]

/-! ### Reading pieces -/

def startTag : Scan Piece := do
  expect "<"
  let name ← qname
  let attributes ← many attributeAfterSpace?
  if ← eat ">" then return opening name attributes
  expect "/>"
  return hollow name attributes

def endTag : Scan Piece := do
  expect "</"
  let name ← qname
  skipSpace
  expect ">"
  return closing name

def verbatim : Scan Piece := do
  expect "<![CDATA["
  return text (verbatimValue (← takeThrough "]]>"))

def characters : Scan Piece := do
  let read ← takeUntil fun rest => rest.head? == some '<'
  if read.isEmpty || Text.contains read "]]>".toList then failure
  match textValue? read with
  | some content => return text content
  | none => failure

/-- Reads the next piece inside an element. -/
def next : Scan Piece := do
  if ← startsWith "<!--" then
    comment
    return silent
  else if ← startsWith "<![CDATA[" then verbatim
  else if ← startsWith "<?" then
    instruction
    return silent
  else if ← startsWith "</" then endTag
  else if ← startsWith "<" then startTag
  else characters

/-- How it begins tells what is next. -/
theorem run_next (cursor : Cursor) : next.run cursor =
    if "<!--".toList <+: cursor.rest then (comment >>= fun _ => pure silent).run cursor
    else if "<![CDATA[".toList <+: cursor.rest then verbatim.run cursor
    else if "<?".toList <+: cursor.rest then (instruction >>= fun _ => pure silent).run cursor
    else if "</".toList <+: cursor.rest then endTag.run cursor
    else if "<".toList <+: cursor.rest then startTag.run cursor
    else characters.run cursor := by
  rw [next]
  simp only [run_startsWith_ite]

/-- Characters go on up to a `<` or to the end, and have a value. -/
theorem run_characters_eq_some_iff {start stop : Cursor} {piece : Piece} :
    characters.run start = some (piece, stop) ↔
      ∃ read content, start.Reads read stop ∧ read ≠ [] ∧ (∀ c ∈ read, isLegal c = true ∧ c ≠ '<') ∧
        (stop.rest = [] ∨ stop.rest.head? = some '<') ∧ Text.contains read "]]>".toList = false ∧
        textValue? read = some content ∧ piece = text content := by
  -- No suffix begins with a `<` if and only if no character is one.
  have huntil (read : List Char) (middle : Cursor) :
      (takeUntil fun rest => rest.head? == some '<').run start = some (read, middle) ↔
        start.Reads read middle ∧ (∀ c ∈ read, isLegal c = true ∧ c ≠ '<') ∧
          (middle.rest = [] ∨ middle.rest.head? = some '<') := by
    rw [run_takeUntil_eq_some_iff]
    simp only [beq_eq_false_iff_ne, beq_iff_eq, forall_and, and_assoc]
    refine and_congr_right fun _ => and_congr_right fun _ => and_congr_left fun _ =>
      ⟨fun hnone c hc => ?_, fun hnone back hback hne => ?_⟩
    · rintro rfl
      obtain ⟨front, back, rfl⟩ := List.append_of_mem hc
      exact hnone ('<' :: back) (List.suffix_append _ _) (List.cons_ne_nil _ _) rfl
    · obtain ⟨c, cs, rfl⟩ := List.exists_cons_of_ne_nil hne
      intro hhead
      exact hnone c (hback.subset List.mem_cons_self) (Option.some.inj hhead)
  rw [characters, run_bind_eq_some_iff]
  constructor
  · rintro ⟨read, middle, hread, hdone⟩
    obtain ⟨reads, hchars, hend⟩ := (huntil read middle).mp hread
    cases hvalue : textValue? read with
    | none =>
      simp only [hvalue] at hdone
      split at hdone
      · exact absurd hdone run_failure_ne_some
      · exact absurd hdone run_failure_ne_some
    | some content =>
      simp only [hvalue] at hdone
      split at hdone
      · exact absurd hdone run_failure_ne_some
      next hsome =>
        rw [Bool.or_eq_true, not_or, List.isEmpty_iff, Bool.not_eq_true] at hsome
        obtain ⟨rfl, rfl⟩ := run_pure_eq_some_iff.mp hdone
        exact ⟨read, content, reads, hsome.1, hchars, hend, hsome.2, hvalue, rfl⟩
  · rintro ⟨read, content, reads, hne, hchars, hend, hclear, hvalue, rfl⟩
    refine ⟨read, stop, (huntil read stop).mpr ⟨reads, hchars, hend⟩, ?_⟩
    have hsome : ¬ (read.isEmpty || Text.contains read "]]>".toList) = true := by
      rw [hclear, Bool.or_false, List.isEmpty_iff]
      exact hne
    simp only [hvalue, if_neg hsome]
    rfl

/-- Events are read as pieces are, and those of what is read start at a byte known before. -/
def TellsFrom (start : Nat) (scan : Scan (List Event)) (piece : Scan Piece) : Prop :=
  ∀ cursor, scan.run cursor =
    (piece.run cursor).map fun found => (found.1.events start found.2.offset, found.2)

namespace TellsFrom

variable {start : Nat}

theorem pure {events : List Event} {piece : Piece} (h : ∀ stop, piece.events start stop = events) :
    TellsFrom start (Pure.pure events) (Pure.pure piece) := by
  intro cursor
  simp [h]

theorem pure_offset {events : Nat → List Event} {piece : Piece}
    (h : ∀ stop, piece.events start stop = events stop) :
    TellsFrom start (offset >>= fun stop => Pure.pure (events stop)) (Pure.pure piece) := by
  intro cursor
  rw [run_offset_bind]
  simp [h]

theorem failure : TellsFrom start Alternative.failure Alternative.failure := by
  intro cursor
  rfl

theorem bind {α : Type} (first : Scan α) {scan : α → Scan (List Event)} {piece : α → Scan Piece}
    (h : ∀ value, TellsFrom start (scan value) (piece value)) :
    TellsFrom start (first >>= scan) (first >>= piece) := by
  intro cursor
  rw [StateT.run_bind, StateT.run_bind]
  cases first.run cursor with
  | none => rfl
  | some found => exact h found.1 found.2

theorem ite {condition : Prop} [Decidable condition] {yes no : Scan (List Event)}
    {yesPiece noPiece : Scan Piece} (hyes : TellsFrom start yes yesPiece)
    (hno : TellsFrom start no noPiece) :
    TellsFrom start (if condition then yes else no) (if condition then yesPiece else noPiece) := by
  split
  · exact hyes
  · exact hno

end TellsFrom

theorem run_startTag (cursor : Cursor) : Event.startTag.run cursor =
    (startTag.run cursor).map fun found => (found.1.events cursor.offset found.2.offset, found.2) := by
  rw [Event.startTag, run_offset_bind]
  have tells : TellsFrom cursor.offset _ startTag :=
    .bind _ fun _ => .bind _ fun _ => .bind _ fun _ => .bind _ fun _ =>
      .ite (.pure fun _ => rfl) (.bind _ fun _ => .pure_offset fun _ => rfl)
  exact tells cursor

theorem tells_endTag (start : Nat) : TellsFrom start Event.endTag endTag :=
  .bind _ fun _ => .bind _ fun _ => .bind _ fun _ => .bind _ fun _ => .pure_offset fun _ => rfl

theorem tells_verbatim (start : Nat) : TellsFrom start Event.verbatim verbatim :=
  .bind _ fun _ => .bind _ fun _ => .pure fun _ => rfl

theorem tells_characters (start : Nat) : TellsFrom start Event.characters characters := by
  refine .bind _ fun read => ?_
  cases textValue? read with
  | none => exact .ite (.bind _ fun _ => .failure) .failure
  | some content => exact .ite (.bind _ fun _ => .pure fun _ => rfl) (.pure fun _ => rfl)

/-- Reading events is reading pieces. -/
theorem run_content (cursor : Cursor) : Event.content.run cursor =
    (next.run cursor).map fun found => (found.1.events cursor.offset found.2.offset, found.2) := by
  have silent (scan : Scan Unit) :
      TellsFrom cursor.offset (scan >>= fun _ => Pure.pure []) (scan >>= fun _ => Pure.pure silent) :=
    .bind _ fun _ => .pure fun _ => rfl
  -- Both tell what is next by the same five texts, in the same order.
  rw [Event.content, run_next]
  simp only [run_startsWith_ite]
  split
  · exact silent comment cursor
  split
  · exact tells_verbatim _ cursor
  split
  · exact silent instruction cursor
  split
  · exact tells_endTag _ cursor
  split
  · exact run_startTag cursor
  · exact tells_characters _ cursor

/-! ### Pieces are read where they stand -/

theorem local_qname : Local 0 qname := by
  refine .bind (.takeWhile _) fun read => ?_
  cases Event.qualify? read with
  | none => exact .failure
  | some name => exact .pure name

theorem local_rawAttribute : Local 0 rawAttribute := by
  refine .bind local_qname fun name => .bind .skipSpace fun _ => .bind (.expect _) fun _ =>
    .bind .skipSpace fun _ => .bind (.take 1) fun read => ?_
  cases read.head? with
  | none => exact .failure
  | some quote =>
    exact .ite (.bind (.takeUntil fun _ _ => rfl) fun _ => .bind (.expect _) fun _ => .pure _) .failure

theorem local_attributeAfterSpace? : Local 1 attributeAfterSpace? := by
  refine .head_bind (fun next => ?_) (fun next next' hhead => by simp only [hhead]) (Nat.le_refl 1)
  refine .bind (.mono .skipSpace (Nat.zero_le 1)) fun _ => .bind (.startsWith ">") fun _ =>
    .bind (.startsWith "/") fun _ => .ite (.mono (.pure _) (Nat.zero_le 1)) (.mono ?_ (Nat.zero_le 1))
  refine .ite (.bind local_rawAttribute fun found => ?_) .failure
  obtain ⟨name, written⟩ := found
  dsimp only
  cases attributeValue? written with
  | none => exact .failure
  | some value => exact .pure _

/-- An attribute has an equals sign. -/
theorem reads_of_attributeAfterSpace? ⦃start : Cursor⦄ ⦃raw : RawAttribute⦄ ⦃stop : Cursor⦄
    (h : attributeAfterSpace?.run start = some (some raw, stop)) :
    ∃ read, start.Reads read stop ∧ read ≠ [] := by
  have consumes : Consumes 1 rawAttribute := by
    refine .later local_qname.advances fun _ => .later advances_skipSpace fun _ =>
      .first (.expect "=") fun _ => .bind advances_skipSpace fun _ => .bind (advances_take 1) fun read => ?_
    cases read.head? with
    | none => exact .failure
    | some quote =>
      exact .ite (.bind (advances_takeUntil _) fun _ => .bind (advances_expect _) fun _ => .pure _) .failure
  rw [attributeAfterSpace?, run_rest_bind] at h
  obtain ⟨_, spaced, hspace, h⟩ := run_bind_eq_some_iff.mp h
  obtain ⟨front, readsSpace⟩ := advances_skipSpace hspace
  rw [run_startsWith_bind, run_startsWith_bind] at h
  split at h
  · cases (run_pure_eq_some_iff.mp h).1
  split at h
  · obtain ⟨⟨name, written⟩, last, hattribute, hdone⟩ := run_bind_eq_some_iff.mp h
    obtain ⟨read, reads, hlength⟩ := consumes hattribute
    dsimp only at hdone
    split at hdone
    · obtain ⟨-, rfl⟩ := run_pure_eq_some_iff.mp hdone
      refine ⟨front ++ read, readsSpace.trans reads, ?_⟩
      simp [List.ne_nil_of_length_pos hlength]
    · exact absurd hdone run_failure_ne_some
  · exact absurd h run_failure_ne_some

theorem local_startTag : Local 0 startTag := by
  refine .bind (.expect _) fun _ => .bind local_qname fun name => ?_
  -- The end of the tag, which is looked for between attributes, is read in the end.
  refine Local.bind_consumes (.many local_attributeAfterSpace? reads_of_attributeAfterSpace?)
    (fun attributes => .bind (.eat _) fun _ => .ite (.pure _) (.bind (.expect _) fun _ => .pure _)) ?_
    (Nat.le_refl 1)
  intro attributes start piece stop h
  obtain ⟨hit, middle, heat, hdone⟩ := run_bind_eq_some_iff.mp h
  have reads := run_eat_eq_some_iff.mp heat
  cases hit with
  | true =>
    obtain ⟨-, rfl⟩ := run_pure_eq_some_iff.mp hdone
    exact ⟨_, reads, Nat.le_refl 1⟩
  | false =>
    obtain ⟨rfl, -⟩ := reads
    obtain ⟨_, last, hexpect, hlast⟩ := run_bind_eq_some_iff.mp hdone
    obtain ⟨-, rfl⟩ := run_pure_eq_some_iff.mp hlast
    exact ⟨_, reads_of_expect hexpect, Nat.le_succ 1⟩

theorem local_endTag : Local 0 endTag :=
  .bind (.expect _) fun _ => .bind local_qname fun _ => .bind .skipSpace fun _ =>
    .bind (.expect _) fun _ => .pure _

theorem local_verbatim : Local 0 verbatim :=
  .bind (.expect _) fun _ => .bind (.takeThrough _) fun _ => .pure _

theorem local_characters : Local 0 characters := by
  refine .bind (.takeUntil fun _ _ => rfl) fun read => ?_
  cases textValue? read with
  | none => exact .ite (.bind .failure fun _ => .failure) .failure
  | some content => exact .ite (.bind .failure fun _ => .pure _) (.pure _)

theorem local_comment : Local 0 comment :=
  .bind (.expect _) fun _ => .bind (.takeThrough _) fun _ => .ite .failure (.pure _)

/-- An instruction behind the test that it is no declaration. -/
theorem local_instructionBody : Local 0 (do
    expect "<?"
    let _ ← name
    skipSpace
    let _ ← takeThrough "?>" : Scan Unit) :=
  .bind (.expect _) fun _ => .bind .name fun _ => .bind .skipSpace fun _ =>
    .bind (.takeThrough _) fun _ => .pure _

theorem local_instruction : Local 0 instruction :=
  .startsWith_ite (.bind .failure fun _ => local_instructionBody) local_instructionBody
    (.first .failure fun _ => local_instructionBody.advances)

/-! ### Pieces are not empty -/

theorem consumes_comment : Consumes 4 comment :=
  .first (.expect "<!--") fun _ => .bind (advances_takeThrough _) fun _ => .ite .failure (.pure _)

theorem consumes_verbatim : Consumes 9 verbatim :=
  .first (.expect "<![CDATA[") fun _ => .bind (advances_takeThrough _) fun _ => .pure _

theorem consumes_instruction : Consumes 2 instruction := by
  have body := Consumes.first (Consumes.expect "<?") fun _ =>
    Advances.bind advances_name fun _ => .bind advances_skipSpace fun _ =>
      .bind (advances_takeThrough "?>") fun _ => .pure ()
  exact .later (advances_startsWith _) fun _ => .ite (.first .failure fun _ => local_instructionBody.advances) body

theorem consumes_endTag : Consumes 2 endTag :=
  .first (.expect "</") fun _ => .bind Event.advances_qname fun _ => .bind advances_skipSpace fun _ =>
    .bind (advances_expect _) fun _ => .pure _

theorem consumes_startTag : Consumes 1 startTag :=
  .first (.expect "<") fun _ => .bind Event.advances_qname fun _ =>
    .bind (advances_many Event.advances_attributeAfterSpace?) fun _ => .bind (advances_eat _) fun _ =>
    .ite (.pure _) (.bind (advances_expect _) fun _ => .pure _)

theorem consumes_characters : Consumes 1 characters := by
  intro start piece stop h
  obtain ⟨read, _, reads, hne, -⟩ := run_characters_eq_some_iff.mp h
  exact ⟨read, reads, List.length_pos_iff.mpr hne⟩

theorem local_next : Local 0 next :=
  .startsWith_ite (.bind local_comment fun _ => .pure _)
    (.startsWith_ite local_verbatim
      (.startsWith_ite (.bind local_instruction fun _ => .pure _)
        (.startsWith_ite local_endTag
          (.startsWith_ite local_startTag local_characters consumes_startTag)
          consumes_endTag)
        (.first consumes_instruction fun _ => .pure _))
      consumes_verbatim)
    (.first consumes_comment fun _ => .pure _)

/-- Whatever is next, something of it is read. -/
theorem consumes_next : Consumes 1 next :=
  .later (advances_startsWith _) fun _ => .ite
    (.first (consumes_comment.mono (by decide)) fun _ => .pure _) <|
  .later (advances_startsWith _) fun _ => .ite (consumes_verbatim.mono (by decide)) <|
  .later (advances_startsWith _) fun _ => .ite
    (.first (consumes_instruction.mono (by decide)) fun _ => .pure _) <|
  .later (advances_startsWith _) fun _ => .ite (consumes_endTag.mono (by decide)) <|
  .later (advances_startsWith _) fun _ => .ite consumes_startTag consumes_characters

end Piece

end Exemplar.Markup
