import Exemplar.Proofs.Code.Cursor

/-!
# What readers answer

`Gives p post` says that `post` holds of every value that `p` may answer with, whatever the cursor is. Where the
value is made of the values of other readers, that is all that has to be known of them; of most readers nothing has
to be known.

There is one rule for each way of putting readers together.
-/

namespace Exemplar.Code.Parse

variable {α β : Type} {p : Parse α} {f : α → Parse β} {post other : α → Prop} {last : β → Prop} {complaint : Complaint}

/-- Every value that `p` answers with satisfies `post`. -/
def Gives (p : Parse α) (post : α → Prop) : Prop :=
  ∀ ⦃cursor : Cursor⦄ ⦃value : α⦄ ⦃stop : Cursor⦄, p cursor = (.ok value, stop) → post value

/-- What a round of a loop found, if anything, satisfies `post`. -/
def Round.All (post : α → Prop) : Round α → Prop
  | .done => True
  | .last item | .more item => post item

namespace Gives

/-! ### Sequences -/

theorem pure {value : α} (h : post value) : Gives (Pure.pure value) post := by
  rintro _ _ _ ⟨⟩
  exact h

theorem complain : Gives (Parse.complain complaint) post := by
  rintro _ _ _ ⟨⟩

theorem mono (h : Gives p post) (himp : ∀ value, post value → other value) : Gives p other :=
  fun _ _ _ hrun => himp _ (h hrun)

theorem bind (hp : Gives p post) (hf : ∀ value, post value → Gives (f value) last) : Gives (p >>= f) last := by
  intro cursor answer stop hrun
  rw [bind_apply] at hrun
  split at hrun
  case h_1 value middle hvalue => exact hf value (hp hvalue) hrun
  case h_2 => cases hrun

/-- The value of the first reader plays no part. -/
theorem after (hf : ∀ value, Gives (f value) last) : Gives (p >>= f) last :=
  .bind (fun _ _ _ _ => trivial : Gives p fun _ => True) fun value _ => hf value

theorem map {g : α → β} (hp : Gives p fun value => last (g value)) :
    Gives (p >>= fun value => Pure.pure (g value)) last :=
  hp.bind fun _ h => .pure h

variable {yes no : Parse α}

theorem ite {condition : Prop} [Decidable condition] (hyes : Gives yes post) (hno : Gives no post) :
    Gives (if condition then yes else no) post := by
  split
  · exact hyes
  · exact hno

/-- However it is decided, one of two readers is run. -/
theorem either {hit : Parse Bool} (hyes : Gives yes post) (hno : Gives no post) :
    Gives (hit >>= fun found => if found = true then yes else no) post :=
  .after fun _ => .ite hyes hno

theorem jump {found : Parse (Option Cursor)} (hyes : Gives yes post) (hno : Gives no post) :
    Gives (Parse.jump found yes no) post := by
  refine .after fun place? => ?_
  cases place? with
  | none => exact hno
  | some place => exact .after fun _ => hyes

theorem nested (hp : Gives p post) : Gives (Parse.nested p) post := by
  intro cursor value stop hrun
  rw [Parse.nested] at hrun
  split at hrun
  case isTrue h =>
    rcases hinner : p (cursor.enter h) with ⟨result, after⟩
    rw [hinner] at hrun
    cases hrun
    exact hp hinner
  case isFalse => cases hrun

/-! ### Loops -/

theorem collectWithin {round : Parse (Round α)} (hround : Gives round (Round.All post)) (rounds : Nat) :
    Gives (Parse.collectWithin round rounds) fun items => ∀ item ∈ items, post item := by
  induction rounds with
  | zero => exact .complain
  | succ rounds ih =>
    refine hround.bind fun found hfound => ?_
    cases found with
    | done => exact .pure (List.forall_mem_nil _)
    | last item => exact .pure (List.forall_mem_singleton.mpr hfound)
    | more item => exact .map (ih.mono fun items hitems => List.forall_mem_cons.mpr ⟨hfound, hitems⟩)

theorem collect {round : Parse (Round α)} (hround : Gives round (Round.All post)) :
    Gives (Parse.collect round) fun items => ∀ item ∈ items, post item :=
  .after fun cursor => .collectWithin hround (cursor.rest.length + 1)

theorem growWithin {step : α → Parse (Option α)}
    (hstep : ∀ value, post value → Gives (step value) fun larger? => larger?.elim True post) (steps : Nat) :
    ∀ value, post value → Gives (Parse.growWithin step steps value) post := by
  induction steps with
  | zero => exact fun _ _ => .complain
  | succ steps ih =>
    refine fun value hvalue => (hstep value hvalue).bind fun larger? hlarger => ?_
    cases larger? with
    | none => exact .pure hvalue
    | some larger => exact ih larger hlarger

/-- What holds of a value and is kept by each step holds of what the value grows to. -/
theorem grow {step : α → Parse (Option α)} {value : α} (hvalue : post value)
    (hstep : ∀ value, post value → Gives (step value) fun larger? => larger?.elim True post) :
    Gives (Parse.grow step value) post :=
  .after fun cursor => .growWithin hstep (cursor.rest.length + 1) value hvalue

theorem many {item? : Parse (Option α)} (hitem : Gives item? fun item? => item?.elim True post) :
    Gives (Parse.many item?) fun items => ∀ item ∈ items, post item := by
  refine .collect (hitem.bind fun item? h => ?_)
  cases item? with
  | none => exact .pure trivial
  | some item => exact .pure h

variable {close opening : Symbol} {construct : String}

theorem collectTo (hp : Gives p post) : Gives (Parse.collectTo close p) fun items => ∀ item ∈ items, post item :=
  .collect (.either (.pure trivial) (.map hp))

theorem collectUntil (hp : Gives p post) :
    Gives (Parse.collectUntil close construct p) fun items => ∀ item ∈ items, post item :=
  .collectTo (.either .complain hp)

theorem separated (hp : Gives p post) : Gives (Parse.separated p) fun items => ∀ item ∈ items, post item :=
  .collect (hp.bind fun _ h => .either (.pure h) (.pure h))

theorem enclosed (hp : Gives p post) :
    Gives (Parse.enclosed opening close p) fun items => ∀ item ∈ items, post item :=
  .after fun _ => .collect (.either (.pure trivial) (hp.bind fun _ h =>
    .either (.pure h) (.after fun _ => .pure h)))

end Gives

end Exemplar.Code.Parse
