import Exemplar.Code.Cursor
import Exemplar.Proofs.Code.Cursor
import Exemplar.Proofs.Code.Stretch
import Mathlib.Data.Option.Basic
import Mathlib.Data.Option.Defs

/-!
# Readers and places

A reader looks at the kind, the text and the line of a token, and at whether the next token touches it, but
never at where tokens stand otherwise. So rows of tokens that are alike in this are read alike: with the same value,
or with the same complaint about the same token.

There is one rule for each way of putting readers together, for two readers that run side by side.
-/

namespace Exemplar.Code

variable {α β γ δ : Type}

/-! ### What is alike -/

/-- Two tokens that differ at most in where they stand on their line and in the source. -/
inductive Token.Alike : Token → Token → Prop
  | intro {kind : TokenKind} {text : String} {line column column' offset offset' : Nat} :
      Alike ⟨kind, text, ⟨line, column, offset⟩⟩ ⟨kind, text, ⟨line, column', offset'⟩⟩

/-- The first of some tokens starts at a byte. -/
def BeginsAt (offset : Nat) (tokens : List Token) : Prop :=
  ∃ token ∈ tokens.head?, token.start.offset = offset

theorem beginsAt_cons_iff {offset : Nat} {token : Token} {tokens : List Token} :
    BeginsAt offset (token :: tokens) ↔ token.start.offset = offset := by
  simp [BeginsAt]

/-- Rows of tokens that are alike one by one, where closing angle brackets touch the next token at the same
places. -/
inductive AlikeRows : List Token → List Token → Prop
  | nil : AlikeRows [] []
  | cons {token other : Token} {tokens others : List Token} (head : token.Alike other)
      (touch : token.kind = .punct .greater →
        (BeginsAt (token.start.offset + 1) tokens ↔ BeginsAt (other.start.offset + 1) others))
      (tail : AlikeRows tokens others) : AlikeRows (token :: tokens) (other :: others)

/-- A function of tokens that does not look at where they stand. -/
def Placeless (f : Token → γ) : Prop :=
  ∀ ⦃token other : Token⦄, token.Alike other → f token = f other

theorem placeless_line : Placeless Token.line := by
  rintro _ _ ⟨⟩
  rfl

theorem placeless_text : Placeless Token.text := by
  rintro _ _ ⟨⟩
  rfl

/-- Cursors in front of tokens that are alike. -/
structure Cursor.Alike (cursor other : Cursor) : Prop where
  rest : AlikeRows cursor.rest other.rest
  pos : cursor.pos = other.pos
  depth : cursor.depth = other.depth
  lastLine : cursor.lastLine = other.lastLine

/-- Complaints that say the same. -/
structure SyntaxError.Alike (e other : SyntaxError) : Prop where
  complaint : e.complaint = other.complaint
  found : e.found?.map Token.text = other.found?.map Token.text
  line : e.line = other.line
  pos : e.pos = other.pos

variable {tokens others : List Token} {cursor other : Cursor}

namespace AlikeRows

theorem length_eq (h : AlikeRows tokens others) : tokens.length = others.length := by
  induction h with
  | nil => rfl
  | cons _ _ _ ih => rw [List.length_cons, List.length_cons, ih]

theorem getElem? (h : AlikeRows tokens others) : ∀ n : Nat, Option.Rel Token.Alike tokens[n]? others[n]? := by
  induction h with
  | nil => exact fun _ => .none
  | cons head _ _ ih =>
    intro n
    cases n with
    | zero => exact .some head
    | succ n => exact ih n

theorem map_eq (h : AlikeRows tokens others) {f : Token → γ} (hf : Placeless f) : tokens.map f = others.map f := by
  induction h with
  | nil => rfl
  | cons head _ _ ih => rw [List.map_cons, List.map_cons, hf head, ih]

end AlikeRows

theorem Placeless.any {test : Token → Bool} (h : Placeless test) {token? other? : Option Token}
    (halike : Option.Rel Token.Alike token? other?) : token?.any test = other?.any test := by
  cases halike with
  | none => rfl
  | some htokens => exact h htokens

namespace Cursor.Alike

variable {place place' : Cursor}

theorem head? (h : cursor.Alike other) : Option.Rel Token.Alike cursor.rest.head? other.rest.head? := by
  rw [List.head?_eq_getElem?, List.head?_eq_getElem?]
  exact h.rest.getElem? 0

theorem line (h : cursor.Alike other) : cursor.line = other.line := by
  have hlines := congrArg List.head? (h.rest.map_eq placeless_line)
  rw [List.head?_map, List.head?_map] at hlines
  rw [Cursor.line, Cursor.line, hlines, h.lastLine]

theorem text_head? (h : cursor.Alike other) :
    cursor.rest.head?.map Token.text = other.rest.head?.map Token.text := by
  rw [← List.head?_map, ← List.head?_map, h.rest.map_eq placeless_text]

theorem isEmpty (h : cursor.Alike other) : cursor.rest.isEmpty = other.rest.isEmpty := by
  rw [Bool.eq_iff_iff, List.isEmpty_iff_length_eq_zero, List.isEmpty_iff_length_eq_zero, h.rest.length_eq]

theorem ahead (h : cursor.Alike other) {test : Token → Bool} (htest : Placeless test) (n : Nat) :
    cursor.ahead n test = other.ahead n test :=
  htest.any (h.rest.getElem? n)

theorem backTo (h : cursor.Alike other) (hplace : place.Alike place') :
    (cursor.backTo place).Alike (other.backTo place') :=
  ⟨hplace.rest, hplace.pos, h.depth, h.lastLine⟩

theorem enter (h : cursor.Alike other) (hdepth : cursor.depth < maxDepth) (hdepth' : other.depth < maxDepth) :
    (cursor.enter hdepth).Alike (other.enter hdepth') :=
  ⟨h.rest, h.pos, congrArg Nat.succ h.depth, h.lastLine⟩

theorem leave (h : cursor.Alike other) : cursor.leave.Alike other.leave :=
  ⟨h.rest, h.pos, congrArg Nat.pred h.depth, h.lastLine⟩

theorem ofTokens (h : AlikeRows tokens others) : (Cursor.ofTokens tokens).Alike (.ofTokens others) := by
  refine ⟨h, rfl, rfl, ?_⟩
  have hlines := congrArg List.getLast? (h.map_eq placeless_line)
  rw [List.getLast?_map, List.getLast?_map] at hlines
  rw [Cursor.ofTokens, Cursor.ofTokens, hlines]

end Cursor.Alike

/-! ### Readers side by side -/

namespace Parse

/-- How two readers end that agree: behind tokens that are alike, with values that `R` relates or with the same
complaint. -/
def AlikeEnds (R : α → β → Prop) :
    Except SyntaxError α × Cursor → Except SyntaxError β × Cursor → Prop
  | (.ok value, stop), (.ok value', stop') => R value value' ∧ stop.Alike stop'
  | (.error e, stop), (.error e', stop') => e.Alike e' ∧ stop.Alike stop'
  | _, _ => False

/-- Two readers that agree wherever tokens are alike. -/
def Agree (R : α → β → Prop) (p : Parse α) (q : Parse β) : Prop :=
  ∀ ⦃cursor other : Cursor⦄, cursor.Alike other → AlikeEnds R (p cursor) (q other)

/-- A reader that does not look at places. -/
abbrev Blind (p : Parse α) : Prop :=
  Agree Eq p p

variable {R : α → β → Prop} {S : γ → δ → Prop} {p : Parse α} {q : Parse β} {f : α → Parse γ}
  {test first second : Token → Bool} {complaint : Complaint}

/-! ### Sequences -/

theorem get_bind_apply (f : Cursor → Parse α) (cursor : Cursor) : (MonadState.get >>= f) cursor = f cursor cursor :=
  rfl

theorem Agree.bind {g : β → Parse δ} (hp : Agree R p q)
    (hf : ∀ value value', R value value' → Agree S (f value) (g value')) :
    Agree S (p >>= f) (q >>= g) := by
  intro cursor other h
  rw [bind_apply, bind_apply]
  have hends := hp h
  revert hends
  rcases p cursor with ⟨e | value, stop⟩ <;> rcases q other with ⟨e' | value', stop'⟩
  · exact id
  · exact False.elim
  · exact False.elim
  · rintro ⟨hvalue, hstop⟩
    exact hf value value' hvalue hstop

/-- The same complaint says the same in front of tokens that are alike. -/
theorem Agree.complain : Agree R (complain complaint) (complain complaint) :=
  fun _ _ h => ⟨⟨rfl, h.text_head?, h.line, h.pos⟩, h⟩

namespace Blind

theorem pure {value : α} : Blind (Pure.pure value : Parse α) :=
  fun _ _ h => ⟨rfl, h⟩

theorem bind (hp : Blind p) (hf : ∀ value, Blind (f value)) : Blind (p >>= f) :=
  Agree.bind hp fun value _ hvalue => hvalue ▸ hf value

/-- What is made of a value looks at no more. -/
theorem map (hp : Blind p) {g : α → γ} : Blind (p >>= fun value => Pure.pure (g value)) :=
  hp.bind fun _ => .pure

theorem complain : Blind (Parse.complain complaint : Parse α) :=
  Agree.complain

theorem ite {yes no : Parse α} {condition : Prop} [Decidable condition] (hyes : Blind yes) (hno : Blind no) :
    Blind (if condition then yes else no) := by
  split
  · exact hyes
  · exact hno

/-- A reader that looks at the cursor first, but only at what is the same in front of tokens that are alike. -/
theorem look {p : Parse γ} (look : Cursor → α) (hlook : ∀ cursor other, cursor.Alike other → look cursor = look other)
    (f : α → Parse γ) (hp : ∀ cursor, p cursor = f (look cursor) cursor) (hf : ∀ seen, Blind (f seen)) : Blind p := by
  intro cursor other h
  rw [hp cursor, hp other, ← hlook cursor other h]
  exact hf (look cursor) h

theorem get (look : Cursor → α) (hlook : ∀ cursor other, cursor.Alike other → look cursor = look other)
    (hf : ∀ seen, Blind (f seen)) : Blind (MonadState.get >>= fun cursor => f (look cursor)) :=
  .look look hlook f (fun _ => rfl) hf

/-- A token is read whose place has no part in what follows. -/
theorem token {p : Parse Token} {f : Token → Parse γ} (hp : Agree Token.Alike p p) (hplace : Placeless f)
    (hf : ∀ token, Blind (f token)) : Blind (p >>= f) :=
  Agree.bind hp fun token _ htokens => hplace htokens ▸ hf token

/-- A token is read, if there is one, whose place has no part in what follows. -/
theorem token? {p : Parse (Option Token)} {f : Option Token → Parse γ}
    (hp : Agree (Option.Rel Token.Alike) p p) (hplace : Placeless (fun token => f (some token)))
    (hf : ∀ token?, Blind (f token?)) : Blind (p >>= f) :=
  Agree.bind hp fun token? _ htokens => by
    cases htokens with
    | none => exact hf none
    | some htokens =>
      have hsame : f (some _) = f (some _) := hplace htokens
      exact hsame ▸ hf (some _)

end Blind

/-! ### Single tokens -/

theorem blind_line : Blind line :=
  fun _ _ h => ⟨h.line, h⟩

theorem blind_atEnd : Blind atEnd :=
  fun _ _ h => ⟨h.isEmpty, h⟩

theorem agree_peek? : Agree (Option.Rel Token.Alike) peek? peek? :=
  fun _ _ h => ⟨h.head?, h⟩

theorem blind_ahead {n : Nat} (htest : Placeless test) : Blind (ahead n test) :=
  fun _ _ h => ⟨h.ahead htest n, h⟩

theorem blind_atSymbol {symbol : Symbol} : Blind (atSymbol symbol) :=
  blind_ahead fun | _, _, .intro => rfl

theorem blind_atWord {word : String} : Blind (atWord word) :=
  blind_ahead fun | _, _, .intro => rfl

theorem blind_aheadPair (hfirst : Placeless first)
    (hsecond : Placeless second) : Blind (aheadPair first second) :=
  fun _ _ h => ⟨congrArg₂ _ (h.ahead hfirst 0) (h.ahead hsecond 1), h⟩

theorem blind_advance : Blind advance := by
  rintro ⟨tokens, pos, depth, hdepth, lastLine⟩ ⟨others, pos', depth', hdepth', lastLine'⟩ h
  obtain ⟨hrest, hpos, hdepths, hlast⟩ := id h
  cases hrest with
  | nil => exact Blind.complain h
  | cons _ _ tail => exact ⟨rfl, tail, congrArg Nat.succ hpos, hdepths, hlast⟩

theorem blind_skip (n : Nat) : Blind (skip n) := by
  induction n with
  | zero => exact .pure
  | succ n ih => exact blind_advance.bind fun _ => ih

theorem agree_next? : Agree (Option.Rel Token.Alike) next? next? := by
  refine agree_peek?.bind fun token? other? htokens => ?_
  cases htokens with
  | none => exact fun _ _ h => ⟨.none, h⟩
  | some htokens => exact Agree.bind blind_advance fun _ _ _ _ _ h => ⟨.some htokens, h⟩

theorem agree_expectIf (htest : Placeless test) :
    Agree Token.Alike (expectIf test complaint) (expectIf test complaint) := by
  refine agree_peek?.bind fun token? other? htokens => ?_
  cases htokens with
  | none => exact .complain
  | @some token other htokens =>
    dsimp only
    rw [htest htokens]
    split
    · exact Agree.bind blind_advance fun _ _ _ _ _ h => ⟨htokens, h⟩
    · exact .complain

theorem agree_expectIdent : Agree Token.Alike expectIdent expectIdent :=
  agree_expectIf fun | _, _, .intro => rfl

theorem blind_expect {symbol : Symbol} : Blind (expect symbol) :=
  .token (agree_expectIf fun | _, _, .intro => rfl) (fun | _, _, .intro => rfl) fun _ => .pure

theorem blind_expectWord {word : String} : Blind (expectWord word) :=
  .token (agree_expectIf fun | _, _, .intro => rfl) (fun | _, _, .intro => rfl) fun _ => .pure

theorem blind_eatIf (htest : Placeless test) : Blind (eatIf test) :=
  (blind_ahead htest).bind fun _ => .ite (blind_advance.bind fun _ => .pure) .pure

theorem blind_eat {symbol : Symbol} : Blind (eat symbol) :=
  blind_eatIf fun | _, _, .intro => rfl

theorem blind_eatWord {word : String} : Blind (eatWord word) :=
  blind_eatIf fun | _, _, .intro => rfl

/-! ### Looking further ahead -/

theorem agree_foresee? {probe : Parse Bool} (hprobe : Blind probe) :
    Agree (Option.Rel Cursor.Alike) (foresee? probe) (foresee? probe) := by
  intro cursor other h
  have hends := hprobe h
  revert hends
  -- The probe ends alike for both. It goes back to where it began, unless it failed for good.
  unfold foresee?
  rcases probe cursor with ⟨e | hit, stop⟩ <;> rcases probe other with ⟨e' | hit', stop'⟩
  · rintro ⟨he, hstop⟩
    dsimp only
    rw [he.complaint]
    split
    · exact ⟨he, hstop⟩
    · exact ⟨.none, hstop.backTo h⟩
  · exact False.elim
  · exact False.elim
  · rintro ⟨rfl, hstop⟩
    cases hit with
    | false => exact ⟨.none, hstop.backTo h⟩
    | true => exact ⟨.some hstop, hstop.backTo h⟩

theorem blind_jump {probe : Parse Bool} {yes no : Parse α} (hprobe : Blind probe) (hyes : Blind yes)
    (hno : Blind no) : Blind (jump (foresee? probe) yes no) := by
  refine (agree_foresee? hprobe).bind fun place? place?' hplace => ?_
  cases hplace with
  | none => exact hno
  | some hplace => exact fun _ _ _ => hyes hplace

theorem blind_speculate {probe : Parse Bool} (hprobe : Blind probe) : Blind (speculate probe) :=
  blind_jump hprobe .pure .pure

/-! ### Nesting -/

theorem blind_nested (hp : Blind p) : Blind (nested p) := by
  intro cursor other h
  -- Both are equally deep, so both go in or neither does.
  by_cases hdepth : cursor.depth < maxDepth
  case neg =>
    rw [nested, nested, dif_neg hdepth, dif_neg (h.depth ▸ hdepth)]
    exact Blind.complain h
  case pos =>
    have hdepth' : other.depth < maxDepth := h.depth ▸ hdepth
    have hends := hp (h.enter hdepth hdepth')
    revert hends
    rw [nested, nested, dif_pos hdepth, dif_pos hdepth']
    rcases p (cursor.enter hdepth) with ⟨e | value, stop⟩ <;>
      rcases p (other.enter hdepth') with ⟨e' | value', stop'⟩
    · rintro ⟨he, hstop⟩
      exact ⟨he, hstop.leave⟩
    · exact False.elim
    · exact False.elim
    · rintro ⟨hvalue, hstop⟩
      exact ⟨hvalue, hstop.leave⟩

/-! ### Loops -/

theorem blind_collectWithin {round : Parse (Round α)} (hround : Blind round) (rounds : Nat) :
    Blind (collectWithin round rounds) := by
  induction rounds with
  | zero => exact .complain
  | succ rounds ih =>
    refine hround.bind fun found => ?_
    cases found with
    | done | last => exact .pure
    | more item => exact .map ih

theorem blind_collect {round : Parse (Round α)} (hround : Blind round) : Blind (collect round) :=
  .get (fun cursor => cursor.rest.length) (fun _ _ h => h.rest.length_eq) fun count =>
    blind_collectWithin hround (count + 1)

theorem blind_growWithin {step : α → Parse (Option α)} (hstep : ∀ value, Blind (step value)) (steps : Nat) :
    ∀ value, Blind (growWithin step steps value) := by
  induction steps with
  | zero => exact fun _ => .complain
  | succ steps ih =>
    refine fun value => (hstep value).bind fun larger? => ?_
    cases larger? with
    | none => exact .pure
    | some larger => exact ih larger

theorem blind_grow {step : α → Parse (Option α)} (hstep : ∀ value, Blind (step value)) (value : α) :
    Blind (grow step value) :=
  .get (fun cursor => cursor.rest.length) (fun _ _ h => h.rest.length_eq) fun count =>
    blind_growWithin hstep (count + 1) value

theorem blind_many {item? : Parse (Option α)} (hitem : Blind item?) : Blind (many item?) :=
  blind_collect (hitem.bind fun item? => by cases item? <;> exact .pure)

theorem blind_collectTo {close : Symbol} {item : Parse α} (hitem : Blind item) : Blind (collectTo close item) :=
  blind_collect (blind_eat.bind fun _ => .ite .pure (.map hitem))

theorem blind_collectUntil {close : Symbol} {construct : String} {item : Parse α} (hitem : Blind item) :
    Blind (collectUntil close construct item) :=
  blind_collectTo (blind_atEnd.bind fun _ => .ite .complain hitem)

theorem blind_skipPairs (hfirst : Placeless first)
    (hsecond : Placeless second) : Blind (skipPairs first second) :=
  (blind_many ((blind_aheadPair hfirst hsecond).bind fun _ =>
    .ite ((blind_skip 2).bind fun _ => .pure) .pure)).bind fun _ => .pure

theorem blind_separated {item : Parse α} (hitem : Blind item) : Blind (separated item) :=
  blind_collect (hitem.bind fun _ => blind_eat.bind fun _ => .ite .pure .pure)

theorem blind_enclosed {opening close : Symbol} {item : Parse α} (hitem : Blind item) :
    Blind (enclosed opening close item) :=
  blind_expect.bind fun _ => blind_collect (blind_eat.bind fun _ => .ite .pure
    (hitem.bind fun _ => blind_eat.bind fun _ => .ite .pure (blind_expect.bind fun _ => .pure)))

end Parse

end Exemplar.Code
