import Exemplar.Code.Cursor

/-!
# What readers do to their cursor

`Meets depth p tokens post` says what `p` does at every cursor that stands in front of `tokens` and inside of
`depth` constructs. If it succeeds, it has read some of the tokens, and `post` holds of its value, of the
tokens read and of those left. If it fails, it has also only read some of the tokens, and the complaint is
about the tokens: no bound was reached, no token was missing behind a place where one had been seen, and no
bracket was closed that had not been opened.

There is one rule for each way of putting readers together. The rules for loops carry the reason why the
bounds of the loops are never reached: a round that asks for another one has read a token.
-/

namespace Exemplar.Code

variable {α β : Type}

/-- A text starts on the line of its first token. -/
def Starts (line : Nat) (tokens : List Token) : Prop :=
  tokens.head?.map Token.line = some line

namespace Starts

variable {line : Nat} {front back : List Token}

theorem ne_nil (h : Starts line front) : front ≠ [] := by
  rintro rfl
  cases h

theorem append (h : Starts line front) (back : List Token) : Starts line (front ++ back) := by
  cases front with
  | nil => cases h
  | cons token rest => exact h

theorem left (h : Starts line (front ++ back)) (hfront : front ≠ []) : Starts line front := by
  cases front with
  | nil => exact absurd rfl hfront
  | cons token rest => exact h

/-- What was read starts on the line noted in front of it. -/
theorem of_noted (h : front ++ back ≠ [] → Starts line (front ++ back)) (hfront : front ≠ []) :
    Starts line front :=
  (h (List.append_ne_nil_of_left_ne_nil hfront back)).left hfront

end Starts

namespace Cursor

/-- One cursor is reached from another one by reading some tokens, and is inside of as many constructs. -/
structure Reads (start : Cursor) (read : List Token) (stop : Cursor) : Prop where
  rest : start.rest = read ++ stop.rest
  pos : stop.pos = start.pos + read.length
  depth : stop.depth = start.depth
  lastLine : stop.lastLine = start.lastLine

variable {start middle stop : Cursor} {read more : List Token}

theorem Reads.refl (cursor : Cursor) : cursor.Reads [] cursor := ⟨rfl, rfl, rfl, rfl⟩

theorem Reads.trans (first : start.Reads read middle) (second : middle.Reads more stop) :
    start.Reads (read ++ more) stop where
  rest := by rw [first.rest, second.rest, List.append_assoc]
  pos := by rw [second.pos, first.pos, List.length_append, Nat.add_assoc]
  depth := second.depth.trans first.depth
  lastLine := second.lastLine.trans first.lastLine

theorem Reads.eq_of_nil (reads : start.Reads [] stop) : stop = start := by
  obtain ⟨hrest, hpos, hdepth, hlast⟩ := reads
  cases start
  cases stop
  simp_all

/-- A cursor that is put back has read nothing. -/
theorem Reads.backTo (reads : start.Reads read stop) : start.Reads [] (stop.backTo start) :=
  ⟨rfl, rfl, reads.depth, reads.lastLine⟩

/-- Inside of a construct as many tokens are read as around it. -/
theorem Reads.leave {h : start.depth < maxDepth} (reads : (start.enter h).Reads read stop) :
    start.Reads read stop.leave :=
  ⟨reads.rest, reads.pos, congrArg Nat.pred reads.depth, reads.lastLine⟩

end Cursor

namespace Parse

/-- How a run that started at a cursor may end: behind some tokens it read, with a value that satisfies `post`
together with the tokens read and those left, or with a complaint that is about the tokens. -/
def Ends (start : Cursor) (post : α → List Token → List Token → Prop) :
    Except SyntaxError α × Cursor → Prop
  | (.ok value, stop) => ∃ read, start.Reads read stop ∧ post value read stop.rest
  | (.error e, stop) => (∃ read, start.Reads read stop) ∧ e.complaint.isFault = false

/-- A run that goes on behind some tokens. -/
theorem Ends.after {start middle : Cursor} {read : List Token}
    {post : α → List Token → List Token → Prop} {result : Except SyntaxError α × Cursor}
    (reads : start.Reads read middle)
    (h : Ends middle (fun value more left => post value (read ++ more) left) result) :
    Ends start post result := by
  rcases result with ⟨e | value, stop⟩
  · obtain ⟨⟨more, readsMore⟩, hfault⟩ := h
    exact ⟨⟨read ++ more, reads.trans readsMore⟩, hfault⟩
  · obtain ⟨more, readsMore, hpost⟩ := h
    exact ⟨read ++ more, reads.trans readsMore, hpost⟩

/-- What `p` does at every cursor in front of `tokens` and inside of `depth` constructs. -/
def Meets (depth : Nat) (p : Parse α) (tokens : List Token)
    (post : α → List Token → List Token → Prop) : Prop :=
  ∀ cursor : Cursor, cursor.depth = depth → cursor.rest = tokens → Ends cursor post (p cursor)

variable {depth : Nat} {tokens rest : List Token} {p : Parse α} {f : α → Parse β}
  {post other : α → List Token → List Token → Prop} {last : β → List Token → List Token → Prop}

/-! ### Sequences -/

theorem bind_apply (p : Parse α) (f : α → Parse β) (cursor : Cursor) :
    (p >>= f) cursor = match p cursor with
      | (.ok value, after) => f value after
      | (.error e, after) => (.error e, after) := by
  change (ExceptT.bind p f) cursor = _
  simp only [ExceptT.bind, ExceptT.mk, bind, StateT.bind]
  rcases p cursor with ⟨_ | _, after⟩ <;> rfl

namespace Meets

theorem mono (h : Meets depth p tokens post)
    (himp : ∀ value read rest, tokens = read ++ rest → post value read rest → other value read rest) :
    Meets depth p tokens other := by
  intro cursor hdepth hrest
  have hcursor := h cursor hdepth hrest
  revert hcursor
  rcases p cursor with ⟨e | value, stop⟩
  · exact id
  · rintro ⟨read, reads, hpost⟩
    exact ⟨read, reads, himp value read stop.rest (hrest ▸ reads.rest) hpost⟩

/-- What a run does, it does with the same tokens. -/
theorem and (h : Meets depth p tokens post) (hother : Meets depth p tokens other) :
    Meets depth p tokens fun value read left => post value read left ∧ other value read left := by
  intro cursor hdepth hrest
  have hcursor := h cursor hdepth hrest
  have hagain := hother cursor hdepth hrest
  revert hcursor hagain
  rcases p cursor with ⟨e | value, stop⟩
  · exact fun hcursor _ => hcursor
  · rintro ⟨read, reads, hpost⟩ ⟨more, readsMore, hmore⟩
    obtain rfl : more = read := List.append_cancel_right (readsMore.rest.symm.trans reads.rest)
    exact ⟨more, reads, hpost, hmore⟩

theorem pure {value : α} (h : post value [] tokens) : Meets depth (pure value) tokens post :=
  fun cursor _ hrest => ⟨[], .refl cursor, hrest ▸ h⟩

theorem bind (hp : Meets depth p tokens post)
    (hf : ∀ value read rest, tokens = read ++ rest → post value read rest →
      Meets depth (f value) rest fun answer more left => last answer (read ++ more) left) :
    Meets depth (p >>= f) tokens last := by
  intro cursor hdepth hrest
  rw [bind_apply]
  have hcursor := hp cursor hdepth hrest
  revert hcursor
  rcases p cursor with ⟨e | value, middle⟩
  · exact id
  · rintro ⟨read, reads, hpost⟩
    exact .after reads (hf value read middle.rest (hrest ▸ reads.rest) hpost middle
      (reads.depth.trans hdepth) rfl)

/-- What is made of a value reads nothing more. -/
theorem map {g : α → β} (hp : Meets depth p tokens fun value read left => last (g value) read left) :
    Meets depth (p >>= fun value => Pure.pure (g value)) tokens last :=
  .bind hp fun _ read _ _ h => .pure ((List.append_nil read).symm ▸ h)

theorem complain {complaint : Complaint} (h : complaint.isFault = false) :
    Meets depth (complain complaint) tokens post :=
  fun cursor _ _ => ⟨⟨[], .refl cursor⟩, h⟩

/-- A reader that looks at the cursor first. -/
theorem get {f : Cursor → Parse β}
    (h : ∀ cursor : Cursor, cursor.rest = tokens → Meets depth (f cursor) tokens last) :
    Meets depth (MonadState.get >>= f) tokens last :=
  fun cursor hdepth hrest => h cursor hrest cursor hdepth hrest

end Meets

/-! ### Looking at what is next -/

theorem meets_atEnd : Meets depth atEnd tokens fun value read left =>
    read = [] ∧ left = tokens ∧ value = tokens.isEmpty :=
  fun cursor _ hrest => ⟨[], .refl cursor, rfl, hrest, by rw [← hrest]⟩

namespace Meets

/-- The line in front of some tokens is that of the first one. -/
theorem line {f : Nat → Parse β}
    (h : ∀ value, (tokens ≠ [] → Starts value tokens) → Meets depth (f value) tokens last) :
    Meets depth (Parse.line >>= f) tokens last := by
  intro cursor hdepth hrest
  refine h cursor.line (fun hne => ?_) cursor hdepth hrest
  obtain ⟨token, rest, htokens⟩ := List.exists_cons_of_ne_nil hne
  simp [Starts, Cursor.line, hrest, htokens]

/-- What is read from some tokens on, if anything, starts on their line. -/
theorem lineRead {f : Nat → Parse β} (h : ∀ value, Meets depth (f value) tokens fun answer read left =>
      (read ≠ [] → Starts value read) → last answer read left) :
    Meets depth (Parse.line >>= f) tokens last := by
  refine line fun value hvalue => (h value).mono ?_
  rintro answer read left rfl hlast
  exact hlast fun hread => .of_noted hvalue hread

theorem peek? {f : Option Token → Parse β} (h : Meets depth (f tokens.head?) tokens last) :
    Meets depth (Parse.peek? >>= f) tokens last := by
  intro cursor hdepth hrest
  subst hrest
  exact h cursor hdepth rfl

theorem ahead {f : Bool → Parse β} {n : Nat} {test : Token → Bool}
    (h : Meets depth (f (tokens[n]?.any test)) tokens last) :
    Meets depth (Parse.ahead n test >>= f) tokens last := by
  intro cursor hdepth hrest
  subst hrest
  exact h cursor hdepth rfl

variable {yes no : Parse α} {test first second : Token → Bool}

theorem ifAhead (hyes : ∀ token rest, tokens = token :: rest → test token = true →
      Meets depth yes tokens post) (hno : Meets depth no tokens post) :
    Meets depth (Parse.ahead 0 test >>= fun hit => if hit = true then yes else no) tokens post := by
  refine ahead ?_
  split
  case isTrue h =>
    cases tokens with
    | nil => simp at h
    | cons token rest => exact hyes token rest rfl (by simpa using h)
  case isFalse => exact hno

theorem aheadPair {f : Bool → Parse β}
    (h : Meets depth (f (tokens[0]?.any first && tokens[1]?.any second)) tokens last) :
    Meets depth (Parse.aheadPair first second >>= f) tokens last := by
  intro cursor hdepth hrest
  subst hrest
  exact h cursor hdepth rfl

theorem ifPair (hyes : ∀ token next rest, tokens = token :: next :: rest → first token = true →
      second next = true → Meets depth yes tokens post) (hno : Meets depth no tokens post) :
    Meets depth (Parse.aheadPair first second >>= fun hit => if hit = true then yes else no) tokens
      post := by
  refine aheadPair ?_
  split
  case isTrue h =>
    rw [Bool.and_eq_true] at h
    match tokens with
    | [] | [_] => simp at h
    | token :: next :: rest => exact hyes token next rest rfl (by simpa using h.1) (by simpa using h.2)
  case isFalse => exact hno

end Meets

/-! ### Reading single tokens -/

/-- The next token is read. -/
theorem Meets.advance {f : Unit → Parse β} {token : Token}
    (h : Meets depth (f ()) rest fun answer more left => last answer (token :: more) left) :
    Meets depth (Parse.advance >>= f) (token :: rest) last := by
  have hadvance : Meets depth Parse.advance (token :: rest) fun _ read left =>
      read = [token] ∧ left = rest := by
    intro cursor _ hrest
    have hrun : Parse.advance cursor = (.ok (), { cursor with rest := rest, pos := cursor.pos + 1 }) := by
      rw [Parse.advance, hrest]
    rw [hrun]
    exact ⟨[token], ⟨hrest, rfl, rfl, rfl⟩, rfl, rfl⟩
  refine .bind hadvance ?_
  rintro _ _ _ - ⟨rfl, rfl⟩
  exact h

theorem meets_skip (front : List Token) : Meets depth (skip front.length) (front ++ rest)
    fun _ read left => read = front ∧ left = rest := by
  induction front with
  | nil => exact .pure ⟨rfl, rfl⟩
  | cons token front ih =>
    refine .advance (ih.mono ?_)
    rintro _ _ _ - ⟨rfl, rfl⟩
    exact ⟨rfl, rfl⟩

/-- Some tokens are read that have been looked at. -/
theorem Meets.skip {f : Unit → Parse β} (front : List Token)
    (h : Meets depth (f ()) rest fun answer more left => last answer (front ++ more) left) :
    Meets depth (Parse.skip front.length >>= f) (front ++ rest) last := by
  refine .bind (meets_skip front) ?_
  rintro _ _ _ - ⟨rfl, rfl⟩
  exact h

theorem meets_next? : Meets depth next? tokens fun token? read _ => read = token?.toList := by
  refine .peek? ?_
  cases tokens with
  | nil => exact .pure rfl
  | cons token rest => exact .advance (.pure rfl)

theorem meets_expectIf {test : Token → Bool} {complaint : Complaint} (h : complaint.isFault = false) :
    Meets depth (expectIf test complaint) tokens fun token read _ =>
      read = [token] ∧ test token = true := by
  refine .peek? ?_
  cases tokens with
  | nil => exact .complain h
  | cons token rest =>
    dsimp only [List.head?_cons]
    split
    case isTrue htest => exact .advance (.pure ⟨rfl, htest⟩)
    case isFalse => exact .complain h

namespace Meets

/-- A token is read that satisfies a test. -/
theorem expectIf {f : Token → Parse β} {test : Token → Bool} {complaint : Complaint}
    (hfault : complaint.isFault = false) (h : ∀ token rest, test token = true →
      Meets depth (f token) rest fun answer more left => last answer (token :: more) left) :
    Meets depth (Parse.expectIf test complaint >>= f) tokens last := by
  refine .bind (meets_expectIf hfault) ?_
  rintro token _ rest - ⟨rfl, htest⟩
  exact h token rest htest

end Meets

theorem meets_expect {symbol : Symbol} : Meets depth (expect symbol) tokens fun _ read _ =>
    ∃ token, read = [token] ∧ token.isSymbol symbol = true :=
  .expectIf rfl fun token _ hsymbol => .pure ⟨token, rfl, hsymbol⟩

namespace Meets

theorem expect {f : Unit → Parse β} {symbol : Symbol} (h : ∀ token rest, token.isSymbol symbol = true →
      Meets depth (f ()) rest fun answer more left => last answer (token :: more) left) :
    Meets depth (Parse.expect symbol >>= f) tokens last := by
  refine .bind meets_expect ?_
  rintro _ _ rest - ⟨token, rfl, hsymbol⟩
  exact h token rest hsymbol

theorem expectWord {f : Unit → Parse β} {word : String} (h : ∀ token rest, token.isWord word = true →
      Meets depth (f ()) rest fun answer more left => last answer (token :: more) left) :
    Meets depth (Parse.expectWord word >>= f) tokens last := by
  have hread : Meets depth (Parse.expectWord word) tokens fun _ read _ =>
      ∃ token, read = [token] ∧ token.isWord word = true :=
    .expectIf rfl fun token rest hword => .pure ⟨token, rfl, hword⟩
  refine .bind hread ?_
  rintro _ _ rest - ⟨token, rfl, hword⟩
  exact h token rest hword

theorem expectIdent {f : Token → Parse β} (h : ∀ token rest, token.isIdent = true →
      Meets depth (f token) rest fun answer more left => last answer (token :: more) left) :
    Meets depth (Parse.expectIdent >>= f) tokens last :=
  .expectIf rfl h

end Meets

theorem meets_eatIf {test : Token → Bool} : Meets depth (eatIf test) tokens fun hit read left =>
    if hit then ∃ token, read = [token] ∧ test token = true else read = [] ∧ left = tokens := by
  refine .ifAhead ?_ (.pure ⟨rfl, rfl⟩)
  rintro token rest rfl htest
  exact .advance (.pure ⟨token, rfl, htest⟩)

/-- What is next is read if it satisfies a test. -/
theorem Meets.ifEat {yes no : Parse α} {test : Token → Bool}
    (hyes : ∀ token rest, tokens = token :: rest → test token = true →
      Meets depth yes rest fun value read left => post value (token :: read) left)
    (hno : Meets depth no tokens post) :
    Meets depth (eatIf test >>= fun hit => if hit = true then yes else no) tokens post := by
  refine .bind meets_eatIf ?_
  intro hit read rest htokens h
  cases hit with
  | true =>
    obtain ⟨token, rfl, htest⟩ := h
    exact hyes token rest htokens htest
  | false =>
    obtain ⟨rfl, rfl⟩ := h
    exact hno

/-! ### Looking further ahead -/

section Probe

variable {probe : Parse Bool} (found : List Token → List Token → Prop) {yes no : Parse α}

/-- Looking ahead always comes back. -/
theorem exists_foresee? {cursor : Cursor}
    (h : Meets cursor.depth probe cursor.rest fun _ _ _ => True) :
    ∃ place?, foresee? probe cursor = (.ok place?, cursor) := by
  have hcursor := h cursor rfl rfl
  unfold foresee?
  rcases hprobe : probe cursor with ⟨e | hit, stop⟩ <;> rw [hprobe] at hcursor
  · obtain ⟨⟨read, reads⟩, hfault⟩ := hcursor
    dsimp only
    rw [hfault, if_neg Bool.false_ne_true, reads.backTo.eq_of_nil]
    exact ⟨none, rfl⟩
  · obtain ⟨read, reads, -⟩ := hcursor
    dsimp only
    rw [reads.backTo.eq_of_nil]
    exact ⟨_, rfl⟩

/-- An attempt that fails has read nothing. -/
theorem exists_speculate {cursor : Cursor}
    (h : Meets cursor.depth probe cursor.rest fun _ _ _ => True) :
    ∃ hit after, speculate probe cursor = (.ok hit, after) ∧ (hit = false → after = cursor) := by
  obtain ⟨place?, hforesee⟩ := exists_foresee? h
  rw [speculate, Parse.jump, bind_apply, hforesee]
  cases place? with
  | none => exact ⟨false, cursor, rfl, fun _ => rfl⟩
  | some place => exact ⟨true, place, rfl, fun h => absurd h (by decide)⟩

/-- Behind what was found ahead, or from where it was looked for. -/
theorem Meets.jump (h : Meets depth probe tokens fun hit read left => hit = true → found read left)
    (hyes : ∀ read rest, tokens = read ++ rest → found read rest →
      Meets depth yes rest fun value more left => post value (read ++ more) left)
    (hno : Meets depth no tokens post) :
    Meets depth (Parse.jump (foresee? probe) yes no) tokens post := by
  intro cursor hdepth hrest
  have hcursor := h cursor hdepth hrest
  revert hcursor
  rw [Parse.jump, bind_apply]
  unfold foresee?
  -- However the probe ends, going back from there leads to the place it started from.
  rcases probe cursor with ⟨e | hit, stop⟩
  · rintro ⟨⟨read, reads⟩, hfault⟩
    dsimp only
    rw [hfault, if_neg Bool.false_ne_true]
    exact .after reads.backTo (hno (stop.backTo cursor) (reads.depth.trans hdepth) hrest)
  · rintro ⟨read, reads, hfound⟩
    cases hit with
    | false => exact .after reads.backTo (hno (stop.backTo cursor) (reads.depth.trans hdepth) hrest)
    | true =>
      exact .after reads (hyes read stop.rest (hrest ▸ reads.rest) (hfound rfl) stop
        (reads.depth.trans hdepth) rfl)

theorem meets_speculate
    (h : Meets depth probe tokens fun hit read left => hit = true → found read left) :
    Meets depth (speculate probe) tokens fun hit read left =>
      if hit then found read left else read = [] ∧ left = tokens := by
  refine .jump found h ?_ (.pure ⟨rfl, rfl⟩)
  intro read rest _ hfound
  exact .pure (by simpa using hfound)

/-- What `probe` finds is read, if it succeeds with `true`. -/
theorem Meets.ifSpeculate
    (h : Meets depth probe tokens fun hit read left => hit = true → found read left)
    (hyes : ∀ read rest, tokens = read ++ rest → found read rest →
      Meets depth yes rest fun value more left => post value (read ++ more) left)
    (hno : Meets depth no tokens post) :
    Meets depth (speculate probe >>= fun hit => if hit = true then yes else no) tokens post := by
  refine .bind (meets_speculate found h) ?_
  intro hit read rest htokens hfound
  cases hit with
  | true => exact hyes read rest htokens hfound
  | false =>
    obtain ⟨rfl, rfl⟩ := hfound
    exact hno

end Probe

/-! ### Nesting -/

/-- One construct deeper, `p` only has to do what it should as long as that is not too deep. -/
theorem meets_nested
    (h : depth < maxDepth → Meets (depth + 1) p tokens fun value read left => post value read left) :
    Meets depth (nested p) tokens post := by
  intro cursor hdepth hrest
  by_cases hdeep : cursor.depth < maxDepth
  case neg =>
    -- A complaint about the depth is about the tokens, and nothing was read.
    rw [nested, dif_neg hdeep]
    exact ⟨⟨[], .refl cursor⟩, rfl⟩
  case pos =>
    rw [nested, dif_pos hdeep]
    have hcursor := h (hdepth ▸ hdeep) (cursor.enter hdeep) (by simp [Cursor.enter, hdepth]) hrest
    revert hcursor
    rcases p (cursor.enter hdeep) with ⟨e | value, stop⟩
    · rintro ⟨⟨read, reads⟩, hfault⟩
      exact ⟨⟨read, reads.leave⟩, hfault⟩
    · rintro ⟨read, reads, hpost⟩
      exact ⟨read, reads.leave, hpost⟩

/-! ### Loops -/

/-- What a round does to a property of all items, the tokens they were read from and those left. -/
def Round.Adds (all : List α → List Token → List Token → Prop) (read left : List Token) :
    Round α → Prop
  | .done => all [] read left
  | .last item => all [item] read left
  | .more item =>
    read ≠ [] ∧ ∀ items more rest, all items more rest → all (item :: items) (read ++ more) rest

section Loop

variable {all : List α → List Token → List Token → Prop} {round : Parse (Round α)}

theorem meets_collectWithin
    (h : ∀ tokens, Meets depth round tokens fun found read left => found.Adds all read left)
    (rounds : Nat) : ∀ tokens, tokens.length < rounds →
      Meets depth (collectWithin round rounds) tokens all := by
  -- Induction on the rounds left, which stay more than the tokens left.
  induction rounds with
  | zero => exact fun _ hlength => absurd hlength (Nat.not_lt_zero _)
  | succ rounds ih =>
    intro tokens hlength
    refine .bind (h tokens) ?_
    rintro found read rest rfl hadds
    cases found with
    | done => exact .pure ((List.append_nil read).symm ▸ hadds)
    | last item => exact .pure ((List.append_nil read).symm ▸ hadds)
    | more item =>
      obtain ⟨hread, hall⟩ := hadds
      have hpositive := List.length_pos_iff.mpr hread
      rw [List.length_append] at hlength
      exact .map ((ih rest (by omega)).mono fun items more left _ => hall items more left)

/-- Only a round that read something asks for another one, so there are rounds enough. -/
theorem meets_collect
    (h : ∀ tokens, Meets depth round tokens fun found read left => found.Adds all read left) :
    Meets depth (collect round) tokens all :=
  .get fun cursor hrest => meets_collectWithin h _ tokens (by rw [hrest]; exact Nat.lt_succ_self _)

variable {value : α} {front : List Token} {step : α → Parse (Option α)}
  (grown final : α → List Token → List Token → Prop)

theorem meets_growWithin (h : ∀ value front tokens, grown value front tokens →
      Meets depth (step value) tokens fun larger? read left =>
        larger?.elim (final value (front ++ read) left)
          fun larger => read ≠ [] ∧ grown larger (front ++ read) left) (steps : Nat) :
    ∀ value front tokens, tokens.length < steps → grown value front tokens →
      Meets depth (growWithin step steps value) tokens fun result read left =>
        final result (front ++ read) left := by
  -- By the steps that are left. There are more of them than tokens, and each one takes a token at least.
  induction steps with
  | zero => exact fun _ _ _ hlength => absurd hlength (Nat.not_lt_zero _)
  | succ steps ih =>
    intro value front tokens hlength hvalue
    refine .bind (h value front tokens hvalue) ?_
    rintro larger? read rest rfl hstep
    cases larger? with
    | none => exact .pure (by simpa using hstep)
    | some larger =>
      obtain ⟨hread, hlarger⟩ := hstep
      have hpositive := List.length_pos_iff.mpr hread
      rw [List.length_append] at hlength
      refine (ih larger (front ++ read) rest (by omega) hlarger).mono ?_
      rintro result more left rfl hfinal
      exact List.append_assoc .. ▸ hfinal

/-- Only a step that read something is followed by another one, so there are steps enough. -/
theorem meets_grow (h : ∀ value front tokens, grown value front tokens →
      Meets depth (step value) tokens fun larger? read left =>
        larger?.elim (final value (front ++ read) left)
          fun larger => read ≠ [] ∧ grown larger (front ++ read) left)
    (hvalue : grown value front tokens) :
    Meets depth (grow step value) tokens fun result read left => final result (front ++ read) left :=
  .get fun cursor hrest =>
    meets_growWithin grown final h _ value front tokens (by rw [hrest]; exact Nat.lt_succ_self _) hvalue

end Loop

end Parse

end Exemplar.Code
