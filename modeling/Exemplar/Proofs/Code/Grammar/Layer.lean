import Exemplar.Proofs.Code.Parser

/-!
# Climbing and the levels of operators

The usual grammar of binary operators has a production for each level: operands of the next level, with
operators of just this level between them. Climbing reads the same trees in one loop, which takes any operator
of at least the wanted level and leaves to the right operand what binds tighter.

The two part behind a type test. A test ends with a type and not with a right operand, so nothing has taken the
tighter operators behind it. The loop goes on with them; a production of the comparison level does not
see them and stops. In the grammar that climbing follows, `joined`, a test is an operand again for what binds
tighter. The usual one, `layered`, reads the same unless it stops in front of an operator that it ought to
have taken.
-/

namespace Exemplar.Code

open Parse

/-- A wanted operator is next. -/
def Cursor.IsBefore (cursor : Cursor) (wanted : Grammar.Operator → Bool) : Prop :=
  ∃ op, Grammar.binaryOperator? cursor.rest = some op ∧ wanted op = true

namespace Cursor.IsBefore

variable {cursor : Cursor} {wanted other : Grammar.Operator → Bool} {op : Grammar.Operator}

/-- There is just one operator that can be next. -/
theorem iff_of_next (hop : Grammar.binaryOperator? cursor.rest = some op) :
    cursor.IsBefore wanted ↔ wanted op = true := by
  constructor
  · rintro ⟨other, hother, hwanted⟩
    obtain rfl := Option.some.inj (hop.symm.trans hother)
    exact hwanted
  · exact fun hwanted => ⟨op, hop, hwanted⟩

theorem mono (h : cursor.IsBefore wanted) (himp : ∀ op, wanted op = true → other op = true) :
    cursor.IsBefore other :=
  h.imp fun op hnext => hnext.imp_right (himp op)

end Cursor.IsBefore

namespace Grammar

variable {sub : Nested} {depth line gap layers level : Nat} {lhs larger node : Node} {op : Operator}
  {cursor after : Cursor} {tokens : List Token} {wanted : Operator → Bool}
  {extend : Node → Operator → Parse Node} {rhs : Nat → Parse Node}

theorem line_bind_apply {α : Type} (f : Nat → Parse α) (cursor : Cursor) :
    (Parse.line >>= f) cursor = f cursor.line cursor :=
  rfl

theorem get_bind_apply {α : Type} (f : Cursor → Parse α) (cursor : Cursor) :
    ((MonadState.get : Parse Cursor) >>= f) cursor = f cursor cursor :=
  rfl

/-! ### Growing by operators -/

/-- Extends a left operand by the operator in front if that is a wanted one. -/
def extendBy (wanted : Operator → Bool) (extend : Node → Operator → Parse Node) (lhs : Node) :
    Parse (Option Node) := do
  match binaryOperator? (← get).rest with
  | none => return none
  | some op => if wanted op then return some (← extend lhs op) else return none

/-- Lets a left operand grow as long as wanted operators follow. -/
def growBy (wanted : Operator → Bool) (extend : Node → Operator → Parse Node) (lhs : Node) : Parse Node :=
  grow (extendBy wanted extend) lhs

theorem extendBy_of_not (h : ¬ cursor.IsBefore wanted) :
    extendBy wanted extend lhs cursor = (.ok none, cursor) := by
  rw [extendBy, get_bind_apply]
  cases hop : binaryOperator? cursor.rest with
  | none => rfl
  | some op =>
    dsimp only
    rw [if_neg (mt (Cursor.IsBefore.iff_of_next hop).mpr h)]
    rfl

theorem extendBy_of_next (hop : binaryOperator? cursor.rest = some op) (hwanted : wanted op = true) :
    extendBy wanted extend lhs cursor = (extend lhs op >>= fun larger => pure (some larger)) cursor := by
  rw [extendBy, get_bind_apply, hop]
  dsimp only
  rw [if_pos hwanted]

/-- Whatever operator is next, to extend an operand by it takes a token at least. -/
def ReadsOn (depth : Nat) (extend : Node → Operator → Parse Node) : Prop :=
  ∀ lhs op tokens, binaryOperator? tokens = some op →
    Meets depth (extend lhs op) tokens fun _ read _ => read ≠ []

theorem ReadsOn.of_eq_ok (h : ReadsOn depth extend) (hdepth : cursor.depth = depth)
    (hop : binaryOperator? cursor.rest = some op) (hextend : extend lhs op cursor = (.ok larger, after)) :
    after.depth = depth ∧ after.rest.length < cursor.rest.length := by
  have hends := h lhs op cursor.rest hop cursor hdepth rfl
  rw [hextend] at hends
  obtain ⟨read, reads, hread⟩ := hends
  have hpositive := List.length_pos_iff.mpr hread
  refine ⟨reads.depth.trans hdepth, ?_⟩
  rw [reads.rest, List.length_append]
  omega

/-- What holds where no wanted operator is next, and in front of one if it holds behind the operator and its
operand, holds everywhere. -/
theorem ReadsOn.induct (h : ReadsOn depth extend) (wanted : Operator → Bool)
    {motive : (lhs : Node) → (cursor : Cursor) → cursor.depth = depth → Prop}
    (stop : ∀ lhs cursor hdepth, ¬ cursor.IsBefore wanted → motive lhs cursor hdepth)
    (step : ∀ lhs cursor hdepth op, binaryOperator? cursor.rest = some op → wanted op = true →
      (∀ larger after, extend lhs op cursor = (.ok larger, after) →
        ∀ hafter, motive larger after hafter) → motive lhs cursor hdepth)
    (lhs : Node) (cursor : Cursor) (hdepth : cursor.depth = depth) : motive lhs cursor hdepth := by
  -- Induction on the number of tokens left.
  generalize hlength : cursor.rest.length = length
  induction length using Nat.strongRecOn generalizing lhs cursor with
  | ind length ih =>
    by_cases hnext : cursor.IsBefore wanted
    · obtain ⟨op, hop, hwanted⟩ := hnext
      apply step lhs cursor hdepth op hop hwanted
      intro larger after hextend hafter
      obtain ⟨-, hless⟩ := h.of_eq_ok hdepth hop hextend
      exact ih _ (hlength ▸ hless) larger after hafter rfl
    · exact stop lhs cursor hdepth hnext

/-- There are always steps enough, so their number does not matter. -/
theorem ReadsOn.growWithin_eq (h : ReadsOn depth extend) (lhs : Node) (cursor : Cursor)
    (hdepth : cursor.depth = depth) : ∀ steps, cursor.rest.length < steps →
      growWithin (extendBy wanted extend) steps lhs cursor = growBy wanted extend lhs cursor := by
  have enough : ∀ steps others, cursor.rest.length < steps → cursor.rest.length < others →
      growWithin (extendBy wanted extend) steps lhs cursor =
        growWithin (extendBy wanted extend) others lhs cursor := by
    -- Each operator takes a token at least, so neither number of steps is used up.
    induction lhs, cursor, hdepth using h.induct wanted with
    | stop lhs cursor hdepth hnext =>
      intro steps others hsteps hothers
      obtain ⟨steps, rfl⟩ := Nat.exists_eq_add_one_of_ne_zero (Nat.ne_zero_of_lt hsteps)
      obtain ⟨others, rfl⟩ := Nat.exists_eq_add_one_of_ne_zero (Nat.ne_zero_of_lt hothers)
      simp only [growWithin, bind_apply, extendBy_of_not hnext]
    | step lhs cursor hdepth op hop hwanted ih =>
      intro steps others hsteps hothers
      obtain ⟨steps, rfl⟩ := Nat.exists_eq_add_one_of_ne_zero (Nat.ne_zero_of_lt hsteps)
      obtain ⟨others, rfl⟩ := Nat.exists_eq_add_one_of_ne_zero (Nat.ne_zero_of_lt hothers)
      simp only [growWithin, bind_apply, extendBy_of_next hop hwanted]
      rcases hextend : extend lhs op cursor with ⟨e | larger, after⟩
      · rfl
      · obtain ⟨hafter, hless⟩ := h.of_eq_ok hdepth hop hextend
        exact ih larger after hextend hafter steps others (by omega) (by omega)
  exact fun steps hsteps => enough steps _ hsteps (Nat.lt_succ_self _)

theorem growBy_of_not (h : ¬ cursor.IsBefore wanted) :
    growBy wanted extend lhs cursor = (.ok lhs, cursor) := by
  have hgrow : growBy wanted extend lhs cursor =
      growWithin (extendBy wanted extend) (cursor.rest.length + 1) lhs cursor := rfl
  rw [hgrow, growWithin, bind_apply, extendBy_of_not h]
  rfl

theorem ReadsOn.growBy_of_next (h : ReadsOn depth extend) (hdepth : cursor.depth = depth)
    (hop : binaryOperator? cursor.rest = some op) (hwanted : wanted op = true) :
    growBy wanted extend lhs cursor = (extend lhs op >>= growBy wanted extend) cursor := by
  have hgrow : growBy wanted extend lhs cursor =
      growWithin (extendBy wanted extend) (cursor.rest.length + 1) lhs cursor := rfl
  rw [hgrow, growWithin, bind_apply, bind_apply, extendBy_of_next hop hwanted, bind_apply]
  rcases hextend : extend lhs op cursor with ⟨e | larger, after⟩
  · rfl
  · obtain ⟨hafter, hless⟩ := h.of_eq_ok hdepth hop hextend
    exact h.growWithin_eq larger after hafter _ hless

/-- It does not stop in front of a wanted operator. -/
theorem ReadsOn.not_isBefore (h : ReadsOn depth extend) (hdepth : cursor.depth = depth)
    (hgrow : growBy wanted extend lhs cursor = (.ok node, after)) : ¬ after.IsBefore wanted := by
  induction lhs, cursor, hdepth using h.induct wanted with
  | stop lhs cursor hdepth hnext =>
    rw [growBy_of_not hnext] at hgrow
    cases hgrow
    exact hnext
  | step lhs cursor hdepth op hop hwanted ih =>
    rw [h.growBy_of_next hdepth hop hwanted, bind_apply] at hgrow
    rcases hextend : extend lhs op cursor with ⟨e | larger, place⟩ <;> rw [hextend] at hgrow
    · cases hgrow
    · exact ih larger place hextend (h.of_eq_ok hdepth hop hextend).1 hgrow

theorem ReadsOn.meets_growBy (h : ReadsOn depth extend) (wanted : Operator → Bool) (lhs : Node)
    (tokens : List Token) : Meets depth (growBy wanted extend lhs) tokens fun _ _ _ => True := by
  have hstep : ∀ value (front tokens : List Token), True → Meets depth (extendBy wanted extend value) tokens
      fun larger? read _ => larger?.elim True fun _ => read ≠ [] ∧ True := by
    intro value front tokens _
    refine .get fun cursor hrest => ?_
    split
    case h_1 => exact .pure trivial
    case h_2 op hop =>
      split
      case isTrue => exact .map ((h value op tokens (hrest ▸ hop)).mono fun _ _ _ _ hread => ⟨hread, trivial⟩)
      case isFalse => exact .pure trivial
  exact @meets_grow _ depth tokens lhs [] _ (fun _ _ _ => True) (fun _ _ _ => True) hstep trivial

/-! ### The two grammars -/

/-- Extends a left operand by an operator with a right operand that `next` reads. What a type test makes is
handed on to `tested`. -/
def applyTested (sub : Nested) (line : Nat) (next : Parse Node) (tested : Node → Parse Node) (lhs : Node)
    (op : Operator) : Parse Node := do
  let larger ← applyOperator sub line (fun _ => next) lhs op
  if op.kind == .instanceOfExpression then tested larger else return larger

/-- The usual grammar with so many levels of operators: each level has operands of the next one, with operators
of just this level between them. -/
def layered (sub : Nested) : (layers : Nat) → Parse Node
  | 0 => operand sub
  | layers + 1 => do
    let line ← Parse.line
    let lhs ← layered sub layers
    growBy (·.level == operandLevel - (layers + 1)) (applyOperator sub line fun _ => layered sub layers) lhs

mutual

/-- The grammar in which a type test is an operand again for the tighter operators behind it. -/
def joined (sub : Nested) : (layers : Nat) → Parse Node
  | 0 => operand sub
  | layers + 1 => do
    let line ← Parse.line
    let lhs ← joined sub layers
    growBy (·.level == operandLevel - (layers + 1))
      (applyTested sub line (joined sub layers) (follow sub layers line)) lhs

/-- The operators behind an operand that starts on `line`, the tightest ones first. -/
def follow (sub : Nested) : (layers line : Nat) → Node → Parse Node
  | 0, _, lhs => return lhs
  | layers + 1, line, lhs => do
    let lhs ← follow sub layers line lhs
    growBy (·.level == operandLevel - (layers + 1))
      (applyTested sub line (joined sub layers) (follow sub layers line)) lhs

end

/-! ### Single operators -/

theorem level_lt (h : binaryOperator? tokens = some op) : op.level < operandLevel := by
  cases tokens with
  | nil => cases h
  | cons token rest =>
    rw [binaryOperator?] at h
    split at h
    · cases h
      decide
    · split at h
      case h_14 =>
        split at h <;> cases h
        · decide
        · exact (by decide : 8 < operandLevel)
      case h_21 => cases h
      all_goals
        cases h
        decide

theorem not_isBefore_operandLevel : ¬ cursor.IsBefore (operandLevel ≤ ·.level) := by
  rintro ⟨op, hop, hlevel⟩
  have hless := level_lt hop
  have hlevel := of_decide_eq_true hlevel
  omega

/-- A type test has no right operand. -/
theorem applyOperator_of_test (h : (op.kind == .instanceOfExpression) = true) (other : Nat → Parse Node) :
    applyOperator sub line rhs lhs op = applyOperator sub line other lhs op := by
  simp only [applyOperator, h, if_true]

theorem applyOperator_of_not_test (h : ¬ (op.kind == .instanceOfExpression) = true) :
    applyOperator sub line rhs lhs op =
      (skip op.width >>= fun _ => rhs (op.level + 1) >>= fun right => pure ⟨op.kind, line, [lhs, right]⟩) := by
  simp only [applyOperator, h]
  rfl

theorem applyTested_of_test {next : Parse Node} {tested : Node → Parse Node}
    (h : (op.kind == .instanceOfExpression) = true) (rhs : Nat → Parse Node) :
    applyTested sub line next tested lhs op = (applyOperator sub line rhs lhs op >>= tested) := by
  simp only [applyTested, h, if_true, applyOperator_of_test h rhs]

theorem applyTested_of_not_test {next : Parse Node} {tested : Node → Parse Node}
    (h : ¬ (op.kind == .instanceOfExpression) = true) :
    applyTested sub line next tested lhs op = applyOperator sub line (fun _ => next) lhs op := by
  simp [applyTested, h]

theorem depth_skip (count : Nat) (cursor : Cursor) : (skip count cursor).2.depth = cursor.depth := by
  induction count generalizing cursor with
  | zero => rfl
  | succ count ih =>
    rw [skip, bind_apply, advance]
    cases hrest : cursor.rest with
    | nil => rfl
    | cons token rest => exact ih _

theorem depth_of_skip {count : Nat} (h : skip count cursor = (.ok (), after)) : after.depth = cursor.depth := by
  have hdepth := depth_skip count cursor
  rwa [h] at hdepth

/-- A right operand that is read alike is joined alike. -/
theorem applyOperator_eq_applyTested {next : Parse Node} {tested : Node → Parse Node}
    (htest : ¬ (op.kind == .instanceOfExpression) = true)
    (h : ∀ place, skip op.width cursor = (.ok (), place) → rhs (op.level + 1) place = next place) :
    applyOperator sub line rhs lhs op cursor = applyTested sub line next tested lhs op cursor := by
  rw [applyTested_of_not_test htest, applyOperator_of_not_test htest, applyOperator_of_not_test htest,
    bind_apply, bind_apply]
  rcases hskip : skip op.width cursor with ⟨e | _, place⟩
  · rfl
  · dsimp only
    rw [bind_apply, bind_apply, h place hskip]

/-- An operator that is no type test ends where its right operand does. -/
theorem exists_right_of_applyOperator (htest : ¬ (op.kind == .instanceOfExpression) = true)
    (h : applyOperator sub line rhs lhs op cursor = (.ok larger, after)) :
    ∃ place : Cursor, place.depth = cursor.depth ∧ ∃ right, rhs (op.level + 1) place = (.ok right, after) := by
  rw [applyOperator_of_not_test htest, bind_apply] at h
  rcases hskip : skip op.width cursor with ⟨e | _, place⟩ <;> rw [hskip] at h
  · cases h
  · dsimp only at h
    rw [bind_apply] at h
    rcases hright : rhs (op.level + 1) place with ⟨e | right, stop⟩ <;> rw [hright] at h <;> cases h
    exact ⟨place, depth_of_skip hskip, right, hright⟩

theorem readsOn_applyOperator (sound : sub.Sound depth)
    (hrhs : ∀ level tokens, Meets depth (rhs level) tokens fun _ _ _ => True) :
    ReadsOn depth (applyOperator sub line rhs) := by
  intro lhs op tokens hop
  obtain ⟨marks, rest, rfl, hlength, hne, -⟩ := exists_of_binaryOperator? hop
  rw [applyOperator, ← hlength]
  refine .bind (meets_skip marks) ?_
  rintro _ marks rest - ⟨rfl, rfl⟩
  split
  case isTrue => exact .map ((sound.typeRef _).mono fun _ _ _ _ _ => by simp [hne])
  case isFalse => exact .map ((hrhs _ _).mono fun _ _ _ _ _ => by simp [hne])

theorem readsOn_applyTested (sound : sub.Sound depth) {next : Parse Node} {tested : Node → Parse Node}
    (hnext : ∀ tokens, Meets depth next tokens fun _ _ _ => True)
    (htested : ∀ node tokens, Meets depth (tested node) tokens fun _ _ _ => True) :
    ReadsOn depth (applyTested sub line next tested) := by
  intro lhs op tokens hop
  refine .bind (readsOn_applyOperator sound (fun _ => hnext) lhs op tokens hop) ?_
  intro larger read rest _ hread
  have hmore (more : List Token) : read ++ more ≠ [] := List.append_ne_nil_of_left_ne_nil hread _
  split
  case isTrue => exact (htested larger rest).mono fun _ more _ _ _ => hmore more
  case isFalse => exact .pure (hmore [])

/-! ### Climbing -/

theorem extendBinary_eq : extendBinary sub line level rhs =
    extendBy (level ≤ ·.level) (applyOperator sub line rhs) := by
  funext lhs cursor
  rw [extendBinary, get_bind_apply]
  by_cases hnext : cursor.IsBefore (level ≤ ·.level)
  · obtain ⟨op, hop, hlevel⟩ := hnext
    rw [extendBy_of_next hop hlevel, hop]
    dsimp only
    rw [if_neg (Nat.not_lt.mpr (of_decide_eq_true hlevel))]
  · rw [extendBy_of_not hnext]
    cases hop : binaryOperator? cursor.rest with
    | none => rfl
    | some op =>
      have hlevel : ¬ level ≤ op.level := fun hlevel => hnext ⟨op, hop, decide_eq_true hlevel⟩
      dsimp only
      rw [if_pos (Nat.lt_of_not_le hlevel)]
      rfl

theorem climb_apply : climb sub (operand sub) (gap + 1) level cursor =
    (operand sub >>= growBy (level ≤ ·.level)
      (applyOperator sub cursor.line (climb sub (operand sub) gap))) cursor := by
  rw [climb, line_bind_apply, extendBinary_eq]
  rfl

section

variable (sound : sub.Sound depth)
include sound

theorem meets_climb_operand (gap level : Nat) (tokens : List Token) :
    Meets depth (climb sub (operand sub) gap level) tokens fun _ _ _ => True :=
  (meets_climb sound (fun _ => meets_operand sound) gap level tokens).mono fun _ _ _ _ _ => trivial

theorem depth_of_operand (hdepth : cursor.depth = depth) (h : operand sub cursor = (.ok lhs, after)) :
    after.depth = depth := by
  have hends := meets_operand sound cursor hdepth rfl
  rw [h] at hends
  obtain ⟨read, reads, -⟩ := hends
  exact reads.depth.trans hdepth

theorem readsOn_climb : ReadsOn depth (applyOperator sub line (climb sub (operand sub) gap)) :=
  readsOn_applyOperator sound (meets_climb_operand sound gap)

/-- What is read at a level does not stop in front of an operator of that level or a tighter one. -/
theorem not_isBefore_of_climb (hgap : operandLevel ≤ gap + level) (hdepth : cursor.depth = depth)
    (h : climb sub (operand sub) gap level cursor = (.ok node, after)) :
    ¬ after.IsBefore (level ≤ ·.level) := by
  cases gap with
  | zero =>
    -- No operator has such a level.
    rintro ⟨op, hop, hlevel⟩
    refine not_isBefore_operandLevel ⟨op, hop, decide_eq_true ?_⟩
    have hlevel := of_decide_eq_true hlevel
    omega
  | succ gap =>
    rw [climb_apply, bind_apply] at h
    rcases hlhs : operand sub cursor with ⟨e | lhs, middle⟩ <;> rw [hlhs] at h
    · cases h
    · exact (readsOn_climb sound).not_isBefore (depth_of_operand sound hdepth hlhs) h

theorem meets_joined_follow (layers : Nat) :
    (∀ tokens, Meets depth (joined sub layers) tokens fun _ _ _ => True) ∧
      ∀ line lhs tokens, Meets depth (follow sub layers line lhs) tokens fun _ _ _ => True := by
  induction layers with
  | zero =>
    constructor
    · exact fun tokens => (meets_operand sound).mono fun _ _ _ _ _ => trivial
    · exact fun _ _ _ => .pure trivial
  | succ layers ih =>
    obtain ⟨hjoined, hfollow⟩ := ih
    have reads (line : Nat) :
        ReadsOn depth (applyTested sub line (joined sub layers) (follow sub layers line)) :=
      readsOn_applyTested sound hjoined (hfollow line)
    constructor
    · intro tokens
      refine .line fun line _ => .bind (hjoined tokens) fun lhs _ rest _ _ => ?_
      exact (reads line).meets_growBy _ lhs rest
    · intro line lhs tokens
      refine .bind (hfollow line lhs tokens) fun lhs _ rest _ _ => ?_
      exact (reads line).meets_growBy _ lhs rest

end

theorem joined_apply : joined sub layers cursor = (operand sub >>= follow sub layers cursor.line) cursor := by
  induction layers with
  | zero =>
    rw [joined, bind_apply]
    rcases operand sub cursor with ⟨e | lhs, after⟩ <;> rfl
  | succ layers ih =>
    rw [joined, line_bind_apply, bind_apply, bind_apply, ih, bind_apply]
    rcases operand sub cursor with ⟨e | lhs, after⟩
    · rfl
    · dsimp only
      rw [follow, bind_apply]

/-- One level further out. `next` reads what a right operand at the next level is read as, and `tail` takes what
binds tighter. -/
theorem growBy_atLeast {next : Parse Node} {tail : Node → Parse Node}
    (reads : ReadsOn depth (applyOperator sub line rhs))
    (readsTested : ReadsOn depth (applyTested sub line next tail))
    (hnext : ∀ cursor : Cursor, cursor.depth = depth → rhs (level + 1) cursor = next cursor)
    (hends : ∀ cursor : Cursor, cursor.depth = depth → ∀ node after,
      rhs (level + 1) cursor = (.ok node, after) → ¬ after.IsBefore (level + 1 ≤ ·.level))
    (htail : ∀ lhs (cursor : Cursor), cursor.depth = depth →
      growBy (level + 1 ≤ ·.level) (applyOperator sub line rhs) lhs cursor = tail lhs cursor)
    (lhs : Node) (cursor : Cursor) (hdepth : cursor.depth = depth) :
    growBy (level ≤ ·.level) (applyOperator sub line rhs) lhs cursor =
      (tail lhs >>= growBy (·.level == level) (applyTested sub line next tail)) cursor := by
  induction lhs, cursor, hdepth using reads.induct (level ≤ ·.level) with
  | stop lhs cursor hdepth hnone =>
    -- Nothing is taken by any of the loops.
    have htighter : ¬ cursor.IsBefore (level + 1 ≤ ·.level) := fun hnext =>
      hnone (hnext.mono fun op hlevel => decide_eq_true (Nat.le_of_succ_le (of_decide_eq_true hlevel)))
    have hlevel : ¬ cursor.IsBefore (·.level == level) := fun hnext =>
      hnone (hnext.mono fun op hlevel => decide_eq_true (Nat.le_of_eq (eq_of_beq hlevel).symm))
    rw [growBy_of_not hnone, bind_apply, ← htail lhs cursor hdepth, growBy_of_not htighter]
    dsimp only
    rw [growBy_of_not hlevel]
  | step lhs cursor hdepth op hop hwanted ih =>
    have hlevel : level ≤ op.level := of_decide_eq_true hwanted
    rw [reads.growBy_of_next hdepth hop hwanted, bind_apply]
    by_cases htighter : level + 1 ≤ op.level
    case pos =>
      -- The tail takes the operator, too.
      rw [bind_apply, ← htail lhs cursor hdepth,
        reads.growBy_of_next hdepth hop (decide_eq_true htighter), bind_apply]
      rcases happly : applyOperator sub line rhs lhs op cursor with ⟨e | larger, after⟩
      · rfl
      · have hafter := (reads.of_eq_ok hdepth hop happly).1
        dsimp only
        rw [ih larger after happly hafter, bind_apply, htail larger after hafter]
    case neg =>
      have hbeq : (op.level == level) = true := beq_iff_eq.mpr (by omega)
      -- The tail leaves the operator to its own level.
      have hnone : ¬ cursor.IsBefore (level + 1 ≤ ·.level) := fun hnext =>
        htighter (of_decide_eq_true ((Cursor.IsBefore.iff_of_next hop).mp hnext))
      rw [bind_apply, ← htail lhs cursor hdepth, growBy_of_not hnone]
      dsimp only
      rw [readsTested.growBy_of_next hdepth hop hbeq, bind_apply]
      by_cases htest : (op.kind == .instanceOfExpression) = true
      case pos =>
        -- Behind a type test the loop and the tail go on alike.
        rw [applyTested_of_test htest rhs, bind_apply]
        rcases happly : applyOperator sub line rhs lhs op cursor with ⟨e | larger, after⟩
        · rfl
        · dsimp only
          rw [ih larger after happly (reads.of_eq_ok hdepth hop happly).1, bind_apply]
      case neg =>
        -- A right operand has taken what is tighter, and the tail finds nothing.
        have hlast : op.level + 1 = level + 1 := by omega
        have hright : applyOperator sub line rhs lhs op cursor =
            applyTested sub line next tail lhs op cursor := by
          apply applyOperator_eq_applyTested htest
          intro place hskip
          rw [hlast]
          exact hnext place ((depth_of_skip hskip).trans hdepth)
        rw [← hright]
        rcases happly : applyOperator sub line rhs lhs op cursor with ⟨e | larger, after⟩
        · rfl
        · have hafter := (reads.of_eq_ok hdepth hop happly).1
          obtain ⟨place, hplace, right, hstop⟩ := exists_right_of_applyOperator htest happly
          rw [hlast] at hstop
          have hdone := hends place (hplace.trans hdepth) right after hstop
          dsimp only
          rw [ih larger after happly hafter, bind_apply, ← htail larger after hafter, growBy_of_not hdone]

section

variable (sound : sub.Sound depth)
include sound

/-- An operand and the loop behind it read what the grammar says if the loop takes what follows. -/
theorem climb_eq_joined_of (hloop : ∀ gap, layers ≤ gap + 1 → ∀ line lhs, ∀ cursor : Cursor,
      cursor.depth = depth → growBy (operandLevel - layers ≤ ·.level)
        (applyOperator sub line (climb sub (operand sub) gap)) lhs cursor =
          follow sub layers line lhs cursor)
    (hgap : layers ≤ gap) (hdepth : cursor.depth = depth) :
    climb sub (operand sub) gap (operandLevel - layers) cursor = joined sub layers cursor := by
  cases gap with
  | zero =>
    obtain rfl : layers = 0 := by omega
    rfl
  | succ gap =>
    rw [climb_apply, joined_apply, bind_apply, bind_apply]
    rcases hlhs : operand sub cursor with ⟨e | lhs, after⟩
    · rfl
    · exact hloop gap hgap _ lhs after (depth_of_operand sound hdepth hlhs)

/-- The loops of climbing take what follows an operand. -/
theorem growBy_climb_eq_follow (hlayers : layers ≤ operandLevel) : ∀ gap, layers ≤ gap + 1 → ∀ line lhs,
    ∀ cursor : Cursor, cursor.depth = depth → growBy (operandLevel - layers ≤ ·.level)
        (applyOperator sub line (climb sub (operand sub) gap)) lhs cursor =
      follow sub layers line lhs cursor := by
  -- Induction on the levels that bind tighter, from the operands outwards.
  induction layers with
  | zero => exact fun _ _ _ _ _ _ => growBy_of_not not_isBefore_operandLevel
  | succ layers ih =>
    intro gap hgap line lhs cursor hdepth
    have hloop := ih (by omega)
    obtain ⟨hjoined, hfollow⟩ := meets_joined_follow sound layers
    have hlevel : operandLevel - (layers + 1) + 1 = operandLevel - layers := by omega
    rw [follow]
    apply growBy_atLeast (readsOn_climb sound) (readsOn_applyTested sound hjoined (hfollow line))
    · intro cursor hdepth
      rw [hlevel]
      exact climb_eq_joined_of sound hloop (by omega) hdepth
    · intro cursor hdepth node after h
      exact not_isBefore_of_climb sound (by omega) hdepth h
    · intro lhs cursor hdepth
      rw [hlevel]
      exact hloop gap (by omega) line lhs cursor hdepth
    · exact hdepth

/-- Climbing reads what the grammar says in which a type test is an operand again. -/
theorem climb_eq_joined (hlayers : layers ≤ operandLevel) (hgap : layers ≤ gap)
    (hdepth : cursor.depth = depth) :
    climb sub (operand sub) gap (operandLevel - layers) cursor = joined sub layers cursor :=
  climb_eq_joined_of sound (growBy_climb_eq_follow sound hlayers) hgap hdepth

theorem follow_of_not (hlayers : layers ≤ operandLevel) (hdepth : cursor.depth = depth)
    (h : ¬ cursor.IsBefore (operandLevel - layers ≤ ·.level)) :
    follow sub layers line lhs cursor = (.ok lhs, cursor) := by
  rw [← growBy_climb_eq_follow sound hlayers operandLevel (by omega) line lhs cursor hdepth]
  exact growBy_of_not h

/-! ### The usual grammar -/

theorem meets_layered (layers : Nat) (tokens : List Token) :
    Meets depth (layered sub layers) tokens fun _ _ _ => True := by
  induction layers generalizing tokens with
  | zero => exact (meets_operand sound).mono fun _ _ _ _ _ => trivial
  | succ layers ih =>
    refine .line fun line _ => .bind (ih tokens) fun lhs _ rest _ _ => ?_
    exact (readsOn_applyOperator sound fun _ => ih).meets_growBy _ lhs rest

end

/-- A run that succeeded and stopped in front of an operator of at least a level. -/
def StopsShort (level : Nat) (result : Except SyntaxError Node × Cursor) : Prop :=
  (∃ node, result.1 = .ok node) ∧ result.2.IsBefore (level ≤ ·.level)

/-- In front of a tighter operator a loop over one level would stop, and short of it. -/
theorem not_isBefore_of_not_stopsShort (h : ¬ StopsShort level (growBy (·.level == level) extend lhs cursor)) :
    ¬ cursor.IsBefore (level + 1 ≤ ·.level) := by
  rintro ⟨op, hop, hlevel⟩
  have hlevel := of_decide_eq_true hlevel
  have hnone : ¬ cursor.IsBefore (·.level == level) := fun hnext => by
    have hequal : (op.level == level) = true := (Cursor.IsBefore.iff_of_next hop).mp hnext
    have hequal := eq_of_beq hequal
    omega
  rw [growBy_of_not hnone] at h
  exact h ⟨⟨lhs, rfl⟩, op, hop, decide_eq_true (by omega)⟩

/-- One level further out, where what is tighter is read alike unless it stops short. -/
theorem growBy_layered {next : Parse Node} {tail : Node → Parse Node}
    (reads : ReadsOn depth (applyOperator sub line rhs))
    (readsTested : ReadsOn depth (applyTested sub line next tail))
    (hnext : ∀ cursor : Cursor, cursor.depth = depth → ¬ StopsShort (level + 1) (rhs (level + 1) cursor) →
      rhs (level + 1) cursor = next cursor)
    (htail : ∀ lhs (cursor : Cursor), cursor.depth = depth → ¬ cursor.IsBefore (level + 1 ≤ ·.level) →
      tail lhs cursor = (.ok lhs, cursor))
    (lhs : Node) (cursor : Cursor) (hdepth : cursor.depth = depth)
    (hshort : ¬ StopsShort level (growBy (·.level == level) (applyOperator sub line rhs) lhs cursor)) :
    growBy (·.level == level) (applyOperator sub line rhs) lhs cursor =
      growBy (·.level == level) (applyTested sub line next tail) lhs cursor := by
  induction lhs, cursor, hdepth using reads.induct (·.level == level) with
  | stop lhs cursor hdepth hnone => rw [growBy_of_not hnone, growBy_of_not hnone]
  | step lhs cursor hdepth op hop hwanted ih =>
    rw [reads.growBy_of_next hdepth hop hwanted, bind_apply] at hshort ⊢
    rw [readsTested.growBy_of_next hdepth hop hwanted, bind_apply]
    have hlevel : op.level = level := eq_of_beq hwanted
    by_cases htest : (op.kind == .instanceOfExpression) = true
    case pos =>
      rw [applyTested_of_test htest rhs, bind_apply]
      rcases happly : applyOperator sub line rhs lhs op cursor with ⟨e | larger, after⟩
      · rfl
      · rw [happly] at hshort
        have hafter := (reads.of_eq_ok hdepth hop happly).1
        dsimp only at hshort ⊢
        rw [htail larger after hafter (not_isBefore_of_not_stopsShort hshort)]
        exact ih larger after happly hafter hshort
    case neg =>
      -- Had the right operand stopped short, the loop would have, too.
      have hright : applyOperator sub line rhs lhs op cursor =
          applyTested sub line next tail lhs op cursor := by
        apply applyOperator_eq_applyTested htest
        intro place hskip
        rw [hlevel]
        apply hnext place ((depth_of_skip hskip).trans hdepth)
        rintro ⟨⟨right, hright⟩, hbefore⟩
        rcases hrhs : rhs (level + 1) place with ⟨answer, after⟩
        rw [hrhs] at hright hbefore
        obtain rfl : answer = .ok right := hright
        rw [applyOperator_of_not_test htest, bind_apply, hskip, hlevel] at hshort
        dsimp only at hshort
        rw [bind_apply, hrhs] at hshort
        exact not_isBefore_of_not_stopsShort hshort hbefore
      rw [← hright]
      rcases happly : applyOperator sub line rhs lhs op cursor with ⟨e | larger, after⟩
      · rfl
      · rw [happly] at hshort
        exact ih larger after happly (reads.of_eq_ok hdepth hop happly).1 hshort

section

variable (sound : sub.Sound depth)
include sound

/-- The two grammars read alike unless the usual one stops short. -/
theorem layered_eq_joined (hlayers : layers ≤ operandLevel) (hdepth : cursor.depth = depth)
    (hshort : ¬ StopsShort (operandLevel - layers) (layered sub layers cursor)) :
    layered sub layers cursor = joined sub layers cursor := by
  induction layers generalizing cursor with
  | zero => rfl
  | succ layers ih =>
    obtain ⟨hjoined, hfollow⟩ := meets_joined_follow sound layers
    have hlevel : operandLevel - (layers + 1) + 1 = operandLevel - layers := by omega
    rw [layered, line_bind_apply, bind_apply] at hshort ⊢
    rw [joined, line_bind_apply, bind_apply]
    have hends := meets_layered sound layers cursor.rest cursor hdepth rfl
    -- The left operand stops short of nothing that this level would not stop short of, too.
    rcases hlhs : layered sub layers cursor with ⟨e | lhs, after⟩
    · have hfailed : ¬ StopsShort (operandLevel - layers) (layered sub layers cursor) := by
        rw [hlhs]
        rintro ⟨⟨node, hnode⟩, -⟩
        cases hnode
      rw [← ih (by omega) hdepth hfailed, hlhs]
    · rw [hlhs] at hshort hends
      obtain ⟨read, reads, -⟩ := hends
      have hafter : ¬ after.IsBefore (operandLevel - layers ≤ ·.level) := by
        rw [← hlevel]
        exact not_isBefore_of_not_stopsShort hshort
      have hoperand : ¬ StopsShort (operandLevel - layers) (layered sub layers cursor) := by
        rw [hlhs]
        exact fun hstops => hafter hstops.2
      rw [← ih (by omega) hdepth hoperand, hlhs]
      apply growBy_layered (readsOn_applyOperator sound fun _ => meets_layered sound layers)
        (readsOn_applyTested sound hjoined (hfollow _))
      · intro cursor hdepth hstops
        rw [hlevel] at hstops
        exact ih (by omega) hdepth hstops
      · intro lhs cursor hdepth hnone
        rw [hlevel] at hnone
        exact follow_of_not sound (by omega) hdepth hnone
      · exact reads.depth.trans hdepth
      · exact hshort

end

/-- Climbing reads the trees of the grammar in which a type test is an operand again for the tighter operators
behind it. They are those of the usual grammar unless that one stops in front of an operator it ought to take. -/
theorem climbing_follows_levels {levels : Nat} (hdepth : maxDepth < cursor.depth + levels) (level : Nat) :
    binary (.level levels) (operand (.level levels)) level cursor =
        joined (.level levels) (operandLevel - level) cursor ∧
      (binary (.level levels) (operand (.level levels)) level cursor =
          layered (.level levels) (operandLevel - level) cursor ↔
        ¬ StopsShort level (layered (.level levels) (operandLevel - level) cursor)) := by
  have sound : (Nested.level levels).Sound cursor.depth :=
    Nested.sound_level levels cursor.depth cursor.depth_le hdepth
  -- Levels beyond the tightest one are all levels of operands.
  have hjoined : binary (.level levels) (operand (.level levels)) level cursor =
      joined (.level levels) (operandLevel - level) cursor := by
    rcases Nat.le_total level operandLevel with hle | hle
    · have hclimb := climb_eq_joined sound (Nat.sub_le operandLevel level) (Nat.le_refl _) rfl
      rwa [Nat.sub_sub_self hle] at hclimb
    · rw [binary, Nat.sub_eq_zero_of_le hle]
      rfl
  have hstops : ¬ StopsShort level (binary (.level levels) (operand (.level levels)) level cursor) := by
    rintro ⟨⟨node, hnode⟩, hbefore⟩
    rcases hclimb : binary (.level levels) (operand (.level levels)) level cursor with ⟨answer, after⟩
    rw [hclimb] at hnode hbefore
    obtain rfl : answer = .ok node := hnode
    exact not_isBefore_of_climb sound (by omega) rfl hclimb hbefore
  refine ⟨hjoined, ?_, ?_⟩
  · intro heq
    rwa [heq] at hstops
  · intro hshort
    rw [hjoined]
    rcases Nat.le_total level operandLevel with hle | hle
    · have hlayers := Nat.sub_sub_self hle
      rw [layered_eq_joined sound (Nat.sub_le operandLevel level) rfl (by rwa [hlayers])]
    · rw [Nat.sub_eq_zero_of_le hle]
      rfl

/-- In front of `a - b * c`. -/
def sumCursor : Cursor :=
  .ofTokens [⟨.ident, "a", ⟨1, 0, 0⟩⟩, ⟨.punct .minus, "-", ⟨1, 2, 2⟩⟩, ⟨.ident, "b", ⟨1, 4, 4⟩⟩,
    ⟨.punct .star, "*", ⟨1, 6, 6⟩⟩, ⟨.ident, "c", ⟨1, 8, 8⟩⟩]

/-- Both read all of it. -/
theorem climbing_follows_levels_sumCursor : maxDepth < sumCursor.depth + 201 ∧
    binary (.level 201) (operand (.level 201)) 0 sumCursor = layered (.level 201) operandLevel sumCursor := by
  refine ⟨by decide, ?_⟩
  apply (climbing_follows_levels (by decide) 0).2.mpr
  rintro ⟨-, op, hop, -⟩
  have hnone : binaryOperator? (layered (.level 201) (operandLevel - 0) sumCursor).2.rest = none := by
    decide +kernel
  rw [hnone] at hop
  cases hop

/-- In front of `a instanceof T + b`. -/
def testedCursor : Cursor :=
  .ofTokens [⟨.ident, "a", ⟨1, 0, 0⟩⟩, ⟨.ident, "instanceof", ⟨1, 2, 2⟩⟩, ⟨.ident, "T", ⟨1, 13, 13⟩⟩,
    ⟨.punct .plus, "+", ⟨1, 15, 15⟩⟩, ⟨.ident, "b", ⟨1, 17, 17⟩⟩]

/-- Climbing reads a sum, the left side of which is the test. The usual grammar reads the test only. -/
theorem binary_testedCursor :
    (binary (.level 201) (operand (.level 201)) 0 testedCursor).1.map Node.kind = .ok .binaryExpression ∧
      (binary (.level 201) (operand (.level 201)) 0 testedCursor).2.pos = 5 ∧
      (layered (.level 201) operandLevel testedCursor).1.map Node.kind = .ok .instanceOfExpression ∧
      (layered (.level 201) operandLevel testedCursor).2.pos = 3 := by
  refine ⟨?_, ?_, ?_, ?_⟩ <;> decide +kernel

end Grammar

end Exemplar.Code
