import Exemplar.Code.NestedClass
import Exemplar.Proofs.Code.Bracket

/-!
# Marks for the search for nested classes

The search for nested classes goes over characters, but all that it acts on are a few tokens: a word `class`
without a dot in front of it, braces and semicolons. `marksFrom` lists what these stand for, and `Braces.nests` is
the search on the list.
-/

namespace Exemplar.Code

/-! ### Marks -/

/-- What a token is for the search. -/
inductive Mark where
  | declares
  | opens
  | closes
  | ends
deriving DecidableEq, Repr

variable {braces : Braces} {mark : Mark} {marks : List Mark} {behindDot : Bool} {opening closing token : Token}
  {tokens : List Token}

namespace Braces

def marked (braces : Braces) : Mark → Braces
  | .declares => { braces with pending := true }
  | .opens => braces.opened
  | .closes => braces.closed
  | .ends => { braces with pending := false }

/-- Whether a class body opens inside another one at one of the marks. -/
def nests (braces : Braces) : List Mark → Bool
  | [] => false
  | mark :: marks =>
    (mark == .opens && braces.pending && !braces.bodies.isEmpty) || (braces.marked mark).nests marks

end Braces

def Symbol.mark? : Symbol → Option Mark
  | .openBrace => some .opens
  | .closeBrace => some .closes
  | .semicolon => some .ends
  | _ => none

namespace Token

/-- A symbol in front of the name of a member. -/
def isDot (token : Token) : Bool :=
  token.isSymbol .dot || token.isSymbol .safeDot

def mark? (behindDot : Bool) (token : Token) : Option Mark :=
  if token.isWord "class" then if behindDot then none else some .declares
  else token.symbol?.bind Symbol.mark?

end Token

/-- Tokens, each with whether a dot is the token in front of it. -/
def dotted (behindDot : Bool) : List Token → List (Token × Bool)
  | [] => []
  | token :: rest => (token, behindDot) :: dotted token.isDot rest

def marksFrom (behindDot : Bool) (tokens : List Token) : List Mark :=
  (dotted behindDot tokens).filterMap fun pair => pair.1.mark? pair.2

/-- Whether a dot is the token in front of what follows some tokens. -/
def endsInDot (behindDot : Bool) (tokens : List Token) : Bool :=
  (tokens.getLast?.map Token.isDot).getD behindDot

theorem endsInDot_cons (behindDot : Bool) (token : Token) (tokens : List Token) :
    endsInDot behindDot (token :: tokens) = endsInDot token.isDot tokens := by
  cases tokens with
  | nil => rfl
  | cons next rest =>
    rw [endsInDot, endsInDot, List.getLast?_cons_cons]
    cases hlast : (next :: rest).getLast? with
    | none => simp at hlast
    | some last => rfl

theorem endsInDot_append (behindDot : Bool) (tokens more : List Token) :
    endsInDot behindDot (tokens ++ more) = endsInDot (endsInDot behindDot tokens) more := by
  induction tokens generalizing behindDot with
  | nil => rfl
  | cons token tokens ih => rw [List.cons_append, endsInDot_cons, endsInDot_cons, ih]

theorem dotted_append (behindDot : Bool) (tokens more : List Token) :
    dotted behindDot (tokens ++ more) =
      dotted behindDot tokens ++ dotted (endsInDot behindDot tokens) more := by
  induction tokens generalizing behindDot with
  | nil => rfl
  | cons token tokens ih => rw [List.cons_append, dotted, dotted, ih, endsInDot_cons, List.cons_append]

theorem marksFrom_append (behindDot : Bool) (tokens more : List Token) :
    marksFrom behindDot (tokens ++ more) =
      marksFrom behindDot tokens ++ marksFrom (endsInDot behindDot tokens) more := by
  rw [marksFrom, dotted_append, List.filterMap_append]
  rfl

theorem marksFrom_cons (behindDot : Bool) (token : Token) (tokens : List Token) :
    marksFrom behindDot (token :: tokens) =
      (token.mark? behindDot).toList ++ marksFrom token.isDot tokens := by
  rw [marksFrom, dotted, List.filterMap_cons]
  cases token.mark? behindDot <;> rfl

/-! ### The tokens behind marks -/

theorem Token.mark?_of_not_ident (h : token.isIdent = false) (behindDot : Bool) :
    token.mark? behindDot = token.symbol?.bind Symbol.mark? := by
  rw [mark?, isWord, h, Bool.false_and, if_neg Bool.false_ne_true]

theorem Token.mark?_of_ident (h : token.kind = .ident) (behindDot : Bool) : token.mark? behindDot =
    if Text.sameIgnoringCase token.text.toList "class".toList && !behindDot then some .declares else none := by
  have hident : token.isIdent = true := by rw [isIdent, h]; rfl
  rw [mark?, isWord, hident, Bool.true_and, symbol?_of_isIdent hident]
  cases Text.sameIgnoringCase token.text.toList "class".toList <;> cases behindDot <;> rfl

theorem Token.mark?_of_symbol {symbol : Symbol} (h : token.symbol? = some symbol) (behindDot : Bool) :
    token.mark? behindDot = symbol.mark? := by
  have hident : token.isIdent = false := by
    rw [← Bool.not_eq_true]
    intro hident
    rw [Token.symbol?_of_isIdent hident] at h
    cases h
  rw [mark?_of_not_ident hident, h, Option.bind_some]

theorem exists_of_mem_marksFrom (h : mark ∈ marksFrom behindDot tokens) :
    ∃ token ∈ tokens, ∃ behindDot, token.mark? behindDot = some mark := by
  induction tokens generalizing behindDot with
  | nil => cases h
  | cons token tokens ih =>
    rw [marksFrom_cons, List.mem_append, Option.mem_toList] at h
    rcases h with hfirst | hlater
    · exact ⟨token, List.mem_cons_self, behindDot, hfirst⟩
    · obtain ⟨found, hfound, hmark⟩ := ih hlater
      exact ⟨found, List.mem_cons_of_mem _ hfound, hmark⟩

/-- All marks but those of declarations are left by symbols. -/
theorem exists_symbol_of_mem_marksFrom (h : mark ∈ marksFrom behindDot tokens) (hmark : mark ≠ .declares) :
    ∃ token ∈ tokens, ∃ symbol, token.symbol? = some symbol ∧ symbol.mark? = some mark := by
  obtain ⟨token, htoken, _, hfound⟩ := exists_of_mem_marksFrom h
  unfold Token.mark? at hfound
  split at hfound
  · split at hfound <;> cases hfound
    exact absurd rfl hmark
  · exact ⟨token, htoken, Option.bind_eq_some_iff.mp hfound⟩

theorem marksFrom_bracketed {symbol close : Symbol} (hopening : opening.symbol? = some symbol)
    (hclosing : closing.symbol? = some close) : marksFrom behindDot (opening :: (tokens ++ [closing])) =
      symbol.mark?.toList ++ (marksFrom opening.isDot tokens ++ close.mark?.toList) := by
  rw [marksFrom_cons, marksFrom_append, marksFrom_cons, Token.mark?_of_symbol hopening,
    Token.mark?_of_symbol hclosing]
  exact congrArg _ (congrArg _ (List.append_nil _))

theorem Token.count_mark? (behindDot : Bool) (token : Token) :
    (token.mark? behindDot).toList.count .declares =
      if token.isWord "class" && !behindDot then 1 else 0 := by
  rw [mark?]
  cases token.isWord "class" with
  | true => cases behindDot <;> rfl
  | false =>
    rw [if_neg Bool.false_ne_true, Bool.false_and, if_neg Bool.false_ne_true]
    cases token.symbol? with
    | none => rfl
    | some symbol => cases symbol <;> rfl

theorem count_declares (behindDot : Bool) (tokens : List Token) :
    (marksFrom behindDot tokens).count .declares =
      (dotted behindDot tokens).countP fun (token, behindDot) => token.isWord "class" && !behindDot := by
  induction tokens generalizing behindDot with
  | nil => rfl
  | cons token tokens ih =>
    rw [marksFrom_cons, List.count_append, ih, dotted, List.countP_cons, Nat.add_comm, Token.count_mark?]

/-! ### The search on marks -/

namespace Braces

/-- No class is pending, and the class bodies that are open were opened further out. -/
structure Settled (braces : Braces) : Prop where
  pending : braces.pending = false
  bodies : ∀ depth ∈ braces.bodies, depth < braces.depth

theorem Settled.start : Settled {} :=
  ⟨rfl, nofun⟩

/-- A brace that no class waits for. -/
theorem Settled.opened (h : braces.Settled) : braces.opened.Settled := by
  refine ⟨rfl, fun depth hdepth => ?_⟩
  simp only [Braces.opened, h.pending, Bool.false_eq_true, if_false] at hdepth ⊢
  exact Nat.lt_succ_of_lt (h.bodies depth hdepth)

theorem Settled.bodies_opened (h : braces.Settled) : braces.opened.bodies = braces.bodies := by
  rw [Braces.opened, h.pending, if_neg Bool.false_ne_true]

theorem Settled.closed_opened (h : braces.Settled) : braces.opened.closed = braces := by
  have houter : braces.bodies.head? ≠ some braces.depth := by
    intro hhead
    exact absurd (h.bodies _ (List.mem_of_mem_head? hhead)) (Nat.lt_irrefl _)
  have hpending := h.pending
  cases braces
  simp_all [Braces.opened, Braces.closed]

theorem Settled.nests_opened_closes (h : braces.Settled) (marks : List Mark) :
    braces.opened.nests (.closes :: marks) = braces.nests marks :=
  congrArg (nests · marks) h.closed_opened

theorem Settled.nests_opens (h : braces.Settled) (marks : List Mark) :
    braces.nests (.opens :: marks) = braces.opened.nests marks := by
  rw [nests, h.pending, Bool.and_false, Bool.false_and, Bool.false_or, marked]

theorem nests_declares_opens (braces : Braces) (marks : List Mark) :
    braces.nests (.declares :: .opens :: marks) =
      (!braces.bodies.isEmpty || (braces.marked .declares).opened.nests marks) :=
  rfl

/-- The brace that a class waits for. -/
theorem Settled.opened_declared (h : braces.Settled) : (braces.marked .declares).opened.Settled := by
  refine ⟨rfl, fun depth hdepth => ?_⟩
  simp only [Braces.opened, Braces.marked, if_true, List.mem_cons] at hdepth ⊢
  rcases hdepth with rfl | houter
  · exact Nat.lt_succ_self _
  · exact Nat.lt_succ_of_lt (h.bodies depth houter)

theorem Settled.closed_opened_declared (h : braces.Settled) :
    (braces.marked .declares).opened.closed = braces := by
  have hpending := h.pending
  cases braces
  simp_all [Braces.opened, Braces.closed, Braces.marked]

theorem Settled.nests_declared_closes (h : braces.Settled) (marks : List Mark) :
    (braces.marked .declares).opened.nests (.closes :: marks) = braces.nests marks :=
  congrArg (nests · marks) h.closed_opened_declared

theorem Settled.nests_ends (h : braces.Settled) (hends : ∀ mark ∈ marks, mark = .ends) (others : List Mark) :
    braces.nests (marks ++ others) = braces.nests others := by
  induction marks with
  | nil => rfl
  | cons mark marks ih =>
    obtain rfl := hends mark List.mem_cons_self
    have hsame : braces.marked .ends = braces := by
      rw [Braces.marked, ← h.pending]
    have hmark : (Mark.ends == Mark.opens) = false := rfl
    rw [List.cons_append, nests, hsame, hmark, Bool.false_and, Bool.false_and, Bool.false_or,
      ih fun other hother => hends other (List.mem_cons_of_mem _ hother)]

end Braces

end Exemplar.Code
