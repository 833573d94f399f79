import Exemplar.Code.Token

/-!
# Brackets

Brackets of three sorts, and queries: a query is a pair of square brackets with a word behind the first one
that says so, and between them only the square brackets count. `withoutQueries` leaves queries out, and
`balancedFrom` checks the brackets of a text against a stack.

A text is `Closed` if all this comes out the same whatever stands behind it.
-/

namespace Exemplar.Code

/-- The symbol that closes a bracket. -/
def Symbol.closing? : Symbol → Option Symbol
  | .openParen => some .closeParen
  | .openBracket => some .closeBracket
  | .openBrace => some .closeBrace
  | _ => none

def Symbol.isClosing : Symbol → Bool
  | .closeParen | .closeBracket | .closeBrace => true
  | _ => false

def Symbol.isBracket (symbol : Symbol) : Bool :=
  symbol.closing?.isSome || symbol.isClosing

namespace Token

def isBracket (token : Token) : Bool :=
  token.symbol?.any Symbol.isBracket

/-- Whether two tokens are a bracket and the one that closes it. -/
def IsClosedBy (opening closing : Token) : Prop :=
  ∃ symbol close, opening.symbol? = some symbol ∧ symbol.closing? = some close ∧
    closing.symbol? = some close

theorem isSymbol_iff {token : Token} {symbol : Symbol} :
    token.isSymbol symbol = true ↔ token.symbol? = some symbol := by
  rcases token with ⟨_ | _ | _ | found, text, start⟩ <;> simp [isSymbol, symbol?]

theorem isSymbol_eq (token : Token) (symbol : Symbol) :
    token.isSymbol symbol = (token.symbol? == some symbol) := by
  rw [Bool.eq_iff_iff, isSymbol_iff, beq_iff_eq]

theorem symbol?_of_isIdent {token : Token} (h : token.isIdent = true) : token.symbol? = none := by
  rcases token with ⟨_ | _ | _ | found, text, start⟩ <;> simp_all [isIdent, symbol?]

theorem isIdent_of_isWord {token : Token} {word : String} (h : token.isWord word = true) :
    token.isIdent = true :=
  (Bool.and_eq_true_iff.mp h).1

end Token

/-! ### Queries -/

/-- What stands behind the square bracket that closes one before the tokens, where `inner` more are open. -/
def behindBracket? : (inner : Nat) → List Token → Option (List Token)
  | _, [] => none
  | inner, token :: rest =>
    if token.isSymbol .openBracket then behindBracket? (inner + 1) rest
    else if token.isSymbol .closeBracket then
      if inner = 0 then some rest else behindBracket? (inner - 1) rest
    else behindBracket? inner rest

/-- Whether a token and those behind it start a query. -/
def startsQuery (token : Token) (rest : List Token) : Bool :=
  token.isSymbol .openBracket && rest.head?.any fun word => word.isWord "select" || word.isWord "find"

theorem length_behindBracket? {tokens rest : List Token} {inner : Nat}
    (h : behindBracket? inner tokens = some rest) : rest.length < tokens.length := by
  induction tokens generalizing inner with
  | nil => cases h
  | cons token tokens ih =>
    rw [behindBracket?] at h
    rw [List.length_cons]
    split at h
    · exact Nat.lt_succ_of_lt (ih h)
    · split at h
      · split at h
        · cases h
          exact Nat.lt_succ_self _
        · exact Nat.lt_succ_of_lt (ih h)
      · exact Nat.lt_succ_of_lt (ih h)

/-- The tokens outside of queries. A query that is not closed is none. -/
def withoutQueries : List Token → List Token
  | [] => []
  | token :: rest =>
    if startsQuery token rest then
      match h : behindBracket? 0 rest with
      | some behind =>
        have := length_behindBracket? h
        withoutQueries behind
      | none => token :: withoutQueries rest
    else token :: withoutQueries rest
termination_by tokens => tokens.length
decreasing_by all_goals simp only [List.length_cons]; omega

theorem withoutQueries_nil : withoutQueries [] = [] := by
  rw [withoutQueries]

theorem withoutQueries_cons {token : Token} {rest : List Token} (h : startsQuery token rest = false) :
    withoutQueries (token :: rest) = token :: withoutQueries rest := by
  rw [withoutQueries, if_neg (by simp [h])]

theorem withoutQueries_query {token : Token} {rest behind : List Token}
    (h : startsQuery token rest = true) (hbehind : behindBracket? 0 rest = some behind) :
    withoutQueries (token :: rest) = withoutQueries behind := by
  rw [withoutQueries, if_pos h]
  split
  case h_1 found hfound =>
    rw [hbehind] at hfound
    cases hfound
    rfl
  case h_2 hfound => rw [hbehind] at hfound; cases hfound

theorem behindBracket?_append {tokens behind : List Token} {inner : Nat}
    (h : behindBracket? inner tokens = some behind) (rest : List Token) :
    behindBracket? inner (tokens ++ rest) = some (behind ++ rest) := by
  induction tokens generalizing inner with
  | nil => cases h
  | cons token tokens ih =>
    rw [behindBracket?] at h
    rw [List.cons_append, behindBracket?]
    grind

/-- A search for an outer bracket goes on behind one that was closed on the way. -/
theorem behindBracket?_outer {tokens : List Token} {inner : Nat}
    (h : behindBracket? inner tokens = some []) (outer : Nat) (rest : List Token) :
    behindBracket? (inner + 1 + outer) (tokens ++ rest) = behindBracket? outer rest := by
  induction tokens generalizing inner with
  | nil => cases h
  | cons token tokens ih =>
    rw [behindBracket?] at h
    rw [List.cons_append, behindBracket?]
    split at h
    case isTrue hopen =>
      -- One more is open in both searches.
      rw [if_pos hopen, ← ih h]
      congr 1
      omega
    case isFalse hopen =>
      rw [if_neg hopen]
      grind

/-! ### Balance -/

/-- Whether every bracket is closed by its own sort and in the right order, where `pending` are the symbols
that close the brackets still open, the next one first. -/
def balancedFrom : (pending : List Symbol) → List Token → Bool
  | pending, [] => pending.isEmpty
  | pending, token :: rest =>
    match token.symbol? with
    | none => balancedFrom pending rest
    | some symbol =>
      match symbol.closing? with
      | some close => balancedFrom (close :: pending) rest
      | none =>
        if symbol.isClosing then pending.head? == some symbol && balancedFrom pending.tail rest
        else balancedFrom pending rest

def isBalanced (tokens : List Token) : Bool :=
  balancedFrom [] tokens

section

variable {token : Token} {symbol close : Symbol} {pending : List Symbol} {rest : List Token}

theorem balancedFrom_opening (hsymbol : token.symbol? = some symbol)
    (hclose : symbol.closing? = some close) :
    balancedFrom pending (token :: rest) = balancedFrom (close :: pending) rest := by
  rw [balancedFrom, hsymbol]
  dsimp only
  rw [hclose]

theorem balancedFrom_closing (hsymbol : token.symbol? = some close)
    (hclose : symbol.closing? = some close) :
    balancedFrom (close :: pending) (token :: rest) = balancedFrom pending rest := by
  rw [balancedFrom, hsymbol]
  cases symbol <;> cases hclose <;> simp [Symbol.closing?, Symbol.isClosing]

end

/-! ### Closed texts -/

/-- A text that leaves no bracket open: whatever reads brackets goes on behind it as it came to it. -/
structure Closed (tokens : List Token) : Prop where
  behind (inner : Nat) (rest : List Token) :
    behindBracket? inner (tokens ++ rest) = behindBracket? inner rest
  without (rest : List Token) :
    withoutQueries (tokens ++ rest) = withoutQueries tokens ++ withoutQueries rest
  balanced (pending : List Symbol) (rest : List Token) :
    balancedFrom pending (withoutQueries tokens ++ rest) = balancedFrom pending rest

namespace Closed

variable {opening closing word : Token} {tokens more rest : List Token}

theorem nil : Closed [] where
  behind _ _ := rfl
  without _ := by rw [withoutQueries_nil]; rfl
  balanced _ _ := by rw [withoutQueries_nil]; rfl

theorem append (h : Closed tokens) (hmore : Closed more) : Closed (tokens ++ more) where
  behind inner rest := by rw [List.append_assoc, h.behind, hmore.behind]
  without rest := by
    rw [List.append_assoc, h.without, hmore.without, h.without, List.append_assoc]
  balanced pending rest := by rw [h.without, List.append_assoc, h.balanced, hmore.balanced]

/-- Nothing but brackets counts. -/
theorem singleton {token : Token} (h : token.isBracket = false) : Closed [token] := by
  have hopen : token.isSymbol .openBracket = false := by
    rw [← Bool.not_eq_true, Token.isSymbol_iff]
    intro hsymbol
    simp [Token.isBracket, hsymbol, Symbol.isBracket, Symbol.closing?] at h
  have hclose : token.isSymbol .closeBracket = false := by
    rw [← Bool.not_eq_true, Token.isSymbol_iff]
    intro hsymbol
    simp [Token.isBracket, hsymbol, Symbol.isBracket, Symbol.isClosing] at h
  have hstart (rest : List Token) : startsQuery token rest = false := by
    rw [startsQuery, hopen, Bool.false_and]
  refine ⟨fun inner rest => ?_, fun rest => ?_, fun pending rest => ?_⟩
  · simp [behindBracket?, hopen, hclose]
  · rw [List.singleton_append, withoutQueries_cons (hstart _), withoutQueries_cons (hstart _),
      withoutQueries_nil, List.singleton_append]
  · rw [withoutQueries_cons (hstart _), withoutQueries_nil, List.singleton_append, balancedFrom]
    cases hsymbol : token.symbol? with
    | none => rfl
    | some symbol =>
      simp only [Token.isBracket, hsymbol, Option.any_some, Symbol.isBracket, Bool.or_eq_false_iff,
        Option.isSome_eq_false_iff, Option.isNone_iff_eq_none] at h
      simp [h.1, h.2]

theorem query (hopening : opening.isSymbol .openBracket = true)
    (hword : word.isWord "select" = true ∨ word.isWord "find" = true)
    (hclosed : behindBracket? 0 (word :: rest) = some []) : Closed (opening :: word :: rest) := by
  have hstart (more : List Token) : startsQuery opening (word :: rest ++ more) = true := by
    rw [startsQuery, hopening, Bool.true_and, List.cons_append, List.head?_cons, Option.any_some,
      Bool.or_eq_true]
    exact hword
  have hwithout (more : List Token) :
      withoutQueries (opening :: (word :: rest ++ more)) = withoutQueries more :=
    withoutQueries_query (hstart more) (by rw [behindBracket?_append hclosed, List.nil_append])
  have hnone : withoutQueries (opening :: word :: rest) = [] := by
    simpa [withoutQueries_nil] using hwithout []
  refine ⟨fun inner more => ?_, fun more => ?_, fun pending more => ?_⟩
  · rw [List.cons_append, behindBracket?, if_pos hopening, ← behindBracket?_outer hclosed inner more,
      Nat.zero_add, Nat.add_comm 1]
  · rw [List.cons_append, hwithout, hnone, List.nil_append]
  · rw [hnone, List.nil_append]

/-- Whether a bracket starts a query is settled before the bracket that closes it. -/
theorem startsQuery_append (hclosing : closing.isIdent = false) (rest : List Token) :
    startsQuery opening (tokens ++ closing :: rest) = startsQuery opening tokens := by
  cases tokens with
  | nil => simp [startsQuery, Token.isWord, hclosing]
  | cons token tokens => rfl

theorem bracketed (hpair : opening.IsClosedBy closing) (h : Closed tokens) :
    Closed (opening :: (tokens ++ [closing])) := by
  obtain ⟨symbol, close, hopening, hclose, hclosing⟩ := hpair
  have hident : closing.isIdent = false := by
    rw [← Bool.not_eq_true]
    intro hident
    rw [Token.symbol?_of_isIdent hident] at hclosing
    cases hclosing
  -- A pair is square or not on both sides, so a search that counts square brackets comes out even.
  have hsquare : opening.isSymbol .openBracket = closing.isSymbol .closeBracket := by
    rw [Token.isSymbol_eq, Token.isSymbol_eq, hopening, hclosing]
    cases symbol <;> cases hclose <;> rfl
  have hend : closing.isSymbol .openBracket = false := by
    rw [Token.isSymbol_eq, hclosing]
    cases symbol <;> cases hclose <;> rfl
  have hstart : opening.isSymbol .closeBracket = false := by
    rw [Token.isSymbol_eq, hopening]
    cases symbol <;> cases hclose <;> rfl
  have hbehind (inner : Nat) (rest : List Token) :
      behindBracket? inner (opening :: (tokens ++ closing :: rest)) = behindBracket? inner rest := by
    have hclosed (inner : Nat) : behindBracket? inner (tokens ++ closing :: rest) =
        behindBracket? inner (closing :: rest) := h.behind inner _
    cases hbracket : closing.isSymbol .closeBracket <;>
      simp [behindBracket?, hclosed, hsquare, hend, hstart, hbracket]
  -- A pair that starts a query vanishes with all between it, and any other pair stays.
  have hwithout (rest : List Token) : withoutQueries (opening :: (tokens ++ closing :: rest)) =
      (if startsQuery opening tokens then [] else opening :: (withoutQueries tokens ++ [closing])) ++
        withoutQueries rest := by
    have hsame : startsQuery opening (tokens ++ closing :: rest) = startsQuery opening tokens :=
      startsQuery_append hident rest
    split
    case isTrue hquery =>
      have hopen : opening.isSymbol .openBracket = true := (Bool.and_eq_true_iff.mp hquery).1
      refine withoutQueries_query (hsame.trans hquery) ?_
      rw [h.behind, behindBracket?, if_neg (by simp [hend]), if_pos (hsquare ▸ hopen), if_pos rfl]
    case isFalse hquery =>
      rw [withoutQueries_cons (hsame.trans (Bool.eq_false_iff.mpr hquery)), h.without,
        withoutQueries_cons (by rw [startsQuery, hend, Bool.false_and])]
      simp
  have hown : withoutQueries (opening :: (tokens ++ [closing])) =
      if startsQuery opening tokens then [] else opening :: (withoutQueries tokens ++ [closing]) := by
    rw [hwithout, withoutQueries_nil, List.append_nil]
  refine ⟨fun inner rest => ?_, fun rest => ?_, fun pending rest => ?_⟩
  · rw [List.cons_append, List.append_assoc, List.singleton_append, hbehind]
  · rw [List.cons_append, List.append_assoc, List.singleton_append, hwithout, hown]
  · rw [hown]
    split
    · rfl
    · rw [List.cons_append, List.append_assoc, List.singleton_append,
        balancedFrom_opening hopening hclose, h.balanced, balancedFrom_closing hclosing hclose]

end Closed

end Exemplar.Code
