import Exemplar.Code.Lexer
import Mathlib.Data.List.Basic

/-!
# Where tokens stand

The scan goes over a source once and counts its lines on the way. Every token starts at the place that the
text before it leads to, so tokens come in the order of their lines. The scan cuts the source into pieces without
loss, and the tokens are what the pieces leave.
-/

namespace Exemplar.Code

/-! ### Lines of places -/

namespace Position

theorem line_advance (pos : Position) (c : Char) :
    (pos.advance c).line = pos.line + [c].count '\n' := by
  unfold advance
  split
  case isTrue h => rw [h, List.count_singleton_self]
  case isFalse h => rw [List.count_singleton, if_neg (by simpa using h), Nat.add_zero]

theorem advanceOver_cons (pos : Position) (c : Char) (cs : List Char) :
    pos.advanceOver (c :: cs) = (pos.advance c).advanceOver cs :=
  rfl

/-- Each newline starts another line. -/
theorem line_advanceOver (cs : List Char) : ∀ pos : Position,
    (pos.advanceOver cs).line = pos.line + cs.count '\n' := by
  induction cs with
  | nil => exact fun _ => rfl
  | cons c cs ih =>
    intro pos
    rw [advanceOver_cons, ih, line_advance, Nat.add_assoc, ← List.count_append, List.singleton_append]

end Position

/-! ### The scan -/

variable {pos : Position} {inside : Nat} {c : Char} {cs : List Char} {token : Token} {tokens : List Token}

/-- One step of the scan at a place where a piece begins. -/
theorem exists_piece_of_tokensFrom (h : tokensFrom pos 0 (c :: cs) = .ok tokens) :
    ∃ piece more, pieceAt pos.line c cs = .ok piece ∧
      tokensFrom (pos.advance c) (piece.text.length - 1) cs = .ok more ∧
      tokens = (piece.tokenAt? pos).toList ++ more := by
  rw [tokensFrom] at h
  split at h
  case h_1 => cases h
  case h_2 piece hpiece =>
    split at h
    case h_1 => cases h
    case h_2 more hmore =>
      cases h
      exact ⟨piece, more, hpiece, hmore, rfl⟩

theorem start_of_mem_tokenAt? {piece : Piece} (h : token ∈ (piece.tokenAt? pos).toList) :
    token.start = pos := by
  rw [Option.mem_toList, Piece.tokenAt?] at h
  obtain ⟨kind, -, rfl⟩ := Option.map_eq_some_iff.mp h
  rfl

/-- A token starts where the text before it ends. -/
theorem exists_before_of_mem_tokensFrom (h : tokensFrom pos inside cs = .ok tokens)
    (htoken : token ∈ tokens) :
    ∃ before after, cs = before ++ after ∧ token.start = pos.advanceOver before := by
  induction cs generalizing pos inside tokens with
  | nil =>
    cases inside <;> cases h <;> cases htoken
  | cons c cs ih =>
    cases inside with
    | zero =>
      obtain ⟨piece, more, -, hmore, rfl⟩ := exists_piece_of_tokensFrom h
      rcases List.mem_append.mp htoken with hfirst | hlater
      · exact ⟨[], c :: cs, rfl, start_of_mem_tokenAt? hfirst⟩
      · obtain ⟨before, after, rfl, hstart⟩ := ih hmore hlater
        exact ⟨c :: before, after, rfl, hstart⟩
    | succ inside =>
      rw [tokensFrom] at h
      obtain ⟨before, after, rfl, hstart⟩ := ih h htoken
      exact ⟨c :: before, after, rfl, hstart⟩

theorem line_of_mem_tokensFrom (h : tokensFrom pos inside cs = .ok tokens) (htoken : token ∈ tokens) :
    pos.line ≤ token.line ∧ token.line ≤ pos.line + cs.count '\n' := by
  obtain ⟨before, after, rfl, hstart⟩ := exists_before_of_mem_tokensFrom h htoken
  rw [Token.line, hstart, Position.line_advanceOver, List.count_append]
  omega

theorem pairwise_line_tokensFrom (h : tokensFrom pos inside cs = .ok tokens) :
    tokens.Pairwise fun first later => first.line ≤ later.line := by
  induction cs generalizing pos inside tokens with
  | nil =>
    cases inside <;> cases h <;> exact .nil
  | cons c cs ih =>
    cases inside with
    | zero =>
      obtain ⟨piece, more, -, hmore, rfl⟩ := exists_piece_of_tokensFrom h
      refine List.pairwise_append.mpr ⟨?_, ih hmore, fun first hfirst later hlater => ?_⟩
      · cases piece.tokenAt? pos with
        | none => exact .nil
        | some token => exact List.pairwise_singleton _ token
      · have hbound := (line_of_mem_tokensFrom hmore hlater).1
        rw [Position.line_advance] at hbound
        rw [Token.line, start_of_mem_tokenAt? hfirst]
        omega
    | succ inside =>
      rw [tokensFrom] at h
      exact ih h

/-! ### Pieces -/

theorem blockCommentTail?_prefix {tail : List Char} (h : blockCommentTail? cs = some tail) :
    tail <+: cs := by
  fun_induction blockCommentTail? cs generalizing tail with
  | case1 => cases h
  | case2 rest =>
    cases h
    exact List.prefix_append ['*', '/'] rest
  | case3 c cs _ ih =>
    obtain ⟨more, hmore, rfl⟩ := Option.map_eq_some_iff.mp h
    exact List.cons_prefix_cons.mpr ⟨rfl, ih hmore⟩

theorem stringTail?_prefix {tail : List Char} (h : stringTail? cs = some tail) : tail <+: cs := by
  fun_induction stringTail? cs generalizing tail with
  | case1 | case3 | case4 | case5 => cases h
  | case2 rest =>
    cases h
    exact List.prefix_append ['\''] rest
  | case6 c cs _ ih =>
    obtain ⟨more, hmore, rfl⟩ := Option.map_eq_some_iff.mp h
    exact List.cons_prefix_cons.mpr ⟨rfl, List.cons_prefix_cons.mpr ⟨rfl, ih hmore⟩⟩
  | case7 c cs _ _ _ _ _ ih =>
    obtain ⟨more, hmore, rfl⟩ := Option.map_eq_some_iff.mp h
    exact List.cons_prefix_cons.mpr ⟨rfl, ih hmore⟩

theorem numberTail_prefix (cs : List Char) : numberTail cs <+: cs := by
  fun_induction numberTail cs with
  | case1 => exact List.nil_prefix
  | case2 c cs _ ih => exact List.cons_prefix_cons.mpr ⟨rfl, ih⟩
  | case3 => exact List.nil_prefix

theorem Symbol.spelling_ne_nil (symbol : Symbol) : symbol.spelling.toList ≠ [] := by
  cases symbol <;> decide

theorem Symbol.prefix_of_longestAt? {symbol : Symbol} (h : Symbol.longestAt? cs = some symbol) :
    symbol.spelling.toList <+: cs := by
  unfold longestAt? at h
  have htest := List.find?_some h
  exact List.isPrefixOf_iff_prefix.mp htest

/-- What a text begins with, and the piece that is made of it or why there is none. Every answer has just one
reason. -/
inductive BeginsWith (line : Nat) : (c : Char) → (cs : List Char) → Except LexError Piece → Prop
  | separator {c : Char} {cs : List Char} (hc : isSeparator c = true) :
      BeginsWith line c cs (.ok ⟨none, c :: cs.takeWhile isSeparator⟩)
  | lineComment {cs : List Char} :
      BeginsWith line '/' ('/' :: cs) (.ok ⟨none, '/' :: '/' :: cs.takeWhile (· != '\n')⟩)
  | blockComment {cs tail : List Char} (closed : blockCommentTail? cs = some tail) :
      BeginsWith line '/' ('*' :: cs) (.ok ⟨none, '/' :: '*' :: tail⟩)
  | unterminatedComment {cs : List Char} (hopen : blockCommentTail? cs = none) :
      BeginsWith line '/' ('*' :: cs) (.error (.unterminatedComment line))
  | string {cs tail : List Char} (closed : stringTail? cs = some tail) :
      BeginsWith line '\'' cs (.ok ⟨some .str, '\'' :: tail⟩)
  | unterminatedString {cs : List Char} (hopen : stringTail? cs = none) :
      BeginsWith line '\'' cs (.error (.unterminatedString line))
  | name {c : Char} {cs : List Char} (hname : isNameStart c = true) :
      BeginsWith line c cs (.ok ⟨some .ident, c :: cs.takeWhile isNameChar⟩)
  | number {c : Char} {cs : List Char} (hname : isNameStart c = false) (hdigit : c.isDigit = true) :
      BeginsWith line c cs (.ok ⟨some .number, c :: numberTail cs⟩)
  | symbol {c : Char} {cs : List Char} {symbol : Symbol} (hline : ['/', '/'].isPrefixOf (c :: cs) = false)
      (hblock : ['/', '*'].isPrefixOf (c :: cs) = false) (hquote : c ≠ '\'') (hname : isNameStart c = false)
      (hdigit : c.isDigit = false) (longest : Symbol.longestAt? (c :: cs) = some symbol) :
      BeginsWith line c cs (.ok ⟨some (.punct symbol), symbol.spelling.toList⟩)
  | unexpected {c : Char} {cs : List Char} (hseparator : isSeparator c = false) (hquote : c ≠ '\'')
      (hname : isNameStart c = false) (hdigit : c.isDigit = false) (hnone : Symbol.longestAt? (c :: cs) = none) :
      BeginsWith line c cs (.error (.unexpectedCharacter c line))

theorem beginsWith_pieceAt (line : Nat) (c : Char) (cs : List Char) : BeginsWith line c cs (pieceAt line c cs) := by
  -- The tests in their order; a later case knows that the ones before it failed.
  unfold pieceAt
  split
  case isTrue hc => exact .separator hc
  case isFalse hseparator =>
  split
  case isTrue hopening =>
    obtain ⟨rest, hrest⟩ := List.isPrefixOf_iff_prefix.mp hopening
    cases hrest
    exact .lineComment
  case isFalse hline =>
  split
  case isTrue hopening =>
    obtain ⟨rest, hrest⟩ := List.isPrefixOf_iff_prefix.mp hopening
    cases hrest
    split
    case h_1 tail closed => exact .blockComment closed
    case h_2 hopen => exact .unterminatedComment hopen
  case isFalse hblock =>
  split
  case isTrue hquote =>
    obtain rfl := beq_iff_eq.mp hquote
    split
    case h_1 tail closed => exact .string closed
    case h_2 hopen => exact .unterminatedString hopen
  case isFalse hquote =>
  have hquote : c ≠ '\'' := fun hc => hquote (beq_iff_eq.mpr hc)
  split
  case isTrue hname => exact .name hname
  case isFalse hname =>
  have hname : isNameStart c = false := eq_false_of_ne_true hname
  split
  case isTrue hdigit => exact .number hname hdigit
  case isFalse hdigit =>
  have hdigit : c.isDigit = false := eq_false_of_ne_true hdigit
  split
  case h_1 symbol longest =>
    exact .symbol (eq_false_of_ne_true hline) (eq_false_of_ne_true hblock) hquote hname hdigit longest
  case h_2 hnone => exact .unexpected (eq_false_of_ne_true hseparator) hquote hname hdigit hnone

/-- A piece is what stands at its place, and it is not empty. -/
theorem exists_of_pieceAt {line : Nat} {piece : Piece} (h : pieceAt line c cs = .ok piece) :
    ∃ tail, piece.text = c :: tail ∧ tail <+: cs := by
  have hbegins := beginsWith_pieceAt line c cs
  rw [h] at hbegins
  cases hbegins with
  | separator | name => exact ⟨_, rfl, List.takeWhile_prefix _⟩
  | lineComment => exact ⟨_, rfl, List.cons_prefix_cons.mpr ⟨rfl, List.takeWhile_prefix _⟩⟩
  | blockComment closed => exact ⟨_, rfl, List.cons_prefix_cons.mpr ⟨rfl, blockCommentTail?_prefix closed⟩⟩
  | string closed => exact ⟨_, rfl, stringTail?_prefix closed⟩
  | number => exact ⟨_, rfl, numberTail_prefix _⟩
  | symbol _ _ _ _ _ longest =>
    have hstands := Symbol.prefix_of_longestAt? longest
    obtain ⟨first, tail, hspelling⟩ := List.exists_cons_of_ne_nil (Symbol.spelling_ne_nil _)
    rw [hspelling] at hstands ⊢
    obtain ⟨rfl, htail⟩ := List.cons_prefix_cons.mp hstands
    exact ⟨tail, rfl, htail⟩

/-- A text is a row of pieces, each of them the longest one at its place. -/
inductive CutInto : Position → List Char → List Piece → Prop
  | nil {pos : Position} : CutInto pos [] []
  | cons {pos : Position} {c : Char} {cs rest : List Char} {piece : Piece} {pieces : List Piece}
      (found : pieceAt pos.line c cs = .ok piece) (split : c :: cs = piece.text ++ rest)
      (more : CutInto (pos.advanceOver piece.text) rest pieces) :
      CutInto pos (c :: cs) (piece :: pieces)

/-- The tokens that pieces leave, the first of which stands at `pos`. -/
def tokensOf (pos : Position) : List Piece → List Token
  | [] => []
  | piece :: pieces => (piece.tokenAt? pos).toList ++ tokensOf (pos.advanceOver piece.text) pieces

/-- The scan leaves the tokens of the pieces, from behind the piece that it is inside of on. -/
theorem exists_pieces_of_tokensFrom (h : tokensFrom pos inside cs = .ok tokens) :
    ∃ pieces, CutInto (pos.advanceOver (cs.take inside)) (cs.drop inside) pieces ∧
      tokens = tokensOf (pos.advanceOver (cs.take inside)) pieces := by
  induction cs generalizing pos inside tokens with
  | nil => cases inside <;> cases h <;> exact ⟨[], .nil, rfl⟩
  | cons c cs ih =>
    cases inside with
    | zero =>
      obtain ⟨piece, more, hpiece, hmore, rfl⟩ := exists_piece_of_tokensFrom h
      obtain ⟨pieces, hcut, rfl⟩ := ih hmore
      obtain ⟨tail, htext, rest, rfl⟩ := exists_of_pieceAt hpiece
      have hlength : piece.text.length - 1 = tail.length := by rw [htext, List.length_cons, Nat.add_sub_cancel]
      have hpos : (pos.advance c).advanceOver tail = pos.advanceOver piece.text := by
        rw [htext, Position.advanceOver_cons]
      rw [hlength, List.take_left, List.drop_left, hpos] at hcut
      rw [hlength, List.take_left, hpos]
      exact ⟨piece :: pieces, .cons hpiece (by rw [htext]; rfl) hcut, rfl⟩
    | succ inside =>
      rw [tokensFrom] at h
      exact ih h

theorem exists_pieces_of_tokenize {source : String} (h : tokenize source = .ok tokens) :
    ∃ pieces, CutInto .start source.toList pieces ∧ tokens = tokensOf .start pieces :=
  exists_pieces_of_tokensFrom h

end Exemplar.Code
