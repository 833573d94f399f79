import Exemplar.Code.Grammar.Expression
import Exemplar.Proofs.Code.Grammar.TypeRef

/-!
# What is read as an expression

Operators are read from left to right. What is extended already yields one expression and starts on the line
that was noted in front of it, and stays so with each operator. A query is followed by counting brackets; the
count of those that are still open is the same as in the search for the bracket that closes it.
-/

namespace Exemplar.Code.Grammar

open Parse

variable {sub : Nested} {depth line level : Nat} {tokens front before : List Token}
  {token opening : Token} {lhs inner : Node} {items : List Node}

/-- What the operators read so far have made of an expression, which starts on `line`. -/
structure Grown (line : Nat) (node : Node) (tokens : List Token) : Prop where
  yields : Yields (.one Kind.expressions) [node] tokens
  starts : Starts line tokens

/-- A node without a word of its own around what there was. -/
theorem Grown.node {kind : Kind} {form : List Slot} {children : List Node}
    (h : Fills form children tokens) (starts : Starts line tokens) (hform : form ∈ kind.forms)
    (hword : kind.word? = none) (hkind : kind ∈ Kind.expressions) :
    Grown line ⟨kind, line, children⟩ tokens :=
  ⟨h.node hform starts (.of_none hword) hkind (by rintro rfl; revert hkind; decide), starts⟩

/-! ### Operators -/

theorem exists_touchingBrackets (limit offset : Nat) (tokens : List Token) : ∃ front rest,
    tokens = front ++ rest ∧ front.length = touchingBrackets limit offset tokens ∧ Reading front [] := by
  induction limit, offset, tokens using touchingBrackets.induct with
  | case1 limit offset token rest h ih =>
    obtain ⟨front, left, hrest, hlength, hfront⟩ := ih
    rw [touchingBrackets, if_pos h]
    have hgreater := (Bool.and_eq_true_iff.mp h).1
    exact ⟨token :: front, left, by rw [hrest, List.cons_append], by rw [List.length_cons, hlength],
      (Reading.ofSymbol hgreater rfl).after hfront⟩
  | case2 limit offset token rest h =>
    rw [touchingBrackets, if_neg h]
    exact ⟨[], _, rfl, rfl, .nil⟩
  | case3 limit offset tokens h =>
    refine ⟨[], tokens, rfl, ?_, .nil⟩
    unfold touchingBrackets
    split
    · exact absurd rfl (h _ _ _ rfl)
    · rfl

/-- The kinds of nodes with two operands that operators make. -/
def binaryKinds : List Kind :=
  [.nullCoalescingExpression, .booleanExpression, .binaryExpression]

theorem exists_of_binaryOperator? {op : Operator} (h : binaryOperator? tokens = some op) : ∃ front rest,
    tokens = front ++ rest ∧ front.length = op.width ∧ front ≠ [] ∧ Reading front [] ∧
      op.kind ∈ Kind.instanceOfExpression :: binaryKinds := by
  cases tokens with
  | nil => cases h
  | cons token rest =>
    have hone (hplain : token.isBracket = false) (hwidth : 1 = op.width)
        (hkind : op.kind ∈ Kind.instanceOfExpression :: binaryKinds) : ∃ front left,
        token :: rest = front ++ left ∧ front.length = op.width ∧ front ≠ [] ∧ Reading front [] ∧
          op.kind ∈ Kind.instanceOfExpression :: binaryKinds :=
      ⟨[token], rest, rfl, hwidth, by simp, .token hplain, hkind⟩
    rw [binaryOperator?] at h
    split at h
    case isTrue hword =>
      cases h
      exact hone (Token.isBracket_of_isIdent (Token.isIdent_of_isWord hword)) rfl (by decide)
    case isFalse =>
      split at h
      case h_14 hgreater =>
        -- Closing angle brackets that touch make one operator.
        have hplain : token.isBracket = false := Token.isBracket_of_symbol? hgreater rfl
        obtain ⟨front, left, hrest, hlength, hfront⟩ :=
          exists_touchingBrackets 2 token.start.offset rest
        split at h
        · cases h
          exact hone hplain rfl (by decide)
        · cases h
          exact ⟨token :: front, left, by rw [hrest, List.cons_append], by simp [hlength], by simp,
            (Reading.token hplain).after hfront, by simp [binaryKinds]⟩
      case h_21 => cases h
      -- Any other operator is one symbol, and none of them is a bracket.
      all_goals
        cases h
        exact hone (Token.isBracket_of_symbol? ‹_› rfl) rfl (by decide)

section Binary

variable (sound : sub.Sound depth) {rhs : Nat → Parse Node}
  (hrhs : ∀ level tokens, Meets depth (rhs level) tokens fun node read _ =>
    Yields (.one Kind.expressions) [node] read)
include sound hrhs

theorem meets_applyOperator {op : Operator} (hlhs : Grown line lhs front)
    (hop : binaryOperator? tokens = some op) :
    Meets depth (applyOperator sub line rhs lhs op) tokens fun node read _ =>
      read ≠ [] ∧ Grown line node (front ++ read) := by
  obtain ⟨marks, rest, rfl, hlength, hne, hmarks, hkind⟩ := exists_of_binaryOperator? hop
  have hstarts (more : List Token) : Starts line (front ++ more) := hlhs.starts.append more
  rw [applyOperator, ← hlength]
  refine .bind (meets_skip marks) ?_
  rintro _ marks rest - ⟨rfl, rfl⟩
  split
  case isTrue hinstance =>
    rw [eq_of_beq hinstance]
    refine .map ((sound.typeRef _).mono fun _ types _ _ htypes => ⟨by simp [hne], ?_⟩)
    have hfills : Fills [.one Kind.expressions] [lhs] (front ++ (marks ++ types)) :=
      .last (hlhs.yields.before (hmarks.after htypes.2))
    exact .node hfills (hstarts _) (.head _) rfl (by decide)
  case isFalse hinstance =>
    have hbinary : op.kind ∈ binaryKinds :=
      (List.mem_cons.mp hkind).resolve_left fun h => hinstance (beq_iff_eq.mpr h)
    refine .map ((hrhs _ _).mono fun right more _ _ hright => ⟨by simp [hne], ?_⟩)
    have hfills : Fills [.one Kind.expressions, .one Kind.expressions] ([lhs] ++ [right])
        (front ++ (marks ++ more)) :=
      .append hlhs.yields ((Fills.last hright).after hmarks)
    have hforms : ∀ kind ∈ binaryKinds, [.one Kind.expressions, .one Kind.expressions] ∈ kind.forms ∧
        kind.word? = none ∧ kind ∈ Kind.expressions := by decide
    obtain ⟨hform, hword, hexpression⟩ := hforms op.kind hbinary
    exact .node hfills (hstarts _) hform hword hexpression

theorem meets_extendBinary (hlhs : Grown line lhs front) :
    Meets depth (extendBinary sub line level rhs lhs) tokens fun larger? read _ =>
      larger?.elim (Grown line lhs (front ++ read))
        fun larger => read ≠ [] ∧ Grown line larger (front ++ read) := by
  have hnone : Meets depth (pure none) tokens fun larger? read _ =>
      larger?.elim (Grown line lhs (front ++ read))
        fun larger => read ≠ [] ∧ Grown line larger (front ++ read) :=
    .pure (by simpa using hlhs)
  refine .get fun cursor hrest => ?_
  split
  case h_1 => exact hnone
  case h_2 op hop =>
    split
    case isTrue => exact hnone
    case isFalse => exact .map (meets_applyOperator sound hrhs hlhs (hrest ▸ hop))

end Binary

section

variable (sound : sub.Sound depth)
include sound

theorem meets_climb {operand : Parse Node} (hoperand : ∀ tokens, Meets depth operand tokens
      fun node read _ => Yields (.one Kind.expressions) [node] read) (gap : Nat) :
    ∀ level tokens, Meets depth (climb sub operand gap level) tokens fun node read _ =>
      Yields (.one Kind.expressions) [node] read := by
  -- Induction on the levels that bind tighter. What stands right of an operator is read at one of them.
  induction gap with
  | zero => exact fun _ => hoperand
  | succ gap ih =>
    intro level tokens
    refine .line fun line hline => .bind (hoperand tokens) ?_
    rintro lhs front rest rfl hlhs
    have hgrown : Grown line lhs front := ⟨hlhs, .of_noted hline hlhs.ne_nil⟩
    refine (meets_grow (fun node front _ => Grown line node front)
      (fun node front _ => Grown line node front)
      (fun _ _ _ h => meets_extendBinary sound ih h) hgrown).mono ?_
    exact fun _ _ _ _ h => h.yields

theorem meets_expressions : Meets depth (separated sub.expression) tokens fun nodes read _ =>
    Yields (.several Kind.expressions) nodes read := by
  refine (meets_separated Kind.expressions (fun node => [node]) fun tokens => ?_).mono ?_
  · exact (sound.expression tokens).mono fun _ _ _ _ h => h.item
  · rintro nodes _ _ - ⟨⟨hne, -⟩, h⟩
    rw [List.flatMap_singleton'] at h
    exact ⟨h.reading, .several_of h.holds hne⟩

theorem meets_arguments : Meets depth (arguments sub) tokens fun nodes read _ =>
    Yields (.many Kind.expressions) nodes read := by
  refine .expect fun opening _ hopening => ?_
  refine .ifEat ?_ (.bind (meets_expressions sound) fun items read _ _ hitems => ?_)
  · rintro closing rest rfl hclosing
    exact .pure (.silent (Reading.nil.between hopening hclosing rfl))
  · refine .expect fun closing _ hclosing => .pure ?_
    have hpair := hitems.between hopening hclosing rfl
    exact hpair.many (List.Subset.refl _)

end

/-! ### Queries -/

/-- A query of which some tokens were read: so many square brackets are open, and the search for the bracket
that closes the first of them has come as far. -/
inductive InQuery : (count : Nat) → (read left : List Token) → Prop
  | start {opening rest} (hopening : opening.isSymbol .openBracket = true) :
      InQuery 0 [] (opening :: rest)
  | inside {opening inner count left} (hopening : opening.isSymbol .openBracket = true)
      (hbehind : ∀ rest, behindBracket? 0 (inner ++ rest) = behindBracket? count rest) :
      InQuery (count + 1) (opening :: inner) left

/-- A query from its opening bracket to the one that closes it. -/
def IsQuery (tokens : List Token) : Prop :=
  ∃ opening inner, tokens = opening :: inner ∧ opening.isSymbol .openBracket = true ∧
    behindBracket? 0 inner = some []

theorem meets_queryToken? {count : Nat} (h : InQuery count front tokens) :
    Meets depth (queryToken? count) tokens fun larger? read left =>
      larger?.elim (IsQuery (front ++ read))
        fun larger => read ≠ [] ∧ InQuery larger (front ++ read) left := by
  refine .bind meets_next? ?_
  rintro (_ | token) _ rest rfl rfl
  case none => exact .complain rfl
  cases h with
  | start hopening =>
    dsimp only
    rw [if_pos hopening]
    exact .pure ⟨by simp, .inside hopening fun _ => rfl⟩
  | @inside opening inner count _ hopening hbehind =>
    -- The search takes the same token, with as many brackets open.
    have hnext (rest : List Token) : behindBracket? 0 (inner ++ [token] ++ rest) =
        behindBracket? count (token :: rest) := by
      rw [List.append_assoc, List.singleton_append, hbehind]
    dsimp only
    split
    case isTrue hopen =>
      refine .pure ⟨by simp, .inside hopening fun rest => (hnext rest).trans ?_⟩
      rw [behindBracket?, if_pos hopen]
    case isFalse hopen =>
      split
      case isTrue hclose =>
        cases count with
        | zero =>
          -- The first bracket is closed.
          refine .pure ⟨opening, inner ++ [token], rfl, hopening, ?_⟩
          rw [← List.append_nil (inner ++ [token]), hnext, behindBracket?, if_neg hopen, if_pos hclose,
            if_pos rfl]
        | succ count =>
          refine .pure ⟨by simp, .inside hopening fun rest => (hnext rest).trans ?_⟩
          rw [behindBracket?, if_neg hopen, if_pos hclose, if_neg (Nat.succ_ne_zero _),
            Nat.add_sub_cancel]
      case isFalse hclose =>
        refine .pure ⟨by simp, .inside hopening fun rest => (hnext rest).trans ?_⟩
        rw [behindBracket?, if_neg hopen, if_neg hclose]

theorem meets_queryKind : Meets depth queryKind tokens fun kind read left =>
    (read = [] ∧ left = tokens) ∧ kind ∈ [.soqlExpression, .soslExpression] ∧
      ∃ word, tokens[1]? = some word ∧ (word.isWord "select" = true ∨ word.isWord "find" = true) := by
  refine .ahead ?_
  split
  case isTrue hselect =>
    obtain ⟨word, hword, hselect⟩ := (Option.any_eq_true _ _).mp hselect
    exact .pure ⟨⟨rfl, rfl⟩, by decide, word, hword, .inl hselect⟩
  case isFalse =>
    refine .ahead ?_
    split
    case isTrue hfind =>
      obtain ⟨word, hword, hfind⟩ := (Option.any_eq_true _ _).mp hfind
      exact .pure ⟨⟨rfl, rfl⟩, by decide, word, hword, .inr hfind⟩
    case isFalse => exact .complain rfl

theorem meets_query (hopening : opening.isSymbol .openBracket = true)
    (hline : Starts line (opening :: tokens)) : Meets depth (query line) (opening :: tokens)
      fun node read _ => Yields (.one Kind.expressions) [node] read := by
  refine .bind meets_queryKind ?_
  rintro kind _ _ - ⟨⟨rfl, rfl⟩, hkind, word, hsecond, hword⟩
  refine .map ((meets_grow InQuery (fun _ tokens _ => IsQuery tokens) (fun _ _ _ => meets_queryToken?)
    (.start hopening)).mono ?_)
  rintro _ read left htokens ⟨first, inner, hread, hfirst, hclosed⟩
  -- The bracket that was counted first is the opening one, and the word behind it has been looked at.
  obtain rfl : read = first :: inner := hread
  obtain ⟨rfl, hrest⟩ := List.cons.inj htokens
  have hforms : ∀ kind ∈ [Kind.soqlExpression, .soslExpression],
      [] ∈ kind.forms ∧ kind.word? = none ∧ kind ∈ Kind.expressions := by decide
  obtain ⟨hform, hnone, hexpression⟩ := hforms kind hkind
  cases inner with
  | nil => cases hclosed
  | cons second inner =>
    obtain rfl : second = word := by
      rw [hrest] at hsecond
      exact Option.some.inj hsecond
    have hquery : Reading (opening :: second :: inner) [] := .query hopening hword hclosed
    exact (Grown.node (.nil hquery) hline hform hnone hexpression).yields

/-! ### Constructions -/

/-- The kinds of nodes for what is built by `new`. -/
def builtKinds : List Kind :=
  [.newObjectExpression, .newKeyValueObjectExpression, .newListInitExpression,
   .newListLiteralExpression, .newSetInitExpression, .newSetLiteralExpression,
   .newMapInitExpression, .newMapLiteralExpression]

theorem constructionKind_isBuilt (collection : Option Collection) (generic : Bool)
    (h : (Slot.many Kind.expressions).Holds items) :
    constructionKind collection generic items ∈ builtKinds ∧
      (Node.mk (constructionKind collection generic items) line items).IsShaped := by
  unfold constructionKind
  split
  case h_1 | h_2 | h_3 => exact ⟨by decide, _, .head _, .last h⟩
  case h_4 =>
    split
    case isTrue hall =>
      rw [Bool.and_eq_true, List.all_eq_true] at hall
      refine ⟨by decide, _, .head _, .last ⟨?_, fun node hnode => ?_⟩⟩
      · exact List.length_pos_iff.mpr (by simpa using hall.1)
      · exact List.mem_singleton.mpr (eq_of_beq (hall.2 node hnode))
    case isFalse => exact ⟨by decide, _, .head _, .last h⟩

section

variable (sound : sub.Sound depth)
include sound

theorem meets_mapEntries : Meets depth (mapEntries sub) tokens fun nodes read _ =>
    Yields (.many [.mapEntryNode]) nodes read := by
  refine (meets_enclosed [.mapEntryNode] (fun node => [node]) rfl fun tokens => ?_).mono ?_
  · refine .lineRead fun line => .bind (sound.expression _) fun key first _ _ hkey => ?_
    refine .expect fun arrow _ harrow => ?_
    refine .map ((sound.expression _).mono fun value second _ _ hvalue hstarts => ?_)
    have hread : first ++ ([arrow] ++ second) ≠ [] := by simp
    have hentry : Yields (.one [.mapEntryNode]) [⟨.mapEntryNode, line, [key, value]⟩]
        (first ++ ([arrow] ++ second)) :=
      (Fills.append hkey ((Fills.last hvalue).after (.ofSymbol harrow rfl))).node (.head _)
        (hstarts hread) trivial (.head _) (by decide)
    exact ⟨hread, hentry.many (List.Subset.refl _)⟩
  · exact fun items _ _ _ h => List.flatMap_singleton' items ▸ h

theorem meets_literalItems : Meets depth (literalItems sub) tokens fun nodes read _ =>
    Yields (.many Kind.expressions) nodes read := by
  refine (meets_enclosed Kind.expressions (fun node => [node]) rfl fun tokens => ?_).mono ?_
  · exact (sound.expression tokens).mono fun _ _ _ _ h => h.item
  · exact fun items _ _ _ h => List.flatMap_singleton' items ▸ h

theorem meets_arrayRest (hopening : opening.isSymbol .openBracket = true) :
    Meets depth (arrayRest sub line) tokens fun node read _ =>
      Made builtKinds line node (opening :: read) := by
  refine .ifEat ?_ (.bind (sound.expression _) fun size first _ _ hsize => ?_)
  · rintro closing rest rfl hclosing
    refine .map ((meets_literalItems sound).mono fun items read _ _ hitems => ?_)
    have hpair : Reading [opening, closing] [] :=
      Reading.nil.between hopening hclosing rfl
    exact .of (.last (hitems.after hpair)) (.head _) (by decide)
  · refine .expect fun closing _ hclosing => .pure ?_
    exact .of (.last ((hsize.between hopening hclosing rfl).many
      (List.Subset.refl _))) (.head _) (by decide)

theorem meets_collectionLiteral (collection : Option Collection) :
    Meets depth (collectionLiteral sub collection line) tokens fun node read _ =>
      Made builtKinds line node read := by
  unfold collectionLiteral
  split
  case h_1 => exact .map ((meets_mapEntries sound).mono fun _ _ _ _ h => .of (.last h) (.head _) (by decide))
  case h_2 | h_3 =>
    exact .map ((meets_literalItems sound).mono fun _ _ _ _ h => .of (.last h) (.head _) (by decide))

theorem meets_construction (hword : token.isWord "new" = true) (hline : Starts line (token :: tokens)) :
    Meets depth (construction sub line) (token :: tokens) fun node read _ =>
      Yields (.one Kind.expressions) [node] read := by
  refine .advance ?_
  refine .expectIdent fun name _ hname => ?_
  refine .bind meets_qualifiers fun _ further _ _ hfurther => ?_
  refine .bind (meets_typeArguments? sound) fun generic types _ _ htypes => ?_
  have hbuilt {node : Node} {read : List Token} (h : Made builtKinds line node read) :
      Yields (.one Kind.expressions) [node] ([token] ++ ([name] ++ (further ++ (types ++ read)))) :=
    (((h.after htypes).after hfurther).after (.ofIdent hname)).yields hline hword (by decide)
  refine .ifEat ?_ (.ifAhead ?_ (.map ((meets_arguments sound).mono fun items read _ _ hitems => ?_)))
  · rintro opening rest rfl hopening
    exact (meets_arrayRest sound hopening).mono fun _ _ _ _ h => hbuilt h
  · rintro _ _ rfl -
    exact (meets_collectionLiteral sound _).mono fun _ _ _ _ h => hbuilt h
  · -- Without brackets of its own, what is built depends on the arguments.
    obtain ⟨hkind, hshaped⟩ := constructionKind_isBuilt (Collection.ofToken? name) generic hitems.holds
    exact hbuilt ⟨hkind, rfl, hshaped, hitems.reading⟩

end

/-! ### Primaries -/

theorem opensWith_nameKind (name : Token) (call : Bool) :
    (nameKind name call).OpensWith (name :: tokens) := by
  unfold nameKind
  split
  case isTrue hthis => split <;> exact .of_some rfl hthis
  case isFalse =>
    split
    case isTrue hsuper => split <;> exact .of_some rfl hsuper
    case isFalse => split <;> exact .of_none rfl

/-- Only a call has arguments. -/
theorem nameKind_cases (name : Token) (call : Bool) : nameKind name call ∈ Kind.expressions ∧
    if call then [.many Kind.expressions] ∈ (nameKind name call).forms
    else ∃ form ∈ (nameKind name call).forms, Follows form [] := by
  unfold nameKind
  cases call
  · simp only [Bool.false_eq_true, if_false]
    split
    · exact ⟨by decide, _, .head _, .nil⟩
    · split
      · exact ⟨by decide, _, .head _, .nil⟩
      · exact ⟨by decide, _, .head _, .last .optional_nil⟩
  · simp only [if_true]
    split
    · exact ⟨by decide, .head _⟩
    · split <;> exact ⟨by decide, .head _⟩

section

variable (sound : sub.Sound depth)
include sound

theorem meets_nameOrCall (hname : token.isIdent = true) (hline : Starts line (token :: tokens)) :
    Meets depth (nameOrCall sub line token) (token :: tokens) fun node read _ =>
      Yields (.one Kind.expressions) [node] read := by
  refine .advance ?_
  have hlone {kind : Kind} (h : kind ∈ Kind.expressions) : kind ≠ .fieldDeclarationStatements := by
    rintro rfl
    revert h
    decide
  refine .ifAhead ?_ (.pure ?_)
  · rintro _ _ rfl -
    refine .map ((meets_arguments sound).mono fun items read _ _ hitems => ?_)
    obtain ⟨hkind, hform⟩ := nameKind_cases token true
    exact ((Fills.last hitems).after (.ofIdent hname)).node hform hline (opensWith_nameKind token true)
      hkind (hlone hkind)
  · obtain ⟨hkind, form, hform, hfollows⟩ := nameKind_cases token false
    have hfills : Fills form [] [token] := ⟨.ofIdent hname, hfollows⟩
    exact hfills.node hform hline (opensWith_nameKind token false) hkind (hlone hkind)

theorem meets_parenthesised : Meets depth (parenthesised sub) tokens fun node read _ =>
    Yields (.one Kind.expressions) [node] read := by
  refine .expect fun opening _ hopening => ?_
  refine .bind (sound.expression _) fun node inner _ _ hnode => ?_
  refine .expect fun closing _ hclosing => .pure ?_
  exact hnode.between hopening hclosing rfl

theorem meets_primary : Meets depth (primary sub) tokens fun node read _ =>
    Yields (.one Kind.expressions) [node] read := by
  refine .line fun line hline => .peek? ?_
  cases tokens with
  | nil => exact .complain rfl
  | cons token rest =>
    have hline : Starts line (token :: rest) := hline (by simp)
    have hliteral (hplain : token.isBracket = false) : Meets depth (literal line) (token :: rest)
        fun node read _ => Yields (.one Kind.expressions) [node] read := by
      refine .advance ?_
      exact .pure (Grown.node (.nil (.token hplain)) hline (.head _) rfl (by decide)).yields
    dsimp only [List.head?_cons]
    -- By the first token: a string or a number, a parenthesis, a bracket, other punctuation, a word.
    split
    case h_1 hkind | h_2 hkind => exact hliteral (by rw [Token.isBracket, Token.symbol?, hkind]; rfl)
    case h_3 => exact meets_parenthesised sound
    case h_4 hkind => exact meets_query (by rw [Token.isSymbol, hkind]; rfl) hline
    case h_5 => exact .complain rfl
    case h_6 hkind =>
      have hname : token.isIdent = true := by rw [Token.isIdent, hkind]; rfl
      split
      case isTrue => exact .complain rfl
      case isFalse =>
        split
        case isTrue => exact hliteral (Token.isBracket_of_isIdent hname)
        case isFalse =>
          split
          case isTrue hnew => exact meets_construction sound hnew hline
          case isFalse => exact meets_nameOrCall sound hname hline

/-! ### What follows a primary -/

theorem meets_memberAccess (hinner : Grown line inner front) (hmark : Reading [token] []) :
    Meets depth (memberAccess sub line inner) tokens fun node read _ =>
      Grown line node (front ++ token :: read) := by
  refine .expectIdent fun name _ hname => ?_
  have hstarts (more : List Token) : Starts line (front ++ more) := hinner.starts.append more
  have hmember : Reading [token, name] [] := hmark.after (.ofIdent hname)
  have hone : Fills [.one Kind.expressions] [inner] (front ++ [token, name]) :=
    .last (hinner.yields.before hmember)
  split
  case isTrue => exact .pure (.node hone (hstarts _) (.head _) rfl (by decide))
  case isFalse =>
    refine .ifAhead ?_ (.pure ?_)
    · rintro _ _ rfl -
      refine .map ((meets_arguments sound).mono fun items read _ _ hitems => ?_)
      have hall : Yields (.many Kind.expressions) ([inner] ++ items) (front ++ ([token, name] ++ read)) :=
        (hinner.yields.many (List.Subset.refl _)).append (hitems.after hmember)
      exact .node (.last hall) (hstarts _) (.head _) rfl (by decide)
    · have hoptional : Yields (.optional Kind.expressions) [inner] (front ++ [token, name]) :=
        ⟨hone.reading, .optional_of_one hinner.yields.holds⟩
      exact .node (.last hoptional) (hstarts _) (.head _) rfl (by decide)

theorem meets_element (hinner : Grown line inner front) (hopening : opening.isSymbol .openBracket = true) :
    Meets depth (element sub line inner) tokens fun node read _ =>
      Grown line node (front ++ opening :: read) := by
  refine .bind (sound.expression _) fun index more _ _ hindex => ?_
  refine .expect fun closing _ hclosing => .pure ?_
  exact .node (.append hinner.yields
    (.last (hindex.between hopening hclosing rfl)))
    (hinner.starts.append _) (.head _) rfl (by decide)

theorem meets_extendPostfix (hinner : Grown line inner front) :
    Meets depth (extendPostfix sub line inner) tokens fun larger? read _ =>
      larger?.elim (Grown line inner (front ++ read))
        fun larger => read ≠ [] ∧ Grown line larger (front ++ read) := by
  refine .ifEat ?_ (.ifEat ?_ (.ifEat ?_ (.pure (by simpa using hinner))))
  · rintro dot rest rfl hdot
    refine .map ((meets_memberAccess sound hinner (.ofEither hdot rfl rfl)).mono ?_)
    exact fun _ _ _ _ h => ⟨by simp, h⟩
  · rintro opening rest rfl hopening
    exact .map ((meets_element sound hinner hopening).mono fun _ _ _ _ h => ⟨by simp, h⟩)
  · rintro mark rest rfl hmark
    refine .pure ⟨by simp, .node (.last (hinner.yields.before (.ofEither hmark rfl rfl))) ?_ (.head _) rfl
      (by decide)⟩
    exact hinner.starts.append _

theorem meets_postfixed : Meets depth (postfixed sub) tokens fun node read _ =>
    Yields (.one Kind.expressions) [node] read := by
  refine .line fun line hline => .bind (meets_primary sound) ?_
  rintro inner front rest rfl hinner
  have hgrown : Grown line inner front := ⟨hinner, .of_noted hline hinner.ne_nil⟩
  refine (meets_grow (fun node front _ => Grown line node front) (fun node front _ => Grown line node front)
    (fun _ _ _ h => meets_extendPostfix sound h) hgrown).mono ?_
  exact fun _ _ _ _ h => h.yields

/-! ### Operands -/

theorem meets_castType : Meets depth (castType sub) tokens fun _ read _ => Reading read [] := by
  refine .expect fun opening _ hopening => ?_
  refine .bind (sound.typeRef _) fun _ types _ _ htypes => .expect fun closing _ hclosing => ?_
  exact .ahead (.pure (htypes.2.between hopening hclosing rfl))

theorem meets_operand : Meets depth (operand sub) tokens fun node read _ =>
    Yields (.one Kind.expressions) [node] read := by
  refine .lineRead fun line => .ifEat ?_ (.jump (fun read _ => Reading read []) ?_ ?_ ?_)
  · rintro mark rest rfl hmark
    have hplain : ∀ symbol ∈ prefixSymbols, symbol.isBracket = false := by decide
    have hsilent : Reading [mark] [] := .token (Token.isBracket_of_any hmark fun symbol hsymbol =>
      hplain symbol (List.contains_iff_mem.mp hsymbol))
    refine .map ((sound.operand _).mono fun node read _ _ hnode hstarts => ?_)
    exact (Grown.node ((Fills.last hnode).after hsilent) (hstarts (by simp)) (.head _) rfl (by decide)).yields
  · exact (meets_castType sound).mono fun _ _ _ _ h _ => h
  · rintro cast rest rfl hcast
    refine .map ((sound.operand _).mono fun node read _ _ hnode hstarts => ?_)
    refine (Grown.node ((Fills.last hnode).after hcast) (hstarts ?_) (.head _) rfl (by decide)).yields
    exact List.append_ne_nil_of_right_ne_nil _ hnode.ne_nil
  · exact (meets_postfixed sound).mono fun _ _ _ _ h _ => h

/-! ### Expressions -/

theorem meets_binary : Meets depth (binary sub (operand sub) level) tokens fun node read _ =>
    Yields (.one Kind.expressions) [node] read :=
  meets_climb sound (fun _ => meets_operand sound) _ level tokens

theorem meets_ternary : Meets depth (ternary sub) tokens fun node read _ =>
    Yields (.one Kind.expressions) [node] read := by
  refine .lineRead fun line => .bind (meets_binary sound) fun condition first _ _ hcondition => ?_
  refine .ifEat ?_ (.pure fun _ => by simpa using hcondition)
  rintro question rest rfl hquestion
  refine .bind (sound.expression _) fun consequence second _ _ hconsequence => ?_
  refine .expect fun colon _ hcolon => ?_
  refine .map ((sound.expression _).mono fun alternative third _ _ halternative hstarts => ?_)
  have hfills : Fills [.one Kind.expressions, .one Kind.expressions, .one Kind.expressions]
      ([condition] ++ ([consequence] ++ [alternative]))
      (first ++ (question :: (second ++ ([colon] ++ third)))) :=
    .append hcondition (.after (.append hconsequence (.after (.last halternative) (.ofSymbol hcolon rfl)))
      (.ofSymbol hquestion rfl))
  exact (Grown.node hfills (hstarts (by simp)) (.head _) rfl (by decide)).yields

theorem meets_expression : Meets depth (expression sub) tokens fun node read _ =>
    Yields (.one Kind.expressions) [node] read := by
  refine .lineRead fun line => .bind (meets_ternary sound) fun target first _ _ htarget => ?_
  refine .ifEat ?_ (.pure fun _ => by simpa using htarget)
  rintro mark rest rfl hmark
  have hplain : ∀ symbol ∈ assignmentSymbols, symbol.isBracket = false := by decide
  have hsilent : Reading [mark] [] := .token (Token.isBracket_of_any hmark fun symbol hsymbol =>
    hplain symbol (List.contains_iff_mem.mp hsymbol))
  refine .map ((sound.expression _).mono fun value second _ _ hvalue hstarts => ?_)
  exact (Grown.node (.append htarget ((Fills.last hvalue).after hsilent)) (hstarts (by simp)) (.head _) rfl
    (by decide)).yields

end

end Exemplar.Code.Grammar
