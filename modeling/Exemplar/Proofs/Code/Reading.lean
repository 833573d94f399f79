import Exemplar.Proofs.Code.Bracket
import Exemplar.Proofs.Code.Cursor
import Exemplar.Proofs.Code.Shape
import Mathlib.Data.List.Basic

/-!
# Tokens and the nodes read from them

`Reading tokens nodes` says that the tokens were read as the nodes. It is what the productions of the grammar
have in common, whichever of them reads: brackets stand in pairs around what was read between them, or make a
query; a node starts on the line of its first token and with the word of its kind, and its children follow a
form of its kind; and the node of the modifiers comes in front of what a declaration is read from, which
starts behind them.

`Yields slot nodes tokens` adds that the nodes fill a slot. The loops of the grammar are collected here: what
their items yield is yielded by all of them.
-/

namespace Exemplar.Code

/-- The first of the tokens is the word of a kind, if the kind has one. -/
def Kind.OpensWith (kind : Kind) (tokens : List Token) : Prop :=
  match kind.word? with
  | some word => tokens.head?.any (·.isWord word) = true
  | none => True

namespace Kind.OpensWith

variable {kind : Kind} {token : Token} {tokens : List Token} {word : String}

theorem of_none (h : kind.word? = none) : kind.OpensWith tokens := by
  rw [Kind.OpensWith, h]
  trivial

theorem of_some (h : kind.word? = some word) (hword : token.isWord word = true) :
    kind.OpensWith (token :: tokens) := by
  rw [Kind.OpensWith, h]
  exact hword

theorem append {front : List Token} (h : kind.OpensWith front) (back : List Token) :
    kind.OpensWith (front ++ back) := by
  cases front with
  | cons token rest => exact h
  | nil =>
    cases hword : kind.word? with
    | none => exact of_none hword
    | some word =>
      rw [Kind.OpensWith, hword] at h
      cases h

theorem left {front back : List Token} (h : kind.OpensWith (front ++ back)) (hfront : front ≠ []) :
    kind.OpensWith front := by
  cases front with
  | nil => exact absurd rfl hfront
  | cons token rest => exact h

end Kind.OpensWith

/-- Tokens with the nodes that they were read as. -/
inductive Reading : List Token → List Node → Prop
  | nil : Reading [] []
  | token {token} (plain : token.isBracket = false) : Reading [token] []
  | query {opening word rest} (hopening : opening.isSymbol .openBracket = true)
      (hword : word.isWord "select" = true ∨ word.isWord "find" = true)
      (hclosed : behindBracket? 0 (word :: rest) = some []) : Reading (opening :: word :: rest) []
  | bracketed {opening closing tokens nodes} (hpair : opening.IsClosedBy closing)
      (inner : Reading tokens nodes) : Reading (opening :: (tokens ++ [closing])) nodes
  | append {tokens more nodes others} (front : Reading tokens nodes) (back : Reading more others) :
      Reading (tokens ++ more) (nodes ++ others)
  | unseen {tokens nodes} (seen : Reading tokens nodes) : Reading tokens []
  | node {node : Node} {tokens} (children : Reading tokens node.children)
      (starts : Starts node.line tokens) (opens : node.kind.OpensWith tokens)
      (shaped : node.IsShaped) (lone : node.lead = []) : Reading tokens [node]
  | modified {mods : Node} {front tokens nodes} (hmods : mods.kind = .modifierNode)
      (shaped : mods.IsShaped) (annotations : Reading front mods.children)
      (starts : Starts mods.line (front ++ tokens)) (back : Reading tokens nodes) :
      Reading (front ++ tokens) (mods :: nodes)
  | declared {node mods : Node} {front tokens nodes} (hmods : mods.kind = .modifierNode)
      (modsShaped : mods.IsShaped) (annotations : Reading front mods.children)
      (modsStarts : Starts mods.line (front ++ tokens)) (hchildren : node.children = mods :: nodes)
      (back : Reading tokens nodes) (starts : Starts node.line tokens)
      (opens : node.kind.OpensWith tokens) (shaped : node.IsShaped) :
      Reading (front ++ tokens) (node.lead ++ [node])

namespace Token

variable {token opening closing : Token} {symbol close : Symbol} {word : String}

theorem isBracket_of_isIdent (h : token.isIdent = true) : token.isBracket = false := by
  rw [isBracket, symbol?_of_isIdent h]
  rfl

theorem isIdent_of_any {words : List String} (h : words.any token.isWord = true) :
    token.isIdent = true := by
  obtain ⟨word, -, hword⟩ := List.any_eq_true.mp h
  exact isIdent_of_isWord hword

theorem isBracket_of_symbol? (h : token.symbol? = some symbol) (hplain : symbol.isBracket = false) :
    token.isBracket = false := by
  rw [isBracket, h]
  exact hplain

theorem isBracket_of_any {test : Symbol → Bool} (h : token.symbol?.any test = true)
    (hplain : ∀ symbol, test symbol = true → symbol.isBracket = false) : token.isBracket = false := by
  obtain ⟨symbol, hsymbol, htest⟩ := (Option.any_eq_true _ _).mp h
  exact isBracket_of_symbol? hsymbol (hplain symbol htest)

theorem isClosedBy_of_isSymbol (hopening : opening.isSymbol symbol = true)
    (hclosing : closing.isSymbol close = true) (h : symbol.closing? = some close) :
    opening.IsClosedBy closing :=
  ⟨symbol, close, isSymbol_iff.mp hopening, h, isSymbol_iff.mp hclosing⟩

end Token

namespace Reading

variable {token closing : Token} {tokens more : List Token} {nodes : List Node} {symbol : Symbol}
  {word : String}

theorem ofIdent (h : token.isIdent = true) : Reading [token] [] :=
  .token (Token.isBracket_of_isIdent h)

theorem ofWord (h : token.isWord word = true) : Reading [token] [] :=
  ofIdent (Token.isIdent_of_isWord h)

theorem ofSymbol (h : token.isSymbol symbol = true) (hplain : symbol.isBracket = false) :
    Reading [token] [] :=
  .token (Token.isBracket_of_symbol? (Token.isSymbol_iff.mp h) hplain)

theorem ofEither {other : Symbol} (h : (token.isSymbol symbol || token.isSymbol other) = true)
    (hplain : symbol.isBracket = false) (hother : other.isBracket = false) : Reading [token] [] :=
  (Bool.or_eq_true_iff.mp h).elim (ofSymbol · hplain) (ofSymbol · hother)

/-- What stands between two symbols that make a pair. -/
theorem between {opening : Token} {close : Symbol} (h : Reading tokens nodes)
    (hopening : opening.isSymbol symbol = true) (hclosing : closing.isSymbol close = true)
    (hpair : symbol.closing? = some close) : Reading (opening :: (tokens ++ [closing])) nodes :=
  .bracketed (Token.isClosedBy_of_isSymbol hopening hclosing hpair) h

/-- Tokens without nodes in front. -/
theorem after (h : Reading tokens []) (back : Reading more nodes) : Reading (tokens ++ more) nodes :=
  h.append back

/-- Tokens without nodes behind. -/
theorem before (h : Reading tokens nodes) (back : Reading more []) : Reading (tokens ++ more) nodes :=
  List.append_nil nodes ▸ h.append back

/-- A node is read from something. -/
theorem ne_nil (h : Reading tokens nodes) (hnodes : nodes ≠ []) : tokens ≠ [] := by
  induction h with
  | nil => exact absurd rfl hnodes
  | token | query | bracketed => simp
  | append front back ihFront ihBack =>
    intro h
    obtain ⟨hfront, hback⟩ := List.append_eq_nil_iff.mp h
    refine hnodes (List.append_eq_nil_iff.mpr ⟨?_, ?_⟩)
    · exact Classical.byContradiction fun h => ihFront h hfront
    · exact Classical.byContradiction fun h => ihBack h hback
  | unseen => exact absurd rfl hnodes
  | node children starts => exact starts.ne_nil
  | modified _ _ _ starts => exact starts.ne_nil
  | declared _ _ _ starts => exact starts.ne_nil

end Reading

/-- Tokens with the nodes that they were read as, which fill a slot. -/
structure Yields (slot : Slot) (nodes : List Node) (tokens : List Token) : Prop where
  reading : Reading tokens nodes
  holds : slot.Holds nodes

namespace Yields

variable {slot : Slot} {kinds : List Kind} {tokens more : List Token} {nodes others : List Node}
  {node : Node}

theorem ne_nil (h : Yields slot [node] tokens) : tokens ≠ [] :=
  h.reading.ne_nil (List.cons_ne_nil _ _)

theorem silent (h : Reading tokens []) : Yields (.many kinds) [] tokens :=
  ⟨h, trivial, by simp⟩

theorem many (h : Yields slot nodes tokens) (hkinds : slot.kinds ⊆ kinds) :
    Yields (.many kinds) nodes tokens :=
  ⟨h.reading, h.holds.many_of hkinds⟩

/-- One node as an item of a loop. -/
theorem item (h : Yields (.one kinds) [node] tokens) : tokens ≠ [] ∧ Yields (.many kinds) [node] tokens :=
  ⟨h.ne_nil, h.many (List.Subset.refl _)⟩

theorem optional (h : Yields (.one kinds) nodes tokens) : Yields (.optional kinds) nodes tokens :=
  ⟨h.reading, .optional_of_one h.holds⟩

theorem widen {more : List Kind} (h : Yields (.one kinds) nodes tokens) (hkinds : kinds ⊆ more) :
    Yields (.one more) nodes tokens :=
  ⟨h.reading, h.holds.count, fun node hnode => hkinds (h.holds.kinds node hnode)⟩

theorem append (h : Yields (.many kinds) nodes tokens) (hmore : Yields (.many kinds) others more) :
    Yields (.many kinds) (nodes ++ others) (tokens ++ more) where
  reading := h.reading.append hmore.reading
  holds := ⟨trivial, fun node hnode =>
    (List.mem_append.mp hnode).elim (h.holds.kinds node) (hmore.holds.kinds node)⟩

theorem after (h : Yields slot nodes more) (hfront : Reading tokens []) :
    Yields slot nodes (tokens ++ more) :=
  ⟨hfront.after h.reading, h.holds⟩

theorem before (h : Yields slot nodes tokens) (hback : Reading more []) :
    Yields slot nodes (tokens ++ more) :=
  ⟨h.reading.before hback, h.holds⟩

theorem between {opening closing : Token} {symbol close : Symbol} (h : Yields slot nodes tokens)
    (hopening : opening.isSymbol symbol = true) (hclosing : closing.isSymbol close = true)
    (hpair : symbol.closing? = some close) : Yields slot nodes (opening :: (tokens ++ [closing])) :=
  ⟨h.reading.between hopening hclosing hpair, h.holds⟩

end Yields

/-- Tokens with the nodes that they were read as, which follow a form. -/
structure Fills (slots : List Slot) (nodes : List Node) (tokens : List Token) : Prop where
  reading : Reading tokens nodes
  follows : Follows slots nodes

namespace Fills

variable {slot : Slot} {slots : List Slot} {kind : Kind} {kinds : List Kind} {line : Nat}
  {nodes others : List Node} {tokens more : List Token}

theorem nil (h : Reading tokens []) : Fills [] [] tokens :=
  ⟨h, .nil⟩

theorem append (h : Yields slot nodes tokens) (hmore : Fills slots others more) :
    Fills (slot :: slots) (nodes ++ others) (tokens ++ more) :=
  ⟨h.reading.append hmore.reading, .append h.holds hmore.follows⟩

theorem last (h : Yields slot nodes tokens) : Fills [slot] nodes tokens :=
  ⟨h.reading, .last h.holds⟩

theorem skip (hslot : slot.Holds []) (h : Fills slots nodes tokens) : Fills (slot :: slots) nodes tokens :=
  ⟨h.reading, .skip hslot h.follows⟩

theorem after (h : Fills slots nodes more) (hfront : Reading tokens []) :
    Fills slots nodes (tokens ++ more) :=
  ⟨hfront.after h.reading, h.follows⟩

theorem grow {node : Node} (hnode : Yields (.one kinds) [node] tokens)
    (h : Fills (.many kinds :: slots) nodes more) :
    Fills (.many kinds :: slots) (node :: nodes) (tokens ++ more) where
  reading := hnode.reading.append h.reading
  follows := h.follows.grow (hnode.holds.kinds node (.head _)) rfl fun _ => trivial

theorem several {node : Node} (hnode : Yields (.one kinds) [node] tokens)
    (h : Fills (.many kinds :: slots) nodes more) :
    Fills (.several kinds :: slots) (node :: nodes) (tokens ++ more) where
  reading := hnode.reading.append h.reading
  follows := h.follows.grow (hnode.holds.kinds node (.head _)) rfl fun _ => Nat.succ_pos _

/-- Children that follow a form of a kind make a node of the kind. -/
theorem node (h : Fills slots nodes tokens) (hform : slots ∈ kind.forms) (starts : Starts line tokens)
    (opens : kind.OpensWith tokens) (hkind : kind ∈ kinds)
    (lone : kind ≠ .fieldDeclarationStatements) : Yields (.one kinds) [⟨kind, line, nodes⟩] tokens where
  reading := .node h.reading starts opens ⟨slots, hform, h.follows⟩ (if_neg lone)
  holds := .of_kind hkind

end Fills

/-- A node of one of the kinds, made on `line`, with the tokens that its children were read from so far. -/
structure Made (kinds : List Kind) (line : Nat) (node : Node) (tokens : List Token) : Prop where
  kind : node.kind ∈ kinds
  line : node.line = line
  shaped : node.IsShaped
  reading : Reading tokens node.children

namespace Made

variable {slots : List Slot} {kind : Kind} {kinds others : List Kind} {line : Nat} {node : Node}
  {nodes : List Node} {front tokens more : List Token} {token : Token} {word : String}

theorem of (h : Fills slots nodes tokens) (hform : slots ∈ kind.forms) (hkind : kind ∈ kinds) :
    Made kinds line ⟨kind, line, nodes⟩ tokens :=
  ⟨hkind, rfl, ⟨slots, hform, h.follows⟩, h.reading⟩

theorem after (h : Made kinds line node tokens) (hfront : Reading front []) :
    Made kinds line node (front ++ tokens) :=
  ⟨h.kind, h.line, h.shaped, hfront.after h.reading⟩

/-- The word that the kinds start with completes the node. -/
theorem yields (h : Made kinds line node tokens) (hline : Starts line (token :: more))
    (hword : token.isWord word = true) (hkinds : ∀ kind ∈ kinds, kind.word? = some word ∧ kind ∈ others ∧
      kind ≠ .fieldDeclarationStatements) : Yields (.one others) [node] (token :: tokens) := by
  obtain ⟨hopens, hother, hlone⟩ := hkinds node.kind h.kind
  exact ⟨.node ((Reading.ofWord hword).after h.reading) (h.line ▸ hline) (.of_some hopens hword) h.shaped
    (if_neg hlone), .of_kind hother⟩

end Made

/-! ### Loops -/

/-- What a loop leaves goes with the tokens that it reads, from item to item. -/
structure Gathers {β : Type} (all : List β → List Token → Prop) : Prop where
  nil : all [] []
  append {items more : List β} {front back : List Token} :
    all items front → all more back → all (items ++ more) (front ++ back)

/-- What goes with some tokens, in front of a closing symbol that was read too. -/
def UpTo {β : Type} (close : Symbol) (all : List β → List Token → Prop) (items : List β) (tokens : List Token) :
    Prop :=
  ∃ inner closing, tokens = inner ++ [closing] ∧ closing.isSymbol close = true ∧ all items inner

namespace Gathers

open Parse

variable {α β : Type} {depth : Nat} {tokens : List Token} {item : Parse α} {close : Symbol}
  {all : List β → List Token → Prop} (gathers : Gathers all) (leaves : α → List β)
include gathers

/-- Items up to a place where `stop` holds of the tokens left. -/
theorem meets_manyUpTo (stop : List Token → Prop) {item? : Parse (Option α)}
    (h : ∀ tokens, Meets depth item? tokens fun found read left =>
      found.elim (all [] read ∧ stop left) fun item => read ≠ [] ∧ all (leaves item) read) :
    Meets depth (many item?) tokens fun items read left => all (items.flatMap leaves) read ∧ stop left := by
  refine meets_collect fun tokens => .bind (h tokens) ?_
  rintro found read rest rfl hfound
  cases found with
  | none => exact .pure ⟨(List.append_nil read).symm ▸ hfound.1, hfound.2⟩
  | some item =>
    obtain ⟨hread, hitem⟩ := hfound
    refine .pure ⟨by simpa using hread, fun items more rest hmore => ⟨?_, hmore.2⟩⟩
    simpa using gathers.append hitem hmore.1

theorem meets_many {item? : Parse (Option α)}
    (h : ∀ tokens, Meets depth item? tokens fun found read _ =>
      found.elim (all [] read) fun item => read ≠ [] ∧ all (leaves item) read) :
    Meets depth (many item?) tokens fun items read _ => all (items.flatMap leaves) read := by
  refine (gathers.meets_manyUpTo leaves (fun _ => True) fun tokens => (h tokens).mono ?_).mono ?_
  · rintro (_ | item) read _ _ hfound
    · exact ⟨hfound, trivial⟩
    · exact hfound
  · exact fun _ _ _ _ h => h.1

theorem meets_collectTo (h : ∀ tokens, Meets depth item tokens fun value read _ =>
      read ≠ [] ∧ all (leaves value) read) :
    Meets depth (collectTo close item) tokens fun values read _ =>
      UpTo close all (values.flatMap leaves) read := by
  refine meets_collect fun tokens => .ifEat ?_ ?_
  · rintro closing rest rfl hclosing
    exact .pure ⟨[], closing, rfl, hclosing, gathers.nil⟩
  · refine .map ((h tokens).mono ?_)
    rintro value read rest rfl ⟨hread, hvalue⟩
    refine ⟨hread, ?_⟩
    rintro values _ _ ⟨inner, closing, rfl, hclosing, hinner⟩
    exact ⟨read ++ inner, closing, (List.append_assoc ..).symm, hclosing, gathers.append hvalue hinner⟩

theorem meets_collectUntil {construct : String}
    (h : ∀ tokens, Meets depth item tokens fun value read _ => read ≠ [] ∧ all (leaves value) read) :
    Meets depth (collectUntil close construct item) tokens fun values read _ =>
      UpTo close all (values.flatMap leaves) read := by
  refine gathers.meets_collectTo leaves fun tokens => .bind meets_atEnd ?_
  rintro _ _ _ rfl ⟨rfl, -, rfl⟩
  split
  case isTrue => exact .complain rfl
  case isFalse => exact h _

theorem meets_separated (hcomma : ∀ token : Token, token.isSymbol .comma = true → all [] [token])
    (h : ∀ tokens, Meets depth item tokens fun value read _ => read ≠ [] ∧ all (leaves value) read) :
    Meets depth (separated item) tokens fun values read _ =>
      (values ≠ [] ∧ read ≠ []) ∧ all (values.flatMap leaves) read := by
  refine meets_collect fun tokens => .bind (h tokens) ?_
  rintro value read rest rfl ⟨hread, hvalue⟩
  refine .ifEat ?_ ?_
  · rintro comma rest rfl hsymbol
    refine .pure ⟨by simp, fun values more _ hmore => ⟨by simp, ?_⟩⟩
    simpa using gathers.append (gathers.append hvalue (hcomma comma hsymbol)) hmore.2
  · exact .pure ⟨⟨by simp, by simpa using hread⟩, by simpa using hvalue⟩

theorem meets_skipPairs {first second : Token → Bool}
    (h : ∀ token next, first token = true → second next = true → all [] [token, next]) :
    Meets depth (skipPairs first second) tokens fun _ read _ => all [] read := by
  refine .map ((gathers.meets_many (fun _ : Unit => []) fun tokens => .ifPair ?_ ?_).mono ?_)
  · rintro token next rest rfl hfirst hsecond
    exact .skip [token, next] (.pure ⟨by simp, h token next hfirst hsecond⟩)
  · exact .pure gathers.nil
  · intro items _ _ _ hread
    rwa [List.flatMap_eq_nil_iff.mpr fun _ _ => rfl] at hread

end Gathers

/-- Nodes that fill a slot, read up to a closing symbol and with it. -/
def YieldsTo (close : Symbol) (slot : Slot) (nodes : List Node) (tokens : List Token) : Prop :=
  UpTo close (Yields slot) nodes tokens

/-- The bracket in front completes the pair. -/
theorem YieldsTo.bracketed {opening : Token} {symbol close : Symbol} {slot : Slot} {nodes : List Node}
    {tokens : List Token} (h : YieldsTo close slot nodes tokens)
    (hopening : opening.isSymbol symbol = true) (hpair : symbol.closing? = some close) :
    Yields slot nodes (opening :: tokens) := by
  obtain ⟨inner, closing, rfl, hclosing, hinner⟩ := h
  exact hinner.between hopening hclosing hpair

theorem Yields.gathers (kinds : List Kind) : Gathers (Yields (.many kinds)) :=
  ⟨.silent .nil, .append⟩

namespace Parse

variable {α : Type} {depth : Nat} {tokens : List Token} {item : Parse α} {close : Symbol}
  (kinds : List Kind) (nodes : α → List Node)

/-- Items up to a place where `stop` holds of the tokens left. -/
theorem meets_manyUpTo (stop : List Token → Prop) {item? : Parse (Option α)}
    (h : ∀ tokens, Meets depth item? tokens fun found read left =>
      found.elim (Reading read [] ∧ stop left)
        fun item => read ≠ [] ∧ Yields (.many kinds) (nodes item) read) :
    Meets depth (many item?) tokens fun items read left =>
      Yields (.many kinds) (items.flatMap nodes) read ∧ stop left := by
  refine (Yields.gathers kinds).meets_manyUpTo nodes stop fun tokens => (h tokens).mono ?_
  rintro (_ | item) read left - hfound
  · exact ⟨.silent hfound.1, hfound.2⟩
  · exact hfound

theorem meets_many {item? : Parse (Option α)}
    (h : ∀ tokens, Meets depth item? tokens fun found read _ => found.elim (Reading read [])
      fun item => read ≠ [] ∧ Yields (.many kinds) (nodes item) read) :
    Meets depth (many item?) tokens fun items read _ =>
      Yields (.many kinds) (items.flatMap nodes) read := by
  refine (Yields.gathers kinds).meets_many nodes fun tokens => (h tokens).mono ?_
  rintro (_ | item) read _ _ hfound
  · exact .silent hfound
  · exact hfound

theorem meets_collectTo (h : ∀ tokens, Meets depth item tokens fun value read _ =>
      read ≠ [] ∧ Yields (.many kinds) (nodes value) read) :
    Meets depth (collectTo close item) tokens fun values read _ =>
      YieldsTo close (.many kinds) (values.flatMap nodes) read :=
  (Yields.gathers kinds).meets_collectTo nodes h

theorem meets_collectUntil {construct : String}
    (h : ∀ tokens, Meets depth item tokens fun value read _ =>
      read ≠ [] ∧ Yields (.many kinds) (nodes value) read) :
    Meets depth (collectUntil close construct item) tokens fun values read _ =>
      YieldsTo close (.many kinds) (values.flatMap nodes) read :=
  (Yields.gathers kinds).meets_collectUntil nodes h

theorem meets_separated (h : ∀ tokens, Meets depth item tokens fun value read _ =>
      read ≠ [] ∧ Yields (.many kinds) (nodes value) read) :
    Meets depth (separated item) tokens fun values read _ =>
      (values ≠ [] ∧ read ≠ []) ∧ Yields (.many kinds) (values.flatMap nodes) read :=
  (Yields.gathers kinds).meets_separated nodes (fun _ hcomma => .silent (.ofSymbol hcomma rfl)) h

theorem meets_enclosedRound (h : ∀ tokens, Meets depth item tokens fun value read _ =>
      read ≠ [] ∧ Yields (.many kinds) (nodes value) read) :
    Meets depth (enclosedRound close item) tokens fun found read left =>
      found.Adds (fun values read _ => YieldsTo close (.many kinds) (values.flatMap nodes) read) read
        left := by
  refine .ifEat ?_ (.bind (h tokens) ?_)
  · rintro closing rest rfl hclosing
    exact .pure ⟨[], closing, rfl, hclosing, .silent .nil⟩
  · rintro value read rest rfl ⟨hread, hvalue⟩
    refine .ifEat ?_ (.expect fun closing _ hclosing => .pure ?_)
    · rintro comma rest rfl hcomma
      refine .pure ⟨by simp, ?_⟩
      rintro values _ _ ⟨inner, closing, rfl, hclosing, hinner⟩
      exact ⟨(read ++ [comma]) ++ inner, closing, by simp, hclosing,
        (hvalue.before (.ofSymbol hcomma rfl)).append hinner⟩
    · exact ⟨read, closing, rfl, hclosing, by simpa using hvalue⟩

theorem meets_enclosed {opening : Symbol} (hpair : opening.closing? = some close)
    (h : ∀ tokens, Meets depth item tokens fun value read _ =>
      read ≠ [] ∧ Yields (.many kinds) (nodes value) read) :
    Meets depth (enclosed opening close item) tokens fun values read _ =>
      Yields (.many kinds) (values.flatMap nodes) read := by
  refine .expect fun token rest htoken => ?_
  refine (meets_collect fun tokens => meets_enclosedRound kinds nodes h).mono ?_
  exact fun values read _ _ hread => hread.bracketed htoken hpair

theorem meets_skipPairs {first second : Token → Bool}
    (h : ∀ token next, first token = true → second next = true → Reading [token, next] []) :
    Meets depth (skipPairs first second) tokens fun _ read _ => Reading read [] :=
  ((Yields.gathers []).meets_skipPairs fun token next hfirst hsecond =>
    .silent (h token next hfirst hsecond)).mono fun _ _ _ _ hread => hread.reading

end Parse

end Exemplar.Code
