import Exemplar.Code.Grammar.Statement
import Exemplar.Proofs.Code.Grammar.Expression
import Exemplar.Proofs.Code.Grammar.Modifier

/-!
# What is read as a statement

A statement that opens with a word is read from that word on: `Opening.At` says which tokens each opening is
recognised by, so that they can be passed over. Declarations and the two sorts of loops are told apart by
reading a type ahead; where that fails, nothing was read.
-/

namespace Exemplar.Code.Grammar

open Parse

variable {sub : Nested} {depth line : Nat} {tokens : List Token} {token opening : Token}

/-! ### What opens a statement -/

/-- Tokens that start as an opening does. -/
inductive Opening.At : Opening → List Token → Prop
  | word {token rest word found} (hfound : (word, found) ∈ openingWords)
      (hword : token.isWord word = true) : At found (token :: rest)
  | switch {token next rest} (hword : token.isWord "switch" = true) (hnext : next.isWord "on" = true) :
      At .switch (token :: next :: rest)
  | runAs {token dot method rest} (hword : token.isWord "system" = true)
      (hdot : dot.isSymbol .dot = true) (hmethod : method.isWord "runas" = true) :
      At .runAs (token :: dot :: method :: rest)
  | dml {token rest word kind} (hkind : (word, kind) ∈ dmlWords) (hword : token.isWord word = true) :
      At (.dml kind) (token :: rest)

theorem exists_of_ahead {cursor : Cursor} {test : Token → Bool} (h : cursor.ahead 0 test = true) :
    ∃ token rest, cursor.rest = token :: rest ∧ test token = true := by
  cases hrest : cursor.rest with
  | nil => simp [Cursor.ahead, hrest] at h
  | cons token rest => exact ⟨token, rest, rfl, by simpa [Cursor.ahead, hrest] using h⟩

theorem at_of_opening? {cursor : Cursor} {found : Opening} (h : opening? cursor = some found) :
    found.At cursor.rest := by
  unfold opening? at h
  split at h
  case isTrue hswitch =>
    cases h
    rw [Bool.and_eq_true] at hswitch
    obtain ⟨token, rest, hrest, hword⟩ := exists_of_ahead hswitch.1
    cases rest with
    | nil => simp [Cursor.ahead, hrest] at hswitch
    | cons next rest => exact hrest ▸ .switch hword (by simpa [Cursor.ahead, hrest] using hswitch.2)
  case isFalse =>
    split at h
    case isTrue hrunAs =>
      cases h
      rw [Bool.and_eq_true, Bool.and_eq_true] at hrunAs
      obtain ⟨token, rest, hrest, hword⟩ := exists_of_ahead hrunAs.1.1
      match rest with
      | [] | [_] => simp [Cursor.ahead, hrest] at hrunAs
      | dot :: method :: rest =>
        exact hrest ▸ .runAs hword (by simpa [Cursor.ahead, hrest] using hrunAs.1.2)
          (by simpa [Cursor.ahead, hrest] using hrunAs.2)
    case isFalse =>
      split at h
      -- The two tables of words are searched in turn.
      case h_1 entry hentry =>
        cases h
        obtain ⟨token, rest, hrest, hword⟩ := exists_of_ahead (by simpa using List.find?_some hentry)
        exact hrest ▸ .word (List.mem_of_find?_eq_some hentry) hword
      case h_2 =>
        unfold dmlOpening? at h
        split at h
        case h_2 => cases h
        case h_1 entry hentry =>
          split at h
          case isFalse => cases h
          case isTrue =>
            cases h
            obtain ⟨token, rest, hrest, hword⟩ := exists_of_ahead (by simpa using List.find?_some hentry)
            exact hrest ▸ .dml (List.mem_of_find?_eq_some hentry) hword

/-! ### Parts of statements -/

section

variable (sound : sub.Sound depth)
include sound

theorem meets_block : Meets depth (block sub) tokens fun node read _ =>
    Yields (.one [.blockStatement]) [node] read := by
  refine .lineRead fun line => .expect fun opening _ hopening => ?_
  have hstatements (tokens : List Token) : Meets depth sub.statement tokens fun node? read _ =>
      read ≠ [] ∧ Yields (.many Kind.statements) node?.toList read :=
    (sound.statement tokens).mono fun _ _ _ _ h => ⟨h.1, h.2.many (List.Subset.refl _)⟩
  refine .map ((meets_collectUntil _ Option.toList hstatements).mono ?_)
  rintro statements read _ rfl hread hstarts
  rw [List.filterMap_eq_flatMap_toList]
  exact (Fills.last (hread.bracketed hopening rfl)).node (.head _) (hstarts (by simp)) trivial (.head _)
    (by decide)

theorem meets_condition : Meets depth (condition sub) tokens fun node read _ =>
    Yields (.one [.standardCondition]) [node] read := by
  refine .lineRead fun line => .expect fun opening _ hopening => ?_
  refine .bind (sound.expression _) fun value inner _ _ hvalue => ?_
  refine .expect fun closing _ hclosing => .pure fun hstarts => ?_
  have hpair := hvalue.between hopening hclosing rfl
  exact (Fills.last hpair).node (.head _) (hstarts (by simp)) trivial (.head _) (by decide)

theorem meets_initialValue : Meets depth (initialValue sub) tokens fun nodes read _ =>
    Yields (.optional Kind.expressions) nodes read := by
  refine .ifEat ?_ (.pure ⟨.nil, .optional_nil⟩)
  rintro assign rest rfl hassign
  refine .map ((sound.expression _).mono fun value read _ _ hvalue => ?_)
  exact hvalue.optional.after (.ofSymbol hassign rfl)

theorem meets_expressionUnless (symbol : Symbol) : Meets depth (expressionUnless sub symbol) tokens
    fun nodes read _ => Yields (.optional Kind.expressions) nodes read := by
  refine .ifAhead (fun _ _ _ _ => .pure ⟨.nil, .optional_nil⟩) ?_
  exact .map ((sound.expression _).mono fun _ _ _ _ h => h.optional)

theorem meets_declaredName : Meets depth (declaredName sub) tokens fun node read _ =>
    Yields (.one [.variableDeclaration]) [node] read := by
  refine .expectIdent fun name _ hname => ?_
  refine .map ((meets_initialValue sound).mono fun value read _ _ hvalue => ?_)
  exact ((Fills.last hvalue).after (.ofIdent hname)).node (.head _) rfl trivial (.head _) (by decide)

/-- A type in front of a name and of a token that satisfies the test. -/
def TypeThenName (test : Token → Bool) (read left : List Token) : Prop :=
  Reading read [] ∧ ∃ name mark rest, left = name :: mark :: rest ∧ name.isIdent = true ∧
    test mark = true

theorem meets_typeAhead (test : Token → Bool) : Meets depth (typeAhead sub test) tokens
    fun hit read left => hit = true → TypeThenName test read left := by
  refine .bind (sound.typeRef _) fun _ types rest _ htypes => ?_
  refine .aheadPair (.pure fun hpair => ⟨by simpa using htypes.2, ?_⟩)
  rw [Bool.and_eq_true] at hpair
  match rest with
  | [] | [_] => simp at hpair
  | name :: mark :: rest => exact ⟨name, mark, rest, rfl, by simpa using hpair.1, by simpa using hpair.2⟩

theorem meets_typeThenName (test : Token → Bool) : Meets depth (typeThenName sub test) tokens
    fun hit read left => if hit then TypeThenName test read left else read = [] ∧ left = tokens :=
  meets_speculate (TypeThenName test) (meets_typeAhead sound test)

theorem meets_localType : Meets depth (localType sub) tokens fun hit read _ =>
    hit = true → Reading read [] := by
  refine .bind meets_eatIf fun final read rest _ hfinal => ?_
  have hsilent : Reading read [] := by
    cases final with
    | true =>
      obtain ⟨word, rfl, hword⟩ := hfinal
      exact .ofWord hword
    | false => exact hfinal.1 ▸ .nil
  refine (meets_typeThenName sound _).mono fun hit types _ _ h htrue => ?_
  rw [htrue] at h
  exact hsilent.after h.1

theorem meets_localDeclaration? (hline : tokens ≠ [] → Starts line tokens) :
    Meets depth (localDeclaration? sub line) tokens fun node? read left =>
      node?.elim (read = [] ∧ left = tokens)
        fun node => Yields (.one [.variableDeclarationStatements]) [node] read := by
  refine .ifSpeculate (fun read _ => Reading read []) (meets_localType sound) ?_ (.pure ⟨rfl, rfl⟩)
  rintro types rest rfl htypes
  refine .map ((meets_separated [.variableDeclaration] (fun node => [node]) fun tokens => ?_).mono ?_)
  · exact (meets_declaredName sound).mono fun _ _ _ _ h => h.item
  · rintro names read left rfl ⟨⟨hne, hread⟩, hnames⟩
    rw [List.flatMap_singleton'] at hnames
    have hfills : Fills [.several [.variableDeclaration]] names (types ++ read) :=
      .after (.last ⟨hnames.reading, .several_of hnames.holds hne⟩) htypes
    have hfront : types ++ read ≠ [] := List.append_ne_nil_of_right_ne_nil _ hread
    have hstarts : Starts line (types ++ read) :=
      .of_noted (List.append_assoc types read left ▸ hline) hfront
    exact hfills.node (.head _) hstarts trivial (.head _) (by decide)

/-! ### Branches -/

theorem meets_branch (hword : token.isWord "if" = true) (hline : Starts line (token :: tokens)) :
    Meets depth (branch sub line) (token :: tokens) fun node read _ =>
      Yields (.one [.ifBlockStatement]) [node] read := by
  refine .advance ?_
  refine .bind (meets_condition sound) fun test first _ _ htest => ?_
  refine .map ((sound.statement _).mono fun body second _ _ hbody => ?_)
  exact ((Fills.append htest (.last hbody.2)).after (.ofWord hword)).node (.head _) hline hword (.head _)
    (by decide)

theorem meets_alternative? : Meets depth (alternative? sub) tokens fun found read left => found.Adds
    (fun items read _ => Fills [.many [.ifBlockStatement], .optional Kind.statements] items.flatten read)
    read left := by
  have hempty : (Slot.many [Kind.ifBlockStatement]).Holds [] := ⟨trivial, by simp⟩
  refine .ifEat ?_ (.pure (.skip hempty (.last ⟨.nil, .optional_nil⟩)))
  rintro els rest rfl hels
  refine .ifAhead ?_ (.map ((sound.statement _).mono fun body read _ _ hbody => ?_))
  · rintro word rest rfl hword
    refine .line fun line hline => .map ((meets_branch sound hword (hline (by simp))).mono ?_)
    intro node read _ _ hnode
    refine ⟨by simp, fun items more _ hmore => ?_⟩
    exact .grow (hnode.after (.ofWord hels)) hmore
  · have hflat : [body.toList].flatten = body.toList := by simp
    rw [Round.Adds, hflat]
    exact .skip hempty (.after (.last hbody.2) (.ofWord hels))

theorem meets_ifStatement (hword : token.isWord "if" = true) (hline : Starts line (token :: tokens)) :
    Meets depth (ifStatement sub line) (token :: tokens) fun node read _ =>
      Yields (.one Kind.statements) [node] read := by
  refine .bind (meets_branch sound hword hline) fun first front rest htokens hfirst => ?_
  refine .map (.map ((meets_collect fun _ => meets_alternative? sound).mono ?_))
  intro items more _ _ hmore
  have hopens : Kind.OpensWith .ifElseBlockStatement (token :: tokens) := hword
  rw [htokens] at hline hopens
  exact (Fills.several hfirst hmore).node (.head _) ((hline.left hfirst.ne_nil).append more)
    ((hopens.left hfirst.ne_nil).append more) (by decide) (by decide)

/-! ### Loops -/

theorem meets_forEach {name colon : Token} {types : List Token}
    (hopening : opening.isSymbol .openParen = true) (htypes : Reading types [])
    (hname : name.isIdent = true) (hcolon : colon.isSymbol .colon = true) :
    Meets depth (forEach sub line) (name :: colon :: tokens) fun node read _ =>
      Made [.forEachStatement] line node (opening :: (types ++ read)) := by
  refine .line fun at? hat => .skip [name, colon] ?_
  refine .bind (sound.expression _) fun collection first _ _ hcollection => ?_
  refine .expect fun closing _ hclosing => ?_
  refine .map ((sound.statement _).mono fun body second _ _ hbody => ?_)
  have hvariable : Yields (.one [.variableDeclaration]) [.leaf .variableDeclaration at?] [name] :=
    (Fills.skip .optional_nil (.nil (.ofIdent hname))).node (.head _) (hat (by simp)) trivial (.head _)
      (by decide)
  have hinner : Reading (types ++ ([name] ++ ([colon] ++ first)))
      ([.leaf .variableDeclaration at?] ++ [collection]) :=
    htypes.after (hvariable.reading.append ((Reading.ofSymbol hcolon rfl).after hcollection.reading))
  have hpair : Reading (opening :: (types ++ ([name] ++ ([colon] ++ first)) ++ [closing]))
      ([.leaf .variableDeclaration at?] ++ [collection]) :=
    hinner.between hopening hclosing rfl
  refine ⟨.head _, rfl, ⟨_, .head _, .cons hvariable.holds (.cons hcollection.holds (.last hbody.2.holds))⟩,
    ?_⟩
  simpa using hpair.append hbody.2.reading

/-- What a counting loop may start with. -/
def forSlots : List Slot :=
  [.optional [.variableDeclarationStatements], .several Kind.expressions]

theorem meets_forInitial : Meets depth (forInitial sub) tokens fun nodes read _ =>
    ∃ slot ∈ forSlots, Yields slot nodes read := by
  refine .line fun line hline => .bind (meets_localDeclaration? sound hline) ?_
  rintro (_ | declaration) read rest rfl h
  · obtain ⟨rfl, -⟩ := h
    exact (meets_expressions sound).mono fun _ _ _ _ h => ⟨_, .tail _ (.head _), h⟩
  · refine .pure ⟨_, .head _, ?_⟩
    rw [List.append_nil]
    exact h.optional

theorem meets_forStart : Meets depth (forStart sub) tokens fun nodes read _ =>
    ∃ slot ∈ forSlots, Yields slot nodes read := by
  refine .ifEat ?_ (.bind (meets_forInitial sound) ?_)
  · rintro semicolon rest rfl hsemicolon
    exact .pure ⟨_, .head _, .ofSymbol hsemicolon rfl, .optional_nil⟩
  · rintro nodes read rest rfl ⟨slot, hslot, hnodes⟩
    refine .expect fun semicolon _ hsemicolon => .pure ?_
    exact ⟨slot, hslot, hnodes.before (.ofSymbol hsemicolon rfl)⟩

theorem meets_forCondition : Meets depth (forCondition sub) tokens fun nodes read _ =>
    Yields (.optional [.standardCondition]) nodes read := by
  refine .ifAhead (fun _ _ _ _ => .pure ⟨.nil, .optional_nil⟩) (.lineRead fun line => ?_)
  refine .map ((sound.expression _).mono fun value read _ _ hvalue hstarts => ?_)
  have hnode : Yields (.one [.standardCondition]) [⟨.standardCondition, line, [value]⟩] read :=
    (Fills.last hvalue).node (.head _) (hstarts hvalue.ne_nil) trivial (.head _) (by decide)
  exact hnode.optional

theorem meets_forUpdates : Meets depth (forUpdates sub) tokens fun nodes read _ =>
    Yields (.many Kind.expressions) nodes read := by
  refine meets_collect fun tokens => .ifAhead (fun _ _ _ _ => .pure (.silent .nil)) ?_
  refine .bind (sound.expression _) fun value read rest _ hvalue => ?_
  have hone : Yields (.many Kind.expressions) [value] read := hvalue.many (List.Subset.refl _)
  refine .ifEat ?_ (.pure (by simpa [Round.Adds] using hone))
  rintro comma rest rfl hcomma
  refine .pure ⟨by simp, fun items more _ hmore => ?_⟩
  exact (hone.before (.ofSymbol hcomma rfl)).append hmore

theorem meets_forLoop (hopening : opening.isSymbol .openParen = true) :
    Meets depth (forLoop sub line) tokens fun node read _ =>
      Made [.forLoopStatement] line node (opening :: read) := by
  refine .bind (meets_forStart sound) fun start first _ _ ⟨slot, hslot, hstart⟩ => ?_
  refine .bind (meets_forCondition sound) fun test second _ _ htest => ?_
  refine .expect fun semicolon _ hsemicolon => ?_
  refine .bind (meets_forUpdates sound) fun updates third _ _ hupdates => .expect fun closing _ hclosing => ?_
  refine .map ((sound.statement _).mono fun body fourth _ _ hbody => ?_)
  have hinner : Reading (first ++ (second ++ ([semicolon] ++ third))) (start ++ (test ++ updates)) :=
    hstart.reading.append (htest.reading.append ((Reading.ofSymbol hsemicolon rfl).after hupdates.reading))
  have hpair : Reading (opening :: (first ++ (second ++ ([semicolon] ++ third)) ++ [closing]))
      (start ++ (test ++ updates)) :=
    hinner.between hopening hclosing rfl
  have hform : ∀ slot ∈ forSlots, [slot, .optional [.standardCondition], .many Kind.expressions,
      .optional Kind.statements] ∈ Kind.forLoopStatement.forms := by decide
  have hfollows : Follows [slot, .optional [.standardCondition], .many Kind.expressions,
      .optional Kind.statements] (start ++ (test ++ (updates ++ body.toList))) :=
    .append hstart.holds (.append htest.holds (.append hupdates.holds (.last hbody.2.holds)))
  refine ⟨.head _, rfl, ⟨_, hform slot hslot, ?_⟩, ?_⟩
  · simpa using hfollows
  · simpa using hpair.append hbody.2.reading

theorem meets_forStatement (hword : token.isWord "for" = true) (hline : Starts line (token :: tokens)) :
    Meets depth (forStatement sub line) (token :: tokens) fun node read _ =>
      Yields (.one Kind.statements) [node] read := by
  refine .advance ?_
  refine .expect fun opening _ hopening => ?_
  refine .bind (meets_typeThenName sound _) ?_
  rintro (_ | _) read rest rfl h
  · obtain ⟨rfl, -⟩ := h
    refine (meets_forLoop sound hopening).mono fun node more _ _ hnode => ?_
    exact hnode.yields hline hword (by decide)
  · obtain ⟨htypes, name, colon, rest, rfl, hname, hcolon⟩ := h
    refine (meets_forEach sound hopening htypes hname hcolon).mono fun node more _ _ hnode => ?_
    exact hnode.yields hline hword (by decide)

theorem meets_whileStatement (hword : token.isWord "while" = true)
    (hline : Starts line (token :: tokens)) : Meets depth (whileStatement sub line) (token :: tokens)
      fun node read _ => Yields (.one Kind.statements) [node] read := by
  refine .advance ?_
  refine .bind (meets_condition sound) fun test first _ _ htest => ?_
  refine .map ((sound.statement _).mono fun body second _ _ hbody => ?_)
  exact ((Fills.append htest (.last hbody.2)).after (.ofWord hword)).node (.head _) hline hword (by decide)
    (by decide)

theorem meets_doStatement (hword : token.isWord "do" = true) (hline : Starts line (token :: tokens)) :
    Meets depth (doStatement sub line) (token :: tokens) fun node read _ =>
      Yields (.one Kind.statements) [node] read := by
  refine .advance ?_
  refine .bind (sound.statement _) fun body first _ _ hbody => .expectWord fun whileWord _ hwhile => ?_
  refine .bind (meets_condition sound) fun test second _ _ htest => ?_
  refine .expect fun semicolon _ hsemicolon => .pure ?_
  have htest : Fills [.one [.standardCondition]] [test] ([whileWord] ++ (second ++ [semicolon])) :=
    .after (.last (htest.before (.ofSymbol hsemicolon rfl))) (.ofWord hwhile)
  exact ((Fills.append hbody.2 htest).after (.ofWord hword)).node (.head _) hline hword (by decide)
    (by decide)

/-! ### Choices -/

omit sound in
theorem meets_caseValue : Meets depth caseValue tokens fun node read _ =>
    Yields (.one [.literalCase, .identifierCase]) [node] read := by
  refine .lineRead fun line => .bind meets_eatIf fun minus front rest _ hminus => ?_
  have hfront : Reading front [] := by
    cases minus with
    | true =>
      obtain ⟨mark, rfl, hmark⟩ := hminus
      exact .ofSymbol hmark rfl
    | false => exact hminus.1 ▸ .nil
  refine .bind meets_next? ?_
  rintro (_ | token) _ rest rfl rfl
  · exact .complain rfl
  · dsimp only
    split
    case h_1 => exact .complain rfl
    case h_2 kind hkind =>
      refine .pure fun hstarts => ?_
      -- Neither a literal nor a name is a bracket.
      have hcase : kind ∈ [Kind.literalCase, .identifierCase] ∧ token.isBracket = false := by
        unfold caseKind? at hkind
        rw [Token.isBracket, Token.symbol?]
        split at hkind
        · cases hkind
        · cases hkind
          exact ⟨by decide, by simp [*]⟩
        · cases hkind
          exact ⟨by decide, by simp [*]⟩
        · cases hkind
          exact ⟨by split <;> decide, by simp [*]⟩
      have hforms : ∀ kind ∈ [Kind.literalCase, .identifierCase], [] ∈ kind.forms ∧ kind.word? = none ∧
          kind ≠ .fieldDeclarationStatements := by decide
      obtain ⟨hform, hnone, hlone⟩ := hforms kind hcase.1
      exact (Fills.nil (hfront.after (.token hcase.2))).node hform (hstarts (by simp)) (.of_none hnone)
        hcase.1 hlone

theorem meets_whenBlock : Meets depth (whenBlock sub) tokens fun node read _ =>
    Yields (.one [.valueWhenBlock, .typeWhenBlock, .elseWhenBlock]) [node] read := by
  refine .lineRead fun line => .expectWord fun word _ hword => ?_
  -- Behind the word there is `else`, or values with commas between them, or a type with a name.
  refine .ifEat ?_ (.bind (meets_typeThenName sound _) ?_)
  · rintro els rest rfl hels
    refine .map ((meets_block sound).mono fun body read _ _ hbody hstarts => ?_)
    have hfills : Fills [.one [.blockStatement]] [body] ([word] ++ (els :: read)) :=
      .after (.after (.last hbody) (.ofWord hels)) (.ofWord hword)
    exact hfills.node (.head _) (hstarts (by simp)) hword (by decide) (by decide)
  · rintro (_ | _) read rest rfl h
    · obtain ⟨rfl, -⟩ := h
      refine .bind (meets_separated [.literalCase, .identifierCase] (fun node => [node]) fun tokens => ?_) ?_
      · exact meets_caseValue.mono fun _ _ _ _ h => h.item
      · rintro values front _ rfl ⟨⟨hne, -⟩, hvalues⟩
        rw [List.flatMap_singleton'] at hvalues
        refine .map ((meets_block sound).mono fun body back _ _ hbody hstarts => ?_)
        have hseveral : Yields (.several [.literalCase, .identifierCase]) values front :=
          ⟨hvalues.reading, .several_of hvalues.holds hne⟩
        exact ((Fills.append hseveral (.last hbody)).after (.ofWord hword)).node (.head _)
          (hstarts (by simp)) hword (.head _) (by decide)
    · obtain ⟨htypes, name, brace, rest, rfl, hname, -⟩ := h
      refine .advance ?_
      refine .map ((meets_block sound).mono fun body back _ _ hbody hstarts => ?_)
      have hfills : Fills [.one [.blockStatement]] [body] ([word] ++ (read ++ ([name] ++ back))) :=
        .after (.after (.after (.last hbody) (.ofIdent hname)) htypes) (.ofWord hword)
      exact hfills.node (.head _) (hstarts (by simp)) hword (by decide) (by decide)

theorem meets_switchStatement {next : Token} (hword : token.isWord "switch" = true)
    (hnext : next.isWord "on" = true) (hline : Starts line (token :: next :: tokens)) :
    Meets depth (switchStatement sub line) (token :: next :: tokens) fun node read _ =>
      Yields (.one Kind.statements) [node] read := by
  refine .skip [token, next] ?_
  refine .bind (sound.expression _) fun value first _ _ hvalue => .expect fun opening _ hopening => ?_
  refine .map ((meets_collectTo [.valueWhenBlock, .typeWhenBlock, .elseWhenBlock] (fun node => [node])
    fun tokens => ?_).mono ?_)
  · exact (meets_whenBlock sound).mono fun _ _ _ _ h => h.item
  · intro blocks second _ _ hblocks
    rw [List.flatMap_singleton'] at hblocks
    have hfills : Fills [.one Kind.expressions, .many [.valueWhenBlock, .typeWhenBlock, .elseWhenBlock]]
        ([value] ++ blocks) ([token, next] ++ (first ++ ([opening] ++ second))) :=
      .after (.append hvalue (.last (hblocks.bracketed hopening rfl)))
        ((Reading.ofWord hword).after (.ofWord hnext))
    exact hfills.node (.head _) hline hword (by decide) (by decide)

/-! ### Handlers -/

theorem meets_catchBlock (hword : token.isWord "catch" = true) (hline : Starts line (token :: tokens)) :
    Meets depth (catchBlock sub line) (token :: tokens) fun node read _ =>
      Yields (.one [.catchBlockStatement]) [node] read := by
  refine .advance ?_
  refine .expect fun opening _ hopening => ?_
  refine .bind meets_modifiers fun mods first _ _ hmods => ?_
  refine .bind (sound.typeRef _) fun _ second _ _ htypes => .expectIdent fun name _ hname => ?_
  refine .expect fun closing _ hclosing => ?_
  refine .map ((meets_block sound).mono fun body third _ _ hbody => ?_)
  have hinner : Reading (first ++ (second ++ [name])) [] :=
    (Reading.unseen hmods.reading).after (htypes.2.after (.ofIdent hname))
  have hpair : Reading (opening :: (first ++ (second ++ [name]) ++ [closing])) [] :=
    hinner.between hopening hclosing rfl
  have hfills : Fills [.one [.blockStatement]] [body]
      ([token] ++ (opening :: (first ++ (second ++ [name]) ++ [closing]) ++ third)) :=
    .after (.after (.last hbody) hpair) (.ofWord hword)
  have hnode : Yields (.one [.catchBlockStatement]) [⟨.catchBlockStatement, line, [body]⟩]
      ([token] ++ (opening :: (first ++ (second ++ [name]) ++ [closing]) ++ third)) :=
    hfills.node (.head _) hline hword (.head _) (by decide)
  simpa using hnode

theorem meets_handlers : Meets depth (handlers sub) tokens fun nodes read _ =>
    Yields (.many [.catchBlockStatement]) nodes read := by
  refine (meets_many [.catchBlockStatement] (fun node => [node]) fun tokens => .ifAhead ?_ ?_).mono ?_
  · rintro word rest rfl hword
    refine .line fun line hline => .map ((meets_catchBlock sound hword (hline (by simp))).mono ?_)
    exact fun _ _ _ _ h => h.item
  · exact .pure .nil
  · exact fun nodes _ _ _ h => List.flatMap_singleton' nodes ▸ h

theorem meets_cleanup : Meets depth (cleanup sub) tokens fun nodes read _ =>
    Yields (.optional [.blockStatement]) nodes read := by
  refine .ifEat ?_ (.pure ⟨.nil, .optional_nil⟩)
  rintro word rest rfl hword
  refine .map ((meets_block sound).mono fun body read _ _ hbody => ?_)
  exact hbody.optional.after (.ofWord hword)

theorem meets_tryStatement (hword : token.isWord "try" = true) (hline : Starts line (token :: tokens)) :
    Meets depth (tryStatement sub line) (token :: tokens) fun node read _ =>
      Yields (.one Kind.statements) [node] read := by
  refine .advance ?_
  refine .bind (meets_block sound) fun body first _ _ hbody => ?_
  refine .bind (meets_handlers sound) fun handled second _ _ hhandled => ?_
  refine .bind (meets_cleanup sound) fun final third _ _ hfinal => ?_
  split
  case isTrue => exact .complain rfl
  case isFalse hsome =>
    have hfills : ∃ form ∈ Kind.tryCatchFinallyBlockStatement.forms,
        Fills form ([body] ++ (handled ++ final)) (first ++ (second ++ third)) := by
      cases handled with
      | nil =>
        -- Without a handler the final block is there.
        have hone : (Slot.one [.blockStatement]).Holds final :=
          ⟨Nat.le_antisymm hfinal.holds.count (List.length_pos_iff.mpr (by simpa using hsome)),
            hfinal.holds.kinds⟩
        exact ⟨_, .tail _ (.head _), .append hbody (.after (.last ⟨hfinal.reading, hone⟩) hhandled.reading)⟩
      | cons node nodes =>
        exact ⟨_, .head _, .append hbody (.append
          ⟨hhandled.reading, .several_of hhandled.holds (List.cons_ne_nil _ _)⟩ (.last hfinal))⟩
    obtain ⟨form, hform, hfills⟩ := hfills
    refine .pure ?_
    rw [List.append_nil]
    exact (hfills.after (.ofWord hword)).node hform hline hword (by decide) (by decide)

/-! ### Exits and changes of records -/

theorem meets_returnStatement (hword : token.isWord "return" = true)
    (hline : Starts line (token :: tokens)) : Meets depth (returnStatement sub line) (token :: tokens)
      fun node read _ => Yields (.one Kind.statements) [node] read := by
  refine .advance ?_
  refine .bind (meets_expressionUnless sound _) fun value first _ _ hvalue => ?_
  refine .expect fun semicolon _ hsemicolon => .pure ?_
  exact ((Fills.last (hvalue.before (.ofSymbol hsemicolon rfl))).after (.ofWord hword)).node (.head _) hline
    hword (by decide) (by decide)

theorem meets_throwStatement (hword : token.isWord "throw" = true)
    (hline : Starts line (token :: tokens)) : Meets depth (throwStatement sub line) (token :: tokens)
      fun node read _ => Yields (.one Kind.statements) [node] read := by
  refine .advance ?_
  refine .bind (sound.expression _) fun value first _ _ hvalue => ?_
  refine .expect fun semicolon _ hsemicolon => .pure ?_
  exact ((Fills.last (hvalue.before (.ofSymbol hsemicolon rfl))).after (.ofWord hword)).node (.head _) hline
    hword (by decide) (by decide)

omit sound in
theorem meets_wordStatement {kind : Kind} {word : String} (hword : token.isWord word = true)
    (hline : Starts line (token :: tokens)) (hkind : kind.word? = some word) (hform : [] ∈ kind.forms)
    (hstatement : kind ∈ Kind.statements) : Meets depth (wordStatement kind line) (token :: tokens)
      fun node read _ => Yields (.one Kind.statements) [node] read := by
  refine .advance ?_
  refine .expect fun semicolon _ hsemicolon => .pure ?_
  refine (Fills.nil ((Reading.ofWord hword).after (.ofSymbol hsemicolon rfl))).node hform hline
    (.of_some hkind hword) hstatement ?_
  rintro rfl
  cases hkind

theorem meets_runAsStatement {dot method : Token} (hword : token.isWord "system" = true)
    (hdot : dot.isSymbol .dot = true) (hmethod : method.isWord "runas" = true)
    (hline : Starts line (token :: dot :: method :: tokens)) :
    Meets depth (runAsStatement sub line) (token :: dot :: method :: tokens) fun node read _ =>
      Yields (.one Kind.statements) [node] read := by
  refine .skip [token, dot, method] ?_
  refine .bind (meets_arguments sound) fun items first _ _ hitems => ?_
  refine .map ((meets_block sound).mono fun body second _ _ hbody => ?_)
  have hfront : Reading [token, dot, method] [] :=
    (Reading.ofWord hword).after ((Reading.ofSymbol hdot rfl).after (.ofWord hmethod))
  exact ((Fills.append hitems (.last hbody)).after hfront).node (.head _) hline trivial (by decide)
    (by decide)

omit sound in
theorem meets_accessMode : Meets depth accessMode tokens fun _ read _ => Reading read [] := by
  refine .ifPair ?_ (.pure .nil)
  rintro word mode rest rfl hword hmode
  refine (meets_skip [word, mode]).mono ?_
  rintro _ _ _ - ⟨rfl, -⟩
  have hmode : mode.isIdent = true :=
    (Bool.or_eq_true_iff.mp hmode).elim Token.isIdent_of_isWord Token.isIdent_of_isWord
  exact (Reading.ofWord hword).after (.ofIdent hmode)

theorem meets_dmlStatement {kind : Kind} {word : String} (hkind : (word, kind) ∈ dmlWords)
    (hword : token.isWord word = true) (hline : Starts line (token :: tokens)) :
    Meets depth (dmlStatement sub kind line) (token :: tokens) fun node read _ =>
      Yields (.one Kind.statements) [node] read := by
  refine .advance ?_
  refine .bind meets_accessMode fun _ mode _ _ hmode => ?_
  refine .bind (sound.expression _) fun target first _ _ htarget => ?_
  refine .bind (meets_expressionUnless sound _) fun second more _ _ hsecond => ?_
  refine .expect fun semicolon _ hsemicolon => .pure ?_
  have hfills : Fills [.one Kind.expressions, .optional Kind.expressions] ([target] ++ second)
      ([token] ++ (mode ++ (first ++ (more ++ [semicolon])))) :=
    .after (.after (.append htarget (.last (hsecond.before (.ofSymbol hsemicolon rfl)))) hmode)
      (.ofWord hword)
  have hwords : ∀ entry ∈ dmlWords, [.one Kind.expressions, .optional Kind.expressions] ∈ entry.2.forms ∧
      entry.2.word? = some entry.1 ∧ entry.2 ∈ Kind.statements ∧
      entry.2 ≠ .fieldDeclarationStatements := by decide
  obtain ⟨hform, hopens, hstatement, hlone⟩ := hwords (word, kind) hkind
  exact hfills.node hform hline (.of_some hopens hword) hstatement hlone

/-! ### Statements -/

theorem meets_openedStatement {found : Opening} (hat : found.At tokens) (hline : Starts line tokens) :
    Meets depth (openedStatement sub line found) tokens fun node read _ =>
      Yields (.one Kind.statements) [node] read := by
  cases hat with
  | switch hword hnext => exact meets_switchStatement sound hword hnext hline
  | runAs hword hdot hmethod => exact meets_runAsStatement sound hword hdot hmethod hline
  | dml hkind hword => exact meets_dmlStatement sound hkind hword hline
  | word hfound hword =>
    simp only [openingWords, List.mem_cons, List.not_mem_nil, or_false, Prod.mk.injEq] at hfound
    rcases hfound with ⟨rfl, rfl⟩ | ⟨rfl, rfl⟩ | ⟨rfl, rfl⟩ | ⟨rfl, rfl⟩ | ⟨rfl, rfl⟩ | ⟨rfl, rfl⟩ |
      ⟨rfl, rfl⟩ | ⟨rfl, rfl⟩ | ⟨rfl, rfl⟩
    · exact meets_ifStatement sound hword hline
    · exact meets_forStatement sound hword hline
    · exact meets_whileStatement sound hword hline
    · exact meets_doStatement sound hword hline
    · exact meets_tryStatement sound hword hline
    · exact meets_returnStatement sound hword hline
    · exact meets_throwStatement sound hword hline
    · exact meets_wordStatement hword hline rfl (.head _) (by decide)
    · exact meets_wordStatement hword hline rfl (.head _) (by decide)

theorem meets_plainStatement (hline : tokens ≠ [] → Starts line tokens) :
    Meets depth (plainStatement sub line) tokens fun node read _ =>
      Yields (.one Kind.statements) [node] read := by
  refine .bind (meets_localDeclaration? sound hline) ?_
  rintro (_ | declaration) read rest rfl h
  · obtain ⟨rfl, -⟩ := h
    refine .bind (sound.expression _) fun value first _ htokens hvalue => ?_
    refine .expect fun semicolon _ hsemicolon => .pure ?_
    have hstarts : Starts line first := .of_noted (htokens ▸ hline) hvalue.ne_nil
    exact (Fills.last (hvalue.before (.ofSymbol hsemicolon rfl))).node (.head _) (hstarts.append _) trivial
      (by decide) (by decide)
  · refine .expect fun semicolon _ hsemicolon => .pure ?_
    exact (h.before (.ofSymbol hsemicolon rfl)).widen (by decide)

theorem meets_statement : Meets depth (statement sub) tokens fun node? read _ =>
    read ≠ [] ∧ Yields (.optional Kind.statements) node?.toList read := by
  have hsome {read : List Token} {node : Node} (h : Yields (.one Kind.statements) [node] read) :
      read ≠ [] ∧ Yields (.optional Kind.statements) (some node).toList read :=
    ⟨h.ne_nil, h.optional⟩
  refine .line fun line hline => .bind meets_atEnd ?_
  rintro _ _ tokens rfl ⟨rfl, -, rfl⟩
  split
  case isTrue => exact .complain rfl
  case isFalse hmore =>
    -- A lone semicolon, a block, a statement with a word of its own in front, and all others.
    refine .ifEat ?_ (.ifAhead ?_ (.get fun cursor hrest => ?_))
    · rintro semicolon rest rfl hsemicolon
      exact .pure ⟨by simp, .ofSymbol hsemicolon rfl, .optional_nil⟩
    · rintro brace rest rfl -
      exact .map ((meets_block sound).mono fun _ _ _ _ h => hsome (h.widen (by decide)))
    · have hline : Starts line tokens := hline (by simpa using hmore)
      split
      case h_1 found hfound =>
        have hat : found.At tokens := hrest ▸ at_of_opening? hfound
        exact .map ((meets_openedStatement sound hat hline).mono fun _ _ _ _ h => hsome h)
      case h_2 => exact .map ((meets_plainStatement sound fun _ => hline).mono fun _ _ _ _ h => hsome h)

end

end Exemplar.Code.Grammar
