import Exemplar.Code.Parser
import Exemplar.Proofs.Code.Alike

/-!
# The grammar and places

No production looks at where tokens stand: each one agrees with itself wherever tokens are alike, if the constructs
that it nests do. Only shifts look at more than single tokens, and what they look at is the same: whether closing
angle brackets touch.
-/

namespace Exemplar.Code

open Parse

/-- Readers of nested constructs that do not look at places. -/
structure Nested.Blind (sub : Nested) : Prop where
  statement : Parse.Blind sub.statement
  member : Parse.Blind sub.member
  expression : Parse.Blind sub.expression
  operand : Parse.Blind sub.operand
  typeRef : Parse.Blind sub.typeRef

namespace Grammar

variable {sub : Nested} {line : Nat} {mods inner : Node} {name : Token}

/-! ### Modifiers and types -/

theorem blind_parameterName : Blind parameterName :=
  .bind (blind_aheadPair (fun | _, _, .intro => rfl) fun | _, _, .intro => rfl) fun _ => .ite (blind_skip 2) .pure

theorem blind_annotationParameter : Blind annotationParameter :=
  blind_eat.bind fun _ => .ite .pure (blind_line.bind fun _ => blind_parameterName.bind fun _ =>
    .token (agree_expectIf fun | _, _, .intro => rfl) (fun | _, _, .intro => rfl) fun _ => .pure)

theorem blind_annotationUse : Blind annotationUse :=
  blind_line.bind fun _ => blind_expect.bind fun _ => .token agree_expectIdent (fun | _, _, .intro => rfl) fun _ =>
    blind_eat.bind fun _ => .ite ((blind_collectTo blind_annotationParameter).bind fun _ => .pure) .pure

theorem blind_modifier? : Blind modifier? :=
  .bind blind_atSymbol fun _ => .ite (blind_annotationUse.bind fun _ => .pure) <|
    .bind (blind_eatIf fun | _, _, .intro => rfl) fun _ => .ite .pure <|
      .bind (blind_aheadPair (fun | _, _, .intro => rfl) fun | _, _, .intro => rfl) fun _ =>
        .ite ((blind_skip 2).bind fun _ => .pure) .pure

theorem blind_modifiers : Blind modifiers :=
  blind_line.bind fun _ => (blind_many blind_modifier?).bind fun _ => .pure

theorem blind_qualifiers : Blind qualifiers :=
  blind_skipPairs (fun | _, _, .intro => rfl) fun | _, _, .intro => rfl

theorem blind_typeList (hsub : sub.Blind) : Blind (typeList sub) :=
  (blind_separated hsub.typeRef).bind fun _ => .pure

theorem blind_typeArguments (hsub : sub.Blind) : Blind (typeArguments sub) :=
  blind_expect.bind fun _ => (blind_typeList hsub).bind fun _ => blind_expect

theorem blind_typeArguments? (hsub : sub.Blind) : Blind (typeArguments? sub) :=
  .bind blind_atSymbol fun _ => .ite ((blind_typeArguments hsub).bind fun _ => .pure) .pure

theorem blind_typeRef (hsub : sub.Blind) : Blind (typeRef sub) :=
  .token agree_expectIdent (fun | _, _, .intro => rfl) fun _ => blind_qualifiers.bind fun _ =>
    (blind_typeArguments? hsub).bind fun _ => blind_skipPairs (fun | _, _, .intro => rfl) fun | _, _, .intro => rfl

/-! ### Binary operators -/

/-- How many closing angle brackets touch is the same in rows that are alike, if the first ones touch what stands
before them in both or in neither. -/
theorem touchingBrackets_eq {tokens others : List Token} (h : AlikeRows tokens others) (limit : Nat) :
    ∀ {offset offset' : Nat}, (BeginsAt (offset + 1) tokens ↔ BeginsAt (offset' + 1) others) →
      touchingBrackets limit offset tokens = touchingBrackets limit offset' others := by
  induction limit generalizing tokens others with
  | zero => exact fun _ => rfl
  | succ limit ih =>
    intro offset offset' hbefore
    cases h with
    | nil => rfl
    | cons head touch tail =>
      obtain ⟨⟩ := head
      rw [beginsAt_cons_iff, beginsAt_cons_iff] at hbefore
      rw [touchingBrackets, touchingBrackets]
      simp only [Token.isSymbol, Bool.and_eq_true, beq_iff_eq, hbefore]
      split
      · next hgreater => rw [ih tail (touch hgreater.1)]
      · rfl

theorem binaryOperator?_eq {tokens others : List Token} (h : AlikeRows tokens others) :
    binaryOperator? tokens = binaryOperator? others := by
  cases h with
  | nil => rfl
  | cons head touch tail =>
    obtain @⟨kind⟩ := head
    refine ite_congr rfl (fun _ => rfl) fun _ => ?_
    cases kind with
    | ident | number | str => rfl
    | punct symbol =>
      by_cases hgreater : symbol = .greater
      case neg =>
        -- All other operators are written with one token.
        cases symbol <;> first | rfl | exact absurd rfl hgreater
      case pos =>
        subst hgreater
        have hmore := touchingBrackets_eq tail 2 (touch rfl)
        dsimp only [Token.symbol?] at hmore ⊢
        rw [hmore]

theorem blind_applyOperator (hsub : sub.Blind) {rhs : Nat → Parse Node} (hrhs : ∀ level, Blind (rhs level))
    (lhs : Node) (op : Operator) : Blind (applyOperator sub line rhs lhs op) :=
  (blind_skip op.width).bind fun _ => .ite (hsub.typeRef.bind fun _ => .pure)
    ((hrhs (op.level + 1)).bind fun _ => .pure)

theorem blind_extendBinary (hsub : sub.Blind) {level : Nat} {rhs : Nat → Parse Node}
    (hrhs : ∀ level, Blind (rhs level)) (lhs : Node) : Blind (extendBinary sub line level rhs lhs) := by
  refine .look (fun cursor => binaryOperator? cursor.rest) (fun _ _ h => binaryOperator?_eq h.rest)
    (fun op? => op?.elim (Pure.pure none) fun op =>
      if op.level < level then Pure.pure none else some <$> applyOperator sub line rhs lhs op)
    (fun cursor => ?_) fun op? => ?_
  · rw [extendBinary, get_bind_apply]
    cases binaryOperator? cursor.rest <;> rfl
  · cases op? with
    | none => exact .pure
    | some op => exact .ite .pure (.map (blind_applyOperator hsub hrhs lhs op))

theorem blind_climb (hsub : sub.Blind) {operand : Parse Node} (hoperand : Blind operand) (gap : Nat) :
    ∀ level, Blind (climb sub operand gap level) := by
  induction gap with
  | zero => exact fun _ => hoperand
  | succ gap ih =>
    exact fun level => blind_line.bind fun _ => hoperand.bind fun lhs =>
      blind_grow (blind_extendBinary hsub ih) lhs

theorem blind_binary (hsub : sub.Blind) {operand : Parse Node} (hoperand : Blind operand) (level : Nat) :
    Blind (binary sub operand level) :=
  blind_climb hsub hoperand _ level

/-! ### Primaries -/

theorem blind_arguments (hsub : sub.Blind) : Blind (arguments sub) :=
  blind_expect.bind fun _ => blind_eat.bind fun _ => .ite .pure <|
    (blind_separated hsub.expression).bind fun _ => blind_expect.bind fun _ => .pure

theorem blind_queryToken? (depth : Nat) : Blind (queryToken? depth) := by
  refine .token? agree_next? (fun | _, _, .intro => rfl) fun token? => ?_
  cases token? with
  | none => exact .complain
  | some token =>
    refine .ite .pure (.ite ?_ .pure)
    match depth with
    | 0 => exact .complain
    | 1 | _ + 2 => exact .pure

theorem blind_queryKind : Blind queryKind :=
  .bind (blind_ahead fun | _, _, .intro => rfl) fun _ => .ite .pure <|
    .bind (blind_ahead fun | _, _, .intro => rfl) fun _ => .ite .pure .complain

theorem blind_query : Blind (query line) :=
  blind_queryKind.bind fun _ => (blind_grow blind_queryToken? 0).bind fun _ => .pure

theorem blind_mapEntries (hsub : sub.Blind) : Blind (mapEntries sub) :=
  blind_enclosed (blind_line.bind fun _ => hsub.expression.bind fun _ => blind_expect.bind fun _ =>
    hsub.expression.bind fun _ => .pure)

theorem blind_literalItems (hsub : sub.Blind) : Blind (literalItems sub) :=
  blind_enclosed hsub.expression

theorem blind_arrayRest (hsub : sub.Blind) : Blind (arrayRest sub line) :=
  blind_eat.bind fun _ => .ite (.map (blind_literalItems hsub)) <|
    hsub.expression.bind fun _ => blind_expect.bind fun _ => .pure

theorem blind_collectionLiteral (hsub : sub.Blind) (collection : Option Collection) :
    Blind (collectionLiteral sub collection line) := by
  match collection with
  | some .map => exact .map (blind_mapEntries hsub)
  | some .set | some .list | none => exact .map (blind_literalItems hsub)

theorem blind_construction (hsub : sub.Blind) : Blind (construction sub line) :=
  blind_advance.bind fun _ => .token agree_expectIdent (fun | _, _, .intro => rfl) fun _ =>
    blind_qualifiers.bind fun _ => (blind_typeArguments? hsub).bind fun _ => blind_eat.bind fun _ => .ite (blind_arrayRest hsub) <|
      .bind blind_atSymbol fun _ => .ite (blind_collectionLiteral hsub _) (.map (blind_arguments hsub))

theorem blind_nameOrCall (hsub : sub.Blind) (name : Token) : Blind (nameOrCall sub line name) :=
  blind_advance.bind fun _ => .bind blind_atSymbol fun _ => .ite (.map (blind_arguments hsub)) .pure

theorem blind_parenthesised (hsub : sub.Blind) : Blind (parenthesised sub) :=
  blind_expect.bind fun _ => hsub.expression.bind fun _ => blind_expect.bind fun _ => .pure

theorem blind_literal : Blind (literal line) :=
  blind_advance.bind fun _ => .pure

theorem blind_primary (hsub : sub.Blind) : Blind (primary sub) := by
  refine blind_line.bind fun line => .token? agree_peek? (fun | _, _, .intro => rfl) fun token? => ?_
  cases token? with
  | none => exact .complain
  | some token =>
    dsimp only
    split
    · exact blind_literal
    · exact blind_literal
    · exact blind_parenthesised hsub
    · exact blind_query
    · exact .complain
    · exact .ite .complain <| .ite blind_literal <| .ite (blind_construction hsub) (blind_nameOrCall hsub token)

theorem blind_memberAccess (hsub : sub.Blind) : Blind (memberAccess sub line inner) :=
  .token agree_expectIdent (fun | _, _, .intro => rfl) fun _ => .ite .pure <| .bind blind_atSymbol fun _ =>
    .ite (.map (blind_arguments hsub)) .pure

theorem blind_element (hsub : sub.Blind) : Blind (element sub line inner) :=
  hsub.expression.bind fun _ => blind_expect.bind fun _ => .pure

theorem blind_extendPostfix (hsub : sub.Blind) (inner : Node) : Blind (extendPostfix sub line inner) :=
  .bind (blind_eatIf fun | _, _, .intro => rfl) fun _ => .ite (.map (blind_memberAccess hsub)) <|
    blind_eat.bind fun _ => .ite (.map (blind_element hsub)) <|
      .bind (blind_eatIf fun | _, _, .intro => rfl) fun _ => .ite .pure .pure

theorem blind_postfixed (hsub : sub.Blind) : Blind (postfixed sub) :=
  blind_line.bind fun _ => (blind_primary hsub).bind fun inner => blind_grow (blind_extendPostfix hsub) inner

/-! ### Operands and expressions -/

theorem blind_castType (hsub : sub.Blind) : Blind (castType sub) :=
  blind_expect.bind fun _ => hsub.typeRef.bind fun _ => blind_expect.bind fun _ => blind_ahead fun | _, _, .intro => rfl

theorem blind_operand (hsub : sub.Blind) : Blind (operand sub) :=
  blind_line.bind fun _ => .bind (blind_eatIf fun | _, _, .intro => rfl) fun _ => .ite (.map hsub.operand) <|
    blind_jump (blind_castType hsub) (.map hsub.operand) (blind_postfixed hsub)

theorem blind_ternary (hsub : sub.Blind) : Blind (ternary sub) :=
  blind_line.bind fun _ => (blind_binary hsub (blind_operand hsub) 0).bind fun _ => blind_eat.bind fun _ =>
    .ite (hsub.expression.bind fun _ => blind_expect.bind fun _ => hsub.expression.bind fun _ => .pure) .pure

theorem blind_expression (hsub : sub.Blind) : Blind (expression sub) :=
  blind_line.bind fun _ => (blind_ternary hsub).bind fun _ => .bind (blind_eatIf fun | _, _, .intro => rfl) fun _ =>
    .ite (.map hsub.expression) .pure

/-! ### Parts of statements -/

/-- What opens a statement shows in the first tokens, wherever they stand. -/
theorem opening?_eq {cursor other : Cursor} (h : cursor.Alike other) : opening? cursor = opening? other := by
  have hword (word : String) (n : Nat) : cursor.ahead n (·.isWord word) = other.ahead n (·.isWord word) :=
    h.ahead (by rintro _ _ ⟨⟩; rfl) n
  have hdot : cursor.ahead 1 (·.isSymbol .dot) = other.ahead 1 (·.isSymbol .dot) :=
    h.ahead (by rintro _ _ ⟨⟩; rfl) 1
  have hoperand : (cursor.ahead 1 fun token => token.symbol?.all (· == .openBracket)) =
      other.ahead 1 fun token => token.symbol?.all (· == .openBracket) :=
    h.ahead (by rintro _ _ ⟨⟩; rfl) 1
  simp only [opening?, dmlOpening?, hword, hdot, hoperand]

theorem blind_block (hsub : sub.Blind) : Blind (block sub) :=
  blind_line.bind fun _ => blind_expect.bind fun _ => (blind_collectUntil hsub.statement).bind fun _ => .pure

theorem blind_condition (hsub : sub.Blind) : Blind (condition sub) :=
  blind_line.bind fun _ => blind_expect.bind fun _ => hsub.expression.bind fun _ => blind_expect.bind fun _ => .pure

theorem blind_initialValue (hsub : sub.Blind) : Blind (initialValue sub) :=
  blind_eat.bind fun _ => .ite (.map hsub.expression) .pure

theorem blind_expressionUnless (hsub : sub.Blind) {symbol : Symbol} : Blind (expressionUnless sub symbol) :=
  .bind blind_atSymbol fun _ => .ite .pure (.map hsub.expression)

theorem blind_declaredName (hsub : sub.Blind) : Blind (declaredName sub) :=
  .token agree_expectIdent (fun | _, _, .intro => rfl) fun _ => .map (blind_initialValue hsub)

theorem blind_typeAhead (hsub : sub.Blind) {test : Token → Bool} (htest : Placeless test) :
    Blind (typeAhead sub test) :=
  hsub.typeRef.bind fun _ => blind_aheadPair (fun | _, _, .intro => rfl) htest

theorem blind_typeThenName (hsub : sub.Blind) {test : Token → Bool} (htest : Placeless test) :
    Blind (typeThenName sub test) :=
  blind_speculate (blind_typeAhead hsub htest)

theorem blind_localType (hsub : sub.Blind) : Blind (localType sub) :=
  blind_eatWord.bind fun _ => blind_typeThenName hsub fun | _, _, .intro => rfl

theorem blind_localDeclaration? (hsub : sub.Blind) : Blind (localDeclaration? sub line) :=
  (blind_speculate (blind_localType hsub)).bind fun _ =>
    .ite ((blind_separated (blind_declaredName hsub)).bind fun _ => .pure) .pure

/-! ### Statements -/

theorem blind_branch (hsub : sub.Blind) : Blind (branch sub line) :=
  blind_advance.bind fun _ => (blind_condition hsub).bind fun _ => hsub.statement.bind fun _ => .pure

theorem blind_alternative? (hsub : sub.Blind) : Blind (alternative? sub) :=
  blind_eatWord.bind fun _ => .ite
    (.bind blind_atWord fun _ => .ite (blind_line.bind fun _ => .map (blind_branch hsub)) (.map hsub.statement)) .pure

theorem blind_ifStatement (hsub : sub.Blind) : Blind (ifStatement sub line) :=
  (blind_branch hsub).bind fun _ => .map (.map (blind_collect (blind_alternative? hsub)))

theorem blind_forEach (hsub : sub.Blind) : Blind (forEach sub line) :=
  blind_line.bind fun _ => (blind_skip 2).bind fun _ => hsub.expression.bind fun _ => blind_expect.bind fun _ =>
    hsub.statement.bind fun _ => .pure

theorem blind_forInitial (hsub : sub.Blind) : Blind (forInitial sub) := by
  refine blind_line.bind fun _ => (blind_localDeclaration? hsub).bind fun declaration? => ?_
  cases declaration? with
  | none => exact blind_separated hsub.expression
  | some declaration => exact .pure

theorem blind_forStart (hsub : sub.Blind) : Blind (forStart sub) :=
  blind_eat.bind fun _ => .ite .pure <| (blind_forInitial hsub).bind fun _ => blind_expect.bind fun _ => .pure

theorem blind_forCondition (hsub : sub.Blind) : Blind (forCondition sub) :=
  .bind blind_atSymbol fun _ => .ite .pure <| blind_line.bind fun _ => .map hsub.expression

theorem blind_forUpdates (hsub : sub.Blind) : Blind (forUpdates sub) :=
  blind_collect <| .bind blind_atSymbol fun _ => .ite .pure <|
    hsub.expression.bind fun _ => blind_eat.bind fun _ => .ite .pure .pure

theorem blind_forLoop (hsub : sub.Blind) : Blind (forLoop sub line) :=
  (blind_forStart hsub).bind fun _ => (blind_forCondition hsub).bind fun _ => blind_expect.bind fun _ =>
    (blind_forUpdates hsub).bind fun _ => blind_expect.bind fun _ => hsub.statement.bind fun _ => .pure

theorem blind_forStatement (hsub : sub.Blind) : Blind (forStatement sub line) :=
  blind_advance.bind fun _ => blind_expect.bind fun _ =>
    (blind_typeThenName hsub fun | _, _, .intro => rfl).bind fun _ => .ite (blind_forEach hsub) (blind_forLoop hsub)

theorem blind_whileStatement (hsub : sub.Blind) : Blind (whileStatement sub line) :=
  blind_advance.bind fun _ => (blind_condition hsub).bind fun _ => hsub.statement.bind fun _ => .pure

theorem blind_doStatement (hsub : sub.Blind) : Blind (doStatement sub line) :=
  blind_advance.bind fun _ => hsub.statement.bind fun _ => blind_expectWord.bind fun _ =>
    (blind_condition hsub).bind fun _ => blind_expect.bind fun _ => .pure

theorem blind_caseValue : Blind caseValue := by
  refine blind_line.bind fun _ => blind_eat.bind fun _ =>
    .token? agree_next? (fun | _, _, .intro => rfl) fun token? => ?_
  cases token? with
  | none => exact .complain
  | some token =>
    dsimp only
    split
    · exact .complain
    · exact .pure

theorem blind_whenBlock (hsub : sub.Blind) : Blind (whenBlock sub) :=
  blind_line.bind fun _ => blind_expectWord.bind fun _ => blind_eatWord.bind fun _ =>
    .ite (.map (blind_block hsub)) <| (blind_typeThenName hsub fun | _, _, .intro => rfl).bind fun _ =>
      .ite (blind_advance.bind fun _ => .map (blind_block hsub))
        ((blind_separated blind_caseValue).bind fun _ => .map (blind_block hsub))

theorem blind_switchStatement (hsub : sub.Blind) : Blind (switchStatement sub line) :=
  (blind_skip 2).bind fun _ => hsub.expression.bind fun _ => blind_expect.bind fun _ =>
    (blind_collectTo (blind_whenBlock hsub)).bind fun _ => .pure

theorem blind_catchBlock (hsub : sub.Blind) : Blind (catchBlock sub line) :=
  blind_advance.bind fun _ => blind_expect.bind fun _ => blind_modifiers.bind fun _ => hsub.typeRef.bind fun _ =>
    .token agree_expectIdent (fun | _, _, .intro => rfl) fun _ => blind_expect.bind fun _ => .map (blind_block hsub)

theorem blind_handlers (hsub : sub.Blind) : Blind (handlers sub) :=
  blind_many <| .bind blind_atWord fun _ => .ite (blind_line.bind fun _ => .map (blind_catchBlock hsub)) .pure

theorem blind_cleanup (hsub : sub.Blind) : Blind (cleanup sub) :=
  blind_eatWord.bind fun _ => .ite (.map (blind_block hsub)) .pure

theorem blind_tryStatement (hsub : sub.Blind) : Blind (tryStatement sub line) :=
  blind_advance.bind fun _ => (blind_block hsub).bind fun _ => (blind_handlers hsub).bind fun _ =>
    (blind_cleanup hsub).bind fun _ => .ite .complain .pure

theorem blind_returnStatement (hsub : sub.Blind) : Blind (returnStatement sub line) :=
  blind_advance.bind fun _ => (blind_expressionUnless hsub).bind fun _ => blind_expect.bind fun _ => .pure

theorem blind_throwStatement (hsub : sub.Blind) : Blind (throwStatement sub line) :=
  blind_advance.bind fun _ => hsub.expression.bind fun _ => blind_expect.bind fun _ => .pure

theorem blind_wordStatement {kind : Kind} : Blind (wordStatement kind line) :=
  blind_advance.bind fun _ => blind_expect.bind fun _ => .pure

theorem blind_runAsStatement (hsub : sub.Blind) : Blind (runAsStatement sub line) :=
  (blind_skip 3).bind fun _ => (blind_arguments hsub).bind fun _ => .map (blind_block hsub)

theorem blind_accessMode : Blind accessMode :=
  .bind (blind_aheadPair (fun | _, _, .intro => rfl) fun | _, _, .intro => rfl) fun _ => .ite (blind_skip 2) .pure

theorem blind_dmlStatement (hsub : sub.Blind) {kind : Kind} : Blind (dmlStatement sub kind line) :=
  blind_advance.bind fun _ => blind_accessMode.bind fun _ => hsub.expression.bind fun _ =>
    (blind_expressionUnless hsub).bind fun _ => blind_expect.bind fun _ => .pure

theorem blind_openedStatement (hsub : sub.Blind) (opening : Opening) :
    Blind (openedStatement sub line opening) := by
  cases opening with
  | ifElse => exact blind_ifStatement hsub
  | forLoop => exact blind_forStatement hsub
  | whileLoop => exact blind_whileStatement hsub
  | doLoop => exact blind_doStatement hsub
  | switch => exact blind_switchStatement hsub
  | tryCatch => exact blind_tryStatement hsub
  | returnValue => exact blind_returnStatement hsub
  | throwValue => exact blind_throwStatement hsub
  | breakLoop | continueLoop => exact blind_wordStatement
  | runAs => exact blind_runAsStatement hsub
  | dml kind => exact blind_dmlStatement hsub

theorem blind_plainStatement (hsub : sub.Blind) : Blind (plainStatement sub line) := by
  refine (blind_localDeclaration? hsub).bind fun declaration? => ?_
  cases declaration? with
  | some declaration => exact blind_expect.bind fun _ => .pure
  | none => exact hsub.expression.bind fun _ => blind_expect.bind fun _ => .pure

theorem blind_statement (hsub : sub.Blind) : Blind (statement sub) := by
  refine blind_line.bind fun line => blind_atEnd.bind fun _ => .ite .complain <| blind_eat.bind fun _ =>
    .ite .pure <| .bind blind_atSymbol fun _ => .ite (.map (blind_block hsub)) ?_
  refine .look opening? (fun _ _ => opening?_eq)
    (fun opening? => opening?.elim (some <$> plainStatement sub line) fun opening =>
      some <$> openedStatement sub line opening) (fun cursor => ?_) fun opening? => ?_
  · rw [get_bind_apply]
    cases opening? cursor <;> rfl
  · cases opening? with
    | some opening => exact .map (blind_openedStatement hsub opening)
    | none => exact .map (blind_plainStatement hsub)

/-! ### Members -/

theorem blind_parameter? (hsub : sub.Blind) : Blind (parameter? sub) :=
  blind_eat.bind fun _ => .ite .pure <| blind_line.bind fun _ => blind_modifiers.bind fun _ =>
    hsub.typeRef.bind fun _ => .token agree_expectIdent (fun | _, _, .intro => rfl) fun _ => .pure

theorem blind_body (hsub : sub.Blind) : Blind (body sub) :=
  blind_eat.bind fun _ => .ite .pure (.map (blind_block hsub))

theorem blind_methodRest (hsub : sub.Blind) : Blind (methodRest sub line mods) :=
  blind_expect.bind fun _ => (blind_collectUntil (blind_parameter? hsub)).bind fun _ => .map (blind_body hsub)

theorem blind_accessor (hsub : sub.Blind) : Blind (accessor sub) :=
  blind_modifiers.bind fun _ => .token (agree_expectIf fun | _, _, .intro => rfl) (fun | _, _, .intro => rfl) fun _ =>
    blind_body hsub

theorem blind_propertyRest (hsub : sub.Blind) : Blind (propertyRest sub line mods) :=
  blind_expect.bind fun _ => (blind_collectUntil (blind_accessor hsub)).bind fun _ => .pure

theorem blind_fieldValue (hsub : sub.Blind) (name : Token) : Blind (fieldValue sub name) :=
  .map (blind_initialValue hsub)

theorem blind_furtherFields (hsub : sub.Blind) : Blind (furtherFields sub) :=
  blind_many <| blind_eat.bind fun _ =>
    .ite (.token agree_expectIdent (fun | _, _, .intro => rfl) fun name => .map (blind_fieldValue hsub name)) .pure

theorem blind_fieldRest (hsub : sub.Blind) (name : Token) : Blind (fieldRest sub line mods name) :=
  (blind_fieldValue hsub name).bind fun _ => (blind_furtherFields hsub).bind fun _ =>
    blind_expect.bind fun _ => .pure

theorem blind_enumItem : Blind enumItem :=
  .bind (blind_eatIf fun | _, _, .intro => rfl) fun _ => .ite .pure <|
    .token agree_expectIdent (fun | _, _, .intro => rfl) fun _ => .pure

theorem blind_typeWord : Blind typeWord :=
  blind_eatWord.bind fun _ => .ite .pure <| blind_eatWord.bind fun _ => .ite .pure <|
    blind_eatWord.bind fun _ => .ite .pure .complain

theorem blind_typesAfter (hsub : sub.Blind) {word : String} : Blind (typesAfter sub word) :=
  blind_eatWord.bind fun _ => .ite (blind_typeList hsub) .pure

theorem blind_enumRest : Blind (enumRest line mods) :=
  blind_expect.bind fun _ => (blind_collectUntil blind_enumItem).bind fun _ => .pure

theorem blind_classRest (hsub : sub.Blind) {kind : Kind} : Blind (classRest sub kind line mods) :=
  (blind_typesAfter hsub).bind fun _ => (blind_typesAfter hsub).bind fun _ => blind_expect.bind fun _ =>
    (blind_collectUntil hsub.member).bind fun _ => .pure

theorem blind_typeBody (hsub : sub.Blind) : Blind (typeBody sub mods) :=
  blind_line.bind fun _ => blind_typeWord.bind fun _ => .token agree_expectIdent (fun | _, _, .intro => rfl) fun _ =>
    .ite blind_enumRest (blind_classRest hsub)

theorem blind_typedMember (hsub : sub.Blind) : Blind (typedMember sub line mods) :=
  hsub.typeRef.bind fun _ => .token agree_expectIdent (fun | _, _, .intro => rfl) fun name =>
    .bind blind_atSymbol fun _ => .ite (.map (blind_methodRest hsub)) <|
      .bind blind_atSymbol fun _ => .ite (.map (blind_propertyRest hsub)) (blind_fieldRest hsub name)

theorem blind_member (hsub : sub.Blind) : Blind (member sub) :=
  blind_eat.bind fun _ => .ite .pure <| blind_modifiers.bind fun _ => blind_line.bind fun _ =>
    .bind (blind_ahead fun | _, _, .intro => rfl) fun _ => .ite (.map (blind_typeBody hsub)) <|
      .bind blind_atSymbol fun _ => .ite (.map (blind_block hsub)) <|
        .bind (blind_aheadPair (fun | _, _, .intro => rfl) fun | _, _, .intro => rfl) fun _ =>
          .ite (blind_advance.bind fun _ => .map (blind_methodRest hsub)) (blind_typedMember hsub)

/-! ### Triggers and top-level types -/

theorem blind_triggerEvent : Blind triggerEvent := by
  refine .token? agree_next? (fun | _, _, .intro => rfl) fun token? => ?_
  cases token? with
  | none => exact .complain
  | some token => exact .ite .pure .complain

theorem blind_trigger (hsub : sub.Blind) : Blind (trigger sub) :=
  blind_line.bind fun _ => blind_advance.bind fun _ => .token agree_expectIdent (fun | _, _, .intro => rfl) fun _ =>
    blind_expectWord.bind fun _ => .token agree_expectIdent (fun | _, _, .intro => rfl) fun _ =>
      blind_expect.bind fun _ => (blind_collectTo blind_triggerEvent).bind fun _ => .map (blind_block hsub)

theorem blind_typeDeclaration (hsub : sub.Blind) : Blind (typeDeclaration sub) :=
  .bind (blind_aheadPair (fun | _, _, .intro => rfl) fun | _, _, .intro => rfl) fun _ =>
    .ite (blind_trigger hsub) (blind_modifiers.bind fun _ => blind_typeBody hsub)

end Grammar

/-! ### Whole sources -/

namespace Nested

theorem Blind.around {sub : Nested} (hsub : sub.Blind) : sub.around.Blind where
  statement := blind_nested (Grammar.blind_statement hsub)
  member := blind_nested (Grammar.blind_member hsub)
  expression := blind_nested (Grammar.blind_expression hsub)
  operand := blind_nested (Grammar.blind_operand hsub)
  typeRef := blind_nested (Grammar.blind_typeRef hsub)

theorem blind_level (n : Nat) : (level n).Blind := by
  induction n with
  | zero => exact ⟨.complain, .complain, .complain, .complain, .complain⟩
  | succ n ih => exact ih.around

end Nested

namespace Entry

theorem blind_item {sub : Nested} (hsub : sub.Blind) (entry : Entry) : Blind (entry.item sub) := by
  cases entry with
  | typeDeclarations => exact blind_eat.bind fun _ => .ite .pure (.map (Grammar.blind_typeDeclaration hsub))
  | statements => exact .map hsub.statement
  | members => exact hsub.member

theorem blind_read {sub : Nested} (hsub : sub.Blind) (entry : Entry) : Blind (entry.read sub) :=
  (blind_many (blind_atEnd.bind fun _ => .ite .pure (.map (blind_item hsub entry)))).bind fun _ => .pure

end Entry

namespace SyntaxError.Alike

variable {e e' later later' : SyntaxError}

theorem message_eq (h : e.Alike e') : e.message = e'.message := by
  obtain ⟨complaint, found?, line, pos⟩ := e
  obtain ⟨complaint', found?', line', pos'⟩ := e'
  obtain ⟨rfl, hfound, rfl, -⟩ := h
  cases found? with
  | none =>
    obtain rfl := Option.map_eq_none_iff.mp hfound.symm
    rfl
  | some token =>
    obtain ⟨token', rfl, htext⟩ := Option.map_eq_some_iff.mp hfound.symm
    simp only [SyntaxError.message, htext]

theorem further (h : e.Alike e') (hlater : later.Alike later') : (e.further later).Alike (e'.further later') := by
  unfold SyntaxError.further
  rw [h.pos, hlater.pos]
  split
  · exact hlater
  · exact h

end SyntaxError.Alike

/-- Answers that say the same: with the same nodes, or with the same complaint. -/
inductive AlikeAnswers : Except SyntaxError (List Node) → Except SyntaxError (List Node) → Prop
  | ok {nodes : List Node} : AlikeAnswers (.ok nodes) (.ok nodes)
  | error {e e' : SyntaxError} (h : e.Alike e') : AlikeAnswers (.error e) (.error e')

variable {tokens others : List Token}

theorem readAs_alike (h : AlikeRows tokens others) (entry : Entry) :
    AlikeAnswers (readAs entry tokens) (readAs entry others) := by
  have hends := Entry.blind_read (Nested.blind_level (maxDepth + 1)) entry (Cursor.Alike.ofTokens h)
  revert hends
  unfold readAs Entry.run
  rcases entry.read (.level (maxDepth + 1)) (.ofTokens tokens) with ⟨e | nodes, stop⟩ <;>
    rcases entry.read (.level (maxDepth + 1)) (.ofTokens others) with ⟨e' | nodes', stop'⟩
  · exact fun ⟨he, _⟩ => .error he
  · exact False.elim
  · exact False.elim
  · rintro ⟨rfl, -⟩
    exact .ok

/-- Tokens that are alike are read alike: the same entry wins, or the same complaint got furthest. -/
theorem readTokens_alike (h : AlikeRows tokens others) : AlikeAnswers (readTokens tokens) (readTokens others) := by
  have htypes := readAs_alike h .typeDeclarations
  have hstatements := readAs_alike h .statements
  have hmembers := readAs_alike h .members
  unfold readTokens
  generalize readAs .typeDeclarations tokens = asTypes, readAs .typeDeclarations others = asTypes' at htypes ⊢
  generalize readAs .statements tokens = asStatements, readAs .statements others = asStatements' at hstatements ⊢
  generalize readAs .members tokens = asMembers, readAs .members others = asMembers' at hmembers ⊢
  cases htypes with
  | ok => exact .ok
  | error htypes =>
    cases hstatements with
    | ok => exact .ok
    | error hstatements =>
      cases hmembers with
      | ok => exact .ok
      | error hmembers => exact .error ((htypes.further hstatements).further hmembers)

/-- Sources with tokens that are alike have the same tree, or none for the same reason. -/
theorem reader_eq_of_alike {source other : String} (hsource : tokenize source = .ok tokens)
    (hother : tokenize other = .ok others) (h : AlikeRows tokens others) : reader source = reader other := by
  unfold reader parse
  rw [hsource, hother]
  cases h with
  | nil => rfl
  | @cons token other tokens others head touch tail =>
    have hanswers := readTokens_alike (.cons head touch tail)
    dsimp only
    generalize readTokens (token :: tokens) = answer, readTokens (other :: others) = answer' at hanswers ⊢
    cases hanswers with
    | ok => rfl
    | error he => exact congrArg Outcome.unusable he.message_eq

end Exemplar.Code
