import Exemplar.Code.Parser
import Exemplar.Proofs.Code.Answer
import Exemplar.Proofs.Code.Chain
import Exemplar.Proofs.Code.Grammar.Expression

/-!
# The levels that a production adds

Each production adds a few levels to what the constructs nested in it have. Climbing adds one for each level of
operators, and the loops over what follows an operand add none: they put a node around what they have, and only what
stands beside that was nested.
-/

namespace Exemplar.Code

open Parse

/-- Readers of nested constructs that have no more than so many levels. -/
structure Nested.Within (sub : Nested) (bound : Nat) : Prop where
  statement : Gives sub.statement fun node? => Code.Within bound node?.toList
  member : Gives sub.member (Code.Within bound)
  expression : Gives sub.expression (·.levels ≤ bound)
  operand : Gives sub.operand (·.levels ≤ bound)

namespace Grammar

variable {sub : Nested} {bound line : Nat} {mods inner : Node} {name : Token}

/-! ### Modifiers -/

theorem gives_annotationParameter : Gives annotationParameter fun node? => Within 1 node?.toList :=
  .either (.pure .nil) <| .after fun _ => .after fun _ => .after fun _ => .pure (.singleton (Nat.le_refl 1))

theorem gives_annotationUse : Gives annotationUse (·.levels ≤ 2) :=
  .after fun _ => .after fun _ => .after fun _ => .either
    (.map ((Gives.collectTo gives_annotationParameter).mono fun _ h => (Within.present h).levels_le))
    (.pure Within.nil.levels_le)

theorem gives_modifier? : Gives modifier? fun found => found.elim True fun node? => Within 2 node?.toList :=
  .either (gives_annotationUse.bind fun _ h => .pure (.singleton h)) <|
    .either (.pure .nil) (.either (.after fun _ => .pure .nil) (.pure trivial))

theorem gives_modifiers : Gives modifiers (·.levels ≤ 3) :=
  .after fun _ => .map ((Gives.many gives_modifier?).mono fun _ h => (Within.present h).levels_le)

/-! ### Primaries -/

theorem gives_literal : Gives (literal line) (·.levels ≤ bound + 1) :=
  .after fun _ => .pure Within.nil.levels_le

theorem gives_query : Gives (query line) (·.levels ≤ bound + 1) :=
  .after fun _ => .after fun _ => .pure Within.nil.levels_le

section

variable (hsub : sub.Within bound)
include hsub

theorem gives_arguments : Gives (arguments sub) (Within bound) :=
  .after fun _ => .either (.pure .nil) ((Gives.separated hsub.expression).bind fun _ h => .after fun _ => .pure h)

theorem gives_mapEntries : Gives (mapEntries sub) (Within (bound + 1)) :=
  .enclosed <| .after fun _ => hsub.expression.bind fun _ hkey => .after fun _ =>
    hsub.expression.bind fun _ hvalue => .pure ((Within.singleton hvalue).cons hkey).levels_le

theorem gives_literalItems : Gives (literalItems sub) (Within bound) :=
  .enclosed hsub.expression

theorem gives_arrayRest : Gives (arrayRest sub line) (·.levels ≤ bound + 1) :=
  .either (.map ((gives_literalItems hsub).mono fun _ => Within.levels_le))
    (hsub.expression.bind fun _ h => .after fun _ => .pure (Within.singleton h).levels_le)

theorem gives_collectionLiteral (collection : Option Collection) :
    Gives (collectionLiteral sub collection line) (·.levels ≤ bound + 2) := by
  have hitems {kind : Kind} {nodes : List Node} (h : Within bound nodes) :
      (Node.mk kind line nodes).levels ≤ bound + 2 :=
    (h.mono (Nat.le_succ bound)).levels_le
  match collection with
  | some .map => exact .map ((gives_mapEntries hsub).mono fun _ => Within.levels_le)
  | some .set | some .list | none => exact .map ((gives_literalItems hsub).mono fun _ => hitems)

theorem gives_construction : Gives (construction sub line) (·.levels ≤ bound + 2) := by
  refine .after fun _ => .after fun name => .after fun _ => .after fun _ => .either ?_ (.either ?_ ?_)
  · exact (gives_arrayRest hsub).mono fun _ h => Nat.le_succ_of_le h
  · exact gives_collectionLiteral hsub _
  · exact .map ((gives_arguments hsub).mono fun _ h => Nat.le_succ_of_le h.levels_le)

theorem gives_nameOrCall : Gives (nameOrCall sub line name) (·.levels ≤ bound + 1) :=
  .after fun _ => .either (.map ((gives_arguments hsub).mono fun _ => Within.levels_le)) (.pure Within.nil.levels_le)

theorem gives_parenthesised : Gives (parenthesised sub) (·.levels ≤ bound) :=
  .after fun _ => hsub.expression.bind fun _ h => .after fun _ => .pure h

theorem gives_primary : Gives (primary sub) (·.levels ≤ bound + 2) := by
  refine .after fun line => .after fun token? => ?_
  cases token? with
  | none => exact .complain
  | some token =>
    dsimp only
    split
    · exact gives_literal
    · exact gives_literal
    · exact (gives_parenthesised hsub).mono fun _ h => Nat.le_add_right_of_le h
    · exact gives_query
    · exact .complain
    · refine .ite .complain (.ite gives_literal (.ite (gives_construction hsub) ?_))
      exact (gives_nameOrCall hsub).mono fun _ h => Nat.le_succ_of_le h

/-! ### What is put around an operand -/

/-- What is read from the tokens behind an operand adds no level to it. -/
theorem gives_memberAccess (hinner : inner.levels ≤ bound + 2) :
    Gives (memberAccess sub line inner) (·.levels ≤ bound + 2) := by
  have hlink {kind : Kind} {others : List Node} (hkind : kind ∈ linkKinds) (hothers : Within bound others) :
      (Node.mk kind line (inner :: others)).levels ≤ bound + 2 :=
    (hothers.mono (Nat.le_succ bound)).levels_link_le hkind hinner
  refine .after fun name => .ite (.pure ?_) (.either (.map ((gives_arguments hsub).mono fun _ => ?_)) (.pure ?_))
  · exact hlink (by decide) .nil
  · exact hlink (by decide)
  · exact hlink (by decide) .nil

theorem gives_element (hinner : inner.levels ≤ bound + 2) : Gives (element sub line inner) (·.levels ≤ bound + 2) :=
  hsub.expression.bind fun _ h => .after fun _ => .pure
    ((Within.singleton (Nat.le_succ_of_le h)).levels_link_le (by decide) hinner)

theorem gives_extendPostfix (hinner : inner.levels ≤ bound + 2) :
    Gives (extendPostfix sub line inner) fun larger? => larger?.elim True (·.levels ≤ bound + 2) :=
  .either (.map (gives_memberAccess hsub hinner)) <| .either (.map (gives_element hsub hinner)) <|
    .either (.pure (Within.nil.levels_link_le (by decide) hinner)) (.pure trivial)

theorem gives_postfixed : Gives (postfixed sub) (·.levels ≤ bound + 2) :=
  .after fun _ => (gives_primary hsub).bind fun _ h => .grow h fun _ => gives_extendPostfix hsub

/-- A prefix operator or a cast, around the operand behind it. -/
theorem gives_prefixed {kind : Kind} :
    Gives (sub.operand >>= fun node => pure (Node.mk kind line [node])) (·.levels ≤ bound + 2) :=
  .map (hsub.operand.mono fun _ h => Nat.le_succ_of_le (Within.singleton h).levels_le)

theorem gives_operand : Gives (operand sub) (·.levels ≤ bound + 2) :=
  .after fun _ => .either (gives_prefixed hsub) (.jump (gives_prefixed hsub) (gives_postfixed hsub))

/-! ### Binary operators -/

omit hsub in
theorem kind_mem_linkKinds {tokens : List Token} {op : Operator} (h : binaryOperator? tokens = some op) :
    op.kind ∈ linkKinds := by
  obtain ⟨-, -, -, -, -, -, hkind⟩ := exists_of_binaryOperator? h
  have hall : ∀ kind ∈ Kind.instanceOfExpression :: binaryKinds, kind ∈ linkKinds := by decide
  exact hall op.kind hkind

omit hsub in
/-- An operator adds a level to its right operand, but none to what it is put around. -/
theorem gives_extendBinary {level : Nat} {rhs : Nat → Parse Node} (hrhs : ∀ level, Gives (rhs level) (·.levels ≤ bound))
    {lhs : Node} (hlhs : lhs.levels ≤ bound + 1) :
    Gives (extendBinary sub line level rhs lhs) fun larger? => larger?.elim True (·.levels ≤ bound + 1) := by
  refine .after fun cursor => ?_
  split
  case h_1 => exact .pure trivial
  case h_2 op hop =>
    have hkind := kind_mem_linkKinds hop
    refine .ite (.pure trivial) (.map (.after fun _ => .ite (.after fun _ => .pure ?_) ?_))
    · exact Within.nil.levels_link_le hkind hlhs
    · exact .map ((hrhs _).mono fun _ h => (Within.singleton h).levels_link_le hkind hlhs)

theorem gives_climb (gap : Nat) : ∀ level, Gives (climb sub (operand sub) gap level) (·.levels ≤ bound + 2 + gap) := by
  -- Induction on the levels that bind tighter: what stands right of an operator is read at one of them.
  induction gap with
  | zero => exact fun _ => gives_operand hsub
  | succ gap ih =>
    intro level
    refine .after fun line => (gives_operand hsub).bind fun lhs hlhs => .grow ?_ fun _ => gives_extendBinary ih
    exact Nat.le_add_right_of_le hlhs

theorem gives_ternary : Gives (ternary sub) (·.levels ≤ bound + 14) := by
  refine .after fun line => (gives_climb hsub operandLevel 0).bind fun test htest => .either ?_ ?_
  · refine hsub.expression.bind fun first hfirst => .after fun _ => hsub.expression.bind fun second hsecond => .pure ?_
    have hfirst : first.levels ≤ bound + 13 := Nat.le_add_right_of_le hfirst
    have hsecond : second.levels ≤ bound + 13 := Nat.le_add_right_of_le hsecond
    exact (((Within.singleton hsecond).cons hfirst).cons htest).levels_le
  · exact .pure (Nat.le_succ_of_le htest)

/-- Two levels for the operand, one for each level of operators, one for the ternary and one for the assignment. -/
theorem gives_expression : Gives (expression sub) (·.levels ≤ bound + 15) := by
  refine .after fun line => (gives_ternary hsub).bind fun target htarget => .either ?_ ?_
  · refine .map (hsub.expression.mono fun value hvalue => ?_)
    have hvalue : value.levels ≤ bound + 14 := Nat.le_add_right_of_le hvalue
    exact ((Within.singleton hvalue).cons htarget).levels_le
  · exact .pure (Nat.le_succ_of_le htarget)

/-! ### Parts of statements -/

theorem gives_block : Gives (block sub) (·.levels ≤ bound + 1) :=
  .after fun _ => .after fun _ => .map ((Gives.collectUntil hsub.statement).mono fun _ h =>
    (Within.present h).levels_le)

theorem gives_condition : Gives (condition sub) (·.levels ≤ bound + 1) :=
  .after fun _ => .after fun _ => hsub.expression.bind fun _ h => .after fun _ =>
    .pure (Within.singleton h).levels_le

theorem gives_initialValue : Gives (initialValue sub) (Within bound) :=
  .either (.map (hsub.expression.mono fun _ => Within.singleton)) (.pure .nil)

theorem gives_expressionUnless {symbol : Symbol} : Gives (expressionUnless sub symbol) (Within bound) :=
  .either (.pure .nil) (.map (hsub.expression.mono fun _ => Within.singleton))

theorem gives_localDeclaration? :
    Gives (localDeclaration? sub line) fun declaration? => Within (bound + 2) declaration?.toList := by
  have hname : Gives (declaredName sub) (·.levels ≤ bound + 1) :=
    .after fun _ => .map ((gives_initialValue hsub).mono fun _ => Within.levels_le)
  exact .either (.map ((Gives.separated hname).mono fun _ h => .singleton (Within.levels_le h))) (.pure .nil)

/-! ### Statements -/

/-- A condition and the statement that depends on it. -/
theorem gives_conditional {kind : Kind} : Gives (condition sub >>= fun test => sub.statement >>= fun body =>
    pure (Node.mk kind line (test :: body.toList))) (·.levels ≤ bound + 2) :=
  (gives_condition hsub).bind fun _ htest => .map (hsub.statement.mono fun _ hbody =>
    ((hbody.mono (Nat.le_succ bound)).cons htest).levels_le)

theorem gives_branch : Gives (branch sub line) (·.levels ≤ bound + 2) :=
  .after fun _ => gives_conditional hsub

theorem gives_alternative? : Gives (alternative? sub) (Round.All (Within (bound + 2))) :=
  .either (.either (.after fun _ => .map ((gives_branch hsub).mono fun _ => Within.singleton))
    (.map (hsub.statement.mono fun _ h => h.mono (Nat.le_add_right bound 2)))) (.pure trivial)

theorem gives_ifStatement : Gives (ifStatement sub line) (·.levels ≤ bound + 3) :=
  (gives_branch hsub).bind fun _ hfirst => .map (.map ((Gives.collect (gives_alternative? hsub)).mono fun _ hmore =>
    ((Within.flatten hmore).cons hfirst).levels_le))

theorem gives_forEach : Gives (forEach sub line) (·.levels ≤ bound + 2) := by
  refine .after fun _ => .after fun _ => hsub.expression.bind fun collection hcollection => .after fun _ =>
    .map (hsub.statement.mono fun body hbody => ?_)
  have hname {line : Nat} : (Node.leaf .variableDeclaration line).levels ≤ bound + 1 := Within.nil.levels_le
  exact ((hbody.cons hcollection).mono (Nat.le_succ bound) |>.cons hname).levels_le

theorem gives_forStart : Gives (forStart sub) (Within (bound + 2)) := by
  refine .either (.pure .nil) (Gives.bind (.after fun line => ?_) fun _ h => .after fun _ => .pure h)
  refine (gives_localDeclaration? hsub).bind fun declaration? hdeclaration => ?_
  cases declaration? with
  | none => exact (Gives.separated hsub.expression).mono fun _ h => Within.mono h (Nat.le_add_right bound 2)
  | some declaration => exact .pure hdeclaration

theorem gives_forCondition : Gives (forCondition sub) (Within (bound + 1)) :=
  .either (.pure .nil) (.after fun _ => .map (hsub.expression.mono fun _ h =>
    .singleton (Within.singleton h).levels_le))

theorem gives_forUpdates : Gives (forUpdates sub) (Within bound) :=
  .collect (.either (.pure trivial) (hsub.expression.bind fun _ h => .either (.pure h) (.pure h)))

theorem gives_forLoop : Gives (forLoop sub line) (·.levels ≤ bound + 3) := by
  refine (gives_forStart hsub).bind fun start hstart => (gives_forCondition hsub).bind fun test htest =>
    .after fun _ => (gives_forUpdates hsub).bind fun updates hupdates => .after fun _ =>
      .map (hsub.statement.mono fun body hbody => ?_)
  have hle : bound ≤ bound + 2 := Nat.le_add_right bound 2
  exact ((hstart.append (htest.mono (Nat.le_succ _))).append (hupdates.mono hle) |>.append (hbody.mono hle)).levels_le

theorem gives_forStatement : Gives (forStatement sub line) (·.levels ≤ bound + 3) :=
  .after fun _ => .after fun _ => .either ((gives_forEach hsub).mono fun _ => Nat.le_succ_of_le) (gives_forLoop hsub)

theorem gives_whileStatement : Gives (whileStatement sub line) (·.levels ≤ bound + 2) :=
  .after fun _ => gives_conditional hsub

theorem gives_doStatement : Gives (doStatement sub line) (·.levels ≤ bound + 2) :=
  .after fun _ => hsub.statement.bind fun _ hbody => .after fun _ => (gives_condition hsub).bind fun _ htest =>
    .after fun _ => .pure ((hbody.mono (Nat.le_succ bound)).append (.singleton htest)).levels_le

omit hsub in
theorem gives_caseValue : Gives caseValue (·.levels ≤ bound + 1) := by
  refine .after fun _ => .after fun _ => .after fun token? => ?_
  cases token? with
  | none => exact .complain
  | some token =>
    dsimp only
    split
    · exact .complain
    · exact .pure Within.nil.levels_le

theorem gives_whenBlock : Gives (whenBlock sub) (·.levels ≤ bound + 2) := by
  have hblock {kind : Kind} {line : Nat} {values : List Node} (hvalues : Within (bound + 1) values) :
      Gives (block sub >>= fun body => pure (Node.mk kind line (values ++ [body]))) (·.levels ≤ bound + 2) :=
    .map ((gives_block hsub).mono fun _ h => (hvalues.append (.singleton h)).levels_le)
  exact .after fun _ => .after fun _ => .either (hblock .nil) <| .either (.after fun _ => hblock .nil) <|
    (Gives.separated gives_caseValue).bind fun _ => hblock

theorem gives_switchStatement : Gives (switchStatement sub line) (·.levels ≤ bound + 3) :=
  .after fun _ => hsub.expression.bind fun _ hvalue => .after fun _ =>
    .map ((Gives.collectTo (gives_whenBlock hsub)).mono fun _ hblocks =>
      (Within.cons (Nat.le_add_right_of_le hvalue) hblocks).levels_le)

theorem gives_catchBlock : Gives (catchBlock sub line) (·.levels ≤ bound + 2) :=
  .after fun _ => .after fun _ => .after fun _ => .after fun _ => .after fun _ => .after fun _ =>
    .map ((gives_block hsub).mono fun _ h => (Within.singleton h).levels_le)

theorem gives_handlers : Gives (handlers sub) (Within (bound + 2)) :=
  .many (.either (.after fun _ => .map (gives_catchBlock hsub)) (.pure trivial))

theorem gives_cleanup : Gives (cleanup sub) (Within (bound + 1)) :=
  .either (.map ((gives_block hsub).mono fun _ => Within.singleton)) (.pure .nil)

theorem gives_tryStatement : Gives (tryStatement sub line) (·.levels ≤ bound + 3) :=
  .after fun _ => (gives_block hsub).bind fun _ hbody => (gives_handlers hsub).bind fun _ hhandlers =>
    (gives_cleanup hsub).bind fun _ hfinal => .ite .complain <| .pure
      ((hhandlers.cons (Nat.le_succ_of_le hbody)).append (hfinal.mono (Nat.le_succ _))).levels_le

theorem gives_returnStatement : Gives (returnStatement sub line) (·.levels ≤ bound + 1) :=
  .after fun _ => (gives_expressionUnless hsub).bind fun _ h => .after fun _ => .pure h.levels_le

theorem gives_throwStatement : Gives (throwStatement sub line) (·.levels ≤ bound + 1) :=
  .after fun _ => hsub.expression.bind fun _ h => .after fun _ => .pure (Within.singleton h).levels_le

omit hsub in
theorem gives_wordStatement {kind : Kind} : Gives (wordStatement kind line) (·.levels ≤ bound + 1) :=
  .after fun _ => .after fun _ => .pure Within.nil.levels_le

theorem gives_runAsStatement : Gives (runAsStatement sub line) (·.levels ≤ bound + 2) :=
  .after fun _ => (gives_arguments hsub).bind fun _ hitems => .map ((gives_block hsub).mono fun _ hbody =>
    ((hitems.mono (Nat.le_succ bound)).append (.singleton hbody)).levels_le)

theorem gives_dmlStatement {kind : Kind} : Gives (dmlStatement sub kind line) (·.levels ≤ bound + 1) :=
  .after fun _ => .after fun _ => hsub.expression.bind fun _ htarget =>
    (gives_expressionUnless hsub).bind fun _ hsecond => .after fun _ => .pure (hsecond.cons htarget).levels_le

theorem gives_openedStatement (opening : Opening) :
    Gives (openedStatement sub line opening) (·.levels ≤ bound + 3) := by
  have hone {p : Parse Node} (h : Gives p (·.levels ≤ bound + 1)) : Gives p (·.levels ≤ bound + 3) :=
    h.mono fun _ hle => Nat.le_trans hle (Nat.le_add_right (bound + 1) 2)
  have htwo {p : Parse Node} (h : Gives p (·.levels ≤ bound + 2)) : Gives p (·.levels ≤ bound + 3) :=
    h.mono fun _ => Nat.le_succ_of_le
  cases opening with
  | ifElse => exact gives_ifStatement hsub
  | forLoop => exact gives_forStatement hsub
  | whileLoop => exact htwo (gives_whileStatement hsub)
  | doLoop => exact htwo (gives_doStatement hsub)
  | switch => exact gives_switchStatement hsub
  | tryCatch => exact gives_tryStatement hsub
  | returnValue => exact hone (gives_returnStatement hsub)
  | throwValue => exact hone (gives_throwStatement hsub)
  | breakLoop | continueLoop => exact hone gives_wordStatement
  | runAs => exact htwo (gives_runAsStatement hsub)
  | dml kind => exact hone (gives_dmlStatement hsub)

theorem gives_plainStatement : Gives (plainStatement sub line) (·.levels ≤ bound + 2) := by
  refine (gives_localDeclaration? hsub).bind fun declaration? hdeclaration => ?_
  cases declaration? with
  | some declaration => exact .after fun _ => .pure (hdeclaration declaration List.mem_cons_self)
  | none =>
    exact hsub.expression.bind fun _ h => .after fun _ => .pure (Nat.le_succ_of_le (Within.singleton h).levels_le)

theorem gives_statement : Gives (statement sub) fun node? => Within (bound + 3) node?.toList := by
  refine .after fun line => .either .complain <| .either (.pure .nil) <| .either ?_ <| .after fun cursor => ?_
  · exact .map ((gives_block hsub).mono fun _ h => .singleton (Nat.le_trans h (Nat.le_add_right (bound + 1) 2)))
  · split
    case h_1 opening _ => exact .map ((gives_openedStatement hsub opening).mono fun _ => Within.singleton)
    case h_2 => exact .map ((gives_plainStatement hsub).mono fun _ h => .singleton (Nat.le_succ_of_le h))

/-! ### Members -/

omit hsub in
theorem gives_parameter? : Gives (parameter? sub) fun node? => Within 4 node?.toList :=
  .either (.pure .nil) <| .after fun _ => gives_modifiers.bind fun _ h => .after fun _ => .after fun _ =>
    .pure (.singleton (Within.singleton h).levels_le)

theorem gives_body : Gives (body sub) (Within (bound + 1)) :=
  .either (.pure .nil) (.map ((gives_block hsub).mono fun _ => Within.singleton))

theorem gives_methodRest (hmods : mods.levels ≤ 3) : Gives (methodRest sub line mods) (·.levels ≤ bound + 5) := by
  refine .after fun _ => (Gives.collectUntil gives_parameter?).bind fun parameters hparameters =>
    .map ((gives_body hsub).mono fun body hbody => ?_)
  have hhead : Within 4 (mods :: parameters.filterMap id) := (Within.present hparameters).cons (Nat.le_succ_of_le hmods)
  exact ((hhead.mono (Nat.le_add_left 4 bound)).append (hbody.mono (Nat.le_add_right _ 3))).levels_le

theorem gives_propertyRest (hmods : mods.levels ≤ 3) : Gives (propertyRest sub line mods) (·.levels ≤ bound + 4) := by
  have haccessor : Gives (accessor sub) (Within (bound + 3)) :=
    .after fun _ => .after fun _ => (gives_body hsub).mono fun _ h => h.mono (Nat.le_add_right _ 2)
  exact .after fun _ => .map ((Gives.collectUntil haccessor).mono fun _ hbodies =>
    ((Within.flatten hbodies).cons (Nat.le_add_left_of_le hmods)).levels_le)

theorem gives_fieldValue : Gives (fieldValue sub name) (·.levels ≤ bound + 3) :=
  .map ((gives_initialValue hsub).mono fun _ h => (h.mono (Nat.le_add_right bound 2)).levels_le)

theorem gives_furtherFields : Gives (furtherFields sub) (Within (bound + 3)) :=
  .many (.either (.after fun _ => .map (gives_fieldValue hsub)) (.pure trivial))

theorem gives_fieldRest (hmods : mods.levels ≤ 3) : Gives (fieldRest sub line mods name) (Within (bound + 4)) := by
  refine (gives_fieldValue hsub).bind fun first hfirst => (gives_furtherFields hsub).bind fun more hmore =>
    .after fun _ => .pure (.append ?_ (.singleton ?_))
  · rintro _ hfield
    obtain ⟨declaration, -, rfl⟩ := List.mem_map.mp hfield
    exact Within.nil.levels_le
  · exact (hmore.cons hfirst |>.cons (Nat.le_add_left_of_le hmods)).levels_le

/-! ### Types -/

omit hsub in
theorem gives_enumRest (hmods : mods.levels ≤ 3) : Gives (enumRest line mods) (·.levels ≤ bound + 4) :=
  .after fun _ => .after fun _ => .pure (Within.singleton (Nat.le_add_left_of_le hmods)).levels_le

theorem gives_classRest {kind : Kind} (hmods : mods.levels ≤ 3) :
    Gives (classRest sub kind line mods) (·.levels ≤ bound + 4) :=
  .after fun _ => .after fun _ => .after fun _ => .map ((Gives.collectUntil hsub.member).mono fun _ hmembers =>
    ((Within.flatten hmembers).mono (Nat.le_add_right bound 3) |>.cons (Nat.le_add_left_of_le hmods)).levels_le)

theorem gives_typeBody (hmods : mods.levels ≤ 3) : Gives (typeBody sub mods) (·.levels ≤ bound + 4) :=
  .after fun _ => .after fun _ => .after fun _ => .ite (gives_enumRest hmods) (gives_classRest hsub hmods)

theorem gives_typedMember (hmods : mods.levels ≤ 3) : Gives (typedMember sub line mods) (Within (bound + 5)) := by
  refine .after fun _ => .after fun name => .either ?_ (.either ?_ ?_)
  · exact .map ((gives_methodRest hsub hmods).mono fun _ => Within.singleton)
  · exact .map ((gives_propertyRest hsub hmods).mono fun _ h => .singleton (Nat.le_succ_of_le h))
  · exact (gives_fieldRest hsub hmods).mono fun _ h => h.mono (Nat.le_succ _)

theorem gives_member : Gives (member sub) (Within (bound + 5)) := by
  refine .either (.pure .nil) (gives_modifiers.bind fun mods hmods => .after fun line =>
    .either ?_ (.either ?_ (.either ?_ ?_)))
  · exact .map ((gives_typeBody hsub hmods).mono fun _ h => .singleton (Nat.le_succ_of_le h))
  · exact .map ((gives_block hsub).mono fun _ h => .singleton (Nat.le_trans h (Nat.le_add_right (bound + 1) 4)))
  · exact .after fun _ => .map ((gives_methodRest hsub hmods).mono fun _ => Within.singleton)
  · exact gives_typedMember hsub hmods

/-! ### Triggers and top-level types -/

theorem gives_trigger : Gives (trigger sub) (·.levels ≤ bound + 2) :=
  .after fun _ => .after fun _ => .after fun _ => .after fun _ => .after fun _ => .after fun _ => .after fun _ =>
    .map ((gives_block hsub).mono fun _ h => (Within.singleton h).levels_le)

theorem gives_typeDeclaration : Gives (typeDeclaration sub) (·.levels ≤ bound + 4) :=
  .either ((gives_trigger hsub).mono fun _ h => Nat.le_trans h (Nat.le_add_right (bound + 2) 2))
    (gives_modifiers.bind fun _ hmods => gives_typeBody hsub hmods)

end

end Grammar

/-! ### Whole sources -/

namespace Nested

variable {sub : Nested} {bound : Nat}

theorem Within.around (hsub : sub.Within bound) : sub.around.Within (bound + 15) where
  statement := .nested ((Grammar.gives_statement hsub).mono fun _ h => h.mono (Nat.le_add_right (bound + 3) 12))
  member := .nested ((Grammar.gives_member hsub).mono fun _ h => h.mono (Nat.le_add_right (bound + 5) 10))
  expression := .nested (Grammar.gives_expression hsub)
  operand := .nested ((Grammar.gives_operand hsub).mono fun _ h => Nat.le_trans h (Nat.le_add_right (bound + 2) 13))

theorem within_level (n : Nat) : (level n).Within (15 * n) := by
  induction n with
  | zero => exact ⟨.complain, .complain, .complain, .complain⟩
  | succ n ih => exact ih.around

end Nested

theorem Entry.gives_read {sub : Nested} {bound : Nat} (hsub : sub.Within bound) (entry : Entry) :
    Gives (entry.read sub) (Within (bound + 4)) := by
  have hitem : Gives (entry.item sub) (Within (bound + 4)) := by
    cases entry with
    | typeDeclarations =>
      exact .either (.pure .nil) (.map ((Grammar.gives_typeDeclaration hsub).mono fun _ => .singleton))
    | statements => exact .map (hsub.statement.mono fun _ h => h.mono (Nat.le_add_right bound 4))
    | members => exact hsub.member.mono fun _ h => h.mono (Nat.le_add_right bound 4)
  refine Gives.bind (?_ : Gives _ fun rows => ∀ row ∈ rows, Within (bound + 4) row) fun _ h => .pure (Within.flatten h)
  exact .many (.either (.pure trivial) (.map hitem))

end Exemplar.Code
