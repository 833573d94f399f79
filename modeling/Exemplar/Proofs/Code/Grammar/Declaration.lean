import Exemplar.Code.Grammar.Declaration
import Exemplar.Proofs.Code.Grammar.Statement

/-!
# What is read as a declaration

The modifiers of a declaration are read before it shows what is declared, so each production here takes their
node and gives it to the declaration as its first child. `Declared` is what such a production leaves: the
modifiers in front complete it.
-/

namespace Exemplar.Code

/-- The node of a declaration behind its modifiers, whose node `mods` is its first child, with the tokens that
the other children were read from. -/
structure Declared (kinds : List Kind) (mods node : Node) (tokens : List Token) : Prop where
  kind : node.kind ∈ kinds
  shaped : node.IsShaped
  starts : Starts node.line tokens
  opens : node.kind.OpensWith tokens
  reading : ∃ nodes, node.children = mods :: nodes ∧ Reading tokens nodes

namespace Declared

variable {kind : Kind} {kinds others : List Kind} {slots : List Slot} {line : Nat} {mods node : Node}
  {nodes : List Node} {front tokens left : List Token}

theorem of (h : Fills slots nodes tokens) (hmods : mods.kind = .modifierNode)
    (hform : (.one [.modifierNode] :: slots) ∈ kind.forms) (hkind : kind ∈ kinds)
    (starts : Starts line tokens) (opens : kind.OpensWith tokens) :
    Declared kinds mods ⟨kind, line, mods :: nodes⟩ tokens where
  kind := hkind
  shaped := ⟨_, hform, .cons (.of_kind (hmods ▸ .head _)) h.follows⟩
  starts := starts
  opens := opens
  reading := ⟨nodes, rfl, h.reading⟩

theorem complete (h : Declared kinds mods node tokens) (hmods : ReadsModifiers mods front (tokens ++ left)) :
    Reading (front ++ tokens) (node.lead ++ [node]) := by
  obtain ⟨nodes, hchildren, hreading⟩ := h.reading
  exact .declared hmods.kind hmods.shaped hmods.reading (hmods.starts_append h.starts.ne_nil) hchildren
    hreading h.starts h.opens h.shaped

theorem widen (h : Declared kinds mods node tokens) (hkinds : kinds ⊆ others) :
    Declared others mods node tokens :=
  ⟨hkinds h.kind, h.shaped, h.starts, h.opens, h.reading⟩

/-- Only fields have nodes in front of their declaration. -/
theorem lead_eq_nil (h : Declared kinds mods node tokens) (hlone : Kind.fieldDeclarationStatements ∉ kinds) :
    node.lead = [] :=
  if_neg fun hkind : node.kind = .fieldDeclarationStatements => hlone (hkind ▸ h.kind)

theorem yields (h : Declared kinds mods node tokens) (hmods : ReadsModifiers mods front (tokens ++ left))
    (hlone : Kind.fieldDeclarationStatements ∉ kinds) : Yields (.one kinds) [node] (front ++ tokens) := by
  have hreading := h.complete hmods
  rw [h.lead_eq_nil hlone, List.nil_append] at hreading
  exact ⟨hreading, .of_kind h.kind⟩

end Declared

namespace Grammar

open Parse

variable {sub : Nested} {depth line : Nat} {tokens front : List Token} {mods : Node} {name : Token}

/-! ### Members -/

section

variable (sound : sub.Sound depth)
include sound

theorem meets_parameter? : Meets depth (parameter? sub) tokens fun node? read _ =>
    read ≠ [] ∧ Yields (.many [.parameter]) node?.toList read := by
  refine .ifEat ?_ (.lineRead fun line => .bind meets_modifiers fun mods first _ _ hmods => ?_)
  · rintro comma rest rfl hcomma
    exact .pure ⟨by simp, .silent (.ofSymbol hcomma rfl)⟩
  · refine .bind (sound.typeRef _) fun _ second _ hrest htypes => ?_
    refine .expectIdent fun name left hname => .pure fun hstarts => ?_
    have hmodsStart : Starts mods.line (first ++ second) := (hrest ▸ hmods).starts_append htypes.1
    have hmodified : Reading (first ++ second) [mods] :=
      .modified hmods.kind hmods.shaped hmods.reading hmodsStart htypes.2
    have hfills : Fills [.one [.modifierNode]] [mods] (first ++ (second ++ [name])) :=
      ⟨List.append_assoc .. ▸ hmodified.before (.ofIdent hname), .last (.of_kind (hmods.kind ▸ .head _))⟩
    have hparameter : Yields (.one [.parameter]) [⟨.parameter, line, [mods]⟩]
        (first ++ (second ++ [name])) :=
      hfills.node (.head _) (hstarts (by simp)) trivial (.head _) (by decide)
    exact hparameter.item

theorem meets_body : Meets depth (body sub) tokens fun nodes read _ =>
    Yields (.optional [.blockStatement]) nodes read := by
  refine .ifEat ?_ (.map ((meets_block sound).mono fun _ _ _ _ h => h.optional))
  rintro semicolon rest rfl hsemicolon
  exact .pure ⟨.ofSymbol hsemicolon rfl, .optional_nil⟩

theorem meets_methodRest (hmods : mods.kind = .modifierNode) (hfront : Reading front [])
    (hline : Starts line front) : Meets depth (methodRest sub line mods) tokens fun node read _ =>
      Declared [.method] mods node (front ++ read) := by
  refine .expect fun opening _ hopening => ?_
  refine .bind (meets_collectUntil [.parameter] Option.toList fun _ => meets_parameter? sound) ?_
  rintro parameters first _ rfl hparameters
  refine .map ((meets_body sound).mono fun nodes second _ _ hbody => ?_)
  have hfills : Fills [.many [.parameter], .optional [.blockStatement]]
      (parameters.flatMap Option.toList ++ nodes) (front ++ (opening :: first ++ second)) :=
    .after (.append (hparameters.bracketed hopening rfl) (.last hbody)) hfront
  rw [List.cons_append, List.filterMap_eq_flatMap_toList]
  exact .of hfills hmods (.head _) (.head _) (hline.append _) trivial

theorem meets_accessor : Meets depth (accessor sub) tokens fun nodes read _ =>
    read ≠ [] ∧ Yields (.many [.blockStatement]) nodes read := by
  refine .bind meets_modifiers fun mods first _ _ hmods => .bind (meets_expectIf rfl) ?_
  rintro word _ _ rfl ⟨rfl, hword⟩
  have hword : word.isIdent = true :=
    (Bool.or_eq_true_iff.mp hword).elim Token.isIdent_of_isWord Token.isIdent_of_isWord
  refine (meets_body sound).mono fun nodes second _ _ hbody => ⟨by simp, ?_⟩
  have hbody : Yields (.many [.blockStatement]) nodes second := hbody.many (List.Subset.refl _)
  exact (hbody.after (.ofIdent hword)).after (.unseen hmods.reading)

theorem meets_propertyRest (hmods : mods.kind = .modifierNode) (hfront : Reading front [])
    (hline : Starts line front) : Meets depth (propertyRest sub line mods) tokens fun node read _ =>
      Declared [.property] mods node (front ++ read) := by
  refine .expect fun opening _ hopening => ?_
  refine .map ((meets_collectUntil [.blockStatement] id fun _ => meets_accessor sound).mono ?_)
  intro bodies read _ _ hbodies
  rw [List.flatMap_id] at hbodies
  exact .of (.after (.last (hbodies.bracketed hopening rfl)) hfront) hmods (.head _) (.head _)
    (hline.append _) trivial

theorem meets_fieldValue (hname : name.isIdent = true) : Meets depth (fieldValue sub name) tokens
    fun node read _ => Yields (.one [.fieldDeclaration]) [node] (name :: read) := by
  refine .map ((meets_initialValue sound).mono fun value read _ _ hvalue => ?_)
  exact ((Fills.last hvalue).after (.ofIdent hname)).node (.head _) rfl trivial (.head _) (by decide)

theorem meets_furtherFields : Meets depth (furtherFields sub) tokens fun nodes read _ =>
    Yields (.many [.fieldDeclaration]) nodes read := by
  refine (meets_many [.fieldDeclaration] (fun node => [node]) fun tokens => .ifEat ?_ ?_).mono ?_
  · rintro comma rest rfl hcomma
    refine .expectIdent fun name _ hname => ?_
    refine .map ((meets_fieldValue sound hname).mono fun node read _ _ hnode => ⟨by simp, ?_⟩)
    exact (hnode.after (.ofSymbol hcomma rfl)).many (List.Subset.refl _)
  · exact .pure .nil
  · exact fun nodes _ _ _ h => List.flatMap_singleton' nodes ▸ h

theorem meets_fieldRest (hmods : mods.kind = .modifierNode) (hfront : Reading front [])
    (hline : Starts line (front ++ [name])) (hname : name.isIdent = true) :
    Meets depth (fieldRest sub line mods name) tokens fun nodes read _ => ∃ node,
      nodes = node.lead ++ [node] ∧
        Declared [.fieldDeclarationStatements] mods node (front ++ (name :: read)) := by
  refine .bind (meets_fieldValue sound hname) fun field first _ _ hfield => ?_
  refine .bind (meets_furtherFields sound) fun others second _ _ hothers => ?_
  refine .expect fun semicolon _ hsemicolon => .pure ?_
  refine ⟨⟨.fieldDeclarationStatements, line, mods :: field :: others⟩, rfl, ?_⟩
  have hfills : Fills [.several [.fieldDeclaration]] (field :: others)
      (front ++ (name :: first ++ (second ++ [semicolon]))) :=
    .after (.several hfield (.last (hothers.before (.ofSymbol hsemicolon rfl)))) hfront
  refine .of hfills hmods (.head _) (.head _) ?_ trivial
  have hall := hline.append (first ++ (second ++ [semicolon]))
  rwa [List.append_assoc] at hall

/-! ### Types -/

omit sound in
theorem meets_enumItem : Meets depth enumItem tokens fun _ read _ =>
    read ≠ [] ∧ Yields (.many []) [] read := by
  refine .ifEat ?_ (.expectIdent fun value _ hvalue => .pure ?_)
  · rintro mark rest rfl hmark
    exact .pure ⟨by simp, .silent (.ofEither hmark rfl rfl)⟩
  · exact ⟨by simp, .silent (.ofIdent hvalue)⟩

omit sound in
theorem meets_typeWord : Meets depth typeWord tokens fun kind read _ =>
    kind ∈ Kind.types ∧ ∃ token, read = [token] ∧ token.isIdent = true ∧ kind.OpensWith [token] := by
  have hword {kind : Kind} {token : Token} {word : String} (hkind : kind ∈ Kind.types)
      (hopens : kind.word? = some word) (h : token.isWord word = true) : kind ∈ Kind.types ∧
        ∃ found, [token] = [found] ∧ found.isIdent = true ∧ kind.OpensWith [found] :=
    ⟨hkind, token, rfl, Token.isIdent_of_isWord h, .of_some hopens h⟩
  refine .ifEat ?_ (.ifEat ?_ (.ifEat ?_ (.complain rfl)))
  · rintro word rest rfl h
    exact .pure (hword (by decide) rfl h)
  · rintro word rest rfl h
    exact .pure (hword (by decide) rfl h)
  · rintro word rest rfl h
    exact .pure (hword (by decide) rfl h)

theorem meets_typesAfter (word : String) : Meets depth (typesAfter sub word) tokens fun _ read _ =>
    Reading read [] := by
  refine .ifEat ?_ (.pure .nil)
  rintro token rest rfl hword
  exact (meets_typeList sound).mono fun _ _ _ _ h => (Reading.ofWord hword).after h

omit sound in
theorem meets_enumRest (hmods : mods.kind = .modifierNode) (hfront : Reading front [])
    (hline : Starts line front) (hopens : Kind.OpensWith .userEnum front) :
    Meets depth (enumRest line mods) tokens fun node read _ =>
      Declared Kind.types mods node (front ++ read) := by
  refine .expect fun opening _ hopening => ?_
  refine .map ((meets_collectUntil [] (fun _ => []) fun _ => meets_enumItem).mono ?_)
  intro values read _ _ hvalues
  have hpair : Reading (front ++ ([opening] ++ read)) [] :=
    hfront.after (.unseen (hvalues.bracketed hopening rfl).reading)
  exact .of (.nil hpair) hmods (.head _) (by decide) (hline.append _) (hopens.append _)

theorem meets_classRest {kind : Kind} (hkind : kind ∈ [.userClass, .userInterface])
    (hmods : mods.kind = .modifierNode) (hfront : Reading front []) (hline : Starts line front)
    (hopens : kind.OpensWith front) : Meets depth (classRest sub kind line mods) tokens fun node read _ =>
      Declared Kind.types mods node (front ++ read) := by
  refine .bind (meets_typesAfter sound _) fun _ parents _ _ hparents => ?_
  refine .bind (meets_typesAfter sound _) fun _ contracts _ _ hcontracts => ?_
  refine .expect fun opening _ hopening => ?_
  refine .map ((meets_collectUntil Kind.members id fun _ => sound.member _).mono ?_)
  intro members read _ _ hmembers
  rw [List.flatMap_id] at hmembers
  have hfills : Fills [.many Kind.members] members.flatten
      (front ++ (parents ++ (contracts ++ (opening :: read)))) :=
    .after (.after (.after (.last (hmembers.bracketed hopening rfl)) hcontracts) hparents) hfront
  have hforms : ∀ kind ∈ [Kind.userClass, .userInterface],
      [.one [.modifierNode], .many Kind.members] ∈ kind.forms ∧ kind ∈ Kind.types := by decide
  obtain ⟨hform, htype⟩ := hforms kind hkind
  exact .of hfills hmods hform htype (hline.append _) (hopens.append _)

theorem meets_typeBody (hmods : mods.kind = .modifierNode) : Meets depth (typeBody sub mods) tokens
    fun node read _ => Declared Kind.types mods node read := by
  refine .line fun line hline => .bind meets_typeWord ?_
  rintro kind _ _ rfl ⟨hkind, word, rfl, hword, hopens⟩
  have hstart : Starts line [word] := (hline (by simp)).left (List.cons_ne_nil _ _)
  refine .expectIdent fun name _ hname => ?_
  have hfront : Reading ([word] ++ [name]) [] := (Reading.ofIdent hword).after (.ofIdent hname)
  split
  case isTrue henum =>
    rw [eq_of_beq henum] at hopens
    exact (meets_enumRest hmods hfront (hstart.append _) (hopens.append _)).mono
      fun _ _ _ _ h => by simpa using h
  case isFalse henum =>
    have hclass : kind ∈ [Kind.userClass, .userInterface] := by
      revert hkind henum
      cases kind <;> decide
    exact (meets_classRest sound hclass hmods hfront (hstart.append _) (hopens.append _)).mono
      fun _ _ _ _ h => by simpa using h

/-! ### Members of types -/

theorem meets_typedMember (hmods : mods.kind = .modifierNode) (hline : tokens ≠ [] → Starts line tokens) :
    Meets depth (typedMember sub line mods) tokens fun nodes read _ => ∃ node,
      nodes = node.lead ++ [node] ∧
        Declared [.method, .property, .fieldDeclarationStatements] mods node read := by
  refine .bind (sound.typeRef _) fun _ types _ htokens htypes => .expectIdent fun name _ hname => ?_
  have hfront : Reading (types ++ [name]) [] := htypes.2.after (.ofIdent hname)
  have hstart : Starts line (types ++ [name]) :=
    (Starts.of_noted (htokens ▸ hline) htypes.1).append [name]
  -- A parenthesis makes it a method, a brace a property, and anything else the first of some fields.
  refine .ifAhead ?_ (.ifAhead ?_ ?_)
  · rintro opening rest rfl -
    refine .map ((meets_methodRest sound hmods hfront hstart).mono fun node read _ _ hnode => ?_)
    refine ⟨node, by rw [hnode.lead_eq_nil (by decide), List.nil_append], ?_⟩
    simpa using hnode.widen (by decide)
  · rintro opening rest rfl -
    refine .map ((meets_propertyRest sound hmods hfront hstart).mono fun node read _ _ hnode => ?_)
    refine ⟨node, by rw [hnode.lead_eq_nil (by decide), List.nil_append], ?_⟩
    simpa using hnode.widen (by decide)
  · refine (meets_fieldRest sound hmods htypes.2 hstart hname).mono ?_
    rintro nodes read _ _ ⟨node, hnodes, hnode⟩
    exact ⟨node, hnodes, hnode.widen (by decide)⟩

theorem meets_member : Meets depth (member sub) tokens fun nodes read _ =>
    read ≠ [] ∧ Yields (.many Kind.members) nodes read := by
  have hone {kinds : List Kind} {node : Node} {read : List Token} (h : Yields (.one kinds) [node] read)
      (hkinds : kinds ⊆ Kind.members) : read ≠ [] ∧ Yields (.many Kind.members) [node] read :=
    ⟨h.ne_nil, h.many hkinds⟩
  refine .ifEat ?_ (.bind meets_modifiers fun mods front rest _ hmods => .line fun line hline => ?_)
  · rintro semicolon rest rfl hsemicolon
    exact .pure ⟨by simp, .silent (.ofSymbol hsemicolon rfl)⟩
  · -- A type, a block, a constructor, and everything that begins with a type.
    refine .ifAhead ?_ (.ifAhead ?_ (.ifPair ?_ ?_))
    · rintro _ _ rfl -
      refine .map ((meets_typeBody sound hmods.kind).mono fun node read _ hrest hnode => ?_)
      exact hone (hnode.yields (hrest ▸ hmods) (by decide)) (by decide)
    · rintro _ _ rfl -
      refine .map ((meets_block sound).mono fun node read _ _ hnode => ?_)
      exact hone (hnode.after (.unseen hmods.reading)) (by decide)
    · rintro name opening rest rfl hname -
      refine .advance ?_
      have hstart : Starts line [name] := (hline (by simp)).left (List.cons_ne_nil _ _)
      refine .map ((meets_methodRest sound hmods.kind (.ofIdent hname) hstart).mono ?_)
      intro node read _ hmore hnode
      rw [hmore] at hmods
      exact hone (hnode.yields hmods (by decide)) (by decide)
    · -- Only here may there be nodes for fields in front.
      refine (meets_typedMember sound hmods.kind hline).mono ?_
      rintro nodes read left rfl ⟨node, rfl, hnode⟩
      refine ⟨List.append_ne_nil_of_right_ne_nil _ hnode.starts.ne_nil, hnode.complete hmods, trivial, ?_⟩
      intro other hother
      rcases List.mem_append.mp hother with hlead | hself
      · rw [Node.kind_of_mem_lead hlead]
        decide
      · rw [List.mem_singleton.mp hself]
        exact (by decide : [Kind.method, .property, .fieldDeclarationStatements] ⊆ Kind.members) hnode.kind

/-! ### Triggers and top-level types -/

omit sound in
theorem meets_triggerEvent : Meets depth triggerEvent tokens fun _ read _ =>
    read ≠ [] ∧ Yields (.many []) [] read := by
  refine .bind meets_next? ?_
  rintro (_ | token) _ rest rfl rfl
  · exact .complain rfl
  · dsimp only
    split
    case isTrue h =>
      refine .pure ⟨by simp, .silent ?_⟩
      exact (Bool.or_eq_true_iff.mp h).elim .ofIdent (.ofSymbol · rfl)
    case isFalse => exact .complain rfl

theorem meets_trigger {word : Token} (hword : word.isWord "trigger" = true) :
    Meets depth (trigger sub) (word :: tokens) fun node read _ =>
      Yields (.one (.userTrigger :: Kind.types)) [node] read := by
  refine .lineRead fun line => .advance ?_
  refine .expectIdent fun name _ hname => ?_
  refine .expectWord fun onWord _ hon => ?_
  refine .expectIdent fun object _ hobject => ?_
  refine .expect fun opening _ hopening => ?_
  refine .bind (meets_collectTo [] (fun _ => []) fun _ => meets_triggerEvent) fun _ events _ _ hevents => ?_
  refine .map ((meets_block sound).mono fun body read _ _ hbody hstarts => ?_)
  have hevents : Reading (opening :: events) [] := .unseen (hevents.bracketed hopening rfl).reading
  have hfills : Fills [.one [.blockStatement]] [body]
      ([word] ++ ([name] ++ ([onWord] ++ ([object] ++ (opening :: events ++ read))))) :=
    .after (.after (.after (.after (.after (.last hbody) hevents) (.ofIdent hobject)) (.ofWord hon))
      (.ofIdent hname)) (.ofWord hword)
  exact hfills.node (.head _) (hstarts (by simp)) hword (.head _) (by decide)

theorem meets_typeDeclaration : Meets depth (typeDeclaration sub) tokens fun node read _ =>
    Yields (.one (.userTrigger :: Kind.types)) [node] read := by
  refine .ifPair ?_ (.bind meets_modifiers fun mods front _ _ hmods => ?_)
  · rintro word name rest rfl hword -
    exact meets_trigger sound hword
  · refine (meets_typeBody sound hmods.kind).mono ?_
    rintro node read left rfl hnode
    exact (hnode.yields hmods (by decide)).widen (List.subset_cons_self _ _)

end

end Grammar

end Exemplar.Code
