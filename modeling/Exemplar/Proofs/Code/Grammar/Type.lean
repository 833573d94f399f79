import Exemplar.Proofs.Code.Enclosure
import Exemplar.Proofs.Code.Grammar.Declaration

/-!
# How types enclose their members

What is read as a type `Encloses` the classes that are read as its members. That its word is not behind a dot
comes from where members end: with a semicolon or a brace, or with the last token of a modifier.
-/

namespace Exemplar.Code

open Parse

variable {depth : Nat} {sub : Nested} {tokens more front : List Token} {token : Token} {symbol close : Symbol}

/-! ### Where constructs end -/

/-- Some tokens, the last of which is no dot. -/
structure Shut (tokens : List Token) : Prop where
  ne_nil : tokens ≠ []
  undotted : Undotted tokens

namespace Shut

theorem of_ident (h : token.isIdent = true) : Shut [token] :=
  ⟨List.cons_ne_nil _ _, .of_ident h⟩

theorem of_symbol (h : token.isSymbol symbol = true) (hdot : symbol ≠ .dot) (hsafe : symbol ≠ .safeDot) :
    Shut [token] :=
  ⟨List.cons_ne_nil _ _, .of_symbol h hdot hsafe⟩

theorem behind (h : Shut more) (tokens : List Token) : Shut (tokens ++ more) :=
  ⟨List.append_ne_nil_of_right_ne_nil _ h.ne_nil, h.undotted.behind h.ne_nil tokens⟩

theorem upTo {β : Type} {all : List β → List Token → Prop} {items : List β} (h : UpTo close all items tokens)
    (hdot : close ≠ .dot) (hsafe : close ≠ .safeDot) : Shut tokens := by
  obtain ⟨inner, closing, rfl, hclosing, -⟩ := h
  exact (of_symbol hclosing hdot hsafe).behind inner

end Shut

/-- Nodes that no class may be below, with the tokens they were read from. -/
structure Barren (nodes : List Node) (tokens : List Token) : Prop where
  kinds : ∀ node ∈ nodes, node.kind ∉ Kind.holders
  shut : Shut tokens

namespace Barren

variable {nodes : List Node}

theorem one {kind : Kind} {line : Nat} {children : List Node} (hkind : kind ∉ Kind.holders)
    (h : Shut tokens) : Barren [⟨kind, line, children⟩] tokens :=
  ⟨by simpa using hkind, h⟩

theorem behind (h : Barren nodes more) (tokens : List Token) : Barren nodes (tokens ++ more) :=
  ⟨h.kinds, h.shut.behind tokens⟩

end Barren

/-- Nodes with the tokens that enclose the classes among them, in front of something else. -/
structure Houses (nodes : List Node) (tokens : List Token) : Prop where
  encloses : Encloses tokens nodes
  undotted : Undotted tokens

theorem Houses.gathers : Gathers Houses where
  nil := ⟨.plain .nil nofun, rfl⟩
  append h hmore := ⟨h.encloses.append h.undotted hmore.encloses, h.undotted.append hmore.undotted⟩

theorem Barren.houses {slot : Slot} {nodes : List Node} (h : Barren nodes tokens)
    (hyields : Yields slot nodes tokens) : Houses nodes tokens :=
  ⟨.of_yields hyields h.kinds, h.shut.undotted⟩

theorem ReadsModifiers.classless {mods : Node} (h : ReadsModifiers mods front tokens) : Classless [mods] := by
  have structured : Structured [mods] :=
    .singleton h.reading.structured h.shaped (if_neg (by rw [h.kind]; decide))
  refine structured.classless fun node hnode => ?_
  obtain rfl := List.mem_singleton.mp hnode
  rw [h.kind]
  decide

/-- Any items will do where only the end counts. -/
theorem shut_collectTo {α : Type} {item : Parse α} (hdot : close ≠ .dot) (hsafe : close ≠ .safeDot)
    (h : ∀ tokens, Meets depth item tokens fun _ read _ => read ≠ []) :
    Meets depth (collectTo close item) tokens fun _ read _ => Shut read := by
  have gathers : Gathers fun (_ : List Unit) _ => True := ⟨trivial, fun _ _ => trivial⟩
  refine (gathers.meets_collectTo (fun _ => []) fun tokens => ?_).mono fun _ _ _ _ h => .upTo h hdot hsafe
  exact (h tokens).mono fun _ _ _ _ h => ⟨h, trivial⟩

theorem shut_collectUntil {α : Type} {item : Parse α} {construct : String} (hdot : close ≠ .dot)
    (hsafe : close ≠ .safeDot) (h : ∀ tokens, Meets depth item tokens fun _ read _ => read ≠ []) :
    Meets depth (collectUntil close construct item) tokens fun _ read _ => Shut read := by
  refine shut_collectTo hdot hsafe fun tokens => .bind meets_atEnd ?_
  rintro _ _ _ rfl ⟨rfl, -, rfl⟩
  split
  case isTrue => exact .complain rfl
  case isFalse => exact h _

namespace Grammar

theorem shut_annotationUse : Meets depth annotationUse tokens fun _ read _ => Shut read := by
  refine .line fun line _ => .expect fun mark _ _ => .expectIdent fun name _ hname => .ifEat ?_ (.pure ?_)
  · rintro opening rest rfl -
    refine .map ((shut_collectTo (by decide) (by decide) fun tokens => ?_).mono ?_)
    · exact meets_annotationParameter.mono fun _ _ _ _ h => h.1
    · exact fun _ read _ _ h => h.behind [mark, name, opening]
  · exact (Shut.of_ident hname).behind [mark]

/-- The last token of the modifiers is that of the last one. -/
theorem undotted_modifiers : Meets depth modifiers tokens fun _ read _ => Undotted read := by
  have gathers : Gathers fun (_ : List Unit) read => Undotted read := ⟨rfl, .append⟩
  refine .line fun line _ => .map (gathers.meets_many (fun _ => []) fun tokens => ?_)
  refine .ifAhead ?_ (.ifEat ?_ (.ifPair ?_ (.pure rfl)))
  · rintro mark rest rfl -
    exact .map (shut_annotationUse.mono fun _ _ _ _ h => ⟨h.ne_nil, h.undotted⟩)
  · rintro word rest rfl hword
    exact .pure ⟨by simp, .of_ident (Token.isIdent_of_any hword)⟩
  · rintro word sharing rest rfl hword hsharing
    refine .skip [word, sharing] (.pure ⟨by simp, ?_⟩)
    exact ((Shut.of_ident (Token.isIdent_of_isWord hsharing)).behind [word]).undotted

section

variable (sound : sub.Sound depth)
include sound

theorem barren_block : Meets depth (block sub) tokens fun node read _ => Barren [node] read := by
  refine .line fun line _ => .expect fun opening _ _ => .map ?_
  refine (shut_collectUntil (by decide) (by decide) fun tokens => ?_).mono fun _ _ _ _ h => ?_
  · exact (sound.statement tokens).mono fun _ _ _ _ h => h.1
  · exact .one (by decide) (h.behind [opening])

theorem shut_body : Meets depth (body sub) tokens fun _ read _ => Shut read := by
  refine .ifEat ?_ (.map ((barren_block sound).mono fun _ _ _ _ h => h.shut))
  rintro semicolon rest rfl hsemicolon
  exact .pure (.of_symbol hsemicolon (by decide) (by decide))

variable {line : Nat} {mods : Node}

theorem barren_methodRest : Meets depth (methodRest sub line mods) tokens fun node read _ =>
    Barren [node] read := by
  refine .expect fun opening _ _ => ?_
  refine .bind (meets_collectUntil [.parameter] Option.toList fun _ => meets_parameter? sound) ?_
  intro parameters first _ _ _
  exact .map ((shut_body sound).mono fun _ _ _ _ h => .one (by decide) ((h.behind first).behind [opening]))

theorem barren_propertyRest : Meets depth (propertyRest sub line mods) tokens fun node read _ =>
    Barren [node] read := by
  refine .expect fun opening _ _ => .map ?_
  refine (shut_collectUntil (by decide) (by decide) fun tokens => ?_).mono fun _ _ _ _ h => ?_
  · exact (meets_accessor sound).mono fun _ _ _ _ h => h.1
  · exact .one (by decide) (h.behind [opening])

theorem barren_fieldRest {name : Token} (hname : name.isIdent = true) :
    Meets depth (fieldRest sub line mods name) tokens fun nodes read _ => Barren nodes read := by
  refine .bind (meets_fieldValue sound hname) fun field first _ _ _ => ?_
  refine .bind (meets_furtherFields sound) fun others second _ _ _ => ?_
  refine .expect fun semicolon _ hsemicolon => .pure ⟨fun node hnode => ?_, ?_⟩
  · rcases List.mem_append.mp hnode with hfield | hself
    · obtain ⟨declaration, -, rfl⟩ := List.mem_map.mp hfield
      exact (by decide : Kind.field ∉ Kind.holders)
    · obtain rfl := List.mem_singleton.mp hself
      exact (by decide : Kind.fieldDeclarationStatements ∉ Kind.holders)
  · exact ((Shut.of_symbol hsemicolon (by decide) (by decide)).behind second).behind first

theorem barren_typedMember : Meets depth (typedMember sub line mods) tokens fun nodes read _ =>
    Barren nodes read := by
  refine .bind (sound.typeRef _) fun _ types _ _ _ => .expectIdent fun name _ hname => ?_
  have hbehind {nodes : List Node} {read : List Token} (h : Barren nodes read) :
      Barren nodes (types ++ (name :: read)) := (h.behind [name]).behind types
  refine .ifAhead ?_ (.ifAhead ?_ ?_)
  · rintro _ _ rfl -
    exact .map ((barren_methodRest sound).mono fun _ _ _ _ h => hbehind h)
  · rintro _ _ rfl -
    exact .map ((barren_propertyRest sound).mono fun _ _ _ _ h => hbehind h)
  · exact (barren_fieldRest sound hname).mono fun _ _ _ _ h => hbehind h

omit sound in
theorem barren_enumRest : Meets depth (enumRest line mods) tokens fun node read _ => Barren [node] read := by
  refine .expect fun opening _ _ => .map ?_
  refine (shut_collectUntil (by decide) (by decide) fun tokens => ?_).mono fun _ _ _ _ h => ?_
  · exact meets_enumItem.mono fun _ _ _ _ h => h.1
  · exact .one (by decide) (h.behind [opening])

theorem barren_trigger {word : Token} : Meets depth (trigger sub) (word :: tokens) fun node read _ =>
    Barren [node] read := by
  refine .line fun line _ => .advance (.expectIdent fun name _ _ => .expectWord fun onWord _ _ => ?_)
  refine .expectIdent fun object _ _ => .expect fun opening _ _ => ?_
  refine .bind (meets_collectTo [] (fun _ => []) fun _ => meets_triggerEvent) fun _ events _ _ _ => ?_
  refine .map ((barren_block sound).mono fun _ _ _ _ h => .one (by decide) ?_)
  exact (h.shut.behind events).behind [word, name, onWord, object, opening]

end

end Grammar

/-! ### What stands in front of the members -/

/-- Tokens as they stand between the name of a type and its members. -/
def Header (tokens : List Token) : Prop :=
  ∀ token ∈ tokens, token.isHeader = true

namespace Header

theorem nil : Header [] :=
  fun _ hnone => absurd hnone List.not_mem_nil

theorem append (h : Header tokens) (hmore : Header more) : Header (tokens ++ more) :=
  fun token htoken => (List.mem_append.mp htoken).elim (h token) (hmore token)

theorem of_ident (h : token.isIdent = true) : Header [token] := by
  simp [Header, Token.isHeader, Token.isBrace, Token.isSymbol_eq, Token.symbol?_of_isIdent h]

theorem of_symbol (h : token.isSymbol symbol = true)
    (hsymbol : symbol ∉ [.openBrace, .closeBrace, .semicolon]) : Header [token] := by
  simp only [List.mem_cons, List.not_mem_nil, or_false, not_or] at hsymbol
  rw [Token.isSymbol_iff] at h
  simp [Header, Token.isHeader, Token.isBrace, Token.isSymbol_eq, h, hsymbol]

theorem gathers : Gathers fun (_ : List Unit) tokens => Header tokens :=
  ⟨nil, append⟩

end Header

/-- Readers of nested constructs that leave classes where the search finds them, inside of `depth` constructs. -/
structure Nested.Housed (sub : Nested) (depth : Nat) : Prop where
  member (tokens : List Token) : Meets depth sub.member tokens fun nodes read _ => Houses nodes read
  typeRef (tokens : List Token) : Meets depth sub.typeRef tokens fun _ read _ => Header read

namespace Grammar

section

variable (sound : sub.Sound depth) (housed : sub.Housed depth)
include sound housed

theorem header_typeList : Meets depth (typeList sub) tokens fun _ read _ => Header read := by
  refine .map ((Header.gathers.meets_separated (fun _ => []) ?_ fun tokens => ?_).mono fun _ _ _ _ h => h.2)
  · exact fun comma hcomma => .of_symbol hcomma (by decide)
  · exact ((sound.typeRef tokens).and (housed.typeRef tokens)).mono fun _ _ _ _ h => ⟨h.1.1, h.2⟩

theorem header_typeArguments? : Meets depth (typeArguments? sub) tokens fun _ read _ => Header read := by
  refine .ifAhead (fun _ _ _ _ => .map ?_) (.pure .nil)
  refine .expect fun less _ hless => .bind (header_typeList sound housed) fun _ types _ _ htypes => ?_
  refine meets_expect.mono ?_
  rintro _ _ _ rfl ⟨greater, rfl, hgreater⟩
  exact (Header.of_symbol hless (by decide)).append (htypes.append (.of_symbol hgreater (by decide)))

theorem header_typeRef : Meets depth (typeRef sub) tokens fun _ read _ => Header read := by
  refine .expectIdent fun name _ hname => ?_
  refine .bind (Header.gathers.meets_skipPairs fun dot name hdot hname => ?_) fun _ further _ _ hfurther => ?_
  · exact (Header.of_symbol hdot (by decide)).append (.of_ident hname)
  refine .bind (header_typeArguments? sound housed) fun _ arguments _ _ harguments => ?_
  refine (Header.gathers.meets_skipPairs fun opening closing hopening hclosing => ?_).mono ?_
  · exact (Header.of_symbol hopening (by decide)).append (.of_symbol hclosing (by decide))
  · exact fun _ brackets _ _ hbrackets =>
      (Header.of_ident hname).append (hfurther.append (harguments.append hbrackets))

theorem header_typesAfter (word : String) :
    Meets depth (typesAfter sub word) tokens fun _ read _ => Header read := by
  refine .ifEat ?_ (.pure .nil)
  rintro token rest rfl hword
  refine (header_typeList sound housed).mono fun _ _ _ _ h => ?_
  exact (Header.of_ident (Token.isIdent_of_isWord hword)).append h

/-! ### Types and their members -/

theorem houses_classRest {kind : Kind} {line : Nat} {mods : Node} {annotations : List Node} {word name : Token}
    (hkind : kind ∈ [.userClass, .userInterface]) (hopens : kind.OpensWith [word]) (hname : name.isIdent = true)
    (hfront : Reading front annotations) (undotted : Undotted front) (hmods : Classless [mods]) :
    Meets depth (classRest sub kind line mods) tokens fun node read _ =>
      Houses [node] (front ++ (word :: name :: read)) := by
  refine .bind (header_typesAfter sound housed _) fun _ parents _ _ hparents => ?_
  refine .bind (header_typesAfter sound housed _) fun _ contracts _ _ hcontracts => ?_
  refine .expect fun opening _ hopening => .map ((Houses.gathers.meets_collectUntil id fun tokens => ?_).mono ?_)
  · exact ((sound.member tokens).and (housed.member tokens)).mono fun _ _ _ _ h => ⟨h.1.1, h.2⟩
  · rintro members _ _ - ⟨inner, closing, rfl, hclosing, hmembers⟩
    rw [List.flatMap_id] at hmembers
    have hheader : Header (name :: (parents ++ contracts)) :=
      (Header.of_ident hname).append (hparents.append hcontracts)
    have hbody : Encloses
        (front ++ (word :: ((name :: (parents ++ contracts)) ++ (opening :: (inner ++ [closing])))))
        [⟨kind, line, mods :: members.flatten⟩] :=
      .body hfront undotted hkind hopens hheader hopening hclosing hmembers.encloses rfl hmods
    have hlast : Shut [closing] := .of_symbol hclosing (by decide) (by decide)
    refine ⟨by simpa using hbody, ?_⟩
    simpa using (hlast.behind (front ++ (word :: name :: (parents ++ (contracts ++ (opening :: inner)))))).undotted

theorem houses_typeBody {mods : Node} (hmods : ReadsModifiers mods front tokens) (undotted : Undotted front) :
    Meets depth (typeBody sub mods) tokens fun node read _ => Houses [node] (front ++ read) := by
  have htypes : Meets depth (typeBody sub mods) tokens fun node read _ =>
      Houses [node] (front ++ read) ∨ Barren [node] read := by
    refine .line fun line _ => .bind meets_typeWord ?_
    rintro kind _ _ - ⟨hkind, word, rfl, -, hopens⟩
    refine .expectIdent fun name _ hname => ?_
    split
    case isTrue => exact barren_enumRest.mono fun _ _ _ _ h => .inr (h.behind [word, name])
    case isFalse henum =>
      have hclass : kind ∈ [Kind.userClass, .userInterface] := by
        revert hkind henum
        cases kind <;> decide
      refine (houses_classRest sound housed hclass hopens hname hmods.reading undotted ?_).mono ?_
      · exact hmods.classless
      · exact fun _ _ _ _ h => .inl h
  refine ((meets_typeBody sound hmods.kind).and htypes).mono ?_
  rintro node read left rfl ⟨hnode, hhouses | hbarren⟩
  · exact hhouses
  · exact (hbarren.behind front).houses (hnode.yields hmods (by decide))

theorem houses_member : Meets depth (member sub) tokens fun nodes read _ => Houses nodes read := by
  -- Only a type may have a class inside. All other members are barren.
  have hmember : Meets depth (member sub) tokens fun nodes read _ =>
      Houses nodes read ∨ Barren nodes read := by
    refine .ifEat ?_ (.bind (meets_modifiers.and undotted_modifiers) ?_)
    · rintro semicolon rest rfl hsemicolon
      exact .pure (.inr ⟨by simp, .of_symbol hsemicolon (by decide) (by decide)⟩)
    · rintro mods front rest - ⟨hmods, undotted⟩
      refine .line fun line _ => .ifAhead ?_ (.ifAhead ?_ (.ifPair ?_ ?_))
      · rintro _ _ rfl -
        exact .map ((houses_typeBody sound housed hmods undotted).mono fun _ _ _ _ h => .inl h)
      · rintro _ _ rfl -
        exact .map ((barren_block sound).mono fun _ _ _ _ h => .inr (h.behind front))
      · rintro name opening rest rfl - -
        refine .advance (.map ((barren_methodRest sound).mono fun _ _ _ _ h => .inr ?_))
        exact (h.behind [name]).behind front
      · exact (barren_typedMember sound).mono fun _ _ _ _ h => .inr (h.behind front)
  refine ((meets_member sound).and hmember).mono ?_
  rintro nodes read _ - ⟨⟨-, hyields⟩, hhouses | hbarren⟩
  · exact hhouses
  · exact hbarren.houses hyields

theorem houses_typeDeclaration : Meets depth (typeDeclaration sub) tokens fun node read _ =>
    Houses [node] read := by
  refine .ifPair ?_ (.bind (meets_modifiers.and undotted_modifiers) ?_)
  · rintro word name rest rfl hword -
    refine ((meets_trigger sound hword).and (barren_trigger sound)).mono ?_
    exact fun _ _ _ _ h => h.2.houses h.1
  · rintro mods front rest - ⟨hmods, undotted⟩
    exact houses_typeBody sound housed hmods undotted

end

end Grammar

/-! ### Levels and entries -/

theorem Nested.Housed.around (sound : depth < maxDepth → sub.Sound (depth + 1))
    (housed : depth < maxDepth → sub.Housed (depth + 1)) : sub.around.Housed depth where
  member _ := meets_nested fun hdepth => Grammar.houses_member (sound hdepth) (housed hdepth)
  typeRef _ := meets_nested fun hdepth => Grammar.header_typeRef (sound hdepth) (housed hdepth)

theorem Nested.housed_level (levels : Nat) : ∀ depth, depth ≤ maxDepth → maxDepth < depth + levels →
    (Nested.level levels).Housed depth := by
  induction levels with
  | zero => exact fun depth hdepth hlevels => absurd hlevels (Nat.not_lt.mpr hdepth)
  | succ levels ih =>
    intro depth _ hlevels
    exact .around (fun hdepth => Nested.sound_level levels (depth + 1) hdepth (by omega))
      fun hdepth => ih (depth + 1) hdepth (by omega)

namespace Entry

theorem houses_item (sound : sub.Sound depth) (housed : sub.Housed depth) {entry : Entry}
    (hentry : entry ≠ .statements) : Meets depth (entry.item sub) tokens fun nodes read _ => Houses nodes read := by
  cases entry with
  | typeDeclarations =>
    refine .ifEat ?_ (.map (Grammar.houses_typeDeclaration sound housed))
    rintro semicolon rest rfl hsemicolon
    exact .pure ⟨.plain (.ofSymbol hsemicolon rfl) nofun, .of_symbol hsemicolon (by decide) (by decide)⟩
  | statements => exact absurd rfl hentry
  | members => exact housed.member tokens

theorem encloses_read (sound : sub.Sound depth) (housed : sub.Housed depth) (entry : Entry) :
    Meets depth (entry.read sub) tokens fun nodes read _ => Encloses read nodes := by
  by_cases hentry : entry = .statements
  · -- No statement declares a class.
    subst hentry
    refine (meets_read sound .statements).mono fun nodes read _ _ h => .of_yields h.1 fun node hnode => ?_
    exact (by decide : ∀ kind ∈ Kind.statements, kind ∉ Kind.holders) _ (h.1.holds.kinds node hnode)
  · refine .map ((Houses.gathers.meets_many id fun tokens => .bind meets_atEnd ?_).mono ?_)
    · rintro _ _ tokens rfl ⟨rfl, -, rfl⟩
      split
      case isTrue => exact .pure Houses.gathers.nil
      case isFalse =>
        refine .map (((meets_item sound entry).and (houses_item sound housed hentry)).mono ?_)
        exact fun _ _ _ _ h => ⟨h.1.1, h.2⟩
    · intro items _ _ _ h
      rw [List.flatMap_id] at h
      exact h.encloses

end Entry

/-- The tokens of a source enclose the classes of its tree. -/
theorem encloses_of_parsed {source : String} {root : Node} (h : reader source = .parsed root) :
    ∃ tokens, tokenize source = .ok tokens ∧ Encloses tokens root.children := by
  obtain ⟨tokens, nodes, htokens, rfl, entry, hread⟩ := exists_readAs_of_parsed h
  have sound : (Nested.level (maxDepth + 1)).Sound 0 := Nested.sound_level _ 0 (Nat.zero_le _) (by omega)
  have housed : (Nested.level (maxDepth + 1)).Housed 0 := Nested.housed_level _ 0 (Nat.zero_le _) (by omega)
  obtain ⟨read, left, rfl, ⟨-, rfl⟩, hencloses⟩ :=
    exists_of_readAs ((entry.meets_read sound).and (entry.encloses_read sound housed)) hread
  exact ⟨read ++ [], htokens, (List.append_nil read).symm ▸ hencloses⟩

end Exemplar.Code
