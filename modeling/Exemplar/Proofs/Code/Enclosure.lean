import Exemplar.Proofs.Code.Keyword
import Exemplar.Proofs.Code.Mark

/-!
# Bodies of classes

What is read as anything but a class leaves the search for nested classes as it came, since braces are read in
pairs. `Encloses tokens nodes` adds what the grammar knows of types: their members stand in one pair of braces
behind the word of the type, with nothing in between that the search acts on. From there on, the search finds a
class inside of another one where the tree has one.
-/

namespace Exemplar.Code

variable {braces : Braces} {mark : Mark} {marks : List Mark} {behindDot : Bool} {opening closing word token : Token}
  {front header tokens more : List Token} {node mods : Node} {nodes others annotations : List Node}

/-! ### Regions without classes -/

def Token.isBrace (token : Token) : Bool :=
  token.isSymbol .openBrace || token.isSymbol .closeBrace

/-- A query with its square brackets. -/
def IsQuery (tokens : List Token) : Prop :=
  ∃ opening rest, tokens = opening :: rest ∧ startsQuery opening rest = true ∧ behindBracket? 0 rest = some []

/-- No query among the tokens holds a brace. -/
def PlainQueries (tokens : List Token) : Prop :=
  ∀ query, query <:+: tokens → IsQuery query → ∀ token ∈ query, token.isBrace = false

theorem PlainQueries.part (h : PlainQueries tokens) (hmore : more <:+: tokens) : PlainQueries more :=
  fun query hquery => h query (hquery.trans hmore)

theorem PlainQueries.left (h : PlainQueries (tokens ++ more)) : PlainQueries tokens :=
  h.part (List.prefix_append _ _).isInfix

theorem PlainQueries.right (h : PlainQueries (tokens ++ more)) : PlainQueries more :=
  h.part (List.suffix_append _ _).isInfix

theorem PlainQueries.of_none (h : ∀ token ∈ tokens, token.isSymbol .openBracket = false) :
    PlainQueries tokens := by
  rintro query hquery ⟨opening, rest, rfl, hstart, -⟩
  have hopening := (Bool.and_eq_true_iff.mp hstart).1
  rw [h opening (hquery.subset List.mem_cons_self)] at hopening
  cases hopening

/-- Tokens that declare nothing and hold no brace at most end what is pending. -/
theorem eq_ends_of_mem_marksFrom (hfree : .declares ∉ marksFrom behindDot tokens)
    (hplain : ∀ token ∈ tokens, token.isBrace = false) (h : mark ∈ marksFrom behindDot tokens) :
    mark = .ends := by
  obtain ⟨token, htoken, symbol, hsymbol, hmark⟩ :=
    exists_symbol_of_mem_marksFrom h fun heq => hfree (heq ▸ h)
  have hbrace := hplain token htoken
  rw [Token.isBrace, Token.isSymbol_eq, Token.isSymbol_eq, hsymbol] at hbrace
  cases symbol <;> cases hmark <;> first | rfl | cases hbrace

theorem Token.isBrace_of_isBracket (h : token.isBracket = false) : token.isBrace = false := by
  rw [isBrace, isSymbol_eq, isSymbol_eq]
  rw [isBracket] at h
  cases hsymbol : token.symbol? with
  | none => rfl
  | some symbol =>
    rw [hsymbol, Option.any_some] at h
    cases symbol <;> first | rfl | cases h

/-- Tokens that leave the search as it came to them, unless they declare something. -/
def Passed (tokens : List Token) : Prop :=
  ∀ behindDot, .declares ∉ marksFrom behindDot tokens → ∀ braces : Braces, braces.Settled → ∀ marks,
    braces.nests (marksFrom behindDot tokens ++ marks) = braces.nests marks

theorem Passed.append (h : Passed tokens) (hmore : Passed more) : Passed (tokens ++ more) := by
  intro behindDot hfree braces settled marks
  rw [marksFrom_append] at hfree ⊢
  rw [List.mem_append, not_or] at hfree
  rw [List.append_assoc, h _ hfree.1 braces settled, hmore _ hfree.2 braces settled]

theorem Passed.of_plain (hplain : ∀ token ∈ tokens, token.isBrace = false) : Passed tokens :=
  fun _ hfree _ settled => settled.nests_ends fun _ hmark => eq_ends_of_mem_marksFrom hfree hplain hmark

/-- A brace and the one that closes it, or other brackets, which the search does not see. -/
theorem Passed.bracketed (hpair : opening.IsClosedBy closing) (h : Passed tokens) :
    Passed (opening :: (tokens ++ [closing])) := by
  obtain ⟨symbol, close, hopening, hclose, hclosing⟩ := hpair
  intro behindDot hfree braces settled marks
  rw [marksFrom_bracketed hopening hclosing] at hfree ⊢
  have hinner : .declares ∉ marksFrom opening.isDot tokens := by
    simp only [List.mem_append, not_or] at hfree
    exact hfree.2.1
  -- Only a brace leaves a mark, and so does the one that closes it.
  cases symbol <;> cases hclose
  case openBrace =>
    have hback : braces.opened.nests (marksFrom opening.isDot tokens ++ (.closes :: marks)) = braces.nests marks :=
      (h _ hinner _ settled.opened _).trans (settled.nests_opened_closes marks)
    rw [List.append_assoc, List.append_assoc]
    exact (settled.nests_opens _).trans hback
  case openParen | openBracket =>
    have hsame : ([] ++ (marksFrom opening.isDot tokens ++ [])) ++ marks =
        marksFrom opening.isDot tokens ++ marks := by
      rw [List.nil_append, List.append_nil]
    exact (congrArg _ hsame).trans (h _ hinner _ settled marks)

/-- What was read leaves the search as it came, if it declares nothing. -/
theorem Reading.passed (h : Reading tokens nodes) (hqueries : PlainQueries tokens) : Passed tokens := by
  induction h with
  | nil => exact fun _ _ _ _ _ => rfl
  | token plain => exact .of_plain (by simpa using Token.isBrace_of_isBracket plain)
  | query hopening hword hclosed =>
    refine .of_plain (hqueries _ List.infix_rfl ⟨_, _, rfl, ?_, hclosed⟩)
    rw [startsQuery, hopening, Bool.true_and, List.head?_cons, Option.any_some, Bool.or_eq_true]
    exact hword
  | @bracketed opening closing tokens nodes hpair _ ih =>
    refine .bracketed hpair (ih (hqueries.part ⟨[opening], [closing], rfl⟩))
  | append _ _ ihFront ihBack => exact (ihFront hqueries.left).append (ihBack hqueries.right)
  | unseen _ ih => exact ih hqueries
  | node _ _ _ _ _ ih => exact ih hqueries
  | modified _ _ _ _ _ ihAnnotations ihBack | declared _ _ _ _ _ _ _ _ _ ihAnnotations ihBack =>
    exact (ihAnnotations hqueries.left).append (ihBack hqueries.right)

/-! ### Classes -/

/-- Whatever stands behind the tokens does not stand behind a dot. -/
def Undotted (tokens : List Token) : Prop :=
  endsInDot false tokens = false

theorem Undotted.append (h : Undotted tokens) (hmore : Undotted more) : Undotted (tokens ++ more) := by
  rw [Undotted, endsInDot_append, h]
  exact hmore

/-- Only the last token counts. -/
theorem Undotted.behind (h : Undotted more) (hmore : more ≠ []) (tokens : List Token) :
    Undotted (tokens ++ more) := by
  obtain ⟨token, rest, rfl⟩ := List.exists_cons_of_ne_nil hmore
  rw [Undotted, endsInDot_cons] at h
  rw [Undotted, endsInDot_append, endsInDot_cons, h]

theorem Undotted.of_symbol {symbol : Symbol} (h : token.isSymbol symbol = true) (hdot : symbol ≠ .dot)
    (hsafe : symbol ≠ .safeDot) : Undotted [token] := by
  rw [Token.isSymbol_iff] at h
  simp [Undotted, endsInDot, Token.isDot, Token.isSymbol_eq, h, hdot, hsafe]

theorem Undotted.of_ident (h : token.isIdent = true) : Undotted [token] := by
  simp [Undotted, endsInDot, Token.isDot, Token.isSymbol_eq, Token.symbol?_of_isIdent h]

/-- None of the nodes, or of those below them, is a class. -/
def Classless (nodes : List Node) : Prop :=
  ∀ node ∈ Node.preorderAll nodes, node.kind ≠ .userClass

/-- The kinds of nodes that a class may be right below. -/
def Kind.holders : List Kind :=
  [.apexFile, .userClass, .userInterface]

theorem Kind.notMem_holders {kind : Kind} (h : kind ∉ holders) :
    ∀ form ∈ kind.forms, ∀ slot ∈ form, ∀ child ∈ slot.kinds, child ∉ holders := by
  revert h
  cases kind <;> decide

/-- Classes are only below classes, interfaces and files. -/
theorem kind_notMem_holders : ∀ {nodes : List Node}, (∀ node ∈ Node.preorderAll nodes, node.IsShaped) →
    (∀ node ∈ nodes, node.kind ∉ Kind.holders) → ∀ node ∈ Node.preorderAll nodes, node.kind ∉ Kind.holders
  | ⟨kind, line, children⟩ :: rest, hshaped, hkinds, node, hnode => by
    have hself : (⟨kind, line, children⟩ : Node) ∈ Node.preorderAll (⟨kind, line, children⟩ :: rest) :=
      Node.mem_preorderAll_of_mem List.mem_cons_self
    have hchildren : ∀ child ∈ children, child.kind ∉ Kind.holders := by
      intro child hchild
      obtain ⟨form, hform, hfollows⟩ := hshaped _ hself
      obtain ⟨slot, hslot, hkind⟩ := hfollows.exists_slot hchild
      exact Kind.notMem_holders (hkinds _ List.mem_cons_self) form hform slot hslot _ hkind
    rcases Node.mem_preorderAll_cons.mp hnode with rfl | hbelow | hrest
    · exact hkinds _ List.mem_cons_self
    · refine kind_notMem_holders (fun inner hinner => hshaped inner ?_) hchildren node hbelow
      exact Node.mem_preorderAll_cons.mpr (.inr (.inl hinner))
    · refine kind_notMem_holders (fun inner hinner => hshaped inner ?_)
        (fun other hother => hkinds other (List.mem_cons_of_mem _ hother)) node hrest
      exact Node.mem_preorderAll_cons.mpr (.inr (.inr hinner))

theorem Structured.classless (h : Structured nodes) (hkinds : ∀ node ∈ nodes, node.kind ∉ Kind.holders) :
    Classless nodes := by
  intro node hnode hclass
  have hholder := kind_notMem_holders (fun inner hinner => (h.inside inner hinner).1) hkinds node hnode
  exact hholder (hclass ▸ by decide)

/-- A token that may stand between the name of a type and its members. -/
def Token.isHeader (token : Token) : Bool :=
  !token.isBrace && !token.isSymbol .semicolon

/-- Tokens with the nodes that were read from them, as far as classes go. -/
inductive Encloses : List Token → List Node → Prop
  | plain {tokens : List Token} {inner nodes : List Node} (reading : Reading tokens inner)
      (classless : Classless nodes) : Encloses tokens nodes
  | append {tokens more : List Token} {nodes others : List Node} (front : Encloses tokens nodes)
      (undotted : Undotted tokens) (back : Encloses more others) : Encloses (tokens ++ more) (nodes ++ others)
  | body {node mods : Node} {front header tokens : List Token} {annotations nodes : List Node}
      {word opening closing : Token}
      (modifiers : Reading front annotations) (undotted : Undotted front)
      (hkind : node.kind ∈ [.userClass, .userInterface]) (opens : node.kind.OpensWith [word])
      (hheader : ∀ token ∈ header, token.isHeader = true) (hopening : opening.isSymbol .openBrace = true)
      (hclosing : closing.isSymbol .closeBrace = true) (members : Encloses tokens nodes)
      (hchildren : node.children = mods :: nodes) (hmods : Classless [mods]) :
      Encloses (front ++ (word :: (header ++ (opening :: (tokens ++ [closing]))))) [node]

theorem Encloses.of_yields {slot : Slot} (h : Yields slot nodes tokens)
    (hkinds : ∀ node ∈ nodes, node.kind ∉ Kind.holders) : Encloses tokens nodes :=
  .plain h.reading (h.reading.structured.classless hkinds)

/-- How many classes there are among the nodes and below them. -/
def classCount (nodes : List Node) : Nat :=
  (Node.preorderAll nodes).countP (·.kind == .userClass)

theorem classCount_append (nodes others : List Node) :
    classCount (nodes ++ others) = classCount nodes + classCount others := by
  simp only [classCount, Node.preorderAll_eq_flatMap, List.flatMap_append, List.countP_append]

theorem Classless.classCount_eq (h : Classless nodes) : classCount nodes = 0 :=
  List.countP_eq_zero.mpr fun node hnode => by simpa using h node hnode

theorem classCount_singleton (node : Node) :
    classCount [node] = (if node.kind = .userClass then 1 else 0) + classCount node.children := by
  rw [classCount, Node.preorderAll_singleton, Node.preorder_eq, List.countP_cons, Nat.add_comm]
  simp [classCount]

/-- The modifiers of a type add no class to those of its members. -/
theorem mem_children_iff (hchildren : node.children = mods :: nodes) (hmods : Classless [mods]) {inner : Node}
    (hkind : inner.kind = .userClass) :
    inner ∈ Node.preorderAll node.children ↔ inner ∈ Node.preorderAll nodes := by
  rw [hchildren, ← List.singleton_append, Node.mem_preorderAll_append]
  exact or_iff_right fun hmod => hmods inner hmod hkind

theorem classCount_body (hchildren : node.children = mods :: nodes) (hmods : Classless [mods]) :
    classCount [node] = (if node.kind = .userClass then 1 else 0) + classCount nodes := by
  rw [classCount_singleton, hchildren, ← List.singleton_append, classCount_append, hmods.classCount_eq,
    Nat.zero_add]

/-- The search sees nothing between the word of a type and its members. -/
theorem marksFrom_header (hfree : .declares ∉ marksFrom behindDot header)
    (hheader : ∀ token ∈ header, token.isHeader = true) : marksFrom behindDot header = [] := by
  refine List.eq_nil_iff_forall_not_mem.mpr fun mark h => ?_
  obtain ⟨token, htoken, symbol, hsymbol, hmark⟩ :=
    exists_symbol_of_mem_marksFrom h fun heq => hfree (heq ▸ h)
  have hplain := hheader token htoken
  rw [Token.isHeader, Token.isBrace, Token.isSymbol_eq, Token.isSymbol_eq, Token.isSymbol_eq, hsymbol] at hplain
  cases symbol <;> cases hmark <;> cases hplain

/-- Only the word of a class declares something. -/
theorem mark?_of_opensWith {kind : Kind} (hkind : kind ∈ [.userClass, .userInterface])
    (opens : kind.OpensWith [word]) : word.mark? false = if kind = .userClass then some .declares else none := by
  simp only [List.mem_cons, List.not_mem_nil, or_false] at hkind
  rcases hkind with rfl | rfl
  · have hword : word.isWord "class" = true := opens
    rw [Token.mark?, hword]
    rfl
  · have hword : word.isWord "interface" = true := opens
    have hclass : word.isWord "class" = false := by
      rw [← Bool.not_eq_true]
      intro hclass
      have hsame := (Token.isWord_iff.mp hword).2.symm.trans (Token.isWord_iff.mp hclass).2
      exact absurd hsame (by decide)
    rw [Token.mark?, hclass, Token.symbol?_of_isIdent (Token.isIdent_of_isWord hword)]
    rfl

/-- The marks of a type with its members. -/
theorem marksFrom_body (undotted : Undotted front) (hopening : opening.isSymbol .openBrace = true)
    (hclosing : closing.isSymbol .closeBrace = true) :
    marksFrom false (front ++ (word :: (header ++ (opening :: (tokens ++ [closing]))))) =
      marksFrom false front ++ ((word.mark? false).toList ++ (marksFrom word.isDot header ++
        (.opens :: (marksFrom false tokens ++ [.closes])))) := by
  have hdot : opening.isDot = false := Undotted.of_symbol hopening (by decide) (by decide)
  rw [Token.isSymbol_iff] at hopening hclosing
  rw [marksFrom_append, undotted, marksFrom_cons, marksFrom_append, marksFrom_bracketed hopening hclosing, hdot]
  rfl

theorem count_marksFrom_body (undotted : Undotted front) (hkind : node.kind ∈ [.userClass, .userInterface])
    (opens : node.kind.OpensWith [word]) (hopening : opening.isSymbol .openBrace = true)
    (hclosing : closing.isSymbol .closeBrace = true) :
    (marksFrom false (front ++ (word :: (header ++ (opening :: (tokens ++ [closing])))))).count .declares =
      (marksFrom false front).count .declares + ((if node.kind = .userClass then 1 else 0) +
        ((marksFrom word.isDot header).count .declares + (marksFrom false tokens).count .declares)) := by
  rw [marksFrom_body undotted hopening hclosing, mark?_of_opensWith hkind opens]
  split
  case isTrue =>
    simp only [Option.toList_some, List.count_append, List.count_cons_self, List.count_nil]
    simp
  case isFalse => simp

/-- No class goes without a word for it. -/
theorem Encloses.classCount_le (h : Encloses tokens nodes) :
    classCount nodes ≤ (marksFrom false tokens).count .declares := by
  induction h with
  | plain _ classless =>
    rw [classless.classCount_eq]
    exact Nat.zero_le _
  | append _ undotted _ ihFront ihBack =>
    rw [classCount_append, marksFrom_append, undotted, List.count_append]
    exact Nat.add_le_add ihFront ihBack
  | @body node mods front header tokens annotations nodes word opening closing _ undotted hkind opens _ hopening
      hclosing _ hchildren hmods ih =>
    rw [count_marksFrom_body undotted hkind opens hopening hclosing, classCount_body hchildren hmods]
    omega

/-- Whether one of the nodes, or of those below them, is a class inside of another one, where all of them may
already be inside of one. -/
def InsideClass (inside : Prop) (nodes : List Node) : Prop :=
  ∃ node ∈ Node.preorderAll nodes, node.kind = .userClass ∧
    (inside ∨ ∃ inner ∈ Node.preorderAll node.children, inner.kind = .userClass)

variable {inside : Prop}

theorem insideClass_append : InsideClass inside (nodes ++ others) ↔
    InsideClass inside nodes ∨ InsideClass inside others := by
  simp only [InsideClass, Node.mem_preorderAll_append, or_and_right, exists_or]

theorem Classless.not_insideClass (h : Classless nodes) : ¬ InsideClass inside nodes := by
  rintro ⟨node, hnode, hkind, -⟩
  exact h node hnode hkind

theorem insideClass_body (hchildren : node.children = mods :: nodes) (hmods : Classless [mods]) :
    InsideClass inside [node] ↔
      if node.kind = .userClass then inside ∨ InsideClass True nodes else InsideClass inside nodes := by
  have hself : node ∈ Node.preorderAll [node] := Node.mem_preorderAll_of_mem List.mem_cons_self
  have hbelow {inner : Node} (hkind : inner.kind = .userClass) :
      inner ∈ Node.preorderAll [node] ↔ inner = node ∨ inner ∈ Node.preorderAll nodes := by
    rw [Node.preorderAll_singleton, Node.preorder_eq, List.mem_cons, mem_children_iff hchildren hmods hkind]
  by_cases hclass : node.kind = .userClass
  · rw [if_pos hclass]
    constructor
    · rintro ⟨found, hfound, hkind, hinside⟩
      rcases (hbelow hkind).mp hfound with rfl | hmember
      · refine hinside.imp_right fun ⟨inner, hinner, hkind⟩ => ?_
        exact ⟨inner, (mem_children_iff hchildren hmods hkind).mp hinner, hkind, .inl trivial⟩
      · exact .inr ⟨found, hmember, hkind, .inl trivial⟩
    · rintro (hinside | ⟨inner, hinner, hkind, -⟩)
      · exact ⟨node, hself, hclass, .inl hinside⟩
      · exact ⟨node, hself, hclass, .inr ⟨inner, (mem_children_iff hchildren hmods hkind).mpr hinner, hkind⟩⟩
  · -- The node is none of the classes that count.
    have hmember {inner : Node} (hkind : inner.kind = .userClass) :
        inner ∈ Node.preorderAll [node] ↔ inner ∈ Node.preorderAll nodes :=
      (hbelow hkind).trans (or_iff_right fun heq => hclass (heq ▸ hkind))
    rw [if_neg hclass]
    constructor
    · rintro ⟨found, hfound, hkind, hinside⟩
      exact ⟨found, (hmember hkind).mp hfound, hkind, hinside⟩
    · rintro ⟨found, hfound, hkind, hinside⟩
      exact ⟨found, (hmember hkind).mpr hfound, hkind, hinside⟩

/-- The search finds a class inside of another one where the tree has one, unless more words than those of the
classes declare something. -/
theorem Encloses.nests_append_iff (h : Encloses tokens nodes) (hqueries : PlainQueries tokens)
    (hwords : (marksFrom false tokens).count .declares = classCount nodes) :
    ∀ braces : Braces, braces.Settled → ∀ marks, braces.nests (marksFrom false tokens ++ marks) = true ↔
      InsideClass (braces.bodies ≠ []) nodes ∨ braces.nests marks = true := by
  induction h with
  | plain reading classless =>
    intro braces settled marks
    have hfree : .declares ∉ marksFrom false _ :=
      List.count_eq_zero.mp (hwords.trans classless.classCount_eq)
    rw [reading.passed hqueries _ hfree braces settled, or_iff_right classless.not_insideClass]
  | append front undotted back ihFront ihBack =>
    intro braces settled marks
    rw [marksFrom_append, undotted, List.count_append, classCount_append] at hwords
    have hle := front.classCount_le
    have hleBack := back.classCount_le
    rw [marksFrom_append, undotted, List.append_assoc, insideClass_append, or_assoc,
      ihFront hqueries.left (by omega) braces settled, ihBack hqueries.right (by omega) braces settled]
  | @body node mods front header tokens annotations nodes word opening closing modifiers undotted hkind opens
      hheader hopening hclosing members hchildren hmods ih =>
    intro braces settled marks
    -- The words are those of the classes below and of the type itself, so the rest declares nothing.
    have hle := members.classCount_le
    rw [count_marksFrom_body undotted hkind opens hopening hclosing, classCount_body hchildren hmods] at hwords
    have hfront : .declares ∉ marksFrom false front := List.count_eq_zero.mp (by omega)
    have hempty : marksFrom word.isDot header = [] :=
      marksFrom_header (List.count_eq_zero.mp (by omega)) hheader
    have hinner := ih (hqueries.part ⟨front ++ (word :: (header ++ [opening])), [closing], by simp⟩) (by omega)
    rw [marksFrom_body undotted hopening hclosing, mark?_of_opensWith hkind opens, hempty, List.nil_append,
      List.append_assoc, modifiers.passed hqueries.left _ hfront braces settled, insideClass_body hchildren hmods]
    simp only [List.append_assoc, List.cons_append, List.nil_append]
    split
    case isTrue =>
      have hbodies : (braces.marked .declares).opened.bodies ≠ [] := List.cons_ne_nil _ _
      rw [Option.toList_some, List.singleton_append, Braces.nests_declares_opens, Bool.or_eq_true,
        hinner _ settled.opened_declared, settled.nests_declared_closes, Bool.not_eq_true',
        List.isEmpty_eq_false_iff, or_assoc]
      simp [hbodies]
    case isFalse =>
      rw [Option.toList_none, List.nil_append, settled.nests_opens, hinner _ settled.opened,
        settled.nests_opened_closes, settled.bodies_opened]

end Exemplar.Code
