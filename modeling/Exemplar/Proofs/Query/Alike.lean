import Exemplar.Proofs.Query.LetBlock
import Exemplar.Proofs.Query.Quote
import Exemplar.Query.NodeType
import Exemplar.Query.Attribute
import Mathlib.Data.List.Forall2
import Mathlib.Data.Option.Basic

/-!
# What is quoted has no influence

Two queries that differ only between the marks of their literals have the same attributes, the same node types and
bind the same variables. All of these are read outside of quotes, and each scan passes over a literal in the state in
which it met it. What a scan looks back at or ahead to is a matter of the last or the first characters, up to
a quotation mark, and so it is the same too.
-/

namespace Exemplar.Query

open Text (byteSize byteSize_cons)

variable {q : Char} {tail cs cs' body : List Char} {before : Option Char} {test : Char → Bool}

/-! ### Queries that differ in what is quoted -/

/-- Nothing, or a mark that is never closed. -/
inductive IsUnclosed : List Char → Prop
  | nil : IsUnclosed []
  | mark {q : Char} {cs : List Char} (mark : Text.isQuote q = true) (free : q ∉ cs) : IsUnclosed (q :: cs)

/-- Two texts that differ only between the marks of closed literals. Behind these both end in the same way. -/
inductive Alike (tail : List Char) : List Char → List Char → Prop
  | tail (unclosed : IsUnclosed tail) : Alike tail tail tail
  | plain {c : Char} {cs cs' : List Char} (plain : Text.isQuote c = false) (rest : Alike tail cs cs') :
      Alike tail (c :: cs) (c :: cs')
  | literal {q : Char} {body body' cs cs' : List Char} (mark : Text.isQuote q = true) (free : q ∉ body)
      (free' : q ∉ body') (rest : Alike tail cs cs') :
      Alike tail (q :: (body ++ q :: cs)) (q :: (body' ++ q :: cs'))

theorem eq_false_of_isQuote (test : Char → Bool) (rejects : ['\'', '"'].any test = false)
    (mark : Text.isQuote q = true) : test q = false := by
  rw [List.any_eq_false] at rejects
  rcases eq_of_isQuote mark with rfl | rfl
  · exact Bool.eq_false_iff.mpr (rejects '\'' (by decide))
  · exact Bool.eq_false_iff.mpr (rejects '"' (by decide))

/-- Related values are taken on to related values. -/
theorem rel_bind {α β : Type} {R : α → α → Prop} {S : β → β → Prop} {x x' : Option α} {f f' : α → Option β}
    (h : Option.Rel R x x') (hf : ∀ a a', R a a' → Option.Rel S (f a) (f' a')) :
    Option.Rel S (x.bind f) (x'.bind f') := by
  cases h with
  | some h => exact hf _ _ h
  | none => exact .none

theorem rel_map {α β : Type} {R : α → α → Prop} {S : β → β → Prop} {x x' : Option α} {f f' : α → β}
    (h : Option.Rel R x x') (hf : ∀ a a', R a a' → S (f a) (f' a')) : Option.Rel S (x.map f) (x'.map f') := by
  cases h with
  | some h => exact .some (hf _ _ h)
  | none => exact .none

theorem map_eq_of_rel {α β : Type} {f : α → β} {x x' : Option α} (h : Option.Rel (fun a a' => f a = f a') x x') :
    x.map f = x'.map f := by
  cases h with
  | some h => exact congrArg some h
  | none => rfl

theorem isSome_of_rel {α : Type} {R : α → α → Prop} {x x' : Option α} (h : Option.Rel R x x') :
    x.isSome = x'.isSome := by
  cases h <;> rfl

namespace Alike

theorem head?_eq (alike : Alike tail cs cs') : cs.head? = cs'.head? := by
  cases alike <;> rfl

theorem isEmpty_eq (alike : Alike tail cs cs') : cs.isEmpty = cs'.isEmpty := by
  cases alike <;> rfl

/-- A stretch of characters that are no quotation marks ends at the first literal. -/
theorem takeWhile_eq (alike : Alike tail cs cs') (rejects : ['\'', '"'].any test = false) :
    cs.takeWhile test = cs'.takeWhile test := by
  induction alike with
  | tail unclosed => rfl
  | plain plain rest ih => rw [List.takeWhile_cons, List.takeWhile_cons, ih]
  | literal mark free free' rest ih =>
    have hq := eq_false_of_isQuote test rejects mark
    rw [List.takeWhile_cons, List.takeWhile_cons, hq]
    rfl

theorem dropWhile (alike : Alike tail cs cs') (rejects : ['\'', '"'].any test = false) :
    Alike tail (cs.dropWhile test) (cs'.dropWhile test) := by
  induction alike with
  | tail unclosed =>
    -- What is not closed begins with a mark, if it is there at all.
    have hstops : tail.dropWhile test = tail := by
      cases unclosed with
      | nil => rfl
      | mark mark free => rw [List.dropWhile_cons, eq_false_of_isQuote test rejects mark, if_neg Bool.false_ne_true]
    rw [hstops]
    exact .tail unclosed
  | @plain c cs cs' plain rest ih =>
    rw [List.dropWhile_cons, List.dropWhile_cons]
    split
    · exact ih
    · exact .plain plain rest
  | literal mark free free' rest ih =>
    have hq := eq_false_of_isQuote test rejects mark
    rw [List.dropWhile_cons, List.dropWhile_cons, hq, if_neg Bool.false_ne_true, if_neg Bool.false_ne_true]
    exact .literal mark free free' rest

/-- A word without quotation marks stands in both texts or in neither. -/
theorem isPrefixOf? (alike : Alike tail cs cs') {word : List Char} (plain : word.any Text.isQuote = false) :
    Option.Rel (Alike tail) (word.isPrefixOf? cs) (word.isPrefixOf? cs') := by
  induction word generalizing cs cs' with
  | nil => exact .some alike
  | cons p word ih =>
    obtain ⟨hp, hword⟩ := Bool.or_eq_false_iff.mp (List.any_cons.symm.trans plain)
    -- The word does not begin with a mark, so it is not where a literal is.
    have hmark {q : Char} (mark : Text.isQuote q = true) (cs : List Char) :
        (p :: word).isPrefixOf? (q :: cs) = none := by
      have hne : ¬ p = q := by
        rintro rfl
        rw [mark] at hp
        cases hp
      simp only [List.isPrefixOf?, beq_iff_eq, hne, if_false]
    cases alike with
    | tail unclosed =>
      cases unclosed with
      | nil => exact .none
      | mark mark free =>
        rw [hmark mark]
        exact .none
    | @plain c cs cs' _ rest =>
      simp only [List.isPrefixOf?]
      split
      · exact ih rest hword
      · exact .none
    | literal mark free free' rest =>
      rw [hmark mark, hmark mark]
      exact .none

/-- The first of some words without quotation marks is the same one in both texts. -/
theorem afterAny? (alike : Alike tail cs cs') {words : List (List Char)}
    (plain : words.any (·.any Text.isQuote) = false) :
    Option.Rel (Alike tail) (Text.afterAny? words cs) (Text.afterAny? words cs') := by
  induction words with
  | nil => exact .none
  | cons word words ih =>
    obtain ⟨hword, hwords⟩ := Bool.or_eq_false_iff.mp (List.any_cons.symm.trans plain)
    have hfound := alike.isPrefixOf? hword
    rw [Text.afterAny?, Text.afterAny?, List.findSome?_cons, List.findSome?_cons]
    generalize word.isPrefixOf? cs = found at hfound ⊢
    generalize word.isPrefixOf? cs' = found' at hfound ⊢
    cases hfound with
    | some alike => exact .some alike
    | none => exact ih hwords

theorem append {front front' : List Char} (alike : Alike [] front front') (rest : Alike tail cs cs') :
    Alike tail (front ++ cs) (front' ++ cs') := by
  induction alike with
  | tail unclosed => exact rest
  | plain plain _ ih => exact .plain plain ih
  | @literal q body body' front front' mark free free' _ ih =>
    rw [List.cons_append, List.append_assoc, List.cons_append, List.cons_append, List.append_assoc, List.cons_append]
    exact .literal mark free free' ih

/-- Without quotation marks there is no difference. -/
theorem of_plain (plain : cs.any Text.isQuote = false) : Alike [] cs cs := by
  induction cs with
  | nil => exact .tail .nil
  | cons c cs ih =>
    obtain ⟨hc, hcs⟩ := Bool.or_eq_false_iff.mp (List.any_cons.symm.trans plain)
    exact .plain hc (ih hcs)

/-- A literal is one from either end. -/
theorem reverse (alike : Alike [] cs cs') : Alike [] cs.reverse cs'.reverse := by
  induction alike with
  | tail unclosed => exact .tail unclosed
  | plain plain rest ih =>
    rw [List.reverse_cons, List.reverse_cons]
    exact ih.append (.plain plain (.tail .nil))
  | @literal q body body' cs cs' mark free free' rest ih =>
    -- Turned around, a literal has the same marks, and its body is as free of them.
    have hturn (body cs : List Char) :
        (q :: (body ++ q :: cs)).reverse = cs.reverse ++ q :: (body.reverse ++ [q]) := by
      simp only [List.reverse_cons, List.reverse_append, List.append_assoc, List.cons_append, List.nil_append]
    rw [hturn, hturn]
    exact ih.append (.literal mark (mt List.mem_reverse.mp free) (mt List.mem_reverse.mp free') (.tail .nil))

theorem trimStart (alike : Alike tail cs cs') : Alike tail (Text.trimStart cs) (Text.trimStart cs') :=
  alike.dropWhile (by decide)

theorem trim (alike : Alike [] cs cs') : Alike [] (Text.trim cs) (Text.trim cs') :=
  (alike.trimStart.reverse.dropWhile (by decide)).reverse

end Alike

/-! ### Attributes -/

/-- An attribute is found wherever the query begins. -/
theorem map_fst_attributeRefsFrom (pos pos' : Nat) (quote : Option Char) (cs : List Char) :
    (attributeRefsFrom pos quote cs).map Prod.fst = (attributeRefsFrom pos' quote cs).map Prod.fst := by
  induction cs generalizing pos pos' quote with
  | nil => rfl
  | cons c cs ih =>
    simp only [attributeRefsFrom, List.map_append]
    rw [ih _ (pos' + c.utf8Size)]
    split <;> cases attributeName? cs <;> rfl

/-- Nothing is referred to while a mark is open. -/
theorem attributeRefsFrom_within (free : q ∉ body) (pos : Nat) (cs : List Char) :
    attributeRefsFrom pos (some q) (body ++ cs) = attributeRefsFrom (pos + byteSize body) (some q) cs := by
  induction body generalizing pos with
  | nil => rfl
  | cons c body ih =>
    obtain ⟨hc, hbody⟩ := not_or.mp (mt List.mem_cons.mpr free)
    rw [List.cons_append, attributeRefsFrom, stepQuote_inside (Ne.symm hc), ih hbody, byteSize_cons, Nat.add_assoc]
    rfl

theorem attributeRefsFrom_literal (mark : Text.isQuote q = true) (free : q ∉ body) (pos : Nat) (cs : List Char) :
    attributeRefsFrom pos none (q :: (body ++ q :: cs)) =
      attributeRefsFrom (pos + q.utf8Size + byteSize body + q.utf8Size) none cs := by
  have hq : (q == '@') = false := eq_false_of_isQuote (· == '@') rfl mark
  rw [attributeRefsFrom, stepQuote_mark mark, attributeRefsFrom_within free, attributeRefsFrom, stepQuote_close, hq]
  rfl

namespace Alike

/-- What follows a name decides whether it is an attribute, and that is at most two characters. -/
theorem attributeName?_eq (alike : Alike tail cs cs') : attributeName? cs = attributeName? cs' := by
  have hdrop : Alike tail (cs.dropWhile Text.isIdentChar) (cs'.dropWhile Text.isIdentChar) :=
    alike.dropWhile (by decide)
  rw [attributeName?, attributeName?, alike.head?_eq, alike.takeWhile_eq (by decide)]
  generalize cs.dropWhile Text.isIdentChar = behind at hdrop ⊢
  generalize cs'.dropWhile Text.isIdentChar = behind' at hdrop ⊢
  cases hdrop with
  | tail unclosed => rfl
  | literal mark free free' rest =>
    rcases eq_of_isQuote mark with rfl | rfl
    · rfl
    · rfl
  | @plain c behind behind' plain rest =>
    by_cases hyphen : c = '-'
    · subst hyphen
      rfl
    by_cases colon : c = ':'
    · -- Only behind a colon the next character matters.
      subst colon
      have hnext := rest.head?_eq
      cases behind with
      | nil =>
        obtain rfl := List.head?_eq_none_iff.mp hnext.symm
        rfl
      | cons d behind =>
        obtain ⟨behind', rfl⟩ := List.head?_eq_some_iff.mp hnext.symm
        by_cases assigned : d = '='
        · subst assigned
          rfl
        · simp [assigned]
    · simp [hyphen, colon]

theorem map_fst_attributeRefsFrom (alike : Alike tail cs cs') (pos pos' : Nat) :
    (attributeRefsFrom pos none cs).map Prod.fst = (attributeRefsFrom pos' none cs').map Prod.fst := by
  induction alike generalizing pos pos' with
  | tail unclosed => exact Query.map_fst_attributeRefsFrom pos pos' none tail
  | @plain c cs cs' plain rest ih =>
    simp only [attributeRefsFrom, List.map_append, stepQuote_plain plain, rest.attributeName?_eq]
    rw [ih _ (pos' + c.utf8Size)]
    split <;> cases attributeName? cs' <;> rfl
  | literal mark free free' rest ih =>
    rw [attributeRefsFrom_literal mark free, attributeRefsFrom_literal mark free']
    exact ih _ _

end Alike

/-! ### Steps -/

/-- Two texts, last character first, that are the same up to the last literal. -/
inductive AlikeBehind : List Char → List Char → Prop
  | same (before : List Char) : AlikeBehind before before
  | literal {q : Char} (mark : Text.isQuote q = true) (far far' : List Char) : AlikeBehind (q :: far) (q :: far')
  | next (c : Char) {before before' : List Char} (rest : AlikeBehind before before') :
      AlikeBehind (c :: before) (c :: before')

namespace AlikeBehind

variable {before before' : List Char}

theorem head?_eq (behind : AlikeBehind before before') : before.head? = before'.head? := by
  cases behind <;> rfl

/-- What stands in front of a step decides whether it is one, and that is at most two characters. -/
theorem startsStep_eq (behind : AlikeBehind before before') : startsStep before = startsStep before' := by
  cases behind with
  | same before => rfl
  | literal mark far far' =>
    rcases eq_of_isQuote mark with rfl | rfl
    · rfl
    · rfl
  | @next c before before' rest =>
    by_cases colon : c = ':'
    · subst colon
      have hnext := rest.head?_eq
      cases before with
      | nil =>
        obtain rfl := List.head?_eq_none_iff.mp hnext.symm
        rfl
      | cons d before =>
        obtain ⟨before', rfl⟩ := List.head?_eq_some_iff.mp hnext.symm
        by_cases axis : d = ':'
        · subst axis
          rfl
        · simp [startsStep, axis]
    · simp [startsStep, colon]

end AlikeBehind

theorem stepsFrom_within (free : q ∉ body) (pos : Nat) (before cs : List Char) :
    stepsFrom (some q) pos before (body ++ cs) =
      stepsFrom (some q) (pos + byteSize body) (body.reverse ++ before) cs := by
  induction body generalizing pos before with
  | nil => rfl
  | cons c body ih =>
    obtain ⟨hc, hbody⟩ := not_or.mp (mt List.mem_cons.mpr free)
    rw [List.cons_append, stepsFrom, stepQuote_inside (Ne.symm hc), ih hbody, byteSize_cons, Nat.add_assoc,
      List.reverse_cons, List.append_assoc]
    rfl

theorem stepsFrom_literal (mark : Text.isQuote q = true) (free : q ∉ body) (pos : Nat) (before cs : List Char) :
    stepsFrom none pos before (q :: (body ++ q :: cs)) =
      stepsFrom none (pos + q.utf8Size + byteSize body + q.utf8Size) (q :: (body.reverse ++ q :: before)) cs := by
  have hq : Text.isIdentStart q = false := eq_false_of_isQuote _ (by decide) mark
  rw [stepsFrom, stepQuote_mark mark, stepsFrom_within free, stepsFrom, stepQuote_close, hq]
  rfl

/-- Steps are found wherever the query begins. -/
theorem map_name_stepsFrom (pos pos' : Nat) (quote : Option Char) {before before' : List Char}
    (behind : AlikeBehind before before') (cs : List Char) :
    (stepsFrom quote pos before cs).map Step.name = (stepsFrom quote pos' before' cs).map Step.name := by
  induction cs generalizing pos pos' quote before before' with
  | nil => rfl
  | cons c cs ih =>
    simp only [stepsFrom, List.map_append, behind.head?_eq, behind.startsStep_eq]
    rw [ih _ (pos' + c.utf8Size) _ (behind.next c)]
    split <;> rfl

namespace Alike

theorem map_name_stepsFrom (alike : Alike tail cs cs') {before before' : List Char}
    (behind : AlikeBehind before before') (pos pos' : Nat) :
    (stepsFrom none pos before cs).map Step.name = (stepsFrom none pos' before' cs').map Step.name := by
  induction alike generalizing pos pos' before before' with
  | tail unclosed => exact Query.map_name_stepsFrom pos pos' none behind tail
  | @plain c cs cs' plain rest ih =>
    have hname : cs.takeWhile Text.isIdentChar = cs'.takeWhile Text.isIdentChar := rest.takeWhile_eq (by decide)
    have hends : endsStep (cs.dropWhile Text.isIdentChar) = endsStep (cs'.dropWhile Text.isIdentChar) := by
      rw [endsStep, endsStep, (rest.dropWhile (by decide)).head?_eq]
    simp only [stepsFrom, List.map_append, stepQuote_plain plain, behind.head?_eq, behind.startsStep_eq, hname, hends]
    rw [ih (behind.next c) _ (pos' + c.utf8Size)]
    split <;> rfl
  | literal mark free free' rest ih =>
    rw [stepsFrom_literal mark free, stepsFrom_literal mark free']
    exact ih (.literal mark _ _) _ _

end Alike

/-! ### The let block -/

theorem letFrom?_mark (mark : Text.isQuote q = true) (pos : Nat) (before : Option Char) (cs : List Char) :
    letFrom? pos none before (q :: cs) = letFrom? (pos + q.utf8Size) (some q) (some q) cs := by
  rcases eq_of_isQuote mark with rfl | rfl
  · rfl
  · rfl

theorem letFrom?_within (free : q ∉ body) (pos : Nat) (before : Option Char) (cs : List Char) :
    letFrom? pos (some q) before (body ++ cs) =
      letFrom? (pos + byteSize body) (some q) (body.getLast?.or before) cs := by
  induction body generalizing pos before with
  | nil => rfl
  | cons c body ih =>
    obtain ⟨hc, hbody⟩ := not_or.mp (mt List.mem_cons.mpr free)
    rw [List.cons_append, letFrom?_cons, stepQuote_inside (Ne.symm hc), Text.getLast?_cons_or, byteSize_cons,
      ← Nat.add_assoc, ← ih hbody]
    rfl

theorem letFrom?_literal (mark : Text.isQuote q = true) (free : q ∉ body) (pos : Nat) (before : Option Char)
    (cs : List Char) : letFrom? pos none before (q :: (body ++ q :: cs)) =
      letFrom? (pos + q.utf8Size + byteSize body + q.utf8Size) none (some q) cs := by
  rw [letFrom?_mark mark, letFrom?_within free, letFrom?_cons, stepQuote_close]
  rfl

theorem letFrom?_unclosed (unclosed : IsUnclosed tail) (pos : Nat) (before : Option Char) :
    letFrom? pos none before tail = none := by
  cases unclosed with
  | nil => rfl
  | @mark q cs mark free =>
    have hwithin := letFrom?_within free (pos + q.utf8Size) (some q) []
    rw [List.append_nil] at hwithin
    rw [letFrom?_mark mark, hwithin]
    rfl

theorem Place.after_within (free : q ∉ body) (depth : Int) : Place.after ⟨some q, depth⟩ body = ⟨some q, depth⟩ := by
  induction body with
  | nil => rfl
  | cons c body ih =>
    obtain ⟨hc, hbody⟩ := not_or.mp (mt List.mem_cons.mpr free)
    have hstep : Place.step ⟨some q, depth⟩ c = ⟨some q, depth⟩ :=
      Place.ext (stepQuote_inside (Ne.symm hc)) rfl
    rw [Place.after_cons, hstep, ih hbody]

theorem beforeReturn?_mark (mark : Text.isQuote q = true) (before : Option Char) (depth : Int) (cs : List Char) :
    beforeReturn? none before depth (q :: cs) = (beforeReturn? (some q) (some q) depth cs).map (q :: ·) := by
  have hkeyword : afterKeyword? "return" before (q :: cs) = none := by
    rcases eq_of_isQuote mark with rfl | rfl
    · rfl
    · rfl
  have hdepth : stepDepth depth q = depth := by
    rcases eq_of_isQuote mark with rfl | rfl
    · rfl
    · rfl
  have hcons := beforeReturn?_cons ⟨none, depth⟩ before q cs
  rw [hkeyword, Option.isSome_none, Bool.and_false, if_neg Bool.false_ne_true] at hcons
  simp only [Place.step, stepQuote_mark mark, Option.isNone_none, if_true, hdepth] at hcons
  exact hcons

theorem beforeReturn?_within (free : q ∉ body) (before : Option Char) (depth : Int) (cs : List Char) :
    beforeReturn? (some q) before depth (body ++ cs) =
      (beforeReturn? (some q) (body.getLast?.or before) depth cs).map (body ++ ·) := by
  have hread := beforeReturn?_append ⟨some q, depth⟩ before body cs ?_
  · rwa [Place.after_within free] at hread
  · rintro early late rfl - hquote -
    have hearly : q ∉ early := fun hmem => free (List.mem_append_left late hmem)
    rw [Place.after_within hearly] at hquote
    cases hquote

theorem beforeReturn?_close (before : Option Char) (depth : Int) (cs : List Char) :
    beforeReturn? (some q) before depth (q :: cs) = (beforeReturn? none (some q) depth cs).map (q :: ·) := by
  have hcons := beforeReturn?_cons ⟨some q, depth⟩ before q cs
  simp only [Place.step, stepQuote_close] at hcons
  exact hcons

theorem beforeReturn?_literal (mark : Text.isQuote q = true) (free : q ∉ body) (before : Option Char) (depth : Int)
    (cs : List Char) : beforeReturn? none before depth (q :: (body ++ q :: cs)) =
      (beforeReturn? none (some q) depth cs).map fun read => q :: (body ++ q :: read) := by
  rw [beforeReturn?_mark mark, beforeReturn?_within free, beforeReturn?_close, Option.map_map, Option.map_map]
  rfl

theorem beforeReturn?_unclosed (unclosed : IsUnclosed tail) (before : Option Char) (depth : Int) :
    beforeReturn? none before depth tail = none := by
  cases unclosed with
  | nil => rfl
  | @mark q cs mark free =>
    have hwithin := beforeReturn?_within free (some q) depth []
    rw [List.append_nil] at hwithin
    rw [beforeReturn?_mark mark, hwithin]
    rfl

namespace Alike

theorem afterKeyword? (alike : Alike tail cs cs') (word : String) (plain : word.toList.any Text.isQuote = false)
    (before : Option Char) :
    Option.Rel (Alike tail) (Query.afterKeyword? word before cs) (Query.afterKeyword? word before cs') := by
  apply rel_bind (alike.isPrefixOf? plain)
  intro rest rest' alike
  rw [alike.head?_eq]
  split
  · exact .none
  · exact .some alike

/-- The let block begins at the same keyword. -/
theorem letFrom? (alike : Alike tail cs cs') (pos pos' : Nat) (before : Option Char) :
    Option.Rel (fun found found' => Alike tail found.2 found'.2) (Query.letFrom? pos none before cs)
      (Query.letFrom? pos' none before cs') := by
  induction alike generalizing pos pos' before with
  | tail unclosed =>
    rw [letFrom?_unclosed unclosed, letFrom?_unclosed unclosed]
    exact .none
  | @plain c cs cs' plain rest ih =>
    have hlater := ih (pos + c.utf8Size) (pos' + c.utf8Size) (some c)
    have hkeyword := (Alike.plain plain rest).afterKeyword? "let" (by decide) before
    -- The keyword is here in both texts or in neither, and what follows it begins with the same character.
    rw [letFrom?_cons, letFrom?_cons, stepQuote_plain plain, Option.isNone_none, if_pos rfl, if_pos rfl]
    generalize Query.afterKeyword? "let" before (c :: cs) = found at hkeyword ⊢
    generalize Query.afterKeyword? "let" before (c :: cs') = found' at hkeyword ⊢
    cases hkeyword with
    | none => exact hlater
    | @some after after' alike =>
      simp only [Option.filter_some, alike.head?_eq]
      split
      · exact .some (alike.dropWhile (by decide))
      · exact hlater
  | literal mark free free' rest ih =>
    rw [letFrom?_literal mark free, letFrom?_literal mark free']
    exact ih _ _ _

/-- The let block ends at the same keyword. -/
theorem beforeReturn? (alike : Alike tail cs cs') (before : Option Char) (depth : Int) :
    Option.Rel (Alike []) (Query.beforeReturn? none before depth cs) (Query.beforeReturn? none before depth cs') := by
  induction alike generalizing before depth with
  | tail unclosed =>
    rw [beforeReturn?_unclosed unclosed]
    exact .none
  | @plain c cs cs' plain rest ih =>
    have hkeyword := (Alike.plain plain rest).afterKeyword? "return" (by decide) before
    have hsome : (Query.afterKeyword? "return" before (c :: cs)).isSome =
        (Query.afterKeyword? "return" before (c :: cs')).isSome := isSome_of_rel hkeyword
    rw [Query.beforeReturn?, Query.beforeReturn?, hsome, stepQuote_plain plain]
    split
    · exact .some (.tail .nil)
    · exact rel_map (ih _ _) fun read read' alike => .plain plain alike
  | literal mark free free' rest ih =>
    rw [beforeReturn?_literal mark free, beforeReturn?_literal mark free']
    exact rel_map (ih _ _) fun read read' alike => .literal mark free free' alike

end Alike

/-! ### The variables of the let block -/

/-- In quotes and at a mark no binding begins or ends. -/
theorem bindingTextsFrom_cons_of_not_plain {quote : Option Char} {c : Char}
    (h : quote.isSome = true ∨ Text.isQuote c = true) (depth : Int) (current : Option (List Char)) (cs : List Char) :
    bindingTextsFrom quote depth current (c :: cs) =
      bindingTextsFrom (stepQuote quote c) depth (current.map (c :: ·)) cs := by
  -- A comma or a `$` counts only outside of quotes, and it is no mark.
  have hplain (special : Char) (hspecial : Text.isQuote special = false) :
      (quote.isNone && depth == 0 && c == special) = false := by
    by_contra hfound
    simp only [Bool.not_eq_false, Bool.and_eq_true, Option.isNone_iff_eq_none, beq_iff_eq] at hfound
    obtain ⟨⟨rfl, -⟩, rfl⟩ := hfound
    rcases h with h | h
    · cases h
    · rw [hspecial] at h
      cases h
  have hdepth : (if quote.isNone then stepDepth depth c else depth) = depth := by
    rcases h with h | h
    · rw [if_neg (by simpa [Option.isSome_iff_ne_none] using h)]
    · rcases eq_of_isQuote h with rfl | rfl
      · exact ite_self depth
      · exact ite_self depth
  cases current with
  | none => simp only [bindingTextsFrom, hplain ',' rfl, hplain '$' rfl, hdepth, Bool.false_eq_true, if_false,
      Option.map_none]
  | some read => simp only [bindingTextsFrom, hplain ',' rfl, hdepth, Bool.false_eq_true, if_false, Option.map_some]

theorem bindingTextsFrom_within (free : q ∉ body) (depth : Int) (current : Option (List Char)) (cs : List Char) :
    bindingTextsFrom (some q) depth current (body ++ cs) =
      bindingTextsFrom (some q) depth (current.map (body.reverse ++ ·)) cs := by
  induction body generalizing current with
  | nil => cases current <;> rfl
  | cons c body ih =>
    obtain ⟨hc, hbody⟩ := not_or.mp (mt List.mem_cons.mpr free)
    rw [List.cons_append, bindingTextsFrom_cons_of_not_plain (.inl rfl), stepQuote_inside (Ne.symm hc), ih hbody,
      Option.map_map]
    simp only [Function.comp_def, List.reverse_cons, List.append_assoc, List.singleton_append]

/-- A literal becomes part of the binding it stands in. -/
theorem bindingTextsFrom_literal (mark : Text.isQuote q = true) (free : q ∉ body) (depth : Int)
    (current : Option (List Char)) (cs : List Char) : bindingTextsFrom none depth current (q :: (body ++ q :: cs)) =
      bindingTextsFrom none depth (current.map fun read => (q :: (body ++ [q])).reverse ++ read) cs := by
  rw [bindingTextsFrom_cons_of_not_plain (.inr mark), stepQuote_mark mark, bindingTextsFrom_within free,
    bindingTextsFrom_cons_of_not_plain (.inl rfl), stepQuote_close, Option.map_map, Option.map_map]
  simp only [Function.comp_def, List.reverse_cons, List.reverse_append, List.append_assoc, List.cons_append,
    List.nil_append, List.reverse_nil]

namespace Alike

/-- Bindings begin and end at the same places. -/
theorem bindingTextsFrom (alike : Alike [] cs cs') (depth : Int) {current current' : Option (List Char)}
    (read : Option.Rel (fun read read' => Alike [] read.reverse read'.reverse) current current') :
    List.Forall₂ (Alike []) (Query.bindingTextsFrom none depth current cs)
      (Query.bindingTextsFrom none depth current' cs') := by
  have hread {current current' : Option (List Char)}
      (read : Option.Rel (fun read read' => Alike [] read.reverse read'.reverse) current current') :
      List.Forall₂ (Alike []) (current.map List.reverse).toList (current'.map List.reverse).toList := by
    -- What was read of a binding so far is kept in reverse.
    cases read with
    | some alike => exact .cons alike .nil
    | none => exact .nil
  induction alike generalizing depth current current' with
  | tail unclosed => exact hread read
  | @plain c cs cs' plain rest ih =>
    simp only [Query.bindingTextsFrom, stepQuote_plain plain]
    split
    · exact List.rel_append (hread read) (ih depth .none)
    · apply ih
      cases read with
      | some alike =>
        apply Option.Rel.some
        rw [List.reverse_cons, List.reverse_cons]
        exact alike.append (.plain plain (.tail .nil))
      | none =>
        dsimp only
        split
        · exact .some (.plain plain (.tail .nil))
        · exact .none
  | literal mark free free' rest ih =>
    rw [bindingTextsFrom_literal mark free, bindingTextsFrom_literal mark free']
    apply ih
    apply rel_map read
    intro read read' alike
    rw [List.reverse_append, List.reverse_append, List.reverse_reverse, List.reverse_reverse]
    exact alike.append (.literal mark free free' (.tail .nil))

/-- A binding is of the same name. -/
theorem map_name_bindingOf? (alike : Alike [] cs cs') :
    (bindingOf? cs).map LetVariable.name = (bindingOf? cs').map LetVariable.name := by
  -- The name ends before the first literal. Whether there is a value depends on more, but not on what is quoted in it.
  have hname : Option.Rel (fun binding binding' => binding.name = binding'.name) (bindingOf? cs) (bindingOf? cs') := by
    apply rel_bind (alike.trim.isPrefixOf? (by decide))
    intro named named' alike
    have hname : named.takeWhile isVariableChar = named'.takeWhile isVariableChar := alike.takeWhile_eq (by decide)
    rw [alike.head?_eq, hname]
    split
    · apply rel_bind ((alike.dropWhile (by decide)).trimStart.afterAny? (by decide))
      intro value value' alike
      dsimp only
      rw [alike.trim.isEmpty_eq]
      split
      · exact .none
      · exact .some rfl
    · exact .none
  exact map_eq_of_rel hname

theorem map_name_letVariables {query query' : String} (alike : Alike tail query.toList query'.toList) :
    (letVariables query).map LetVariable.name = (letVariables query').map LetVariable.name := by
  have hnames {texts texts' : List (List Char)} (h : List.Forall₂ (Alike []) texts texts') :
      (texts.filterMap bindingOf?).map LetVariable.name = (texts'.filterMap bindingOf?).map LetVariable.name := by
    rw [List.map_filterMap, List.map_filterMap]
    induction h with
    | nil => rfl
    | cons alike rest ih => rw [List.filterMap_cons, List.filterMap_cons, alike.map_name_bindingOf?, ih]
  have hblock : Option.Rel (fun block block' : LetBlock => Alike [] block.declarations block'.declarations)
      (letBlock? query.toList) (letBlock? query'.toList) := by
    rw [letBlock?, letBlock?]
    apply rel_bind (alike.letFrom? 0 0 none)
    rintro ⟨start, after⟩ ⟨start', after'⟩ alike
    exact rel_bind (alike.beforeReturn? (some ' ') 0) fun read read' alike => .some alike
  -- The blocks are alike, so their bindings are, and so the names.
  rw [letVariables, letVariables]
  generalize letBlock? query.toList = found at hblock ⊢
  generalize letBlock? query'.toList = found' at hblock ⊢
  cases hblock with
  | some alike => exact hnames (alike.bindingTextsFrom 0 .none)
  | none => rfl

end Alike

/-- Queries that differ only between the marks of closed literals have the same attributes, the same node types by any
policy, and bind the same variables in the same order. -/
theorem structure_of_alike {query query' : String} (alike : Alike tail query.toList query'.toList) :
    attributes query = attributes query' ∧ (∀ policy, nodeTypes policy query = nodeTypes policy query') ∧
      (letVariables query).map LetVariable.name = (letVariables query').map LetVariable.name := by
  refine ⟨?_, fun policy => ?_, alike.map_name_letVariables⟩
  · rw [attributes, attributes, attributeRefs, attributeRefs, alike.map_fst_attributeRefsFrom 0 0]
  · rw [nodeTypes, nodeTypes, steps, steps, alike.map_name_stepsFrom (.same []) 0 0]

/-- A query with three closed literals and one that is not closed. -/
def plainQuery : String :=
  "let $a := 'x', $b := (\"y\") return //A[@B = 'z' and C/@D]/Method['/Field"

/-- The same query with marks, brackets, keywords and names in its literals. -/
def confusingQuery : String :=
  "let $a := '\"), $c := (\" return @E', $b := (\"'let $d := ', return /\") return //A[@B = '' and C/@D]/Method['/Field"

theorem alike_confusingQuery : Alike "'/Field".toList plainQuery.toList confusingQuery.toList := by
  have hplain : plainQuery.toList = "let $a := ".toList ++ '\'' :: ("x".toList ++ '\'' :: (", $b := (".toList ++
      '"' :: ("y".toList ++ '"' :: (") return //A[@B = ".toList ++ '\'' :: ("z".toList ++ '\'' ::
        (" and C/@D]/Method[".toList ++ "'/Field".toList)))))) := by
    decide +kernel
  have hconfusing : confusingQuery.toList = "let $a := ".toList ++ '\'' :: ("\"), $c := (\" return @E".toList ++
      '\'' :: (", $b := (".toList ++ '"' :: ("'let $d := ', return /".toList ++ '"' ::
        (") return //A[@B = ".toList ++ '\'' :: ([] ++ '\'' ::
          (" and C/@D]/Method[".toList ++ "'/Field".toList)))))) := by
    decide +kernel
  rw [hplain, hconfusing]
  apply Alike.append (Alike.of_plain (by decide))
  apply Alike.literal (by decide) (by decide) (by decide)
  apply Alike.append (Alike.of_plain (by decide))
  apply Alike.literal (by decide) (by decide) (by decide)
  apply Alike.append (Alike.of_plain (by decide))
  apply Alike.literal (by decide) (by decide) (by decide)
  apply Alike.append (Alike.of_plain (by decide))
  exact .tail (.mark (by decide) (by decide))

theorem structure_confusingQuery : Alike "'/Field".toList plainQuery.toList confusingQuery.toList ∧
    (attributes plainQuery = attributes confusingQuery ∧
      (∀ policy, nodeTypes policy plainQuery = nodeTypes policy confusingQuery) ∧
      (letVariables plainQuery).map LetVariable.name = (letVariables confusingQuery).map LetVariable.name) ∧
    attributes confusingQuery = ["B", "D"] ∧ nodeTypes .keepAll confusingQuery = ["Method"] ∧
    (letVariables confusingQuery).map LetVariable.name = ["$a", "$b"] := by
  refine ⟨alike_confusingQuery, structure_of_alike alike_confusingQuery, ?_, ?_, ?_⟩
  · decide +kernel
  · decide +kernel
  · decide +kernel

end Exemplar.Query
