import Exemplar.Proofs.Files.Glob
import Exemplar.Proofs.Text.Place

/-!
# Patterns for everything below

Behind a pattern for a directory, a slash and a pair of stars make a pattern for all that is below the directory. The
pattern for the directory is read as before, but if it ends in a pair of stars, the slash is a part of that pair. So what
is below a directory that matches is matched again, unless the pair of stars has a slash already: then the slash that
was added stands for one of its own.

A pair of stars at the end of a pattern matches anything that is left, so with a text every longer one matches.
-/

namespace Exemplar.Glob

variable {parts others : List Part} {cs more rest : List Char} {position : Nat} {before : Option Char}

/-! ### Ends of a text -/

theorem mem_ends_iff {α : Type} {cs rest : List α} : rest ∈ ends cs ↔ ∃ front, cs = front ++ rest := by
  induction cs with
  | nil => simp [ends]
  | cons c cs ih =>
    rw [ends, List.mem_cons, ih]
    constructor
    · rintro (rfl | ⟨front, rfl⟩)
      · exact ⟨[], rfl⟩
      · exact ⟨c :: front, rfl⟩
    · rintro ⟨front, h⟩
      cases front with
      | nil => exact .inl h.symm
      | cons d front => exact .inr ⟨front, (List.cons.inj h).2⟩

theorem mem_afterSlashes_iff :
    rest ∈ componentEnds.afterSlashes cs ↔ rest = [] ∨ ∃ front, cs = front ++ '/' :: rest := by
  induction cs with
  | nil => simp [componentEnds.afterSlashes]
  | cons c cs ih =>
    have hcons : (∃ front, c :: cs = front ++ '/' :: rest) ↔
        c = '/' ∧ cs = rest ∨ ∃ front, cs = front ++ '/' :: rest := by
      constructor
      · rintro ⟨front, h⟩
        cases front with
        | nil => exact .inl (List.cons.inj h)
        | cons d front => exact .inr ⟨front, (List.cons.inj h).2⟩
      · rintro (⟨rfl, rfl⟩ | ⟨front, rfl⟩)
        · exact ⟨[], rfl⟩
        · exact ⟨c :: front, rfl⟩
    rw [componentEnds.afterSlashes, hcons]
    split
    next hc =>
      rw [List.mem_cons, ih, or_left_comm]
      exact or_congr_right (or_congr_left ⟨fun h => ⟨hc, h.symm⟩, fun h => h.2.symm⟩)
    next hc => simp [ih, hc]

/-- What is left after some whole components is all of a text, or stands behind a slash, or is nothing. -/
theorem mem_componentEnds_iff :
    rest ∈ componentEnds cs ↔ rest = cs ∨ rest = [] ∨ ∃ front, cs = front ++ '/' :: rest := by
  rw [componentEnds, List.mem_cons, mem_afterSlashes_iff]

/-- What is left is left with more behind it, but nothing may be left because the text is at its end. -/
theorem append_mem_componentEnds (h : rest ∈ componentEnds cs) (more : List Char) :
    rest = [] ∨ rest ++ more ∈ componentEnds (cs ++ more) := by
  rw [mem_componentEnds_iff] at h ⊢
  rcases h with rfl | hnil | ⟨front, rfl⟩
  · exact .inr (.inl rfl)
  · exact .inl hnil
  · exact .inr (.inr (.inr ⟨front, by simp⟩))

/-! ### Matching more -/

/-- Whether a part stands for a single character, and for this one. -/
def Part.admits : Part → Char → Bool
  | char c, d => d == c
  | anyChar, _ => true
  | oneOf ranges, d => within ranges d
  | noneOf ranges, d => !within ranges d
  | anyChars, _ | components, _ => false

/-- A part is a star, or a pair of stars, or stands for one character. -/
theorem partsMatch_cons_iff (part : Part) (parts : List Part) (cs : List Char) :
    partsMatch (part :: parts) cs = true ↔
      (part = .anyChars ∧ ∃ rest ∈ ends cs, partsMatch parts rest = true) ∨
      (part = .components ∧ ∃ rest ∈ componentEnds cs, partsMatch parts rest = true) ∨
      ∃ c rest, cs = c :: rest ∧ part.admits c = true ∧ partsMatch parts rest = true := by
  cases part <;> cases cs <;> simp [partsMatch, Part.admits]

/-- Parts that match nothing at all match everything, as they are stars. -/
theorem partsMatch_of_nil (h : partsMatch parts [] = true) (hparts : parts ≠ []) : partsMatch parts cs = true := by
  cases parts with
  | nil => exact absurd rfl hparts
  | cons part parts =>
    rw [partsMatch_cons_iff] at h ⊢
    rcases h with ⟨hpart, rest, hrest, hmatch⟩ | ⟨hpart, rest, hrest, hmatch⟩ | ⟨c, rest, hcs, -⟩
    · obtain rfl : rest = [] := by simpa [ends] using hrest
      exact .inl ⟨hpart, [], mem_ends_iff.mpr ⟨cs, (List.append_nil cs).symm⟩, hmatch⟩
    · obtain rfl : rest = [] := by simpa [componentEnds, componentEnds.afterSlashes] using hrest
      exact .inr (.inl ⟨hpart, [], mem_componentEnds_iff.mpr (.inr (.inl rfl)), hmatch⟩)
    · cases hcs

theorem getLast?_eq_of_cons {part last : Part} (h : parts.getLast? = some last) :
    (part :: parts).getLast? = some last := by
  rw [List.getLast?_cons, h]
  rfl

/-- Parts that match two texts match them as one, unless a pair of stars may have gone on to the end of the first. -/
theorem partsMatch_append (h : partsMatch parts cs = true) (hothers : partsMatch others more = true)
    (hlast : parts.getLast? = some .components → more = []) : partsMatch (parts ++ others) (cs ++ more) = true := by
  induction parts generalizing cs with
  | nil =>
    obtain rfl : cs = [] := by simpa [partsMatch] using h
    exact hothers
  | cons part parts ih =>
    have hlater {rest : List Char} (hmatch : partsMatch parts rest = true) :
        partsMatch (parts ++ others) (rest ++ more) = true :=
      ih hmatch fun hparts => hlast (getLast?_eq_of_cons hparts)
    rw [List.cons_append, partsMatch_cons_iff]
    rw [partsMatch_cons_iff] at h
    rcases h with ⟨hpart, rest, hrest, hmatch⟩ | ⟨rfl, rest, hrest, hmatch⟩ | ⟨c, rest, rfl, hadmits, hmatch⟩
    · obtain ⟨front, rfl⟩ := mem_ends_iff.mp hrest
      exact .inl ⟨hpart, rest ++ more, mem_ends_iff.mpr ⟨front, List.append_assoc ..⟩, hlater hmatch⟩
    · refine .inr (.inl ⟨rfl, ?_⟩)
      rcases append_mem_componentEnds hrest more with rfl | hmore
      · by_cases hparts : parts = []
        · subst hparts
          obtain rfl := hlast rfl
          exact ⟨[] ++ [], mem_componentEnds_iff.mpr (.inr (.inl rfl)), hlater hmatch⟩
        · -- The later parts match everything, so the pair of stars can stand for nothing.
          exact ⟨cs ++ more, mem_componentEnds_iff.mpr (.inl rfl), hlater (partsMatch_of_nil hmatch hparts)⟩
      · exact ⟨rest ++ more, hmore, hlater hmatch⟩
    · exact .inr (.inr ⟨c, rest ++ more, rfl, hadmits, hlater hmatch⟩)

/-- With a text, parts that end in a pair of stars match every longer one. -/
theorem partsMatch_append_of_getLast? (h : partsMatch parts cs = true) (hlast : parts.getLast? = some .components) :
    partsMatch parts (cs ++ more) = true := by
  induction parts generalizing cs with
  | nil => cases hlast
  | cons part parts ih =>
    rw [partsMatch_cons_iff] at h ⊢
    by_cases hparts : parts = []
    · -- The pair of stars stands for all that is left.
      subst hparts
      obtain rfl := Option.some.inj hlast
      exact .inr (.inl ⟨rfl, [], mem_componentEnds_iff.mpr (.inr (.inl rfl)), rfl⟩)
    · have hlast' : parts.getLast? = some .components := by
        rw [List.getLast?_cons] at hlast
        cases hparts' : parts.getLast? with
        | none => exact absurd (List.getLast?_eq_none_iff.mp hparts') hparts
        | some last => rwa [hparts'] at hlast
      rcases h with ⟨hpart, rest, hrest, hmatch⟩ | ⟨rfl, rest, hrest, hmatch⟩ | ⟨c, rest, rfl, hadmits, hmatch⟩
      · obtain ⟨front, rfl⟩ := mem_ends_iff.mp hrest
        exact .inl ⟨hpart, rest ++ more, mem_ends_iff.mpr ⟨front, List.append_assoc ..⟩, ih hmatch hlast'⟩
      · refine .inr (.inl ⟨rfl, ?_⟩)
        rcases append_mem_componentEnds hrest more with rfl | hmore
        · exact ⟨[], mem_componentEnds_iff.mpr (.inr (.inl rfl)), hmatch⟩
        · exact ⟨rest ++ more, hmore, ih hmatch hlast'⟩
      · exact .inr (.inr ⟨c, rest ++ more, rfl, hadmits, ih hmatch hlast'⟩)

/-! ### Reading more -/

/-- The text of a pattern for everything below. -/
def below : List Char :=
  ['/', '*', '*']

/-- What is read of a pattern with everything below behind it: the pair of stars that was added, and the slash unless it
is a part of the pair of stars in front. -/
def ReadsBelow (cs : List Char) (parts all : List Part) : Prop :=
  (parts.getLast? = some .components ∧ all = parts ++ [.components]) ∨
    (parts.getLast? = some .components → ['*', '*', '/'] <:+ cs) ∧ all = parts ++ [.char '/', .components]

theorem ReadsBelow.cons {part : Part} {all : List Part} (h : ReadsBelow cs parts all) (front : List Char)
    (hpart : parts = [] → part = .components → ['*', '*', '/'] <:+ front ++ cs) :
    ReadsBelow (front ++ cs) (part :: parts) (part :: all) := by
  rcases h with ⟨hlast, rfl⟩ | ⟨hlast, rfl⟩
  · exact .inl ⟨getLast?_eq_of_cons hlast, rfl⟩
  · refine .inr ⟨fun hcomponents => ?_, rfl⟩
    rw [List.getLast?_cons] at hcomponents
    cases hparts : parts.getLast? with
    | none =>
      rw [hparts] at hcomponents
      exact hpart (List.getLast?_eq_none_iff.mp hparts) (Option.some.inj hcomponents)
    | some last =>
      rw [hparts] at hcomponents
      exact (hlast (hparts.trans hcomponents)).trans (List.suffix_append front cs)

/-- A part is put in front of what is read behind it. -/
theorem cons_eq_ok_iff {part : Part} {later : Except Fault (List Part)} :
    (later >>= fun rest => pure (part :: rest)) = .ok parts ↔ ∃ rest, later = .ok rest ∧ parts = part :: rest := by
  rw [Text.bind_eq_ok_iff]
  refine exists_congr fun rest => and_congr_right fun _ => ?_
  exact ⟨fun h => (Except.ok.inj h).symm, fun h => congrArg Except.ok h.symm⟩

/-- Nothing is read only where there is nothing. -/
theorem eq_nil_of_partsFrom (h : partsFrom position before cs = .ok []) : cs = [] := by
  revert h
  fun_cases partsFrom position before cs with
  | case1 => exact fun _ => rfl
  | case2 | case3 | case4 | case6 | case10 => exact fun h => by cases h
  | case5 | case7 | case8 | case9 | case11 =>
    intro h
    obtain ⟨rest, -, hrest⟩ := cons_eq_ok_iff.mp h
    cases hrest

theorem partsFrom_rest (starts : startsComponent before = true) :
    partsFrom position before ['*', '*'] = .ok [.components] := by
  rw [partsFrom, starts]
  rfl

theorem partsFrom_char {c : Char} (hstar : c ≠ '*') (hquestion : c ≠ '?') (hopening : c ≠ '[') :
    partsFrom position before (c :: cs) =
      (partsFrom (position + 1) (some c) cs >>= fun rest => pure (.char c :: rest)) := by
  rw [partsFrom]
  · exact fun _ h => absurd h hstar
  · exact fun _ h => absurd h hstar
  · exact hstar
  · exact hquestion
  · exact hopening

/-- Brackets are read with more behind them as before. -/
theorem bracket?_append {part : Part} {taken : Nat} (h : bracket? cs = some (part, taken)) (more : List Char) :
    part ≠ .components ∧ bracket? (cs ++ more) = some (part, taken) ∧
      (cs ++ more).drop taken = cs.drop taken ++ more := by
  obtain ⟨body, rest, hbody, rfl, -⟩ := exists_of_bracket? h
  obtain ⟨part', hpart, hbracket⟩ := exists_forall_bracket? hbody
  rw [hbracket] at h
  obtain ⟨rfl, rfl⟩ := Prod.mk.inj (Option.some.inj h)
  refine ⟨hpart, ?_, ?_⟩
  · rw [List.append_assoc, List.cons_append, hbracket]
  · exact List.drop_append_of_le_length (by simp)

/-- A pattern is read as before with everything below behind it. -/
theorem partsFrom_below (h : partsFrom position before cs = .ok parts) :
    ∃ all, partsFrom position before (cs ++ below) = .ok all ∧ ReadsBelow cs parts all := by
  fun_induction partsFrom position before cs generalizing parts with
  | case1 position before =>
    obtain rfl := Except.ok.inj h
    refine ⟨[.char '/', .components], ?_, .inr ⟨by simp, rfl⟩⟩
    rw [below, List.nil_append, partsFrom_char (by decide) (by decide) (by decide), partsFrom_rest rfl]
    rfl
  | case2 | case3 | case6 | case10 => cases h
  | case4 position before hstarts =>
    obtain rfl := Except.ok.inj h
    refine ⟨[.components, .components], ?_, .inl ⟨rfl, rfl⟩⟩
    simp only [below, List.cons_append, List.nil_append]
    rw [partsFrom, if_neg hstarts, partsFrom_rest rfl]
    rfl
  | case5 position before hstarts cs hcs ih =>
    obtain ⟨rest, hrest, rfl⟩ := cons_eq_ok_iff.mp h
    obtain ⟨all, hall, hreads⟩ := ih hrest
    refine ⟨.components :: all, ?_, hreads.cons ['*', '*', '/'] fun hnil _ => ?_⟩
    · rw [List.cons_append, List.cons_append, List.cons_append, partsFrom, if_neg hstarts]
      exact cons_eq_ok_iff.mpr ⟨all, hall, rfl⟩
    · subst hnil
      obtain rfl := eq_nil_of_partsFrom hrest
      exact List.suffix_rfl
  | case7 position before cs hpair hsingle ih =>
    obtain ⟨rest, hrest, rfl⟩ := cons_eq_ok_iff.mp h
    obtain ⟨all, hall, hreads⟩ := ih hrest
    refine ⟨.anyChars :: all, ?_, hreads.cons ['*'] (by simp)⟩
    -- What was added starts with a slash, so the star stays a single one.
    have hsingle' (cs' : List Char) : cs ++ below ≠ '*' :: cs' := by
      cases cs with
      | nil => simp [below]
      | cons c cs =>
        intro hcs
        exact hsingle cs (by rw [(List.cons.inj hcs).1])
    rw [List.cons_append, partsFrom]
    · exact cons_eq_ok_iff.mpr ⟨all, hall, rfl⟩
    · exact fun cs' => hsingle' _
    · exact hsingle'
  | case8 position before cs ih =>
    obtain ⟨rest, hrest, rfl⟩ := cons_eq_ok_iff.mp h
    obtain ⟨all, hall, hreads⟩ := ih hrest
    refine ⟨.anyChar :: all, ?_, hreads.cons ['?'] (by simp)⟩
    rw [List.cons_append, partsFrom]
    exact cons_eq_ok_iff.mpr ⟨all, hall, rfl⟩
  | case9 position before cs part taken hbracket ih =>
    obtain ⟨rest, hrest, rfl⟩ := cons_eq_ok_iff.mp h
    obtain ⟨all, hall, hreads⟩ := ih hrest
    obtain ⟨hpart, hbracket', hdrop⟩ := bracket?_append hbracket below
    refine ⟨part :: all, ?_, ?_⟩
    · rw [← hdrop] at hall
      rw [List.cons_append, partsFrom, hbracket']
      exact cons_eq_ok_iff.mpr ⟨all, hall, rfl⟩
    · have hreads' := hreads.cons ('[' :: cs.take taken) fun _ h => absurd h hpart
      rwa [List.cons_append, List.take_append_drop] at hreads'
  | case11 position before c cs _ _ hstar hquestion hopening ih =>
    obtain ⟨rest, hrest, rfl⟩ := cons_eq_ok_iff.mp h
    obtain ⟨all, hall, hreads⟩ := ih hrest
    refine ⟨.char c :: all, ?_, hreads.cons [c] (by simp)⟩
    rw [List.cons_append, partsFrom_char hstar hquestion hopening]
    exact cons_eq_ok_iff.mpr ⟨all, hall, rfl⟩

/-! ### What is below -/

section

variable {directory text : String} {base files : Glob}

theorem ofText_eq_ok_iff {pattern : String} {glob : Glob} :
    ofText pattern = .ok glob ↔ partsFrom 0 none pattern.toList = .ok glob.parts := by
  rw [ofText, Text.bind_eq_ok_iff]
  constructor
  · rintro ⟨parts, hparts, hglob⟩
    rw [hparts, ← Except.ok.inj hglob]
  · exact fun h => ⟨glob.parts, h, rfl⟩

theorem readsBelow (hdirectory : ofText directory = .ok base) (hfiles : ofText (directory ++ "/**") = .ok files) :
    ReadsBelow directory.toList base.parts files.parts := by
  obtain ⟨all, hall, hreads⟩ := partsFrom_below (ofText_eq_ok_iff.mp hdirectory)
  have hadded : (directory ++ "/**").toList = directory.toList ++ below := String.toList_append
  have hparts := ofText_eq_ok_iff.mp hfiles
  rw [hadded, hall] at hparts
  rwa [← Except.ok.inj hparts]

theorem ReadsBelow.getLast?_eq {all : List Part} (h : ReadsBelow cs parts all) :
    all.getLast? = some .components := by
  rcases h with ⟨-, rfl⟩ | ⟨-, rfl⟩ <;> simp

/-- A pattern for everything below matches every text that starts as one that it matches. -/
theorem accepts_append (hdirectory : ofText directory = .ok base) (hfiles : ofText (directory ++ "/**") = .ok files)
    (h : files.accepts text = true) (more : String) : files.accepts (text ++ more) = true := by
  rw [accepts_eq] at h ⊢
  rw [String.toList_append]
  exact partsMatch_append_of_getLast? h (readsBelow hdirectory hfiles).getLast?_eq

/-- A pattern for everything below a directory matches what is below any text that the pattern for the directory matches,
unless that one ends in a pair of stars with its slash. -/
theorem accepts_below (hdirectory : ofText directory = .ok base) (hfiles : ofText (directory ++ "/**") = .ok files)
    (hslash : ¬ ['*', '*', '/'] <:+ directory.toList) (h : base.accepts text = true) (more : String) :
    files.accepts (text ++ "/" ++ more) = true := by
  rw [accepts_eq] at h ⊢
  rw [String.toList_append, String.toList_append, List.append_assoc]
  rcases readsBelow hdirectory hfiles with ⟨hlast, hall⟩ | ⟨hlast, hall⟩
  · -- The pair of stars of the directory stands for what is below, too.
    rw [hall, ← List.append_nil (text.toList ++ _)]
    exact partsMatch_append (partsMatch_append_of_getLast? h hlast) rfl fun _ => rfl
  · have hbelow : partsMatch [.char '/', .components] ("/".toList ++ more.toList) = true :=
      (partsMatch_cons_iff ..).mpr (.inr (.inr ⟨'/', more.toList, rfl, rfl, partsMatch_of_nil rfl (by simp)⟩))
    rw [hall]
    exact partsMatch_append h hbelow fun hcomponents => absurd (hlast hcomponents) hslash

end

/-! ### Literal patterns -/

/-- A text that is a pattern for itself only. -/
def Literal (text : String) : Prop :=
  ∀ c ∈ text.toList, c ≠ '*' ∧ c ≠ '?' ∧ c ≠ '['

instance (text : String) : Decidable (Literal text) :=
  List.decidableBAll (fun c => c ≠ '*' ∧ c ≠ '?' ∧ c ≠ '[') text.toList

theorem partsFrom_of_literal (h : ∀ c ∈ cs, c ≠ '*' ∧ c ≠ '?' ∧ c ≠ '[') :
    partsFrom position before cs = .ok (cs.map .char) := by
  induction cs generalizing position before with
  | nil =>
    rw [partsFrom]
    rfl
  | cons c cs ih =>
    obtain ⟨⟨hstar, hquestion, hopening⟩, hcs⟩ := List.forall_mem_cons.mp h
    rw [partsFrom_char hstar hquestion hopening]
    exact cons_eq_ok_iff.mpr ⟨_, ih hcs, rfl⟩

theorem exists_append_of_partsMatch {text : List Char} (h : partsMatch (text.map .char ++ others) cs = true) :
    ∃ rest, cs = text ++ rest ∧ partsMatch others rest = true := by
  induction text generalizing cs with
  | nil => exact ⟨cs, rfl, h⟩
  | cons c text ih =>
    cases cs with
    | nil => cases h
    | cons d cs =>
      simp only [List.map_cons, List.cons_append, partsMatch, Bool.and_eq_true, beq_iff_eq] at h
      obtain ⟨rfl, hmatch⟩ := h
      obtain ⟨rest, rfl, hrest⟩ := ih hmatch
      exact ⟨rest, rfl, hrest⟩

/-- A literal pattern, or one for everything below a literal directory, matches no text that is shorter. -/
theorem length_le_of_accepts {directory text : String} {base files : Glob} (hliteral : Literal directory)
    (hdirectory : ofText directory = .ok base) (hfiles : ofText (directory ++ "/**") = .ok files)
    (h : base.accepts text = true ∨ files.accepts text = true) : directory.length ≤ text.length := by
  have hbase : base.parts = directory.toList.map .char := by
    have hread := (ofText_eq_ok_iff.mp hdirectory).symm.trans (partsFrom_of_literal hliteral)
    exact Except.ok.inj hread
  have hprefix : ∃ others, files.parts = directory.toList.map .char ++ others := by
    rcases readsBelow hdirectory hfiles with ⟨-, hall⟩ | ⟨-, hall⟩ <;> exact ⟨_, hbase ▸ hall⟩
  obtain ⟨others, hothers⟩ := hprefix
  -- Both patterns begin with the characters of the directory, and so does what they match.
  obtain ⟨rest, hrest⟩ : ∃ rest, text.toList = directory.toList ++ rest := by
    rcases h with h | h
    · rw [accepts_eq, hbase, ← List.append_nil (List.map _ _)] at h
      obtain ⟨rest, hrest, -⟩ := exists_append_of_partsMatch h
      exact ⟨rest, hrest⟩
    · rw [accepts_eq, hothers] at h
      obtain ⟨rest, hrest, -⟩ := exists_append_of_partsMatch h
      exact ⟨rest, hrest⟩
  rw [← String.length_toList, ← String.length_toList, hrest, List.length_append]
  exact Nat.le_add_right _ _

end Exemplar.Glob
