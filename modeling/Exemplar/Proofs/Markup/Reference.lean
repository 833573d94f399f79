import Exemplar.Markup.Reference
import Mathlib.Data.List.Basic

/-!
# What is written is read back

`escape` writes a text so that it has nothing in it that means anything to markup. Read as text it is what it was,
if no carriage return is in it, and read as an attribute value if no tab and no newline is in it either. The only
thing to look after is the ampersand: each one that is written starts a reference, and the reference is read to
its semicolon and no further.
-/

namespace Exemplar.Markup

variable {c d : Char} {cs : List Char}

/-! ### Writing -/

/-- What stands for a character is the reference to it, or it is the character itself. -/
theorem escapeChar_cases (c : Char) :
    (∃ name, (name, c) ∈ namedCharacters ∧ escapeChar c = '&' :: (name.toList ++ [';'])) ∨
      escapeChar c = [c] ∧ c ∉ "&<>\"'".toList := by
  unfold escapeChar
  split
  · exact Or.inl ⟨"amp", by decide, rfl⟩
  · exact Or.inl ⟨"lt", by decide, rfl⟩
  · exact Or.inl ⟨"gt", by decide, rfl⟩
  · exact Or.inl ⟨"quot", by decide, rfl⟩
  · exact Or.inl ⟨"apos", by decide, rfl⟩
  · refine Or.inr ⟨rfl, ?_⟩
    simp
    tauto

/-- What stands for a character is made of some letters and signs, or it is the character itself. -/
theorem of_mem_escapeChar (h : d ∈ escapeChar c) :
    d ∈ "&;ampltgquos".toList ∨ d = c ∧ d ∉ "&<>\"'".toList := by
  rcases escapeChar_cases c with ⟨name, hname, hc⟩ | ⟨hc, hplain⟩
  · have letters : ∀ entry ∈ namedCharacters, '&' :: (entry.1.toList ++ [';']) ⊆ "&;ampltgquos".toList := by
      decide
    rw [hc] at h
    exact Or.inl (letters _ hname h)
  · rw [hc, List.mem_singleton] at h
    subst h
    exact Or.inr ⟨rfl, hplain⟩

theorem escapeChar_ne_nil (c : Char) : escapeChar c ≠ [] := by
  rcases escapeChar_cases c with ⟨name, -, hc⟩ | ⟨hc, -⟩
  · simp [hc]
  · simp [hc]

/-- A written text holds none of the signs that mean something to markup, apart from the references in it. -/
theorem not_mem_escape (h : d ∈ "<>\"'".toList) : d ∉ escape cs := by
  intro hd
  obtain ⟨c, -, hc⟩ := List.mem_flatMap.mp hd
  rcases of_mem_escapeChar hc with hletter | ⟨-, hplain⟩
  · have apart : "<>\"'".toList.all (!"&;ampltgquos".toList.contains ·) = true := by decide
    have hsign := List.all_eq_true.mp apart d h
    rw [List.contains_iff_mem.mpr hletter] at hsign
    cases hsign
  · have signs : "<>\"'".toList ⊆ "&<>\"'".toList := by decide
    exact hplain (signs h)

/-- A document may hold a written text if it may hold the text. -/
theorem isLegal_of_mem_escape (legal : ∀ c ∈ cs, isLegal c = true) (h : d ∈ escape cs) : isLegal d = true := by
  obtain ⟨c, hc, hd⟩ := List.mem_flatMap.mp h
  rcases of_mem_escapeChar hd with hletter | ⟨rfl, -⟩
  · have letters : "&;ampltgquos".toList.all isLegal = true := by decide
    exact List.all_eq_true.mp letters d hletter
  · exact legal d hc

/-- A text with every `old` in it replaced. -/
def replaced (cs : List Char) (old : Char) (new : String) : List Char :=
  cs.flatMap fun c => if c == old then new.toList else [c]

/-- Writing a text is replacing one sign after the other. The ampersand comes first, so that no later step
changes what an earlier one has written. -/
theorem escape_eq_replaced (cs : List Char) :
    escape cs = [('&', "&amp;"), ('<', "&lt;"), ('>', "&gt;"), ('"', "&quot;"), ('\'', "&apos;")].foldl
      (fun written replacement => replaced written replacement.1 replacement.2) cs := by
  simp only [List.foldl_cons, List.foldl_nil, replaced, List.flatMap_assoc, escape]
  refine List.flatMap_congr fun c _ => ?_
  rcases escapeChar_cases c with ⟨name, hname, -⟩ | ⟨hc, hplain⟩
  · have signs : ∀ entry ∈ namedCharacters, escapeChar entry.2 =
        (if entry.2 == '&' then "&amp;".toList else [entry.2]).flatMap fun c =>
          (if c == '<' then "&lt;".toList else [c]).flatMap fun c =>
          (if c == '>' then "&gt;".toList else [c]).flatMap fun c =>
          (if c == '"' then "&quot;".toList else [c]).flatMap fun c =>
          if c == '\'' then "&apos;".toList else [c] := by
      decide
    exact signs (name, c) hname
  · -- Any other character passes through all of the replacements.
    have other : ¬ c = '&' ∧ ¬ c = '<' ∧ ¬ c = '>' ∧ ¬ c = '"' ∧ ¬ c = '\'' := by
      simpa using hplain
    have kept {old : Char} {new : String} (h : ¬ c = old) : (if c == old then new.toList else [c]) = [c] :=
      if_neg (by simpa using h)
    rw [hc, kept other.1, List.flatMap_singleton, kept other.2.1, List.flatMap_singleton, kept other.2.2.1,
      List.flatMap_singleton, kept other.2.2.2.1, List.flatMap_singleton, kept other.2.2.2.2]

/-! ### References -/

theorem glyphsFrom?_append (front rest : List Char) :
    glyphsFrom? front.length (front ++ rest) = glyphsFrom? 0 rest := by
  induction front with
  | nil => rfl
  | cons c front ih =>
    rw [List.length_cons, List.cons_append, glyphsFrom?]
    exact ih

/-- A reference is read to its end and no further. -/
theorem glyphs?_reference {front rest : List Char} (h : reference? (front ++ rest) = some (c, rest)) :
    glyphs? ('&' :: (front ++ rest)) = (glyphs? rest).map (⟨c, true⟩ :: ·) := by
  have hlength : (front ++ rest).length - rest.length = front.length := by simp
  rw [glyphs?, glyphsFrom?, if_pos (beq_self_eq_true '&'), h]
  simp only [Option.bind_eq_bind, Option.bind_some, hlength, glyphsFrom?_append, glyphs?]
  cases glyphsFrom? 0 rest <;> rfl

theorem glyphs?_plain (h : c ≠ '&') : glyphs? (c :: cs) = (glyphs? cs).map (⟨c, false⟩ :: ·) := by
  rw [glyphs?, glyphsFrom?, if_neg (by simpa using h), ← glyphs?]
  cases glyphs? cs <;> rfl

/-- No name goes on as another one does, so the name tells the character. -/
theorem reference?_of_mem {name : String} (h : (name, c) ∈ namedCharacters) (rest : List Char) :
    reference? (name.toList ++ ';' :: rest) = some (c, rest) := by
  simp only [namedCharacters, List.mem_cons, Prod.mk.injEq, List.not_mem_nil, or_false] at h
  rcases h with ⟨rfl, rfl⟩ | ⟨rfl, rfl⟩ | ⟨rfl, rfl⟩ | ⟨rfl, rfl⟩ | ⟨rfl, rfl⟩ <;> rfl

theorem glyphs?_escapeChar (c : Char) (rest : List Char) :
    ∃ isReference, glyphs? (escapeChar c ++ rest) = (glyphs? rest).map (⟨c, isReference⟩ :: ·) := by
  rcases escapeChar_cases c with ⟨name, hname, hc⟩ | ⟨hc, hplain⟩
  · have href : reference? (name.toList ++ [';'] ++ rest) = some (c, rest) := by
      rw [List.append_assoc]
      exact reference?_of_mem hname rest
    exact ⟨true, by rw [hc]; exact glyphs?_reference href⟩
  · refine ⟨false, ?_⟩
    rw [hc, List.singleton_append]
    exact glyphs?_plain fun hamp => hplain (hamp ▸ by decide)

/-- A written text has the characters of the text, whatever they look like. -/
theorem exists_glyphs?_escape (cs : List Char) :
    ∃ glyphs, glyphs? (escape cs) = some glyphs ∧ glyphs.map Glyph.char = cs := by
  induction cs with
  | nil => exact ⟨[], rfl, rfl⟩
  | cons c cs ih =>
    obtain ⟨glyphs, hglyphs, hchars⟩ := ih
    -- What stands for the first character is read as that one, whatever is written behind it.
    obtain ⟨isReference, hc⟩ := glyphs?_escapeChar c (escape cs)
    refine ⟨⟨c, isReference⟩ :: glyphs, ?_, by rw [List.map_cons, hchars]⟩
    rw [escape, List.flatMap_cons, ← escape, hc, hglyphs, Option.map_some]

/-- Without an ampersand every character is itself. -/
theorem glyphs?_of_plain (h : '&' ∉ cs) : glyphs? cs = some (cs.map (⟨·, false⟩)) := by
  induction cs with
  | nil => rfl
  | cons c cs ih =>
    rw [List.mem_cons, not_or] at h
    rw [glyphs?_plain (Ne.symm h.1), ih h.2]
    rfl

/-! ### Line endings -/

variable {read : List Char} {glyphs : List Glyph}

theorem addPlain_of_clear (hread : read.head? ≠ some '\r') (hc : c ≠ '\r') (isLast : Bool) :
    addPlain read c isLast = c :: read := by
  unfold addPlain
  split
  · exact absurd rfl hread
  · simp [hc]

/-- Text without carriage returns is taken as it is. -/
theorem settle_of_clear {afterReference : Bool} (hread : read.head? ≠ some '\r')
    (hglyphs : ∀ glyph ∈ glyphs, glyph.char ≠ '\r') :
    settle read afterReference glyphs = (glyphs.map Glyph.char).reverse ++ read := by
  induction glyphs generalizing read afterReference with
  | nil => rfl
  | cons glyph glyphs ih =>
    obtain ⟨c, isReference⟩ := glyph
    obtain ⟨hc, hothers⟩ := List.forall_mem_cons.mp hglyphs
    have hnext : (c :: read).head? ≠ some '\r' := by simpa using hc
    rw [List.map_cons, List.reverse_cons, List.append_assoc, List.singleton_append]
    cases isReference with
    | true => exact ih hnext hothers
    | false =>
      rw [settle, addPlain_of_clear hread hc, ite_self]
      exact ih hnext hothers

/-- Settling line endings brings in nothing but newlines. -/
theorem of_mem_settle {afterReference : Bool} (h : d ∈ settle read afterReference glyphs) :
    d = '\n' ∨ d ∈ read ∨ d ∈ glyphs.map Glyph.char := by
  -- One step brings in the character and newlines, and nothing else.
  have hplain {read : List Char} {c : Char} {isLast : Bool} (h : d ∈ addPlain read c isLast) :
      d = '\n' ∨ d ∈ read ∨ d = c := by
    unfold addPlain at h
    grind
  induction glyphs generalizing read afterReference with
  | nil => exact Or.inr (Or.inl h)
  | cons glyph glyphs ih =>
    obtain ⟨c, isReference⟩ := glyph
    rw [List.map_cons, List.mem_cons]
    cases isReference with
    | true =>
      have := ih h
      rw [List.mem_cons] at this
      tauto
    | false =>
      rw [settle] at h
      have hrest := ih h
      split at hrest
      · rw [List.mem_cons] at hrest
        tauto
      · rcases hrest with hnewline | hread | hothers
        · exact Or.inl hnewline
        · have := hplain hread
          tauto
        · exact Or.inr (Or.inr (Or.inr hothers))

/-- The value of a section without carriage returns is what is written in it. -/
theorem verbatimValue_of_clear (h : '\r' ∉ cs) : verbatimValue cs = cs := by
  rw [verbatimValue, settle_of_clear (by simp), List.map_map]
  · simp [Function.comp_def]
  · intro glyph hglyph
    obtain ⟨c, hc, rfl⟩ := List.mem_map.mp hglyph
    exact ne_of_mem_of_not_mem hc h

/-- Text that is written is read back as text. -/
theorem textValue?_escape (h : '\r' ∉ cs) : textValue? (escape cs) = some cs := by
  obtain ⟨glyphs, hglyphs, rfl⟩ := exists_glyphs?_escape cs
  rw [textValue?, hglyphs, Option.map_some, settle_of_clear (by simp)]
  · simp
  · intro glyph hglyph
    exact ne_of_mem_of_not_mem (List.mem_map_of_mem hglyph) h

/-- Text without ampersands has a value, which has no new characters apart from newlines. -/
theorem exists_textValue?_of_plain (h : '&' ∉ cs) :
    ∃ content, textValue? cs = some content ∧ ∀ d ∈ content, d = '\n' ∨ d ∈ cs := by
  refine ⟨_, by rw [textValue?, glyphs?_of_plain h, Option.map_some], fun d hd => ?_⟩
  have hsettled := of_mem_settle (List.mem_reverse.mp hd)
  simpa using hsettled

theorem attributeChars_of_clear (h : ∀ glyph ∈ glyphs, isSpace glyph.char = true → glyph.char = ' ') :
    attributeChars glyphs = glyphs.map Glyph.char := by
  induction glyphs with
  | nil => rfl
  | cons glyph glyphs ih =>
    obtain ⟨c, isReference⟩ := glyph
    obtain ⟨hc, hothers⟩ := List.forall_mem_cons.mp h
    -- A carriage return is white space and no blank, so the rule for line endings never applies.
    have hreturn : c ≠ '\r' := by
      rintro rfl
      cases hc rfl
    have hspace : (if !isReference && isSpace c then ' ' else c) = c := by
      split
      next hsome => exact (hc (Bool.and_eq_true_iff.mp hsome).2).symm
      next => rfl
    rw [attributeChars, hspace, ih hothers, List.map_cons]
    exact fun _ _ hreturned => absurd hreturned hreturn

/-- Text that is written is read back as an attribute value. -/
theorem attributeValue?_escape (h : ∀ c ∈ cs, isSpace c = true → c = ' ') :
    attributeValue? (escape cs) = some cs := by
  obtain ⟨glyphs, hglyphs, rfl⟩ := exists_glyphs?_escape cs
  rw [attributeValue?, hglyphs, Option.map_some, attributeChars_of_clear]
  exact fun glyph hglyph => h _ (List.mem_map_of_mem hglyph)

end Exemplar.Markup
