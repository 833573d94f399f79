import Exemplar.Files.Glob
import Exemplar.Proofs.Text.Search
import Mathlib.Data.List.Infix

/-!
# Well-formed patterns

A pattern is read if it is put together from characters, closed brackets, single stars, and pairs of stars that
are whole components. `WellFormed` says so without positions and parts. What can follow depends on the character
before only for a pair of stars, so a pattern can be taken apart and put together again at every slash that
no bracket closes behind.

Writing slashes for backslashes makes no pattern worse. It makes one better exactly if a pair of stars had a
backslash for a neighbour.
-/

namespace Exemplar.Glob

variable {before : Option Char} {body cs rest : List Char} {c : Char}

/-! ### Brackets -/

/-- What may stand between brackets. Its first character may be a closing bracket, also behind the mark that
turns the bracket around. -/
inductive BracketBody : List Char → Prop
  | oneOf {c : Char} {more : List Char} (hc : c ≠ '!') (hmore : ']' ∉ more) : BracketBody (c :: more)
  | noneOf {c : Char} {more : List Char} (hmore : ']' ∉ more) : BracketBody ('!' :: c :: more)

theorem exists_of_bracketBody? (h : bracketBody? cs = some body) :
    ∃ c more rest, body = c :: more ∧ ']' ∉ more ∧ cs = c :: (more ++ ']' :: rest) := by
  cases cs with
  | nil => cases h
  | cons c cs =>
    obtain ⟨⟨more, rest⟩, hsplit, rfl⟩ := Option.map_eq_some_iff.mp h
    obtain ⟨rfl, hmore⟩ := Text.splitOnce?_eq_some_iff.mp hsplit
    exact ⟨c, more, rest, rfl, hmore, rfl⟩

theorem bracketBody?_append {more : List Char} (hmore : ']' ∉ more) (rest : List Char) :
    bracketBody? (c :: (more ++ ']' :: rest)) = some (c :: more) := by
  have hsplit : Text.splitOnce? ']' (more ++ ']' :: rest) = some (more, rest) :=
    Text.splitOnce?_eq_some_iff.mpr ⟨rfl, hmore⟩
  simp [bracketBody?, hsplit]

theorem exists_of_bracket? {part : Part} {taken : Nat} (h : bracket? cs = some (part, taken)) :
    ∃ body rest, BracketBody body ∧ cs = body ++ ']' :: rest ∧ cs.drop taken = rest := by
  unfold bracket? at h
  split at h
  · obtain ⟨read, hread, heq⟩ := Option.map_eq_some_iff.mp h
    obtain ⟨c, more, rest, rfl, hmore, rfl⟩ := exists_of_bracketBody? hread
    cases heq
    refine ⟨'!' :: c :: more, rest, .noneOf hmore, by simp, ?_⟩
    simp [List.drop_append]
  · rename_i plain
    obtain ⟨read, hread, heq⟩ := Option.map_eq_some_iff.mp h
    obtain ⟨c, more, rest, rfl, hmore, rfl⟩ := exists_of_bracketBody? hread
    cases heq
    refine ⟨c :: more, rest, .oneOf ?_ hmore, by simp, ?_⟩
    · rintro rfl
      exact plain _ rfl
    · simp [List.drop_append]

/-- What is read of brackets depends on what is between them only. -/
theorem exists_forall_bracket? (hbody : BracketBody body) :
    ∃ part, part ≠ .components ∧ ∀ rest, bracket? (body ++ ']' :: rest) = some (part, body.length + 1) := by
  cases hbody with
  | @oneOf c more hc hmore =>
    refine ⟨.oneOf (ranges (c :: more)), by simp, fun rest => ?_⟩
    unfold bracket?
    split
    next heq => exact absurd (List.cons.inj heq).1 hc
    next => simp [bracketBody?_append hmore]
  | @noneOf c more hmore =>
    exact ⟨.noneOf (ranges (c :: more)), by simp, fun rest => by simp [bracket?, bracketBody?_append hmore]⟩

/-- A bracket is closed at one place only. -/
theorem BracketBody.append_inj {other more : List Char} (hbody : BracketBody body)
    (hother : BracketBody other) (h : body ++ ']' :: cs = other ++ ']' :: more) : cs = more := by
  obtain ⟨part, -, hread⟩ := exists_forall_bracket? hbody
  obtain ⟨part', -, hread'⟩ := exists_forall_bracket? hother
  have hsame := hread cs
  rw [h, hread'] at hsame
  have hlength : other.length = body.length := by
    simp only [Option.some.injEq, Prod.mk.injEq] at hsame
    omega
  obtain ⟨-, hrest⟩ := List.append_inj h hlength.symm
  exact (List.cons.inj hrest).2

/-! ### Reading -/

/-- A pattern behind a character, or at the start, that can be read. -/
inductive WellFormed : Option Char → List Char → Prop
  | nil {before : Option Char} : WellFormed before []
  | rest {before : Option Char} (starts : startsComponent before = true) : WellFormed before ['*', '*']
  | components {before : Option Char} {cs : List Char} (starts : startsComponent before = true)
      (more : WellFormed (some '/') cs) : WellFormed before ('*' :: '*' :: '/' :: cs)
  | anyChars {before : Option Char} {cs : List Char} (single : cs.head? ≠ some '*')
      (more : WellFormed (some '*') cs) : WellFormed before ('*' :: cs)
  | bracket {before : Option Char} {body cs : List Char} (hbody : BracketBody body)
      (more : WellFormed (some ']') cs) : WellFormed before ('[' :: (body ++ ']' :: cs))
  | char {before : Option Char} {c : Char} {cs : List Char} (hstar : c ≠ '*') (hbracket : c ≠ '[')
      (more : WellFormed (some c) cs) : WellFormed before (c :: cs)

/-- A pair of stars is a whole component. -/
theorem wellFormed_pair_iff :
    WellFormed before ('*' :: '*' :: cs) ↔
      startsComponent before = true ∧ (cs = [] ∨ ∃ more, cs = '/' :: more ∧ WellFormed (some '/') more) := by
  constructor
  · intro h
    cases h with
    | rest starts => exact ⟨starts, .inl rfl⟩
    | components starts more => exact ⟨starts, .inr ⟨_, rfl, more⟩⟩
    | anyChars single => simp at single
    | char hstar => exact absurd rfl hstar
  · rintro ⟨starts, rfl | ⟨more, rfl, hmore⟩⟩
    · exact .rest starts
    · exact .components starts hmore

theorem wellFormed_star_iff (single : cs.head? ≠ some '*') :
    WellFormed before ('*' :: cs) ↔ WellFormed (some '*') cs := by
  constructor
  · intro h
    cases h with
    | rest | components => simp at single
    | anyChars _ more => exact more
    | char hstar => exact absurd rfl hstar
  · exact .anyChars single

theorem wellFormed_opening_iff :
    WellFormed before ('[' :: cs) ↔
      ∃ body rest, BracketBody body ∧ cs = body ++ ']' :: rest ∧ WellFormed (some ']') rest := by
  constructor
  · intro h
    cases h with
    | bracket hbody more => exact ⟨_, _, hbody, rfl, more⟩
    | char _ hopening => exact absurd rfl hopening
  · rintro ⟨body, rest, hbody, rfl, hrest⟩
    exact .bracket hbody hrest

theorem wellFormed_char_iff (hstar : c ≠ '*') (hopening : c ≠ '[') :
    WellFormed before (c :: cs) ↔ WellFormed (some c) cs := by
  constructor
  · intro h
    cases h with
    | rest | components | anyChars => exact absurd rfl hstar
    | bracket => exact absurd rfl hopening
    | char _ _ more => exact more
  · exact .char hstar hopening

/-- What is made of the parts that were read does not matter for whether they could be. -/
private theorem exists_bind_iff {ε α β : Type} {answer : Except ε α} {f : α → β} :
    (∃ value, (answer >>= fun found => pure (f found)) = .ok value) ↔ ∃ found, answer = .ok found := by
  cases answer with
  | error e =>
    constructor
    · rintro ⟨_, h⟩
      cases h
    · rintro ⟨_, h⟩
      cases h
  | ok found => exact ⟨fun _ => ⟨found, rfl⟩, fun _ => ⟨f found, rfl⟩⟩

private theorem not_exists_throw {ε α : Type} {e : ε} :
    ¬ ∃ value, (throw e : Except ε α) = .ok value := by
  rintro ⟨_, h⟩
  cases h

theorem exists_partsFrom_iff {position : Nat} :
    (∃ parts, partsFrom position before cs = .ok parts) ↔ WellFormed before cs := by
  fun_induction partsFrom position before cs with
  | case1 => exact ⟨fun _ => .nil, fun _ => ⟨_, rfl⟩⟩
  -- Two stars: a third one, no start of a component before them, the end, a slash, another character.
  | case2 => exact iff_of_false not_exists_throw (by simp [wellFormed_pair_iff])
  | case3 position before cs hcs hstarts =>
    apply iff_of_false not_exists_throw
    rw [wellFormed_pair_iff]
    rintro ⟨starts, -⟩
    simp [starts] at hstarts
  | case4 position before hstarts => exact ⟨fun _ => .rest (by simpa using hstarts), fun _ => ⟨_, rfl⟩⟩
  | case5 position before hstarts cs hcs ih =>
    have starts : startsComponent before = true := by simpa using hstarts
    rw [exists_bind_iff, ih, wellFormed_pair_iff]
    simp [starts]
  | case6 position before hstarts d cs hslash hcs =>
    apply iff_of_false not_exists_throw
    rw [wellFormed_pair_iff]
    rintro ⟨-, hnil | ⟨more, hmore, -⟩⟩
    · cases hnil
    · exact hslash (List.cons.inj hmore).1
  | case7 position before cs _ hsingle ih =>
    have single : cs.head? ≠ some '*' := by
      intro hhead
      obtain ⟨more, rfl⟩ := List.head?_eq_some_iff.mp hhead
      exact hsingle more rfl
    rw [exists_bind_iff, ih, wellFormed_star_iff single]
  | case8 position before cs ih =>
    rw [exists_bind_iff, ih, wellFormed_char_iff (by decide) (by decide)]
  | case9 position before cs part taken hbracket ih =>
    obtain ⟨body, rest, hbody, rfl, hrest⟩ := exists_of_bracket? hbracket
    rw [exists_bind_iff, ih, hrest, wellFormed_opening_iff]
    constructor
    · exact fun h => ⟨body, rest, hbody, rfl, h⟩
    · rintro ⟨other, more, hother, heq, hmore⟩
      -- However the bracket is put together, it ends at the same place.
      rwa [hbody.append_inj hother heq]
  | case10 position before cs hnone =>
    apply iff_of_false not_exists_throw
    rw [wellFormed_opening_iff]
    rintro ⟨body, rest, hbody, rfl, -⟩
    obtain ⟨part, -, hread⟩ := exists_forall_bracket? hbody
    rw [hread] at hnone
    cases hnone
  | case11 position before c cs _ _ hstar _ hopening ih =>
    rw [exists_bind_iff, ih, wellFormed_char_iff hstar hopening]

theorem exists_ofText_iff {pattern : String} :
    (∃ glob, ofText pattern = .ok glob) ↔ WellFormed none pattern.toList := by
  apply Iff.trans exists_bind_iff
  exact exists_partsFrom_iff

/-! ### Taking a pattern apart at a slash -/

theorem WellFormed.append_slash (hcs : WellFormed before cs) (hrest : WellFormed (some '/') rest) :
    WellFormed before (cs ++ '/' :: rest) := by
  induction hcs with
  | nil => exact .char (by decide) (by decide) hrest
  | rest starts => exact .components starts hrest
  | components starts _ ih => exact .components starts ih
  | @anyChars before more single _ ih =>
    apply WellFormed.anyChars ?_ ih
    cases more with
    | nil => simp
    | cons c more => exact single
  | bracket hbody _ ih =>
    rw [List.cons_append, List.append_assoc]
    exact .bracket hbody ih
  | char hstar hbracket _ ih => exact .char hstar hbracket ih

theorem WellFormed.of_append_slash (hclosing : ']' ∉ rest) (h : WellFormed before (cs ++ '/' :: rest)) :
    WellFormed before cs ∧ WellFormed (some '/') rest := by
  generalize hwhole : cs ++ '/' :: rest = whole at h
  induction h generalizing cs with
  | nil => simp at hwhole
  | rest =>
    -- There is no slash in a pair of stars.
    have hslash : '/' ∈ ['*', '*'] := by
      rw [← hwhole]
      simp
    simp at hslash
  | @components before more starts hmore ih =>
    -- The slash is the one behind the stars, or a later one.
    rcases cs with _ | ⟨_, _ | ⟨_, _ | ⟨_, cs⟩⟩⟩ <;> simp at hwhole
    · obtain ⟨rfl, rfl, rfl⟩ := hwhole
      exact ⟨.rest starts, hmore⟩
    · obtain ⟨rfl, rfl, rfl, hwhole⟩ := hwhole
      obtain ⟨hcs, hrest⟩ := ih hwhole
      exact ⟨.components starts hcs, hrest⟩
  | @anyChars before more single hmore ih =>
    cases cs with
    | nil => simp at hwhole
    | cons c cs =>
      obtain ⟨rfl, htail⟩ := List.cons.inj hwhole
      obtain ⟨hcs, hrest⟩ := ih htail
      refine ⟨.anyChars ?_ hcs, hrest⟩
      rw [← htail] at single
      cases cs with
      | nil => simp
      | cons d cs => exact single
  | @bracket before body more hbody hmore ih =>
    cases cs with
    | nil => simp at hwhole
    | cons c cs =>
      obtain ⟨rfl, htail⟩ := List.cons.inj hwhole
      rcases List.append_eq_append_iff.mp htail with ⟨part, hcs, hpart⟩ | ⟨part, rfl, hpart⟩
      · -- The closing bracket would stand behind the slash.
        have hmem : ']' ∈ '/' :: rest := by
          rw [hpart]
          simp
        simp [hclosing] at hmem
      · cases part with
        | nil => simp at hpart
        | cons d part =>
          obtain ⟨rfl, hmore⟩ := List.cons.inj hpart
          obtain ⟨hcs, hrest⟩ := ih hmore.symm
          exact ⟨.bracket hbody hcs, hrest⟩
  | @char before c more hstar hbracket hmore ih =>
    cases cs with
    | nil =>
      obtain ⟨rfl, rfl⟩ := List.cons.inj hwhole
      exact ⟨.nil, hmore⟩
    | cons d cs =>
      obtain ⟨rfl, htail⟩ := List.cons.inj hwhole
      obtain ⟨hcs, hrest⟩ := ih htail
      exact ⟨.char hstar hbracket hcs, hrest⟩

theorem wellFormed_append_slash_iff (hclosing : ']' ∉ rest) :
    WellFormed before (cs ++ '/' :: rest) ↔ WellFormed before cs ∧ WellFormed (some '/') rest :=
  ⟨WellFormed.of_append_slash hclosing, fun h => h.1.append_slash h.2⟩

/-! ### Slashes for backslashes -/

/-- A character, with a slash in place of a backslash. -/
def slashed (c : Char) : Char :=
  if c = '\\' then '/' else c

theorem slashed_eq_iff {d : Char} (hslash : d ≠ '/') (hback : d ≠ '\\') : slashed c = d ↔ c = d := by
  by_cases hc : c = '\\'
  · simp [slashed, hc, hslash.symm, hback.symm]
  · simp [slashed, hc]

theorem slashed_eq_slash_iff : slashed c = '/' ↔ c = '/' ∨ c = '\\' := by
  by_cases hc : c = '\\'
  · simp [slashed, hc]
  · simp [slashed, hc]

/-- Any other character has only itself to come from. -/
theorem map_slashed_eq_cons_iff {d : Char} {image : List Char} (hslash : d ≠ '/') (hback : d ≠ '\\') :
    cs.map slashed = d :: image ↔ ∃ more, cs = d :: more ∧ more.map slashed = image := by
  simp [List.map_eq_cons_iff, slashed_eq_iff hslash hback]

theorem mem_map_slashed_iff : ']' ∈ cs.map slashed ↔ ']' ∈ cs := by
  simp [slashed_eq_iff]

theorem bracketBody_map_slashed_iff : BracketBody (body.map slashed) ↔ BracketBody body := by
  constructor
  · intro h
    generalize hmap : body.map slashed = image at h
    cases h with
    | @oneOf c more hc hmore =>
      obtain ⟨d, body, rfl, rfl, rfl⟩ := List.map_eq_cons_iff.mp hmap
      refine .oneOf ?_ (mem_map_slashed_iff.not.mp hmore)
      exact (slashed_eq_iff (by decide) (by decide)).not.mp hc
    | @noneOf c more hmore =>
      obtain ⟨_, rfl, hbody⟩ := (map_slashed_eq_cons_iff (by decide) (by decide)).mp hmap
      obtain ⟨d, body, rfl, rfl, rfl⟩ := List.map_eq_cons_iff.mp hbody
      exact .noneOf (mem_map_slashed_iff.not.mp hmore)
  · intro h
    cases h with
    | oneOf hc hmore =>
      apply BracketBody.oneOf
      · exact (slashed_eq_iff (by decide) (by decide)).not.mpr hc
      · exact mem_map_slashed_iff.not.mpr hmore
    | noneOf hmore => exact .noneOf (mem_map_slashed_iff.not.mpr hmore)

theorem startsComponent_iff : startsComponent before = true ↔ before = none ∨ before = some '/' := by
  cases before <;> simp [startsComponent]

/-- Behind a backslash a component starts in the other spelling only. -/
theorem startsComponent_map_slashed_iff :
    startsComponent (before.map slashed) = true ↔ startsComponent before = true ∨ before = some '\\' := by
  cases before <;> simp [startsComponent_iff, slashed_eq_slash_iff]

/-- A pair of stars outside of brackets has a backslash for a neighbour. -/
inductive TouchesBackslash : List Char → Prop
  | before {cs : List Char} : TouchesBackslash ('\\' :: '*' :: '*' :: cs)
  | behind {cs : List Char} : TouchesBackslash ('*' :: '*' :: '\\' :: cs)
  | bracket {body cs : List Char} (hbody : BracketBody body) (more : TouchesBackslash cs) :
      TouchesBackslash ('[' :: (body ++ ']' :: cs))
  | char {c : Char} {cs : List Char} (hbracket : c ≠ '[') (more : TouchesBackslash cs) :
      TouchesBackslash (c :: cs)

theorem WellFormed.not_touchesBackslash (h : WellFormed before cs) :
    ¬ TouchesBackslash cs ∧ (before = some '\\' → ¬ ['*', '*'] <+: cs) := by
  have hstart {before : Option Char} (starts : startsComponent before = true) : before ≠ some '\\' := by
    rintro rfl
    simp [startsComponent] at starts
  -- The second part is for a pattern that stands behind a backslash: the pair of stars that touches it comes first.
  induction h with
  | nil =>
    refine ⟨?_, by simp⟩
    intro h
    cases h
  | rest starts =>
    refine ⟨?_, fun hback => absurd hback (hstart starts)⟩
    intro h
    cases h with | char _ h => cases h with | char _ h => cases h
  | components starts _ ih =>
    refine ⟨?_, fun hback => absurd hback (hstart starts)⟩
    intro h
    cases h with | char _ h => cases h with | char _ h => cases h with | char _ h => exact ih.1 h
  | @anyChars before more single _ ih =>
    have hpair : ¬ ['*', '*'] <+: '*' :: more := by
      rintro ⟨later, hlater⟩
      simp at hlater
      simp [← hlater] at single
    refine ⟨?_, fun _ => hpair⟩
    intro h
    cases h with
    | behind => simp at single
    | char _ h => exact ih.1 h
  | @bracket before body more hbody _ ih =>
    refine ⟨?_, by simp⟩
    intro h
    generalize hinner : body ++ ']' :: more = inner at h
    cases h with
    | bracket hother h =>
      obtain rfl := hbody.append_inj hother hinner
      exact ih.1 h
    | char hopening => exact hopening rfl
  | @char before c more hstar hbracket _ ih =>
    refine ⟨?_, by simp [hstar.symm]⟩
    intro h
    cases h with
    | before => exact ih.2 rfl ⟨_, rfl⟩
    | behind => exact hstar rfl
    | bracket => exact hbracket rfl
    | char _ h => exact ih.1 h

theorem WellFormed.map_slashed (h : WellFormed before cs) :
    WellFormed (before.map slashed) (cs.map slashed) := by
  induction h with
  | nil => exact .nil
  | rest starts => exact .rest (startsComponent_map_slashed_iff.mpr (.inl starts))
  | components starts _ ih => exact .components (startsComponent_map_slashed_iff.mpr (.inl starts)) ih
  | @anyChars before more single _ ih =>
    apply WellFormed.anyChars ?_ ih
    simpa [slashed_eq_iff] using single
  | bracket hbody _ ih =>
    rw [List.map_cons, List.map_append]
    exact .bracket (bracketBody_map_slashed_iff.mpr hbody) ih
  | char hstar hbracket _ ih =>
    apply WellFormed.char ?_ ?_ ih
    · exact (slashed_eq_iff (by decide) (by decide)).not.mpr hstar
    · exact (slashed_eq_iff (by decide) (by decide)).not.mpr hbracket

theorem WellFormed.of_map_slashed (h : WellFormed (before.map slashed) (cs.map slashed))
    (hbefore : before = some '\\' → ¬ ['*', '*'] <+: cs) (hcs : ¬ TouchesBackslash cs) :
    WellFormed before cs := by
  generalize himage : cs.map slashed = image at h
  generalize hleft : before.map slashed = left at h
  induction h generalizing before cs with
  | nil =>
    obtain rfl := List.map_eq_nil_iff.mp himage
    exact .nil
  | rest starts =>
    obtain ⟨_, rfl, htail⟩ := (map_slashed_eq_cons_iff (by decide) (by decide)).mp himage
    obtain ⟨_, rfl, hnil⟩ := (map_slashed_eq_cons_iff (by decide) (by decide)).mp htail
    obtain rfl := List.map_eq_nil_iff.mp hnil
    rcases startsComponent_map_slashed_iff.mp (hleft ▸ starts) with starts | hback
    · exact .rest starts
    · exact absurd ⟨[], rfl⟩ (hbefore hback)
  | components starts _ ih =>
    obtain ⟨_, rfl, hstar⟩ := (map_slashed_eq_cons_iff (by decide) (by decide)).mp himage
    obtain ⟨_, rfl, htail⟩ := (map_slashed_eq_cons_iff (by decide) (by decide)).mp hstar
    obtain ⟨c, cs, rfl, hc, hmore⟩ := List.map_eq_cons_iff.mp htail
    -- The slash behind the stars was no backslash, and they did not stand behind one.
    rcases slashed_eq_slash_iff.mp hc with rfl | rfl
    · rcases startsComponent_map_slashed_iff.mp (hleft ▸ starts) with starts | hback
      · apply WellFormed.components starts
        apply ih (by simp) _ hmore rfl
        exact fun h => hcs (.char (by decide) (.char (by decide) (.char (by decide) h)))
      · exact absurd ⟨_, rfl⟩ (hbefore hback)
    · exact absurd .behind hcs
  | anyChars single _ ih =>
    obtain ⟨cs, rfl, hmore⟩ := (map_slashed_eq_cons_iff (by decide) (by decide)).mp himage
    apply WellFormed.anyChars
    · rw [← hmore] at single
      simpa [slashed_eq_iff] using single
    · exact ih (by simp) (fun h => hcs (.char (by decide) h)) hmore rfl
  | bracket hbody _ ih =>
    obtain ⟨_, rfl, htail⟩ := (map_slashed_eq_cons_iff (by decide) (by decide)).mp himage
    obtain ⟨body, _, rfl, rfl, hclose⟩ := List.map_eq_append_iff.mp htail
    obtain ⟨cs, rfl, hmore⟩ := (map_slashed_eq_cons_iff (by decide) (by decide)).mp hclose
    have hbody := bracketBody_map_slashed_iff.mp hbody
    exact .bracket hbody (ih (by simp) (fun h => hcs (.bracket hbody h)) hmore rfl)
  | char hstar hbracket _ ih =>
    obtain ⟨c, cs, rfl, rfl, hmore⟩ := List.map_eq_cons_iff.mp himage
    have hstar := (slashed_eq_iff (by decide) (by decide)).not.mp hstar
    have hopening := (slashed_eq_iff (by decide) (by decide)).not.mp hbracket
    apply WellFormed.char hstar hopening
    apply ih _ (fun h => hcs (.char hopening h)) hmore rfl
    -- Stars behind a backslash would touch it.
    intro hback hpair
    obtain rfl := Option.some.inj hback
    obtain ⟨more, rfl⟩ := hpair
    exact hcs .before

/-- A pattern can be read as it is written exactly if it can be read with slashes for backslashes and none of
its pairs of stars touches a backslash. -/
theorem wellFormed_iff_slashed :
    WellFormed none cs ↔ WellFormed none (cs.map slashed) ∧ ¬ TouchesBackslash cs := by
  constructor
  · exact fun h => ⟨h.map_slashed, h.not_touchesBackslash.1⟩
  · rintro ⟨h, hcs⟩
    have hslashed : WellFormed ((none : Option Char).map slashed) (cs.map slashed) := h
    exact hslashed.of_map_slashed (by simp) hcs

end Exemplar.Glob
