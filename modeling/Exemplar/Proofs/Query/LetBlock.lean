import Exemplar.Proofs.Text.Search
import Exemplar.Query.LetBlock

/-!
# Let blocks read back

Three scans read a let block: one for its beginning, one for the `return` that closes it, one for the bindings. The
last two follow quotes and brackets in the same way, so one notion of place serves both, and each goes over a binding
piece by piece: the name, the assignment sign, the value. A binding that is closed on its own leaves both where they
were, so the bindings that are written are the ones that are read.
-/

namespace Exemplar.Query

variable {c : Char} {cs front back text value read : List Char} {before : Option Char} {binding : LetVariable}
  {bindings : List LetVariable}

/-! ### Places between quotes and brackets -/

/-- Where a scan is: the open quotation mark, and the number of open brackets. -/
@[ext] structure Place where
  quote : Option Char
  depth : Int
deriving DecidableEq

namespace Place

/-- Outside of quotes and brackets. -/
def outside : Place := ⟨none, 0⟩

/-- The place after a character. Brackets in quotes do not count. -/
def step (place : Place) (c : Char) : Place where
  quote := stepQuote place.quote c
  depth := if place.quote.isNone then stepDepth place.depth c else place.depth

def after (place : Place) (cs : List Char) : Place :=
  cs.foldl step place

@[simp] theorem after_nil (place : Place) : place.after [] = place := rfl

@[simp] theorem after_cons (place : Place) (c : Char) (cs : List Char) :
    place.after (c :: cs) = (place.step c).after cs := rfl

end Place

/-- Neither a quotation mark nor a bracket. -/
def isFlat (c : Char) : Bool :=
  !Text.isQuote c && !"([\x7b".toList.contains c && !")]\x7d".toList.contains c

theorem isFlat_of_joinsLeft (h : joinsLeft c = true) : isFlat c = true := by
  have hapart : ['\'', '"', '(', '[', '\x7b', ')', ']', '\x7d'].all (!joinsLeft ·) = true := by decide
  have hmem : c ∉ ['\'', '"', '(', '[', '\x7b', ')', ']', '\x7d'] := fun hmem => by
    have hc := List.all_eq_true.mp hapart c hmem
    rw [h] at hc
    cases hc
  simp only [List.mem_cons, List.not_mem_nil, or_false, not_or] at hmem
  simp [isFlat, Text.isQuote, hmem]

theorem Place.after_flat (h : ∀ c ∈ cs, isFlat c = true) : Place.outside.after cs = .outside := by
  induction cs with
  | nil => rfl
  | cons c cs ih =>
    obtain ⟨hc, hcs⟩ := List.forall_mem_cons.mp h
    have hstep : Place.outside.step c = .outside := by
      simp only [isFlat, Bool.and_eq_true, Bool.not_eq_true'] at hc
      obtain ⟨⟨hquote, hopening⟩, hclosing⟩ := hc
      simp only [step, outside, stepQuote, stepDepth, hquote, hopening, hclosing]
      rfl
    rw [after_cons, hstep, ih hcs]

/-! ### What is written -/

/-- A value that is closed on its own: its quotes and brackets are, no bracket closes one in front of the value, and
outside of quotes and brackets there is neither a comma nor a `return`. -/
structure IsValue (value : List Char) : Prop where
  nonempty : value ≠ []
  trimmed : Text.trim value = value
  closed : Place.outside.after value = .outside
  nonneg : ∀ i ≤ value.length, 0 ≤ (Place.outside.after (value.take i)).depth
  comma : ∀ i ≤ value.length, Place.outside.after (value.take i) = .outside → (value.drop i).head? ≠ some ','
  keyword : ∀ i ≤ value.length, Place.outside.after (value.take i) = .outside →
    afterKeyword? "return" (value.take i).getLast? (value.drop i) = none

instance (value : List Char) : Decidable (IsValue value) :=
  decidable_of_iff (value ≠ [] ∧ Text.trim value = value ∧ Place.outside.after value = .outside ∧
    (∀ i ≤ value.length, 0 ≤ (Place.outside.after (value.take i)).depth) ∧
    (∀ i ≤ value.length, Place.outside.after (value.take i) = .outside → (value.drop i).head? ≠ some ',') ∧
    ∀ i ≤ value.length, Place.outside.after (value.take i) = .outside →
      afterKeyword? "return" (value.take i).getLast? (value.drop i) = none)
    ⟨fun h => ⟨h.1, h.2.1, h.2.2.1, h.2.2.2.1, h.2.2.2.2.1, h.2.2.2.2.2⟩,
      fun h => ⟨h.nonempty, h.trimmed, h.closed, h.nonneg, h.comma, h.keyword⟩⟩

/-- A variable with an ASCII name, which may have hyphens behind its first character. -/
def IsVariable (name : List Char) : Prop :=
  ∃ c rest, name = '$' :: c :: rest ∧ Text.isIdentStart c = true ∧
    rest.all (fun d => Text.isIdentChar d || d == '-') = true

theorem IsVariable.joinsLeft {name : List Char} (h : IsVariable name) : ∀ c ∈ name, joinsLeft c = true := by
  obtain ⟨c, rest, rfl, hc, hrest⟩ := h
  rw [List.forall_mem_cons, List.forall_mem_cons]
  refine ⟨rfl, ?_, fun d hd => ?_⟩
  · rw [Query.joinsLeft, Text.isIdentChar_of_isIdentStart hc]
    rfl
  · have hword := List.all_eq_true.mp hrest d hd
    simp only [Bool.or_eq_true, beq_iff_eq] at hword
    rcases hword with hword | rfl
    · rw [Query.joinsLeft, hword]
      rfl
    · rfl

/-- A variable and a value that is closed on its own. -/
structure LetVariable.IsWritable (binding : LetVariable) : Prop where
  name : IsVariable binding.name.toList
  value : IsValue binding.value.toList

def LetVariable.written (binding : LetVariable) : List Char :=
  binding.name.toList ++ " := ".toList ++ binding.value.toList

/-- The declarations of a let block, with the blank in front of its `return`. -/
def declared (bindings : List LetVariable) : List Char :=
  ", ".toList.intercalate (bindings.map LetVariable.written) ++ " ".toList

/-- A let block in front of the query proper. -/
def writtenQuery (bindings : List LetVariable) (body : List Char) : List Char :=
  "let ".toList ++ declared bindings ++ "return ".toList ++ body

theorem writtenQuery_eq (bindings : List LetVariable) (body : List Char) :
    writtenQuery bindings body = "let ".toList ++ (declared bindings ++ ("return ".toList ++ body)) := by
  unfold writtenQuery
  rw [List.append_assoc, List.append_assoc]

theorem declared_singleton (binding : LetVariable) : declared [binding] = binding.written ++ " ".toList := by
  simp [declared]

theorem declared_cons (binding next : LetVariable) (more : List LetVariable) :
    declared (binding :: next :: more) = binding.written ++ (", ".toList ++ declared (next :: more)) := by
  simp [declared]

/-! ### Keywords -/

/-- A keyword stands where it is written, with nothing around it that would make it another word. -/
theorem afterKeyword?_eq_some_iff {word : String} {after : List Char} :
    afterKeyword? word before cs = some after ↔ word.toList ++ after = cs ∧
      before.any joinsLeft = false ∧ after.head?.any joinsRight = false := by
  rw [afterKeyword?, Option.bind_eq_bind, Option.bind_eq_some_iff]
  constructor
  · rintro ⟨rest, hrest, h⟩
    split at h
    next => cases h
    next hjoins =>
      obtain rfl := Option.some.inj h
      rw [Bool.or_eq_true, not_or, Bool.not_eq_true, Bool.not_eq_true] at hjoins
      exact ⟨List.append_eq_of_isPrefixOf?_eq_some hrest, hjoins⟩
  · rintro ⟨hsplit, hbefore, hafter⟩
    refine ⟨after, List.isPrefixOf?_eq_some_iff_append_eq.mpr hsplit, ?_⟩
    rw [hbefore, hafter]
    rfl

/-- Text that cannot touch a keyword does not make one. -/
theorem afterKeyword?_append {word : String} (hword : ∀ c ∈ word.toList, joinsRight c = true)
    (hback : back.head?.any joinsRight = false) (h : afterKeyword? word before cs = none) :
    afterKeyword? word before (cs ++ back) = none := by
  by_contra hsome
  obtain ⟨after, hafter⟩ := Option.ne_none_iff_exists'.mp hsome
  obtain ⟨hsplit, hleft, hright⟩ := afterKeyword?_eq_some_iff.mp hafter
  -- A keyword that went on in the text behind would touch it.
  obtain ⟨rest, rfl, rfl⟩ : ∃ rest, cs = word.toList ++ rest ∧ after = rest ++ back := by
    rcases List.append_eq_append_iff.mp hsplit with ⟨rest, hcs, hrest⟩ | ⟨rest, hrest, rfl⟩
    · exact ⟨rest, hcs, hrest⟩
    · cases rest with
      | nil => exact ⟨[], by rw [List.append_nil, hrest, List.append_nil], rfl⟩
      | cons c rest =>
        rw [List.cons_append, List.head?_cons, Option.any_some, hword c (by simp [hrest])] at hback
        cases hback
  have hbehind : rest.head?.any joinsRight = false := by
    cases rest with
    | nil => rfl
    | cons c rest => exact hright
  have hfound : afterKeyword? word before (word.toList ++ rest) = some rest :=
    afterKeyword?_eq_some_iff.mpr ⟨rfl, hleft, hbehind⟩
  rw [h] at hfound
  cases hfound

/-! ### From keyword to keyword -/

theorem letFrom?_cons (pos : Nat) (quote before : Option Char) (c : Char) (cs : List Char) :
    letFrom? pos quote before (c :: cs) =
      (if quote.isNone then (afterKeyword? "let" before (c :: cs)).filter (·.head?.any Text.isAsciiBlank)
        else none).elim (letFrom? (pos + c.utf8Size) (stepQuote quote c) (some c) cs)
          fun after => some (pos, after.dropWhile Text.isAsciiBlank) := by
  rw [letFrom?]
  cases quote with
  | some q => rfl
  | none =>
    cases hkeyword : afterKeyword? "let" before (c :: cs) with
    | none => rfl
    | some after =>
      simp only [Option.isNone_none, if_true, Option.filter_some]
      cases hblank : after.head?.any Text.isAsciiBlank <;> simp [hblank]

theorem beforeReturn?_cons (place : Place) (before : Option Char) (c : Char) (cs : List Char) :
    beforeReturn? place.quote before place.depth (c :: cs) =
      if place.quote.isNone && place.depth ≤ 0 && (afterKeyword? "return" before (c :: cs)).isSome then some []
      else (beforeReturn? (place.step c).quote (some c) (place.step c).depth cs).map (c :: ·) :=
  rfl

/-- The scan for `return` goes over a text in which it finds none. -/
theorem beforeReturn?_append (place : Place) (before : Option Char) (front back : List Char)
    (silent : ∀ early late, front = early ++ late → late ≠ [] → (place.after early).quote = none →
      (place.after early).depth ≤ 0 → afterKeyword? "return" (early.getLast?.or before) (late ++ back) = none) :
    beforeReturn? place.quote before place.depth (front ++ back) =
      (beforeReturn? (place.after front).quote (front.getLast?.or before) (place.after front).depth back).map
        (front ++ ·) := by
  -- By the characters that are still to be read. The place and the character in front of them change with each.
  induction front generalizing place before with
  | nil => simp
  | cons c front ih =>
    have hhere : (place.quote.isNone && place.depth ≤ 0 &&
        (afterKeyword? "return" before (c :: (front ++ back))).isSome) = false := by
      by_contra hfound
      simp only [Bool.not_eq_false, Bool.and_eq_true, Option.isNone_iff_eq_none, decide_eq_true_eq] at hfound
      have hnone := silent [] (c :: front) rfl (List.cons_ne_nil _ _) hfound.1.1 hfound.1.2
      rw [List.getLast?_nil, Option.none_or, List.cons_append] at hnone
      simp [hnone] at hfound
    rw [List.cons_append, beforeReturn?_cons, hhere, if_neg Bool.false_ne_true, ih, Text.getLast?_cons_or,
      Option.map_map]
    · rfl
    · intro early late hsplit hlate hquote hdepth
      have hnone := silent (c :: early) late (by rw [hsplit, List.cons_append]) hlate hquote hdepth
      rwa [Text.getLast?_cons_or] at hnone

theorem beforeReturn?_closed (closed : Place.outside.after front = .outside) (before : Option Char) (back : List Char)
    (silent : ∀ early late, front = early ++ late → late ≠ [] → (Place.outside.after early).quote = none →
      (Place.outside.after early).depth ≤ 0 →
      afterKeyword? "return" (early.getLast?.or before) (late ++ back) = none) :
    beforeReturn? none before 0 (front ++ back) =
      (beforeReturn? none (front.getLast?.or before) 0 back).map (front ++ ·) := by
  have hread := beforeReturn?_append .outside before front back silent
  rwa [closed] at hread

/-- What stands between names and values: no keyword begins there, and a blank is in front of what follows. -/
theorem beforeReturn?_sign (before : Option Char) (front back : List Char)
    (plain : front.all (fun c => isFlat c && c != 'r') = true) (last : front.getLast? = some ' ') :
    beforeReturn? none before 0 (front ++ back) = (beforeReturn? none (some ' ') 0 back).map (front ++ ·) := by
  simp only [List.all_eq_true, Bool.and_eq_true, bne_iff_ne] at plain
  have hread := beforeReturn?_closed (Place.after_flat fun c hc => (plain c hc).1) before back ?_
  · rwa [last, Option.some_or] at hread
  · intro early late hsplit hlate _ _
    obtain ⟨c, late, rfl⟩ := List.exists_cons_of_ne_nil hlate
    by_contra hsome
    obtain ⟨after, hafter⟩ := Option.ne_none_iff_exists'.mp hsome
    have hhead := congrArg List.head? (afterKeyword?_eq_some_iff.mp hafter).1
    exact (plain c (by simp [hsplit])).2 (Option.some.inj hhead).symm

theorem beforeReturn?_name (h : IsVariable front) (before : Option Char) (back : List Char) :
    beforeReturn? none before 0 (front ++ back) =
      (beforeReturn? none (front.getLast?.or before) 0 back).map (front ++ ·) := by
  refine beforeReturn?_closed (Place.after_flat fun c hc => isFlat_of_joinsLeft (h.joinsLeft c hc)) before back ?_
  intro early late hsplit hlate _ _
  by_contra hsome
  obtain ⟨after, hafter⟩ := Option.ne_none_iff_exists'.mp hsome
  obtain ⟨hword, hleft, -⟩ := afterKeyword?_eq_some_iff.mp hafter
  rcases List.eq_nil_or_concat early with rfl | ⟨early, d, rfl⟩
  · -- The `$` begins no keyword.
    obtain ⟨c, rest, rfl, -⟩ := h
    rw [List.nil_append] at hsplit
    rw [← hsplit] at hword
    have hhead := congrArg List.head? hword
    exact absurd (Option.some.inj hhead) (by decide)
  · -- Behind it, each character goes on with a word.
    have hjoins := h.joinsLeft d (by simp [hsplit])
    simp [hjoins] at hleft

theorem beforeReturn?_value (h : IsValue value) (hback : back.head?.any joinsRight = false) :
    beforeReturn? none (some ' ') 0 (value ++ back) =
      (beforeReturn? none (value.getLast?.or (some ' ')) 0 back).map (value ++ ·) := by
  refine beforeReturn?_closed h.closed (some ' ') back ?_
  rintro early late rfl hlate hquote hdepth
  have hlength : early.length ≤ (early ++ late).length := by rw [List.length_append]; exact Nat.le_add_right _ _
  have hnonneg := h.nonneg early.length hlength
  have hnone := h.keyword early.length hlength
  rw [List.take_left] at hnonneg hnone
  rw [List.drop_left] at hnone
  -- The scan also stops below depth 0, but a value is never there.
  replace hnone := hnone (Place.ext hquote (Int.le_antisymm hdepth hnonneg))
  refine afterKeyword?_append (List.all_eq_true.mp (by decide)) hback ?_
  -- At the beginning of the value there is a blank in front of it, where the value alone has nothing.
  rw [← hnone, afterKeyword?, afterKeyword?]
  cases early.getLast? <;> rfl

theorem exists_beforeReturn?_written (h : binding.IsWritable) (back : List Char)
    (hback : back.head?.any joinsRight = false) :
    ∃ last, beforeReturn? none (some ' ') 0 (binding.written ++ back) =
      (beforeReturn? none last 0 back).map (binding.written ++ ·) := by
  refine ⟨binding.value.toList.getLast?.or (some ' '), ?_⟩
  have hsign := beforeReturn?_sign (binding.name.toList.getLast?.or (some ' ')) " := ".toList
    (binding.value.toList ++ back) (by decide) rfl
  rw [LetVariable.written, List.append_assoc, List.append_assoc, beforeReturn?_name h.name, hsign,
    beforeReturn?_value h.value hback]
  simp [Function.comp_def]

theorem beforeReturn?_declared (nonempty : bindings ≠ []) (writable : ∀ binding ∈ bindings, binding.IsWritable)
    (body : List Char) :
    beforeReturn? none (some ' ') 0 (declared bindings ++ ("return ".toList ++ body)) = some (declared bindings) := by
  induction bindings with
  | nil => exact absurd rfl nonempty
  | cons binding more ih =>
    obtain ⟨hbinding, hmore⟩ := List.forall_mem_cons.mp writable
    cases more with
    | nil =>
      obtain ⟨last, hread⟩ := exists_beforeReturn?_written hbinding (" ".toList ++ ("return ".toList ++ body)) rfl
      -- The last value is followed by the `return` that the scan stops at.
      have hblank := beforeReturn?_sign last " ".toList ("return ".toList ++ body) (by decide) rfl
      have hreturn : beforeReturn? none (some ' ') 0 ("return ".toList ++ body) = some [] := rfl
      rw [declared_singleton, List.append_assoc, hread, hblank, hreturn, Option.map_some, Option.map_some]
      rfl
    | cons next more =>
      obtain ⟨last, hread⟩ := exists_beforeReturn?_written hbinding
        (", ".toList ++ (declared (next :: more) ++ ("return ".toList ++ body))) rfl
      have hcomma := beforeReturn?_sign last ", ".toList (declared (next :: more) ++ ("return ".toList ++ body))
        (by decide) rfl
      rw [declared_cons, List.append_assoc, List.append_assoc, hread, hcomma,
        ih (List.cons_ne_nil _ _) hmore, Option.map_some, Option.map_some]

/-! ### From binding to binding -/

theorem bindingTextsFrom_cons (place : Place) (read : List Char) (c : Char) (cs : List Char) :
    bindingTextsFrom place.quote place.depth (some read) (c :: cs) =
      if (place.quote.isNone && place.depth == 0) && c == ',' then
        read.reverse :: bindingTextsFrom place.quote place.depth none cs
      else bindingTextsFrom (place.step c).quote (place.step c).depth (some (c :: read)) cs :=
  rfl

/-- A binding goes on up to the next comma outside of quotes and brackets. -/
theorem bindingTextsFrom_append (place : Place) (read front back : List Char)
    (h : ∀ early late, front = early ++ ',' :: late → place.after early ≠ .outside) :
    bindingTextsFrom place.quote place.depth (some read) (front ++ back) =
      bindingTextsFrom (place.after front).quote (place.after front).depth (some (front.reverse ++ read)) back := by
  induction front generalizing place read with
  | nil => rfl
  | cons c front ih =>
    have hgoesOn : ((place.quote.isNone && place.depth == 0) && c == ',') = false := by
      by_contra hcomma
      simp only [Bool.not_eq_false, Bool.and_eq_true, Option.isNone_iff_eq_none, beq_iff_eq] at hcomma
      obtain ⟨⟨hquote, hdepth⟩, rfl⟩ := hcomma
      exact h [] front rfl (Place.ext hquote hdepth)
    rw [List.cons_append, bindingTextsFrom_cons, hgoesOn, if_neg Bool.false_ne_true, ih, Place.after_cons,
      List.reverse_cons, List.append_assoc, List.singleton_append]
    intro early late hsplit
    exact h (c :: early) late (by rw [hsplit, List.cons_append])

theorem bindingTextsFrom_closed (closed : Place.outside.after front = .outside) (read back : List Char)
    (h : ∀ early late, front = early ++ ',' :: late → Place.outside.after early ≠ .outside) :
    bindingTextsFrom none 0 (some read) (front ++ back) =
      bindingTextsFrom none 0 (some (front.reverse ++ read)) back := by
  have hread := bindingTextsFrom_append .outside read front back h
  rwa [closed] at hread

theorem bindingTextsFrom_plain (read front back : List Char)
    (plain : front.all (fun c => isFlat c && c != ',') = true) :
    bindingTextsFrom none 0 (some read) (front ++ back) =
      bindingTextsFrom none 0 (some (front.reverse ++ read)) back := by
  simp only [List.all_eq_true, Bool.and_eq_true, bne_iff_ne] at plain
  refine bindingTextsFrom_closed (Place.after_flat fun c hc => (plain c hc).1) read back fun early late hsplit => ?_
  exact absurd rfl (plain ',' (by simp [hsplit])).2

theorem bindingTextsFrom_value (h : IsValue value) (read back : List Char) :
    bindingTextsFrom none 0 (some read) (value ++ back) =
      bindingTextsFrom none 0 (some (value.reverse ++ read)) back := by
  refine bindingTextsFrom_closed h.closed read back ?_
  rintro early late rfl houtside
  have hcomma := h.comma early.length
  rw [List.take_left, List.drop_left] at hcomma
  exact hcomma (by simp) houtside rfl

/-- A binding begins at its `$` and is still open where its value ends. -/
theorem bindingTextsFrom_written (h : binding.IsWritable) (back : List Char) :
    bindingTextsFrom none 0 none (binding.written ++ back) =
      bindingTextsFrom none 0 (some binding.written.reverse) back := by
  obtain ⟨c, rest, hname, -⟩ := h.name
  have hplain : (c :: rest).all (fun d => isFlat d && d != ',') = true := List.all_eq_true.mpr fun d hd => by
    have hjoins := h.name.joinsLeft d (by rw [hname]; exact List.mem_cons_of_mem _ hd)
    have hcomma : d ≠ ',' := by
      rintro rfl
      exact absurd hjoins (by decide)
    rw [isFlat_of_joinsLeft hjoins, Bool.true_and]
    exact bne_iff_ne.mpr hcomma
  have hstart (cs : List Char) : bindingTextsFrom none 0 none ('$' :: cs) = bindingTextsFrom none 0 (some ['$']) cs :=
    rfl
  rw [LetVariable.written, hname, List.append_assoc, List.append_assoc, List.cons_append, hstart,
    bindingTextsFrom_plain _ _ _ hplain, bindingTextsFrom_plain _ _ _ (by decide), bindingTextsFrom_value h.value]
  simp

/-! ### From text to binding -/

theorem bindingOf?_written (h : binding.IsWritable) (blank : List Char)
    (hblank : ∀ c ∈ blank, Text.isBlank c = true) : bindingOf? (binding.written ++ blank) = some binding := by
  obtain ⟨c, rest, hname, hstart, hrest⟩ := h.name
  have hwritten : binding.written = '$' :: (c :: rest ++ " := ".toList) ++ binding.value.toList := by
    rw [LetVariable.written, hname, List.cons_append]
  -- The blank in front of `return` goes to the last binding, and trimming takes it away again.
  have htrim : Text.trim (binding.written ++ blank) = binding.written := by
    have hbehind := Text.trim_append_blank (List.forall_mem_nil _) hblank binding.written
    rw [List.nil_append] at hbehind
    rw [hbehind, hwritten]
    exact Text.trim_cons_append rfl _ h.value.trimmed h.value.nonempty
  have hvalue : Text.trim (' ' :: binding.value.toList) = binding.value.toList := by
    have hblank : ∀ c ∈ [' '], Text.isBlank c = true := List.all_eq_true.mp (by decide)
    have hfront := Text.trim_append_blank hblank (List.forall_mem_nil _) binding.value.toList
    rw [List.append_nil, h.value.trimmed] at hfront
    exact hfront
  have hvariable : ∀ d ∈ c :: rest, isVariableChar d = true := by
    refine List.forall_mem_cons.mpr ⟨?_, fun d hd => ?_⟩
    · rw [isVariableChar, Text.isIdentChar_of_isIdentStart hstart]
      rfl
    · have hword := List.all_eq_true.mp hrest d hd
      rw [Bool.or_eq_true] at hword
      rcases hword with hword | hword <;> simp [isVariableChar, hword]
  -- Name, sign and value are read one after the other.
  have hdollar : ['$'].isPrefixOf? binding.written = some (c :: rest ++ (" := ".toList ++ binding.value.toList)) := by
    rw [hwritten, List.isPrefixOf?_eq_some_iff_append_eq]
    simp
  have htake : (c :: rest ++ (" := ".toList ++ binding.value.toList)).takeWhile isVariableChar = c :: rest := by
    rw [List.takeWhile_append_of_pos hvariable]
    exact List.append_nil _
  have hdrop : (c :: rest ++ (" := ".toList ++ binding.value.toList)).dropWhile isVariableChar =
      " := ".toList ++ binding.value.toList := by
    rw [List.dropWhile_append_of_pos hvariable]
    rfl
  have hsign : Text.afterAny? [[':', '='], ['=']] (Text.trimStart (" := ".toList ++ binding.value.toList)) =
      some (' ' :: binding.value.toList) := rfl
  have hstarts : (c :: rest ++ (" := ".toList ++ binding.value.toList)).head?.any Text.isIdentStart = true := hstart
  rw [bindingOf?, htrim, hdollar, Option.bind_eq_bind, Option.bind_some, if_pos hstarts, htake, hdrop]
  dsimp only
  rw [hsign, Option.bind_some, hvalue, if_neg (by simpa using h.value.nonempty), ← hname,
    String.ofList_toList, String.ofList_toList]

theorem bindings_declared (nonempty : bindings ≠ []) (writable : ∀ binding ∈ bindings, binding.IsWritable) :
    (bindingTexts (declared bindings)).filterMap bindingOf? = bindings := by
  rw [bindingTexts]
  induction bindings with
  | nil => exact absurd rfl nonempty
  | cons binding more ih =>
    obtain ⟨hbinding, hmore⟩ := List.forall_mem_cons.mp writable
    cases more with
    | nil =>
      have hread := bindingOf?_written hbinding " ".toList (List.all_eq_true.mp (by decide))
      have hlast : bindingTextsFrom none 0 (some binding.written.reverse) " ".toList =
          [binding.written ++ " ".toList] := by
        change [(' ' :: binding.written.reverse).reverse] = _
        rw [List.reverse_cons, List.reverse_reverse]
        rfl
      rw [declared_singleton, bindingTextsFrom_written hbinding, hlast, List.filterMap_cons, hread]
      rfl
    | cons next more =>
      have hread := bindingOf?_written hbinding [] (List.forall_mem_nil _)
      -- The comma ends the binding, and the blank behind it belongs to none.
      have hcomma (cs : List Char) : bindingTextsFrom none 0 (some binding.written.reverse) (", ".toList ++ cs) =
          binding.written.reverse.reverse :: bindingTextsFrom none 0 none cs := rfl
      rw [List.append_nil] at hread
      rw [declared_cons, bindingTextsFrom_written hbinding, hcomma, List.reverse_reverse, List.filterMap_cons, hread,
        ih (List.cons_ne_nil _ _) hmore]

/-! ### Round trip -/

theorem exists_declared (nonempty : bindings ≠ []) (writable : ∀ binding ∈ bindings, binding.IsWritable) :
    ∃ rest, declared bindings = '$' :: rest := by
  obtain ⟨binding, more, rfl⟩ := List.exists_cons_of_ne_nil nonempty
  obtain ⟨c, rest, hname, -⟩ := (List.forall_mem_cons.mp writable).1.name
  cases more with
  | nil => exact ⟨_, by rw [declared_singleton, LetVariable.written, hname]; rfl⟩
  | cons next more => exact ⟨_, by rw [declared_cons, LetVariable.written, hname]; rfl⟩

theorem letBlock?_writtenQuery (nonempty : bindings ≠ []) (writable : ∀ binding ∈ bindings, binding.IsWritable)
    (body : List Char) : letBlock? (writtenQuery bindings body) =
      some ⟨0, declared bindings, Text.byteSize ("let ".toList ++ declared bindings)⟩ := by
  obtain ⟨rest, hrest⟩ := exists_declared nonempty writable
  have hlet : letFrom? 0 none none (writtenQuery bindings body) =
      some (0, declared bindings ++ ("return ".toList ++ body)) := by
    rw [writtenQuery_eq, hrest]
    rfl
  have hsize : Text.byteSize (writtenQuery bindings body) -
      Text.byteSize (declared bindings ++ ("return ".toList ++ body)) = Text.byteSize "let ".toList := by
    rw [writtenQuery_eq, Text.byteSize_append, Nat.add_sub_cancel_right]
  rw [letBlock?, hlet, Option.bind_eq_bind, Option.bind_some]
  dsimp only
  rw [beforeReturn?_declared nonempty writable, Option.bind_eq_bind, Option.bind_some, hsize, ← Text.byteSize_append]
  rfl

/-- Bindings that are written as a let block are read back from it, and the block goes from the beginning to the
`return` behind it. -/
theorem letVariables_writtenQuery (bindings : List LetVariable) (body : List Char) (nonempty : bindings ≠ [])
    (writable : ∀ binding ∈ bindings, binding.IsWritable) :
    letVariables (String.ofList (writtenQuery bindings body)) = bindings ∧
      (letBlock? (writtenQuery bindings body)).map (fun block => (block.start, block.stop)) =
        some (0, Text.byteSize ("let ".toList ++ declared bindings)) := by
  rw [letVariables, String.toList_ofList, letBlock?_writtenQuery nonempty writable body]
  exact ⟨bindings_declared nonempty writable, rfl⟩

/-- Bindings with brackets, commas and keywords in quotes and in brackets, and with keywords in their names. -/
def nestedBindings : List LetVariable :=
  [⟨"$let-return", "('é, b', \"return )\")"⟩, ⟨"$m", "//A[let $x := 1, $y := 2 return $x]"⟩,
    ⟨"$return", "$let-return"⟩]

theorem letVariables_nestedBindings : nestedBindings ≠ [] ∧ (∀ binding ∈ nestedBindings, binding.IsWritable) ∧
    letVariables (String.ofList (writtenQuery nestedBindings "$m, 'return".toList)) = nestedBindings ∧
    (letBlock? (writtenQuery nestedBindings "$m, 'return".toList)).map (fun block => (block.start, block.stop)) =
      some (0, 108) := by
  have nonempty : nestedBindings ≠ [] := List.cons_ne_nil _ _
  have writable : ∀ binding ∈ nestedBindings, binding.IsWritable := by
    rw [nestedBindings, List.forall_mem_cons, List.forall_mem_cons, List.forall_mem_singleton]
    refine ⟨⟨⟨'l', "et-return".toList, rfl, rfl, by decide⟩, by decide +kernel⟩,
      ⟨⟨'m', [], rfl, rfl, by decide⟩, by decide +kernel⟩,
      ⟨⟨'r', "eturn".toList, rfl, rfl, by decide⟩, by decide +kernel⟩⟩
  have hsize : Text.byteSize ("let ".toList ++ declared nestedBindings) = 108 := by decide +kernel
  have hread := letVariables_writtenQuery nestedBindings "$m, 'return".toList nonempty writable
  rw [hsize] at hread
  exact ⟨nonempty, writable, hread⟩

end Exemplar.Query
