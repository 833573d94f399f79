import Exemplar.Query.Quote

/-!
# Where quotes are open

Reading a query from left to right, a quotation mark opens a literal and the next one of the same sort closes it.
Every scan of a query keeps to this, so what is quoted is a property of the text before a place alone: the mark that
is open behind it. Between the marks of a literal its first one is open everywhere.
-/

namespace Exemplar.Query

variable {q : Char} {cs body : List Char}

theorem eq_of_isQuote (h : Text.isQuote q = true) : q = '\'' ∨ q = '"' := by
  simpa [Text.isQuote] using h

/-- The mark that is open behind a text, given the one that is open in front of it. -/
def quoteAfter (quote : Option Char) (cs : List Char) : Option Char :=
  cs.foldl stepQuote quote

@[simp] theorem quoteAfter_nil (quote : Option Char) : quoteAfter quote [] = quote := rfl

@[simp] theorem quoteAfter_cons (quote : Option Char) (c : Char) (cs : List Char) :
    quoteAfter quote (c :: cs) = quoteAfter (stepQuote quote c) cs := rfl

theorem quoteAfter_append (quote : Option Char) (front back : List Char) :
    quoteAfter quote (front ++ back) = quoteAfter (quoteAfter quote front) back :=
  List.foldl_append

theorem stepQuote_mark (mark : Text.isQuote q = true) : stepQuote none q = some q :=
  if_pos mark

theorem stepQuote_plain {c : Char} (plain : Text.isQuote c = false) : stepQuote none c = none := by
  simp [stepQuote, plain]

theorem stepQuote_close (q : Char) : stepQuote (some q) q = none := by
  simp [stepQuote]

theorem stepQuote_inside {c : Char} (h : c ≠ q) : stepQuote (some q) c = some q := by
  simp [stepQuote, h]

/-- Without its own sort a mark is not closed. -/
theorem quoteAfter_of_not_mem (free : q ∉ cs) : quoteAfter (some q) cs = some q := by
  induction cs with
  | nil => rfl
  | cons c cs ih =>
    obtain ⟨hc, hcs⟩ := not_or.mp (mt List.mem_cons.mpr free)
    rw [quoteAfter_cons, stepQuote_inside (Ne.symm hc), ih hcs]

/-- A closed literal: a mark, the next one of the same sort, and what is between them. -/
inductive IsQuoted : List Char → Prop
  | closed {q : Char} {body : List Char} (mark : Text.isQuote q = true) (free : q ∉ body) :
      IsQuoted (q :: body ++ [q])

/-- Between the marks of a literal the first one is open. -/
theorem quoteAfter_within (mark : Text.isQuote q = true) (free : q ∉ body) {early late : List Char}
    (split : q :: body ++ [q] = early ++ late) (hearly : early ≠ []) (hlate : late ≠ []) :
    quoteAfter none early = some q := by
  obtain ⟨c, early, rfl⟩ := List.exists_cons_of_ne_nil hearly
  rw [List.cons_append, List.cons_append] at split
  obtain ⟨rfl, hrest⟩ := List.cons.inj split
  -- What is left has the closing mark, so nothing before it has.
  have inside : early <+: body := by
    obtain ⟨late, d, rfl⟩ := List.eq_nil_or_concat late |>.resolve_left hlate
    rw [List.concat_eq_append, ← List.append_assoc] at hrest
    exact ⟨late, (List.append_inj' hrest rfl).1.symm⟩
  rw [quoteAfter_cons, stepQuote_mark mark]
  exact quoteAfter_of_not_mem fun hmem => free (inside.subset hmem)

end Exemplar.Query
