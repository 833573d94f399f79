/-!
# Texts with byte offsets

A text is analysed as its list of characters, but every position that is reported counts the bytes
of its UTF-8 encoding. `cut?` is the one place where a byte offset becomes a place between two
characters: it answers nothing for an offset inside a character or past the end.

Two sets of characters count as white space: the Unicode property `White_Space`, which decides what trimming
removes and whether a line has code on it, and its five ASCII members without the vertical tab, which
separate the words of a query.

Lines follow one rule throughout: a newline ends a line, a carriage return directly before that
newline belongs to the line ending, and the empty stretch after a final newline is no line.
-/

namespace Exemplar.Text

/-! ### Bytes -/

/-- Length of the UTF-8 encoding. -/
def byteSize (cs : List Char) : Nat :=
  cs.foldr (fun c size => c.utf8Size + size) 0

@[simp] theorem byteSize_nil : byteSize [] = 0 := rfl

@[simp] theorem byteSize_cons (c : Char) (cs : List Char) :
    byteSize (c :: cs) = c.utf8Size + byteSize cs := rfl

@[simp] theorem byteSize_append (as bs : List Char) :
    byteSize (as ++ bs) = byteSize as + byteSize bs := by
  induction as with
  | nil => simp
  | cons c as ih => rw [List.cons_append, byteSize_cons, byteSize_cons, ih, Nat.add_assoc]

/-- The text before and after byte `n`, if `n` lies between two characters. -/
def cut? : List Char → Nat → Option (List Char × List Char)
  | cs, 0 => some ([], cs)
  | [], _ + 1 => none
  | c :: cs, n + 1 =>
    if c.utf8Size ≤ n + 1 then
      (cut? cs (n + 1 - c.utf8Size)).map fun (before, after) => (c :: before, after)
    else none

/-- The text after byte `n`, if `n` lies between two characters. -/
def drop? : List Char → Nat → Option (List Char)
  | cs, 0 => some cs
  | [], _ + 1 => none
  | c :: cs, n + 1 => if c.utf8Size ≤ n + 1 then drop? cs (n + 1 - c.utf8Size) else none

/-- The bytes from `start` up to `stop`, if both lie between two characters. -/
def slice? (cs : List Char) (start stop : Nat) : Option (List Char) :=
  if start ≤ stop then do
    let tail ← drop? cs start
    let (middle, _) ← cut? tail (stop - start)
    return middle
  else none

/-- Cutting at the end of a part returns the part and what follows it. -/
theorem cut?_byteSize (as bs : List Char) : cut? (as ++ bs) (byteSize as) = some (as, bs) := by
  induction as with
  | nil => cases bs <;> simp [cut?]
  | cons c as ih =>
    obtain ⟨k, hk⟩ : ∃ k, c.utf8Size + byteSize as = k + 1 :=
      ⟨c.utf8Size + byteSize as - 1, by have := c.utf8Size_pos; omega⟩
    have hle : c.utf8Size ≤ k + 1 := by omega
    have hsub : k + 1 - c.utf8Size = byteSize as := by omega
    rw [List.cons_append, byteSize_cons, hk, cut?, if_pos hle, hsub, ih]
    rfl

/-- A cut splits the text without loss, at the byte it was asked for. -/
theorem append_of_cut? {cs as bs : List Char} {n : Nat} (h : cut? cs n = some (as, bs)) :
    cs = as ++ bs ∧ byteSize as = n := by
  induction cs, n using cut?.induct generalizing as bs with
  | case1 cs => simp [cut?] at h; obtain ⟨rfl, rfl⟩ := h; simp
  | case2 n => simp [cut?] at h
  | case3 c cs n hle ih =>
    rw [cut?, if_pos hle] at h
    obtain ⟨⟨before, after⟩, hcut, heq⟩ := Option.map_eq_some_iff.1 h
    obtain ⟨rfl, hsize⟩ := ih hcut
    simp only [Prod.mk.injEq] at heq
    obtain ⟨rfl, rfl⟩ := heq
    refine ⟨rfl, ?_⟩
    rw [byteSize_cons, hsize]
    omega
  | case4 c cs n hle => rw [cut?, if_neg hle] at h; cases h

/-- Dropping leaves what a cut leaves behind it. -/
theorem drop?_eq (cs : List Char) (n : Nat) : drop? cs n = (cut? cs n).map Prod.snd := by
  induction cs, n using cut?.induct with
  | case1 cs => simp [drop?, cut?]
  | case2 n => simp [drop?, cut?]
  | case3 c cs n hle ih => simp [drop?, cut?, hle, ih, Function.comp_def]
  | case4 c cs n hle => simp [drop?, cut?, hle]

/-! ### White space -/

/-- The Unicode property `White_Space`. -/
def isBlank (c : Char) : Bool :=
  let n := c.toNat
  (9 ≤ n && n ≤ 13) || n == 0x20 || n == 0x85 || n == 0xA0 || n == 0x1680 ||
    (0x2000 ≤ n && n ≤ 0x200A) || n == 0x2028 || n == 0x2029 || n == 0x202F || n == 0x205F ||
    n == 0x3000

/-- Space, tab, line feed, form feed and carriage return. -/
def isAsciiBlank (c : Char) : Bool :=
  c == ' ' || c == '\t' || c == '\n' || c == '\x0c' || c == '\r'

def trimStart (cs : List Char) : List Char :=
  cs.dropWhile isBlank

def trimEnd (cs : List Char) : List Char :=
  (cs.reverse.dropWhile isBlank).reverse

def trim (cs : List Char) : List Char :=
  trimEnd (trimStart cs)

/-- Nothing but white space. -/
def isBlankText (cs : List Char) : Bool :=
  cs.all isBlank

/-! ### Lines -/

/-- Adds one character in front of text that is already split at its newlines. -/
def consRow (c : Char) : List (List Char) → List (List Char)
  | [] => if c = '\n' then [[], []] else [[c]]
  | row :: rows => if c = '\n' then [] :: row :: rows else (c :: row) :: rows

/-- The stretches between newlines: one more than there are newlines. -/
def rows (cs : List Char) : List (List Char) :=
  cs.foldr consRow [[]]

/-- Drops a carriage return at the end. -/
def dropReturn (row : List Char) : List Char :=
  if row.getLast? = some '\r' then row.dropLast else row

/-- The lines of a text, without their line endings. -/
def lines (cs : List Char) : List (List Char) :=
  let all := rows cs
  let final := all.getLast?.getD []
  all.dropLast.map dropReturn ++ if final.isEmpty then [] else [final]

/-- The lines put back together with single newlines between them. -/
def joinLines (ls : List (List Char)) : List Char :=
  ['\n'].intercalate ls

/-- How many newlines stand before byte `n`, if `n` lies between two characters, and `count` more. -/
def newlinesFrom? (count : Nat) : List Char → Nat → Option Nat
  | _, 0 => some count
  | [], _ + 1 => none
  | c :: cs, n + 1 =>
    if c.utf8Size ≤ n + 1 then
      newlinesFrom? (if c = '\n' then count + 1 else count) cs (n + 1 - c.utf8Size)
    else none

/-- How many newlines stand before byte `n`, if `n` lies between two characters. -/
def newlinesBefore? (cs : List Char) (n : Nat) : Option Nat :=
  newlinesFrom? 0 cs n

/-- The 1-based line on which byte `n` lies, if `n` lies between two characters. -/
def lineAt? (cs : List Char) (n : Nat) : Option Nat :=
  (newlinesBefore? cs n).map (· + 1)

theorem newlinesFrom?_eq (count : Nat) (cs : List Char) (n : Nat) :
    newlinesFrom? count cs n = (cut? cs n).map fun (before, _) => count + before.count '\n' := by
  induction cs, n using cut?.induct generalizing count with
  | case1 cs => simp [newlinesFrom?, cut?]
  | case2 n => simp [newlinesFrom?, cut?]
  | case3 c cs n hle ih =>
    rw [newlinesFrom?, if_pos hle, ih, cut?, if_pos hle, Option.map_map]
    by_cases hc : c = '\n' <;> simp [Function.comp_def, hc, Nat.add_assoc, Nat.add_comm 1]
  | case4 c cs n hle => simp [newlinesFrom?, cut?, hle]

/-- The newlines before a byte are those of the text before a cut there. -/
theorem newlinesBefore?_eq (cs : List Char) (n : Nat) :
    newlinesBefore? cs n = (cut? cs n).map fun (before, _) => before.count '\n' := by
  simp [newlinesBefore?, newlinesFrom?_eq]

/-! ### ASCII case -/

/-- The text with its ASCII letters in lower case. -/
def lower (cs : List Char) : List Char :=
  cs.map Char.toLower

/-- Equality up to the case of ASCII letters. -/
def sameIgnoringCase (as bs : List Char) : Bool :=
  lower as == lower bs

end Exemplar.Text
