import Exemplar.Files.Walk

/-!
# Files in one directory

Nothing but dots stands between where paths start and a file next to it, so a path to the file leads where its name
does. The files that a search finds there are those of the directory, as long as nothing says that they are
to be ignored.
-/

namespace Exemplar

namespace FileTree

section

variable {root : Entry} {place : List String} {trail : Trail} {entries : List (String × Entry)}
  (htrail : Trail.ofPlace? root place = some trail) (hentries : trail.entry = .directory entries)

include htrail hentries

/-- A path to a file next to where paths start, or to where there could be one. -/
theorem entry?_inPlace {follow : Bool} {path name : String} {dots : List (List Char)} {piece : List Char}
    (hempty : path ≠ "") (hrelative : Path.isAbsolute path = false) (hpieces : Path.pieces path = dots ++ [piece])
    (hdots : ∀ dot ∈ dots, Step.ofPiece? dot = none) (hpiece : Step.ofPiece? piece = some (.name name))
    (hfile : ∀ entry, entries.lookup name = some entry → entry.isFile = true) :
    entry? ⟨root, place⟩ follow path = entries.lookup name := by
  have hdown : trail.down? name =
      (entries.lookup name).map fun entry => { trail with entries := (name, entry) :: trail.entries } := by
    rw [Trail.down?, hentries]
    rfl
  have hlast : resolveFrom follow linkLimit trail [piece] =
      (entries.lookup name).map fun entry => { trail with entries := (name, entry) :: trail.entries } := by
    rw [resolveFrom]
    simp only [hpiece, hdown]
    cases hentry : entries.lookup name with
    | none => rfl
    | some entry =>
      cases entry with
      | file bytes => rfl
      | link | directory => cases hfile _ hentry
  have hwalk : resolveFrom follow linkLimit trail (dots ++ [piece]) =
      (entries.lookup name).map fun entry => { trail with entries := (name, entry) :: trail.entries } := by
    clear hpieces
    -- The dots lead nowhere else.
    induction dots with
    | nil => exact hlast
    | cons dot dots ih =>
      rw [List.cons_append, resolveFrom, hdots dot List.mem_cons_self]
      exact ih fun dot hdot => hdots dot (List.mem_cons_of_mem _ hdot)
  have hresolve : resolve? ⟨root, place⟩ follow path =
      (entries.lookup name).map fun entry => { trail with entries := (name, entry) :: trail.entries } := by
    rw [resolve?, if_neg hempty, hrelative, if_neg Bool.false_ne_true, hpieces]
    dsimp only
    rw [htrail]
    exact hwalk
  rw [ entry?, hresolve, Option.map_map]
  exact Option.map_id'

/-- A directory without any of the entries that do so says nothing about ignoring. -/
theorem ofPlace_of_silent {directory : String}
    (hsilent : ∀ name ∈ [".ignore", ".gitignore", ".git", ".jj"], entries.lookup name = none) :
    IgnoreLayer.ofPlace root place directory false = ⟨directory, false, [], [], false⟩ := by
  have hnone (name : String) (hempty : name ≠ "") (hrelative : Path.isAbsolute name = false)
      (hpieces : Path.pieces name = [name.toList]) (hpiece : Step.ofPiece? name.toList = some (.name name))
      (hmem : name ∈ [".ignore", ".gitignore", ".git", ".jj"]) : entry? ⟨root, place⟩ true name = none := by
    have hlookup := hsilent name hmem
    have hentry := @entry?_inPlace root place trail entries htrail hentries true name name [] name.toList hempty
      hrelative hpieces nofun hpiece
    refine (hentry fun entry hsome => ?_).trans hlookup
    cases hlookup.symm.trans hsome
  have hignore := hnone ".ignore" (by decide) (by decide +kernel) (by decide +kernel) (by decide +kernel) (by decide)
  have hgitignore :=
    hnone ".gitignore" (by decide) (by decide +kernel) (by decide +kernel) (by decide +kernel) (by decide)
  have hgit := hnone ".git" (by decide) (by decide +kernel) (by decide +kernel) (by decide +kernel) (by decide)
  have hjj := hnone ".jj" (by decide) (by decide +kernel) (by decide +kernel) (by decide +kernel) (by decide)
  simp only [IgnoreLayer.ofPlace, IgnoreLayer.rulesOf, holds, hignore, hgitignore, hgit, hjj]
  rfl

end

/-- A dot leads to where paths start. -/
theorem resolve?_here (root : Entry) : resolve? ⟨root, []⟩ true "." = some (.ofRoot root) := by
  have hdot : Path.pieces "." = [['.']] := by decide +kernel
  have hhere : Step.ofPiece? ['.'] = none := by decide +kernel
  have hrelative : Path.isAbsolute "." = false := by decide +kernel
  rw [resolve?, if_neg (by decide), hrelative, if_neg Bool.false_ne_true, hdot]
  change resolveFrom true linkLimit (.ofRoot root) [['.']] = _
  rw [resolveFrom, hhere]
  exact resolveFrom.eq_1 ..

theorem read_of_entry? {tree : FileTree} {path text : String} (h : entry? tree false path = some (.file text.toUTF8))
    (hsize : text.toUTF8.size ≤ sizeLimit) : tree.read path = .ok text := by
  have htext : String.fromUTF8? text.toUTF8 = some text := by
    simp only [String.fromUTF8?, Option.dite_none_right_eq_some]
    exact ⟨text.isValidUTF8, rfl⟩
  rw [read, h]
  dsimp only
  rw [if_neg (Nat.not_lt.mpr hsize), htext]
  rfl

/-! ### Two files -/

/-- Two rule files in a directory. -/
def twoFiles (text other : String) : FileTree :=
  ⟨.directory [("a.xml", .file text.toUTF8), ("b.xml", .file other.toUTF8)], []⟩

variable {text other : String}

theorem entry?_twoFiles {follow : Bool} {path name : String} {dots : List (List Char)} {piece : List Char}
    (hempty : path ≠ "") (hrelative : Path.isAbsolute path = false) (hpieces : Path.pieces path = dots ++ [piece])
    (hdots : ∀ dot ∈ dots, Step.ofPiece? dot = none) (hpiece : Step.ofPiece? piece = some (.name name)) :
    entry? (twoFiles text other) follow path =
      [("a.xml", Entry.file text.toUTF8), ("b.xml", .file other.toUTF8)].lookup name := by
  refine entry?_inPlace rfl rfl hempty hrelative hpieces hdots hpiece fun entry hentry => ?_
  rw [List.lookup_cons, List.lookup_cons] at hentry
  split at hentry
  · rw [← Option.some.inj hentry]
    rfl
  · split at hentry
    · rw [← Option.some.inj hentry]
      rfl
    · cases hentry

theorem entry?_twoFiles_first {follow : Bool} :
    entry? (twoFiles text other) follow "./a.xml" = some (.file text.toUTF8) :=
  @entry?_twoFiles text other follow "./a.xml" "a.xml" [['.']] "a.xml".toList (by decide) (by decide +kernel)
    (by decide +kernel) (by decide +kernel) (by decide +kernel)

theorem entry?_twoFiles_second {follow : Bool} :
    entry? (twoFiles text other) follow "./b.xml" = some (.file other.toUTF8) :=
  @entry?_twoFiles text other follow "./b.xml" "b.xml" [['.']] "b.xml".toList (by decide) (by decide +kernel)
    (by decide +kernel) (by decide +kernel) (by decide +kernel)

theorem read_twoFiles_first (hsize : text.toUTF8.size ≤ sizeLimit) :
    (twoFiles text other).read "./a.xml" = .ok text :=
  read_of_entry? entry?_twoFiles_first hsize

theorem read_twoFiles_second (hsize : other.toUTF8.size ≤ sizeLimit) :
    (twoFiles text other).read "./b.xml" = .ok other :=
  read_of_entry? entry?_twoFiles_second hsize

theorem run_twoFiles : Search.run ⟨(twoFiles text other).root, [], []⟩ "." (twoFiles text other).root =
    [⟨"./a.xml", ["a.xml"]⟩, ⟨"./b.xml", ["b.xml"]⟩] := by
  have hsilent : ∀ name ∈ [".ignore", ".gitignore", ".git", ".jj"],
      [("a.xml", Entry.file text.toUTF8), ("b.xml", .file other.toUTF8)].lookup name = none := by
    simp
  have hjoin : Path.join "." "a.xml" = "./a.xml" := by decide +kernel
  have hjoin' : Path.join "." "b.xml" = "./b.xml" := by decide +kernel
  rw [Search.run, Search.layer]
  dsimp only
  rw [List.append_nil, ofPlace_of_silent rfl rfl hsilent, ← hjoin, ← hjoin']
  rfl

theorem filesFor_twoFiles : (twoFiles text other).filesFor [] "." = ["./a.xml", "./b.xml"] := by
  have hdirectory : (twoFiles text other).isFile "." = false := by
    rw [isFile, entry?, twoFiles, resolve?_here]
    rfl
  have htrail : (twoFiles text other).resolve? true "." = some (.ofRoot (twoFiles text other).root) := resolve?_here _
  have hentry : (Trail.ofRoot (twoFiles text other).root).entry = (twoFiles text other).root := rfl
  have hplace : (Trail.ofRoot (twoFiles text other).root).place = [] := rfl
  rw [filesFor, hdirectory, if_neg Bool.false_ne_true, ruleFilesBelow, if_neg (by decide +kernel), htrail]
  dsimp only
  rw [hentry, hplace, run_twoFiles, List.filter_cons_of_pos, List.filter_cons_of_pos]
  · rfl
  · have hfile : (twoFiles text other).isFile "./b.xml" = true := by
      rw [isFile, entry?_twoFiles_second]
      rfl
    rw [hfile]
    decide +kernel
  · have hfile : (twoFiles text other).isFile "./a.xml" = true := by
      rw [isFile, entry?_twoFiles_first]
      rfl
    rw [hfile]
    decide +kernel

end FileTree

end Exemplar
