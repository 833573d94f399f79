import Exemplar.Proofs.Files.Below
import Exemplar.Proofs.Files.Tree
import Exemplar.Proofs.Settings.Exclude

/-!
# Directories that need not be searched

A search does not go into directories that the patterns for exclusion are about. If each pattern is about a directory
with everything in it, that makes no difference: whatever is below such a directory is excluded, too. The pattern for
what is below is made of the pattern for the directory by a slash and a pair of stars, so this fails only for a
directory whose pattern ends in a pair of stars with a slash of its own, as in `**//`.
-/

namespace Exemplar

namespace Exclusion

/-- A pattern is about a directory with everything in it. -/
def IsAbout (pattern directory : String) : Prop :=
  withSlashes pattern = directory ++ "/" ∨ withSlashes pattern = directory ++ "/**"

variable {pattern directory path more : String} {exclusion : Exclusion}

/-- What is read of such a pattern: one pattern for the directory, and one for everything below it. -/
theorem exists_base_of_isAbout (h : ofText pattern = .ok exclusion) (habout : IsAbout pattern directory) :
    ∃ base, Glob.ofText directory = .ok base ∧ Glob.ofText (directory ++ "/**") = .ok exclusion.files ∧
      exclusion.subtree? = some base ∧ (exclusion.directory? = some directory ∨ exclusion.directory? = none) := by
  rw [ofText] at h
  -- The pattern ends in a slash, or in a slash and a pair of stars.
  rcases habout with hpath | hpath
  · have hend : withoutEnd? (withSlashes pattern) "/" = some directory := by
      rw [withoutEnd?_eq_some_iff, hpath, String.toList_append]
    rw [hend] at h
    obtain ⟨files, hfiles, hrest⟩ := Text.bind_eq_ok_iff.mp h
    obtain ⟨base, hbase, hexclusion⟩ := Text.bind_eq_ok_iff.mp hrest
    obtain rfl := Except.ok.inj hexclusion
    exact ⟨base, hbase, hfiles, rfl, .inl rfl⟩
  · have hend : withoutEnd? (withSlashes pattern) "/" = none := by
      rw [Option.eq_none_iff_forall_ne_some]
      intro rest hrest
      rw [withoutEnd?_eq_some_iff, hpath, String.toList_append] at hrest
      have hlast := congrArg List.getLast? hrest
      simp at hlast
    have hbelow : withoutEnd? (withSlashes pattern) "/**" = some directory := by
      rw [withoutEnd?_eq_some_iff, hpath, String.toList_append]
    rw [hend] at h
    obtain ⟨files, hfiles, hrest⟩ := Text.bind_eq_ok_iff.mp h
    obtain ⟨subtree?, hsubtree, hexclusion⟩ := Text.bind_eq_ok_iff.mp hrest
    obtain rfl := Except.ok.inj hexclusion
    rw [hbelow, Option.mapM_some] at hsubtree
    obtain ⟨base, hbase, hsome⟩ := Text.bind_eq_ok_iff.mp hsubtree
    rw [hpath] at hfiles
    exact ⟨base, hbase, hfiles, (Except.ok.inj hsome).symm, .inr rfl⟩

/-- Whatever is below a directory that is passed over is passed over. -/
theorem excludes_of_prunes (h : ofText pattern = .ok exclusion) (habout : IsAbout pattern directory)
    (hslash : ¬ ['*', '*', '/'] <:+ directory.toList) (hliteral : Glob.Literal (path ++ "/" ++ more))
    (hprunes : exclusion.prunes path = true) : exclusion.excludes (path ++ "/" ++ more) = true := by
  obtain ⟨base, hbase, hfiles, hsubtree, hdirectory⟩ := exists_base_of_isAbout h habout
  rw [prunes, hsubtree, Option.any_some, Bool.or_eq_true] at hprunes
  rw [excludes, Bool.and_eq_true]
  constructor
  · rcases hprunes with hpath | hpath
    · rw [String.append_assoc]
      exact Glob.accepts_append hbase hfiles hpath _
    · exact Glob.accepts_below hbase hfiles hslash hpath more
  · -- What has just the name of the directory is longer than all that is passed over for it.
    rw [bne_iff_ne]
    intro hsame
    rw [hsame] at hdirectory
    obtain hname := Option.some.inj (hdirectory.resolve_right nofun)
    subst hname
    have hlength := Glob.length_le_of_accepts hliteral hbase hfiles hprunes.symm
    rw [String.length_append, String.length_append] at hlength
    have hone : "/".length = 1 := rfl
    omega

end Exclusion

/-! ### Paths as patterns see them -/

theorem Found.withoutDots_append {cs : List Char} (hempty : Found.relative.withoutDots cs ≠ [])
    (hhere : Found.relative.withoutDots cs ≠ ['.']) (more : List Char) :
    Found.relative.withoutDots (cs ++ '/' :: more) = Found.relative.withoutDots cs ++ '/' :: more := by
  fun_induction Found.relative.withoutDots cs with
  | case1 cs ih =>
    rw [List.cons_append, List.cons_append, Found.relative.withoutDots]
    exact ih hempty hhere
  | case2 cs hdots =>
    rw [Found.relative.withoutDots]
    intro rest hrest
    rcases cs with _ | ⟨c, _ | ⟨d, cs⟩⟩
    · exact hempty rfl
    · obtain ⟨rfl, -⟩ := List.cons.inj hrest
      exact hhere rfl
    · obtain ⟨rfl, htail⟩ := List.cons.inj hrest
      obtain ⟨rfl, -⟩ := List.cons.inj htail
      exact hdots cs rfl

/-- What is below a directory is seen below it, unless nothing is seen of the directory, or just a dot. -/
theorem Found.exists_relative_append {names more : List String} (hempty : relative names ≠ "")
    (hhere : relative names ≠ ".") (hmore : more ≠ []) :
    ∃ rest, relative (names ++ more) = relative names ++ "/" ++ rest := by
  have hnames : names ≠ [] := by
    rintro rfl
    exact hempty rfl
  have hslashes (path : String) : (Exclusion.withSlashes path).toList = path.toList.map Glob.slashed :=
    String.toList_ofList
  have hwhole : (Exclusion.withSlashes ("/".intercalate (names ++ more))).toList =
      (Exclusion.withSlashes ("/".intercalate names)).toList ++
        '/' :: (Exclusion.withSlashes ("/".intercalate more)).toList := by
    simp only [hslashes]
    rw [String.intercalate_append_of_ne_nil hnames hmore, String.toList_append, String.toList_append, List.map_append,
      List.map_append, List.append_assoc]
    rfl
  refine ⟨Exclusion.withSlashes ("/".intercalate more), ?_⟩
  have hdots := Found.withoutDots_append
    (fun h => hempty (by rw [relative, h])) (fun h => hhere (by rw [relative, h]))
    (Exclusion.withSlashes ("/".intercalate more)).toList
  rw [relative, hwhole, hdots, ← String.toList_inj, String.toList_ofList, String.toList_append, String.toList_append,
    List.append_assoc, relative, String.toList_ofList]
  rfl

/-! ### Searches that go everywhere -/

namespace Search

/-- The search that goes into all directories but the ignored ones. -/
def everywhere (search : Search) : Search :=
  { search with exclusions := [] }

variable (search : Search)

mutual

/-- What is found at an entry has the names on the way there in front. -/
theorem prefix_of_mem_find (layers : List IgnoreLayer) (found : Found) (entry : Entry) (other : Found)
    (h : other ∈ search.find layers found entry) : found.names <+: other.names := by
  cases entry with
  | directory entries =>
    rw [find] at h
    split at h
    · cases h
    · obtain ⟨more, -, hnames⟩ := exists_names_of_mem_findIn _ found entries other h
      exact ⟨more, hnames.symm⟩
  | file | link =>
    rw [find] at h
    split at h
    · cases h
    · rw [List.mem_singleton.mp h]

theorem exists_names_of_mem_findIn (layers : List IgnoreLayer) (found : Found) (entries : List (String × Entry))
    (other : Found) (h : other ∈ search.findIn layers found entries) :
    ∃ more, more ≠ [] ∧ other.names = found.names ++ more := by
  match entries with
  | [] => cases h
  | (name, entry) :: entries =>
    rw [findIn, List.mem_append] at h
    rcases h with hfirst | hrest
    · obtain ⟨more, hmore⟩ := prefix_of_mem_find layers _ entry other hfirst
      exact ⟨name :: more, List.cons_ne_nil _ _, by rw [← hmore]; simp⟩
    · exact exists_names_of_mem_findIn layers found entries other hrest

end

/-- Nothing that is to be kept is below a directory that is passed over. -/
def Spares (keep : Found → Bool) (found : Found) : Prop :=
  ∀ names more, found.names = names ++ more → more ≠ [] →
    Exclusions.pruneDirectory search.exclusions (Found.relative names) = true → keep found = false

theorem skips_eq (layers : List IgnoreLayer) (found : Found) (isDirectory : Bool) :
    search.skips layers found isDirectory = (search.everywhere.skips layers found isDirectory ||
      isDirectory && Exclusions.pruneDirectory search.exclusions (Found.relative found.names)) := by
  simp [skips, everywhere, Exclusions.pruneDirectory]

variable (keep : Found → Bool)

mutual

/-- A search finds all that is to be kept, as if it went everywhere. -/
theorem filter_find (layers : List IgnoreLayer) (found : Found) (entry : Entry)
    (h : ∀ other ∈ search.everywhere.find layers found entry, search.Spares keep other) :
    (search.everywhere.find layers found entry).filter keep = (search.find layers found entry).filter keep := by
  cases entry with
  | directory entries =>
    rw [find] at h ⊢
    rw [find, search.skips_eq]
    cases hignored : search.everywhere.skips layers found true with
    | true => rfl
    | false =>
      rw [hignored] at h
      cases hpruned : Exclusions.pruneDirectory search.exclusions (Found.relative found.names) with
      | true =>
        -- What is found in the directory is not kept.
        rw [Bool.and_true, Bool.or_true, if_pos rfl, List.filter_nil, if_neg Bool.false_ne_true, List.filter_eq_nil_iff]
        intro other hmem
        obtain ⟨more, hmore, hnames⟩ := search.everywhere.exists_names_of_mem_findIn _ found entries other hmem
        rw [h other hmem found.names more hnames hmore hpruned]
        exact Bool.false_ne_true
      | false => exact filter_findIn _ found entries h
  | file | link =>
    rw [find, find, search.skips_eq, Bool.false_and, Bool.or_false]

theorem filter_findIn (layers : List IgnoreLayer) (found : Found) (entries : List (String × Entry))
    (h : ∀ other ∈ search.everywhere.findIn layers found entries, search.Spares keep other) :
    (search.everywhere.findIn layers found entries).filter keep = (search.findIn layers found entries).filter keep := by
  match entries with
  | [] => rfl
  | (name, entry) :: entries =>
    rw [findIn, findIn, List.filter_append, List.filter_append]
    rw [findIn] at h
    rw [filter_find layers _ entry fun other hmem => h other (List.mem_append_left _ hmem),
      filter_findIn layers found entries fun other hmem => h other (List.mem_append_right _ hmem)]

end

theorem filter_run (path : String) (directory : Entry)
    (h : ∀ found ∈ search.everywhere.run path directory, search.Spares keep found) :
    (search.everywhere.run path directory).filter keep = (search.run path directory).filter keep :=
  search.filter_findIn keep _ _ _ h

end Search

/-! ### Nothing is lost -/

/-- Each pattern is about a directory with everything in it, and no directory is written with a pair of stars and a
slash at its end. -/
def Exclusions.AreRecursive (patterns : List String) : Prop :=
  ∀ pattern ∈ patterns, ∃ directory, Exclusion.IsAbout pattern directory ∧ ¬ ['*', '*', '/'] <:+ directory.toList

theorem Settings.excludeFile_of_pruneDirectory {settings : Settings} {exclusions : List Exclusion} {path more : String}
    (h : settings.exclusions = .ok exclusions) (hrecursive : Exclusions.AreRecursive settings.exclude)
    (hliteral : Glob.Literal (path ++ "/" ++ more)) (hpruned : Exclusions.pruneDirectory exclusions path = true) :
    Exclusions.excludeFile exclusions (path ++ "/" ++ more) = true := by
  rw [Exclusions.pruneDirectory, Bool.and_eq_true, List.any_eq_true] at hpruned
  obtain ⟨-, exclusion, hmem, hprunes⟩ := hpruned
  obtain ⟨pattern, hpattern, hread⟩ := (Text.mem_iff_of_mapM_eq_ok h).mp hmem
  obtain ⟨directory, habout, hslash⟩ := hrecursive pattern hpattern
  rw [Exclusions.excludeFile, List.any_eq_true]
  exact ⟨exclusion, hmem,
    Exclusion.excludes_of_prunes (Text.mapError_eq_ok_iff.mp hread) habout hslash hliteral hprunes⟩

/-- The names on the way to a file are seen as such, and none of their characters means anything in a pattern. -/
structure Found.IsPlain (found : Found) : Prop where
  literal : Glob.Literal (relative found.names)
  here : ∀ names, names <+: found.names → relative names ≠ "."

namespace FileTree

variable (tree : FileTree) (exclusions : List Exclusion)

/-- What a search below a directory finds if it passes over the directories that some patterns are about. -/
def foundBelow (path : String) : List Found :=
  if Path.steps path = [.name "-"] then []
  else match tree.resolve? true path with
    | none => []
    | some trail => Search.run ⟨tree.root, trail.place, exclusions⟩ path trail.entry

/-- Whether something that was found is a rule file to check. -/
def checks (found : Found) : Bool :=
  tree.isFile found.path && Path.isRuleFile found.path &&
    !Exclusions.excludeFile exclusions (Found.relative found.names)

theorem ruleFilesBelow_eq (path : String) : tree.ruleFilesBelow exclusions path =
    ((tree.foundBelow exclusions path).filter (tree.checks exclusions)).map Found.path := by
  unfold ruleFilesBelow foundBelow
  split
  · rfl
  · cases tree.resolve? true path <;> rfl

variable {tree exclusions}

theorem filter_foundBelow {path : String}
    (h : ∀ found ∈ tree.foundBelow [] path, ∀ names more, found.names = names ++ more → more ≠ [] →
      Exclusions.pruneDirectory exclusions (Found.relative names) = true → tree.checks exclusions found = false) :
    (tree.foundBelow [] path).filter (tree.checks exclusions) =
      (tree.foundBelow exclusions path).filter (tree.checks exclusions) := by
  unfold foundBelow at h ⊢
  split
  · rfl
  · next hdash =>
    rw [if_neg hdash] at h
    cases htrail : tree.resolve? true path with
    | none => rfl
    | some trail =>
      rw [htrail] at h
      exact Search.filter_run ⟨tree.root, trail.place, exclusions⟩ (tree.checks exclusions) path trail.entry h

end FileTree

/-- If each pattern is about a directory with everything in it, whatever is below a directory that a search passes over
is excluded. So a search finds the same files to check as if it went into all directories. -/
theorem Settings.pruning_spares {settings : Settings} {exclusions : List Exclusion}
    (h : settings.exclusions = .ok exclusions) (hrecursive : Exclusions.AreRecursive settings.exclude) :
    (∀ path more, Glob.Literal (path ++ "/" ++ more) → Exclusions.pruneDirectory exclusions path = true →
      Exclusions.excludeFile exclusions (path ++ "/" ++ more) = true) ∧
    ∀ (tree : FileTree) (path : String),
      (∀ found ∈ tree.foundBelow [] path, tree.checks exclusions found = true → found.IsPlain) →
      tree.ruleFilesBelow exclusions path =
        ((tree.foundBelow [] path).filter (tree.checks exclusions)).map Found.path := by
  refine ⟨fun path more => excludeFile_of_pruneDirectory h hrecursive, fun tree path hplain => ?_⟩
  rw [tree.ruleFilesBelow_eq, FileTree.filter_foundBelow]
  intro found hfound names more hnames hmore hpruned
  by_contra hchecks
  rw [Bool.not_eq_false] at hchecks
  obtain ⟨hliteral, hhere⟩ := hplain found hfound hchecks
  -- The file is seen below the directory, so it is excluded.
  have hempty : Found.relative names ≠ "" := by
    rintro hempty
    rw [hempty] at hpruned
    cases hpruned
  obtain ⟨rest, hrest⟩ := Found.exists_relative_append hempty (hhere names ⟨more, hnames.symm⟩) hmore
  rw [hnames, hrest] at hliteral
  have hexcluded := excludeFile_of_pruneDirectory h hrecursive hliteral hpruned
  rw [FileTree.checks, hnames, hrest, hexcluded] at hchecks
  simp at hchecks

/-- Patterns that are about directories with everything in them, at the root and anywhere. -/
def recursiveSettings : Settings :=
  { exclude := ["legacy/", "**/node_modules/**"] }

/-- The same patterns, once they are read. -/
def recursiveExclusions : List Exclusion :=
  [⟨⟨"legacy/".toList.map .char ++ [.components]⟩, some ⟨"legacy".toList.map .char⟩, some "legacy"⟩,
    ⟨⟨.components :: "node_modules/".toList.map .char ++ [.components]⟩,
      some ⟨.components :: "node_modules".toList.map .char⟩, none⟩]

/-- A rule file, and another one in a directory. -/
def FileTree.legacyFiles : FileTree :=
  ⟨.directory [("a.xml", .file .empty), ("legacy", .directory [("b.xml", .file .empty)])], []⟩

/-- A search finds the file in the directory unless it passes over the directory. -/
theorem FileTree.foundBelow_legacyFiles (exclusions : List Exclusion) :
    legacyFiles.foundBelow exclusions "." = ⟨"./a.xml", ["a.xml"]⟩ ::
      if Exclusions.pruneDirectory exclusions "legacy" then [] else [⟨"./legacy/b.xml", ["legacy", "b.xml"]⟩] := by
  let search : Search := ⟨legacyFiles.root, [], exclusions⟩
  let layer : IgnoreLayer := ⟨".", false, [], [], false⟩
  let layerBelow : IgnoreLayer := ⟨"./legacy", false, [], [], false⟩
  -- Neither of the directories says anything about ignoring.
  have hlayer : search.layer ⟨".", []⟩ = layer := ofPlace_of_silent rfl rfl (by simp)
  have hlayerBelow : search.layer ⟨"./legacy", ["legacy"]⟩ = layerBelow := ofPlace_of_silent rfl rfl (by simp)
  have hfile : search.find [layer] ⟨"./a.xml", ["a.xml"]⟩ (.file .empty) = [⟨"./a.xml", ["a.xml"]⟩] := rfl
  have hbelow : search.findIn [layerBelow, layer] ⟨"./legacy", ["legacy"]⟩ [("b.xml", .file .empty)] =
      [⟨"./legacy/b.xml", ["legacy", "b.xml"]⟩] := by
    have hjoin : Path.join "./legacy" "b.xml" = "./legacy/b.xml" := by decide +kernel
    rw [Search.findIn, hjoin]
    rfl
  have hdirectory : search.find [layer] ⟨"./legacy", ["legacy"]⟩ (.directory [("b.xml", .file .empty)]) =
      if Exclusions.pruneDirectory exclusions "legacy" then [] else [⟨"./legacy/b.xml", ["legacy", "b.xml"]⟩] := by
    have hrelative : Found.relative ["legacy"] = "legacy" := by decide +kernel
    have hskips : search.skips [layer] ⟨"./legacy", ["legacy"]⟩ true =
        Exclusions.pruneDirectory exclusions "legacy" := by
      rw [Search.skips, hrelative]
      rfl
    rw [Search.find, hskips, hlayerBelow, hbelow]
  have htrail : legacyFiles.resolve? true "." = some (.ofRoot legacyFiles.root) := resolve?_here _
  have hjoin : Path.join "." "a.xml" = "./a.xml" := by decide +kernel
  have hjoin' : Path.join "." "legacy" = "./legacy" := by decide +kernel
  rw [foundBelow, if_neg (by decide +kernel), htrail]
  change search.findIn [search.layer ⟨".", []⟩] ⟨".", []⟩
    [("a.xml", .file .empty), ("legacy", .directory [("b.xml", .file .empty)])] = _
  rw [hlayer, Search.findIn, Search.findIn, Search.findIn, hjoin, hjoin']
  change search.find [layer] ⟨"./a.xml", ["a.xml"]⟩ (.file .empty) ++
    (search.find [layer] ⟨"./legacy", ["legacy"]⟩ (.directory [("b.xml", .file .empty)]) ++ []) = _
  rw [hfile, hdirectory, List.append_nil]
  rfl

/-- What is installed somewhere is passed over with its directory. A search that passes over another directory finds
the files to check as if it went into it. -/
theorem pruning_spares_recursiveSettings : recursiveSettings.exclusions = .ok recursiveExclusions ∧
    Exclusions.pruneDirectory recursiveExclusions "web/node_modules" = true ∧
    Exclusions.excludeFile recursiveExclusions "web/node_modules/lib/a.xml" = true ∧
    FileTree.legacyFiles.foundBelow [] "." = [⟨"./a.xml", ["a.xml"]⟩, ⟨"./legacy/b.xml", ["legacy", "b.xml"]⟩] ∧
    FileTree.legacyFiles.foundBelow recursiveExclusions "." = [⟨"./a.xml", ["a.xml"]⟩] ∧
    FileTree.legacyFiles.ruleFilesBelow recursiveExclusions "." =
      ((FileTree.legacyFiles.foundBelow [] ".").filter (FileTree.legacyFiles.checks recursiveExclusions)).map
        Found.path := by
  have hread : recursiveSettings.exclusions = .ok recursiveExclusions := by decide +kernel
  have hrecursive : Exclusions.AreRecursive recursiveSettings.exclude := by
    intro pattern hmem
    rw [recursiveSettings, List.mem_cons, List.mem_singleton] at hmem
    rcases hmem with rfl | rfl
    · exact ⟨"legacy", .inl (by decide +kernel), by decide⟩
    · exact ⟨"**/node_modules", .inr (by decide +kernel), by decide⟩
  have hpruned : Exclusions.pruneDirectory recursiveExclusions "web/node_modules" = true := by decide +kernel
  have hlegacy : Exclusions.pruneDirectory recursiveExclusions "legacy" = true := by decide +kernel
  have hfound : FileTree.legacyFiles.foundBelow [] "." =
      [⟨"./a.xml", ["a.xml"]⟩, ⟨"./legacy/b.xml", ["legacy", "b.xml"]⟩] := by
    rw [FileTree.foundBelow_legacyFiles]
    rfl
  have hpassed : FileTree.legacyFiles.foundBelow recursiveExclusions "." = [⟨"./a.xml", ["a.xml"]⟩] := by
    rw [FileTree.foundBelow_legacyFiles, if_pos hlegacy]
  obtain ⟨hspares, hsame⟩ := Settings.pruning_spares hread hrecursive
  refine ⟨hread, hpruned, hspares "web/node_modules" "lib/a.xml" (by decide +kernel) hpruned, hfound, hpassed,
    hsame _ _ ?_⟩
  rw [hfound]
  have hplain (path : String) (names : List String) (hliteral : Glob.Literal (Found.relative names))
      (hhere : ∀ before ∈ names.inits, Found.relative before ≠ ".") : (⟨path, names⟩ : Found).IsPlain :=
    ⟨hliteral, fun before hbefore => hhere before ((List.mem_inits _ _).mpr hbefore)⟩
  intro found hmem _
  rw [List.mem_cons, List.mem_singleton] at hmem
  rcases hmem with rfl | rfl
  · exact hplain _ ["a.xml"] (by decide +kernel) (by decide +kernel)
  · exact hplain _ ["legacy", "b.xml"] (by decide +kernel) (by decide +kernel)

/-- A directory may be passed over although a file in it is not excluded: its pattern matches any directory, and what is
made of it for the files matches those with two slashes in a row only. -/
theorem pruneDirectory_starredSettings :
    let settings : Settings := { exclude := ["**//"] }
    settings.validate = .ok () ∧ ∃ exclusions, settings.exclusions = .ok exclusions ∧
      Exclusions.pruneDirectory exclusions "a" = true ∧ Exclusions.excludeFile exclusions "a/b.xml" = false :=
  ⟨by decide +kernel, [⟨⟨[.components, .char '/', .components]⟩, some ⟨[.components]⟩, some "**/"⟩],
    by decide +kernel, by decide +kernel, by decide +kernel⟩

end Exemplar
