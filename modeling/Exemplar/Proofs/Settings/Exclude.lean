import Exemplar.Proofs.Files.Glob
import Exemplar.Proofs.Text.Place
import Exemplar.Settings.Basic

/-!
# Patterns that are looked at twice

Settings are checked with their patterns as they are written, and the search uses them with slashes for
backslashes, and with everything below a directory for the directory. Neither of the two readings that the
search makes of a pattern can fail alone: what is added stands behind a slash, and nothing that is added
closes a bracket.

So patterns that were found to be in order can be used. What can be used is in order unless a pair of
stars touches a backslash.
-/

namespace Exemplar

namespace Exclusion

theorem withoutEnd?_eq_some_iff {text ending rest : String} :
    withoutEnd? text ending = some rest ↔ text.toList = rest.toList ++ ending.toList := by
  rw [withoutEnd?, Option.map_eq_some_iff]
  constructor
  · rintro ⟨front, hfront, rfl⟩
    have hsplit := List.append_eq_of_isPrefixOf?_eq_some hfront
    rw [String.toList_ofList, ← List.reverse_inj, List.reverse_append, List.reverse_reverse, hsplit]
  · intro h
    refine ⟨rest.toList.reverse, ?_, by simp⟩
    rw [h, List.reverse_append]
    exact List.isPrefixOf?_eq_some_iff_append_eq.mpr rfl

/-- Where a pattern for what is below a directory can be read, so can the one for the directory. -/
theorem exists_directory_of_wellFormed {directory : String} {rest : List Char} (hclosing : ']' ∉ rest)
    (h : Glob.WellFormed none (directory.toList ++ '/' :: rest)) :
    ∃ glob, Glob.ofText directory = .ok glob :=
  Glob.exists_ofText_iff.mpr ((Glob.wellFormed_append_slash_iff hclosing).mp h).1

/-- Everything below a directory is read if the slash can stand where it does. -/
theorem wellFormed_below_iff {path directory : String} (hend : path.toList = directory.toList ++ ['/']) :
    Glob.WellFormed none (directory ++ "/**").toList ↔ Glob.WellFormed none path.toList := by
  have hadded : (directory ++ "/**").toList = directory.toList ++ '/' :: ['*', '*'] :=
    String.toList_append
  rw [hadded, hend, Glob.wellFormed_append_slash_iff (by decide),
    Glob.wellFormed_append_slash_iff (by decide)]
  exact and_congr_right fun _ => iff_of_true (.rest rfl) .nil

/-- A directory is read apart only if the pattern says so. -/
theorem exists_subtree_of_wellFormed {path : String} (h : Glob.WellFormed none path.toList) :
    ∃ subtree?, (withoutEnd? path "/**").mapM Glob.ofText = .ok subtree? := by
  cases hdirectory : withoutEnd? path "/**" with
  | none => exact ⟨none, rfl⟩
  | some directory =>
    rw [withoutEnd?_eq_some_iff.mp hdirectory] at h
    obtain ⟨subtree, hsubtree⟩ := exists_directory_of_wellFormed (by decide) h
    refine ⟨some subtree, ?_⟩
    rw [Option.mapM_some, hsubtree]
    rfl

/-- A pattern can be used exactly if it can be read with slashes for backslashes. -/
theorem exists_ofText_iff {pattern : String} :
    (∃ exclusion, ofText pattern = .ok exclusion) ↔
      Glob.WellFormed none (pattern.toList.map Glob.slashed) := by
  have hpath : (withSlashes pattern).toList = pattern.toList.map Glob.slashed := String.toList_ofList
  rw [← hpath, ofText]
  generalize withSlashes pattern = path
  split
  next directory hdirectory =>
    have hend : path.toList = directory.toList ++ ['/'] := withoutEnd?_eq_some_iff.mp hdirectory
    rw [← wellFormed_below_iff hend, ← Glob.exists_ofText_iff]
    constructor
    · rintro ⟨exclusion, h⟩
      obtain ⟨files, hfiles, -⟩ := Text.bind_eq_ok_iff.mp h
      exact ⟨files, hfiles⟩
    · rintro ⟨files, hfiles⟩
      have hpattern := (wellFormed_below_iff hend).mp (Glob.exists_ofText_iff.mp ⟨files, hfiles⟩)
      rw [hend] at hpattern
      obtain ⟨subtree, hsubtree⟩ := exists_directory_of_wellFormed (by decide) hpattern
      exact ⟨_, Text.bind_eq_ok_iff.mpr ⟨files, hfiles, Text.bind_eq_ok_iff.mpr ⟨subtree, hsubtree, rfl⟩⟩⟩
  next =>
    rw [← Glob.exists_ofText_iff]
    constructor
    · rintro ⟨exclusion, h⟩
      obtain ⟨files, hfiles, -⟩ := Text.bind_eq_ok_iff.mp h
      exact ⟨files, hfiles⟩
    · rintro ⟨files, hfiles⟩
      obtain ⟨subtree?, hsubtree⟩ := exists_subtree_of_wellFormed (Glob.exists_ofText_iff.mp ⟨files, hfiles⟩)
      exact ⟨_, Text.bind_eq_ok_iff.mpr ⟨files, hfiles, Text.bind_eq_ok_iff.mpr ⟨subtree?, hsubtree, rfl⟩⟩⟩

end Exclusion

namespace Settings

variable {settings : Settings}

theorem validate_eq_ok_iff_wellFormed :
    settings.validate = .ok () ↔ ∀ pattern ∈ settings.exclude, Glob.WellFormed none pattern.toList := by
  rw [validate, Text.forM_eq_ok_iff]
  refine forall₂_congr fun pattern _ => ?_
  rw [← Glob.exists_ofText_iff]
  cases Glob.ofText pattern with
  | error fault => exact iff_of_false (fun h => by cases h) (fun ⟨_, h⟩ => by cases h)
  | ok glob => exact iff_of_true rfl ⟨glob, rfl⟩

theorem exists_exclusions_iff :
    (∃ exclusions, settings.exclusions = .ok exclusions) ↔
      ∀ pattern ∈ settings.exclude, Glob.WellFormed none (pattern.toList.map Glob.slashed) := by
  simp only [← Exclusion.exists_ofText_iff]
  constructor
  · rintro ⟨exclusions, h⟩ pattern hpattern
    obtain ⟨exclusion, -, hexclusion⟩ := Text.exists_mem_of_mapM_eq_ok h hpattern
    exact ⟨exclusion, Text.mapError_eq_ok_iff.mp hexclusion⟩
  · intro h
    apply Text.exists_mapM_eq_ok
    intro pattern hpattern
    obtain ⟨exclusion, hexclusion⟩ := h pattern hpattern
    exact ⟨exclusion, Text.mapError_eq_ok_iff.mpr hexclusion⟩

/-- Settings are in order exactly if their patterns can be used and no pair of stars in one of them touches a
backslash. -/
theorem validate_eq_ok_iff_exclusions :
    settings.validate = .ok () ↔ (∃ exclusions, settings.exclusions = .ok exclusions) ∧
      ∀ pattern ∈ settings.exclude, ¬ Glob.TouchesBackslash pattern.toList := by
  have hpattern (pattern : String) : Glob.WellFormed none pattern.toList ↔
      Glob.WellFormed none (pattern.toList.map Glob.slashed) ∧ ¬ Glob.TouchesBackslash pattern.toList :=
    Glob.wellFormed_iff_slashed
  rw [validate_eq_ok_iff_wellFormed, exists_exclusions_iff]
  simp only [hpattern, forall_and]

/-- A pattern can be of use although settings with it are refused. -/
theorem exclusions_backslashPattern :
    let settings : Settings := { exclude := ["legacy\\**"] }
    settings.validate.isOk = false ∧ settings.exclusions.isOk = true := by
  decide +kernel

end Settings

end Exemplar
