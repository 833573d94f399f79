import Exemplar.Files.Exclude
import Exemplar.Files.Ignore

/-!
# Files to check

A path that leads to a file stands for that file, whatever its name. A path that leads to a directory
stands for the rule files in it and below it, hidden ones included, that are neither ignored nor
excluded; links to directories are not followed on the way. Any other path stands for nothing.
-/

namespace Exemplar

/-- Something found below a directory. -/
structure Found where
  /-- The way there, as it is shown. -/
  path : String
  /-- The names on the way from where the search starts. -/
  names : List String
deriving DecidableEq, Repr

namespace Found

/-- The path from where the search starts, as patterns for exclusion see it. -/
def relative (names : List String) : String :=
  String.ofList (withoutDots (Exclusion.withSlashes ("/".intercalate names)).toList)
where
  withoutDots : List Char → List Char
    | '.' :: '/' :: cs => withoutDots cs
    | cs => cs

end Found

/-- A search below a directory. -/
structure Search where
  root : Entry
  /-- The place where the search starts. -/
  start : List String
  exclusions : List Exclusion

namespace Search

/-- Whether a search passes over something: what is ignored, and excluded directories. -/
def skips (search : Search) (layers : List IgnoreLayer) (found : Found) (isDirectory : Bool) : Bool :=
  IgnoreLayer.ignored layers ⟨found.path, search.start ++ found.names, isDirectory⟩ ||
    isDirectory && Exclusions.pruneDirectory search.exclusions (Found.relative found.names)

/-- What the directory that was found says about ignoring. -/
def layer (search : Search) (found : Found) : IgnoreLayer :=
  IgnoreLayer.ofPlace search.root (search.start ++ found.names) found.path false

mutual

/-- What a search finds at an entry: all that is no directory. -/
def find (search : Search) (layers : List IgnoreLayer) (found : Found) : Entry → List Found
  | .directory entries =>
    if search.skips layers found true then []
    else findIn search (search.layer found :: layers) found entries
  | .file _ | .link _ => if search.skips layers found false then [] else [found]

/-- What a search finds among the entries of a directory. -/
def findIn (search : Search) (layers : List IgnoreLayer) (found : Found) :
    List (String × Entry) → List Found
  | [] => []
  | (name, entry) :: entries =>
    find search layers ⟨Path.join found.path name, found.names ++ [name]⟩ entry ++
      findIn search layers found entries

end

/-- All that a search finds below a directory, which is itself never passed over. -/
def run (search : Search) (path : String) (directory : Entry) : List Found :=
  let found : Found := ⟨path, []⟩
  let layers := search.layer found :: IgnoreLayer.around search.root search.start
  findIn search layers found directory.entries

end Search

namespace FileTree

/-- The rule files in a directory and below it. A lone dash leads nowhere: it stands for standard
input. -/
def ruleFilesBelow (tree : FileTree) (exclusions : List Exclusion) (path : String) : List String :=
  if Path.steps path = [.name "-"] then []
  else match tree.resolve? true path with
    | none => []
    | some trail =>
      let search : Search := ⟨tree.root, trail.place, exclusions⟩
      let found := search.run path trail.entry
      (found.filter fun f => tree.isFile f.path && Path.isRuleFile f.path &&
        !Exclusions.excludeFile exclusions (Found.relative f.names)).map Found.path

/-- The files that a path stands for. -/
def filesFor (tree : FileTree) (exclusions : List Exclusion) (path : String) : List String :=
  if tree.isFile path then [path] else tree.ruleFilesBelow exclusions path

end FileTree

end Exemplar
