import Exemplar.Files.Glob

/-!
# Excluded files

Settings name files and directories to pass over by patterns for their paths below the directory that is
searched. A pattern that ends in a slash is about a directory with everything in it, but not about a file
of the same name. A directory with a pattern about everything below it need not be searched at all.
-/

namespace Exemplar

/-- A pattern for files to pass over. -/
structure Exclusion where
  files : Glob
  /-- Matches directories with nothing in them to check. -/
  subtree? : Option Glob
  /-- The directory that the pattern is about, if it ends in a slash. -/
  directory? : Option String
deriving DecidableEq, Repr

namespace Exclusion

/-- A path with slashes in place of backslashes. -/
def withSlashes (path : String) : String :=
  String.ofList (path.toList.map fun c => if c = '\\' then '/' else c)

/-- A text without some other text at its end, if it ends so. -/
def withoutEnd? (text ending : String) : Option String :=
  (ending.toList.reverse.isPrefixOf? text.toList.reverse).map fun rest => String.ofList rest.reverse

/-- Reads a pattern. Backslashes in it count as slashes. -/
def ofText (pattern : String) : Except Glob.Fault Exclusion := do
  let path := withSlashes pattern
  match withoutEnd? path "/" with
  | some directory =>
    return ⟨← Glob.ofText (directory ++ "/**"), some (← Glob.ofText directory), some directory⟩
  | none => return ⟨← Glob.ofText path, ← (withoutEnd? path "/**").mapM Glob.ofText, none⟩

/-- Whether a file is passed over. -/
def excludes (exclusion : Exclusion) (file : String) : Bool :=
  exclusion.files.accepts file && exclusion.directory? != some file

/-- Whether a directory is passed over. -/
def prunes (exclusion : Exclusion) (directory : String) : Bool :=
  exclusion.files.accepts directory || exclusion.subtree?.any (·.accepts directory)

end Exclusion

namespace Exclusions

/-- Whether any pattern is about a file. -/
def excludeFile (exclusions : List Exclusion) (file : String) : Bool :=
  exclusions.any (·.excludes file)

/-- Whether any pattern is about a directory. Where the search starts is never passed over. -/
def pruneDirectory (exclusions : List Exclusion) (directory : String) : Bool :=
  directory != "" && exclusions.any (·.prunes directory)

end Exclusions

end Exemplar
