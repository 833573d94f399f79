import Exemplar.Files.IgnorePattern
import Exemplar.Files.Tree
import Exemplar.Text.Basic

/-!
# Ignore files

A directory can hold files that say what below it is to be ignored: `.ignore`, which always counts, and
`.gitignore`, which counts inside of a repository. Each line is a pattern; a `!` in front of it takes files
in again, and a slash at its end restricts it to directories. A pattern with a slash elsewhere is for
paths below the directory that holds the file, any other one is for names anywhere below it.

The last line of an ignore file that matches decides for that file. The files of deeper directories come
before those of the directories around them, and `.ignore` comes before `.gitignore`.

What the user says for all repositories, in a file that the settings of the version control system name, comes last
in that order and is left out: it belongs to the user and not to a tree of files. So trees are searched as for a user
who has no such file.

Lines are held against a path as it is spelled, less the path of the directory that holds them. Where a
search starts at a path with a needless dot in front, the two may be spelled differently; the whole path
is then what a line is held against.
-/

namespace Exemplar

/-- A line of an ignore file. -/
structure IgnoreRule where
  pattern : IgnorePattern
  /-- Whether it takes files in again. -/
  negated : Bool
  directoriesOnly : Bool

namespace IgnoreRule

/-- A line without the white space at its end. It stays whole where a backslash stands before the last
space. -/
def withoutBlankEnd (line : List Char) : List Char :=
  if ['\\', ' '].isSuffixOf line then line else Text.trimEnd line

/-- What the marks in front of a pattern say, whether it is negated and whether it is for paths, and the
pattern. A backslash keeps a mark from being one. -/
def marks : List Char → Bool × Bool × List Char
  | '\\' :: '!' :: cs => (false, false, '!' :: cs)
  | '\\' :: '#' :: cs => (false, false, '#' :: cs)
  | '!' :: '/' :: cs => (true, true, cs)
  | '!' :: cs => (true, false, cs)
  | '/' :: cs => (false, true, cs)
  | cs => (false, false, cs)

/-- A pattern without the slash at its end, if it has one. A backslash before that slash means nothing. -/
def withoutSlash? (pattern : List Char) : Option (List Char) :=
  match pattern.reverse with
  | '/' :: '\\' :: cs => some cs.reverse
  | '/' :: cs => some cs.reverse
  | _ => none

/-- The pattern for whole paths that stands for a pattern. One without slashes matches in any directory,
and one for all that is below a directory does not match the directory. -/
def completed (forPaths : Bool) (pattern : List Char) : List Char :=
  let anywhere := !forPaths && !pattern.contains '/' && pattern != ['*', '*']
  let pattern := if anywhere then '*' :: '*' :: '/' :: pattern else pattern
  if ['/', '*', '*'].isSuffixOf pattern then pattern ++ ['/', '*'] else pattern

/-- Reads a line, unless it is blank, a comment or no pattern. -/
def ofLine? (line : List Char) : Option IgnoreRule := do
  let line := withoutBlankEnd line
  if line.isEmpty || line.head? == some '#' then none
  else
    let (negated, forPaths, pattern) := marks line
    let directory? := withoutSlash? pattern
    let pattern ← IgnorePattern.ofText? (completed forPaths (directory?.getD pattern))
    return ⟨pattern, negated, directory?.isSome⟩

/-- Whether a line is about what stands at a path. -/
def isAbout (rule : IgnoreRule) (path : List UInt8) (isDirectory : Bool) : Bool :=
  (isDirectory || !rule.directoriesOnly) && rule.pattern.accepts path

/-- The lines before the first one that is no text, in place of which an empty one ends the file. -/
def validLines : List (List UInt8) → List (List Char)
  | [] => []
  | line :: lines =>
    match String.fromUTF8? ⟨line.toArray⟩ with
    | some text => text.toList :: validLines lines
    | none => [[]]

/-- Reads an ignore file, which can start with byte order marks. -/
def ofBytes (bytes : ByteArray) : List IgnoreRule :=
  let text := Text.joinLines (validLines (Text.pieces '\n'.toUInt8 bytes.toList))
  (Text.lines (text.dropWhile (· == '\ufeff'))).filterMap ofLine?

end IgnoreRule

/-- Something that can be ignored. -/
structure Candidate where
  /-- The path that it is shown under. -/
  shown : String
  /-- The names that lead to it from the root of all files. -/
  place : List String
  isDirectory : Bool
deriving DecidableEq, Repr

namespace Candidate

/-- The path from the root of all files. -/
def absolute (candidate : Candidate) : String :=
  "/" ++ "/".intercalate candidate.place

end Candidate

/-- What a directory says about ignoring. There is no layer for the file of the user, whose lines hold in all
repositories. -/
structure IgnoreLayer where
  /-- The path of the directory. -/
  directory : String
  /-- Whether the directory is around the one where the search starts. Its path is then absolute. -/
  isOutside : Bool
  plain : List IgnoreRule
  repository : List IgnoreRule
  /-- Whether a repository starts here. -/
  isRepository : Bool

namespace IgnoreLayer

/-- The lines of a file, or none if there is no such file. -/
def rulesOf (tree : FileTree) (name : String) : List IgnoreRule :=
  match tree.entry? true name with
  | some (.file bytes) => IgnoreRule.ofBytes bytes
  | _ => []

/-- What the directory at a place says. -/
def ofPlace (root : Entry) (place : List String) (directory : String) (isOutside : Bool) :
    IgnoreLayer :=
  let tree : FileTree := ⟨root, place⟩
  { directory, isOutside
    plain := rulesOf tree ".ignore"
    repository := rulesOf tree ".gitignore"
    isRepository := tree.holds ".git" || tree.holds ".jj" }

/-- The layers of the directories around a place, the deepest one first. -/
def around (root : Entry) (place : List String) : List IgnoreLayer :=
  let layers := (List.range place.length).map fun n =>
    ofPlace root (place.take n) ("/" ++ "/".intercalate (place.take n)) true
  layers.reverse

/-- A path without some start of it, if it starts so. -/
def without (start path : List Char) : List Char :=
  (start.isPrefixOf? path).getD path

/-- A path without the dot that it starts with, if it does. -/
def withoutDot (path : List Char) : List Char :=
  without ['.', '/'] path

/-- A path in a directory as the lines of that directory see it. What they do not see is the path of the
directory, as far as the two are spelled alike; one that is a dot and no more is not looked for. -/
def relative (directory path : List Char) : List Char :=
  let path := withoutDot path
  if Path.steps (String.ofList directory) = [.here] || !path.contains '/' then path
  else ((directory.isPrefixOf? path).map (without ['/'])).getD path

/-- What the lines of a directory see of a candidate. -/
def sight (layer : IgnoreLayer) (candidate : Candidate) : List Char :=
  let path := if layer.isOutside then candidate.absolute else candidate.shown
  relative (withoutDot layer.directory.toList) (withoutDot path.toList)

/-- What some of the lines of a directory say about a candidate: whether it is ignored. -/
def verdict? (layer : IgnoreLayer) (rules : List IgnoreRule) (candidate : Candidate) :
    Option Bool :=
  if rules.isEmpty then none
  else
    let path := (layer.sight candidate).flatMap IgnorePattern.bytesOf
    (rules.reverse.find? (·.isAbout path candidate.isDirectory)).map (!·.negated)

/-- The layers through the first one where a repository starts. -/
def throughRepository : List IgnoreLayer → List IgnoreLayer
  | [] => []
  | layer :: layers =>
    layer :: if layer.isRepository then [] else throughRepository layers

/-- Whether something is ignored. The layers are those of the directories around it, the deepest one
first. -/
def ignored (layers : List IgnoreLayer) (candidate : Candidate) : Bool :=
  let plain := layers.findSome? fun layer => layer.verdict? layer.plain candidate
  let repository :=
    if layers.any (·.isRepository) then
      (throughRepository layers).findSome? fun layer => layer.verdict? layer.repository candidate
    else none
  (plain.or repository).getD false

end IgnoreLayer

end Exemplar
