import Exemplar.Files.Tree

/-!
# Snapshots of the disk

Gathers from the disk what a run can ask for: what some paths lead to, the directories and links on the
way, and the ignore files of the directories around. Below a directory, only rule files, ignore files and
links matter. A file that cannot be read is as good as one that is no text.
-/

namespace Exemplar.CommandLine

/-- Entries under their absolute paths. -/
abbrev Snapshot := List (String × Entry)

namespace Snapshot

/-- Bytes that are no text. -/
def unreadable : ByteArray := ⟨#[0xff]⟩

/-- The file at an absolute path. -/
def readFile (path : String) : IO Entry := do
  try return .file (← IO.FS.readBinFile ((← IO.currentDir) / path))
  catch _ => return .file unreadable

/-- Where a link at an absolute path leads in the end. One that leads nowhere is as good as one that
leads to itself. -/
def linkTarget (path : String) : IO String := do
  try return (← IO.FS.realPath ((← IO.currentDir) / path)).toString
  catch _ => return path

/-- A link, and the file it leads to if it leads to one. -/
def ofLink (path : String) : IO Snapshot := do
  let target ← linkTarget path
  let place := (← IO.currentDir) / target
  let link := (path, Entry.link target)
  if !(← place.isDir) && (← place.pathExists) && target != path then
    return [link, (target, ← readFile target)]
  else return [link]

/-- Whether a file below a directory matters for its name. -/
def wantsName (name : String) : Bool :=
  Path.isRuleFile name || [".ignore", ".gitignore", ".git", ".jj"].contains name

/-- What is at an absolute path and below it. -/
partial def below (wanted : Bool) (path : String) : IO Snapshot := do
  let place := (← IO.currentDir) / path
  try
    match (← place.symlinkMetadata).type with
    | .file => if wanted then return [(path, ← readFile path)] else return []
    | .symlink => ofLink path
    | .other => return [(path, .directory [])]
    | .dir =>
      let names := (← place.readDir).toList.map (·.fileName)
      let parts ← names.mapM fun name => below (wantsName name) (Path.join path name)
      return (path, .directory []) :: parts.flatten
  catch _ => return []

/-- The directories and links that the pieces of a path lead over from an absolute path, and where they
lead. -/
def route (start : String) : List (List Char) → IO (Snapshot × String)
  | [] => return ([], start)
  | piece :: rest =>
    match Step.ofPiece? piece with
    | some (.name name) => do
      let path := Path.join start name
      let target ← linkTarget path
      let (found, goal) ← route target rest
      if target != path then return ((path, .link target) :: found, goal)
      else if ← ((← IO.currentDir) / path).isDir then return ((path, .directory []) :: found, goal)
      else return (found, goal)
    | some .up => do
      let parent := ((← IO.currentDir) / start).parent.map (·.toString)
      route (parent.getD start) rest
    | _ => route start rest

/-- What the directories around an absolute path say about ignoring. -/
def around (path : String) : IO Snapshot := do
  let names := (Path.steps path).filterMap Step.name?
  let directories := (List.range names.length).map fun n => "/" ++ "/".intercalate (names.take n)
  let found ← directories.mapM fun directory => do
    let files ← [".ignore", ".gitignore"].mapM fun name => below true (Path.join directory name)
    let marks ← [".git", ".jj"].filterM fun name =>
      return ← ((← IO.currentDir) / Path.join directory name).pathExists
    return files.flatten ++ marks.map fun name => (Path.join directory name, .directory [])
  return found.flatten

/-- What a run can ask for that is given some paths. -/
def take (paths : List String) : IO FileTree := do
  let here := (← IO.currentDir).toString
  let parts ← (paths.filter (· != "")).mapM fun path => do
    let start := if Path.isAbsolute path then "/" else here
    let (links, goal) ← route start (Path.pieces path)
    return (← around goal, links, ← below true goal)
  let place (path : String) := (Path.steps path).filterMap Step.name?
  let add (root : Entry) (found : String × Entry) :=
    if (root.at? (place found.1)).isSome then root else Entry.insert (place found.1) found.2 root
  let entries := (here, .directory []) :: parts.flatMap fun (around, links, below) =>
    around ++ links ++ below
  return ⟨entries.foldl add (.directory []), place here⟩

end Snapshot

end Exemplar.CommandLine
