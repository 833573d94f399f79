import Exemplar.Fault
import Exemplar.Files.Path

/-!
# Trees of files

A tree holds directories, files and symbolic links, and a directory in it is the one that paths start
from. Following a path, each step but the last leads to a directory; a link on the way leads where its
target does, seen from the directory that holds the link. Whether a link at the end is followed as well
depends on who asks. A place is the list of names that leads to it from the root.
-/

namespace Exemplar

/-- Something in a directory. -/
inductive Entry where
  | file (bytes : ByteArray)
  | link (target : String)
  | directory (entries : List (String × Entry))

namespace Entry

/-- The entry of a directory under a name. -/
def child? (name : String) : Entry → Option Entry
  | directory entries => entries.lookup name
  | file _ | link _ => none

/-- What a list of names leads to. -/
def at? : List String → Entry → Option Entry
  | [], entry => some entry
  | name :: names, entry => do at? names (← entry.child? name)

/-- Entries with another one under a name, in place of the one there if there is one. -/
def put (name : String) (entry : Entry) : List (String × Entry) → List (String × Entry)
  | [] => [(name, entry)]
  | (other, old) :: entries =>
    if other = name then (name, entry) :: entries else (other, old) :: put name entry entries

/-- The entries of a directory. Nothing else has any. -/
def entries : Entry → List (String × Entry)
  | directory entries => entries
  | file _ | link _ => []

/-- Puts an entry where a list of names leads, and makes the directories on the way that are missing. -/
def insert : List String → Entry → Entry → Entry
  | [], new, _ => new
  | name :: names, new, entry =>
    let old := (entry.child? name).getD (directory [])
    directory (put name (insert names new old) entry.entries)

def isDirectory : Entry → Bool
  | directory _ => true
  | file _ | link _ => false

def isFile : Entry → Bool
  | file _ => true
  | directory _ | link _ => false

end Entry

/-- A way down from the root: the entries it leads to with their names, the last one first. -/
structure Trail where
  root : Entry
  entries : List (String × Entry) := []

namespace Trail

/-- The way to where it starts. -/
def ofRoot (root : Entry) : Trail := ⟨root, []⟩

/-- Where the way ends. -/
def entry (trail : Trail) : Entry :=
  (trail.entries.head?.map Prod.snd).getD trail.root

/-- The names on the way. -/
def place (trail : Trail) : List String :=
  (trail.entries.map Prod.fst).reverse

/-- The way to the directory around. The root is in no other one. -/
def up (trail : Trail) : Trail :=
  { trail with entries := trail.entries.tail }

/-- The way on to an entry of the directory where it ends. -/
def down? (trail : Trail) (name : String) : Option Trail :=
  (trail.entry.child? name).map fun entry => { trail with entries := (name, entry) :: trail.entries }

/-- The way to a place. -/
def ofPlace? (root : Entry) (place : List String) : Option Trail :=
  place.foldlM down? (ofRoot root)

end Trail

/-- Files and directories with a place that paths start from. -/
structure FileTree where
  root : Entry
  workingPlace : List String

namespace FileTree

/-- A tree of entries below the directory that paths start from. -/
def ofEntries (workingPlace : List String) (entries : List (String × Entry)) : FileTree :=
  let place (path : String) := workingPlace ++ (Path.steps path).filterMap Step.name?
  let start := Entry.insert workingPlace (.directory []) (.directory [])
  ⟨entries.foldl (fun root (path, entry) => Entry.insert (place path) entry root) start, workingPlace⟩

/-- How many links one path may lead over. -/
def linkLimit : Nat := 40

/-- Where pieces of a path lead to, over `links` links at most. A link at the end is followed if `follow`
says so. -/
def resolveFrom (follow : Bool) (links : Nat) (trail : Trail) (pieces : List (List Char)) :
    Option Trail :=
  match pieces with
  | [] => some trail
  | piece :: rest =>
    match Step.ofPiece? piece with
    | none | some .root | some .here => resolveFrom follow links trail rest
    | some .up => resolveFrom follow links trail.up rest
    | some (.name name) =>
      match trail.down? name with
      | none => none
      | some next =>
        match next.entry with
        | .file _ => if rest.isEmpty then some next else none
        | .directory _ => resolveFrom follow links next rest
        | .link target =>
          if rest.isEmpty && !follow then some next
          else match links with
            | 0 => none
            | links + 1 =>
              let base := if Path.isAbsolute target then .ofRoot trail.root else trail
              resolveFrom follow links base (Path.pieces target ++ rest)
termination_by (links, pieces.length)

/-- The trail that a path leads to. -/
def resolve? (tree : FileTree) (follow : Bool) (path : String) : Option Trail := do
  if path = "" then none
  else
    let place := if Path.isAbsolute path then [] else tree.workingPlace
    resolveFrom follow linkLimit (← Trail.ofPlace? tree.root place) (Path.pieces path)

/-- What a path leads to. -/
def entry? (tree : FileTree) (follow : Bool) (path : String) : Option Entry :=
  (tree.resolve? follow path).map Trail.entry

def holds (tree : FileTree) (path : String) : Bool :=
  (tree.entry? true path).isSome

def isFile (tree : FileTree) (path : String) : Bool :=
  (tree.entry? true path).any Entry.isFile

def isDirectory (tree : FileTree) (path : String) : Bool :=
  (tree.entry? true path).any Entry.isDirectory

/-- The text of the file at a path. Links are refused, and so are files above the size limit. -/
def read (tree : FileTree) (path : String) : Except ReadFailure String :=
  match tree.entry? false path with
  | none => throw .unreadable
  | some (.link _) => throw .symlink
  | some (.directory _) => throw .irregular
  | some (.file bytes) =>
    if sizeLimit < bytes.size then throw (.tooBig bytes.size)
    else match String.fromUTF8? bytes with
      | some text => return text
      | none => throw .unreadable

end FileTree

end Exemplar
