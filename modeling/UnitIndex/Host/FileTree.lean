import UnitIndex.Host.Fault
import UnitIndex.Path
import UnitIndex.Text.Utf8

/-!
A tree of directories and files.

The library never touches a disk: it is given the files that it may see as a value, with a working
directory, and returns the tree with the files that it has written. Paths are followed as a file
system follows them, piece by piece, so that `a/..` needs a directory `a` and a slash behind a file
leads nowhere. There are no links. Names and paths have a greatest length, and a path that holds a
NUL is none.
-/

namespace UnitIndex

/-- A file. -/
structure StoredFile where
  text : String
  executable : Bool := false
  deriving DecidableEq, Repr, Inhabited

/-- What stands at a place in the tree. -/
inductive FileEntry where
  | directory
  | file (f : StoredFile)
  /-- Reads as empty and keeps nothing of what is written to it; without room nothing can be. -/
  | device (room : Bool)
  deriving DecidableEq, Repr

/-- A tree of files, each entry under the names that lead to it from the root, and the directory at
which relative paths start. -/
structure FileTree where
  entries : List (List String × FileEntry) := []
  workingDirectory : List String := []
  deriving Repr

namespace FileTree

/-! ### Following paths -/

/-- The entry at a place; the root is always there. -/
def entryAt? (t : FileTree) (place : List String) : Option FileEntry :=
  if place.isEmpty then some .directory else t.entries.lookup place

/-- Whether a directory stands at the place. -/
def isDirAt (t : FileTree) (place : List String) : Bool := t.entryAt? place == some .directory

/-- The bytes of the longest name. -/
def longestName : Nat := 255

/-- The bytes of the longest path. -/
def longestPath : Nat := 4095

/-- What is wrong with a path by itself. -/
def pathFault? (p : Path) : Option HostFault :=
  if p.text.contains '\x00' then some .nulInPath
  else if p.text = "" then some .notFound
  else if longestPath < p.text.utf8ByteSize then some .nameTooLong
  else none

/-- The place of a name right below a place. -/
def below (place : List String) (name : List Char) : Except HostFault (List String) :=
  let name := String.ofList name
  if longestName < name.utf8ByteSize then .error .nameTooLong else .ok (place ++ [name])

/-- One piece further from a place. -/
def step (t : FileTree) (place : List String) (piece : List Char) :
    Except HostFault (List String) :=
  if !t.isDirAt place then .error .notDirectory
  else
    match piece with
    | [] | ['.'] => .ok place
    | ['.', '.'] => .ok place.dropLast
    | _ => do
      let next ← below place piece
      if (t.entryAt? next).isSome then .ok next else .error .notFound

/-- The place to which pieces of a path lead. -/
def follow (t : FileTree) (p : Path) (pieces : List (List Char)) :
    Except HostFault (List String) :=
  pieces.foldlM t.step (if p.isAbsolute then [] else t.workingDirectory)

/-- The place to which a path leads, when something stands there. -/
def locate (t : FileTree) (p : Path) : Except HostFault (List String) :=
  match pathFault? p with
  | some fault => .error fault
  | none => t.follow p p.pieces

/-- `locate` without the fault. -/
def locate? (t : FileTree) (p : Path) : Option (List String) := (t.locate p).toOption

/-- The entry to which a path leads. -/
def entry? (t : FileTree) (p : Path) : Option FileEntry := (t.locate? p).bind t.entryAt?

/-- Whether the path leads to a directory. -/
def isDir (t : FileTree) (p : Path) : Bool := t.entry? p == some .directory

/-- The file to which a path leads. -/
def file? (t : FileTree) (p : Path) : Option StoredFile :=
  match t.entry? p with
  | some (.file f) => some f
  | _ => none

/-- Whether the path leads to a file. -/
def isFile (t : FileTree) (p : Path) : Bool := (t.file? p).isSome

/-- The text that can be read at a path. -/
def readText? (t : FileTree) (p : Path) : Option String :=
  match t.entry? p with
  | some (.file f) => some f.text
  | some (.device _) => some ""
  | some .directory | none => none

/-- The absolute path of a place. -/
def pathOf (place : List String) : Path := ⟨"/" ++ "/".intercalate place⟩

/-- The path without detours of what the path leads to. -/
def realPath? (t : FileTree) (p : Path) : Option Path := (t.locate? p).map pathOf

/-- The working directory as a path. -/
def workingPath (t : FileTree) : Path := pathOf t.workingDirectory

/-! ### Changing the tree -/

/-- The tree with an entry put at a place. -/
def put (t : FileTree) (place : List String) (e : FileEntry) : FileTree :=
  if t.entries.any (·.1 == place) then
    { t with entries := t.entries.map fun (q, old) => if q = place then (q, e) else (q, old) }
  else { t with entries := t.entries ++ [(place, e)] }

/-- The tree with a directory at a place and at every place above it, where nothing stands yet. -/
def makeDirs (t : FileTree) (place : List String) : FileTree :=
  (List.range place.length).foldl
    (fun t n =>
      let above := place.take (n + 1)
      if (t.entryAt? above).isSome then t else t.put above .directory)
    t

/-- The tree with a file at a place, in directories made for it. -/
def addFile (t : FileTree) (place : List String) (f : StoredFile) : FileTree :=
  (t.makeDirs place.dropLast).put place (.file f)

/-- Where a file written to the path stands. The last piece has to be a name; a slash behind it
would make it a directory's. -/
def target (t : FileTree) (p : Path) : Except HostFault (List String) := do
  if let some fault := pathFault? p then throw fault
  let named := p.pieces.reverse.dropWhile (·.isEmpty)
  match named with
  | [] => throw .isDirectory
  | last :: before =>
    let dir ← t.follow p before.reverse
    if !t.isDirAt dir then .error .notDirectory
    else if last = ['.'] ∨ last = ['.', '.'] ∨ named.length < p.pieces.length then
      .error .isDirectory
    else
      let place ← below dir last
      if t.isDirAt place then .error .isDirectory else .ok place

/-- The tree with a text written to the path. A file that is there already stays executable. -/
def write (t : FileTree) (p : Path) (text : String) : Except HostFault FileTree := do
  let place ← t.target p
  match t.entryAt? place with
  | some (.file f) => return t.put place (.file { f with text := text })
  | some (.device room) => if room || text.isEmpty then return t else throw .noSpace
  | _ => return t.put place (.file ⟨text, false⟩)

/-- The tree with bytes written over the beginning of what stands at the path. -/
def overwrite (t : FileTree) (p : Path) (bytes : List UInt8) : Except HostFault FileTree :=
  let old := ((t.readText? p).getD "").toUTF8.toList
  t.write p (Text.Utf8.decoded (bytes ++ old.drop bytes.length))

/-! ### Listing -/

/-- The names and entries right below a place. -/
def childrenAt (t : FileTree) (place : List String) : List (String × FileEntry) :=
  t.entries.filterMap fun (q, e) =>
    match q.getLast? with
    | some name => if q.dropLast = place then some (name, e) else none
    | none => none

/-- The files below a place with the names that lead to them from there, except below entries that
`hidden` holds of; directories are followed `levels` deep. -/
def filesBelow (t : FileTree) (hidden : String → Bool) :
    Nat → List String → List (List String)
  | 0, _ => []
  | levels + 1, place =>
    (t.childrenAt place).flatMap fun (name, e) =>
      if hidden name then []
      else
        match e with
        | .file _ => [[name]]
        | .device _ => []
        | .directory =>
          (filesBelow t hidden levels (place ++ [name])).map (name :: ·)

/-- A bound on how deep the tree is. -/
def height (t : FileTree) : Nat := t.entries.foldl (fun h (q, _) => max h q.length) 0 + 1

end FileTree

end UnitIndex
