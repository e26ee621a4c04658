import UnitIndex.CommandLine.Run

/-!
The program.

It loads the files that a run may see, carries out the command line, and writes what comes of it. It
starts no front-end of its own: trees are dumped beforehand, the dump of a source `a.c` into
`a.c.ast` beside it and the messages that belong to it into `a.c.err`.
-/

namespace UnitIndex.Main

/-- The names that lead from the root to an absolute path. -/
def placeOf (path : String) : List String :=
  ((Path.mk path).pieces.map String.ofList).filter (· ≠ "")

/-- Load a file, or a directory so many levels deep without hidden entries. -/
def load (tree : FileTree) (path : String) : Nat → IO FileTree
  | 0 => return tree
  | levels + 1 => do
    let here := (← IO.currentDir) / path
    if !(← here.pathExists) then return tree
    let place := placeOf (← IO.FS.realPath here).toString
    if ← here.isDir then
      let mut tree := tree.makeDirs place
      for entry in ← here.readDir do
        if !Sources.isHidden entry.fileName then
          tree ← load tree (here / entry.fileName).toString levels
      return tree
    else
      let bytes ← IO.FS.readBinFile here
      return tree.addFile place ⟨Text.Utf8.decoded bytes.toList, false⟩

/-- Directories are followed no deeper than this. -/
def depth : Nat := 64

/-- Every file that a run may see. -/
def loadAll (a : Arguments) : IO FileTree := do
  let cwd : Path := ⟨(← IO.currentDir).toString⟩
  let named := a.paths ++ a.settingsFile.toList ++ a.unsaved.toList
  let settings := cwd.ancestors.map (·.join Settings.fileName)
  let tree : FileTree := { workingDirectory := placeOf cwd.text }
  (cwd :: settings ++ named).foldlM (fun tree p => load tree p.text depth) tree

/-- The bytes of a file, or none. -/
def bytesAt (tree : FileTree) (p : Path) : List UInt8 :=
  ((tree.readText? p).getD "").toUTF8.toList

/-- Stands in for the front-end: what it has printed is read from files beside the source. -/
def recorded (tree : FileTree) : Launcher IO := fun l => do
  if l.operands = ["--version"] then return .ok ⟨.code 0, [], [], none⟩
  let source := (l.directory.getD tree.workingPath).join ⟨l.operands.getLastD ""⟩
  return .ok ⟨.code 0, bytesAt tree ⟨source.text ++ ".ast"⟩, bytesAt tree ⟨source.text ++ ".err"⟩,
    none⟩

/-- Do something with a file; a fault that cannot be told apart counts as a refusal. -/
def attempt (action : IO Unit) : IO (Except HostFault Unit) := do
  match ← action.toBaseIO with
  | .ok _ => return .ok ()
  | .error (.noFileOrDirectory ..) => return .error .notFound
  | .error (.inappropriateType ..) => return .error .isDirectory
  | .error _ => return .error .denied

/-- The host of a run over recorded trees. -/
def hostOf (tree : FileTree) : Host IO where
  launcher := recorded tree
  files := return tree
  create file := attempt (IO.FS.writeBinFile file.text .empty)
  overwrite file bytes := attempt (IO.FS.writeBinFile file.text ⟨bytes.toArray⟩)

/-- Carry out a command line that could be read. -/
def carryOut (a : Arguments) : IO UInt32 := do
  let tree ← loadAll a
  match a.settings tree with
  | .error e =>
    IO.eprintln s!"tu-indexer: {e.message}"
    return 1
  | .ok (settings, _) =>
    match ← CommandLine.run ⟨hostOf tree, 1, .oldestFirst⟩ a settings with
    | .error e =>
      IO.eprintln e.message
      return 1
    | .ok result =>
      (← IO.getStdout).write ⟨(result.printed.getD []).toArray⟩
      return if result.succeeded then 0 else 1

end UnitIndex.Main

/-- Index the sources that the command line names. -/
def main (args : List String) : IO UInt32 := do
  match UnitIndex.Arguments.parse args with
  | .ok a => UnitIndex.Main.carryOut a
  | .error stop =>
    match stop.message? with
    | some message =>
      IO.eprintln s!"error: {message}"
      return 2
    | none =>
      IO.println "tu-indexer [OPTIONS] <PATHS>..."
      return 0
