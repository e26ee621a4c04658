import UnitIndex.Host.FileTree
import UnitIndex.Host.Program

/-!
What surrounds the library: programs that it may run, and files.

A `Host` says how each is done, and everything that the library asks of its surroundings goes
through one. The files may change between two questions, because the programs that are run write
files as well. `Host.ofTree` is a host whose files are a value.
-/

namespace UnitIndex

/-- What the library may ask of its surroundings. -/
structure Host (m : Type → Type) where
  /-- Runs a program. -/
  launcher : Launcher m
  /-- The files as they are now. -/
  files : m FileTree
  /-- Makes an empty file, out of one that is there if there is one. -/
  create : Path → m (Except HostFault Unit)
  /-- Writes bytes over the beginning of a file. -/
  overwrite : Path → List UInt8 → m (Except HostFault Unit)

namespace Host

/-- Run a program. A command that holds a NUL cannot be passed on. -/
def launch {m : Type → Type} [Monad m] (h : Host m) (l : Launch) : m (Except HostFault Ended) :=
  if l.words.any (·.contains '\x00') then return .error .nulInCommand else h.launcher l

/-- A change of the files that may be refused. -/
def changeFiles (change : FileTree → Except HostFault FileTree) :
    StateM FileTree (Except HostFault Unit) := do
  match change (← get) with
  | .ok tree =>
    set tree
    return .ok ()
  | .error fault => return .error fault

/-- The host whose files are a tree, which the programs change as `start` says. -/
def ofTree (start : Launch → FileTree → Except HostFault Ended × FileTree) :
    Host (StateM FileTree) where
  launcher := start
  files := get
  create p := changeFiles (·.write p "")
  overwrite p bytes := changeFiles (·.overwrite p bytes)

end Host

end UnitIndex
