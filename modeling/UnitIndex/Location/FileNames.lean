import UnitIndex.Dump.Location
import UnitIndex.Location.Basic
import UnitIndex.Path

/-!
File names of a dump and the paths they stand for.

Two names of one file (`../inc/a.h`, `/abs/inc/a.h`, a link) have one canonical path, so that
positions reached through either can be compared. Names of buffers that are no files stand for
themselves, and standard input stands for the main file.
-/

namespace UnitIndex

/-- How the file names of one translation unit are read. -/
structure FileNames where
  /-- The canonical path of the main file. -/
  primary : String
  workingDirectory : Path
  /-- The path of an existing file without links and detours. -/
  realPath? : Path → Option Path

namespace FileNames

/-- The name that the front-end gives to what it reads from standard input. -/
def stdin : String := "<stdin>"

/-- The canonical form of a file name. -/
def canonical (names : FileNames) (file : String) : String :=
  if file = stdin then names.primary
  else if !isPhysicalFile file then file
  else
    let path := names.workingDirectory.join ⟨file⟩
    ((names.realPath? path).getD path).text

/-- The names of the unit whose main file is `primary`. -/
def ofPrimary (primary workingDirectory : Path) (realPath? : Path → Option Path) : FileNames :=
  let names : FileNames := ⟨"", workingDirectory, realPath?⟩
  { names with primary := names.canonical primary.text }

/-- The position that a dumped location stands for. There is none without a line; the file is left
empty when the dump gives none. -/
def resolve? (names : FileNames) (loc : SourceLocation) : Option FileLocation := do
  let bare ← loc.seen?
  if bare.line = 0 then none
  else
    some {
      file := if bare.file = "" then "" else names.canonical bare.file
      line := bare.line.toUInt32
      column := bare.col.toUInt32
      offset := bare.offset.toUInt32 }

/-- A dumped location as people read it; a location without a file is in the main file. -/
def print? (names : FileNames) (loc : SourceLocation) : Option String :=
  (names.resolve? loc).map fun l =>
    (if l.file = "" then { l with file := names.primary } else l).text

end FileNames

end UnitIndex
