/-!
Positions in source files, as they are reported.
-/

namespace UnitIndex

/-- A position in a file; numbers have 32 bits. -/
structure FileLocation where
  /-- The canonical absolute path of the file. -/
  file : String
  /-- Counted from one. -/
  line : UInt32
  /-- Counted from one. -/
  column : UInt32
  /-- Bytes from the start of the file. -/
  offset : UInt32
  deriving DecidableEq, Repr

namespace FileLocation

/-- File, line and column, separated by colons. -/
def text (l : FileLocation) : String := s!"{l.file}:{l.line.toNat}:{l.column.toNat}"

/-- Locations in order of file, line, column and offset. -/
def lt (a b : FileLocation) : Bool :=
  if a.file ≠ b.file then a.file < b.file
  else if a.line ≠ b.line then a.line < b.line
  else if a.column ≠ b.column then a.column < b.column
  else a.offset < b.offset

end FileLocation

/-- Whether `file` names a real file rather than a buffer that the front-end made up, such as
`<built-in>`. -/
def isPhysicalFile (file : String) : Bool :=
  let cs := file.toList
  !cs.isEmpty && !(cs.head? == some '<' && cs.getLast? == some '>')

end UnitIndex
