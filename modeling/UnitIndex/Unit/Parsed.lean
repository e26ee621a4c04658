import UnitIndex.Decl.Table
import UnitIndex.Dump.Reader

/-!
A translation unit as the front-end has parsed it: its tree, the declarations in it, and how its
file names are read.
-/

namespace UnitIndex

/-- A parsed translation unit. -/
structure ParsedUnit where
  root : Node
  decls : DeclTable
  names : FileNames

namespace ParsedUnit

/-- The unit of a tree. -/
def ofRoot (root : Node) (names : FileNames) : ParsedUnit :=
  ⟨root, DeclTable.build names root, names⟩

/-- The unit of a dump. -/
def ofDump (dump : String) (names : FileNames) : Except Fault ParsedUnit :=
  return ofRoot (← Dump.read dump) names

end ParsedUnit

end UnitIndex
