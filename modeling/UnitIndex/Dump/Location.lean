/-!
Positions as a syntax-tree dump gives them.

A dumped location has two parts, where the text is spelled and where it stands after macro
expansion; outside macros they are equal, and either may be absent.
-/

namespace UnitIndex

/-- A place in one file. -/
structure BareLocation where
  offset : UInt64
  file : String
  line : UInt64
  col : UInt64
  tokLen : UInt64
  presumedFile : Option String := none
  presumedLine : Option UInt64 := none
  /-- The file whose `#include` brought this one in. -/
  includedFrom : Option String := none
  isMacroArg : Bool := false
  deriving DecidableEq, Repr

/-- A dumped location. -/
structure SourceLocation where
  spelling : Option BareLocation := none
  expansion : Option BareLocation := none
  deriving DecidableEq, Repr

/-- The place that the user sees: where a macro is used rather than where its text is spelled. -/
def SourceLocation.seen? (l : SourceLocation) : Option BareLocation := l.expansion.or l.spelling

/-- A stretch of source text. -/
structure SourceRange where
  start : SourceLocation
  stop : SourceLocation
  deriving DecidableEq, Repr

end UnitIndex
