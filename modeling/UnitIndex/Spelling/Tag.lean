/-!
The tag keywords of records and enumerations, as they stand in a type spelling and in the `tagUsed`
field of a dumped declaration.
-/

namespace UnitIndex

/-- The keyword that introduces a record or an enumeration. -/
inductive Tag where
  | struct
  | cxxClass
  | union
  | enum
  deriving DecidableEq, Repr, Hashable

namespace Tag

/-- The tag that `word` spells; an `__interface` counts as a struct. -/
def ofKeyword? (word : String) : Option Tag :=
  match word with
  | "struct" | "__interface" => some .struct
  | "class" => some .cxxClass
  | "union" => some .union
  | "enum" => some .enum
  | _ => none

/-- The keyword itself. -/
def keyword : Tag → String
  | .struct => "struct"
  | .cxxClass => "class"
  | .union => "union"
  | .enum => "enum"

end Tag

end UnitIndex
