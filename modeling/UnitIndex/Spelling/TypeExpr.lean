import UnitIndex.Spelling.Qualifiers
import UnitIndex.Spelling.Tag

/-!
Type expressions: what a type spelling says once it is read.

A type expression is a base with qualifiers and the operations of its abstract declarator, in the
order in which they apply to the base: `int *(*)[3]` is a pointer to an array of pointers to `int`,
so its operations are pointer, array, pointer.
-/

namespace UnitIndex

/-- One component of a qualified name, with the spellings of its template arguments when it is a
template-id. -/
structure PathSegment where
  name : String
  args : Option (List String) := none
  deriving DecidableEq, Repr

/-- What the declaration specifiers of a type name. -/
inductive TypeBase where
  /-- Words of the language in source order, `unsigned long`. -/
  | builtin (words : String)
  | named (tag : Option Tag) (path : List PathSegment)
  /-- A canonical template parameter, `type-parameter-0-1`. -/
  | templateParm (text : String)
  /-- An unnamed record or a lambda, `(unnamed struct at f.c:3:1)`. -/
  | anonymous (tag : Option Tag) (text : String)
  /-- Text that names no declaration, `decltype(x)` or `<dependent type>`. -/
  | verbatim (text : String)
  deriving DecidableEq, Repr

/-- The components of the name joined by `::`, without template arguments. -/
def TypeBase.qualifiedName? : TypeBase → Option String
  | .named _ path => some ("::".intercalate (path.map (·.name)))
  | _ => none

mutual

/-- A base, its qualifiers, and the operations that apply to it, innermost first. -/
structure TypeExpr where
  base : TypeBase
  quals : Qualifiers
  ops : List TypeOp

/-- One step of an abstract declarator. -/
inductive TypeOp where
  | pointer (quals : Qualifiers)
  | lvalueRef
  | rvalueRef
  | array (size : Option Nat)
  | function (params : List TypeExpr) (variadic : Bool)

end

deriving instance Repr for TypeExpr

end UnitIndex
