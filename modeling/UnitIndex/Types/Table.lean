import Std.Data.HashMap
import UnitIndex.Dump.Node
import UnitIndex.Spelling.Qualifiers
import UnitIndex.Spelling.Tag

/-!
The types of a translation unit, each stored once.

A type is one form over the ids of the types inside it, and `TypeTable.intern` gives equal forms one
id, so that two types are equal when their ids are. The table also keeps what was built for a
written type and for a canonical one, and which typedefs are being built at the moment.
-/

namespace UnitIndex

/-- The place of a type in its table. Cut to 32 bits, ids tell types apart as well, as long as there
are no more than 2^32 of them. -/
abbrev TypeId := Nat

/-- A type with its top-level qualifiers. -/
structure QualType where
  type : TypeId
  quals : Qualifiers := {}
  deriving DecidableEq, Repr, Hashable, Inhabited

/-- One form of a type. -/
inductive TypeForm where
  | builtin (name : String)
  | record (decl : NodeId) (tag : Option Tag) (isCxx : Bool)
  | enum (decl : NodeId)
  | typedef (decl : NodeId) (underlying : QualType)
  /-- A type written with its tag, `struct S`. -/
  | elaborated (tag : Tag) (named : QualType)
  | pointer (pointee : QualType)
  | lvalueRef (referenced : QualType)
  | rvalueRef (referenced : QualType)
  | array (element : QualType) (size : Option Nat)
  /-- A template-id, with the type that it is an alias of when that is known. -/
  | specialization (template : Option NodeId) (spelling : String) (aliased : Option QualType)
  | templateParm (name : String)
  | function (result : QualType) (params : List QualType) (variadic : Bool)
  /-- A spelling that names no known type. -/
  | unresolved (spelling : String)
  deriving DecidableEq, Repr, Hashable, Inhabited

namespace TypeForm

/-- What the form is another name of. -/
def sugar? : TypeForm → Option QualType
  | typedef _ underlying => some underlying
  | elaborated _ named => some named
  | specialization _ _ aliased => aliased
  | _ => none

/-- The types inside the form. -/
def parts : TypeForm → List QualType
  | typedef _ t | elaborated _ t | pointer t | lvalueRef t | rvalueRef t | array t _ => [t]
  | specialization _ _ aliased => aliased.toList
  | function result params _ => result :: params
  | _ => []

/-- Whether the form is a pointer. -/
def isPointer : TypeForm → Bool
  | pointer _ => true
  | _ => false

/-- Whether the form is a reference. -/
def isReference : TypeForm → Bool
  | lvalueRef _ | rvalueRef _ => true
  | _ => false

/-- What a reference refers to. -/
def referenced? : TypeForm → Option QualType
  | lvalueRef inner | rvalueRef inner => some inner
  | _ => none

/-- What a pointer or reference leads to. -/
def pointee? : TypeForm → Option QualType
  | pointer inner | lvalueRef inner | rvalueRef inner => some inner
  | _ => none

/-- The declaration of a structure. -/
def structure? : TypeForm → Option NodeId
  | record decl (some .struct) _ | record decl none _ => some decl
  | _ => none

/-- The declaration of a union. -/
def union? : TypeForm → Option NodeId
  | record decl (some .union) _ => some decl
  | _ => none

/-- The declaration of a record of the language with classes. -/
def cxxRecord? : TypeForm → Option NodeId
  | record decl _ true => some decl
  | _ => none

/-- The template that a template-id names, if it is known. -/
def template? : TypeForm → Option (Option NodeId)
  | specialization template _ _ => some template
  | _ => none

end TypeForm

/-- The types of a unit. -/
structure TypeTable where
  /-- The forms, each at the place of its id. -/
  forms : Array TypeForm := #[]
  /-- The id of each form. -/
  ids : Std.HashMap TypeForm TypeId := {}
  /-- The types built for written types. -/
  written : Std.HashMap WrittenType QualType := {}
  /-- The canonical types found so far. -/
  canonicals : Std.HashMap QualType QualType := {}
  /-- The typedefs whose types are being built. -/
  expanding : List NodeId := []
  deriving Inhabited

/-- A step that may add types. -/
abbrev TypeM := StateM TypeTable

namespace TypeTable

/-- The number of types. -/
def size (t : TypeTable) : Nat := t.forms.size

/-- The form of a type. -/
def form (t : TypeTable) (id : TypeId) : TypeForm := t.forms.getD id (.unresolved "")

/-- The form and the table that holds it. -/
def intern (form : TypeForm) : TypeM TypeId := fun t =>
  match t.ids[form]? with
  | some id => (id, t)
  | none =>
    let id := t.forms.size
    (id, { t with forms := t.forms.push form, ids := t.ids.insert form id })

/-- The type of a form, with qualifiers. -/
def qualified (form : TypeForm) (quals : Qualifiers) : TypeM QualType :=
  return ⟨← intern form, quals⟩

/-- The type of a form, without qualifiers. -/
def plain (form : TypeForm) : TypeM QualType := qualified form {}

/-! ### Sugar -/

/-- Sugar is followed through no more layers than this, and canonical types are built no deeper. -/
def maxSugar : Nat := 64

/-- The type with one layer of sugar removed; qualifiers of the layer stay. -/
def desugar (t : TypeTable) (q : QualType) : QualType :=
  match (t.form q.type).sugar? with
  | some inner => ⟨inner.type, inner.quals.union q.quals⟩
  | none => q

/-- The type with at most so many layers of sugar removed. -/
def stripWithin (t : TypeTable) : Nat → QualType → QualType
  | 0, q => q
  | layers + 1, q =>
    if (t.form q.type).sugar?.isSome then stripWithin t layers (t.desugar q) else q

/-- The type with all its outer sugar removed. -/
def strip (t : TypeTable) (q : QualType) : QualType := t.stripWithin maxSugar q

/-! ### Canonical types -/

/-- The canonical type, when it has been found before. -/
def knownCanonical? (q : QualType) : TypeM (Option QualType) := fun t => (t.canonicals[q]?, t)

/-- Keep a canonical type. -/
def keepCanonical (q canonical : QualType) : TypeM Unit := fun t =>
  ((), { t with canonicals := t.canonicals.insert q canonical })

/-- The form with its parts made canonical, if it is one that nests types. -/
def rebuilt? (canonical : QualType → TypeM QualType) : TypeForm → TypeM (Option TypeForm)
  | .pointer p => return some (.pointer (← canonical p))
  | .lvalueRef p => return some (.lvalueRef (← canonical p))
  | .rvalueRef p => return some (.rvalueRef (← canonical p))
  | .array element size => return some (.array (← canonical element) size)
  | .function result params variadic => do
    let result ← canonical result
    let params ← params.mapM canonical
    return some (.function result params variadic)
  | _ => return none

/-- The type with its parts made canonical; it has no sugar of its own any more. -/
def rebuild (canonical : QualType → TypeM QualType) (stripped : QualType) : TypeM QualType := do
  match ← rebuilt? canonical ((← get).form stripped.type) with
  | some form => qualified form stripped.quals
  | none => return stripped

/-- The canonical type, with so many levels of nesting still followed. -/
def canonicalWithin : Nat → QualType → TypeM QualType
  | 0, q => do
    match ← knownCanonical? q with
    | some c => return c
    | none => plain (.unresolved "")
  | levels + 1, q => do
    match ← knownCanonical? q with
    | some c => return c
    | none =>
      let canonical ← rebuild (canonicalWithin levels) ((← get).strip q)
      keepCanonical q canonical
      return canonical

/-- The type with the sugar at every level removed. -/
def canonical (q : QualType) : TypeM QualType := canonicalWithin (maxSugar + 1) q

/-- The canonical type without its own qualifiers. -/
def canonicalUnqualified (q : QualType) : TypeM QualType := return ⟨(← canonical q).type, {}⟩

/-! ### Questions about a type, seen through its sugar -/

/-- The form below the sugar. -/
def core (t : TypeTable) (q : QualType) : TypeForm := t.form (t.strip q).type

/-- What a reference refers to; any other type stands for itself. -/
def nonReference (t : TypeTable) (q : QualType) : QualType := (t.core q).referenced?.getD q

/-- Whether the type is a pointer under its sugar. -/
def isPointer (t : TypeTable) (q : QualType) : Bool := (t.core q).isPointer

/-- Whether the type is a reference under its sugar. -/
def isReference (t : TypeTable) (q : QualType) : Bool := (t.core q).isReference

/-- What a pointer or reference leads to. -/
def pointee? (t : TypeTable) (q : QualType) : Option QualType := (t.core q).pointee?

/-- The declaration of a structure type. -/
def structure? (t : TypeTable) (q : QualType) : Option NodeId := (t.core q).structure?

/-- The declaration of a union type. -/
def union? (t : TypeTable) (q : QualType) : Option NodeId := (t.core q).union?

/-- The declaration of a record type of the language with classes, whatever its tag. -/
def cxxRecord? (t : TypeTable) (q : QualType) : Option NodeId := (t.core q).cxxRecord?

/-- The declaration of such a record that a pointer or reference leads to. -/
def pointeeCxxRecord? (t : TypeTable) (q : QualType) : Option NodeId :=
  (t.pointee? q).bind t.cxxRecord?

/-- The template that a template-id names, seen through at most so many layers of other sugar. -/
def specializationWithin (t : TypeTable) : Nat → QualType → Option (Option NodeId)
  | 0, _ => none
  | layers + 1, q =>
    match (t.form q.type).template? with
    | some template => some template
    | none =>
      if (t.form q.type).sugar?.isSome then specializationWithin t layers (t.desugar q) else none

/-- The template that a template-id names, if it is known; none at all for other types. -/
def specialization? (t : TypeTable) (q : QualType) : Option (Option NodeId) :=
  t.specializationWithin maxSugar q

end TypeTable

end UnitIndex
