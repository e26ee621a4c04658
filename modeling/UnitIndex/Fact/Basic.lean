import UnitIndex.Location.Basic

/-!
Facts about a translation unit: the symbols that it declares and the references that it makes.

`Fact.text` is the one-line form for people; the form for programs is in `Fact.Json`.
-/

namespace UnitIndex

/-- What a symbol is. -/
inductive SymbolKind where
  | function | var | parameter | field | record | enum | enumConstant | namespaceDecl
  | namespaceAlias | typedef | template
  deriving DecidableEq, Repr

namespace SymbolKind

/-- The word for the kind. -/
def word : SymbolKind → String
  | function => "function"
  | var => "variable"
  | parameter => "parameter"
  | field => "field"
  | record => "record"
  | enum => "enum"
  | enumConstant => "enum_constant"
  | namespaceDecl => "namespace"
  | namespaceAlias => "namespace_alias"
  | typedef => "typedef"
  | template => "template"

/-- The kind that a word names. -/
def ofWord? : String → Option SymbolKind
  | "function" => some function
  | "variable" => some var
  | "parameter" => some parameter
  | "field" => some field
  | "record" => some record
  | "enum" => some enum
  | "enum_constant" => some enumConstant
  | "namespace" => some namespaceDecl
  | "namespace_alias" => some namespaceAlias
  | "typedef" => some typedef
  | "template" => some template
  | _ => none

/-- A kind of symbols is read back from its word. -/
theorem ofWord?_word (k : SymbolKind) : ofWord? k.word = some k := by cases k <;> rfl

end SymbolKind

/-- A declaration in the unit. -/
structure Symbol where
  qualifiedName : String
  kind : SymbolKind
  /-- Where this declaration names the symbol. -/
  location : FileLocation
  /-- Whether this declaration defines the symbol. -/
  isDefinition : Bool
  /-- The defining declaration, when it is another one. -/
  definition : Option FileLocation := none
  /-- Where the type of the symbol is declared. -/
  typeLocation : Option FileLocation := none
  deriving DecidableEq, Repr

/-- How a symbol is used. -/
inductive ReferenceKind where
  | call
  | memberAccess
  | variableRead
  | typeUse
  deriving DecidableEq, Repr

namespace ReferenceKind

/-- The word for the kind. -/
def word : ReferenceKind → String
  | call => "call"
  | memberAccess => "member_access"
  | variableRead => "variable_read"
  | typeUse => "type_use"

/-- The kind that a word names. -/
def ofWord? : String → Option ReferenceKind
  | "call" => some call
  | "member_access" => some memberAccess
  | "variable_read" => some variableRead
  | "type_use" => some typeUse
  | _ => none

/-- So is a kind of references. -/
theorem ofWord?_word (k : ReferenceKind) : ofWord? k.word = some k := by cases k <;> rfl

end ReferenceKind

/-- The declaration that a reference leads to. -/
structure Target where
  qualifiedName : String
  /-- The front-end's name for the kind of declaration. -/
  kind : String
  location : FileLocation
  deriving DecidableEq, Repr

/-- A use of a symbol. -/
structure Reference where
  kind : ReferenceKind
  site : FileLocation
  /-- None when the front-end could not tell. -/
  target : Option Target
  deriving DecidableEq, Repr

/-- A symbol or a reference. -/
inductive Fact where
  | symbol (s : Symbol)
  | reference (r : Reference)
  deriving DecidableEq, Repr

namespace Fact

/-- Where the fact stands. -/
def site : Fact → FileLocation
  | symbol s => s.location
  | reference r => r.site

/-- Whether the fact is about a symbol. -/
def isSymbol : Fact → Bool
  | symbol _ => true
  | reference _ => false

/-- The form for people. -/
def text : Fact → String
  | symbol s =>
    s!"symbol {s.kind.word} {s.qualifiedName} @ {s.location.text}" ++
      (if s.isDefinition then " [def]" else "") ++
      (match s.definition with
        | some d => " def=" ++ d.text
        | none => "") ++
      (match s.typeLocation with
        | some l => " type=" ++ l.text
        | none => "")
  | reference r =>
    s!"ref {r.kind.word} @ {r.site.text} -> " ++
      match r.target with
      | some t => s!"{t.qualifiedName} ({t.kind}) @ {t.location.text}"
      | none => "<unresolved>"

end Fact

end UnitIndex
