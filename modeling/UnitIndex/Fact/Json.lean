import UnitIndex.Fact.Basic
import UnitIndex.Json.Scanned

/-!
Facts as JSON values.

`Fact.toJson` writes a fact with its fields in a fixed order; a definition and a type location are
left out when there is none, and a reference without target has a null one. `Fact.ofJson?` reads it
back and takes a little more: fields in any order, each of them once, and unknown ones among them,
absent or null for what may be missing, and any of the records as the list of its fields.
-/

namespace UnitIndex

/-! ### Writing -/

/-- A position as an object. -/
def FileLocation.toJson (l : FileLocation) : Json :=
  .object [("file", .string l.file), ("line", .integer l.line.toNat),
    ("column", .integer l.column.toNat), ("offset", .integer l.offset.toNat)]

/-- The target of a reference as an object. -/
def Target.toJson (t : Target) : Json :=
  .object [("qualified_name", .string t.qualifiedName), ("kind", .string t.kind),
    ("location", t.location.toJson)]

/-- A field that is left out when there is no location. -/
def locationField (name : String) (l : Option FileLocation) : List (String × Json) :=
  (l.map fun l => (name, l.toJson)).toList

/-- The fields of a symbol. -/
def Symbol.fields (s : Symbol) : List (String × Json) :=
  [("qualified_name", .string s.qualifiedName), ("kind", .string s.kind.word),
    ("location", s.location.toJson), ("is_definition", .bool s.isDefinition)] ++
  locationField "definition" s.definition ++ locationField "type_location" s.typeLocation

/-- The fields of a reference. -/
def Reference.fields (r : Reference) : List (String × Json) :=
  [("kind", .string r.kind.word), ("site", r.site.toJson),
    ("target", (r.target.map Target.toJson).getD .null)]

/-- The form for programs. -/
def Fact.toJson : Fact → Json
  | .symbol s => .object (("fact", .string "symbol") :: s.fields)
  | .reference r => .object (("fact", .string "reference") :: r.fields)

/-! ### Reading -/

/-- The fields of a record, by name or by place. -/
inductive FieldSource where
  | named (fields : List (String × Json))
  | placed (items : List Json)

namespace FieldSource

/-- The fields that a value holds. -/
def ofJson? : Json → Option FieldSource
  | .object fields => some (named fields)
  | j => j.items?.map placed

/-- A field with its name and its place. -/
def field? (r : FieldSource) (name : String) (place : Nat) : Option Json :=
  match r with
  | named fields => fields.lookup name
  | placed items => items[place]?

/-- A field that may be absent or null. -/
def optional? {α : Type} (r : FieldSource) (read : Json → Option α) (name : String)
    (place : Nat) : Option (Option α) :=
  match r.field? name place with
  | none | some .null => some none
  | some j => (read j).map some

/-- Whether no name occurs twice among some fields. -/
def namesOnce (fields : List (String × Json)) (names : List String) : Bool :=
  names.all fun name => fields.countP (·.1 == name) ≤ 1

/-- Whether these can be the fields of a record with those names: no name occurs twice, and a list
has at least `least` of the fields and none beyond them. -/
def fits (r : FieldSource) (names : List String) (least : Nat) : Bool :=
  match r with
  | named fields => namesOnce fields names
  | placed items => least ≤ items.length && items.length ≤ names.length

end FieldSource

/-- A number of 32 bits. -/
def Json.word32? (j : Json) : Option UInt32 :=
  j.nat?.bind fun n => if n < UInt32.size then some (UInt32.ofNat n) else none

/-- A word out of a fixed stock, alone or as the name of the only field of an object that holds
nothing. -/
def Json.word? {α : Type} (ofWord? : String → Option α) : Json → Option α
  | .string s => ofWord? s
  | .object [(s, .null)] | .object [(s, .object [])] => ofWord? s
  | _ => none

/-- The position that a value describes. -/
def FileLocation.ofJson? (j : Json) : Option FileLocation := do
  let r ← FieldSource.ofJson? j
  guard (r.fits ["file", "line", "column", "offset"] 4)
  return {
    file := ← (← r.field? "file" 0).string?
    line := ← (← r.field? "line" 1).word32?
    column := ← (← r.field? "column" 2).word32?
    offset := ← (← r.field? "offset" 3).word32? }

/-- The target that a value describes. -/
def Target.ofJson? (j : Json) : Option Target := do
  let r ← FieldSource.ofJson? j
  guard (r.fits ["qualified_name", "kind", "location"] 3)
  return {
    qualifiedName := ← (← r.field? "qualified_name" 0).string?
    kind := ← (← r.field? "kind" 1).string?
    location := ← FileLocation.ofJson? (← r.field? "location" 2) }

/-- The symbol that the fields describe. -/
def Symbol.ofFields? (r : FieldSource) : Option Symbol := do
  guard (r.fits
    ["qualified_name", "kind", "location", "is_definition", "definition", "type_location"] 4)
  return {
    qualifiedName := ← (← r.field? "qualified_name" 0).string?
    kind := ← (← r.field? "kind" 1).word? SymbolKind.ofWord?
    location := ← FileLocation.ofJson? (← r.field? "location" 2)
    isDefinition := ← (← r.field? "is_definition" 3).bool?
    definition := ← r.optional? FileLocation.ofJson? "definition" 4
    typeLocation := ← r.optional? FileLocation.ofJson? "type_location" 5 }

/-- The reference that the fields describe. -/
def Reference.ofFields? (r : FieldSource) : Option Reference := do
  guard (r.fits ["kind", "site", "target"] 3)
  return {
    kind := ← (← r.field? "kind" 0).word? ReferenceKind.ofWord?
    site := ← FileLocation.ofJson? (← r.field? "site" 1)
    target := ← r.optional? Target.ofJson? "target" 2 }

/-- The fact of that sort that the fields describe. -/
def Fact.ofFields? (sort : Json) (r : FieldSource) : Option Fact :=
  match sort with
  | .string "symbol" => (Symbol.ofFields? r).map .symbol
  | .string "reference" => (Reference.ofFields? r).map .reference
  | _ => none

/-- The fact that a value describes. -/
def Fact.ofJson? : Json → Option Fact
  | .object fields => do
    guard (FieldSource.namesOnce fields ["fact"])
    Fact.ofFields? (← (Json.object fields).field? "fact") (.named fields)
  | .array (sort :: items) => Fact.ofFields? sort (.placed items)
  | _ => none

/-- The fact that a line of text describes, or what sort of fault the line has. -/
def Fact.read (line : String) : Except FaultKind Fact := do
  match Fact.ofJson? (← (Json.parse line).mapError Fault.kind) with
  | some fact => return fact
  | none => throw .unexpected

end UnitIndex
