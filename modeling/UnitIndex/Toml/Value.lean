/-!
TOML values and the rules by which statements build a document.

A table comes into being in one of several ways (`TableForm`), and that decides what may be added to
it later: a header may name a table that so far was only implied by longer headers, a dotted key may
extend only tables that dotted keys have made, and inline values are closed. `Toml.Table.assign`,
`openTable` and `openElement` apply one statement each, and refuse it where a rule is broken.
-/

namespace UnitIndex

/-- How a table came into being. -/
inductive TableForm where
  /-- By its own header, or as the document. -/
  | defined
  /-- By a header of a table inside of it. -/
  | implied
  /-- By a dotted key. -/
  | dotted
  deriving DecidableEq, Repr

/-- A TOML value. -/
inductive Toml where
  | string (s : String)
  | integer (n : Int)
  | float
  | bool (b : Bool)
  | dateTime
  | array (items : List Toml)
  /-- A table in braces. -/
  | inlineTable (fields : List (String × Toml))
  | table (form : TableForm) (fields : List (String × Toml))
  /-- Tables under headers in double brackets. -/
  | tables (elements : List (List (String × Toml)))
  deriving Repr, Inhabited

namespace Toml

/-- The fields of a table. -/
abbrev Fields := List (String × Toml)

/-- The value of the field with that name replaced, or a field added. -/
def setField (fields : Fields) (name : String) (v : Toml) : Fields :=
  if fields.any (·.1 == name) then fields.map fun (n, old) => if n = name then (n, v) else (n, old)
  else fields ++ [(name, v)]

/-- Change the table at the end of a path, making the tables on the way that are not there yet; an
array of tables leads on to its last one. `dotted` when the path is one of a dotted key. -/
def alter (dotted : Bool) (change : TableForm → Fields → Option Fields) :
    List String → TableForm → Fields → Option Fields
  | [], form, fields => change form fields
  | name :: path, _, fields =>
    match fields.lookup name with
    | none => do
      let form := if dotted then TableForm.dotted else .implied
      return setField fields name (.table form (← alter dotted change path form []))
    | some (.table form inner) =>
      if dotted ∧ form = .defined then none
      else do return setField fields name (.table form (← alter dotted change path form inner))
    | some (.tables elements) => do
      let last ← elements.getLast?
      let last ← alter dotted change path .defined last
      return setField fields name (.tables (elements.dropLast ++ [last]))
    | some _ => none

/-- Give the last name of a dotted key a value, in the table where the key starts. -/
def assign (key : List String) (v : Toml) (form : TableForm) (fields : Fields) : Option Fields := do
  let name ← key.getLast?
  let path := key.dropLast
  alter true
    (fun form fields =>
      if (form == .dotted) == path.isEmpty then none
      else if fields.any (·.1 == name) then none
      else some (fields ++ [(name, v)]))
    path form fields

/-- Open the table of a header. A table that was only implied until now moves behind the others. -/
def openTable (path : List String) (root : Fields) : Option Fields := do
  let name ← path.getLast?
  alter false
    (fun _ fields =>
      match fields.lookup name with
      | none => some (fields ++ [(name, .table .defined [])])
      | some (.table .implied inner) =>
        some (fields.filter (·.1 != name) ++ [(name, .table .defined inner)])
      | some _ => none)
    path.dropLast .defined root

/-- Open a new table of an array of tables. -/
def openElement (path : List String) (root : Fields) : Option Fields := do
  let name ← path.getLast?
  alter false
    (fun _ fields =>
      match fields.lookup name with
      | none => some (fields ++ [(name, .tables [[]])])
      | some (.tables elements) => some (setField fields name (.tables (elements ++ [[]])))
      | some _ => none)
    path.dropLast .defined root

/-! ### Inline tables -/

/-- A table in braces while it is read: tables that dotted keys have made are still open. -/
def assignInline (key : List String) (v : Toml) (fields : Fields) : Option Fields :=
  assign key v .defined fields

mutual

/-- The value with the tables of dotted keys closed. -/
def closed : Toml → Toml
  | .table _ fields => .inlineTable (closedFields fields)
  | v => v

/-- The fields with the tables of dotted keys closed. -/
def closedFields : Fields → Fields
  | [] => []
  | (name, v) :: rest => (name, closed v) :: closedFields rest

end

/-! ### Access -/

/-- The fields, if the value is one table. -/
def fields? : Toml → Option Fields
  | .table _ fields | .inlineTable fields => some fields
  | _ => none

end Toml

end UnitIndex
