import UnitIndex.Toml.Parser

/-!
Tables that stand for dates and times.

A table whose first field has the name `dateMark` is another way to write a date or time. Such a
table is sound only if it has no other field and this one spells a date or time; `Toml.isSound` asks
for that throughout a value. The spelling is read a little less strictly than a date in a document.
-/

namespace UnitIndex.Toml

/-- The name that marks a table as a date or time. -/
def dateMark : String := "$__toml_private_datetime"

/-! ### Spelled dates and times -/

/-- The text behind a time of day, which may be of the hour that ends a day. -/
def looseTime? (cs : List Char) : Option (List Char) := do
  let (_, cs) ← fixedNumber 2 0 24 cs
  let (_, cs) ← fixedNumber 2 0 59 (← after? ':' cs)
  let (_, cs) ← fixedNumber 2 0 60 (← after? ':' cs)
  match cs with
  | '.' :: rest =>
    let ds := rest.takeWhile Char.isDigit
    if ds.isEmpty then none else some (rest.drop ds.length)
  | _ => some cs

/-- The text behind a distance from universal time of at most a day, if one stands here. -/
def looseOffset? (cs : List Char) : Option (List Char) :=
  let distance (rest : List Char) : Option (List Char) := do
    let (hours, cs) ← fixedNumber 2 0 99 rest
    let (minutes, cs) ← fixedNumber 2 0 99 (← after? ':' cs)
    guard (hours * 60 + minutes ≤ 24 * 60)
    some cs
  match cs with
  | 'Z' :: rest | 'z' :: rest => some rest
  | '+' :: rest | '-' :: rest => distance rest
  | _ => some cs

/-- Whether a text spells a date, a time, or both. -/
def spellsDate (text : String) : Bool :=
  let cs := text.toList
  let behind : Option (List Char) :=
    if cs[2]? == some ':' then looseTime? cs
    else do
      match ← date? cs with
      | c :: rest =>
        if c = 'T' ∨ c = 't' ∨ c = ' ' then looseOffset? (← looseTime? rest) else some (c :: rest)
      | [] => some []
  behind == some []

/-! ### Soundness -/

mutual

/-- Whether every table in the value that is marked as a date or time is one. -/
def isSound : Toml → Bool
  | .array items => areSound items
  | .inlineTable fields | .table _ fields => isSoundTable fields
  | .tables elements => areSoundTables elements
  | _ => true

/-- The same of some values. -/
def areSound : List Toml → Bool
  | [] => true
  | v :: vs => isSound v && areSound vs

/-- The same of a table with these fields. -/
def isSoundTable : List (String × Toml) → Bool
  | [] => true
  | (name, v) :: rest =>
    if name = dateMark then
      match v, rest with
      | .string s, [] => spellsDate s
      | _, _ => false
    else isSound v && areSoundFields rest

/-- The same of the values of some fields. -/
def areSoundFields : List (String × Toml) → Bool
  | [] => true
  | (_, v) :: rest => isSound v && areSoundFields rest

/-- The same of some tables. -/
def areSoundTables : List (List (String × Toml)) → Bool
  | [] => true
  | fields :: more => isSoundTable fields && areSoundTables more

end

end UnitIndex.Toml
