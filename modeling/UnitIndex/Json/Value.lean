/-!
JSON values and their two written forms.

`compact` writes a value with no blank at all; `pretty` writes every item and field on a line of its
own, two spaces deeper than the bracket that holds it. Strings are written with the escapes that the
format demands (`escape`) and with no other.
-/

namespace UnitIndex

/-- A JSON value. Fields keep their order. -/
inductive Json where
  | null
  | bool (b : Bool)
  | integer (n : Int)
  /-- A number that is not written as an integer. -/
  | real (text : String)
  | string (s : String)
  | array (items : List Json)
  | object (fields : List (String × Json))
  deriving Repr, Inhabited

namespace Json

/-! ### Strings -/

/-- The lower-case hexadecimal digit of a number below sixteen. -/
def hexDigit (n : Nat) : Char := if n < 10 then Char.ofNat (48 + n) else Char.ofNat (87 + n)

/-- A character as it stands between quotes. -/
def escape (c : Char) : List Char :=
  match c with
  | '"' => ['\\', '"']
  | '\\' => ['\\', '\\']
  | '\x08' => ['\\', 'b']
  | '\x0c' => ['\\', 'f']
  | '\n' => ['\\', 'n']
  | '\r' => ['\\', 'r']
  | '\t' => ['\\', 't']
  | c =>
    if c.toNat < 32 then ['\\', 'u', '0', '0', hexDigit (c.toNat / 16), hexDigit (c.toNat % 16)]
    else [c]

/-- A string between its quotes. -/
def quoted (s : String) : List Char := '"' :: s.toList.flatMap escape ++ ['"']

/-! ### Values -/

/-- A value that holds no other value. -/
def scalar : Json → List Char
  | .null => "null".toList
  | .bool b => (if b then "true" else "false").toList
  | .integer n => (toString n).toList
  | .real text => text.toList
  | .string s => quoted s
  | .array _ => ['[', ']']
  | .object _ => ['\x7b', '\x7d']

mutual

/-- The written form without blanks. -/
def compact : Json → List Char
  | .array items => '[' :: compactItems items ++ [']']
  | .object fields => '\x7b' :: compactFields fields ++ ['\x7d']
  | j => scalar j

/-- Items separated by commas. -/
def compactItems : List Json → List Char
  | [] => []
  | [j] => compact j
  | j :: rest => compact j ++ ',' :: compactItems rest

/-- Fields separated by commas. -/
def compactFields : List (String × Json) → List Char
  | [] => []
  | [(k, j)] => quoted k ++ ':' :: compact j
  | (k, j) :: rest => quoted k ++ ':' :: compact j ++ ',' :: compactFields rest

end

/-- A line break and the blanks that begin a line at the given depth. -/
def newline (depth : Nat) : List Char := '\n' :: List.replicate (2 * depth) ' '

mutual

/-- The written form with a line for each item and field, inside `depth` brackets. -/
def prettyAt (depth : Nat) : Json → List Char
  | .array (j :: rest) =>
    '[' :: prettyItems (depth + 1) (j :: rest) ++ newline depth ++ [']']
  | .object (f :: rest) =>
    '\x7b' :: prettyFields (depth + 1) (f :: rest) ++ newline depth ++ ['\x7d']
  | j => scalar j

/-- Items, each on its line. -/
def prettyItems (depth : Nat) : List Json → List Char
  | [] => []
  | [j] => newline depth ++ prettyAt depth j
  | j :: rest => newline depth ++ prettyAt depth j ++ ',' :: prettyItems depth rest

/-- Fields, each on its line. -/
def prettyFields (depth : Nat) : List (String × Json) → List Char
  | [] => []
  | [(k, j)] => newline depth ++ quoted k ++ ':' :: ' ' :: prettyAt depth j
  | (k, j) :: rest =>
    newline depth ++ quoted k ++ ':' :: ' ' :: prettyAt depth j ++ ',' :: prettyFields depth rest

end

/-- The written form that people read. -/
def pretty (j : Json) : String := String.ofList (prettyAt 0 j)

/-- The written form without blanks, as a string. -/
def text (j : Json) : String := String.ofList j.compact

/-! ### Access -/

/-- The value of the first field of that name. -/
def field? (name : String) : Json → Option Json
  | .object fields => fields.lookup name
  | _ => none

/-- The value as a string. -/
def string? : Json → Option String
  | .string s => some s
  | _ => none

/-- The value as a list of items. -/
def items? : Json → Option (List Json)
  | .array items => some items
  | _ => none

/-- The value as a truth value. -/
def bool? : Json → Option Bool
  | .bool b => some b
  | _ => none

/-- The value as a natural number. -/
def nat? : Json → Option Nat
  | .integer (.ofNat n) => some n
  | _ => none

end Json

end UnitIndex
