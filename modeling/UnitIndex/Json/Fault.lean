import UnitIndex.Number.Shortest
import UnitIndex.Text.Escaped

/-!
What can be wrong with a JSON text for the one who reads it.

A `Fault` is a cause and the line and column where it was noticed. While a text is read, places in
it are kept as what is left of the text there (`Place`), which costs nothing; a `Snag` is a cause at
such a place, and `Snag.fault` counts its line and column in the end.
-/

namespace UnitIndex

/-! ### Causes -/

/-- What stood where something else was wanted. -/
inductive FoundValue where
  | null
  | bool (b : Bool)
  | integer (n : Int)
  | real (negative : Bool) (d : Double)
  | string (s : String)
  | array
  | object
  deriving DecidableEq, Repr

/-- Why a text could not be read. -/
inductive FaultCause where
  /-- The text ends where a value should be. -/
  | valueEnds
  | stringEnds
  | arrayEnds
  | objectEnds
  | noColon
  | noArrayComma
  | noObjectComma
  /-- A word begins that is none of the format's. -/
  | noWord
  | noValue
  | badEscape
  | badNumber
  /-- The number is beyond all doubles. -/
  | hugeNumber
  | controlCharacter
  | unquotedName
  /-- An escape stands for a half of a surrogate pair that does not fit its neighbour. -/
  | loneSurrogate
  /-- The first half of a surrogate pair has no escape behind it. -/
  | brokenPair
  | trailingComma
  | trailingText
  | wrongType (found : FoundValue) (wanted : String)
  | wrongValue (found : FoundValue) (wanted : String)
  /-- A list of fields is too short. -/
  | wrongLength (length : Nat) (wanted : String)
  | unknownField (name : String) (known : List String)
  | repeatedField (name : String)
  | missingField (name : String)
  deriving DecidableEq, Repr

/-- The sorts of causes. -/
inductive FaultKind where
  /-- The text is no JSON, or something follows the value. -/
  | malformed
  /-- It ends too early. -/
  | truncated
  /-- It is JSON, but not what is wanted at this place. -/
  | unexpected
  deriving DecidableEq, Repr

/-- The value in words. -/
def FoundValue.text : FoundValue → String
  | null => "null"
  | bool b => s!"boolean `{b}`"
  | integer n => s!"integer `{n}`"
  | real negative d =>
    let sign := if negative then "-" else ""
    s!"floating point `{sign}{d.text}`"
  | string s => "string " ++ Text.quoted s
  | array => "sequence"
  | object => "map"

namespace FaultCause

/-- The sort of the cause. -/
def kind : FaultCause → FaultKind
  | valueEnds | stringEnds | arrayEnds | objectEnds => .truncated
  | wrongType _ _ | wrongValue _ _ | wrongLength _ _ | unknownField _ _ | repeatedField _
  | missingField _ => .unexpected
  | _ => .malformed

/-- The names that would do, in words. -/
def choice (names : List String) : String :=
  match names.map fun name => s!"`{name}`" with
  | [] => "there are no fields"
  | [a] => "expected " ++ a
  | [a, b] => "expected " ++ a ++ " or " ++ b
  | names => "expected one of " ++ ", ".intercalate names

/-- The cause in words. -/
def words : FaultCause → String
  | valueEnds => "EOF while parsing a value"
  | stringEnds => "EOF while parsing a string"
  | arrayEnds => "EOF while parsing a list"
  | objectEnds => "EOF while parsing an object"
  | noColon => "expected `:`"
  | noArrayComma => "expected `,` or `]`"
  | noObjectComma => "expected `,` or `\x7d`"
  | noWord => "expected ident"
  | noValue => "expected value"
  | badEscape => "invalid escape"
  | badNumber => "invalid number"
  | hugeNumber => "number out of range"
  | controlCharacter => "control character (\\u0000-\\u001F) found while parsing a string"
  | unquotedName => "key must be a string"
  | loneSurrogate => "lone leading surrogate in hex escape"
  | brokenPair => "unexpected end of hex escape"
  | trailingComma => "trailing comma"
  | trailingText => "trailing characters"
  | wrongType found wanted => s!"invalid type: {found.text}, expected {wanted}"
  | wrongValue found wanted => s!"invalid value: {found.text}, expected {wanted}"
  | wrongLength n wanted => s!"invalid length {n}, expected {wanted}"
  | unknownField name known => s!"unknown field `{name}`, {choice known}"
  | repeatedField name => s!"duplicate field `{name}`"
  | missingField name => s!"missing field `{name}`"

end FaultCause

/-! ### Faults -/

/-- Why a text could not be read, and where that was noticed. -/
structure Fault where
  cause : FaultCause
  line : Nat
  column : Nat
  deriving DecidableEq, Repr

namespace Fault

/-- The sort of the fault. -/
def kind (f : Fault) : FaultKind := f.cause.kind

/-- The message for people. -/
def message (f : Fault) : String := s!"{f.cause.words} at line {f.line} column {f.column}"

end Fault

/-! ### Places -/

/-- A place in a text: so many bytes behind the point from which `left` is left of the text, but not
behind its end. -/
structure Place where
  left : List Char
  ahead : Nat
  deriving DecidableEq, Repr

/-- A cause at a place. -/
structure Snag where
  cause : FaultCause
  place : Place
  deriving DecidableEq, Repr

namespace Snag

/-- A cause where so much of the text is left. -/
def here (cause : FaultCause) (left : List Char) : Snag := ⟨cause, ⟨left, 0⟩⟩

/-- A cause at the next byte. -/
def next (cause : FaultCause) (left : List Char) : Snag := ⟨cause, ⟨left, 1⟩⟩

/-- The sort of the cause. -/
def kind (s : Snag) : FaultKind := s.cause.kind

/-- The bytes of a text. -/
def bytesOf (cs : List Char) : List UInt8 := (String.ofList cs).toUTF8.toList

/-- The snag as a fault in the text in which its place is. Lines are counted from one, and a column
is the number of bytes in front of the place on its line. -/
def fault (text : List Char) (s : Snag) : Fault :=
  let bytes := bytesOf text
  let left := (bytesOf s.place.left).length
  let front := bytes.take (bytes.length - left + min s.place.ahead left)
  { cause := s.cause
    line := front.count 10 + 1
    column := (front.reverse.takeWhile (· != 10)).length }

end Snag

end UnitIndex
