import UnitIndex.Location.FileNames
import UnitIndex.Text.Blank
import UnitIndex.Text.Digit
import UnitIndex.Text.Numeral

/-!
Diagnostics of the front-end.

A diagnostic is a line `file:line:column: severity: message`. File names and messages may hold
colons and digits themselves, so a line is cut at its first colon behind which a position and a
severity follow. Lines that are no diagnostics (source text, carets, summaries) are passed over.
-/

namespace UnitIndex

/-- How grave a diagnostic is. -/
inductive Severity where
  | note
  | warning
  | error
  | fatal
  deriving DecidableEq, Repr

namespace Severity

/-- The words that the front-end prints. -/
def words : Severity → String
  | note => "note"
  | warning => "warning"
  | error => "error"
  | fatal => "fatal error"

/-- The severities, gravest first. -/
def all : List Severity := [fatal, error, warning, note]

/-- Whether the diagnostic says that something went wrong. -/
def isError : Severity → Bool
  | error | fatal => true
  | _ => false

end Severity

/-- A diagnostic. -/
structure Diagnostic where
  file : Option String
  /-- Counted from one. -/
  line : UInt32
  /-- Counted from one. -/
  column : UInt32
  severity : Severity
  message : String
  deriving DecidableEq, Repr

namespace Diagnostic

open UnitIndex.Text (isBlank isDecimalDigit trimStart numeral? limit32)

/-- The line that the front-end would print. -/
def text (d : Diagnostic) : String :=
  let file := d.file.getD "<unknown>"
  s!"{file}:{d.line.toNat}:{d.column.toNat}: {d.severity.words}: {d.message}"

/-! ### Reading a line -/

/-- What stands behind the file name: two numbers, as they are written, a severity and a message. -/
structure Tail where
  line : List Char
  column : List Char
  severity : Severity
  message : List Char
  deriving Repr

/-- The text behind `mark`. -/
def after? (mark cs : List Char) : Option (List Char) :=
  if mark.isPrefixOf cs then some (cs.drop mark.length) else none

/-- Digits and the colon behind them. -/
def number? (cs : List Char) : Option (List Char × List Char) := do
  let digits := cs.takeWhile isDecimalDigit
  guard !digits.isEmpty
  return (digits, ← after? [':'] (cs.dropWhile isDecimalDigit))

/-- A severity and the colon behind it. -/
def severity? (cs : List Char) : Option (Severity × List Char) :=
  Severity.all.findSome? fun s => (after? (s.words.toList ++ [':']) cs).map (s, ·)

/-- A position, a severity and a message. -/
def tail? (cs : List Char) : Option Tail := do
  let (line, cs) ← number? cs
  let (column, cs) ← number? cs
  let (severity, cs) ← severity? (trimStart cs)
  return ⟨line, column, severity, trimStart cs⟩

/-- The line cut at its first colon behind which a tail stands. -/
def cut? : List Char → Option (List Char × Tail)
  | [] => none
  | c :: cs =>
    match if c = ':' then tail? cs else none with
    | some tail => some ([], tail)
    | none => (cut? cs).map fun (file, tail) => (c :: file, tail)

/-- A position of 32 bits. -/
def position? (digits : List Char) : Option UInt32 :=
  (numeral? 10 limit32 digits).map UInt32.ofNat

/-- The diagnostic on a line. Standard input is reported as `stdinFile`, if that is given; a line
whose position does not fit its numbers is no diagnostic. -/
def ofLine? (stdinFile : Option String) (line : List Char) : Option Diagnostic := do
  let (file, tail) ← cut? line
  let file := String.ofList file
  let named :=
    match stdinFile with
    | some real => if file = FileNames.stdin then real else file
    | none => file
  return {
    file := if file = "" then none else some named
    line := ← position? tail.line
    column := ← position? tail.column
    severity := tail.severity
    message := String.ofList tail.message }

/-! ### Reading all output -/

/-- The diagnostics in what the front-end printed. -/
def ofOutput (stdinFile : Option String) (output : String) : List Diagnostic :=
  (Text.lines output.toList).filterMap (ofLine? stdinFile)

/-- The first fatal one. -/
def firstFatal? (ds : List Diagnostic) : Option Diagnostic := ds.find? (·.severity == .fatal)

/-- The first errors in one line, or the first line that was printed at all. -/
def summary (ds : List Diagnostic) (output : String) : String :=
  match (ds.filter (·.severity.isError)).take 5 with
  | [] =>
    match (Text.lines output.toList).find? fun line => !line.all isBlank with
    | some line => String.ofList (Text.trim line)
    | none => "no output"
  | errors => "; ".intercalate (errors.map text)

end Diagnostic

end UnitIndex
