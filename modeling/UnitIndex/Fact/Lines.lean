import UnitIndex.Fact.Json

/-!
Facts written out, one to a line.

A writer may take only so many bytes. A fact whose line does not fit is cut where the writer is
full, and from then on nothing more is written.
-/

namespace UnitIndex

/-- The line of a fact: its compact form and a line feed. -/
def Fact.line (f : Fact) : List Char := f.toJson.compact ++ ['\n']

/-- The line of a fact as bytes. -/
def Fact.lineBytes (f : Fact) : List UInt8 := f.line.flatMap String.utf8EncodeChar

/-- Facts on their way into a writer. -/
structure LineSink where
  /-- How many bytes the writer takes in all, unless it takes any number. -/
  capacity : Option Nat := none
  bytes : Array UInt8 := #[]
  /-- How many facts were written in full. -/
  written : Nat := 0
  failed : Bool := false

namespace LineSink

/-- How much of a list of bytes the writer still takes. -/
def accepts (s : LineSink) (line : List UInt8) : List UInt8 :=
  match s.capacity with
  | none => line
  | some c => line.take (c - s.bytes.size)

/-- The sink with a fact written. -/
def emit (s : LineSink) (f : Fact) : LineSink :=
  if s.failed then s
  else
    let line := f.lineBytes
    let accepted := s.accepts line
    let s := { s with bytes := s.bytes ++ accepted }
    if accepted.length = line.length then { s with written := s.written + 1 }
    else { s with failed := true }

/-- The sink with facts written one after the other. -/
def emitAll (s : LineSink) (fs : List Fact) : LineSink := fs.foldl emit s

/-- What was written, unless a line was cut. -/
def finish? (s : LineSink) : Option (Array UInt8) := if s.failed then none else some s.bytes

end LineSink

end UnitIndex
