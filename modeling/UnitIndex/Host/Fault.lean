/-!
Why the system refuses a file or a program.
-/

namespace UnitIndex

/-- Why the system refuses something. -/
inductive HostFault where
  | notFound
  | tooManyWords
  | badFormat
  | denied
  | notDirectory
  | isDirectory
  | noSpace
  | brokenPipe
  | nameTooLong
  /-- A path holds a NUL, so the system is not asked at all. -/
  | nulInPath
  /-- A word of a command holds one. -/
  | nulInCommand
  deriving DecidableEq, Repr

namespace HostFault

/-- The number by which the system knows the fault, if it does. -/
def number? : HostFault → Option Nat
  | notFound => some 2
  | tooManyWords => some 7
  | badFormat => some 8
  | denied => some 13
  | notDirectory => some 20
  | isDirectory => some 21
  | noSpace => some 28
  | brokenPipe => some 32
  | nameTooLong => some 36
  | nulInPath | nulInCommand => none

/-- The fault in words. -/
def words : HostFault → String
  | notFound => "No such file or directory"
  | tooManyWords => "Argument list too long"
  | badFormat => "Exec format error"
  | denied => "Permission denied"
  | notDirectory => "Not a directory"
  | isDirectory => "Is a directory"
  | noSpace => "No space left on device"
  | brokenPipe => "Broken pipe"
  | nameTooLong => "File name too long"
  | nulInPath => "file name contained an unexpected NUL byte"
  | nulInCommand => "nul byte found in provided data"

/-- The message for people: words, and the number if there is one. -/
def message (f : HostFault) : String :=
  match f.number? with
  | some n => s!"{f.words} (os error {n})"
  | none => f.words

end HostFault

end UnitIndex
