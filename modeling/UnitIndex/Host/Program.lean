import UnitIndex.Host.Fault
import UnitIndex.Path

/-!
Running other programs.

The library does not run programs itself. It is handed a `Launcher`, which says for each launch why
the program could not be started or how it ended and what it had printed by then.
-/

namespace UnitIndex

/-- How a program ended. -/
inductive ExitStatus where
  /-- By itself, with a number. -/
  | code (n : Nat)
  /-- By a signal. -/
  | signal (n : Nat)
  deriving DecidableEq, Repr

namespace ExitStatus

/-- Whether the program says that all went well. -/
def isSuccess (s : ExitStatus) : Bool := s == code 0

/-- The names of the signals, from the first on. -/
def signalNames : List String :=
  ["SIGHUP", "SIGINT", "SIGQUIT", "SIGILL", "SIGTRAP", "SIGABRT", "SIGBUS", "SIGFPE", "SIGKILL",
    "SIGUSR1", "SIGSEGV", "SIGUSR2", "SIGPIPE", "SIGALRM", "SIGTERM", "SIGSTKFLT", "SIGCHLD",
    "SIGCONT", "SIGSTOP", "SIGTSTP", "SIGTTIN", "SIGTTOU", "SIGURG", "SIGXCPU", "SIGXFSZ",
    "SIGVTALRM", "SIGPROF", "SIGWINCH", "SIGIO", "SIGPWR", "SIGSYS"]

/-- The name of a signal, if it has one. -/
def signalName? : Nat → Option String
  | 0 => none
  | n + 1 => signalNames[n]?

/-- The status for people. -/
def text : ExitStatus → String
  | code n => s!"exit status: {n}"
  | signal n =>
    match signalName? n with
    | some name => s!"signal: {n} ({name})"
    | none => s!"signal: {n}"

end ExitStatus

/-- A program to be run. -/
structure Launch where
  program : String
  operands : List String
  /-- Where it is run, if not in the working directory. -/
  directory : Option Path := none
  /-- What it can read from standard input. -/
  input : Option String := none
  deriving DecidableEq, Repr

/-- The words that a launch passes to the system. -/
def Launch.words (l : Launch) : List String :=
  l.program :: l.operands ++ (l.directory.map (·.text)).toList

/-- A program that has ended. -/
structure Ended where
  status : ExitStatus
  /-- What it wrote to standard output. -/
  output : List UInt8 := []
  /-- What it wrote to standard error. -/
  messages : List UInt8 := []
  /-- Why it could not be given all of its input. -/
  inputFault : Option HostFault := none
  deriving DecidableEq, Repr

/-- What runs programs. -/
abbrev Launcher (m : Type → Type) := Launch → m (Except HostFault Ended)

end UnitIndex
