import UnitIndex.Diagnostic
import UnitIndex.Host.Basic
import UnitIndex.Text.Utf8
import UnitIndex.Unit.Compilation
import UnitIndex.Unit.Parsed

/-!
The front-end: the program that parses a translation unit and dumps its tree.

`FrontEnd.parse` runs the front-end's command for a unit once and reads what it printed. A fatal
diagnostic fails the parse whatever else was printed; any other errors do not, as long as there is a
tree. A bad exit status alone is no failure either, because the tree of a unit with errors can still
be used.
-/

namespace UnitIndex

/-- Why a unit could not be parsed. -/
inductive ParseFailure where
  | noSource (source : Path)
  | notRun (program : String) (fault : HostFault)
  | inputRefused (fault : HostFault)
  | fatal (file : Option String) (message : String)
  | noTree (status : ExitStatus) (summary : String)
  | malformed (fault : Fault)
  deriving DecidableEq, Repr

/-- The message for people. -/
def ParseFailure.message : ParseFailure → String
  | noSource source => s!"source file not found: {source.text}"
  | notRun program fault => s!"failed to run {program}: {fault.message}"
  | inputRefused fault =>
    s!"failed to write unsaved buffer to the front-end: {fault.message}"
  | fatal file message =>
    let file := file.getD "<unknown>"
    s!"{file}: fatal error: {message}"
  | noTree status summary =>
    s!"front-end produced no AST (exit status {status.text}): {summary}"
  | malformed fault => s!"malformed AST dump: {fault.message}"

/-- A parsed unit and what the front-end had to say about it. -/
structure Parse where
  unit : ParsedUnit
  diagnostics : List Diagnostic

/-- A front-end: the name of its program, and the host that runs it. -/
structure FrontEnd (m : Type → Type) where
  program : String
  host : Host m

namespace FrontEnd

/-- The launch that asks the front-end for its version. -/
def probe (program : String) : Launch := ⟨program, ["--version"], none, none⟩

/-- The launch of a command for a unit, which is given the unit's text if that is not saved. -/
def launchOf (c : CompileCommand) (u : CompilationUnit) : Launch :=
  ⟨c.program, c.operands, some c.directory, u.unsaved⟩

/-- What the front-end's run over a unit comes to. A front-end that has failed may leave its input
unread; one that has not must have read all of it. -/
def outcome (tree : FileTree) (u : CompilationUnit) (e : Ended) : Except ParseFailure Parse :=
  match e.inputFault with
  | some fault => if e.status.isSuccess then .error (.inputRefused fault) else read
  | none => read
where
  /-- The unit in what the front-end printed. -/
  read : Except ParseFailure Parse :=
    let messages := Text.Utf8.decoded e.messages
    let diagnostics := Diagnostic.ofOutput (some u.source.text) messages
    match Diagnostic.firstFatal? diagnostics with
    | some d => .error (.fatal d.file d.message)
    | none =>
      let dump := Text.Utf8.decode e.output
      if (Text.trimStart dump).head? ≠ some '\x7b' then
        .error (.noTree e.status (Diagnostic.summary diagnostics messages))
      else
        let names := FileNames.ofPrimary u.source u.workingDirectory tree.realPath?
        match ParsedUnit.ofDump (String.ofList dump) names with
        | .ok unit => .ok ⟨unit, diagnostics⟩
        | .error fault => .error (.malformed fault)

variable {m : Type → Type} [Monad m]

/-- Whether the front-end can be run. -/
def isAvailable (f : FrontEnd m) : m Bool := do
  match ← f.host.launch (probe f.program) with
  | .ok e => return e.status.isSuccess
  | .error _ => return false

/-- Parse a unit. Its source file has to be there, unless the unit brings its text along. -/
def parse (f : FrontEnd m) (u : CompilationUnit) : m (Except ParseFailure Parse) := do
  if u.unsaved.isNone && !(← f.host.files).isFile u.source then return .error (.noSource u.source)
  let c := CompileCommand.ofUnit u f.program
  match ← f.host.launch (launchOf c u) with
  | .error fault => return .error (.notRun c.program fault)
  | .ok e => return outcome (← f.host.files) u e

end FrontEnd

end UnitIndex
