import UnitIndex.Batch.Basic
import UnitIndex.CommandLine.Arguments
import UnitIndex.Settings.File
import UnitIndex.Unit.Sources

/-!
What a command line does.

`Arguments.settings` lays the command line over the settings file. `CommandLine.run` then indexes
the sources that the paths stand for. It gives up before anything is written when the front-end
cannot be run, when there is nothing to index, or when a text that is not saved has no single source
to stand for; once the output is open, units that fail only make the run fail as a whole. The output
is emptied before the first unit is parsed and filled after the last one, over whatever the
front-end has put there in between.
-/

namespace UnitIndex

/-! ### Settings -/

namespace Arguments

/-- The settings with the command line laid over them. -/
def overlay (a : Arguments) (s : Settings) : Settings :=
  { s with
    compiler := { s.compiler with
      includePaths := s.compiler.includePaths ++ a.includePaths
      preIncludes := s.compiler.preIncludes ++ a.preIncludes
      defines := s.compiler.defines ++ a.defines
      frontEnd := a.frontEnd.getD s.compiler.frontEnd
      standard := a.standard <|> s.compiler.standard }
    indexing := { s.indexing with
      indexLocals := s.indexing.indexLocals || a.indexLocals
      typeUses := s.indexing.typeUses || a.typeUses }
    workers := a.workers.getD s.workers
    level := s.level.raised a.verbosity }

/-- The settings of a run and the file that they come from: the one that the command line names, or
the nearest one at or above the working directory. -/
def settings (a : Arguments) (tree : FileTree) :
    Except Settings.LoadError (Settings × Option Path) := do
  let (s, file) ← match a.settingsFile with
    | some file => do pure (← Settings.load tree file, some file)
    | none => Settings.discover tree tree.workingPath
  return ((a.overlay s).normalized, file)

end Arguments

/-! ### Runs -/

/-- What a run has come to. -/
structure RunResult where
  succeeded : Bool
  /-- What goes to standard output, if that was opened. -/
  printed : Option (List UInt8) := none
  deriving DecidableEq, Repr

namespace CommandLine

variable {m : Type → Type} [Monad m]

/-- What surrounds a run. -/
structure Surroundings (m : Type → Type) where
  host : Host m
  processors : Nat
  order : EndingOrder := .oldestFirst

/-- The text that stands in for the only source. -/
def unsavedText (tree : FileTree) (file : Option Path) (sources : List Path) :
    Option (Option String) :=
  match file with
  | none => some none
  | some file => if sources.length = 1 then (tree.readText? file).map some else none

/-- Index the units of a run: whether none has failed, and their facts. -/
def indexUnits (around : Surroundings m) (s : Settings) (units : List CompilationUnit) :
    m (Bool × List UInt8) := do
  let ctx : BatchContext m := ⟨⟨s.compiler.frontEnd, around.host⟩, s.indexing.walkOptions⟩
  let batch ← Batch.run ctx (s.workersOn around.processors) around.order units
  return (batch.failed = 0, batch.sink.bytes.toList)

/-- Index the units of a run and write their facts to the output. -/
def writeFacts (around : Surroundings m) (output : Option Path) (s : Settings)
    (units : List CompilationUnit) : m (Except IndexError RunResult) := do
  match output with
  | none =>
    let (succeeded, bytes) ← indexUnits around s units
    return .ok { succeeded := succeeded, printed := some bytes }
  | some file =>
    if let .error fault ← around.host.create file then return .error (.output fault)
    let (succeeded, bytes) ← indexUnits around s units
    if let .error fault ← around.host.overwrite file bytes then return .error (.output fault)
    return .ok { succeeded := succeeded }

/-- Carry out a command line. -/
def run (around : Surroundings m) (a : Arguments) (s : Settings) :
    m (Except IndexError RunResult) := do
  if !(← FrontEnd.isAvailable ⟨s.compiler.frontEnd, around.host⟩) then
    return .ok { succeeded := false }
  let tree ← around.host.files
  let sources := Sources.collect tree s.indexing a.paths
  if sources.isEmpty then return .ok { succeeded := true }
  match unsavedText tree a.unsaved sources with
  | none => return .ok { succeeded := false }
  | some text =>
    let unitOf (source : Path) : Except UnitError CompilationUnit :=
      CompilationUnit.build tree source tree.workingPath s.compiler.flags text
    match sources.mapM unitOf with
    | .error e => return .error (.unit e)
    | .ok units => writeFacts around a.output s units

end CommandLine

end UnitIndex
