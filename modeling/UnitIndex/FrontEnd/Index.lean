import UnitIndex.FrontEnd.Basic
import UnitIndex.Walk.Run

/-!
Indexing one unit: parse it, then walk it.

Cancelling does not stop the front-end. A unit whose job was cancelled by the time it is parsed is
not walked at all.
-/

namespace UnitIndex

/-- What indexing a unit has brought. -/
structure Indexed where
  facts : List Fact
  stats : WalkStats
  /-- What the front-end had to say, none of it fatal. -/
  diagnostics : List Diagnostic

namespace Indexed

/-- Walk a parsed unit, unless that has been cancelled. -/
def ofParse (p : Parse) (options : WalkOptions) (cancelled : CancelSchedule) : Indexed :=
  if cancelled 0 0 then ⟨[], { aborted := true }, p.diagnostics⟩
  else
    let walk := Walk.run p.unit options cancelled false
    ⟨walk.facts, walk.stats, p.diagnostics⟩

end Indexed

/-- Parse a unit and walk it. -/
def FrontEnd.index {m : Type → Type} [Monad m] (f : FrontEnd m) (options : WalkOptions)
    (cancelled : CancelSchedule) (u : CompilationUnit) : m (Except ParseFailure Indexed) := do
  return (← f.parse u).map fun p => .ofParse p options cancelled

end UnitIndex
