import UnitIndex.Fact.Lines
import UnitIndex.Walk.Visit

/-!
Whole walks over a unit.
-/

namespace UnitIndex

/-- What a walk has delivered. -/
structure WalkResult where
  facts : List Fact
  stats : WalkStats
  /-- What the observer was told. -/
  events : List FileEvent

namespace Walk

/-- The state in which a walk starts: the main file is current before any node is seen. -/
def start (unit : ParsedUnit) (watched : Bool) : WalkState :=
  let tracker : FileTracker := if watched then .watched else {}
  { tracker := tracker.enter (some unit.names.primary) }

/-- The state in which a walk ends. -/
def finalState (unit : ParsedUnit) (options : WalkOptions) (cancelled : CancelSchedule)
    (watched : Bool) : WalkState :=
  ((visit .decl unit.root).run ⟨unit, options, cancelled⟩ |>.run (start unit watched)).2

/-- Walk a unit. -/
def run (unit : ParsedUnit) (options : WalkOptions) (cancelled : CancelSchedule)
    (watched : Bool) : WalkResult :=
  let s := finalState unit options cancelled watched
  { facts := s.facts.toList
    stats := { s.stats with aborted := cancelled s.polls.size s.facts.size }
    events := (s.tracker.observed.getD #[]).toList }

end Walk

end UnitIndex
