import Std.Data.HashSet
import UnitIndex.Fact.Basic
import UnitIndex.Types.Resolve
import UnitIndex.Unit.Parsed
import UnitIndex.Walk.Tracker

/-!
The state of a walk over a parsed unit, and the steps that read and change it.

A walk can be cancelled at any time. It asks again and again whether it has been (`isCancelled`);
what it is told may depend on how often it has asked and on how many facts it has delivered, and on
nothing else that the walk does.
-/

namespace UnitIndex

/-- What a walk reports. -/
structure WalkOptions where
  /-- Also parameters and variables inside functions, and references to them. -/
  indexLocals : Bool := false
  /-- Also the types that casts and size queries name. -/
  typeUses : Bool := false
  /-- The limit on unwrapping a type. -/
  maxTypeDepth : Nat := TypeTable.defaultMaxDepth
  deriving DecidableEq, Repr

/-- When a walk is cancelled: the answer to the question asked after so many earlier ones, with so
many facts delivered. -/
abbrev CancelSchedule := Nat → Nat → Bool

namespace CancelSchedule

/-- Never cancelled. -/
def never : CancelSchedule := fun _ _ => false

/-- Cancelled from the beginning. -/
def always : CancelSchedule := fun _ _ => true

/-- Cancelled once so many facts are delivered. -/
def afterFacts (n : Nat) : CancelSchedule := fun _ delivered => n ≤ delivered

/-- Once cancelled, a walk stays cancelled. -/
def Monotone (s : CancelSchedule) : Prop :=
  ∀ {p q m n}, p ≤ q → m ≤ n → s p m = true → s q n = true

/-- A walk that is never cancelled stays that way. -/
theorem monotone_never : Monotone never := by intro _ _ _ _ _ _ h; exact h

/-- And so does one that is cancelled behind a number of facts. -/
theorem monotone_afterFacts (k : Nat) : Monotone (afterFacts k) := by
  intro _ _ _ _ _ hmn h
  simp only [afterFacts, decide_eq_true_eq] at *
  exact Nat.le_trans h hmn

end CancelSchedule

/-- What a walk counts. -/
structure WalkStats where
  declarations : Nat := 0
  symbols : Nat := 0
  references : Nat := 0
  /-- Whether the walk was cancelled before its end. -/
  aborted : Bool := false
  deriving DecidableEq, Repr

/-- What stays the same during a walk. -/
structure WalkContext where
  unit : ParsedUnit
  options : WalkOptions
  cancelled : CancelSchedule

/-- What changes during a walk. -/
structure WalkState where
  tracker : FileTracker := {}
  types : TypeTable := {}
  /-- The declarations entered so far. -/
  visited : Std.HashSet NodeId := {}
  stats : WalkStats := {}
  /-- The facts delivered so far. -/
  facts : Array Fact := #[]
  /-- How many facts were delivered each time the walk has asked whether it is cancelled. -/
  polls : Array Nat := #[]

/-- A step of a walk. -/
abbrev WalkM := ReaderT WalkContext (StateM WalkState)

namespace Walk

/-- Ask whether the walk is cancelled. -/
def isCancelled : WalkM Bool := do
  let s ← get
  let answer := (← read).cancelled s.polls.size s.facts.size
  set { s with polls := s.polls.push s.facts.size }
  return answer

/-- Deliver a fact, unless the walk is cancelled. -/
def emit (fact : Fact) : WalkM Unit := do
  if ← isCancelled then return
  modify fun s =>
    let stats :=
      if fact.isSymbol then { s.stats with symbols := s.stats.symbols + 1 }
      else { s.stats with references := s.stats.references + 1 }
    { s with facts := s.facts.push fact, stats := stats }

/-- The position of a fact. A location without a file is in the current file; made-up buffers have
no positions. -/
def site? (loc : Option SourceLocation) : WalkM (Option FileLocation) := do
  let names := (← read).unit.names
  let current := (← get).tracker.current
  return do
    let l ← names.resolve? (← loc)
    let file ← if l.file = "" then current else some l.file
    if isPhysicalFile file then some { l with file := file } else none

/-- The declaration with that id. -/
def decl? (id : NodeId) : WalkM (Option DeclInfo) := return (← read).unit.decls.get? id

/-- The target of a reference to a declaration: its definition, if that is located and not made
up. -/
def target? (id : NodeId) : WalkM (Option Target) := do
  let decls := (← read).unit.decls
  return do
    let info ← decls.get? (decls.definitionOf id)
    if info.isImplicit then none
    else some ⟨info.qualifiedName, info.kind.name, ← info.location⟩

/-- Whether references to the declaration are reported at all. -/
def isIndexable (id : NodeId) : WalkM Bool := do
  let indexLocals := (← read).options.indexLocals
  return (← decl? id).any fun info => !info.isImplicit && (!info.isLocal || indexLocals)

/-- Whether the declaration is a function that the front-end has not made up. -/
def isFunction (id : NodeId) : WalkM Bool :=
  return (← decl? id).any fun info => info.cls == .function && !info.isImplicit

/-- The declaration that defines a written type. -/
def resolveType (type : WrittenType) : WalkM (Option NodeId) := do
  let ctx ← read
  let s ← get
  let (found, types) :=
    (TypeTable.resolveWritten ctx.unit.decls ctx.options.maxTypeDepth type).run s.types
  set { s with types := types }
  return found

/-- Where the declaration that defines a written type stands, if there is such a type. -/
def typeLocation? (type : Option WrittenType) : WalkM (Option FileLocation) := do
  let some type := type | return none
  let some id ← resolveType type | return none
  return (← decl? id).bind (·.location)

/-- The declaration that defines a written type, as a target. -/
def typeTarget? (type : WrittenType) : WalkM (Option Target) := do
  let some id ← resolveType type | return none
  target? id

/-- Deliver a reference. -/
def emitReference (kind : ReferenceKind) (site : FileLocation) (target : Option Target) :
    WalkM Unit :=
  emit (.reference ⟨kind, site, target⟩)

end Walk

end UnitIndex
