import UnitIndex.Batch.Schedule
import UnitIndex.FrontEnd.Index

/-!
Indexing many units at a time.

While a job runs, a batch holds a handle by which it can be aborted. An interrupt aborts every
running job, and jobs that begin after it are skipped. The facts of a job are written when it ends,
all together, so the output of two jobs is never mixed; a job that fails writes nothing and does not
stop the others.

`run` is a batch that nothing disturbs. What may come from outside, an interrupt or the end of the
time that a job is given, is one more event for `handle`, at whatever point it comes.
-/

namespace UnitIndex

/-- Why a unit could not be indexed, or the facts could not be written. -/
inductive IndexError where
  | unit (e : UnitError)
  | parse (f : ParseFailure)
  | output (fault : HostFault)
  /-- The job has taken longer than it may. -/
  | timedOut (seconds : Nat)
  deriving DecidableEq, Repr

/-- The message for people. -/
def IndexError.message : IndexError → String
  | unit e => e.message
  | parse f => f.message
  | output fault => s!"failed to write facts: {fault.message}"
  | timedOut seconds => s!"gave up after {seconds}s"

/-- What stays the same during a batch. -/
structure BatchContext (m : Type → Type) where
  frontEnd : FrontEnd m
  options : WalkOptions

/-- What changes during a batch. -/
structure Batch where
  /-- The running jobs, and whether each has been aborted. -/
  active : List (Nat × Bool) := []
  /-- Whether the batch was interrupted. -/
  interrupted : Bool := false
  sink : LineSink := {}
  /-- How many jobs have failed. -/
  failed : Nat := 0

namespace Batch

/-! ### Handles -/

/-- The batch without a handle for the job. -/
def remove (slot : Nat) (b : Batch) : Batch :=
  { b with active := b.active.filter fun entry => entry.1 != slot }

/-- The batch with a handle for the job, aborted at once when the batch is interrupted already. -/
def register (slot : Nat) (b : Batch) : Batch :=
  let b := b.remove slot
  { b with active := (slot, b.interrupted) :: b.active }

/-- Interrupt the batch: no job begins any more. -/
def interrupt (b : Batch) : Batch := { b with interrupted := true }

/-- Abort every running job. -/
def abortAll (b : Batch) : Batch :=
  { b with active := b.active.map fun (slot, _) => (slot, true) }

/-! ### Jobs -/

/-- A job begins, unless the batch was interrupted. -/
def begin (slot : Nat) (b : Batch) : Batch := if b.interrupted then b else b.register slot

variable {m : Type → Type} [Monad m]

/-- The facts of a unit whose job is cancelled as `cancelled` says. -/
def report (ctx : BatchContext m) (job : Job) (cancelled : CancelSchedule) :
    m (Except IndexError (List Fact)) := do
  let result ← ctx.frontEnd.index ctx.options cancelled job.unit
  return (result.map (·.facts)).mapError .parse

/-- The facts of a job that ends. A job that was skipped has none. One that was aborted is cancelled
as `cancelled` says, which is from the beginning unless something else is known.

All of a job's work is done here, at its end, though a worker does it from its beginning on. What
the front-end prints is the host's affair, and of all that jobs share the work looks at nothing but
the job's own handle. -/
def work (ctx : BatchContext m) (job : Job) (b : Batch) (cancelled : CancelSchedule := .always) :
    m (Except IndexError (List Fact)) :=
  match b.active.lookup job.slot with
  | none => return .ok []
  | some aborted => report ctx job (if aborted then cancelled else .never)

/-- Index one unit by itself. -/
def index (ctx : BatchContext m) (job : Job) (b : Batch) :
    m (Except IndexError (List Fact) × Batch) := do
  if b.interrupted then return (.ok [], b)
  let b := b.register job.slot
  return (← work ctx job b, b.remove job.slot)

/-- Write what a job has come to. -/
def record (result : Except IndexError (List Fact)) (b : Batch) : Batch :=
  match result with
  | .ok facts => { b with sink := b.sink.emitAll facts }
  | .error _ => { b with failed := b.failed + 1 }

/-- What an event does to the batch. Between its beginning and its end a job has no state of its own
but its handle: see `work`. -/
def step (ctx : BatchContext m) (b : Batch) : JobEvent → m Batch
  | .begins job => return b.begin job.slot
  | .ends job => do return (b.remove job.slot).record (← work ctx job b)

/-- Index units with so many workers. -/
def run (ctx : BatchContext m) (workers : Nat) (order : EndingOrder)
    (units : List CompilationUnit) : m Batch :=
  ((JobQueue.ofUnits units).timeline workers order 0).foldlM (step ctx) {}

/-! ### Disturbances -/

/-- The time of a job is up: if it still runs, it is given up. -/
def expire (slot seconds : Nat) (b : Batch) : Batch :=
  if (b.active.lookup slot).isSome then (b.remove slot).record (.error (.timedOut seconds)) else b

end Batch

/-- What happens to a batch, from inside and from outside. -/
inductive BatchEvent where
  | begins (job : Job)
  /-- A job ends. If it was aborted while it ran, `cancelled` says from when on it knew. -/
  | ends (job : Job) (cancelled : CancelSchedule)
  | interrupt
  /-- The seconds that a job is given are over. -/
  | expires (job : Job) (seconds : Nat)

namespace Batch

variable {m : Type → Type} [Monad m]

/-- What an event does to a batch that may be disturbed. -/
def handle (ctx : BatchContext m) (b : Batch) : BatchEvent → m Batch
  | .begins job => return b.begin job.slot
  | .ends job cancelled => do
    return (b.remove job.slot).record (← work ctx job b cancelled)
  | .interrupt => return b.interrupt.abortAll
  | .expires job seconds => return b.expire job.slot seconds

end Batch

end UnitIndex
