import UnitIndex.Unit.Compilation

/-!
When the jobs of a batch begin and end.

Jobs begin in order, as soon as there is a free worker. Which of the running jobs ends next is not
for the batch to say: an `EndingOrder` stands for whatever the machine does, and `timeline` gives
the beginnings and endings that it leads to. Every job begins once and ends once, after it has
begun.
-/

namespace UnitIndex

/-- A unit to be indexed, and the number under which the job is known. -/
structure Job where
  slot : Nat
  unit : CompilationUnit
  deriving DecidableEq, Repr

/-- What happens to a job. -/
inductive JobEvent where
  | begins (job : Job)
  | ends (job : Job)
  deriving DecidableEq, Repr

/-- Which of the running jobs ends next, by its place among them, after so many have ended. A place
that is too large is counted around. -/
abbrev EndingOrder := Nat → Nat

namespace EndingOrder

/-- The job that has run longest ends first. -/
def oldestFirst : EndingOrder := fun _ => 0

end EndingOrder

/-- The jobs of a batch that have not ended yet. -/
structure JobQueue where
  /-- The jobs that have begun, in the order in which they did. -/
  running : List Job := []
  waiting : List Job
  deriving DecidableEq, Repr

namespace JobQueue

/-- How many beginnings and endings are still to come. -/
def remaining (q : JobQueue) : Nat := q.running.length + 2 * q.waiting.length

/-- The running job at a place ends. -/
def ending? (place : Nat) (q : JobQueue) : Option (JobEvent × JobQueue) :=
  let place := place % q.running.length
  q.running[place]?.map fun job => (.ends job, { q with running := q.running.eraseIdx place })

/-- What happens next: a job begins if a worker is free, else one ends. Without workers one job runs
at a time. -/
def next? (workers place : Nat) (q : JobQueue) : Option (JobEvent × JobQueue) :=
  match q.waiting with
  | job :: waiting =>
    if q.running.length < max workers 1 then some (.begins job, ⟨q.running ++ [job], waiting⟩)
    else q.ending? place
  | [] => q.ending? place

/-- When a job ends there is one less that has not ended. -/
theorem remaining_ending? {place : Nat} {q q' : JobQueue} {e : JobEvent}
    (h : q.ending? place = some (e, q')) : q'.remaining + 1 = q.remaining := by
  simp only [ending?, Option.map_eq_some_iff, Prod.mk.injEq] at h
  obtain ⟨job, hjob, -, rfl⟩ := h
  have := (List.getElem?_eq_some_iff.1 hjob).1
  simp only [remaining, List.length_eraseIdx, this, if_true]
  omega

/-- Each step uses up one of the beginnings and endings. -/
theorem remaining_next? {workers place : Nat} {q q' : JobQueue} {e : JobEvent}
    (h : q.next? workers place = some (e, q')) : q'.remaining + 1 = q.remaining := by
  unfold next? at h
  split at h
  · next job waiting hw =>
    split at h
    · simp only [Option.some.injEq, Prod.mk.injEq] at h
      obtain ⟨-, rfl⟩ := h
      simp only [remaining, hw, List.length_append, List.length_cons, List.length_nil]
      omega
    · exact remaining_ending? h
  · exact remaining_ending? h

/-- Everything that is still to happen, when `ended` jobs have ended. -/
def timeline (workers : Nat) (order : EndingOrder) (ended : Nat) (q : JobQueue) : List JobEvent :=
  match h : q.next? workers (order ended) with
  | none => []
  | some (.begins job, q') =>
    have := remaining_next? h
    .begins job :: timeline workers order ended q'
  | some (.ends job, q') =>
    have := remaining_next? h
    .ends job :: timeline workers order (ended + 1) q'
  termination_by q.remaining

/-- The queue of a batch, its jobs numbered from zero. -/
def ofUnits (units : List CompilationUnit) : JobQueue := { waiting := units.mapIdx Job.mk }

end JobQueue

end UnitIndex
