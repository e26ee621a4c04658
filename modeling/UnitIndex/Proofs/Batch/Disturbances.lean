import Mathlib
import UnitIndex.Proofs.Batch.Schedules
import UnitIndex.Proofs.Walk.Cancellation

/-!
Batches that are disturbed.

A batch may be interrupted, and the time of a job may run out, at any point between the beginnings
and endings of its jobs. As long as neither happens, `Batch.handle` does what `Batch.step` does
(`Batch.foldlM_handle_calm`). Whatever happens, a job that ends writes the first of the facts that
it would have written anyway, and one that is given up or fails writes none; and once the batch has
been interrupted, only jobs that ran at the time can write, each once (`Batch.foldlM_handle`).

`Batch.Progress` is what one event can do, and a run of events is put together from it by
`Batch.Progress.trans`.
-/

namespace UnitIndex

section Returns

variable {m : Type → Type} [Monad m] [LawfulMonad m] {α β : Type}

lemma returns_pure (a : α) : Returns (pure a : m α) a := by
  rw [Returns, pure_bind]

/-- What two steps in a row return that each return one value. -/
lemma Returns.bind {x : m α} {a : α} {f : α → m β} {b : β} (hx : Returns x a)
    (hf : Returns (f a) b) : Returns (x >>= f) b := by
  rw [hx.bind_eq, Returns, bind_assoc]
  exact bind_congr fun _ => hf

end Returns

/-! ### One unit -/

/-- What a job comes to whose unit has been parsed like this, and which is cancelled as `cancelled`
says. -/
def Batch.resultOf (options : WalkOptions) (cancelled : CancelSchedule)
    (parse : Except ParseFailure Parse) : Except IndexError (List Fact) :=
  (parse.map fun p => (Indexed.ofParse p options cancelled).facts).mapError .parse

/-- The first facts of a unit are what is left of them when its job is cancelled. -/
lemma Batch.factsOf_resultOf_prefix (options : WalkOptions) {c : CancelSchedule} (hc : c.Monotone)
    (parse : Except ParseFailure Parse) :
    factsOf (resultOf options c parse) <+: factsOf (resultOf options .never parse) := by
  cases parse with
  | error failure => exact List.prefix_rfl
  | ok p =>
      show (Indexed.ofParse p options c).facts <+: (Walk.run p.unit options .never false).facts
      rw [Indexed.ofParse]
      split
      · exact List.nil_prefix
      · exact Walk.facts_run_of_monotone p.unit options hc false

namespace BatchEvent

/-- A job that knows that it was aborted does not forget it. -/
def IsMonotone : BatchEvent → Prop
  | .ends _ cancelled => cancelled.Monotone
  | _ => True

/-- The beginnings and endings of an undisturbed batch. How a job would be cancelled is of no
consequence. -/
def ofJobEvent (cancelled : Job → CancelSchedule) : JobEvent → BatchEvent
  | .begins job => .begins job
  | .ends job => .ends job (cancelled job)

end BatchEvent

namespace Batch

variable {m : Type → Type} [Monad m] {ctx : BatchContext m} {b b' b'' : Batch}

/-! ### No disturbance -/

/-- A slot without a handle has none to take away. -/
lemma remove_eq_self {slot : Nat} (h : b.active.lookup slot = none) : b.remove slot = b := by
  have hactive : b.active.filter (fun entry => entry.1 != slot) = b.active :=
    List.filter_eq_self.mpr fun entry hentry => by
      simpa [bne_comm] using List.lookup_eq_none_iff.mp h entry hentry
  rw [remove, hactive]

/-- To index a unit by itself is to let its job begin and end. -/
theorem step_begin [LawfulMonad m] (ctx : BatchContext m) (job : Job)
    (hnew : b.active.lookup job.slot = none) :
    step ctx (b.begin job.slot) (.ends job) = do
      let (result, b') ← index ctx job b
      return b'.record result := by
  rw [step, index, Batch.begin]
  split
  · rw [work, hnew, pure_bind, pure_bind, remove_eq_self hnew]
  · simp only [bind_assoc, pure_bind]

/-- The batch has not been interrupted, and no job aborted. -/
structure Calm (b : Batch) : Prop where
  interrupted : b.interrupted = false
  active : ∀ entry ∈ b.active, entry.2 = false

/-- A job begins. -/
lemma Calm.begin (h : b.Calm) (slot : Nat) : (b.begin slot).Calm := by
  rw [Batch.begin, if_neg (by simp [h.interrupted])]
  refine ⟨h.interrupted, List.forall_mem_cons.mpr ⟨h.interrupted, fun entry hentry => ?_⟩⟩
  exact h.active entry (List.mem_of_mem_filter hentry)

/-- A job ends. -/
lemma Calm.record_remove (h : b.Calm) (slot : Nat) (result : Except IndexError (List Fact)) :
    ((b.remove slot).record result).Calm := by
  have hactive : ∀ entry ∈ (b.remove slot).active, entry.2 = false := fun entry hentry =>
    h.active entry (List.mem_of_mem_filter hentry)
  cases result <;> exact ⟨h.interrupted, hactive⟩

/-- A handle stands under the slot that it is found by. -/
lemma mem_of_lookup {slot : Nat} {aborted : Bool} {active : List (Nat × Bool)}
    (h : active.lookup slot = some aborted) : (slot, aborted) ∈ active := by
  obtain ⟨before, behind, hactive, -⟩ := List.lookup_eq_some_iff.mp h
  rw [hactive]
  exact List.mem_append_right _ List.mem_cons_self

/-- No job of a calm batch has been aborted, so it is of no consequence how it would be cancelled.
-/
lemma Calm.work_eq (h : b.Calm) (ctx : BatchContext m) (job : Job) (cancelled : CancelSchedule) :
    work ctx job b cancelled = work ctx job b := by
  rw [work, work]
  cases hlookup : b.active.lookup job.slot with
  | none => rfl
  | some aborted =>
      obtain rfl : aborted = false := h.active _ (mem_of_lookup hlookup)
      rfl

/-- **While nothing disturbs a batch**, beginnings and endings do to it what they do in `run`. -/
theorem foldlM_handle_calm [LawfulMonad m] (ctx : BatchContext m) (h : b.Calm)
    (cancelled : Job → CancelSchedule) (events : List JobEvent) :
    (events.map (.ofJobEvent cancelled)).foldlM (handle ctx) b = events.foldlM (step ctx) b := by
  induction events generalizing b with
  | nil => rfl
  | cons e events ih =>
      rw [List.map_cons, List.foldlM_cons, List.foldlM_cons]
      cases e with
      | begins job =>
          rw [BatchEvent.ofJobEvent, handle, step, pure_bind, pure_bind]
          exact ih (h.begin job.slot)
      | ends job =>
          rw [BatchEvent.ofJobEvent, handle, step, h.work_eq]
          simp only [bind_assoc, pure_bind]
          exact bind_congr fun result => ih (h.record_remove job.slot result)

/-! ### One event -/

/-- What events can do to a batch. What is written are pieces, each the first facts of a job. In an
interrupted batch no jobs can write but those that have a handle, and writing takes it away. -/
structure Progress (options : WalkOptions) (parses : CompilationUnit → Except ParseFailure Parse)
    (b b' : Batch) (pieces : List (Job × List Fact)) : Prop where
  sink : b'.sink = b.sink.emitAll (pieces.flatMap Prod.snd)
  isPrefix : ∀ piece ∈ pieces,
    piece.2 <+: factsOf (resultOf options .never (parses piece.1.unit))
  interrupted : b.interrupted = true → b'.interrupted = true
  slots : b.interrupted = true →
    (pieces.map (·.1.slot) ++ b'.active.map Prod.fst).Subperm (b.active.map Prod.fst)

namespace Progress

variable {options : WalkOptions} {parses : CompilationUnit → Except ParseFailure Parse}
  {pieces pieces' : List (Job × List Fact)}

/-- Nothing is written. -/
lemma of_sink (hsink : b'.sink = b.sink) (hinterrupted : b.interrupted = true →
    b'.interrupted = true ∧ (b'.active.map Prod.fst).Subperm (b.active.map Prod.fst)) :
    Progress options parses b b' [] where
  sink := hsink
  isPrefix := by simp
  interrupted h := (hinterrupted h).1
  slots h := (hinterrupted h).2

/-- Events that follow each other. -/
lemma trans (h : Progress options parses b b' pieces)
    (h' : Progress options parses b' b'' pieces') :
    Progress options parses b b'' (pieces ++ pieces') where
  sink := by
    rw [h'.sink, h.sink, List.flatMap_append, LineSink.emitAll, LineSink.emitAll,
      LineSink.emitAll, List.foldl_append]
  isPrefix piece hpiece := (List.mem_append.mp hpiece).elim (h.isPrefix piece) (h'.isPrefix piece)
  interrupted hb := h'.interrupted (h.interrupted hb)
  slots hb := by
    rw [List.map_append, List.append_assoc]
    exact ((List.subperm_append_left _).mpr (h'.slots (h.interrupted hb))).trans (h.slots hb)

/-- The handles that are left when one is taken away. -/
lemma slots_remove (b : Batch) (slot : Nat) :
    ((b.remove slot).active.map Prod.fst).Subperm (b.active.map Prod.fst) :=
  (List.filter_sublist.map Prod.fst).subperm

/-- A job that has a handle gives it up for what it writes. -/
lemma slots_cons_remove {slot : Nat} {aborted : Bool} (h : b.active.lookup slot = some aborted) :
    (slot :: (b.remove slot).active.map Prod.fst).Subperm (b.active.map Prod.fst) := by
  have hmem : slot ∈ b.active.map Prod.fst := List.mem_map_of_mem (mem_of_lookup h)
  have hgone : slot ∉ (b.remove slot).active.map Prod.fst := by
    simp [Batch.remove]
  exact List.cons_subperm_of_not_mem_of_mem hgone hmem (slots_remove b slot)

/-- A job that fails, or is given up, leaves its handle and writes nothing. -/
lemma record_error (options : WalkOptions)
    (parses : CompilationUnit → Except ParseFailure Parse) (b : Batch) (slot : Nat)
    (e : IndexError) : Progress options parses b ((b.remove slot).record (.error e)) [] :=
  .of_sink rfl fun h => ⟨h, slots_remove b slot⟩

/-- What a job writes that ends. -/
lemma exists_record_remove (options : WalkOptions)
    (parses : CompilationUnit → Except ParseFailure Parse) {job : Job} {c : CancelSchedule}
    (hc : c.Monotone) {aborted : Bool} (hlookup : b.active.lookup job.slot = some aborted) :
    ∃ pieces, Progress options parses b
      ((b.remove job.slot).record (resultOf options c (parses job.unit))) pieces := by
  have hprefix := factsOf_resultOf_prefix options hc (parses job.unit)
  cases hresult : resultOf options c (parses job.unit) with
  | error e => exact ⟨[], record_error options parses b job.slot e⟩
  | ok facts =>
      rw [hresult] at hprefix
      refine ⟨[(job, facts)], ?_, ?_, id, fun _ => slots_cons_remove hlookup⟩
      · simp [record, Batch.remove]
      · exact List.forall_mem_singleton.mpr hprefix

end Progress

variable [LawfulMonad m]

/-- The front-end has its say first, and the rest is a matter of what it has printed. -/
lemma report_eq (ctx : BatchContext m) (job : Job) (cancelled : CancelSchedule) :
    report ctx job cancelled = resultOf ctx.options cancelled <$> ctx.frontEnd.parse job.unit := by
  rw [report, FrontEnd.index, map_eq_pure_bind, bind_assoc]
  refine bind_congr fun parse => ?_
  rw [pure_bind]
  cases parse <;> rfl

/-- **What one event does**, if every unit is parsed one way. -/
lemma exists_step {parses : CompilationUnit → Except ParseFailure Parse}
    (hparse : ∀ u, Returns (ctx.frontEnd.parse u) (parses u)) (b : Batch) {e : BatchEvent}
    (he : e.IsMonotone) :
    ∃ b' pieces, Returns (handle ctx b e) b' ∧ Progress ctx.options parses b b' pieces := by
  cases e with
  | begins job =>
      refine ⟨b.begin job.slot, [], returns_pure _, .of_sink ?_ fun h => ?_⟩
      · rw [Batch.begin]
        split <;> rfl
      · -- an interrupted batch begins nothing
        rw [Batch.begin, if_pos h]
        exact ⟨h, List.Subperm.refl _⟩
  | ends job cancelled =>
      cases hlookup : b.active.lookup job.slot with
      | none =>
          refine ⟨b.remove job.slot, [], ?_, .of_sink rfl fun h => ?_⟩
          · rw [handle, work, hlookup, pure_bind]
            exact returns_pure _
          · exact ⟨h, Progress.slots_remove b job.slot⟩
      | some aborted =>
          have hmonotone : (if aborted then cancelled else .never).Monotone := by
            split
            · exact he
            · exact CancelSchedule.monotone_never
          obtain ⟨pieces, hprogress⟩ :=
            Progress.exists_record_remove ctx.options parses hmonotone hlookup
          refine ⟨_, pieces, ?_, hprogress⟩
          rw [handle, work, hlookup]
          dsimp only
          rw [report_eq, bind_map_left]
          exact (hparse job.unit).bind (returns_pure _)
  | interrupt =>
      refine ⟨b.interrupt.abortAll, [], returns_pure _, .of_sink rfl fun _ => ⟨rfl, ?_⟩⟩
      rw [abortAll, List.map_map]
      exact List.Subperm.refl _
  | expires job seconds =>
      refine ⟨b.expire job.slot seconds, [], returns_pure _, ?_⟩
      rw [expire]
      split
      · exact .record_error ctx.options parses b job.slot _
      · exact .of_sink rfl fun h => ⟨h, List.Subperm.refl _⟩

/-! ### Any events -/

/-- **A disturbed batch**: whatever happens to it and whenever, the jobs that end write the first of
the facts that they would have written anyway. Once it has been interrupted, these are jobs that ran
then, each writes once at most, and no job begins any more. -/
theorem foldlM_handle {parses : CompilationUnit → Except ParseFailure Parse}
    (hparse : ∀ u, Returns (ctx.frontEnd.parse u) (parses u)) (b : Batch)
    {events : List BatchEvent} (hevents : ∀ e ∈ events, e.IsMonotone) :
    ∃ b' pieces, Returns (events.foldlM (handle ctx) b) b' ∧
      Progress ctx.options parses b b' pieces := by
  induction events generalizing b with
  | nil => exact ⟨b, [], returns_pure b, .of_sink rfl fun h => ⟨h, List.Subperm.refl _⟩⟩
  | cons e events ih =>
      obtain ⟨he, hevents⟩ := List.forall_mem_cons.mp hevents
      obtain ⟨b', pieces, hreturns, hprogress⟩ := exists_step hparse b he
      obtain ⟨b'', pieces', hreturns', hprogress'⟩ := ih b' hevents
      refine ⟨b'', pieces ++ pieces', ?_, hprogress.trans hprogress'⟩
      rw [List.foldlM_cons]
      exact hreturns.bind hreturns'

end Batch

end UnitIndex
