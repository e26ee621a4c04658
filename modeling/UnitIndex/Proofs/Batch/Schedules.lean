import Mathlib
import UnitIndex.CommandLine.Run
import UnitIndex.Proofs.Fact.Lines

/-!
Batches under any schedule.

How many workers there are and which of the running jobs ends next decides about the order in which
the jobs end, `JobQueue.completed`, and about nothing else. Each job is in it once
(`JobQueue.completed_perm`). `Batch.Follows` is what holds between a batch and its queue while
nothing interrupts: the handles in the batch are those of the running jobs, and none is aborted. So
a job that ends has been indexed like a unit by itself (`Batch.Follows.work_eq`), and a run is
nothing but its units, one by one in the order in which their jobs end (`Batch.run_eq`).
`CommandLine.writeFacts_schedule` says what this means for the output and the success of a run.
-/

namespace UnitIndex

/-! ### The order in which jobs end -/

/-- The job that an event ends. -/
def JobEvent.ended? : JobEvent → Option Job
  | .begins _ => none
  | .ends job => some job

namespace JobQueue

variable {workers place : Nat} {order : EndingOrder} {q q' : JobQueue} {job : Job}

/-- The jobs of a queue in the order in which they end, when `ended` jobs have ended before. -/
def completed (workers : Nat) (order : EndingOrder) (ended : Nat) (q : JobQueue) : List Job :=
  (q.timeline workers order ended).filterMap JobEvent.ended?

/-- One of the running jobs ends and runs no more. -/
lemma ending?_eq_some {e : JobEvent} (h : q.ending? place = some (e, q')) :
    ∃ (i : Nat) (job : Job), q.running[i]? = some job ∧ e = .ends job ∧
      q' = { q with running := q.running.eraseIdx i } := by
  simp only [ending?, Option.map_eq_some_iff, Prod.mk.injEq] at h
  obtain ⟨job, hjob, rfl, rfl⟩ := h
  exact ⟨_, job, hjob, rfl, rfl⟩

/-- If no job can end, none is running. -/
lemma ending?_eq_none (h : q.ending? place = none) : q.running = [] := by
  by_contra hrunning
  have hlt := Nat.mod_lt place (List.length_pos_iff.mpr hrunning)
  simp [ending?, List.getElem?_eq_getElem hlt] at h

/-- A job that begins is the first of those that wait. -/
lemma next?_begins (h : q.next? workers place = some (.begins job, q')) :
    ∃ waiting, q.waiting = job :: waiting ∧ q' = ⟨q.running ++ [job], waiting⟩ := by
  unfold next? at h
  split at h
  case h_1 first waiting hwaiting =>
    split at h
    · cases h
      exact ⟨waiting, hwaiting, rfl⟩
    · obtain ⟨_, _, _, hends, _⟩ := ending?_eq_some h
      exact nomatch hends
  case h_2 =>
    obtain ⟨_, _, _, hends, _⟩ := ending?_eq_some h
    exact nomatch hends

/-- A job that ends is one of those that run. -/
lemma next?_ends (h : q.next? workers place = some (.ends job, q')) :
    ∃ i, q.running[i]? = some job ∧ q' = { q with running := q.running.eraseIdx i } := by
  unfold next? at h
  have hending : q.ending? place = some (.ends job, q') := by
    split at h
    · split at h
      · exact nomatch h
      · exact h
    · exact h
  obtain ⟨i, job', hjob, hends, hq'⟩ := ending?_eq_some hending
  cases hends
  exact ⟨i, hjob, hq'⟩

/-- Something happens as long as there are jobs. -/
lemma next?_eq_none (h : q.next? workers place = none) : q.running = [] ∧ q.waiting = [] := by
  unfold next? at h
  split at h
  case h_1 first waiting hwaiting =>
    split at h
    case isTrue => exact nomatch h
    case isFalse hfull =>
      have := ending?_eq_none h
      simp [this] at hfull
  case h_2 hwaiting => exact ⟨ending?_eq_none h, hwaiting⟩

/-- **Each job ends once**, however many workers there are and whichever job ends next. -/
theorem completed_perm (workers : Nat) (order : EndingOrder) (ended : Nat) (q : JobQueue) :
    (q.completed workers order ended).Perm (q.running ++ q.waiting) := by
  unfold completed
  fun_induction timeline workers order ended q with
  | case1 ended q h =>
      obtain ⟨hrunning, hwaiting⟩ := next?_eq_none h
      simp [hrunning, hwaiting]
  | case2 ended q job q' h _ ih =>
      obtain ⟨waiting, hwaiting, rfl⟩ := next?_begins h
      rw [List.filterMap_cons_none rfl, hwaiting]
      simpa using ih
  | case3 ended q job q' h _ ih =>
      obtain ⟨i, hjob, rfl⟩ := next?_ends h
      obtain ⟨hlt, rfl⟩ := List.getElem?_eq_some_iff.mp hjob
      have hrunning := (List.getElem_cons_eraseIdx_perm hlt).append_right q.waiting
      exact (ih.cons _).trans hrunning

end JobQueue

namespace Batch

/-! ### Results -/

/-- The facts of a job; one that has failed has none. -/
def factsOf : Except IndexError (List Fact) → List Fact
  | .ok facts => facts
  | .error _ => []

/-- The batch when the jobs that are left have come to these results, in this order. -/
def after (b : Batch) (results : List (Except IndexError (List Fact))) : Batch where
  active := []
  interrupted := false
  sink := b.sink.emitAll (results.flatMap factsOf)
  failed := b.failed + results.countP fun r => !r.isOk

lemma after_nil {b : Batch} (hactive : b.active = []) (hcalm : b.interrupted = false) :
    b.after [] = b := by
  obtain ⟨active, interrupted, sink, failed⟩ := b
  obtain rfl : active = [] := hactive
  obtain rfl : interrupted = false := hcalm
  rfl

/-- The first result is written when its job ends, the others later. -/
lemma after_record (b : Batch) (slot : Nat) (r : Except IndexError (List Fact))
    (results : List (Except IndexError (List Fact))) :
    ((b.remove slot).record r).after results = b.after (r :: results) := by
  cases r with
  | ok facts => simp [after, record, remove, factsOf, LineSink.emitAll, Except.isOk, Except.toBool]
  | error e =>
      simp [after, record, remove, factsOf, Except.isOk, Except.toBool, Nat.add_assoc, Nat.add_comm]

/-- A job that begins writes nothing. -/
lemma after_begin (b : Batch) (slot : Nat) (results : List (Except IndexError (List Fact))) :
    (b.begin slot).after results = b.after results := by
  unfold begin
  split <;> rfl

/-! ### Handles -/

/-- What holds between a batch and its queue while nothing interrupts. -/
structure Follows (b : Batch) (q : JobQueue) : Prop where
  calm : b.interrupted = false
  /-- The handles are those of the running jobs, none aborted. -/
  handles : b.active.Perm (q.running.map fun job => (job.slot, false))
  slots : ((q.running ++ q.waiting).map Job.slot).Nodup

variable {b : Batch} {q : JobQueue} {job : Job}

/-- At first no job runs, and the slots are counted from zero. -/
lemma follows_ofUnits (units : List CompilationUnit) : Follows {} (.ofUnits units) where
  calm := rfl
  handles := .nil
  slots := by
    have hslots : (units.mapIdx Job.mk).map Job.slot = List.range units.length := by
      refine List.ext_getElem (by simp) fun i _ _ => by simp
    simpa [JobQueue.ofUnits, hslots] using List.nodup_range

/-- A slot that no job in a list has is in none of their handles. -/
lemma filter_handles {jobs : List Job} {slot : Nat} (h : slot ∉ jobs.map Job.slot) :
    (jobs.map fun job => (job.slot, false)).filter (fun entry => entry.1 != slot) =
      jobs.map fun job => (job.slot, false) := by
  rw [List.filter_eq_self]
  rintro entry hentry
  obtain ⟨job, hjob, rfl⟩ := List.mem_map.mp hentry
  have hne : job.slot ≠ slot := fun heq => h (heq ▸ List.mem_map_of_mem hjob)
  simpa using hne

/-- A job that begins gets the handle that is missing. -/
lemma Follows.begin {waiting : List Job} (h : Follows b q) (hwaiting : q.waiting = job :: waiting) :
    Follows (b.begin job.slot) ⟨q.running ++ [job], waiting⟩ := by
  have hslots := h.slots
  rw [hwaiting, List.map_append, List.map_cons] at hslots
  have hnew : job.slot ∉ q.running.map Job.slot := fun hmem =>
    List.disjoint_of_nodup_append hslots hmem List.mem_cons_self
  have hactive := h.handles.filter fun entry => entry.1 != job.slot
  rw [filter_handles hnew] at hactive
  rw [Batch.begin, if_neg (by simp [h.calm])]
  refine ⟨h.calm, ?_, by simpa [hwaiting] using h.slots⟩
  rw [List.map_append]
  refine .trans ?_ List.perm_append_comm
  simp only [register, remove, h.calm]
  exact hactive.cons _

/-- A job that ends takes its handle along. -/
lemma Follows.end {i : Nat} (h : Follows b q) (hjob : q.running[i]? = some job)
    (result : Except IndexError (List Fact)) :
    Follows ((b.remove job.slot).record result) { q with running := q.running.eraseIdx i } := by
  obtain ⟨hlt, rfl⟩ := List.getElem?_eq_some_iff.mp hjob
  have hrunning := List.getElem_cons_eraseIdx_perm hlt
  have hslots := (List.nodup_append.mp (List.map_append ▸ h.slots)).1
  have hgone : q.running[i].slot ∉ (q.running.eraseIdx i).map Job.slot :=
    (List.nodup_cons.mp ((hrunning.map Job.slot).nodup_iff.mpr hslots)).1
  have hactive := (h.handles.trans (hrunning.map fun job => (job.slot, false)).symm).filter
    fun entry => entry.1 != q.running[i].slot
  rw [List.map_cons, List.filter_cons_of_neg (by simp), filter_handles hgone] at hactive
  refine ⟨?_, ?_, ?_⟩
  · cases result <;> exact h.calm
  · cases result <;> exact hactive
  · exact h.slots.sublist (((List.eraseIdx_sublist ..).append_right _).map _)

variable {m : Type → Type} [Monad m]

/-- Index a unit by itself, to the end. -/
def alone (ctx : BatchContext m) (u : CompilationUnit) : m (Except IndexError (List Fact)) := do
  let result ← ctx.frontEnd.index ctx.options .never u
  return (result.map (·.facts)).mapError .parse

/-- A running job has been indexed like a unit by itself. -/
lemma Follows.work_eq (h : Follows b q) (hjob : job ∈ q.running) (ctx : BatchContext m) :
    work ctx job b = alone ctx job.unit := by
  have hmem : (job.slot, false) ∈ b.active := h.handles.mem_iff.mpr (List.mem_map_of_mem hjob)
  have hlookup : b.active.lookup job.slot = some false := by
    cases hentry : b.active.lookup job.slot with
    | none => simpa using List.lookup_eq_none_iff.mp hentry _ hmem
    | some aborted =>
        obtain ⟨before, behind, hactive, -⟩ := List.lookup_eq_some_iff.mp hentry
        have hentry : (job.slot, aborted) ∈ b.active := hactive ▸ by simp
        obtain ⟨_, -, heq⟩ := List.mem_map.mp (h.handles.mem_iff.mp hentry)
        rw [(Prod.mk.inj heq).2]
  simp [work, hlookup, alone, report]

variable [LawfulMonad m]

/-- From a batch that follows its queue, all that is still to happen comes to indexing the units one
by one, in the order in which their jobs end. -/
theorem foldlM_timeline (ctx : BatchContext m) (workers : Nat) (order : EndingOrder) (ended : Nat)
    (h : Follows b q) :
    (q.timeline workers order ended).foldlM (step ctx) b =
      b.after <$> (q.completed workers order ended).mapM fun job => alone ctx job.unit := by
  unfold JobQueue.completed
  fun_induction JobQueue.timeline workers order ended q generalizing b with
  | case1 ended q hnext =>
      obtain ⟨hrunning, hwaiting⟩ := JobQueue.next?_eq_none hnext
      have hactive : b.active = [] := List.perm_nil.mp (by simpa [hrunning] using h.handles)
      -- nothing is running any more, so no handle is left
      rw [List.filterMap_nil, List.mapM_nil, map_pure, after_nil hactive h.calm]
      rfl
  | case2 ended q job q' hnext _ ih =>
      obtain ⟨waiting, hwaiting, rfl⟩ := JobQueue.next?_begins hnext
      -- a beginning changes nothing but the handles
      rw [List.filterMap_cons_none rfl, List.foldlM_cons, step, pure_bind, ih (h.begin hwaiting)]
      exact congrArg (· <$> _) (funext fun results => after_begin b job.slot results)
  | case3 ended q job q' hnext _ ih =>
      obtain ⟨i, hjob, rfl⟩ := JobQueue.next?_ends hnext
      -- an ending is the work of the job, done as by itself, and then the rest
      rw [List.filterMap_cons_some (f := JobEvent.ended?) rfl, List.foldlM_cons, List.mapM_cons,
        step, h.work_eq (List.mem_of_getElem? hjob)]
      simp only [bind_assoc, pure_bind, map_eq_pure_bind]
      refine bind_congr fun result => ?_
      rw [ih (h.end hjob result)]
      simp only [map_eq_pure_bind, after_record]

/-- The units of a batch in the order in which their jobs end. -/
def endings (workers : Nat) (order : EndingOrder) (units : List CompilationUnit) :
    List CompilationUnit :=
  ((JobQueue.ofUnits units).completed workers order 0).map (·.unit)

/-- Each unit comes to an end once. -/
lemma endings_perm (workers : Nat) (order : EndingOrder) (units : List CompilationUnit) :
    (endings workers order units).Perm units := by
  have hunits : (units.mapIdx Job.mk).map (·.unit) = units :=
    List.ext_getElem (by simp) fun i _ _ => by simp
  have hperm := ((JobQueue.ofUnits units).completed_perm workers order 0).map (·.unit)
  rwa [JobQueue.ofUnits, List.nil_append, hunits] at hperm

/-- The lines that the result of a job adds to the output. -/
def linesOf : Except IndexError (List Fact) → List (List UInt8)
  | .ok facts => facts.map Fact.lineBytes
  | .error _ => []

/-- The batch whose jobs have come to these results, in this order: no handle is left, and the lines
of the results stand one behind the other. -/
def ofResults (results : List (Except IndexError (List Fact))) : Batch where
  active := []
  interrupted := false
  sink := {
    bytes := (results.flatMap linesOf).flatten.toArray
    written := (results.flatMap linesOf).length }
  failed := results.countP fun r => !r.isOk

lemma after_empty (results : List (Except IndexError (List Fact))) :
    ({} : Batch).after results = ofResults results := by
  have hlines : results.flatMap linesOf = (results.flatMap factsOf).map Fact.lineBytes := by
    rw [List.map_flatMap]
    refine congrArg (results.flatMap ·) (funext fun r => ?_)
    cases r <;> rfl
  rw [after, ofResults, hlines, LineSink.emitAll_unlimited rfl rfl, List.flatMap_def]
  simp

/-- A run succeeds if none of its units has failed, in whatever order they end. -/
lemma failed_ofResults {results ordered : List (Except IndexError (List Fact))}
    (h : ordered.Perm results) :
    decide ((ofResults ordered).failed = 0) = results.all (·.isOk) := by
  have hfailed : (ofResults ordered).failed = results.countP fun r => !r.isOk := h.countP_eq _
  rw [Bool.eq_iff_iff, decide_eq_true_iff, hfailed, List.countP_eq_zero, List.all_eq_true]
  simp

/-- **A run is its units, one by one**: each is indexed by itself, in the order in which the jobs
end, and no handle is left. -/
theorem run_eq (ctx : BatchContext m) (workers : Nat) (order : EndingOrder)
    (units : List CompilationUnit) :
    run ctx workers order units =
      ofResults <$> (endings workers order units).mapM (alone ctx) := by
  rw [run, foldlM_timeline ctx workers order 0 (follows_ofUnits units), endings, List.mapM_map]
  exact congrArg (· <$> _) (funext after_empty)

end Batch

/-! ### Runs -/

section Returns

variable {m : Type → Type} [Monad m] {α β : Type}

/-- `x` returns `a`, whatever it does besides. -/
def Returns (x : m α) (a : α) : Prop :=
  x = do
    let _ ← x
    return a

variable [LawfulMonad m] {x : m α} {a : α}

/-- What comes next may as well be told the value beforehand. -/
lemma Returns.bind_eq (h : Returns x a) (f : α → m β) : x >>= f = x >>= fun _ => f a := by
  conv_lhs => rw [h]
  simp only [bind_assoc, pure_bind]

lemma returns_mapM {f : α → m β} {g : α → β} {as : List α} (h : ∀ a ∈ as, Returns (f a) (g a)) :
    Returns (as.mapM f) (as.map g) := by
  induction as with
  | nil => simp [Returns]
  | cons a as ih =>
      obtain ⟨ha, has⟩ := List.forall_mem_cons.mp h
      simp only [Returns, List.mapM_cons, List.map_cons, bind_assoc, pure_bind]
      rw [ha.bind_eq]
      refine bind_congr fun _ => ?_
      rw [(ih has).bind_eq]

end Returns

namespace CommandLine

variable {m : Type → Type} [Monad m]

/-- What stays the same while a run indexes its units. -/
def batchContext (around : Surroundings m) (s : Settings) : BatchContext m :=
  ⟨⟨s.compiler.frontEnd, around.host⟩, s.indexing.walkOptions⟩

section Fixed

variable [LawfulMonad m] {around : Surroundings m} {s : Settings} {units : List CompilationUnit}
  {results : CompilationUnit → Except IndexError (List Fact)}

/-- Where each unit has a result of its own, a run comes to these, in the order in which its jobs
end. -/
lemma indexUnits_eq
    (hresults : ∀ u ∈ units, Returns (Batch.alone (batchContext around s) u) (results u)) :
    indexUnits around s units = (do
      let _ ← (Batch.endings (s.workersOn around.processors) around.order units).mapM
        (Batch.alone (batchContext around s))
      return (units.all fun u => (results u).isOk,
        ((Batch.endings (s.workersOn around.processors) around.order units).flatMap fun u =>
          Batch.linesOf (results u)).flatten)) := by
  have hperm := Batch.endings_perm (s.workersOn around.processors) around.order units
  have hended := returns_mapM fun u hu => hresults u (hperm.mem_iff.mp hu)
  have hrun := Batch.run_eq (batchContext around s) (s.workersOn around.processors) around.order
    units
  rw [batchContext] at hrun hended
  rw [indexUnits, hrun, bind_map_left, hended.bind_eq]
  refine bind_congr fun _ => congrArg pure (Prod.ext ?_ ?_)
  · have hfailed := Batch.failed_ofResults (hperm.map results)
    rwa [List.all_map] at hfailed
  · simp only [Batch.ofResults, List.flatMap_map]

end Fixed

/-- **Runs under any schedule**: whatever the number of workers and whichever running job ends next,
the units are indexed one by one, each once, and when all is done no handle is left. Where each unit
has a result of its own, the output is the lines of those that could be indexed, in the order in
which their jobs end, the lines of each unit in one piece; other units add nothing and make the run
fail. So the lines of two runs differ in their order at most. -/
theorem writeFacts_schedule [LawfulMonad m] (around : Surroundings m) (s : Settings)
    (units : List CompilationUnit) :
    let ctx := batchContext around s
    let workers := s.workersOn around.processors
    let ended := Batch.endings workers around.order units
    ended.Perm units ∧
      Batch.run ctx workers around.order units =
        Batch.ofResults <$> ended.mapM (Batch.alone ctx) ∧
      ∀ results : CompilationUnit → Except IndexError (List Fact),
        (∀ u ∈ units, Returns (Batch.alone ctx u) (results u)) →
        let lines := ended.flatMap fun u => Batch.linesOf (results u)
        let succeeded := units.all fun u => (results u).isOk
        lines.Perm (units.flatMap fun u => Batch.linesOf (results u)) ∧
          writeFacts around none s units = (do
            let _ ← ended.mapM (Batch.alone ctx)
            return .ok { succeeded := succeeded, printed := some lines.flatten }) ∧
          ∀ file, Returns (around.host.create file) (.ok ()) →
            Returns (around.host.overwrite file lines.flatten) (.ok ()) →
            writeFacts around (some file) s units = (do
              let _ ← around.host.create file
              let _ ← ended.mapM (Batch.alone ctx)
              let _ ← around.host.overwrite file lines.flatten
              return .ok { succeeded := succeeded }) := by
  intro ctx workers ended
  have hperm := Batch.endings_perm workers around.order units
  refine ⟨hperm, Batch.run_eq ctx workers around.order units, ?_⟩
  intro results hresults lines succeeded
  -- only here the results are fixed: what was shown before holds for any host
  have hindexed := indexUnits_eq hresults
  refine ⟨hperm.flatMap_right _, ?_, fun file hcreate hwrite => ?_⟩
  · simp only [writeFacts, hindexed, bind_assoc, pure_bind]
    rfl
  · simp only [writeFacts, hindexed, bind_assoc, pure_bind]
    -- the file is emptied first and filled last
    rw [hcreate.bind_eq]
    dsimp only
    exact bind_congr fun _ => bind_congr fun _ => hwrite.bind_eq _

end CommandLine

/-! ### A unit that is there and one that is not -/

lemma Text.Utf8.decode_ascii {cs : List Char} (h : cs.all (·.toNat < 128) = true) :
    decode (cs.map fun c => UInt8.ofNat c.toNat) = cs := by
  induction cs with
  | nil => rw [List.map_nil, decode]
  | cons c cs ih =>
      rw [List.all_cons, Bool.and_eq_true, decide_eq_true_iff] at h
      have hbyte : (UInt8.ofNat c.toNat).toNat = c.toNat :=
        UInt8.toNat_ofNat_of_lt' (h.1.trans (by decide))
      rw [List.map_cons, decode, hbyte, lead?, if_pos h.1]
      simp [continue?, ih h.2]

/-- A unit whose source is there is what the front-end has printed for it. -/
lemma FrontEnd.parse_of_launch {f : FrontEnd Id} {u : CompilationUnit} {e : Ended}
    (hfile : FileTree.isFile f.host.files u.source = true)
    (hlaunch : f.host.launch (launchOf (.ofUnit u f.program) u) = Except.ok e) :
    f.parse u = outcome f.host.files u e := by
  have hfound : (u.unsaved.isNone && !FileTree.isFile f.host.files u.source) = false := by
    rw [hfile, Bool.not_true, Bool.and_false]
  show (if _ then _ else _) = _
  rw [hfound, if_neg Bool.false_ne_true]
  show (match f.host.launch (launchOf (.ofUnit u f.program) u) with
    | .error _ => _
    | .ok e => _) = _
  rw [hlaunch]
  rfl

namespace OneVariable

/-- The tree of the file of a variable. -/
def root : Node :=
  let place : BareLocation := { offset := 4, file := "/v.c", line := 1, col := 5, tokLen := 1 }
  ⟨⟨0⟩, .decl .var { name := some "v", loc := some ⟨some place, some place⟩ }, []⟩

/-- A part of its dump. -/
def dumpedName : String := "\x7b\"kind\":\"VarDecl\",\"name\":\"v\",\"loc\":"

/-- The rest of its dump. -/
def dumpedPlace : String :=
  "\x7b\"offset\":4,\"file\":\"/v.c\",\"line\":1,\"col\":5,\"tokLen\":1\x7d\x7d"

/-- Its dump. -/
def dump : List Char := dumpedName.toList ++ dumpedPlace.toList

/-- The file. -/
def files : FileTree := { entries := [(["v.c"], .file ⟨"", false⟩)] }

/-- A front-end that prints the dump whatever it is asked. -/
def ended : Ended := ⟨.code 0, dump.map fun c => UInt8.ofNat c.toNat, [], none⟩

/-- Surroundings that do not change, with two workers, the job that began last ending first. -/
def surroundings : CommandLine.Surroundings Id where
  host := {
    launcher := fun _ => .ok ended
    files := files
    create := fun _ => .ok ()
    overwrite := fun _ _ => .ok () }
  processors := 2
  order := fun _ => 1

/-- The unit of the file. -/
def present : CompilationUnit := ⟨⟨"/v.c"⟩, ⟨"/"⟩, [], none⟩

/-- A unit without a file. -/
def missing : CompilationUnit := ⟨⟨"/none.c"⟩, ⟨"/"⟩, [], none⟩

/-- What is reported of the variable. -/
def fact : Fact := .symbol {
  qualifiedName := "v", kind := .var, location := ⟨"/v.c", 1, 5, 4⟩, isDefinition := true }

/-- The file names of the unit. -/
def names : FileNames := .ofPrimary present.source present.workingDirectory files.realPath?

/-- The dump is read as the tree that it was made for. -/
lemma read_dump : Dump.read (String.ofList dump) = .ok root := by
  have hname : dumpedName.toList = _ := String.toList_ofList
  have hplace : dumpedPlace.toList = _ := String.toList_ofList
  have hread : (Dump.read (String.ofList dump)).toOption.map
      (fun n => (n.id, n.content, n.inner.length)) = some (root.id, root.content, 0) := by
    rw [Dump.read, String.toList_ofList, dump, hname, hplace]
    decide +kernel
  cases hdump : Dump.read (String.ofList dump) with
  | error fault => simp [hdump, Except.toOption] at hread
  | ok n =>
      obtain ⟨id, content, inner⟩ := n
      simp only [hdump, Except.toOption, Option.map_some, Option.some.injEq, Prod.mk.injEq,
        List.length_eq_zero_iff] at hread
      obtain ⟨rfl, rfl, rfl⟩ := hread
      rfl

lemma facts_root : (Walk.run (.ofRoot root names) {} .never false).facts = [fact] := by cbv

/-- The front-end's run comes to that tree, without diagnostics. -/
lemma outcome_present :
    FrontEnd.outcome files present ended = .ok ⟨.ofRoot root names, []⟩ := by
  have hname : dumpedName.toList = _ := String.toList_ofList
  have hplace : dumpedPlace.toList = _ := String.toList_ofList
  -- the dump is kept in two parts, each short enough to be evaluated
  have hascii : dump.all (·.toNat < 128) = true := by
    rw [dump, hname, hplace]
    decide +kernel
  have hstart : (Text.trimStart dump).head? = some '\x7b' := by
    rw [dump, hname]
    rfl
  have hdump : Text.Utf8.decode ended.output = dump := Text.Utf8.decode_ascii hascii
  have hunit : ParsedUnit.ofDump (String.ofList dump) names = .ok (.ofRoot root names) := by
    rw [ParsedUnit.ofDump, read_dump]
    rfl
  have hmessages : Diagnostic.ofOutput (some present.source.text)
      (Text.Utf8.decoded ended.messages) = [] := by cbv
  have hquiet : Diagnostic.firstFatal? [] = none := rfl
  show FrontEnd.outcome.read files present ended = _
  rw [FrontEnd.outcome.read]
  rw [names] at hunit
  simp only [hmessages, hquiet, hdump, hstart, hunit, ne_eq, not_true_eq_false, if_false]
  rfl

/-- The context of a run with plain settings. -/
def context : BatchContext Id := CommandLine.batchContext surroundings {}

lemma alone_present : Batch.alone context present = Except.ok [fact] := by
  have hfile : files.isFile present.source = true := by cbv
  have hwords : (FrontEnd.launchOf (.ofUnit present "clang") present).words.any
      (·.contains '\x00') = false := by cbv
  have hlaunch : surroundings.host.launch (FrontEnd.launchOf (.ofUnit present "clang") present) =
      Except.ok ended := by
    rw [Host.launch, hwords]
    rfl
  have hparse := (FrontEnd.parse_of_launch (f := context.frontEnd) (u := present) hfile
    hlaunch).trans outcome_present
  show Except.mapError _ (Except.map _ (Except.map _ (context.frontEnd.parse present))) = _
  rw [hparse]
  exact congrArg Except.ok facts_root

lemma alone_missing :
    Batch.alone context missing = Except.error (.parse (.noSource missing.source)) := by cbv

end OneVariable

open OneVariable in
theorem CommandLine.writeFacts_missing_present :
    writeFacts surroundings none {} [missing, present] =
      Except.ok { succeeded := false, printed := some fact.lineBytes } := by
  obtain ⟨-, -, hfixed⟩ := writeFacts_schedule surroundings {} [missing, present]
  obtain ⟨hlines, hprinted, -⟩ := hfixed (Batch.alone context) fun _ _ => rfl
  have hunits : [missing, present].flatMap (fun u => Batch.linesOf (Batch.alone context u)) =
      [fact.lineBytes] := by
    rw [List.flatMap_cons, List.flatMap_cons, List.flatMap_nil, alone_missing, alone_present]
    rfl
  rw [hunits, List.perm_singleton] at hlines
  have hsucceeded : [missing, present].all (fun u => (Batch.alone context u).isOk) = false := by
    rw [List.all_cons, alone_missing]
    rfl
  rw [hlines, hsucceeded, List.flatten_singleton] at hprinted
  exact hprinted

end UnitIndex
