import Mathlib
import UnitIndex.Proofs.Walk.Action

/-!
Cancelling a walk.

A walk that is cancelled is compared with the walk of the same unit that never is. Until a question
is answered by yes the two do the same (`Action.cut`); from then on the cancelled one delivers
nothing (`Action.quiet`), while the other only adds to what it has delivered (`Action.delivers`).
`InStep` is what every state of a walk satisfies: the counters count the facts delivered, and no
fact has followed a question that was answered by yes. `run_cancelled` puts these together:
cancelling only cuts the facts of a walk off at some point.
-/

namespace UnitIndex.Walk

variable {α : Type} {entering : Bool} {x : WalkM α}

/-- A fact is delivered unless the question in front of it is answered by yes. -/
lemma exec_emit (fact : Fact) (ctx : WalkContext) (s : WalkState) :
    exec (emit fact) ctx s =
      if ctx.cancelled s.polls.size s.facts.size then
        ((), { s with polls := s.polls.push s.facts.size })
      else ((), { s with
        polls := s.polls.push s.facts.size
        facts := s.facts.push fact
        stats :=
          if fact.isSymbol then { s.stats with symbols := s.stats.symbols + 1 }
          else { s.stats with references := s.stats.references + 1 } }) := by
  rw [emit, exec_bind, exec_isCancelled]
  dsimp only
  split <;> rfl

/-! ### Facts only grow -/

/-- Whatever is delivered is delivered behind what has been. -/
lemma Action.delivers (h : Action entering x) (ctx : WalkContext) (s : WalkState) :
    s.facts.toList <+: (exec x ctx s).2.facts.toList := by
  induction h generalizing s with
  | pure a => exact List.prefix_rfl
  | bind _ _ ihx ihf => exact (ihx s).trans (ihf _ _)
  | read _ _ ih => exact ih ctx s
  | get _ _ ih => exact ih s s
  | ask => exact List.prefix_rfl
  | emit fact =>
      rw [exec_emit]
      split
      · exact List.prefix_rfl
      · simp
  | resolve type => exact List.prefix_rfl
  | enter id content _ => exact List.prefix_rfl

/-! ### Once cancelled, quiet -/

/-- Whether the next question would be answered by yes. -/
def Flagged (cancelled : CancelSchedule) (s : WalkState) : Prop :=
  cancelled s.polls.size s.facts.size = true

/-- A cancelled walk stays cancelled when it asks again. -/
lemma Flagged.ask {c : CancelSchedule} (hc : c.Monotone) {s : WalkState} (hs : Flagged c s) :
    Flagged c { s with polls := s.polls.push s.facts.size } := by
  refine hc ?_ le_rfl hs
  simp

/-- Behind a question that would be answered by yes nothing is delivered any more. -/
lemma Action.quiet (h : Action entering x) (ctx : WalkContext) (hc : ctx.cancelled.Monotone)
    {s : WalkState} (hs : Flagged ctx.cancelled s) :
    (exec x ctx s).2.facts = s.facts ∧ Flagged ctx.cancelled (exec x ctx s).2 := by
  induction h generalizing s with
  | pure a => exact ⟨rfl, hs⟩
  | bind _ _ ihx ihf =>
      obtain ⟨hfacts, hx⟩ := ihx hs
      obtain ⟨hfacts', hf⟩ := ihf _ hx
      exact ⟨hfacts'.trans hfacts, hf⟩
  | read _ _ ih => exact ih ctx hs
  | get _ _ ih => exact ih s hs
  | ask => exact ⟨rfl, hs.ask hc⟩
  | emit fact =>
      have hask := hs.ask hc
      rw [Flagged] at hs
      -- the fact is held back, for the schedule goes on saying yes
      rw [exec_emit, if_pos hs]
      exact ⟨rfl, hask⟩
  | resolve type => exact ⟨rfl, hs⟩
  | enter id content _ => exact ⟨rfl, hs⟩

/-! ### Two walks -/

/-- From one state, the walk that may be cancelled either does just what the other one does, or it
has been told that it is cancelled and has delivered less. -/
lemma Action.cut (h : Action entering x) (unit : ParsedUnit) (options : WalkOptions)
    {c : CancelSchedule} (hc : c.Monotone) (s : WalkState) :
    exec x ⟨unit, options, c⟩ s = exec x ⟨unit, options, .never⟩ s ∨
      Flagged c (exec x ⟨unit, options, c⟩ s).2 ∧
        (exec x ⟨unit, options, c⟩ s).2.facts.toList <+:
          (exec x ⟨unit, options, .never⟩ s).2.facts.toList := by
  induction h generalizing s with
  | pure a => exact Or.inl rfl
  | bind _ hf ihx ihf =>
      rw [exec_bind, exec_bind]
      rcases ihx s with heq | ⟨hflag, hpre⟩
      · rw [heq]
        exact ihf _ _
      · right
        -- cancelled in the first step: the second delivers nothing, and in the other walk only more
        obtain ⟨hfacts, hflag'⟩ := (hf _).quiet ⟨unit, options, c⟩ hc hflag
        refine ⟨hflag', ?_⟩
        rw [hfacts]
        exact hpre.trans ((hf _).delivers _ _)
  | @read _ f _ hindep ih =>
      -- no action looks at the schedule but to ask
      have heq : f ⟨unit, options, c⟩ = f ⟨unit, options, .never⟩ :=
        hindep ⟨unit, options, .never⟩ c unit.root
      rw [exec_bind, exec_bind, exec_read, exec_read, heq]
      exact ih _ s
  | get _ _ ih => exact ih s s
  | ask =>
      by_cases hflag : c s.polls.size s.facts.size = true
      · exact Or.inr ⟨Flagged.ask hc hflag, List.prefix_rfl⟩
      · left
        rw [exec_isCancelled, exec_isCancelled]
        simp [CancelSchedule.never, hflag]
  | emit fact =>
      rw [exec_emit, exec_emit]
      by_cases hflag : c s.polls.size s.facts.size = true
      · right
        simp only [hflag, if_true, CancelSchedule.never, Bool.false_eq_true, if_false]
        exact ⟨Flagged.ask hc hflag, by simp⟩
      · left
        simp [CancelSchedule.never, hflag]
  | resolve type => exact Or.inl rfl
  | enter id content _ => exact Or.inl rfl

/-! ### Counting and asking -/

/-- What holds in every state of a walk: the counters count the facts that have been delivered,
and behind a question that was answered by yes no fact has been. -/
structure InStep (cancelled : CancelSchedule) (s : WalkState) : Prop where
  symbols : s.stats.symbols = s.facts.toList.countP Fact.isSymbol
  references : s.stats.references = s.facts.toList.countP fun fact => !fact.isSymbol
  polls_le : ∀ {p m : Nat}, s.polls[p]? = some m → m ≤ s.facts.size
  heeded : ∀ {p m : Nat}, s.polls[p]? = some m → cancelled p m = true → s.facts.size = m

namespace InStep

variable {c : CancelSchedule} {s : WalkState}

/-- A question changes no counter, and no fact follows it yet. -/
lemma ask (h : InStep c s) : InStep c { s with polls := s.polls.push s.facts.size } where
  symbols := h.symbols
  references := h.references
  polls_le := by
    intro p m hp
    rw [Array.getElem?_push] at hp
    split at hp
    · exact (Option.some.inj hp).ge
    · exact h.polls_le hp
  heeded := by
    intro p m hp hyes
    rw [Array.getElem?_push] at hp
    split at hp
    · exact Option.some.inj hp
    · exact h.heeded hp hyes

/-- A fact may be delivered behind a question that was answered by no: so were all before it. -/
lemma deliver (h : InStep c s) (hc : c.Monotone) (hno : ¬Flagged c s) (fact : Fact) :
    InStep c { s with
      polls := s.polls.push s.facts.size
      facts := s.facts.push fact
      stats :=
        if fact.isSymbol then { s.stats with symbols := s.stats.symbols + 1 }
        else { s.stats with references := s.stats.references + 1 } } where
  symbols := by
    cases hf : fact.isSymbol <;> simp [hf, h.symbols]
  references := by
    cases hf : fact.isSymbol <;> simp [hf, h.references]
  polls_le := by
    intro p m hp
    have hle := h.ask.polls_le hp
    rw [Array.size_push]
    exact hle.trans (Nat.le_succ _)
  heeded := by
    intro p m hp hyes
    have hle := h.ask.polls_le hp
    obtain ⟨hlt, -⟩ := Array.getElem?_eq_some_iff.mp hp
    rw [Array.size_push] at hlt
    exact absurd (hc (Nat.le_of_lt_succ hlt) hle hyes) hno

end InStep

/-- Every action keeps the state in step. -/
lemma Action.inStep (h : Action entering x) (ctx : WalkContext) (hc : ctx.cancelled.Monotone)
    {s : WalkState} (hs : InStep ctx.cancelled s) : InStep ctx.cancelled (exec x ctx s).2 := by
  induction h generalizing s with
  | pure a => exact hs
  | bind _ _ ihx ihf => exact ihf _ (ihx hs)
  | read _ _ ih => exact ih ctx hs
  | get _ _ ih => exact ih s hs
  | ask => exact hs.ask
  | emit fact =>
      rw [exec_emit]
      split
      · exact hs.ask
      · next hno => exact hs.deliver hc hno fact
  | resolve type => exact ⟨hs.symbols, hs.references, hs.polls_le, hs.heeded⟩
  | enter id content _ => exact ⟨hs.symbols, hs.references, hs.polls_le, hs.heeded⟩

/-! ### Whole walks -/

/-- The last state is that behind the visit of the root. -/
lemma finalState_eq_exec (unit : ParsedUnit) (options : WalkOptions) (c : CancelSchedule)
    (watched : Bool) :
    finalState unit options c watched =
      (exec (visit .decl unit.root) ⟨unit, options, c⟩ (start unit watched)).2 := rfl

/-- Before the walk nothing has been asked or delivered. -/
lemma inStep_start (unit : ParsedUnit) (c : CancelSchedule) (watched : Bool) :
    InStep c (start unit watched) where
  symbols := rfl
  references := rfl
  polls_le := by
    intro p m hp
    exact absurd hp (by simp [start])
  heeded := by
    intro p m hp
    exact absurd hp (by simp [start])

/-- The last state is in step. -/
lemma inStep_finalState (unit : ParsedUnit) (options : WalkOptions) {c : CancelSchedule}
    (hc : c.Monotone) (watched : Bool) : InStep c (finalState unit options c watched) := by
  rw [finalState_eq_exec]
  exact (Action.visit .decl unit.root).inStep ⟨unit, options, c⟩ hc
    (inStep_start unit c watched)

/-- A walk that has not been told to stop before its end has done what it would have done anyway. -/
lemma finalState_eq_of_not_aborted (unit : ParsedUnit) (options : WalkOptions) {c : CancelSchedule}
    (hc : c.Monotone) (watched : Bool)
    (hend : (run unit options c watched).stats.aborted = false) :
    finalState unit options c watched = finalState unit options .never watched := by
  rw [finalState_eq_exec, finalState_eq_exec]
  rcases (Action.visit .decl unit.root).cut unit options hc
    (start unit watched) with heq | ⟨hflag, -⟩
  · rw [heq]
  · have hno : ¬Flagged c (finalState unit options c watched) := by
      rw [Flagged]
      exact Bool.not_eq_true _ ▸ hend
    exact absurd hflag hno

/-- What a cancelled walk has delivered it would have delivered first anyway. -/
lemma facts_run_of_monotone (unit : ParsedUnit) (options : WalkOptions) {c : CancelSchedule}
    (hc : c.Monotone) (watched : Bool) :
    (run unit options c watched).facts <+: (run unit options .never watched).facts := by
  show (finalState unit options c watched).facts.toList <+:
    (finalState unit options .never watched).facts.toList
  rw [finalState_eq_exec, finalState_eq_exec]
  rcases (Action.visit .decl unit.root).cut unit options hc
    (start unit watched) with heq | ⟨-, hpre⟩
  · rw [heq]
  · exact hpre

/-- **Cancelling only cuts a walk short.** Whenever a walk is cancelled, the facts that it delivers
are the first ones of those that it delivers undisturbed. None is delivered behind a question that
was answered by yes. The counters count what has been delivered. A walk that does not end as
cancelled has delivered everything. -/
theorem run_cancelled (unit : ParsedUnit) (options : WalkOptions) {c : CancelSchedule}
    (hc : c.Monotone) (watched : Bool) :
    (run unit options c watched).facts <+: (run unit options .never watched).facts ∧
      (∀ p m, (finalState unit options c watched).polls[p]? = some m → c p m = true →
        (run unit options c watched).facts.length = m) ∧
      (run unit options c watched).stats.symbols =
        (run unit options c watched).facts.countP Fact.isSymbol ∧
      (run unit options c watched).stats.references =
        (run unit options c watched).facts.countP (fun fact => !fact.isSymbol) ∧
      ((run unit options c watched).stats.aborted = false →
        (run unit options c watched).facts = (run unit options .never watched).facts) := by
  have hstep := inStep_finalState unit options hc watched
  refine ⟨facts_run_of_monotone unit options hc watched, ?_, hstep.symbols, hstep.references, ?_⟩
  · intro p m hp hyes
    exact hstep.heeded hp hyes
  · intro hend
    show (finalState unit options c watched).facts.toList = _
    rw [finalState_eq_of_not_aborted unit options hc watched hend]
    rfl

/-- A unit with two variables. -/
def twoVariables : ParsedUnit :=
  let place (line : UInt64) : SourceLocation :=
    ⟨some ⟨0, "", line, 1, 1, none, none, none, false⟩, none⟩
  let var (name : String) (line : UInt64) : Content :=
    .decl .var { name := some name, loc := some (place line) }
  .ofRoot ⟨⟨1⟩, .decl .translationUnit {}, [⟨⟨2⟩, var "a" 1, []⟩, ⟨⟨3⟩, var "b" 2, []⟩]⟩
    ⟨"/m.cpp", ⟨"/"⟩, fun _ => none⟩

/-- A walk that is cancelled by its first fact has delivered that one and leaves the other out. -/
theorem run_cancelled_afterFacts :
    (run twoVariables {} (.afterFacts 1) false).facts <+: (run twoVariables {} .never false).facts ∧
      (run twoVariables {} (.afterFacts 1) false).facts.length = 1 ∧
      (run twoVariables {} .never false).facts.length = 2 := by
  have hcut := run_cancelled twoVariables {} (CancelSchedule.monotone_afterFacts 1) false
  refine ⟨hcut.1, ?_, ?_⟩
  · cbv
  · cbv

end UnitIndex.Walk
