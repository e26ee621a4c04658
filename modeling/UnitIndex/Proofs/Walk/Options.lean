import Mathlib.Tactic
import UnitIndex.Proofs.Decl.Described
import UnitIndex.Proofs.Walk.Thinning

/-!
What the options of a walk change.

Two walks over one unit with different options make the same stops, and at each of them they deliver
the same but for types and local declarations. `deliveries` lists the facts of a whole walk, each
with the node at which it is delivered; by these nodes `run_options` tells which facts a walk leaves
out if it does not report local declarations.
-/

namespace UnitIndex.Walk

section

variable {unit : ParsedUnit} {options options' : WalkOptions} {n : Node}

/-- The facts that a walk delivers unless it is cancelled, each with the node at which it does. -/
def deliveries (unit : ParsedUnit) (options : WalkOptions) (watched : Bool) : List (Node × Fact) :=
  (stops unit options watched).flatMap fun a =>
    (a.delivered ⟨unit, options, .never⟩).map fun f => (a.node, f)

/-- The facts of the deliveries are those delivered at the stops. -/
lemma map_deliveries (unit : ParsedUnit) (options : WalkOptions) (watched : Bool) :
    (deliveries unit options watched).map Prod.snd =
      (stops unit options watched).flatMap (Stop.delivered ⟨unit, options, .never⟩) := by
  rw [deliveries, List.map_flatMap]
  refine List.flatMap_congr fun a _ => ?_
  rw [List.map_map]
  exact List.map_id _

/-- At stops that go together, what is delivered differs in local declarations and in types. -/
lemma untyped_delivered (hon : options.indexLocals = true) {a b : Stop}
    (hab : a.Paired Eq Same b) :
    untyped (b.delivered ⟨unit, options', .never⟩) =
        untyped (thinned unit.decls options'.indexLocals a.node
          (a.delivered ⟨unit, options, .never⟩)) ∧
      ∀ f ∈ b.delivered ⟨unit, options', .never⟩, Told unit.decls b.node f := by
  obtain ⟨facts, htold, ⟨new, hnew, rfl⟩, ⟨new', hnew', hthinned⟩⟩ :=
    @thins_arrive unit options options' a.state b.state a.node hon hab.state a.role
  rw [hab.role, hab.node] at hnew'
  have hdelivered : a.delivered ⟨unit, options, .never⟩ = new := Stop.delivered_eq hnew
  have hdelivered' : b.delivered ⟨unit, options', .never⟩ = new' := Stop.delivered_eq hnew'
  rw [hdelivered, hdelivered', untyped_thinned, hthinned, ← hab.node]
  refine ⟨rfl, fun f hf => told_of_untyped (fun g hg => ?_) hf⟩
  rw [hthinned] at hg
  exact htold g (List.mem_of_mem_filter hg)

/-- Every fact tells about the node at which it is delivered. -/
lemma told_of_mem_deliveries {watched : Bool} {p : Node × Fact}
    (hp : p ∈ deliveries unit options watched) : Told unit.decls p.1 p.2 := by
  obtain ⟨a, -, hp⟩ := List.mem_flatMap.mp hp
  obtain ⟨f, hf, rfl⟩ := List.mem_map.mp hp
  have hpaired : a.Paired Eq Same a := ⟨rfl, rfl, .refl a.state⟩
  have hon : { options with indexLocals := true }.indexLocals = true := rfl
  exact (untyped_delivered hon hpaired).2 f hf

/-- What a walk delivers, by what is delivered if local declarations are reported. -/
lemma untyped_deliveries (hon : options.indexLocals = true) (options' : WalkOptions)
    (watched : Bool) :
    untyped ((deliveries unit options' watched).map Prod.snd) =
      untyped (((deliveries unit options watched).filter fun p =>
        options'.indexLocals || !aboutLocal unit.decls p.1 p.2).map Prod.snd) := by
  have hpaired : List.Forall₂ (Stop.Paired Eq Same) (stops unit options watched)
      (stops unit options' watched) :=
    (simulates_options unit options options').log ⟨rfl, rfl, .refl _⟩
  rw [map_deliveries, deliveries]
  generalize stops unit options watched = as, stops unit options' watched = bs at hpaired
  induction hpaired with
  | nil => rfl
  | @cons a b _ _ hab _ ih =>
      -- at one stop the filter looks at the node of the stop alone
      have htagged : (((a.delivered ⟨unit, options, .never⟩).map fun f => (a.node, f)).filter
          fun p => options'.indexLocals || !aboutLocal unit.decls p.1 p.2).map Prod.snd =
          thinned unit.decls options'.indexLocals a.node
            (a.delivered ⟨unit, options, .never⟩) := by
        rw [List.filter_map, List.map_map]
        exact List.map_id _
      rw [List.flatMap_cons, List.flatMap_cons, List.filter_append, List.map_append, htagged]
      rw [untyped, untyped, List.filterMap_append, List.filterMap_append]
      exact congrArg₂ (· ++ ·) (untyped_delivered hon hab).1 ih

/-- Walks that do the same about local declarations differ in types only. -/
lemma untyped_deliveries_eq (h : options.indexLocals = options'.indexLocals) (watched : Bool) :
    untyped ((deliveries unit options' watched).map Prod.snd) =
      untyped ((deliveries unit options watched).map Prod.snd) := by
  have hon : { options with indexLocals := true }.indexLocals = true := rfl
  rw [untyped_deliveries hon options' watched, untyped_deliveries hon options watched, h]

/-- Only parameters are reported as parameters. -/
lemma eq_parmVar_of_symbolKind? {kind : DeclKind} (h : symbolKind? kind = some .parameter) :
    kind = .parmVar := by
  cases kind with
  | parmVar => rfl
  | _ => exact absurd h (by decide)

/-- Parameters are marked as local, unless the table knows another declaration by their id. -/
lemma marksLocal_of_told (hdecls : unit.decls = .build unit.names unit.root)
    (hids : unit.root.ids.Nodup) (hn : n ∈ unit.root.nodes) {s : Symbol}
    (htold : Told unit.decls n (.symbol s)) (hkind : s.kind = .parameter) :
    marksLocal unit.decls n.id := by
  obtain @⟨_, kind, data, info, hcontent, hsymbol, hinfo, -⟩ := htold
  rw [hkind] at hsymbol
  have hparm := eq_parmVar_of_symbolKind? hsymbol
  rw [marksLocal, hinfo, Option.any_some]
  rw [hdecls] at hinfo
  have hinfokind := DeclTable.kind_of_get?_build hids hn hcontent hinfo
  refine DeclTable.isLocal_of_get?_build hinfo ?_
  rw [DeclInfo.cls, hinfokind, hparm]
  rfl

end

/-- **Options only add facts.** Take two walks over one unit that are not cut short, and put aside
what their facts say about types. If both report local declarations or neither does, their facts are
the same, whatever uses of types they report. If only the first one does, the facts of the second
are those of the first in the same order, without the parameters, without the variables that are
marked as local, and without the reads and accesses of declarations that are. A parameter is marked
as local as well, if no two nodes of the unit have the same id. -/
theorem run_options (unit : ParsedUnit) {options options' : WalkOptions} {c c' : CancelSchedule}
    (hc : c.Monotone) (hc' : c'.Monotone) (watched : Bool)
    (hend : (run unit options c watched).stats.aborted = false)
    (hend' : (run unit options' c' watched).stats.aborted = false) :
    (run unit options c watched).facts = (deliveries unit options watched).map Prod.snd ∧
      (∀ p ∈ deliveries unit options watched, Told unit.decls p.1 p.2) ∧
      (options.indexLocals = options'.indexLocals →
        untyped (run unit options' c' watched).facts =
          untyped (run unit options c watched).facts) ∧
      (options.indexLocals = true → options'.indexLocals = false →
        untyped (run unit options' c' watched).facts =
          untyped (((deliveries unit options watched).filter fun p =>
            !aboutLocal unit.decls p.1 p.2).map Prod.snd)) ∧
      (unit.decls = .build unit.names unit.root → unit.root.ids.Nodup →
        ∀ p ∈ deliveries unit options watched, ∀ s, p.2 = .symbol s → s.kind = .parameter →
          marksLocal unit.decls p.1.id) := by
  have hfacts : (run unit options c watched).facts =
      (deliveries unit options watched).map Prod.snd := by
    rw [facts_run hc hend, map_deliveries]
  have hfacts' : (run unit options' c' watched).facts =
      (deliveries unit options' watched).map Prod.snd := by
    rw [facts_run hc' hend', map_deliveries]
  refine ⟨hfacts, fun p hp => told_of_mem_deliveries hp, fun h => ?_, fun hon hoff => ?_, ?_⟩
  · rw [hfacts, hfacts', untyped_deliveries_eq h]
  · rw [hfacts', untyped_deliveries hon, hoff]
    rfl
  · intro hdecls hids p hp s hs hkind
    have htold := told_of_mem_deliveries hp
    rw [hs] at htold
    obtain ⟨a, ha, hpa⟩ := List.mem_flatMap.mp hp
    obtain ⟨f, -, rfl⟩ := List.mem_map.mp hpa
    exact marksLocal_of_told hdecls hids (Stop.mem_nodes_of_mem_log ha) htold hkind

/-- A variable, and a function that calls its parameter and reads the variable. -/
def callsParameter : ParsedUnit :=
  let place (line : UInt64) : SourceLocation :=
    ⟨some ⟨0, "<stdin>", line, 1, 1, none, none, none, false⟩, none⟩
  let name (id line : UInt64) : Content :=
    .ref .declRef { loc := some (place line), referenced := some { id := ⟨id⟩ } }
  .ofRoot ⟨⟨1⟩, .decl .translationUnit {}, [
      ⟨⟨2⟩, .decl .var { name := some "v", loc := some (place 1) }, []⟩,
      ⟨⟨3⟩, .decl .function { name := some "f", loc := some (place 2) }, [
        ⟨⟨4⟩, .decl .parmVar { name := some "p", loc := some (place 3) }, []⟩,
        ⟨⟨5⟩, .other (some "CompoundStmt") none none, [
          ⟨⟨6⟩, .expr .call {}, [⟨⟨7⟩, name 4 4, []⟩]⟩,
          ⟨⟨8⟩, name 2 5, []⟩]⟩]⟩]⟩
    ⟨"/m.cpp", ⟨"/"⟩, fun _ => none⟩

/-- Without local declarations the parameter is not reported, and of its uses only the call. -/
theorem run_options_callsParameter :
    untyped (run callsParameter {} .never false).facts =
        untyped (((deliveries callsParameter { indexLocals := true } false).filter fun p =>
          !aboutLocal callsParameter.decls p.1 p.2).map Prod.snd) ∧
      (deliveries callsParameter { indexLocals := true } false).map (·.1.id.value) =
        [2, 3, 6, 7, 8, 4] ∧
      (deliveries callsParameter {} false).map (·.1.id.value) = [2, 3, 6, 8] ∧
      (∀ p ∈ deliveries callsParameter { indexLocals := true } false, ∀ s, p.2 = .symbol s →
        s.kind = .parameter → marksLocal callsParameter.decls p.1.id) ∧
      untyped (run callsParameter {} .never false).facts =
        untyped (run callsParameter { typeUses := true } .never false).facts := by
  have hall : (run callsParameter { indexLocals := true } .never false).stats.aborted = false := rfl
  have hfew : (run callsParameter {} .never false).stats.aborted = false := rfl
  have htypes : (run callsParameter { typeUses := true } .never false).stats.aborted = false := rfl
  have hids : callsParameter.root.ids.Nodup := by decide
  obtain ⟨-, -, -, hoff, hmarked⟩ := run_options callsParameter CancelSchedule.monotone_never
    CancelSchedule.monotone_never false hall hfew
  obtain ⟨-, -, hsame, -, -⟩ := run_options callsParameter CancelSchedule.monotone_never
    CancelSchedule.monotone_never false htypes hfew
  exact ⟨hoff rfl rfl, by cbv, by cbv, hmarked rfl hids, hsame rfl⟩

/-- A parameter of a function whose id is also that of a field of a class. -/
def parameterListedAsField : ParsedUnit :=
  let place (line : UInt64) : SourceLocation :=
    ⟨some ⟨0, "<stdin>", line, 1, 1, none, none, none, false⟩, none⟩
  .ofRoot ⟨⟨1⟩, .decl .translationUnit {}, [
      ⟨⟨2⟩, .decl .function { name := some "f", loc := some (place 1) }, [
        ⟨⟨3⟩, .decl .parmVar { name := some "p", loc := some (place 2) }, []⟩]⟩,
      ⟨⟨4⟩, .decl .cxxRecord { name := some "S", loc := some (place 3) }, [
        ⟨⟨3⟩, .decl .field { name := some "p", loc := some (place 4) }, []⟩]⟩]⟩
    ⟨"/m.cpp", ⟨"/"⟩, fun _ => none⟩

/-- The parameter is left out although it is not marked as local. -/
theorem run_options_hides_unmarked :
    marksLocal parameterListedAsField.decls ⟨3⟩ = false ∧
      untyped (run parameterListedAsField {} .never false).facts ≠
        untyped (((deliveries parameterListedAsField { indexLocals := true } false).filter fun p =>
          !(aboutLocal parameterListedAsField.decls p.1 p.2 &&
            (!p.2.isSymbol || marksLocal parameterListedAsField.decls p.1.id))).map Prod.snd) := by
  refine ⟨by cbv, fun heq => ?_⟩
  have hlength := congrArg List.length heq
  have hoff : (untyped (run parameterListedAsField {} .never false).facts).length = 2 := by cbv
  have hmarked : (untyped (((deliveries parameterListedAsField
      { indexLocals := true } false).filter fun p =>
        !(aboutLocal parameterListedAsField.decls p.1 p.2 &&
          (!p.2.isSymbol || marksLocal parameterListedAsField.decls p.1.id))).map
            Prod.snd)).length = 3 := by cbv
  omega

end UnitIndex.Walk
