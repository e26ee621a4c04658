import Mathlib.Tactic
import UnitIndex.Proofs.Walk.Simulation
import UnitIndex.Proofs.Walk.Uses

/-!
What options change at a stop.

At a stop two walks over one unit deliver the same facts but for what these say about types, except
that one of them may leave out what is about local declarations (`Thins`). This is gone through here
once for everything that reports something, from `thins_reportDecl` to `thins_arrive`.
-/

namespace UnitIndex

/-- The fact without what it says about types; the use of a type says nothing else. -/
def Fact.untyped? : Fact → Option Fact
  | .symbol s => some (.symbol { s with typeLocation := none })
  | .reference r => if r.kind = .typeUse then none else some (.reference r)

namespace Walk

/-! ### What is delivered, but for types -/

/-- The facts without what they say about types. -/
def untyped (facts : List Fact) : List Fact := facts.filterMap Fact.untyped?

/-- From one state to the other these facts have been delivered, but for what they say about
types. -/
def Delivers (facts : List Fact) (s t : WalkState) : Prop :=
  ∃ new, t.facts.toList = s.facts.toList ++ new ∧ untyped new = facts

namespace Delivers

variable {facts : List Fact} {s t u : WalkState}

/-- Where nothing new stands there, nothing is delivered. -/
lemma nothing (h : t.facts = s.facts) : Delivers [] s t := ⟨[], by rw [h, List.append_nil], rfl⟩

/-- What comes before need not deliver anything. -/
lemma after_nothing (h : t.facts = s.facts) (h' : Delivers facts t u) : Delivers facts s u := by
  obtain ⟨new, hnew, huntyped⟩ := h'
  exact ⟨new, by rw [hnew, h], huntyped⟩

end Delivers

section

variable {ctx : WalkContext}

/-- A fact is delivered as it is, but for what it says about types. -/
lemma delivers_emit (hctx : ctx.cancelled = .never) (fact : Fact) (s : WalkState) :
    Delivers fact.untyped?.toList s (exec (emit fact) ctx s).2 := by
  refine ⟨[fact], ?_, ?_⟩
  · rw [exec_emit, hctx, if_neg (by simp [CancelSchedule.never])]
    simp
  · rw [untyped, List.filterMap_cons]
    cases fact.untyped? <;> rfl

/-- To look up the place of a type delivers nothing. -/
lemma facts_typeLocation? (type : Option WrittenType) (ctx : WalkContext) (s : WalkState) :
    (exec (typeLocation? type) ctx s).2.facts = s.facts := by
  cases type with
  | none => rfl
  | some type =>
      rw [typeLocation?, exec_bind]
      cases (exec (resolveType type) ctx s).1 <;> rfl

/-- The symbol that is reported of a declaration, but for its type. -/
def symbolFact? (unit : ParsedUnit) (current : Option String) (id : NodeId) (data : DeclData)
    (kind : SymbolKind) : Option Fact := do
  let info ← unit.decls.get? id
  if info.name.isNone then none
  else
    let location ← siteIn unit.names current data.loc
    some (.symbol {
      qualifiedName := info.qualifiedName, kind := kind, location := location,
      isDefinition := info.isDefinition, definition := definitionLocation? unit.decls info id })

lemma exec_decl? (id : NodeId) (ctx : WalkContext) (s : WalkState) :
    exec (decl? id) ctx s = (ctx.unit.decls.get? id, s) := rfl

/-- **A symbol is delivered** if the declaration is known and has a site. -/
lemma delivers_emitSymbol (hctx : ctx.cancelled = .never) (id : NodeId) (data : DeclData)
    (kind : SymbolKind) (s : WalkState) :
    Delivers (symbolFact? ctx.unit s.tracker.current id data kind).toList s
      (exec (emitSymbol id data kind) ctx s).2 := by
  have hno : ¬(CancelSchedule.never s.polls.size s.facts.size = true) := Bool.false_ne_true
  rw [emitSymbol, symbolFact?, exec_bind, exec_isCancelled, hctx]
  dsimp only
  rw [if_neg hno, exec_bind, exec_decl?]
  cases ctx.unit.decls.get? id with
  | none => exact .nothing rfl
  | some info =>
      dsimp only [Option.bind_eq_bind, Option.bind_some]
      split
      · exact .nothing rfl
      rw [exec_bind, exec_site?]
      cases siteIn ctx.unit.names s.tracker.current data.loc with
      | none => exact .nothing rfl
      | some location =>
          -- the fact may say where the type is declared, which is put aside
          have htype := facts_typeLocation? (reportedType? info data) ctx (asked s)
          exact .after_nothing htype (delivers_emit hctx _ _)

end

/-! ### Facts about local declarations -/

/-- Whether the table marks the declaration as local. -/
def marksLocal (decls : DeclTable) (id : NodeId) : Bool := (decls.get? id).any (·.isLocal)

/-- The declaration that a node uses: the one that a name names, or the member that an initializer
of a constructor initializes. -/
def usedDecl? (n : Node) : Option NodeId :=
  match n.content with
  | .ref kind data => refTarget? kind data
  | .ctorInit init => init.member.map (·.id)
  | _ => none

/-- Whether a fact that is delivered at the node is about a local declaration: a parameter, a
variable that is marked as local, or the use of a declaration that is. -/
def aboutLocal (decls : DeclTable) (n : Node) : Fact → Bool
  | .symbol s => s.kind == .parameter || s.kind == .var && marksLocal decls n.id
  | .reference r =>
    (r.kind == .variableRead || r.kind == .memberAccess) && (usedDecl? n).any (marksLocal decls)

/-- The facts delivered at a node, without those about local declarations unless `locals`. -/
def thinned (decls : DeclTable) (locals : Bool) (n : Node) (facts : List Fact) : List Fact :=
  facts.filter fun f => locals || !aboutLocal decls n f

/-- What a fact tells about the node at which it is delivered. -/
inductive Told (decls : DeclTable) (n : Node) : Fact → Prop
  /-- A symbol is told of at its declaration. -/
  | symbol {s : Symbol} {kind : DeclKind} {data : DeclData} {info : DeclInfo} :
      n.content = .decl kind data → symbolKind? kind = some s.kind →
      decls.get? n.id = some info → s.qualifiedName = info.qualifiedName → Told decls n (.symbol s)
  | call {r : Reference} : r.kind = .call → IsCall n → Told decls n (.reference r)
  /-- A read or an access is told of where the declaration is used. -/
  | use {r : Reference} {id : NodeId} : r.kind = .variableRead ∨ r.kind = .memberAccess →
      usedDecl? n = some id → r.target = targetIn decls id → Told decls n (.reference r)
  | typeUse {r : Reference} : r.kind = .typeUse → Told decls n (.reference r)

/-- What two walks deliver at a node of the unit, the first of which reports local declarations:
but for types the second one delivers the same, without the facts about local declarations unless
it reports those as well. -/
def Thins (decls : DeclTable) (locals : Bool) (n : Node) (s t s' t' : WalkState) : Prop :=
  ∃ facts, (∀ f ∈ facts, Told decls n f) ∧ Delivers facts s t ∧
    Delivers (thinned decls locals n facts) s' t'

section

variable {unit : ParsedUnit} {options options' : WalkOptions} {s t s' t' : WalkState} {n : Node}

/-- What a fact tells does not depend on what it says about types. -/
lemma Told.of_untyped? {decls : DeclTable} {f g : Fact} (h : f.untyped? = some g)
    (hg : Told decls n g) : Told decls n f := by
  cases f with
  | symbol s =>
      obtain rfl := Option.some.inj h
      cases hg with
      | symbol hcontent hkind hinfo hname => exact .symbol hcontent hkind hinfo hname
  | reference r =>
      rw [Fact.untyped?] at h
      split at h
      · exact absurd h (by simp)
      · obtain rfl := Option.some.inj h
        exact hg

lemma told_of_untyped {decls : DeclTable} {facts : List Fact}
    (h : ∀ g ∈ untyped facts, Told decls n g) {f : Fact} (hf : f ∈ facts) : Told decls n f := by
  cases hg : f.untyped? with
  | some g => exact (h g (List.mem_filterMap.mpr ⟨f, hf, hg⟩)).of_untyped? hg
  | none =>
      cases f with
      | symbol s => exact absurd hg (by simp [Fact.untyped?])
      | reference r =>
          rw [Fact.untyped?] at hg
          split at hg
          · next hkind => exact .typeUse hkind
          · exact absurd hg (by simp)

/-- Whether a fact is about a local declaration does not depend on what it says about types. -/
lemma aboutLocal_of_untyped? {decls : DeclTable} {f g : Fact} (h : f.untyped? = some g) :
    aboutLocal decls n g = aboutLocal decls n f := by
  cases f with
  | symbol s =>
      obtain rfl := Option.some.inj h
      rfl
  | reference r =>
      rw [Fact.untyped?] at h
      split at h
      · exact absurd h (by simp)
      · obtain rfl := Option.some.inj h
        rfl

/-- Whether a fact is about a local declaration does not depend on what it says about types. -/
lemma untyped_thinned (decls : DeclTable) (locals : Bool) (n : Node) (facts : List Fact) :
    untyped (thinned decls locals n facts) = thinned decls locals n (untyped facts) := by
  rw [untyped, thinned, thinned, untyped, List.filterMap_filter, List.filter_filterMap]
  refine List.filterMap_congr fun f _ => ?_
  cases hg : f.untyped? with
  | none => simp
  | some g => simp [Option.filter, aboutLocal_of_untyped? hg]

lemma Thins.nothing {decls : DeclTable} {locals : Bool} (h : t.facts = s.facts)
    (h' : t'.facts = s'.facts) : Thins decls locals n s t s' t' :=
  ⟨[], by simp, .nothing h, .nothing h'⟩

/-- A fact that is delivered, if at all, in both walks or in the first one only. -/
lemma Thins.of_option {decls : DeclTable} {locals : Bool} {fact : Option Fact} (reports : Bool)
    (htold : ∀ f ∈ fact, Told decls n f)
    (hreports : ∀ f ∈ fact, (locals || !aboutLocal decls n f) = reports)
    (h : Delivers fact.toList s t) (h' : Delivers (if reports then fact.toList else []) s' t') :
    Thins decls locals n s t s' t' := by
  refine ⟨fact.toList, fun f hf => htold f (Option.mem_toList.mp hf), h, ?_⟩
  cases fact with
  | none => simpa [thinned] using h'
  | some f => simpa [thinned, hreports f rfl, List.filter_singleton, Bool.cond_eq_ite] using h'

/-- Parameters and local variables are reported if the options say so. -/
lemma exec_reportsLocal {id : NodeId} {kind : DeclKind} {symbol : SymbolKind}
    (h : symbolKind? kind = some symbol) (ctx : WalkContext) (s : WalkState) :
    exec (reportsLocal id kind) ctx s =
      (ctx.options.indexLocals ||
        !(symbol == .parameter || symbol == .var && marksLocal ctx.unit.decls id), s) := by
  rw [reportsLocal, exec_bind, exec_read]
  dsimp only
  rw [h]
  cases symbol with
  | parameter => simp
  | var => rfl
  | _ => simp

/-- A symbol tells of its declaration. -/
lemma symbol_of_mem_symbolFact? {current : Option String} {id : NodeId} {data : DeclData}
    {kind : SymbolKind} {f : Fact} (h : f ∈ symbolFact? unit current id data kind) :
    ∃ sym info, f = .symbol sym ∧ sym.kind = kind ∧ unit.decls.get? id = some info ∧
      sym.qualifiedName = info.qualifiedName := by
  rw [symbolFact?] at h
  obtain ⟨info, hinfo, h⟩ := Option.bind_eq_some_iff.mp h
  split at h
  · exact absurd h (by simp)
  obtain ⟨location, -, h⟩ := Option.bind_eq_some_iff.mp h
  obtain rfl := Option.some.inj h
  exact ⟨_, info, rfl, rfl, hinfo, rfl⟩

/-- **Declarations**: a symbol is left out if it is a local one. -/
lemma thins_reportDecl (hon : options.indexLocals = true) (hs : Same s s') :
    Thins unit.decls options'.indexLocals n
      s (exec (reportDecl n.id n.content) ⟨unit, options, .never⟩ s).2
      s' (exec (reportDecl n.id n.content) ⟨unit, options', .never⟩ s').2 := by
  cases hcontent : n.content with
  | decl kind data =>
      rw [reportDecl]
      cases hkind : symbolKind? kind with
      | none => exact .nothing rfl rfl
      | some symbol =>
          dsimp only
          rw [exec_bind, exec_bind, exec_reportsLocal hkind, exec_reportsLocal hkind]
          dsimp only
          -- the first walk reports it in any case; the second asks whether it is local
          rw [hon, Bool.true_or, if_pos rfl]
          have hfact := @delivers_emitSymbol ⟨unit, options, .never⟩ rfl n.id data symbol s
          have hfact' := @delivers_emitSymbol ⟨unit, options', .never⟩ rfl n.id data symbol s'
          refine .of_option (options'.indexLocals ||
            !(symbol == .parameter || symbol == .var && marksLocal unit.decls n.id))
            (fun f hf => ?_) (fun f hf => ?_) hfact ?_
          · obtain ⟨sym, info, rfl, hsym, hinfo, hname⟩ := symbol_of_mem_symbolFact? hf
            exact .symbol hcontent (hsym ▸ hkind) hinfo hname
          · obtain ⟨sym, info, rfl, rfl, -, -⟩ := symbol_of_mem_symbolFact? hf
            rfl
          · rw [hs.tracker]
            split
            · exact hfact'
            · exact .nothing rfl
  | _ => exact .nothing rfl rfl

/-- Uses of local declarations are left out, and no others. -/
lemma useFact?_thinned (hon : options.indexLocals = true) (current : Option String)
    (kind : RefKind) (data : RefData) :
    useFact? unit options' current kind data =
      if options'.indexLocals || !(refTarget? kind data).any (marksLocal unit.decls) then
        useFact? unit options current kind data
      else none := by
  rw [useFact?, useFact?]
  cases refTarget? kind data with
  | none => simp
  | some id =>
      rw [Option.any_some]
      dsimp only [Option.bind_eq_bind, Option.bind_some]
      cases hinfo : unit.decls.get? id with
      | none => simp
      | some info =>
          have hlocal : marksLocal unit.decls id = info.isLocal := by
            rw [marksLocal, hinfo, Option.any_some]
          rw [hlocal, hon]
          dsimp only [Option.bind_some]
          cases info.isImplicit <;> cases info.isLocal <;> cases options'.indexLocals <;> simp

/-- A use tells of what it uses. -/
lemma use_of_mem_useFact? {current : Option String} {kind : RefKind} {data : RefData} {f : Fact}
    (h : f ∈ useFact? unit options current kind data) :
    ∃ r id, f = .reference r ∧ r.kind = useOf kind ∧ refTarget? kind data = some id ∧
      r.target = targetIn unit.decls id := by
  rw [useFact?] at h
  obtain ⟨id, hid, h⟩ := Option.bind_eq_some_iff.mp h
  obtain ⟨info, -, h⟩ := Option.bind_eq_some_iff.mp h
  split at h
  · exact absurd h (by simp)
  obtain ⟨target, htarget, h⟩ := Option.bind_eq_some_iff.mp h
  obtain ⟨site, -, h⟩ := Option.bind_eq_some_iff.mp h
  obtain rfl := Option.some.inj h
  exact ⟨_, id, rfl, rfl, hid, htarget.symm⟩

/-- A fact that says nothing about types is delivered, if there is one. -/
lemma Delivers.of_option {fact : Option Fact} (huntyped : ∀ f ∈ fact, f.untyped? = some f)
    (h : t.facts.toList = s.facts.toList ++ fact.toList) : Delivers fact.toList s t := by
  refine ⟨fact.toList, h, ?_⟩
  cases fact with
  | none => rfl
  | some f => simp [untyped, huntyped f rfl]

lemma untyped?_reference {r : Reference} (h : r.kind ≠ .typeUse) :
    (Fact.reference r).untyped? = some (.reference r) := by
  rw [Fact.untyped?, if_neg h]

/-- A name is read or its member is accessed. -/
lemma useOf_cases (kind : RefKind) : useOf kind = .variableRead ∨ useOf kind = .memberAccess := by
  cases kind with
  | declRef => exact Or.inl rfl
  | member => exact Or.inr rfl

/-- **Names**: a use is left out if what it uses is local. -/
lemma thins_emitRef (hon : options.indexLocals = true) (hs : Same s s') {kind : RefKind}
    {data : RefData} (hcontent : n.content = .ref kind data) :
    Thins unit.decls options'.indexLocals n
      s (exec (emitRef kind data) ⟨unit, options, .never⟩ s).2
      s' (exec (emitRef kind data) ⟨unit, options', .never⟩ s').2 := by
  have hused : usedDecl? n = refTarget? kind data := by
    rw [usedDecl?, hcontent]
  have huntyped {options : WalkOptions} {current : Option String} {f : Fact}
      (hf : f ∈ useFact? unit options current kind data) : f.untyped? = some f := by
    obtain ⟨r, id, rfl, hr, -, -⟩ := use_of_mem_useFact? hf
    refine untyped?_reference ?_
    rw [hr]
    cases kind <;> simp [useOf]
  have hfacts := @facts_emitRef ⟨unit, options, .never⟩ rfl kind data s
  have hfacts' := @facts_emitRef ⟨unit, options', .never⟩ rfl kind data s'
  refine .of_option (options'.indexLocals || !(refTarget? kind data).any (marksLocal unit.decls))
    (fun f hf => ?_) (fun f hf => ?_) (.of_option (fun f hf => huntyped hf) hfacts) ?_
  · obtain ⟨r, id, rfl, hr, hid, htarget⟩ := use_of_mem_useFact? hf
    exact .use (hr ▸ useOf_cases kind) (hused.trans hid) htarget
  · obtain ⟨r, id, rfl, hr, -, -⟩ := use_of_mem_useFact? hf
    rw [aboutLocal, hused, hr]
    cases kind <;> rfl
  · have hdelivers := Delivers.of_option (fun f hf => huntyped hf) hfacts'
    dsimp only at hdelivers ⊢
    rw [hs.tracker]
    -- in the second walk the use is missing just if its target is local
    rw [useFact?_thinned hon] at hdelivers
    split
    · next h => rwa [if_pos h] at hdelivers
    · next h => rwa [if_neg h] at hdelivers

/-- **Calls** are never left out. -/
lemma thins_emitCall (hs : Same s s') {kind : ExprKind} {data : ExprData}
    (hcontent : n.content = .expr kind data) (hcall : kind.isCall) :
    Thins unit.decls options'.indexLocals n
      s (exec (emitCall data n.inner) ⟨unit, options, .never⟩ s).2
      s' (exec (emitCall data n.inner) ⟨unit, options', .never⟩ s').2 := by
  obtain ⟨name?, -, hname⟩ := exists_callee n
  have hkind {current : Option String} {f : Fact} (hf : f ∈ callFact? unit current data name?) :
      ∃ r, f = .reference r ∧ r.kind = .call := by
    obtain ⟨site, -, hf⟩ := Option.bind_eq_some_iff.mp hf
    obtain rfl := Option.some.inj hf
    exact ⟨_, rfl, rfl⟩
  have huntyped {current : Option String} {f : Fact}
      (hf : f ∈ callFact? unit current data name?) : f.untyped? = some f := by
    obtain ⟨r, rfl, hr⟩ := hkind hf
    exact untyped?_reference (by simp [hr])
  have hfacts := @facts_emitCall ⟨unit, options, .never⟩ rfl data n.inner name? hname s
  have hfacts' := @facts_emitCall ⟨unit, options', .never⟩ rfl data n.inner name? hname s'
  refine .of_option true (fun f hf => ?_) (fun f hf => ?_)
    (.of_option (fun f hf => huntyped hf) hfacts) ?_
  · obtain ⟨r, rfl, hr⟩ := hkind hf
    exact .call hr ⟨kind, data, hcontent, hcall⟩
  · obtain ⟨r, rfl, hr⟩ := hkind hf
    simp [aboutLocal, hr]
  · rw [if_pos rfl, hs.tracker]
    exact .of_option (fun f hf => huntyped hf) hfacts'

/-- The use of a type is no other fact. -/
lemma delivers_emitReference_typeUse (unit : ParsedUnit) (options : WalkOptions)
    (site : FileLocation) (target : Option Target) (s : WalkState) :
    Delivers [] s (exec (emitReference .typeUse site target) ⟨unit, options, .never⟩ s).2 :=
  delivers_emit rfl (.reference ⟨.typeUse, site, target⟩) s

/-- The use of a type is no other fact. -/
lemma delivers_emitTypeUse (unit : ParsedUnit) (options : WalkOptions) (data : ExprData)
    (type : Option WrittenType) (s : WalkState) :
    Delivers [] s (exec (emitTypeUse data type) ⟨unit, options, .never⟩ s).2 := by
  cases type with
  | none => exact .nothing rfl
  | some type =>
      rw [emitTypeUse, exec_bind]
      cases (exec (resolveType type) ⟨unit, options, .never⟩ s).1 with
      | none => exact .nothing rfl
      | some id =>
          dsimp only
          rw [exec_bind, exec_site?]
          cases siteIn unit.names _ (data.loc.or (data.range.map (·.start))) with
          | none => exact .nothing rfl
          | some site =>
              dsimp only
              rw [exec_bind, exec_target?]
              cases targetIn unit.decls id with
              | none => exact .nothing rfl
              | some target =>
                  refine .after_nothing ?_ (delivers_emitReference_typeUse unit options site _ _)
                  rfl

/-- A statement that is neither a call nor a name reports nothing but the use of a type. -/
lemma delivers_reportStmt (unit : ParsedUnit) (options : WalkOptions) (hcall : ¬IsCall n)
    (href : ∀ kind data, n.content ≠ .ref kind data) (s : WalkState) :
    Delivers [] s (exec (reportStmt n.content n.inner) ⟨unit, options, .never⟩ s).2 := by
  cases hcontent : n.content with
  | expr kind data =>
      rw [reportStmt, if_neg fun hkind => hcall ⟨kind, data, hcontent, hkind⟩, exec_bind, exec_read]
      dsimp only
      split
      · split
        · exact delivers_emitTypeUse unit options _ _ s
        split
        · exact delivers_emitTypeUse unit options _ _ s
        · exact .nothing rfl
      · exact .nothing rfl
  | ref kind data => exact absurd hcontent (href kind data)
  | _ => exact .nothing rfl

/-- **Statements.** -/
lemma thins_reportStmt (hon : options.indexLocals = true) (hs : Same s s') :
    Thins unit.decls options'.indexLocals n
      s (exec (reportStmt n.content n.inner) ⟨unit, options, .never⟩ s).2
      s' (exec (reportStmt n.content n.inner) ⟨unit, options', .never⟩ s').2 := by
  by_cases hcall : IsCall n
  · obtain ⟨kind, data, hcontent, hkind⟩ := hcall
    rw [hcontent, reportStmt, if_pos hkind]
    exact thins_emitCall hs hcontent hkind
  by_cases href : ∃ kind data, n.content = .ref kind data
  · obtain ⟨kind, data, hcontent⟩ := href
    rw [hcontent, reportStmt]
    exact thins_emitRef hon hs hcontent
  · push Not at href
    exact ⟨[], by simp, delivers_reportStmt unit options hcall href s,
      delivers_reportStmt unit options' hcall href s'⟩

/-- Whether uses of the declaration are reported, by what is reported with local declarations. -/
lemma isIndexable_thinned (decls : DeclTable) (locals : Bool) (id : NodeId) :
    ((decls.get? id).any fun info => !info.isImplicit && (!info.isLocal || locals)) =
      (((decls.get? id).any fun info => !info.isImplicit) && (locals || !marksLocal decls id)) := by
  rw [marksLocal]
  cases decls.get? id with
  | none => rfl
  | some info =>
      dsimp only [Option.any_some]
      cases info.isImplicit <;> cases info.isLocal <;> cases locals <;> rfl

/-- An access to a member is one fact. -/
lemma delivers_memberAccess (unit : ParsedUnit) (options : WalkOptions) (site : FileLocation)
    (id : NodeId) (s : WalkState) :
    Delivers (some (Fact.reference ⟨.memberAccess, site, targetIn unit.decls id⟩)).toList s
      (exec (do emitReference .memberAccess site (← target? id)) ⟨unit, options, .never⟩ s).2 := by
  rw [exec_bind, exec_target?, ← untyped?_reference (by simp)]
  exact @delivers_emit ⟨unit, options, .never⟩ rfl _ s

/-- The type of a base is no other fact. -/
lemma delivers_typeTarget (unit : ParsedUnit) (options : WalkOptions) (site : FileLocation)
    (type : WrittenType) (s : WalkState) :
    Delivers [] s
      (exec (do emitReference .typeUse site (← typeTarget? type)) ⟨unit, options, .never⟩ s).2 := by
  rw [exec_bind]
  refine .after_nothing ?_ (delivers_emitReference_typeUse unit options site _ _)
  rw [typeTarget?, exec_bind]
  cases (exec (resolveType type) ⟨unit, options, .never⟩ s).1 <;> rfl

/-- An initializer reports the member that it initializes, or the use of a type. -/
lemma thins_arriveInitializer (hon : options.indexLocals = true) (hs : Same s s')
    (ctor : Option SourceLocation) {init : CtorInit} (hcontent : n.content = .ctorInit init) :
    Thins unit.decls options'.indexLocals n
      s (exec (arriveInitializer ctor init n.inner) ⟨unit, options, .never⟩ s).2
      s' (exec (arriveInitializer ctor init n.inner) ⟨unit, options', .never⟩ s').2 := by
  rw [arriveInitializer, exec_bind, exec_bind, exec_site?, exec_site?, hs.tracker]
  dsimp only
  cases siteIn unit.names s'.tracker.current _ with
  | none => exact .nothing rfl rfl
  | some site =>
      dsimp only
      cases hmember : init.member with
      | some member =>
          -- the member is what the node uses, and it may be local
          have hused : usedDecl? n = some member.id := by
            rw [usedDecl?, hcontent]
            dsimp only
            rw [hmember, Option.map_some]
          dsimp only
          rw [exec_bind, exec_bind, exec_isIndexable, exec_isIndexable]
          dsimp only
          rw [isIndexable_thinned, isIndexable_thinned, hon, Bool.true_or, Bool.and_true]
          cases (unit.decls.get? member.id).any fun info => !info.isImplicit with
          | false => exact .nothing rfl rfl
          | true =>
              rw [Bool.true_and, if_pos rfl]
              refine .of_option (options'.indexLocals || !marksLocal unit.decls member.id)
                (fun f hf => ?_) (fun f hf => ?_)
                (delivers_memberAccess unit options site member.id s) ?_
              · obtain rfl := Option.some.inj hf
                exact .use (Or.inr rfl) hused rfl
              · obtain rfl := Option.some.inj hf
                rw [aboutLocal, hused]
                rfl
              · split
                · exact delivers_memberAccess unit options' site member.id s'
                · exact .nothing rfl
      | none =>
          dsimp only
          cases init.base.or init.delegating with
          | none => exact .nothing rfl rfl
          | some type =>
              exact ⟨[], by simp, delivers_typeTarget unit options site type s,
                delivers_typeTarget unit options' site type s'⟩

/-! ### At a stop -/

/-- What comes before need not deliver anything in either walk. -/
lemma Thins.after {decls : DeclTable} {locals : Bool} {u u' : WalkState} (h : t.facts = s.facts)
    (h' : t'.facts = s'.facts) (hthins : Thins decls locals n t u t' u') :
    Thins decls locals n s u s' u' := by
  obtain ⟨facts, htold, hfirst, hsecond⟩ := hthins
  exact ⟨facts, htold, hfirst.after_nothing h, hsecond.after_nothing h'⟩

/-- Arriving at a declaration. -/
lemma thins_arriveDecl (hon : options.indexLocals = true) (hs : Same s s') :
    Thins unit.decls options'.indexLocals n
      s (exec (arriveDecl n.id n.content) ⟨unit, options, .never⟩ s).2
      s' (exec (arriveDecl n.id n.content) ⟨unit, options', .never⟩ s').2 := by
  rw [exec_arriveDecl rfl, exec_arriveDecl rfl, hs.visited]
  split
  · exact .nothing rfl rfl
  split
  · exact .nothing rfl rfl
  · exact .after rfl rfl (thins_reportDecl hon (same_enter n.id n.content hs.asked))

/-- Arriving at a statement. -/
lemma thins_arriveStmt (hon : options.indexLocals = true) (hs : Same s s') :
    Thins unit.decls options'.indexLocals n
      s (exec (arriveStmt n.id n.content n.inner) ⟨unit, options, .never⟩ s).2
      s' (exec (arriveStmt n.id n.content n.inner) ⟨unit, options', .never⟩ s').2 := by
  by_cases hdecl : n.content.isDecl
  · rw [exec_arriveStmt rfl, exec_arriveStmt rfl, if_pos hdecl]
    exact .after rfl rfl (thins_arriveDecl hon hs.asked)
  · rw [exec_arriveStmt_of_not_isDecl rfl hdecl, exec_arriveStmt_of_not_isDecl rfl hdecl]
    exact .after rfl rfl (thins_reportStmt hon hs.asked)

/-- **Arriving at a node**, in whatever role. -/
lemma thins_arrive (hon : options.indexLocals = true) (hs : Same s s') (role : Role) :
    Thins unit.decls options'.indexLocals n
      s (exec (arrive role n.id n.content n.inner) ⟨unit, options, .never⟩ s).2
      s' (exec (arrive role n.id n.content n.inner) ⟨unit, options', .never⟩ s').2 := by
  cases role with
  | decl => exact thins_arriveDecl hon hs
  | stmt => exact thins_arriveStmt hon hs
  | callee name depth =>
      rw [arrive]
      split
      · exact .nothing rfl rfl
      split
      · exact .nothing rfl rfl
      · exact thins_arriveStmt hon hs
  | initializer ctor =>
      cases hcontent : n.content with
      | ctorInit init => exact thins_arriveInitializer hon hs ctor hcontent
      | _ => exact .nothing rfl rfl

end

end Walk

end UnitIndex
