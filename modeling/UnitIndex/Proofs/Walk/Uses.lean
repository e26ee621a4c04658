import Mathlib.Tactic
import UnitIndex.Proofs.Walk.Callees

/-!
How uses of declarations are reported.

What is delivered at a node follows from the role that it is visited in: a call is reported at the
call, the name of the function that it calls is passed over, and any other name is reported as the
use that it is. `Stop.Reports` says so of one stop, and `run_reports_uses` of whole walks: they
come to every node that they meet once, and deliver nothing else.
-/

namespace UnitIndex.Walk

/-! ### Steps of the reports -/

/-- The site of what stands at the location, while `current` is the current file: where it
resolves to, if that is in a physical file. -/
def siteIn (names : FileNames) (current : Option String) (loc : Option SourceLocation) :
    Option FileLocation := do
  let l ← names.resolve? (← loc)
  let file ← if l.file = "" then current else some l.file
  if isPhysicalFile file then some { l with file := file } else none

/-- What a use of the declaration refers to: its definition, if that is located and not made up. -/
def targetIn (decls : DeclTable) (id : NodeId) : Option Target := do
  let definition ← decls.get? (decls.definitionOf id)
  if definition.isImplicit then none
  else some ⟨definition.qualifiedName, definition.kind.name, ← definition.location⟩

/-- The use that has to be reported of the declaration that an expression names: the declaration is
indexable, its definition can be referred to, and the name has a site. -/
def useFact? (unit : ParsedUnit) (options : WalkOptions) (current : Option String)
    (kind : RefKind) (data : RefData) : Option Fact := do
  let id ← refTarget? kind data
  let info ← unit.decls.get? id
  if info.isImplicit || info.isLocal && !options.indexLocals then none
  else
    let target ← targetIn unit.decls id
    let site ← siteIn unit.names current (refSite? kind data)
    some (.reference ⟨useOf kind, site, some target⟩)

/-- The declaration that a node names. -/
def namedDecl? (n : Node) : Option NodeId :=
  match n.content with
  | .ref kind data => refTarget? kind data
  | _ => none

/-- Where a name is spelled. -/
def nameSite? (n : Node) : Option SourceLocation :=
  match n.content with
  | .ref kind data => refSite? kind data
  | _ => none

/-- What a call refers to: the function that the name of the callee names. -/
def calledIn (decls : DeclTable) (name? : Option Node) : Option Target := do
  let id ← namedDecl? (← name?)
  let info ← decls.get? id
  if info.cls == .function && !info.isImplicit then targetIn decls id else none

/-- The report that has to be made of a call: it stands at the name of the callee, else where the
call starts. -/
def callFact? (unit : ParsedUnit) (current : Option String) (data : ExprData)
    (name? : Option Node) : Option Fact := do
  let site ← siteIn unit.names current ((name?.bind nameSite?).or (data.range.map (·.start)))
  some (.reference ⟨.call, site, calledIn unit.decls name?⟩)

section

variable {ctx : WalkContext} {s : WalkState}

/-- The site of a use is read off the position and the current file. -/
lemma exec_site? (loc : Option SourceLocation) (ctx : WalkContext) (s : WalkState) :
    exec (site? loc) ctx s = (siteIn ctx.unit.names s.tracker.current loc, s) := rfl

/-- Where a walk is never cancelled, a reference that is reported is delivered. -/
lemma facts_emitReference (hctx : ctx.cancelled = .never) (kind : ReferenceKind)
    (site : FileLocation) (target : Option Target) (s : WalkState) :
    (exec (emitReference kind site target) ctx s).2.facts.toList =
      s.facts.toList ++ [.reference ⟨kind, site, target⟩] := by
  rw [emitReference, exec_emit, hctx, if_neg (by simp [CancelSchedule.never])]
  simp

/-- The target of a use is read off the table. -/
lemma exec_target? (id : NodeId) (ctx : WalkContext) (s : WalkState) :
    exec (target? id) ctx s = (targetIn ctx.unit.decls id, s) := rfl

lemma exec_isIndexable (id : NodeId) (ctx : WalkContext) (s : WalkState) :
    exec (isIndexable id) ctx s = ((ctx.unit.decls.get? id).any fun info =>
      !info.isImplicit && (!info.isLocal || ctx.options.indexLocals), s) := rfl

/-- A call is that of the function whose name was found, if it is a function. -/
lemma exec_callTarget? {inner : List Node} {name? : Option Node}
    (h : calleeOfFirst? 0 inner = name?.bind refOf?) (ctx : WalkContext) (s : WalkState) :
    exec (callTarget? inner) ctx s = (calledIn ctx.unit.decls name?, s) := by
  -- the walk looks for the first name, and the declaration is the one that it names
  have hdecl : calleeDecl? inner = name?.bind namedDecl? := by
    rw [calleeDecl?, h, Option.bind_assoc]
    refine congrArg (Option.bind name?) (funext fun name => ?_)
    rw [refOf?, namedDecl?]
    cases name.content <;> rfl
  -- what is called is that declaration, as long as it is a function written in the source
  have hnamed : calledIn ctx.unit.decls name? = (name?.bind namedDecl?).bind fun id =>
      (ctx.unit.decls.get? id).bind fun info =>
        if info.cls == .function && !info.isImplicit then targetIn ctx.unit.decls id else none := by
    rw [Option.bind_assoc]
    rfl
  rw [callTarget?, hdecl, hnamed]
  cases name?.bind namedDecl? with
  | none => rfl
  | some id =>
      rw [Option.bind_some]
      show exec (if (ctx.unit.decls.get? id).any _ then target? id else pure none) ctx s = _
      cases ctx.unit.decls.get? id with
      | none => rfl
      | some info =>
          dsimp only [Option.any_some, Option.bind_some]
          split
          · exact exec_target? id ctx s
          · rfl

/-- A call is reported where it has a site. -/
lemma facts_emitCall (hctx : ctx.cancelled = .never) (data : ExprData) {inner : List Node}
    {name? : Option Node} (h : calleeOfFirst? 0 inner = name?.bind refOf?) (s : WalkState) :
    (exec (emitCall data inner) ctx s).2.facts.toList =
      s.facts.toList ++ (callFact? ctx.unit s.tracker.current data name?).toList := by
  have hsite : callSite? data inner =
      (name?.bind nameSite?).or (data.range.map (·.start)) := by
    rw [callSite?, h, Option.bind_assoc]
    refine congrArg (fun f => (Option.bind name? f).or _) (funext fun name => ?_)
    rw [refOf?, nameSite?]
    cases name.content <;> rfl
  rw [emitCall, callFact?, hsite, exec_bind, exec_site?]
  cases siteIn ctx.unit.names s.tracker.current _ with
  | none => simp
  | some site =>
      dsimp only
      rw [exec_bind, exec_callTarget? h, facts_emitReference hctx]
      rfl

/-- A name is reported as the use that it is. -/
lemma facts_emitRef (hctx : ctx.cancelled = .never) (kind : RefKind) (data : RefData)
    (s : WalkState) :
    (exec (emitRef kind data) ctx s).2.facts.toList =
      s.facts.toList ++
        (useFact? ctx.unit ctx.options s.tracker.current kind data).toList := by
  rw [emitRef, useFact?]
  cases refTarget? kind data with
  | none => simp
  | some id =>
      dsimp only [Option.bind_eq_bind, Option.bind_some]
      rw [emitUse, exec_bind, exec_isIndexable]
      cases ctx.unit.decls.get? id with
      | none => simp
      | some info =>
          -- the walk asks which uses are reported, and the specification which are not
          have hsame : (!(!info.isImplicit && (!info.isLocal || ctx.options.indexLocals))) =
              (info.isImplicit || info.isLocal && !ctx.options.indexLocals) := by
            cases info.isImplicit <;> cases info.isLocal <;> cases ctx.options.indexLocals <;> rfl
          dsimp only [Option.any_some, Option.bind_some]
          by_cases hout : info.isImplicit || info.isLocal && !ctx.options.indexLocals
          · rw [if_pos (hsame.trans hout), if_pos hout]
            simp
          · have hin : ¬(!(!info.isImplicit && (!info.isLocal || ctx.options.indexLocals))) := by
              rwa [hsame]
            rw [if_neg hin, if_neg hout, exec_bind, exec_target?]
            -- without a target or a site nothing is delivered on either side
            cases targetIn ctx.unit.decls id with
            | none => simp
            | some target =>
                dsimp only [Option.bind_some]
                rw [exec_bind, exec_site?]
                cases siteIn ctx.unit.names s.tracker.current (refSite? kind data) with
                | none => simp
                | some site => exact facts_emitReference hctx _ _ _ s

end

/-- To decide on a local declaration delivers nothing. -/
lemma facts_reportsLocal (id : NodeId) (kind : DeclKind) (ctx : WalkContext) (s : WalkState) :
    (exec (reportsLocal id kind) ctx s).2.facts = s.facts := by
  rw [reportsLocal, exec_bind]
  cases symbolKind? kind with
  | none => rfl
  | some symbol => cases symbol <;> rfl

/-! ### Steps and what they deliver -/

/-- In a unit, the result of a step has one property, and all facts that it delivers have the
other. -/
def Yields {α : Type} (ctx : WalkContext) (Q : α → Prop) (P : Fact → Prop) (x : WalkM α) : Prop :=
  ∀ s, Q (exec x ctx s).1 ∧ ∃ new, (exec x ctx s).2.facts.toList = s.facts.toList ++ new ∧
    ∀ f ∈ new, P f

namespace Yields

variable {α β : Type} {ctx : WalkContext} {Q : α → Prop} {R : β → Prop} {P : Fact → Prop}
  {x : WalkM α} {f : α → WalkM β}

/-- What delivers nothing yields what it returns. -/
lemma of_facts (hQ : ∀ s, Q (exec x ctx s).1) (h : ∀ s, (exec x ctx s).2.facts = s.facts) :
    Yields ctx Q P x := fun s => ⟨hQ s, [], by rw [h, List.append_nil], by simp⟩

lemma silent (h : ∀ s, (exec x ctx s).2.facts = s.facts) : Yields ctx (fun _ => True) P x :=
  of_facts (fun _ => trivial) h

lemma pure {a : α} (h : Q a) : Yields ctx Q P (Pure.pure a) := of_facts (fun _ => h) fun _ => rfl

/-- One step after the other yields what the second one does, if both yield such facts. -/
lemma bind (hx : Yields ctx Q P x) (hf : ∀ a, Q a → Yields ctx R P (f a)) :
    Yields ctx R P (x >>= f) := by
  intro s
  obtain ⟨ha, new, hnew, hP⟩ := hx s
  obtain ⟨hb, more, hmore, hP'⟩ := hf _ ha (exec x ctx s).2
  refine ⟨hb, new ++ more, ?_, fun g hg => ?_⟩
  · rw [exec_bind, hmore, hnew, List.append_assoc]
  · exact (List.mem_append.mp hg).elim (hP g) (hP' g)

/-- The context may be looked at. -/
lemma read {g : WalkContext → WalkM β} (h : Yields ctx R P (g ctx)) :
    Yields ctx R P (MonadReader.read >>= g) := h

/-- A fact that is delivered is the fact. -/
lemma emit {fact : Fact} (h : P fact) : Yields ctx (fun _ => True) P (Walk.emit fact) := by
  intro s
  rw [exec_emit]
  split
  · exact ⟨trivial, [], (List.append_nil _).symm, by simp⟩
  · exact ⟨trivial, [fact], by simp, fun g hg => List.mem_singleton.mp hg ▸ h⟩

end Yields

/-! ### Other reports -/

/-- The references that a step delivers are all of such kinds. -/
def Tells {α : Type} (kinds : ReferenceKind → Prop) (x : WalkM α) : Prop :=
  ∀ ctx, Yields ctx (fun _ => True) (fun f => ∀ r, f = .reference r → kinds r.kind) x

namespace Tells

variable {α β : Type} {kinds : ReferenceKind → Prop} {x : WalkM α} {f : α → WalkM β}

/-- What delivers nothing tells of no references. -/
lemma of_facts (h : ∀ ctx s, (exec x ctx s).2.facts = s.facts) : Tells kinds x :=
  fun ctx => .silent (h ctx)

lemma pure (a : α) : Tells kinds (Pure.pure a) := of_facts fun _ _ => rfl

/-- One step after the other tells of such references as both do. -/
lemma bind (hx : Tells kinds x) (hf : ∀ a, Tells kinds (f a)) : Tells kinds (x >>= f) :=
  fun ctx => (hx ctx).bind fun a _ => hf a ctx

/-- A fact that is no reference tells of none. -/
lemma emit {fact : Fact} (h : ∀ r, fact = .reference r → kinds r.kind) :
    Tells kinds (Walk.emit fact) := fun _ => .emit h

/-- A reference tells of its kind. -/
lemma emitReference {kind : ReferenceKind} (h : kinds kind) (site : FileLocation)
    (target : Option Target) : Tells kinds (Walk.emitReference kind site target) := by
  refine emit fun r hr => ?_
  obtain rfl := Fact.reference.inj hr
  exact h

lemma read {f : WalkContext → WalkM α} (h : ∀ ctx, Tells kinds (f ctx)) :
    Tells kinds (MonadReader.read >>= f) :=
  bind (of_facts fun _ _ => rfl) h

/-- Questions about cancelling, positions, targets and types tell of nothing. -/
lemma isCancelled : Tells kinds Walk.isCancelled := of_facts fun _ _ => rfl

lemma site? (loc : Option SourceLocation) : Tells kinds (Walk.site? loc) := of_facts fun _ _ => rfl

lemma target? (id : NodeId) : Tells kinds (Walk.target? id) := of_facts fun _ _ => rfl

lemma resolveType (type : WrittenType) : Tells kinds (Walk.resolveType type) :=
  of_facts fun _ _ => rfl

lemma typeLocation? (type : Option WrittenType) : Tells kinds (Walk.typeLocation? type) := by
  cases type with
  | none => exact pure _
  | some type =>
      refine bind (resolveType type) fun found => ?_
      cases found with
      | none => exact pure _
      | some id => exact of_facts fun _ _ => rfl

/-- A symbol is no reference. -/
lemma emitSymbol (id : NodeId) (data : DeclData) (kind : SymbolKind) :
    Tells kinds (Walk.emitSymbol id data kind) := by
  refine bind isCancelled fun cancelled => ?_
  split
  · exact pure _
  refine bind (of_facts fun _ _ => rfl) fun info => ?_
  cases info with
  | none => exact pure _
  | some info =>
      dsimp only
      split
      · exact pure _
      refine bind (site? _) fun location => ?_
      cases location with
      | none => exact pure _
      | some location =>
          exact read fun ctx => bind (typeLocation? _) fun _ => emit fun r hr => absurd hr (by simp)

/-- So declarations tell of no references. -/
lemma reportDecl (id : NodeId) (content : Content) : Tells kinds (Walk.reportDecl id content) := by
  cases content with
  | decl kind data =>
      rw [Walk.reportDecl]
      cases symbolKind? kind with
      | none => exact pure _
      | some symbol =>
          refine bind (of_facts (facts_reportsLocal id kind)) fun reports => ?_
          split
          · exact emitSymbol _ _ _
          · exact pure _
  | _ => exact pure _

/-- Declarations refer to nothing by themselves. -/
lemma arriveDecl (id : NodeId) (content : Content) : Tells kinds (Walk.arriveDecl id content) := by
  refine bind isCancelled fun cancelled => ?_
  split
  · exact pure _
  split
  · exact pure _
  refine bind (of_facts fun _ _ => rfl) fun s => ?_
  split
  · exact pure _
  · exact bind (of_facts fun _ _ => rfl) fun _ => bind (reportDecl id content) fun _ => pure _

/-- The use of a type is a reference of that kind. -/
lemma emitTypeUse (h : kinds .typeUse) (data : ExprData) (type : Option WrittenType) :
    Tells kinds (Walk.emitTypeUse data type) := by
  cases type with
  | none => exact pure _
  | some type =>
      refine bind (resolveType type) fun found => ?_
      cases found with
      | none => exact pure _
      | some id =>
          refine bind (site? _) fun site => ?_
          cases site with
          | none => exact pure _
          | some site =>
              refine bind (target? _) fun target => ?_
              cases target with
              | none => exact pure _
              | some target => exact emitReference h _ _

/-- A statement that is neither a call nor a name tells of types only. -/
lemma reportStmt (h : kinds .typeUse) {n : Node} (hcall : ¬IsCall n)
    (href : ∀ kind data, n.content ≠ .ref kind data) :
    Tells kinds (Walk.reportStmt n.content n.inner) := by
  cases hcontent : n.content with
  | expr kind data =>
      rw [Walk.reportStmt, if_neg fun hkind => hcall ⟨kind, data, hcontent, hkind⟩]
      refine read fun ctx => ?_
      split
      · split
        · exact emitTypeUse h _ _
        split
        · exact emitTypeUse h _ _
        · exact pure _
      · exact pure _
  | ref kind data => exact absurd hcontent (href kind data)
  | _ => exact pure _

lemma arriveStmt (h : kinds .typeUse) {n : Node} (hcall : ¬IsCall n)
    (href : ∀ kind data, n.content ≠ .ref kind data) :
    Tells kinds (Walk.arriveStmt n.id n.content n.inner) := by
  refine bind isCancelled fun cancelled => ?_
  split
  · exact pure _
  split
  · exact arriveDecl _ _
  · refine bind (reportStmt h hcall href) fun _ => bind (of_facts fun ctx s => ?_) fun _ => pure _
    rw [exec_stmtCourse]

/-- **An initializer** tells of the member that it initializes, or of the type of a base. -/
lemma arriveInitializer (htype : kinds .typeUse) (hmember : kinds .memberAccess)
    (ctor : Option SourceLocation) (init : CtorInit) (inner : List Node) :
    Tells kinds (Walk.arriveInitializer ctor init inner) := by
  refine bind (site? _) fun site => ?_
  cases site with
  | none => exact pure _
  | some site =>
      dsimp only
      -- a member is reported if it is indexable, a base or a delegation by its type
      cases init.member with
      | some member =>
          refine bind (of_facts fun _ _ => rfl) fun indexable => ?_
          split
          · exact bind (target? _) fun _ => emitReference hmember _ _
          · exact pure _
      | none =>
          dsimp only
          cases init.base.or init.delegating with
          | none => exact pure _
          | some type =>
              refine bind (bind (resolveType type) fun found => ?_) fun _ => emitReference htype _ _
              cases found with
              | none => exact pure _
              | some id => exact target? id

/-- A node that is neither a call nor a name is reported as the use of a type, or as the access to
a member that it initializes. -/
lemma arrive (role : Role) {n : Node} (hcall : ¬IsCall n)
    (href : ∀ kind data, n.content ≠ .ref kind data) :
    Tells (fun kind => kind = .typeUse ∨
      kind = .memberAccess ∧ ∃ init, n.content = .ctorInit init)
      (Walk.arrive role n.id n.content n.inner) := by
  cases role with
  | decl => exact arriveDecl _ _
  | stmt => exact arriveStmt (Or.inl rfl) hcall href
  | callee name depth =>
      rw [Walk.arrive]
      split
      · exact pure _
      split
      · exact pure _
      · exact arriveStmt (Or.inl rfl) hcall href
  | initializer ctor =>
      cases hcontent : n.content with
      | ctorInit init =>
          exact bind (arriveInitializer (Or.inl rfl) (Or.inr ⟨rfl, init, rfl⟩) ctor init _) fun _ =>
            pure _
      | _ => exact pure _

end Tells

/-! ### Reports along a walk -/

/-- What a walk over the unit delivers at a stop, as far as it is the use of a declaration. -/
structure Stop.Reports (unit : ParsedUnit) (options : WalkOptions) (a : Stop) : Prop where
  /-- A call is reported once if it has a site, and not at all otherwise. -/
  call : ∀ {kind data}, a.node.content = .expr kind data → kind.isCall →
    ∃ name? : Option Node, (∀ n, name? = some n ↔ CalleeName a.node n) ∧
      a.delivered ⟨unit, options, .never⟩ =
        (callFact? unit a.state.tracker.current data name?).toList
  /-- The name of a function is passed over where it is called. -/
  callee : NamesCallee unit a.node → a.delivered ⟨unit, options, .never⟩ = []
  /-- Any other name is reported once if there is a use to be reported, and not at all otherwise. -/
  name : ∀ {kind data}, a.node.content = .ref kind data → ¬NamesCallee unit a.node →
    a.delivered ⟨unit, options, .never⟩ =
      (useFact? unit options a.state.tracker.current kind data).toList
  /-- There are no other uses but those of types and of members that are initialized. -/
  other : ∀ r, Fact.reference r ∈ a.delivered ⟨unit, options, .never⟩ →
    r.kind = .call ∧ IsCall a.node ∨
      (∃ kind data, a.node.content = .ref kind data ∧ r.kind = useOf kind) ∨
      r.kind = .memberAccess ∧ (∃ init, a.node.content = .ctorInit init) ∨
      r.kind = .typeUse

section

variable {unit : ParsedUnit} {options : WalkOptions} {watched : Bool} {a : Stop}

/-- What a stop delivers is what it adds to the facts. -/
lemma Stop.delivered_eq {ctx : WalkContext} {new : List Fact}
    (h : (a.arrived ctx).2.facts.toList = a.state.facts.toList ++ new) : a.delivered ctx = new :=
  List.append_cancel_left ((facts_arrived ctx a).symm.trans h)

/-- What is delivered for a call is a call. -/
lemma kind_of_mem_callFact? {current : Option String} {data : ExprData} {name? : Option Node}
    {r : Reference} (h : Fact.reference r ∈ (callFact? unit current data name?).toList) :
    r.kind = .call := by
  rw [Option.mem_toList, callFact?] at h
  obtain ⟨site, -, heq⟩ := Option.bind_eq_some_iff.mp h
  obtain rfl := Fact.reference.inj (Option.some.inj heq)
  rfl

/-- What is delivered for a name is the use that it is. -/
lemma kind_of_mem_useFact? {current : Option String} {kind : RefKind} {data : RefData}
    {r : Reference} (h : Fact.reference r ∈ (useFact? unit options current kind data).toList) :
    r.kind = useOf kind := by
  rw [Option.mem_toList, useFact?] at h
  obtain ⟨id, -, h⟩ := Option.bind_eq_some_iff.mp h
  obtain ⟨info, -, h⟩ := Option.bind_eq_some_iff.mp h
  split at h
  · exact absurd h (by simp)
  obtain ⟨target, -, h⟩ := Option.bind_eq_some_iff.mp h
  obtain ⟨site, -, heq⟩ := Option.bind_eq_some_iff.mp h
  obtain rfl := Fact.reference.inj (Option.some.inj heq)
  rfl

/-- A call is reported where the walk comes to it. -/
lemma delivered_call (hids : unit.root.ids.Nodup) (ha : a ∈ stops unit options watched)
    (hplaced : a.Placed) {kind : ExprKind} {data : ExprData}
    (hcontent : a.node.content = .expr kind data) (hkind : kind.isCall) {name? : Option Node}
    (hname : calleeOfFirst? 0 a.node.inner = name?.bind refOf?) :
    a.delivered ⟨unit, options, .never⟩ =
      (callFact? unit a.state.tracker.current data name?).toList := by
  have hctx : (⟨unit, options, .never⟩ : WalkContext).cancelled = .never := rfl
  have hcall : IsCall a.node := ⟨kind, data, hcontent, hkind⟩
  have hreport : reportStmt a.node.content a.node.inner = emitCall data a.node.inner := by
    rw [hcontent, reportStmt, if_pos hkind]
  refine Stop.delivered_eq ?_
  rw [arrived_of_isCall hids ha hplaced hcall,
    exec_arriveStmt_of_not_isDecl hctx hcall.not_isDecl, hreport]
  exact facts_emitCall hctx data hname (asked a.state)

/-- The name of a callee is passed over. -/
lemma delivered_of_role {depth : Nat} (hrole : a.role = .callee a.node.id depth)
    (ctx : WalkContext) : a.delivered ctx = [] := by
  refine Stop.delivered_eq ?_
  have hpassed : ¬(a.node.id ≠ a.node.id ∧ depth < maxCalleeDepth ∧
      isCalleeWrapper a.node.content) := fun h => h.1 rfl
  rw [Stop.arrived, hrole, arrive, if_neg hpassed, if_pos rfl, exec_pure, List.append_nil]

/-- Any other name is reported as the use that it is. -/
lemma delivered_name (hplaced : a.Placed) {kind : RefKind} {data : RefData}
    (hcontent : a.node.content = .ref kind data)
    (hrole : ∀ depth, a.role ≠ .callee a.node.id depth) :
    a.delivered ⟨unit, options, .never⟩ =
      (useFact? unit options a.state.tracker.current kind data).toList := by
  have hctx : (⟨unit, options, .never⟩ : WalkContext).cancelled = .never := rfl
  have hdecl : ¬a.node.content.isDecl := by
    rw [hcontent]
    exact Bool.false_ne_true
  have hwrapper : ¬isCalleeWrapper a.node.content := by
    rw [hcontent, isCalleeWrapper_ref]
    exact Bool.false_ne_true
  have hreport : reportStmt a.node.content a.node.inner = emitRef kind data := by
    rw [hcontent, reportStmt]
  refine Stop.delivered_eq ?_
  rw [hplaced.arrived_eq hdecl hwrapper (by simp [hcontent]) hrole,
    exec_arriveStmt_of_not_isDecl hctx hdecl, hreport]
  exact facts_emitRef hctx kind data (asked a.state)

/-- At every node that it meets a walk reports what it has to. -/
lemma reports_of_met (hids : unit.root.ids.Nodup) (ha : a ∈ stops unit options watched)
    (hmet : Met unit.root a.node) : a.Reports unit options := by
  have hplaced := hmet.placed hids ha
  have hrole := exists_role_iff hids ha hmet
  -- the three roles in turn: at a call, at the name of what is called, at any other name
  have hcall {kind : ExprKind} {data : ExprData} (hcontent : a.node.content = .expr kind data)
      (hkind : kind.isCall) : ∃ name? : Option Node, (∀ n, name? = some n ↔ CalleeName a.node n) ∧
        a.delivered ⟨unit, options, .never⟩ =
          (callFact? unit a.state.tracker.current data name?).toList := by
    obtain ⟨name?, hname, hfirst⟩ := exists_callee a.node
    exact ⟨name?, hname, delivered_call hids ha hplaced hcontent hkind hfirst⟩
  have hcallee (h : NamesCallee unit a.node) : a.delivered ⟨unit, options, .never⟩ = [] := by
    obtain ⟨depth, hdepth⟩ := hrole.mpr h
    exact delivered_of_role hdepth _
  have hname {kind : RefKind} {data : RefData} (hcontent : a.node.content = .ref kind data)
      (h : ¬NamesCallee unit a.node) : a.delivered ⟨unit, options, .never⟩ =
        (useFact? unit options a.state.tracker.current kind data).toList :=
    delivered_name hplaced hcontent fun depth hdepth => h (hrole.mp ⟨depth, hdepth⟩)
  refine ⟨hcall, hcallee, hname, fun r hr => ?_⟩
  -- what else is delivered can only be the use of a type or of a member
  by_cases h : IsCall a.node
  · obtain ⟨kind, data, hcontent, hkind⟩ := id h
    obtain ⟨name?, -, hdelivered⟩ := hcall hcontent hkind
    rw [hdelivered] at hr
    exact Or.inl ⟨kind_of_mem_callFact? hr, h⟩
  by_cases href : ∃ kind data, a.node.content = .ref kind data
  · obtain ⟨kind, data, hcontent⟩ := href
    by_cases hnames : NamesCallee unit a.node
    · rw [hcallee hnames] at hr
      exact absurd hr (by simp)
    · rw [hname hcontent hnames] at hr
      exact Or.inr (Or.inl ⟨kind, data, hcontent, kind_of_mem_useFact? hr⟩)
  · push Not at href
    obtain ⟨-, new, hnew, hkinds⟩ :=
      Tells.arrive a.role h href ⟨unit, options, .never⟩ a.state
    rw [Stop.delivered_eq hnew] at hr
    exact Or.inr (Or.inr (hkinds _ hr r rfl).symm)

end

/-- **Every use is reported once**. A walk that is not cancelled comes to every node that it meets,
to none twice, and reports there the call or the use that the node makes; of a callee, the name
that is reported with the call is passed over, and nothing else. -/
theorem run_reports_uses (unit : ParsedUnit) (options : WalkOptions) {c : CancelSchedule}
    (hc : c.Monotone) (watched : Bool) (hids : unit.root.ids.Nodup)
    (hend : (run unit options c watched).stats.aborted = false) :
    (run unit options c watched).facts =
        (stops unit options watched).flatMap (Stop.delivered ⟨unit, options, .never⟩) ∧
      ((stops unit options watched).map (·.node.id)).Nodup ∧
      (∀ n, Met unit.root n → ∃ a ∈ stops unit options watched, a.node = n) ∧
      (∀ a ∈ stops unit options watched,
        Met unit.root a.node ∨ a.delivered ⟨unit, options, .never⟩ = []) ∧
      (∀ a ∈ stops unit options watched, Met unit.root a.node → a.Reports unit options) ∧
      ∀ n child, Met unit.root n → ¬n.content.isDecl → child ∈ n.inner →
        ¬isMadeUp child.content → Met unit.root child := by
  refine ⟨facts_run hc hend, nodup_stops hids, ?_, ?_, ?_, ?_⟩
  · intro n hmet
    obtain ⟨a, ha, -, hnode⟩ : ∃ a ∈ stops unit options watched, a.Placed ∧ a.node = n :=
      hmet.exists_stop hids
    exact ⟨a, ha, hnode⟩
  · exact fun a ha => met_of_mem_stops hids ha
  · exact fun a ha hmet => reports_of_met hids ha hmet
  · intro n child hmet hdecl hchild hup
    exact hmet.passes ⟨.part hdecl hchild, hup⟩

/-- A call whose callee is named in a conversion, with a variable as its argument. -/
def callThroughCast : Node :=
  let place (line : UInt64) : SourceLocation :=
    ⟨some ⟨0, "<stdin>", line, 1, 1, none, none, none, false⟩, none⟩
  let name (id line : UInt64) : Content :=
    .ref .declRef { loc := some (place line), referenced := some { id := ⟨id⟩ } }
  ⟨⟨5⟩, .expr .call {}, [
    ⟨⟨6⟩, .expr .implicitCast {}, [⟨⟨7⟩, name 2 4, []⟩]⟩,
    ⟨⟨8⟩, name 3 5, []⟩]⟩

/-- A function and two variables, the last of them initialized by the call. -/
def initializedByCall : ParsedUnit :=
  let place (line : UInt64) : SourceLocation :=
    ⟨some ⟨0, "<stdin>", line, 1, 1, none, none, none, false⟩, none⟩
  .ofRoot ⟨⟨1⟩, .decl .translationUnit {}, [
      ⟨⟨2⟩, .decl .function { name := some "f", loc := some (place 1) }, []⟩,
      ⟨⟨3⟩, .decl .var { name := some "v", loc := some (place 2) }, []⟩,
      ⟨⟨4⟩, .decl .var { name := some "w", init := some "c" }, [callThroughCast]⟩]⟩
    ⟨"/m.cpp", ⟨"/"⟩, fun _ => none⟩

/-- The walk reports the call and the argument, and passes over the name in the conversion. -/
theorem run_reports_uses_initializedByCall :
    (∃ a ∈ stops initializedByCall {} false,
        a.node.id = ⟨7⟩ ∧ a.delivered ⟨initializedByCall, {}, .never⟩ = []) ∧
      (run initializedByCall {} .never false).facts.filterMap
        (fun | .reference r => some r.kind | .symbol _ => none) = [.call, .variableRead] := by
  have hids : initializedByCall.root.ids.Nodup := by decide
  have hend : (run initializedByCall {} .never false).stats.aborted = false := rfl
  obtain ⟨-, -, hstops, -, hreports, hparts⟩ :=
    run_reports_uses initializedByCall {} CancelSchedule.monotone_never false hids hend
  -- from the root down to the name, one node after the other is met
  have hroot : Met initializedByCall.root initializedByCall.root :=
    ⟨by decide, Or.inl ⟨rfl, rfl⟩⟩
  have hvar : Met initializedByCall.root ⟨⟨4⟩, .decl .var _, [callThroughCast]⟩ :=
    hroot.passes ⟨.nested rfl (List.mem_of_mem_getLast? rfl) rfl, by decide⟩
  have hcall : Met initializedByCall.root callThroughCast :=
    hvar.passes ⟨.owned rfl List.mem_cons_self (by decide), by decide⟩
  have hcast : Met initializedByCall.root _ :=
    hparts _ _ hcall (by decide) List.mem_cons_self (by decide)
  have hname : Met initializedByCall.root _ :=
    hparts _ _ hcast (by decide) List.mem_cons_self (by decide)
  have hget : (initializedByCall.decls.get? ⟨2⟩).map
      (fun info => (info.cls, info.isImplicit)) = some (.function, false) := by cbv
  obtain ⟨info, hinfo, hknown⟩ := Option.map_eq_some_iff.mp hget
  obtain ⟨hcls, himplicit⟩ := Prod.mk.inj hknown
  obtain ⟨a, ha, hnode⟩ := hstops _ hname
  -- behind one conversion the name is still that of what is called
  have hcallee : NamesCallee initializedByCall a.node := by
    rw [hnode]
    refine ⟨⟨_, _, ⟨2⟩, info, rfl, rfl, hinfo, hcls, himplicit⟩, callThroughCast,
      hcall.mem_nodes, ⟨_, _, rfl, rfl⟩, _, 1, rfl, by decide, .wrapper rfl rfl (.name rfl)⟩
  refine ⟨⟨a, ha, by rw [hnode], ?_⟩, by cbv⟩
  exact (hreports a ha (by rwa [hnode])).callee hcallee

end UnitIndex.Walk
