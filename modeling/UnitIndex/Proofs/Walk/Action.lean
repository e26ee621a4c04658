import Mathlib.Tactic
import UnitIndex.Walk.Run

/-!
What a walk is made of.

Every step of the walk is put together from few actions: to ask whether the walk is cancelled, to
deliver a fact, to resolve a type, to enter a declaration, and to look at what is known. `Action`
is the closure of these under sequencing, and `Action.visit` says that the whole walk lies in it. A
law of the walk is thus proved by induction over `Action`, one case for each of the few; the code
of the walk is gone through only here. Steps that report something about a node without entering
anything lie in `Action false`.
-/

namespace UnitIndex.Walk

variable {α β : Type}

/-- The outcome of an action: its result and the state behind it. -/
def exec (x : WalkM α) (ctx : WalkContext) (s : WalkState) : α × WalkState := (x.run ctx).run s

@[simp] lemma exec_pure (a : α) (ctx : WalkContext) (s : WalkState) :
    exec (pure a) ctx s = (a, s) := rfl

@[simp] lemma exec_bind (x : WalkM α) (f : α → WalkM β) (ctx : WalkContext) (s : WalkState) :
    exec (x >>= f) ctx s = exec (f (exec x ctx s).1) ctx (exec x ctx s).2 := rfl

@[simp] lemma exec_read (ctx : WalkContext) (s : WalkState) :
    exec (read : WalkM WalkContext) ctx s = (ctx, s) := rfl

/-- A question is counted, whatever the answer. -/
@[simp] lemma exec_isCancelled (ctx : WalkContext) (s : WalkState) :
    exec isCancelled ctx s =
      (ctx.cancelled s.polls.size s.facts.size, { s with polls := s.polls.push s.facts.size }) :=
  rfl

/-- The actions that a walk is made of; `entering` tells whether declarations may be entered. What
is read of the context depends neither on when the walk is cancelled nor on the tree it goes over,
and what is read of the state does not depend on what has been asked, counted and delivered. -/
inductive Action (entering : Bool) : {α : Type} → WalkM α → Prop where
  | pure {α : Type} (a : α) : Action entering (pure a)
  | bind {α β : Type} {x : WalkM α} {f : α → WalkM β} :
      Action entering x → (∀ a, Action entering (f a)) → Action entering (x >>= f)
  | read {α : Type} {f : WalkContext → WalkM α} :
      (∀ ctx, Action entering (f ctx)) →
      (∀ ctx c root,
        f { ctx with cancelled := c, unit := { ctx.unit with root := root } } = f ctx) →
      Action entering (read >>= f)
  | get {α : Type} {f : WalkState → WalkM α} :
      (∀ s, Action entering (f s)) →
      (∀ s stats facts polls, f { s with stats := stats, facts := facts, polls := polls } = f s) →
      Action entering (get >>= f)
  | ask : Action entering isCancelled
  | emit (fact : Fact) : Action entering (emit fact)
  | resolve (type : WrittenType) : Action entering (resolveType type)
  | enter (id : NodeId) (content : Content) : entering = true → Action entering (enter id content)

namespace Action

variable {entering : Bool}

/-! ### Reports -/

/-- To look at positions, declarations and targets takes nothing but what is known. -/
lemma site? (loc : Option SourceLocation) : Action entering (Walk.site? loc) :=
  .read (fun _ => .get (fun _ => .pure _) fun _ _ _ _ => rfl) fun _ _ _ => rfl

lemma decl? (id : NodeId) : Action entering (Walk.decl? id) :=
  .read (fun _ => .pure _) fun _ _ _ => rfl

lemma target? (id : NodeId) : Action entering (Walk.target? id) :=
  .read (fun _ => .pure _) fun _ _ _ => rfl

lemma isIndexable (id : NodeId) : Action entering (Walk.isIndexable id) :=
  .read (fun _ => .bind (decl? id) fun _ => .pure _) fun _ _ _ => rfl

lemma isFunction (id : NodeId) : Action entering (Walk.isFunction id) :=
  .bind (decl? id) fun _ => .pure _

/-- A reference is one fact. -/
lemma emitReference (kind : ReferenceKind) (site : FileLocation) (target : Option Target) :
    Action entering (Walk.emitReference kind site target) := .emit _

/-- The place of a type is looked up when the type is resolved. -/
lemma typeLocation? (type : Option WrittenType) : Action entering (Walk.typeLocation? type) := by
  cases type with
  | none => exact .pure _
  | some type =>
      refine .bind (.resolve type) fun found => ?_
      cases found with
      | none => exact .pure _
      | some id => exact .bind (decl? id) fun _ => .pure _

lemma typeTarget? (type : WrittenType) : Action entering (Walk.typeTarget? type) := by
  refine .bind (.resolve type) fun found => ?_
  cases found with
  | none => exact .pure _
  | some id => exact target? id

/-- A local declaration is reported or not, as the options say. -/
lemma reportsLocal (id : NodeId) (kind : DeclKind) :
    Action entering (Walk.reportsLocal id kind) := by
  refine .read (fun ctx => ?_) fun _ _ _ => rfl
  split
  · exact .pure _
  · exact .bind (decl? id) fun _ => .pure _
  · exact .pure _

/-- A symbol is looked up, placed and delivered. -/
lemma emitSymbol (id : NodeId) (data : DeclData) (kind : SymbolKind) :
    Action entering (Walk.emitSymbol id data kind) := by
  refine .bind .ask fun cancelled => ?_
  split
  · exact .pure _
  refine .bind (decl? id) fun info => ?_
  cases info with
  | none => exact .pure _
  | some info =>
      dsimp only
      split
      · exact .pure _
      refine .bind (site? _) fun location => ?_
      cases location with
      | none => exact .pure _
      | some location =>
          exact .read (fun _ => .bind (typeLocation? _) fun _ => .emit _) fun _ _ _ => rfl

lemma emitUse (kind : ReferenceKind) (loc : Option SourceLocation) (id : NodeId) :
    Action entering (Walk.emitUse kind loc id) := by
  refine .bind (isIndexable id) fun indexable => ?_
  split
  · exact .pure _
  refine .bind (target? id) fun target => ?_
  cases target with
  | none => exact .pure _
  | some target =>
      refine .bind (site? loc) fun site => ?_
      cases site with
      | none => exact .pure _
      | some site => exact emitReference _ _ _

lemma emitRef (kind : RefKind) (data : RefData) : Action entering (Walk.emitRef kind data) := by
  rw [Walk.emitRef]
  cases refTarget? kind data with
  | none => exact .pure _
  | some id => exact emitUse _ _ _

/-- The use of a type is reported where its declaration is known. -/
lemma emitTypeUse (data : ExprData) (type : Option WrittenType) :
    Action entering (Walk.emitTypeUse data type) := by
  cases type with
  | none => exact .pure _
  | some type =>
      refine .bind (.resolve _) fun found => ?_
      cases found with
      | none => exact .pure _
      | some id =>
          refine .bind (site? _) fun site => ?_
          cases site with
          | none => exact .pure _
          | some site =>
              refine .bind (target? _) fun target => ?_
              cases target with
              | none => exact .pure _
              | some target => exact emitReference _ _ _

lemma callsFunction (inner : List Node) : Action entering (Walk.callsFunction inner) := by
  rw [Walk.callsFunction]
  cases calleeDecl? inner with
  | none => exact .pure _
  | some id => exact isFunction id

lemma callTarget? (inner : List Node) : Action entering (Walk.callTarget? inner) := by
  rw [Walk.callTarget?]
  cases calleeDecl? inner with
  | none => exact .pure _
  | some id =>
      refine .bind (isFunction id) fun isFunction => ?_
      split
      · exact target? id
      · exact .pure _

/-- A call is reported whether or not its target is known. -/
lemma emitCall (data : ExprData) (inner : List Node) :
    Action entering (Walk.emitCall data inner) := by
  refine .bind (site? _) fun site => ?_
  cases site with
  | none => exact .pure _
  | some site => exact .bind (callTarget? inner) fun _ => emitReference _ _ _

/-- **Initializers.** -/
lemma arriveInitializer (ctor : Option SourceLocation) (init : CtorInit) (inner : List Node) :
    Action entering (Walk.arriveInitializer ctor init inner) := by
  refine .bind (site? _) fun site => ?_
  cases site with
  | none => exact .pure _
  | some site =>
      dsimp only
      cases init.member with
      | some member =>
          refine .bind (isIndexable _) fun indexable => ?_
          split
          · exact .bind (target? _) fun _ => emitReference _ _ _
          · exact .pure _
      | none =>
          dsimp only
          cases init.base.or init.delegating with
          | none => exact .pure _
          | some type => exact .bind (typeTarget? type) fun _ => emitReference _ _ _

/-- What is reported of a declaration. -/
lemma reportDecl (id : NodeId) (content : Content) :
    Action entering (Walk.reportDecl id content) := by
  cases content with
  | decl kind data =>
      rw [Walk.reportDecl]
      cases symbolKind? kind with
      | none => exact .pure _
      | some symbol =>
          refine .bind (reportsLocal _ _) fun reports => ?_
          split
          · exact emitSymbol _ _ _
          · exact .pure _
  | _ => exact .pure _

/-- What is reported of a statement. -/
lemma reportStmt (content : Content) (inner : List Node) :
    Action entering (Walk.reportStmt content inner) := by
  cases content with
  | expr kind data =>
      rw [Walk.reportStmt]
      split
      · exact emitCall data inner
      refine .read (fun ctx => ?_) fun _ _ _ => rfl
      split
      · split
        · exact emitTypeUse _ _
        split
        · exact emitTypeUse _ _
        · exact .pure _
      · exact .pure _
  | ref kind data => exact emitRef kind data
  | _ => exact .pure _

/-- How a walk goes on below a statement depends on what it knows of the callee. -/
lemma stmtCourse (content : Content) (inner : List Node) :
    Action entering (Walk.stmtCourse content inner) := by
  cases content with
  | expr kind data =>
      rw [Walk.stmtCourse]
      split
      · exact .pure _
      split
      · exact .bind (callsFunction inner) fun _ => .pure _
      · exact .pure _
  | _ => exact .pure _

/-! ### Nodes -/

/-- **Declarations** are the only nodes that are entered. -/
lemma arriveDecl (id : NodeId) (content : Content) : Action true (Walk.arriveDecl id content) := by
  refine .bind .ask fun cancelled => ?_
  split
  · exact .pure _
  split
  · exact .pure _
  refine .get (fun s => ?_) fun _ _ _ _ => rfl
  split
  · exact .pure _
  · exact .bind (.enter id content rfl) fun _ => .bind (reportDecl id content) fun _ => .pure _

/-- **Statements.** -/
lemma arriveStmt (id : NodeId) (content : Content) (inner : List Node) :
    Action true (Walk.arriveStmt id content inner) := by
  refine .bind .ask fun cancelled => ?_
  split
  · exact .pure _
  split
  · exact arriveDecl _ _
  · exact .bind (reportStmt content inner) fun _ =>
      .bind (stmtCourse content inner) fun _ => .pure _

/-- **Nodes**, in whatever role they are visited. -/
lemma arrive (role : Role) (id : NodeId) (content : Content) (inner : List Node) :
    Action true (Walk.arrive role id content inner) := by
  cases role with
  | decl => exact arriveDecl _ _
  | stmt => exact arriveStmt _ _ _
  | callee name depth =>
      rw [Walk.arrive]
      split
      · exact .pure _
      · split
        · exact .pure _
        · exact arriveStmt _ _ _
  | initializer ctor =>
      cases content with
      | ctorInit init => exact .bind (arriveInitializer _ _ _) fun _ => .pure _
      | _ => exact .pure _

/-- A walk turns back if it is told to, and asks for that. -/
lemma turnsBack (course : Course) : Action entering (Walk.turnsBack course) := by
  rw [Walk.turnsBack]
  split
  · exact .ask
  · exact .pure _

mutual

/-- **The whole walk is an action**, by recursion on the tree. -/
lemma visit (role : Role) : ∀ n : Node, Action true (Walk.visit role n)
  | ⟨id, content, inner⟩ => by
      rw [Walk.visit]
      refine .bind (arrive role id content inner) fun courses => ?_
      exact .bind (visitAll _ inner) fun _ => visitAll _ inner

/-- The walk of some trees, one after the other. -/
lemma visitAll (course : Course) : ∀ ns : List Node, Action true (Walk.visitAll course ns)
  | [] => by
      rw [Walk.visitAll]
      exact .pure _
  | ⟨id, content, inner⟩ :: rest => by
      rw [Walk.visitAll]
      split
      · exact .pure _
      refine .bind (turnsBack course) fun back => ?_
      split
      · exact .pure _
      split
      · exact .bind (visit _ _) fun _ => visitAll _ rest
      · exact visitAll _ rest

end

end Action

end UnitIndex.Walk
