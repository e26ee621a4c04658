import Mathlib.Tactic
import UnitIndex.Proofs.Walk.Callees

/-!
Two walks side by side.

`Simulates` compares two walks at a single node: nodes that correspond look the same to every
course, and from states that correspond both walks leave them by the same courses, in states that
correspond again. Then whole visits do the same (`Simulates.visit`), and the two walks make the same
stops (`Simulates.log`). What the correspondences are is left open: the walks may be over two trees,
or over one tree with two sets of options. Of the latter `simulates_options` says that the options
have no bearing on where a walk goes: the two walks make the same stops, each time in the same file
and with the same declarations behind them.
-/

namespace UnitIndex.Walk

variable {α : Type}

/-- Two outcomes with the same result, in states that correspond. -/
def Agree (S : WalkState → WalkState → Prop) (r r' : α × WalkState) : Prop :=
  r.1 = r'.1 ∧ S r.2 r'.2

/-- Two walks go on in the same way, over nodes that correspond by `N`, through states that
correspond by `S`. -/
structure Simulates (ctx ctx' : WalkContext) (N : Node → Node → Prop)
    (S : WalkState → WalkState → Prop) : Prop where
  inner : ∀ {n n'}, N n n' → List.Forall₂ N n.inner n'.inner
  role? : ∀ {n n'}, N n n' → ∀ course : Course, course.role? n.content = course.role? n'.content
  next : ∀ {n n'}, N n n' → ∀ course : Course, course.next n.content = course.next n'.content
  arrive : ∀ {n n' s s'}, N n n' → S s s' → ∀ role,
    Agree S (exec (arrive role n.id n.content n.inner) ctx s)
      (exec (arrive role n'.id n'.content n'.inner) ctx' s')
  turnsBack : ∀ {s s'}, S s s' → ∀ course,
    Agree S (exec (turnsBack course) ctx s) (exec (turnsBack course) ctx' s')

/-- Two stops in the same role, at nodes and in states that correspond. -/
structure Stop.Paired (N : Node → Node → Prop) (S : WalkState → WalkState → Prop)
    (a b : Stop) : Prop where
  role : a.role = b.role
  node : N a.node b.node
  state : S a.state b.state

namespace Simulates

variable {ctx ctx' : WalkContext} {N : Node → Node → Prop} {S : WalkState → WalkState → Prop}

/-- Walks along corresponding nodes do the same. -/
lemma visitAll (h : Simulates ctx ctx' N S) {ns ns' : List Node} (hns : List.Forall₂ N ns ns')
    (hvisit : ∀ c ∈ ns, ∀ {c' role s s'}, N c c' → S s s' →
      S (exec (visit role c) ctx s).2 (exec (visit role c') ctx' s').2)
    (course : Course) {s s' : WalkState} (hs : S s s') :
    S (exec (Walk.visitAll course ns) ctx s).2 (exec (Walk.visitAll course ns') ctx' s').2 := by
  induction hns generalizing course s s' with
  | nil =>
      rw [Walk.visitAll]
      exact hs
  | @cons n n' rest rest' hn _ ih =>
      obtain ⟨hfirst, hrest⟩ := List.forall_mem_cons.mp hvisit
      by_cases hcourse : course = .nothing
      · rw [hcourse, exec_visitAll_nothing, exec_visitAll_nothing]
        exact hs
      rw [exec_visitAll_cons hcourse, exec_visitAll_cons hcourse]
      -- both turn back or neither does, and both have the same role for the first node
      obtain ⟨hback, hstate⟩ := h.turnsBack hs course
      dsimp only
      rw [← hback, ← h.role? hn, ← h.next hn]
      split
      · exact hstate
      cases course.role? n.content with
      | none => exact ih hrest _ hstate
      | some role => exact ih hrest _ (hfirst hn hstate)

/-- From states that correspond, visits to nodes that correspond lead to states that correspond. -/
lemma visit (h : Simulates ctx ctx' N S) {n n' : Node} (hn : N n n') (role : Role)
    {s s' : WalkState} (hs : S s s') :
    S (exec (Walk.visit role n) ctx s).2 (exec (Walk.visit role n') ctx' s').2 := by
  induction n using Node.induction generalizing n' role s s' with
  | h n ih =>
      obtain ⟨hcourses, harrived⟩ := h.arrive hn hs role
      have hchildren (c : Node) (hc : c ∈ n.inner) {c' : Node} {role : Role} {s s' : WalkState}
          (hcc : N c c') (hss : S s s') := ih c hc hcc role hss
      rw [exec_visit, exec_visit]
      dsimp only
      rw [← hcourses]
      refine h.visitAll (h.inner hn) hchildren _ ?_
      exact h.visitAll (h.inner hn) hchildren _ harrived

/-- They stop at corresponding nodes, in corresponding states. -/
lemma stopsAlong (h : Simulates ctx ctx' N S) {ns ns' : List Node} (hns : List.Forall₂ N ns ns')
    (course : Course) {s s' : WalkState} (hs : S s s') :
    List.Forall₂ (Stop.Paired N S) (Walk.stopsAlong ctx course ns s)
      (Walk.stopsAlong ctx' course ns' s') := by
  induction hns generalizing course s s' with
  | nil => exact .nil
  | @cons n n' rest rest' hn _ ih =>
      rw [Walk.stopsAlong, Walk.stopsAlong]
      split
      · exact .nil
      obtain ⟨hback, hstate⟩ := h.turnsBack hs course
      dsimp only
      rw [← hback, ← h.role? hn, ← h.next hn]
      split
      · exact .nil
      cases course.role? n.content with
      | none => exact ih _ hstate
      | some role => exact .cons ⟨rfl, hn, hstate⟩ (ih _ (h.visit hn role hstate))

/-- At corresponding stops both walks arrive alike. -/
lemma arrived (h : Simulates ctx ctx' N S) {a b : Stop} (hab : a.Paired N S b) :
    Agree S (a.arrived ctx) (b.arrived ctx') := by
  rw [Stop.arrived, Stop.arrived, hab.role]
  exact h.arrive hab.node hab.state b.role

/-- So they go on to corresponding stops. -/
lemma next_stops (h : Simulates ctx ctx' N S) {a b : Stop} (hab : a.Paired N S b) :
    List.Forall₂ (Stop.Paired N S) (a.next ctx) (b.next ctx') := by
  obtain ⟨hcourses, hstate⟩ := h.arrived hab
  have hinner := h.inner hab.node
  rw [Stop.next, Stop.next, ← hcourses]
  refine List.rel_append (h.stopsAlong hinner _ hstate) (h.stopsAlong hinner _ ?_)
  exact h.visitAll hinner (fun c _ c' role s s' hc hs => h.visit hc role hs) _ hstate

/-- What corresponds part by part corresponds as a whole. -/
lemma forall₂_flatMap {α β : Type} {R : α → α → Prop} {P : β → β → Prop} {f g : α → List β}
    {l l' : List α} (h : List.Forall₂ R l l')
    (hfg : ∀ a ∈ l, ∀ b, R a b → List.Forall₂ P (f a) (g b)) :
    List.Forall₂ P (l.flatMap f) (l'.flatMap g) := by
  induction h with
  | nil => exact .nil
  | @cons a b _ _ hab _ ih =>
      obtain ⟨hfirst, hrest⟩ := List.forall_mem_cons.mp hfg
      rw [List.flatMap_cons, List.flatMap_cons]
      exact List.rel_append (hfirst b hab) (ih hrest)

/-- **The two walks make the same stops**: in the same roles, at nodes and in states that
correspond. -/
lemma log (h : Simulates ctx ctx' N S) {a b : Stop} (hab : a.Paired N S b) :
    List.Forall₂ (Stop.Paired N S) (a.log ctx) (b.log ctx') := by
  induction a using Stop.induction ctx generalizing b with
  | h a ih =>
      rw [Stop.log_eq, Stop.log_eq]
      refine .cons hab (forall₂_flatMap (h.next_stops hab) fun c hc d hcd => ?_)
      exact ih c hc hcd

end Simulates

/-! ### Two walks over one unit -/

/-- Two states in which a walk is in the same file and has entered the same declarations. -/
structure Same (s t : WalkState) : Prop where
  tracker : s.tracker = t.tracker
  visited : s.visited = t.visited

namespace Same

variable {s t u : WalkState}

lemma refl (s : WalkState) : Same s s := ⟨rfl, rfl⟩

lemma symm (h : Same s t) : Same t s := ⟨h.tracker.symm, h.visited.symm⟩

lemma trans (h : Same s t) (h' : Same t u) : Same s u :=
  ⟨h.tracker.trans h'.tracker, h.visited.trans h'.visited⟩

/-- A question makes no difference. -/
lemma asked (h : Same s t) : Same (asked s) (Walk.asked t) := ⟨h.tracker, h.visited⟩

end Same

/-- Reports leave the file and the declarations entered as they are. -/
lemma Action.same {x : WalkM α} (h : Action false x) (ctx : WalkContext) (s : WalkState) :
    Same s (exec x ctx s).2 := by
  induction h generalizing s with
  | pure a => exact .refl s
  | bind _ _ ihx ihf => exact (ihx s).trans (ihf _ _)
  | read _ _ ih => exact ih ctx s
  | get _ _ ih => exact ih s s
  | ask => exact ⟨rfl, rfl⟩
  | emit fact =>
      rw [exec_emit]
      split
      · exact ⟨rfl, rfl⟩
      · exact ⟨rfl, rfl⟩
  | resolve type => exact ⟨rfl, rfl⟩
  | enter id content h => exact absurd h (by simp)

/-- A report made in two walks keeps them together, whatever it is. -/
lemma Action.same_both {x : WalkM α} (h : Action false x) (ctx ctx' : WalkContext)
    {s s' : WalkState} (hs : Same s s') : Same (exec x ctx s).2 (exec x ctx' s').2 :=
  (h.same ctx s).symm.trans (hs.trans (h.same ctx' s'))

section

variable {unit : ParsedUnit} {options options' : WalkOptions} {s s' : WalkState}

/-- To enter a declaration moves the tracker to its location. -/
lemma tracker_enter (id : NodeId) (content : Content) (ctx : WalkContext) (s : WalkState) :
    (exec (enter id content) ctx s).2.tracker =
      content.loc?.elim s.tracker (s.tracker.observe ctx.unit.names) := by
  rw [enter]
  cases content.loc? <;> rfl

/-- The options make no difference to that. -/
lemma same_enter (id : NodeId) (content : Content) (hs : Same s s') :
    Same (exec (enter id content) ⟨unit, options, .never⟩ s).2
      (exec (enter id content) ⟨unit, options', .never⟩ s').2 where
  tracker := by
    rw [tracker_enter, tracker_enter, hs.tracker]
  visited := congrArg (·.insert id) hs.visited

lemma agree_arriveDecl (id : NodeId) (content : Content) (hs : Same s s') :
    Agree Same (exec (arriveDecl id content) ⟨unit, options, .never⟩ s)
      (exec (arriveDecl id content) ⟨unit, options', .never⟩ s') := by
  rw [exec_arriveDecl rfl, exec_arriveDecl rfl, hs.visited]
  split
  · exact ⟨rfl, hs.asked⟩
  split
  · exact ⟨rfl, hs.asked⟩
  · exact ⟨rfl, (Action.reportDecl id content).same_both _ _ (same_enter id content hs.asked)⟩

lemma agree_arriveStmt (id : NodeId) (content : Content) (inner : List Node) (hs : Same s s') :
    Agree Same (exec (arriveStmt id content inner) ⟨unit, options, .never⟩ s)
      (exec (arriveStmt id content inner) ⟨unit, options', .never⟩ s') := by
  by_cases hdecl : content.isDecl
  · rw [exec_arriveStmt rfl, exec_arriveStmt rfl, if_pos hdecl]
    exact agree_arriveDecl id content hs.asked
  · rw [exec_arriveStmt_of_not_isDecl rfl hdecl, exec_arriveStmt_of_not_isDecl rfl hdecl]
    exact ⟨rfl, (Action.reportStmt content inner).same_both _ _ hs.asked⟩

/-- **The options have no bearing on where a walk goes from a node**, whatever the role. -/
lemma agree_arrive (role : Role) (id : NodeId) (content : Content) (inner : List Node)
    (hs : Same s s') :
    Agree Same (exec (arrive role id content inner) ⟨unit, options, .never⟩ s)
      (exec (arrive role id content inner) ⟨unit, options', .never⟩ s') := by
  cases role with
  | decl => exact agree_arriveDecl id content hs
  | stmt => exact agree_arriveStmt id content inner hs
  | callee name depth =>
      rw [arrive]
      split
      · exact ⟨rfl, hs⟩
      split
      · exact ⟨rfl, hs⟩
      · exact agree_arriveStmt id content inner hs
  | initializer ctor =>
      cases content with
      | ctorInit init => exact ⟨rfl, (Action.arriveInitializer ctor init inner).same_both _ _ hs⟩
      | _ => exact ⟨rfl, hs⟩

/-- The options do not change where a walk goes. -/
lemma simulates_options (unit : ParsedUnit) (options options' : WalkOptions) :
    Simulates ⟨unit, options, .never⟩ ⟨unit, options', .never⟩ Eq Same where
  inner := by
    rintro n _ rfl
    exact List.forall₂_same.mpr fun _ _ => rfl
  role? := by
    rintro n _ rfl course
    rfl
  next := by
    rintro n _ rfl course
    rfl
  arrive := by
    rintro n _ s s' rfl hs role
    exact agree_arrive role n.id n.content n.inner hs
  turnsBack := by
    intro s s' hs course
    refine ⟨?_, (Action.turnsBack course).same_both _ _ hs⟩
    rw [exec_turnsBack rfl, exec_turnsBack rfl]

end

end UnitIndex.Walk
