import Mathlib.Tactic
import UnitIndex.Proofs.Walk.Log

/-!
The names of callees.

The callee of a call boils down to a name through wrappers (`Wraps`), and that name is found in two
ways: from above, when the call is reported, and from below, when the walk comes to it and must not
report it again. `CalleeName` says without a word about either what the name of a callee is;
`exists_callee` compares it with the first way, and `exists_role_iff` with the second: of the nodes
that a walk meets, those that it visits as the name of a callee are the names of the callees of
calls to functions.
-/


namespace UnitIndex.Walk

/-! ### The names of callees -/

/-- Through so many wrappers, from first child to first child, the node boils down to the name. -/
inductive Wraps : Nat → Node → Node → Prop
  | name {n : Node} {kind : RefKind} {data : RefData} : n.content = .ref kind data → Wraps 0 n n
  | wrapper {depth : Nat} {n c name : Node} : isCalleeWrapper n.content →
      n.inner.head? = some c → Wraps depth c name → Wraps (depth + 1) n name

/-- The name of the callee of a call. -/
def CalleeName (call name : Node) : Prop :=
  ∃ callee depth, call.inner.head? = some callee ∧ depth ≤ 32 ∧ Wraps depth callee name

lemma isCalleeWrapper_ref (kind : RefKind) (data : RefData) :
    isCalleeWrapper (.ref kind data) = false := rfl

namespace Wraps

variable {depth : Nat} {n name : Node}

/-- What a node boils down to is a name. -/
lemma content (h : Wraps depth n name) : ∃ kind data, name.content = .ref kind data := by
  induction h with
  | name hcontent => exact ⟨_, _, hcontent⟩
  | wrapper _ _ _ ih => exact ih

/-- It is a node below. -/
lemma mem_nodes (h : Wraps depth n name) : name ∈ n.nodes := by
  induction h with
  | name => exact Node.self_mem_nodes _
  | wrapper _ hc _ ih => exact Node.mem_nodes_of_mem_inner (List.mem_of_mem_head? hc) ih

/-- A node boils down to one name at most. -/
lemma unique {depth' : Nat} {name' : Node} (h : Wraps depth n name) (h' : Wraps depth' n name') :
    name = name' := by
  induction h generalizing depth' with
  | name hcontent =>
      cases h' with
      | name => rfl
      | wrapper hwrapper => exact absurd hwrapper (by simp [hcontent, isCalleeWrapper_ref])
  | wrapper hwrapper hc _ ih =>
      cases h' with
      | name hcontent => exact absurd hwrapper (by simp [hcontent, isCalleeWrapper_ref])
      | wrapper _ hc' hwraps' =>
          obtain rfl := Option.some.inj (hc.symm.trans hc')
          exact ih hwraps'

/-- The name is found if the limit on wrappers is not met on the way. -/
lemma calleeOf? {passed : Nat} {kind : RefKind} {data : RefData} (h : Wraps depth n name)
    (hname : name.content = .ref kind data) (hdepth : passed + depth ≤ maxCalleeDepth) :
    Walk.calleeOf? passed n = some (name.id, kind, data) := by
  induction h generalizing passed with
  | @name n _ _ _ =>
      obtain ⟨id, content, inner⟩ := n
      dsimp only at hname
      rw [hname, Walk.calleeOf?]
  | @wrapper depth n c name hwrapper hc _ ih =>
      obtain ⟨id, content, inner⟩ := n
      cases inner with
      | nil => exact absurd hc (by simp)
      | cons first rest =>
          obtain rfl : first = c := Option.some.inj hc
          cases content with
          | expr k d =>
              -- a wrapper is passed through while the limit has not been met
              have hon : k.isCalleeWrapper && passed < maxCalleeDepth := by
                rw [Bool.and_eq_true, decide_eq_true_eq]
                exact ⟨hwrapper, by omega⟩
              rw [Walk.calleeOf?, if_pos hon, calleeOfFirst?]
              exact ih hname (by omega)
          | _ => exact absurd hwrapper (by simp [isCalleeWrapper])

end Wraps

mutual

/-- What is found is what the node boils down to. -/
lemma wraps_of_calleeOf? {depth : Nat} {id : NodeId} {kind : RefKind} {data : RefData} :
    ∀ {n : Node}, depth ≤ maxCalleeDepth → calleeOf? depth n = some (id, kind, data) →
      ∃ name wrappers, Wraps wrappers n name ∧ depth + wrappers ≤ maxCalleeDepth ∧
        name.id = id ∧ name.content = .ref kind data
  | ⟨nid, content, inner⟩, hdepth, h => by
      cases content with
      | ref k d =>
          rw [calleeOf?] at h
          obtain ⟨rfl, hkd⟩ := Prod.mk.inj (Option.some.inj h)
          obtain ⟨rfl, rfl⟩ := Prod.mk.inj hkd
          exact ⟨_, 0, .name rfl, hdepth, rfl, rfl⟩
      | expr k d =>
          rw [calleeOf?] at h
          split at h
          · next hon =>
              rw [Bool.and_eq_true, decide_eq_true_eq] at hon
              obtain ⟨c, hc, name, wrappers, hwraps, hle, hname⟩ :=
                wraps_of_calleeOfFirst? (by omega) h
              exact ⟨name, wrappers + 1, .wrapper hon.1 hc hwraps, by omega, hname⟩
          · exact absurd h (by simp)
      | decl k d => exact absurd h (by simp [calleeOf?])
      | ctorInit d => exact absurd h (by simp [calleeOf?])
      | other k l r => exact absurd h (by simp [calleeOf?])

lemma wraps_of_calleeOfFirst? {depth : Nat} {id : NodeId} {kind : RefKind} {data : RefData} :
    ∀ {ns : List Node}, depth ≤ maxCalleeDepth → calleeOfFirst? depth ns = some (id, kind, data) →
      ∃ c, ns.head? = some c ∧ ∃ name wrappers, Wraps wrappers c name ∧
        depth + wrappers ≤ maxCalleeDepth ∧ name.id = id ∧ name.content = .ref kind data
  | [], _, h => absurd h (by simp [calleeOfFirst?])
  | n :: _, hdepth, h => ⟨n, rfl, wraps_of_calleeOf? hdepth (by rwa [calleeOfFirst?] at h)⟩

end

/-- A node that names a declaration, as it is found. -/
def refOf? (n : Node) : Option (NodeId × RefKind × RefData) :=
  match n.content with
  | .ref kind data => some (n.id, kind, data)
  | _ => none

/-- The callee of a call has one name at most. -/
lemma CalleeName.unique {call n m : Node} (hn : CalleeName call n) (hm : CalleeName call m) :
    n = m := by
  obtain ⟨c, _, hc, -, hwraps⟩ := hn
  obtain ⟨d, _, hd, -, hwraps'⟩ := hm
  obtain rfl := Option.some.inj (hc.symm.trans hd)
  exact hwraps.unique hwraps'

/-- The name is below the call. -/
lemma CalleeName.mem_nodes {call name : Node} (h : CalleeName call name) : name ∈ call.nodes := by
  obtain ⟨c, depth, hc, -, hwraps⟩ := h
  exact Node.mem_nodes_of_mem_inner (List.mem_of_mem_head? hc) hwraps.mem_nodes

/-- The name of the callee is found if there is one, and no other. -/
lemma CalleeName.calleeOfFirst? {call name : Node} (h : CalleeName call name) :
    Walk.calleeOfFirst? 0 call.inner = refOf? name := by
  obtain ⟨callee, depth, hcallee, hdepth, hwraps⟩ := h
  obtain ⟨kind, data, hcontent⟩ := hwraps.content
  have hwithin : 0 + depth ≤ maxCalleeDepth := by
    rw [maxCalleeDepth]
    omega
  cases hinner : call.inner with
  | nil => exact absurd hcallee (by simp [hinner])
  | cons first rest =>
      obtain rfl : first = callee := by simpa [hinner] using hcallee
      rw [Walk.calleeOfFirst?, hwraps.calleeOf? hcontent hwithin, refOf?, hcontent]

/-- What is found for a call is the name of its callee. -/
lemma calleeName_of_calleeOfFirst? {call : Node} {id : NodeId} {kind : RefKind} {data : RefData}
    (h : calleeOfFirst? 0 call.inner = some (id, kind, data)) :
    ∃ name, CalleeName call name ∧ name.id = id ∧ name.content = .ref kind data := by
  obtain ⟨callee, hcallee, name, depth, hwraps, hdepth, hid, hcontent⟩ :=
    wraps_of_calleeOfFirst? (Nat.zero_le _) h
  rw [maxCalleeDepth] at hdepth
  exact ⟨name, ⟨callee, depth, hcallee, by omega, hwraps⟩, hid, hcontent⟩

/-- What is found from above is the name of the callee. -/
lemma exists_callee (call : Node) :
    ∃ callee? : Option Node, (∀ n, callee? = some n ↔ CalleeName call n) ∧
      calleeOfFirst? 0 call.inner = callee?.bind refOf? := by
  by_cases hname : ∃ n, CalleeName call n
  · obtain ⟨name, hname⟩ := hname
    refine ⟨some name, fun n => ⟨?_, fun hn => ?_⟩, hname.calleeOfFirst?⟩
    · rintro heq
      obtain rfl := Option.some.inj heq
      exact hname
    · rw [hname.unique hn]
  · refine ⟨none, fun n => ⟨fun h => absurd h (by simp), fun hn => absurd ⟨n, hn⟩ hname⟩, ?_⟩
    cases hfirst : calleeOfFirst? 0 call.inner with
    | none => rfl
    | some found =>
        obtain ⟨id, kind, data⟩ := found
        obtain ⟨name, hcallee, -⟩ := calleeName_of_calleeOfFirst? hfirst
        exact absurd ⟨name, hcallee⟩ hname

/-- The node names a known function that the front-end has not made up. -/
def NamesFunction (decls : DeclTable) (name : Node) : Prop :=
  ∃ kind data id info, name.content = .ref kind data ∧ refTarget? kind data = some id ∧
    decls.get? id = some info ∧ info.cls = .function ∧ info.isImplicit = false

/-- The node is a call. -/
def IsCall (n : Node) : Prop := ∃ kind data, n.content = .expr kind data ∧ kind.isCall

/-- The function that a callee names, if it is known. -/
def callsKnown (decls : DeclTable) (inner : List Node) : Bool :=
  (calleeDecl? inner).any fun id =>
    (decls.get? id).any fun info => info.cls == .function && !info.isImplicit

/-- A call is to a known function just if the name is that of one. -/
lemma CalleeName.callsKnown_iff {decls : DeclTable} {call name : Node}
    (h : CalleeName call name) : callsKnown decls call.inner ↔ NamesFunction decls name := by
  obtain ⟨callee, depth, hcallee, hdepth, hwraps⟩ := id h
  obtain ⟨kind, data, hcontent⟩ := hwraps.content
  have hdecl : calleeDecl? call.inner = refTarget? kind data := by
    rw [calleeDecl?, h.calleeOfFirst?, refOf?, hcontent]
    rfl
  rw [callsKnown, hdecl]
  simp only [Option.any_eq_true, Bool.and_eq_true, beq_iff_eq, Bool.not_eq_true']
  constructor
  · rintro ⟨id, hid, info, hinfo, hcls, himplicit⟩
    exact ⟨kind, data, id, info, hcontent, hid, hinfo, hcls, himplicit⟩
  · rintro ⟨kind', data', id, info, hcontent', hid, hinfo, hcls, himplicit⟩
    obtain ⟨rfl, rfl⟩ : kind = kind' ∧ data = data' := by
      simpa using hcontent.symm.trans hcontent'
    exact ⟨id, hid, info, hinfo, hcls, himplicit⟩

/-! ### Courses at calls -/

section

variable {ctx : WalkContext} {s : WalkState}

/-- Whether a call is to a known function is read off the table. -/
lemma exec_callsFunction (inner : List Node) (ctx : WalkContext) (s : WalkState) :
    exec (callsFunction inner) ctx s = (callsKnown ctx.unit.decls inner, s) := by
  rw [callsFunction, callsKnown]
  cases calleeDecl? inner <;> rfl

/-- The course through the children of a statement or expression. -/
def courseIn (decls : DeclTable) (content : Content) (inner : List Node) : Course :=
  match content with
  | .expr kind _ =>
    if kind = .declStmt then .mixed
    else if kind.isCall then .call (calleeRole inner (callsKnown decls inner))
    else .statements
  | _ => .statements

/-- How a walk goes on below a statement is read off the table. -/
lemma exec_stmtCourse (content : Content) (inner : List Node) (ctx : WalkContext)
    (s : WalkState) :
    exec (stmtCourse content inner) ctx s = (courseIn ctx.unit.decls content inner, s) := by
  cases content with
  | expr kind data =>
      rw [stmtCourse, courseIn]
      split
      · rfl
      split
      · rw [exec_bind, exec_callsFunction]
        rfl
      · rfl
  | _ => rfl

/-- Arriving at a statement or expression. -/
lemma exec_arriveStmt_of_not_isDecl (hctx : ctx.cancelled = .never) {id : NodeId}
    {content : Content} (h : ¬content.isDecl) (inner : List Node) (s : WalkState) :
    exec (arriveStmt id content inner) ctx s =
      ((courseIn ctx.unit.decls content inner, .nothing),
        (exec (reportStmt content inner) ctx (asked s)).2) := by
  rw [exec_arriveStmt hctx, if_neg h, exec_bind, exec_bind, exec_stmtCourse]
  rfl

end

/-! ### Roles in callees -/

/-- The course goes on inside a callee of that name. -/
def InCallee (name : NodeId) (course : Course) : Prop :=
  ∃ depth, course = .calleeParts name depth ∨ course = .call (.callee name depth)

/-- The node is a call to a known function, and its callee has that name. -/
def Announces (decls : DeclTable) (call : Node) (name : NodeId) : Prop :=
  IsCall call ∧ ∃ n, CalleeName call n ∧ n.id = name ∧ NamesFunction decls n

section

variable {name : NodeId} {course : Course}

/-- A child is visited inside of a callee only where the course is inside of it. -/
lemma inCallee_of_role? {child : Content} {depth : Nat}
    (h : course.role? child = some (.callee name depth)) : InCallee name course := by
  cases course with
  | calleeParts n d =>
      obtain ⟨rfl, rfl⟩ : n = name ∧ d = depth := by simpa [Course.role?] using h
      exact ⟨_, Or.inl rfl⟩
  | call role =>
      obtain rfl : role = .callee name depth := by simpa [Course.role?] using h
      exact ⟨_, Or.inr rfl⟩
  | body ctor => cases child <;> simp [Course.role?] at h
  | mixed =>
      rw [Course.role?] at h
      split at h <;> exact absurd h (by simp)
  | ownStatements =>
      rw [Course.role?] at h
      split at h <;> exact absurd h (by simp)
  | declarations parametersOnly upToPattern =>
      rw [Course.role?] at h
      split at h
      · exact absurd h (by simp)
      split at h <;> exact absurd h (by simp)
  | _ => exact absurd h (by simp [Course.role?])

/-- The course behind a child is inside of a callee only if it was. -/
lemma inCallee_of_next {child : Content} (h : InCallee name (course.next child)) :
    InCallee name course := by
  cases course with
  | call role =>
      obtain ⟨_, h | h⟩ := h <;> exact absurd h (by simp [Course.next])
  | declarations parametersOnly upToPattern =>
      obtain ⟨_, h | h⟩ := h <;>
        (rw [Course.next] at h; split at h <;> exact absurd h (by simp))
  | _ => exact h

/-- So no child of a course that is not is visited inside of a callee. -/
lemma inCallee_of_picked {ns : List Node} {depth : Nat} {c : Node}
    (h : (.callee name depth, c) ∈ picked course ns) : InCallee name course := by
  induction ns generalizing course with
  | nil => exact absurd h (by simp [picked])
  | cons n ns ih =>
      rw [picked] at h
      split at h
      · next role hrole =>
          rcases List.mem_cons.mp h with heq | h
          · obtain ⟨rfl, -⟩ := Prod.mk.inj heq
            exact inCallee_of_role? hrole
          · exact inCallee_of_next (ih h)
      · exact inCallee_of_next (ih h)

/-- Neither nothing at all nor statements are gone through as callees. -/
lemma not_inCallee_nothing : ¬InCallee name .nothing := by
  rintro ⟨_, h | h⟩ <;> exact absurd h (by simp)

lemma not_inCallee_statements : ¬InCallee name .statements := by
  rintro ⟨_, h | h⟩ <;> exact absurd h (by simp)

/-- Declarations are not gone through as callees. -/
lemma not_inCallee_declCourses (content : Content) :
    ¬InCallee name (declCourses content).1 ∧ ¬InCallee name (declCourses content).2 := by
  -- a declaration has its own parts and nested declarations, none of them expressions to be called
  have hdeclarations (parametersOnly upToPattern : Bool) :
      ¬InCallee name (.declarations parametersOnly upToPattern) := by
    rintro ⟨_, h | h⟩ <;> exact absurd h (by simp)
  cases content with
  | decl kind data =>
      constructor
      · show ¬InCallee name (ownCourse kind data)
        rw [ownCourse_eq]
        split
        · rintro ⟨_, h | h⟩ <;> exact absurd h (by simp)
        split
        · rintro ⟨_, h | h⟩ <;> exact absurd h (by simp)
        · exact not_inCallee_nothing
      · show ¬InCallee name (nestedCourse (.decl kind data))
        rw [nestedCourse_eq]
        split
        · exact hdeclarations _ _
        split
        · exact hdeclarations _ _
        split
        · exact hdeclarations _ _
        · exact not_inCallee_nothing
  | other kind loc range => exact ⟨not_inCallee_nothing, hdeclarations _ _⟩
  | _ => exact ⟨not_inCallee_nothing, not_inCallee_nothing⟩

/-- A course inside a callee starts at a call to a known function. -/
lemma announces_of_courseIn {decls : DeclTable} {n : Node}
    (h : InCallee name (courseIn decls n.content n.inner)) : Announces decls n name := by
  cases hcontent : n.content with
  | expr kind data =>
      rw [hcontent, courseIn] at h
      split at h
      · obtain ⟨_, h | h⟩ := h <;> exact absurd h (by simp)
      split at h
      · next hcall =>
          obtain ⟨depth, h | h⟩ := h
          · exact absurd h (by simp)
          obtain hrole : calleeRole n.inner (callsKnown decls n.inner) = .callee name depth := by
            simpa using h
          -- a callee is announced where a name was found and is that of a known function
          rw [calleeRole] at hrole
          split at hrole
          · next found refKind refData hfound =>
              split at hrole
              · next hknown =>
                  obtain ⟨rfl, -⟩ : found = name ∧ 0 = depth := by simpa using hrole
                  obtain ⟨m, hm, hid, -⟩ := calleeName_of_calleeOfFirst? hfound
                  exact ⟨⟨kind, data, hcontent, hcall⟩, m, hm, hid, hm.callsKnown_iff.mp hknown⟩
              · exact absurd hrole (by simp)
          · exact absurd hrole (by simp)
      · exact absurd h not_inCallee_statements
  | _ =>
      rw [hcontent] at h
      exact absurd h not_inCallee_statements

end

namespace Stop

variable {ctx : WalkContext} {a b : Stop} {name : NodeId}

/-- Below a declaration a walk is inside of no callee. -/
lemma not_inCallee_arriveDecl (name : NodeId) (hctx : ctx.cancelled = .never) (id : NodeId)
    (content : Content) (s : WalkState) :
    ¬InCallee name (exec (arriveDecl id content) ctx s).1.1 ∧
      ¬InCallee name (exec (arriveDecl id content) ctx s).1.2 := by
  rw [exec_arriveDecl hctx]
  split
  · exact ⟨not_inCallee_nothing, not_inCallee_nothing⟩
  split
  · exact ⟨not_inCallee_nothing, not_inCallee_nothing⟩
  · exact not_inCallee_declCourses content

/-- Below a statement it is only if that is a call. -/
lemma announces_of_arriveStmt (hctx : ctx.cancelled = .never) {n : Node} {s : WalkState}
    (h : InCallee name (exec (arriveStmt n.id n.content n.inner) ctx s).1.1 ∨
      InCallee name (exec (arriveStmt n.id n.content n.inner) ctx s).1.2) :
    Announces ctx.unit.decls n name := by
  by_cases hdecl : n.content.isDecl
  · rw [exec_arriveStmt hctx, if_pos hdecl] at h
    obtain ⟨hfirst, hsecond⟩ := not_inCallee_arriveDecl name hctx n.id n.content (asked s)
    exact absurd h (not_or.mpr ⟨hfirst, hsecond⟩)
  · rw [exec_arriveStmt_of_not_isDecl hctx hdecl] at h
    rcases h with h | h
    · exact announces_of_courseIn h
    · exact absurd h not_inCallee_nothing

/-- Where a walk goes on inside a callee, it has been there before, or it is at the call. -/
lemma announces_of_arrived (hctx : ctx.cancelled = .never)
    (h : InCallee name (a.arrived ctx).1.1 ∨ InCallee name (a.arrived ctx).1.2) :
    (∃ depth, a.role = .callee name depth) ∨
      a.role ≠ .decl ∧ Announces ctx.unit.decls a.node name := by
  rw [arrived] at h
  cases hrole : a.role with
  | decl =>
      rw [hrole] at h
      obtain ⟨hfirst, hsecond⟩ :=
        not_inCallee_arriveDecl name hctx a.node.id a.node.content a.state
      exact absurd h (not_or.mpr ⟨hfirst, hsecond⟩)
  | stmt =>
      rw [hrole] at h
      exact Or.inr ⟨by simp, announces_of_arriveStmt hctx h⟩
  -- a wrapper passes on what it was visited as; a call below starts anew
  | callee name' depth =>
      rw [hrole, arrive] at h
      split at h
      · left
        rcases h with h | h
        · obtain ⟨depth', h | h⟩ := h
          · obtain ⟨rfl, -⟩ : name' = name ∧ depth + 1 = depth' := by simpa using h
            exact ⟨depth, rfl⟩
          · exact absurd h (by simp)
        · exact absurd h not_inCallee_nothing
      split at h
      · exact absurd h (not_or.mpr ⟨not_inCallee_statements, not_inCallee_nothing⟩)
      · exact Or.inr ⟨by simp, announces_of_arriveStmt hctx h⟩
  | initializer ctor =>
      rw [hrole] at h
      cases hcontent : a.node.content with
      | ctorInit init =>
          rw [hcontent] at h
          exact absurd h (not_or.mpr ⟨not_inCallee_statements, not_inCallee_nothing⟩)
      | _ =>
          rw [hcontent] at h
          exact absurd h (not_or.mpr ⟨not_inCallee_nothing, not_inCallee_nothing⟩)

/-- Inside a callee there is always the call around. -/
lemma exists_announces (hctx : ctx.cancelled = .never) {depth : Nat} (hb : b ∈ a.log ctx)
    (hrole : b.role = .callee name depth) :
    (∃ depth, a.role = .callee name depth) ∨
      ∃ c ∈ a.log ctx, b ∈ c.log ctx ∧ c.role ≠ .decl ∧
        Announces ctx.unit.decls c.node name := by
  induction a using induction ctx with
  | h a ih =>
      rcases mem_log_iff.mp hb with rfl | ⟨c, hc, hbc⟩
      · exact Or.inl ⟨depth, hrole⟩
      rcases ih c hc hbc with ⟨d, hd⟩ | ⟨e, he, hbe, hannounces⟩
      -- the child is in the callee already, so the course at `a` has led there
      · have hpicked := (exists_mem_next_iff hctx).mp ⟨c, hc, hd, rfl⟩
        rcases announces_of_arrived hctx (hpicked.imp inCallee_of_picked inCallee_of_picked) with
          hcallee | hannounces
        · exact Or.inl hcallee
        · exact Or.inr ⟨a, self_mem_log ctx a, hb, hannounces⟩
      · exact Or.inr ⟨e, mem_log_iff.mpr (Or.inr ⟨c, hc, he⟩), hbe, hannounces⟩

/-- An expression is visited as such, unless it stands around the name of a callee or is that
name. -/
lemma Placed.arrived_eq (h : a.Placed) (hdecl : ¬a.node.content.isDecl)
    (hwrapper : ¬isCalleeWrapper a.node.content)
    (hinit : ∀ init, a.node.content ≠ .ctorInit init)
    (hname : ∀ depth, a.role ≠ .callee a.node.id depth) :
    a.arrived ctx = exec (arriveStmt a.node.id a.node.content a.node.inner) ctx a.state := by
  have hsuits := h.suits
  rw [arrived]
  cases hrole : a.role with
  | decl =>
      rw [hrole] at hsuits
      exact absurd hsuits hdecl
  | stmt => rfl
  | callee name depth =>
      -- it is inside of a callee, but neither a wrapper of it nor its name
      have hother : a.node.id ≠ name := by
        rintro rfl
        exact hname depth hrole
      rw [arrive, if_neg fun hin => hwrapper hin.2.2, if_neg hother]
  | initializer ctor =>
      rw [hrole] at hsuits
      obtain ⟨init, hctor⟩ := hsuits
      exact absurd hctor (hinit init)

/-- Around the name of a callee a walk goes on in that callee. -/
lemma arrived_of_wrapper {depth : Nat} (hrole : a.role = .callee name depth)
    (hother : a.node.id ≠ name) (hdepth : depth < maxCalleeDepth)
    (hwrapper : isCalleeWrapper a.node.content) :
    (a.arrived ctx).1 = (.calleeParts name (depth + 1), .nothing) := by
  rw [arrived, hrole, arrive, if_pos ⟨hother, hdepth, hwrapper⟩]
  rfl

end Stop

/-- A call is no declaration, no wrapper, no initializer and no name. -/
lemma IsCall.not_isDecl {n : Node} (h : IsCall n) : ¬n.content.isDecl := by
  obtain ⟨kind, data, hcontent, -⟩ := h
  rw [hcontent]
  exact Bool.false_ne_true

lemma IsCall.not_isCalleeWrapper {n : Node} (h : IsCall n) : ¬isCalleeWrapper n.content := by
  obtain ⟨kind, data, hcontent, hcall⟩ := h
  rw [hcontent, isCalleeWrapper]
  cases kind <;> simp_all [ExprKind.isCall, ExprKind.isCalleeWrapper]

lemma IsCall.ne_ctorInit {n : Node} (h : IsCall n) (init : CtorInit) :
    n.content ≠ .ctorInit init := by
  obtain ⟨kind, data, hcontent, -⟩ := h
  rw [hcontent]
  simp

lemma CalleeName.not_isCall {call name : Node} (h : CalleeName call name) : ¬IsCall name := by
  rintro ⟨kind, data, hcontent, -⟩
  obtain ⟨callee, depth, -, -, hwraps⟩ := h
  obtain ⟨refKind, refData, href⟩ := hwraps.content
  exact absurd (hcontent.symm.trans href) (by simp)

/-- A call to a known function is gone through as a callee first. -/
lemma CalleeName.courseIn_eq {decls : DeclTable} {call name : Node} (h : CalleeName call name)
    (hcall : IsCall call) (hknown : NamesFunction decls name) :
    courseIn decls call.content call.inner = .call (.callee name.id 0) := by
  obtain ⟨kind, data, hcontent, hkind⟩ := hcall
  obtain ⟨refKind, refData, -, -, href, -⟩ := id hknown
  have hstmt : kind ≠ .declStmt := by
    rintro rfl
    exact absurd hkind (by simp [ExprKind.isCall])
  rw [hcontent, courseIn, if_neg hstmt, if_pos hkind, h.callsKnown_iff.mpr hknown, calleeRole,
    h.calleeOfFirst?, refOf?, href]
  rfl

/-! ### Nodes around a node -/

/-- The children of a node are not found again below it. -/
lemma not_mem_inner_below {root c p n : Node} (hids : root.ids.Nodup) (hc : c ∈ root.inner)
    (hp : p ∈ c.nodes) (hn : n ∈ p.inner) : n ∉ root.inner := by
  rw [ids_eq] at hids
  intro hroot
  have hbelow : n ∈ c.nodes :=
    Node.mem_nodes_trans hp (Node.mem_nodes_of_mem_inner hn n.self_mem_nodes)
  obtain rfl := eq_of_mem_ids (List.nodup_cons.mp hids).2 hroot hc
    (List.mem_map_of_mem n.self_mem_nodes) (List.mem_map_of_mem hbelow)
  have hle := Node.sizeOf_le_of_mem_nodes hp
  have hlt := Node.sizeOf_lt_of_mem_inner hn
  omega

/-- In a tree in which no two nodes have the same id, a node is the child of one node. -/
lemma parent_unique {root p q n : Node} (hids : root.ids.Nodup) (hp : p ∈ root.nodes)
    (hq : q ∈ root.nodes) (hnp : n ∈ p.inner) (hnq : n ∈ q.inner) : p = q := by
  induction root using Node.induction with
  | h root ih =>
      rcases Node.mem_nodes_iff.mp hp with rfl | ⟨c, hc, hpc⟩
      · rcases Node.mem_nodes_iff.mp hq with rfl | ⟨d, hd, hqd⟩
        · rfl
        · exact absurd hnp (not_mem_inner_below hids hd hqd hnq)
      · rcases Node.mem_nodes_iff.mp hq with rfl | ⟨d, hd, hqd⟩
        · exact absurd hnq (not_mem_inner_below hids hc hpc hnp)
        · have hinner := (List.nodup_cons.mp (ids_eq root ▸ hids)).2
          have hbelow {e p : Node} (hp : p ∈ e.nodes) (hn : n ∈ p.inner) : n.id ∈ e.ids :=
            List.mem_map_of_mem
              (Node.mem_nodes_trans hp (Node.mem_nodes_of_mem_inner hn n.self_mem_nodes))
          obtain rfl := eq_of_mem_ids hinner hc hd (hbelow hpc hnp) (hbelow hqd hnq)
          exact ih c hc ((List.nodup_flatMap.mp hinner).1 c hc) hpc hqd

/-- A walk comes to a statement or expression from the node around it. -/
lemma Met.parent {root p n : Node} (hids : root.ids.Nodup) (h : Met root n) (hp : p ∈ root.nodes)
    (hn : n ∈ p.inner) (hdecl : ¬n.content.isDecl) : Met root p := by
  obtain ⟨hup, ⟨hroot, rfl⟩ | ⟨c, hstarts, hupc, hreached⟩⟩ := h
  · exact absurd hroot hdecl
  rcases hreached.cases_tail with rfl | ⟨q, hq, hpasses⟩
  · cases hstarts with
    | decl hroot hleads =>
        obtain rfl := parent_unique hids hp root.self_mem_nodes hn hleads.mem_inner
        exact ⟨hup, Or.inl ⟨hroot, rfl⟩⟩
    | unknown _ _ hdecl' => exact absurd hdecl' hdecl
  · have hqroot := Node.mem_nodes_of_mem_inner hstarts.mem_inner (Reached.mem_nodes hq)
    obtain rfl := parent_unique hids hp hqroot hn hpasses.1.mem_inner
    exact ⟨hup, Or.inr ⟨c, hstarts, hupc, hq⟩⟩

/-- Neither a wrapper nor a name is a declaration. -/
lemma Wraps.not_isDecl {depth : Nat} {n name : Node} (h : Wraps depth n name) :
    ¬n.content.isDecl := by
  cases h with
  | name hcontent =>
      rw [hcontent]
      exact Bool.false_ne_true
  | wrapper hwrapper _ _ =>
      intro hdecl
      cases hcontent : n.content <;>
        simp [hcontent, isCalleeWrapper, Content.isDecl] at hwrapper hdecl

/-- What is around a node that is met has been met, too. -/
lemma Wraps.met {depth : Nat} {root n name : Node} (hwraps : Wraps depth n name)
    (hids : root.ids.Nodup) (hn : n ∈ root.nodes) (h : Met root name) : Met root n := by
  induction hwraps with
  | name => exact h
  | wrapper _ hc hwraps ih =>
      have hmem := List.mem_of_mem_head? hc
      have hcroot :=
        Node.mem_nodes_trans hn (Node.mem_nodes_of_mem_inner hmem (Node.self_mem_nodes _))
      exact (ih hcroot h).parent hids hn hmem hwraps.not_isDecl

/-- A walk comes to the name of a callee from the call. -/
lemma CalleeName.met {root call name : Node} (hname : CalleeName call name)
    (hids : root.ids.Nodup) (hcall : call ∈ root.nodes) (h : Met root name) : Met root call := by
  obtain ⟨callee, depth, hcallee, -, hwraps⟩ := hname
  have hmem := List.mem_of_mem_head? hcallee
  have hroot := Node.mem_nodes_trans hcall (Node.mem_nodes_of_mem_inner hmem callee.self_mem_nodes)
  exact (hwraps.met hids hroot h).parent hids hcall hmem hwraps.not_isDecl

/-- The node names the function that a call in the tree calls. -/
def NamesCallee (unit : ParsedUnit) (name : Node) : Prop :=
  NamesFunction unit.decls name ∧ ∃ call ∈ unit.root.nodes, IsCall call ∧ CalleeName call name

/-! ### Names of callees in whole walks -/

section

variable {unit : ParsedUnit} {options : WalkOptions} {watched : Bool} {a : Stop} {depth : Nat}

/-- What is visited as the name of a callee is the name of a callee. -/
lemma namesCallee_of_role (hids : unit.root.ids.Nodup) (ha : a ∈ stops unit options watched)
    (hrole : a.role = .callee a.node.id depth) : NamesCallee unit a.node := by
  rcases Stop.exists_announces rfl ha hrole with ⟨d, hdecl⟩ | ⟨c, hc, hac, hnode, hannounces⟩
  · exact absurd hdecl (by simp [Stop.root])
  obtain ⟨hcall, n, hname, hid, hknown⟩ := hannounces
  rcases cases_of_mem_stops hids hc with ⟨rfl, -⟩ | ⟨hplaced, -⟩
  · exact absurd rfl hnode
  obtain rfl := eq_of_mem_nodes hplaced.nodup hname.mem_nodes (Stop.mem_nodes_of_mem_log hac) hid
  exact ⟨hknown, c.node, Stop.mem_nodes_of_mem_log hc, hcall, hname⟩

/-- A call is visited as a call. -/
lemma arrived_of_isCall (hids : unit.root.ids.Nodup) (ha : a ∈ stops unit options watched)
    (h : a.Placed) (hcall : IsCall a.node) :
    a.arrived ⟨unit, options, .never⟩ =
      exec (arriveStmt a.node.id a.node.content a.node.inner) ⟨unit, options, .never⟩ a.state := by
  refine h.arrived_eq hcall.not_isDecl hcall.not_isCalleeWrapper hcall.ne_ctorInit ?_
  intro depth hrole
  obtain ⟨-, call, -, -, hname⟩ := namesCallee_of_role hids ha hrole
  exact hname.not_isCall hcall

/-- Through the wrappers a walk comes down to the name of the callee. -/
lemma exists_stop_of_wraps {n name : Node} (h : Wraps depth n name) {passed : Nat}
    (ha : a ∈ stops unit options watched) (hplaced : a.Placed) (hnode : a.node = n)
    (hrole : a.role = .callee name.id passed) (hdepth : passed + depth ≤ maxCalleeDepth) :
    ∃ b ∈ stops unit options watched, b.node = name ∧ ∃ d, b.role = .callee name.id d := by
  induction h generalizing a passed with
  | name => exact ⟨a, ha, hnode, passed, hrole⟩
  | @wrapper depth n c name hwrapper hc hwraps ih =>
      -- the two limits on wrappers meet: `passed` grows as `depth` shrinks
      subst hnode
      have hctx : (⟨unit, options, .never⟩ : WalkContext).cancelled = .never := rfl
      have hmem := List.mem_of_mem_head? hc
      have hother : a.node.id ≠ name.id := by
        intro heq
        refine hplaced.nodup_inner.1 (List.mem_flatMap.mpr ⟨c, hmem, ?_⟩)
        rw [heq]
        exact List.mem_map_of_mem hwraps.mem_nodes
      have hcourses : (a.arrived ⟨unit, options, .never⟩).1 =
          (.calleeParts name.id (passed + 1), .nothing) :=
        Stop.arrived_of_wrapper hrole hother (by omega) hwrapper
      have hsteady : Steady (.calleeParts name.id (passed + 1)) := fun _ => rfl
      have hpicked : (.callee name.id (passed + 1), c) ∈
          picked (a.arrived ⟨unit, options, .never⟩).1.1 a.node.inner := by
        rw [hcourses]
        exact (mem_picked hsteady).mpr ⟨hmem, rfl⟩
      obtain ⟨b, hb, hroleb, hnodeb⟩ := (Stop.exists_mem_next_iff hctx).mpr (Or.inl hpicked)
      exact ih (Stop.mem_log_of_mem_next ha hb) ((hplaced.fans hctx).placed b hb) hnodeb hroleb
        (by omega)

/-- Of the nodes that a walk meets, those that it visits as the name of a callee are the names of
the callees of calls to functions. -/
lemma exists_role_iff (hids : unit.root.ids.Nodup) (ha : a ∈ stops unit options watched)
    (hmet : Met unit.root a.node) :
    (∃ depth, a.role = .callee a.node.id depth) ↔ NamesCallee unit a.node := by
  constructor
  · rintro ⟨depth, hrole⟩
    exact namesCallee_of_role hids ha hrole
  · rintro ⟨hknown, call, hmem, hcall, hname⟩
    have hmetcall := hname.met hids hmem hmet
    obtain ⟨b, hb, hplaced, rfl⟩ : ∃ b ∈ stops unit options watched, b.Placed ∧ b.node = call :=
      hmetcall.exists_stop hids
    have hctx : (⟨unit, options, .never⟩ : WalkContext).cancelled = .never := rfl
    obtain ⟨callee, depth, hcallee, hdepth, hwraps⟩ := id hname
    have hcourse : (b.arrived ⟨unit, options, .never⟩).1.1 = .call (.callee a.node.id 0) := by
      rw [arrived_of_isCall hids hb hplaced hcall,
        exec_arriveStmt_of_not_isDecl hctx hcall.not_isDecl]
      exact hname.courseIn_eq hcall hknown
    have hpicked : (.callee a.node.id 0, callee) ∈
        picked (b.arrived ⟨unit, options, .never⟩).1.1 b.node.inner := by
      rw [hcourse]
      obtain ⟨rest, hinner⟩ := List.head?_eq_some_iff.mp hcallee
      rw [hinner]
      exact List.mem_cons_self
    obtain ⟨c, hc, hrolec, hnodec⟩ := (Stop.exists_mem_next_iff hctx).mpr (Or.inl hpicked)
    obtain ⟨d, hd, hnode, hrole⟩ := exists_stop_of_wraps hwraps (Stop.mem_log_of_mem_next hb hc)
      ((hplaced.fans hctx).placed c hc) hnodec hrolec (by rw [maxCalleeDepth]; omega)
    -- that stop is this one, since a walk comes to no node twice
    obtain rfl := List.inj_on_of_nodup_map (nodup_stops hids) hd ha (by rw [hnode])
    exact hrole

end

end UnitIndex.Walk
