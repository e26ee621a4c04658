import Mathlib.Tactic
import UnitIndex.Proofs.Walk.Cancellation
import UnitIndex.Proofs.Walk.Reached

/-!
What a walk enters.

A walk that is not cancelled enters the declarations that can be reached from its root, and each of
them once, provided that no two nodes have the same id (`run_enters_reached`). The work is in
`visit_enters`, by induction over the tree: from a state in which nothing of a subtree has been
entered, a visit enters what can be reached in it. `Arrival` is what holds behind the arrival at a
single node.
-/

namespace UnitIndex.Walk

variable {α : Type}

/-- From one state to the other these declarations have been entered, all of them new if the
declarations counted before were those entered before. -/
structure Enters (ids : Set NodeId) (s t : WalkState) : Prop where
  visited : ∀ id, id ∈ t.visited ↔ id ∈ s.visited ∨ id ∈ ids
  counted : s.stats.declarations = s.visited.size → t.stats.declarations = t.visited.size

/-- Where nothing has changed nothing has been entered. -/
lemma Enters.of_eq {s t : WalkState} (hvisited : t.visited = s.visited)
    (hcount : t.stats.declarations = s.stats.declarations) : Enters ∅ s t where
  visited := by
    intro id
    rw [hvisited]
    simp
  counted := by
    intro h
    rw [hvisited, hcount, h]

/-- What is entered in two parts of a walk is entered in both together. -/
lemma Enters.trans {ids ids' : Set NodeId} {s t u : WalkState} (h : Enters ids s t)
    (h' : Enters ids' t u) : Enters (ids ∪ ids') s u where
  visited := by
    intro id
    rw [h'.visited, h.visited, Set.mem_union, or_assoc]
  counted := fun hs => h'.counted (h.counted hs)

lemma Enters.then_nothing {ids : Set NodeId} {s t u : WalkState} (h : Enters ids s t)
    (h' : Enters ∅ t u) : Enters ids s u := by
  have htrans := h.trans h'
  rwa [Set.union_empty] at htrans

lemma Enters.after_nothing {ids : Set NodeId} {s t u : WalkState} (h : Enters ∅ s t)
    (h' : Enters ids t u) : Enters ids s u := by
  have htrans := h.trans h'
  rwa [Set.empty_union] at htrans

/-- Reports enter nothing. -/
lemma Action.enters_nothing {x : WalkM α} (h : Action false x) (ctx : WalkContext)
    (s : WalkState) : Enters ∅ s (exec x ctx s).2 := by
  induction h generalizing s with
  | pure a => exact .of_eq rfl rfl
  | bind _ _ ihx ihf => exact (ihx s).then_nothing (ihf _ _)
  | read _ _ ih => exact ih ctx s
  | get _ _ ih => exact ih s s
  | ask => exact .of_eq rfl rfl
  | emit fact =>
      rw [exec_emit]
      split
      · exact .of_eq rfl rfl
      · refine .of_eq rfl ?_
        cases fact <;> rfl
  | resolve type => exact .of_eq rfl rfl
  | enter id content h => exact absurd h (by simp)

/-- To enter a declaration for the first time enters it. -/
lemma enters_enter {id : NodeId} {s : WalkState} (hnew : id ∉ s.visited) (content : Content)
    (ctx : WalkContext) : Enters {id} s (exec (enter id content) ctx s).2 where
  visited := by
    intro k
    show k ∈ s.visited.insert id ↔ _
    rw [Std.HashSet.mem_insert, Set.mem_singleton_iff, beq_iff_eq, or_comm, eq_comm]
  counted := by
    intro h
    show s.stats.declarations + 1 = (s.visited.insert id).size
    rw [Std.HashSet.size_insert, if_neg hnew, h]

/-! ### Arriving at a node -/

/-- How a walk comes out of the arrival at a node: it has turned back there, or it has entered the
node if that is a declaration, and goes on to all its children that matter. -/
inductive Arrival (n : Node) (s : WalkState) (r : (Course × Course) × WalkState) : Prop
  | turned : isMadeUp n.content → r.1 = (.nothing, .nothing) → Enters ∅ s r.2 → Arrival n s r
  | passed : ¬isMadeUp n.content → Covers n r.1 →
      Enters {id | n.content.isDecl ∧ n.id = id} s r.2 → Arrival n s r

/-- Only declarations are made up by the compiler. -/
lemma not_isMadeUp_of_not_isDecl {content : Content} (h : ¬content.isDecl) : ¬isMadeUp content := by
  cases content with
  | decl kind data => exact absurd rfl h
  | _ => exact Bool.false_ne_true

section

variable {ctx : WalkContext} {n : Node} {s : WalkState}

/-- Arriving at what is no declaration enters nothing. -/
lemma Arrival.of_not_decl (h : ¬n.content.isDecl) {r : (Course × Course) × WalkState}
    (hcovers : Covers n r.1) (hr : Enters ∅ s r.2) : Arrival n s r := by
  refine .passed (not_isMadeUp_of_not_isDecl h) hcovers ?_
  have hnone : {id | n.content.isDecl ∧ n.id = id} = (∅ : Set NodeId) := by
    ext id
    simp [h]
  rwa [hnone]

/-- Nothing need be entered before. -/
lemma Arrival.after {t : WalkState} {r : (Course × Course) × WalkState} (h : Enters ∅ s t)
    (h' : Arrival n t r) : Arrival n s r := by
  cases h' with
  | turned hup hr hs => exact .turned hup hr (h.after_nothing hs)
  | passed hup hr hs => exact .passed hup hr (h.after_nothing hs)

/-- The state behind a question. -/
def asked (s : WalkState) : WalkState := { s with polls := s.polls.push s.facts.size }

/-- A walk turns back at what is made up and at what it has entered before. -/
lemma exec_arriveDecl (hctx : ctx.cancelled = .never) (id : NodeId) (content : Content) :
    exec (arriveDecl id content) ctx s =
      if isMadeUp content then ((.nothing, .nothing), asked s)
      else if s.visited.contains id then ((.nothing, .nothing), asked s)
      else (declCourses content,
        (exec (reportDecl id content) ctx (exec (enter id content) ctx (asked s)).2).2) := by
  rw [arriveDecl, exec_bind, exec_isCancelled, hctx]
  by_cases hup : isMadeUp content
  · rw [if_pos hup, if_pos hup]
    rfl
  · rw [if_neg hup, if_neg hup]
    show exec (if s.visited.contains id then pure (Course.nothing, Course.nothing) else _) ctx
      (asked s) = _
    by_cases hid : s.visited.contains id
    · rw [if_pos hid, if_pos hid, exec_pure]
    · rw [if_neg hid, if_neg hid]
      rfl

/-- **Arriving at a declaration** for the first time. -/
lemma arrival_arriveDecl (hctx : ctx.cancelled = .never) (h : n.content.isDecl)
    (hnew : n.id ∉ s.visited) : Arrival n s (exec (arriveDecl n.id n.content) ctx s) := by
  have hask : Enters ∅ s (asked s) := Action.ask.enters_nothing ctx s
  rw [exec_arriveDecl hctx]
  by_cases hup : isMadeUp n.content
  · rw [if_pos hup]
    exact .turned hup rfl hask
  · rw [if_neg hup, if_neg (by simpa using hnew)]
    refine .passed hup (covers_declCourses h) ?_
    have henter := enters_enter (s := asked s) hnew n.content ctx
    have hreport := (Action.reportDecl n.id n.content).enters_nothing ctx
      (exec (enter n.id n.content) ctx (asked s)).2
    have hall := (hask.after_nothing henter).then_nothing hreport
    have hset : {id | n.content.isDecl ∧ n.id = id} = ({n.id} : Set NodeId) := by
      ext id
      simp [h, eq_comm]
    rwa [hset]

/-- A statement is reported, and then gone through, unless it is a declaration. -/
lemma exec_arriveStmt (hctx : ctx.cancelled = .never) (id : NodeId) (content : Content)
    (inner : List Node) :
    exec (arriveStmt id content inner) ctx s =
      exec (if content.isDecl then arriveDecl id content
        else reportStmt content inner >>= fun _ => stmtCourse content inner >>= fun course =>
          pure (course, .nothing)) ctx (asked s) := by
  rw [arriveStmt, exec_bind, exec_isCancelled, hctx]
  rfl

mutual

/-- The name that a callee boils down to is a node in it. -/
lemma mem_nodes_of_calleeOf? {depth : Nat} {name : NodeId} {kind : RefKind} {data : RefData} :
    ∀ {n : Node}, calleeOf? depth n = some (name, kind, data) →
      ∃ m ∈ n.nodes, m.id = name ∧ m.content = .ref kind data
  | ⟨id, content, inner⟩, h => by
      cases content with
      | ref k d =>
          rw [calleeOf?] at h
          obtain ⟨rfl, hkd⟩ := Prod.mk.inj (Option.some.inj h)
          obtain ⟨rfl, rfl⟩ := Prod.mk.inj hkd
          exact ⟨_, Node.self_mem_nodes _, rfl, rfl⟩
      | expr k d =>
          rw [calleeOf?] at h
          split at h
          · obtain ⟨n, hn, m, hm, hname⟩ := mem_nodes_of_calleeOfFirst? h
            exact ⟨m, Node.mem_nodes_of_mem_inner (List.mem_of_mem_head? hn) hm, hname⟩
          · exact absurd h (by simp)
      | decl k d => exact absurd h (by simp [calleeOf?])
      | ctorInit d => exact absurd h (by simp [calleeOf?])
      | other k l r => exact absurd h (by simp [calleeOf?])

/-- The name of a callee is below the call. -/
lemma mem_nodes_of_calleeOfFirst? {depth : Nat} {name : NodeId} {kind : RefKind}
    {data : RefData} :
    ∀ {ns : List Node}, calleeOfFirst? depth ns = some (name, kind, data) →
      ∃ n ∈ ns.head?, ∃ m ∈ n.nodes, m.id = name ∧ m.content = .ref kind data
  | [], h => absurd h (by simp [calleeOfFirst?])
  | n :: _, h => ⟨n, rfl, mem_nodes_of_calleeOf? (by rwa [calleeOfFirst?] at h)⟩

end

/-- Where no two nodes have the same id, the id tells the node. -/
lemma eq_of_mem_nodes (h : n.ids.Nodup) {m m' : Node} (hm : m ∈ n.nodes) (hm' : m' ∈ n.nodes)
    (hid : m.id = m'.id) : m = m' :=
  List.inj_on_of_nodup_map h hm hm' hid

/-- The name of a callee is no declaration, since no other node has its id. -/
lemma suits_calleeRole (hids : n.ids.Nodup) (isFunction : Bool) {callee : Node}
    (hcallee : n.inner.head? = some callee) : Suits (calleeRole n.inner isFunction) callee := by
  rw [calleeRole]
  split
  · next name kind data hname =>
      split
      · obtain ⟨c, hc, m, hm, rfl, hcontent⟩ := mem_nodes_of_calleeOfFirst? hname
        obtain rfl : callee = c := Option.some.inj (hcallee.symm.trans hc)
        have hsub {m : Node} (hm : m ∈ callee.nodes) : m ∈ n.nodes :=
          Node.mem_nodes_of_mem_inner (List.mem_of_mem_head? hcallee) hm
        intro m' hm' hid
        obtain rfl := eq_of_mem_nodes hids (hsub hm') (hsub hm) hid
        rw [hcontent]
        exact Bool.false_ne_true
      · trivial
  · trivial

/-- Below a statement all children are gone through. -/
lemma covers_stmtCourse (h : ¬n.content.isDecl) (hids : n.ids.Nodup) (t : WalkState) :
    Covers n ((exec (stmtCourse n.content n.inner) ctx t).1, .nothing) := by
  cases hcontent : n.content with
  | expr kind data =>
      rw [stmtCourse]
      split
      · exact covers_mixed h
      split
      · exact covers_call h fun c hc => suits_calleeRole hids _ hc
      · exact covers_statements h
  | _ => exact covers_statements h

/-- **Arriving at a statement** for the first time. -/
lemma arrival_arriveStmt (hctx : ctx.cancelled = .never) (hids : n.ids.Nodup)
    (hnew : n.id ∉ s.visited) :
    Arrival n s (exec (arriveStmt n.id n.content n.inner) ctx s) := by
  have hask : Enters ∅ s (asked s) := Action.ask.enters_nothing ctx s
  rw [exec_arriveStmt hctx]
  by_cases h : n.content.isDecl
  · rw [if_pos h]
    exact .after hask (arrival_arriveDecl hctx h hnew)
  · rw [if_neg h]
    refine .of_not_decl h (covers_stmtCourse h hids _) ?_
    refine hask.after_nothing (Action.enters_nothing ?_ ctx _)
    exact .bind (.reportStmt _ _) fun _ => .bind (.stmtCourse _ _) fun _ => .pure _

/-- Arriving at a node for the first time. -/
lemma arrival_arrive (hctx : ctx.cancelled = .never) {role : Role} (hsuits : Suits role n)
    (hids : n.ids.Nodup) (hnew : n.id ∉ s.visited) :
    Arrival n s (exec (arrive role n.id n.content n.inner) ctx s) := by
  cases role with
  | decl => exact arrival_arriveDecl hctx hsuits hnew
  | stmt => exact arrival_arriveStmt hctx hids hnew
  | callee name depth =>
      rw [arrive]
      split
      · next h =>
          have hdecl : ¬n.content.isDecl := by
            intro hdecl
            cases hcontent : n.content <;>
              simp [hcontent, isCalleeWrapper, Content.isDecl] at h hdecl
          exact .of_not_decl hdecl (covers_calleeParts hdecl _ hsuits) (.of_eq rfl rfl)
      · split
        · next hname =>
            -- the name of the callee, which is an expression
            have hdecl : ¬n.content.isDecl := hsuits n n.self_mem_nodes hname
            exact .of_not_decl hdecl (covers_statements hdecl) (.of_eq rfl rfl)
        · exact arrival_arriveStmt hctx hids hnew
  | initializer ctor =>
      obtain ⟨init, hinit⟩ := hsuits
      have hdecl : ¬n.content.isDecl := by
        rw [hinit]
        exact Bool.false_ne_true
      rw [hinit]
      refine .of_not_decl hdecl (covers_statements hdecl) (Action.enters_nothing ?_ ctx s)
      exact .bind (.arriveInitializer _ _ _) fun _ => .pure _

/-- A walk that is not cancelled does not turn back. -/
lemma exec_turnsBack (hctx : ctx.cancelled = .never) (course : Course) :
    (exec (turnsBack course) ctx s).1 = false := by
  rw [turnsBack]
  split
  · rw [exec_isCancelled, hctx]
    rfl
  · rfl

/-- Two children of a node have no ids in common. -/
lemma eq_of_mem_ids {ns : List Node} (h : (ns.flatMap Node.ids).Nodup) {c c' : Node}
    (hc : c ∈ ns) (hc' : c' ∈ ns) {id : NodeId} (hid : id ∈ c.ids) (hid' : id ∈ c'.ids) :
    c = c' := by
  obtain ⟨-, hpair⟩ := List.nodup_flatMap.mp h
  by_contra hne
  have hsymm : Std.Symm (Function.onFun List.Disjoint Node.ids) := ⟨fun _ _ hd => hd.symm⟩
  exact hpair.forall hc hc' hne hid hid'

/-- There may be nothing to go through. -/
lemma exec_visitAll_nothing (ns : List Node) : exec (visitAll .nothing ns) ctx s = ((), s) := by
  cases ns with
  | nil => rfl
  | cons n ns =>
      obtain ⟨id, content, inner⟩ := n
      rw [visitAll, if_pos rfl, exec_pure]

lemma mem_of_mem_pickedNodes {course : Course} {ns : List Node} {c : Node}
    (h : c ∈ pickedNodes course ns) : c ∈ ns := (pickedNodes_sublist course ns).subset h

mutual

/-- A visit of a node below which nothing has been entered enters what can be reached from it. -/
lemma visit_enters (hctx : ctx.cancelled = .never) {role : Role} :
    ∀ {n : Node} {s : WalkState}, Suits role n → n.ids.Nodup → (∀ id ∈ n.ids, id ∉ s.visited) →
      Enters (entered n) s (exec (visit role n) ctx s).2
  | ⟨id, content, inner⟩, s, hsuits, hids, hnew => by
      have harrive := arrival_arrive hctx hsuits hids (hnew id (by simp [Node.ids_mk]))
      rw [Node.ids_mk] at hids hnew
      obtain ⟨hid, hinner⟩ := List.nodup_cons.mp hids
      rw [visit, exec_bind]
      dsimp only at harrive
      generalize exec (arrive role id content inner) ctx s = r at harrive ⊢
      obtain ⟨⟨first, second⟩, t⟩ := r
      rw [exec_bind]
      dsimp only
      cases harrive with
      | turned hup hcourses ht =>
          obtain ⟨rfl, rfl⟩ := Prod.mk.inj hcourses
          rw [entered_of_isMadeUp hup, exec_visitAll_nothing, exec_visitAll_nothing]
          exact ht
      | passed hup hcovers ht =>
          have hinnerids {c : Node} (hc : c ∈ inner) {i : NodeId} (hi : i ∈ c.ids) :
              i ∈ inner.flatMap Node.ids := List.mem_flatMap.mpr ⟨c, hc, hi⟩
          -- nothing below has been entered: the ids of the children are not that of the node
          have hfresh {c : Node} (hc : c ∈ inner) {i : NodeId} (hi : i ∈ c.ids) :
              i ∉ t.visited := by
            rw [ht.visited]
            rintro (hs | ⟨-, rfl⟩)
            · exact hnew i (List.mem_cons_of_mem _ (hinnerids hc hi)) hs
            · exact hid (hinnerids hc hi)
          -- its own parts first, then nested declarations; no child is in both
          have hfirst := visitAll_enters hctx (fun h => hcovers.suits (Or.inl h)) hinner
            (fun c hc i hi => hfresh (mem_of_mem_pickedNodes hc) hi)
          have hsecond := visitAll_enters hctx (fun h => hcovers.suits (Or.inr h)) hinner
            (s := (exec (visitAll first inner) ctx t).2) (by
              intro c hc i hi
              rw [hfirst.visited]
              rintro (ht | ⟨c', hc', hi'⟩)
              · exact hfresh (mem_of_mem_pickedNodes hc) hi ht
              · obtain rfl := eq_of_mem_ids hinner (mem_of_mem_pickedNodes hc)
                  (mem_of_mem_pickedNodes hc') hi (mem_ids_of_mem_entered hi')
                exact hcovers.apart c hc' hc)
          have hall := (ht.trans hfirst).trans hsecond
          rw [entered_eq hup]
          convert hall using 1
          rw [Set.union_assoc]
          congr 1
          ext i
          constructor
          · rintro ⟨c, hlead, hi⟩
            rcases (hcovers.leads c).mpr hlead with hc | hc
            · exact Or.inl ⟨c, hc, hi⟩
            · exact Or.inr ⟨c, hc, hi⟩
          · rintro (⟨c, hc, hi⟩ | ⟨c, hc, hi⟩)
            · exact ⟨c, (hcovers.leads c).mp (Or.inl hc), hi⟩
            · exact ⟨c, (hcovers.leads c).mp (Or.inr hc), hi⟩

/-- So does a visit of those children of a node that a course goes through. -/
lemma visitAll_enters (hctx : ctx.cancelled = .never) :
    ∀ {course : Course} {ns : List Node} {s : WalkState},
      (∀ {role n}, (role, n) ∈ picked course ns → Suits role n) → (ns.flatMap Node.ids).Nodup →
      (∀ n ∈ pickedNodes course ns, ∀ id ∈ n.ids, id ∉ s.visited) →
      Enters {id | ∃ n ∈ pickedNodes course ns, id ∈ entered n} s
        (exec (visitAll course ns) ctx s).2
  | course, [], s, _, _, _ => by
      have hnone : {id | ∃ n ∈ pickedNodes course [], id ∈ entered n} = ∅ := by
        ext id
        simp [pickedNodes, picked]
      rw [hnone]
      exact .of_eq rfl rfl
  | course, ⟨id, content, inner⟩ :: rest, s, hsuits, hids, hnew => by
      by_cases hcourse : course = .nothing
      · have hnone : {i | ∃ n ∈ pickedNodes course (⟨id, content, inner⟩ :: rest),
            i ∈ entered n} = ∅ := by
          ext i
          simp [pickedNodes, hcourse]
        rw [hnone, hcourse, exec_visitAll_nothing]
        exact .of_eq rfl rfl
      rw [List.flatMap_cons] at hids
      obtain ⟨hid, hrest, hapart⟩ := List.nodup_append.mp hids
      -- to ask whether to turn back enters nothing, and the answer is no
      have hturn := (Action.turnsBack course).enters_nothing ctx s
      have hgoes := exec_turnsBack (s := s) hctx course
      rw [visitAll, if_neg hcourse, exec_bind]
      generalize exec (turnsBack course) ctx s = r at hturn hgoes ⊢
      obtain ⟨back, t⟩ := r
      dsimp only at hturn hgoes ⊢
      subst hgoes
      have hsame (i : NodeId) : i ∈ t.visited ↔ i ∈ s.visited := by
        rw [hturn.visited, Set.mem_empty_iff_false, or_false]
      refine hturn.after_nothing ?_
      rw [if_neg Bool.false_ne_true]
      cases hrole : course.role? content with
      | none =>
          have hpicked : picked course (⟨id, content, inner⟩ :: rest) =
              picked (course.next content) rest := by
            rw [picked, hrole]
          rw [pickedNodes, hpicked] at hnew ⊢
          rw [hpicked] at hsuits
          refine visitAll_enters hctx hsuits hrest ?_
          intro c hc i hi
          rw [hsame]
          exact hnew c hc i hi
      | some role =>
          have hpicked : picked course (⟨id, content, inner⟩ :: rest) =
              (role, ⟨id, content, inner⟩) :: picked (course.next content) rest := by
            rw [picked, hrole]
          rw [pickedNodes, hpicked, List.map_cons] at hnew ⊢
          rw [hpicked] at hsuits
          have hvisit := visit_enters hctx (s := t) (hsuits List.mem_cons_self) hid (by
            intro i hi
            rw [hsame]
            exact hnew _ List.mem_cons_self i hi)
          have hgo := visitAll_enters hctx (s := (exec (visit role ⟨id, content, inner⟩) ctx t).2)
            (fun h => hsuits (List.mem_cons_of_mem _ h)) hrest (by
              intro c hc i hi
              rw [hvisit.visited, hsame]
              rintro (hs | hn)
              · exact hnew c (List.mem_cons_of_mem _ hc) i hi hs
              · exact hapart i (mem_ids_of_mem_entered hn) i
                  (List.mem_flatMap.mpr ⟨c, mem_of_mem_pickedNodes hc, hi⟩) rfl)
          rw [exec_bind]
          convert hvisit.trans hgo using 1
          ext i
          simp [pickedNodes]

end

end

/-! ### Whole walks -/

/-- The declarations that are reached are as many as their ids. -/
lemma ncard_reached {root : Node} (hids : root.ids.Nodup) (hup : ¬isMadeUp root.content) :
    {n | Reached root n ∧ n.content.isDecl}.ncard = (entered root).ncard := by
  have himage : entered root = Node.id '' {n | Reached root n ∧ n.content.isDecl} := by
    ext id
    constructor
    · rintro ⟨-, n, hn, hdecl, rfl⟩
      exact ⟨n, ⟨hn, hdecl⟩, rfl⟩
    · rintro ⟨n, ⟨hn, hdecl⟩, rfl⟩
      exact ⟨hup, n, hn, hdecl, rfl⟩
  have hinj : Set.InjOn Node.id {n | Reached root n ∧ n.content.isDecl} := by
    rintro n ⟨hn, -⟩ m ⟨hm, -⟩ hid
    exact eq_of_mem_nodes hids hn.mem_nodes hm.mem_nodes hid
  rw [himage, hinj.ncard_image]

/-- A hash set has as many elements as the set that it stands for. -/
lemma size_eq_ncard {v : Std.HashSet NodeId} {ids : Set NodeId} (h : ∀ id, id ∈ v ↔ id ∈ ids) :
    v.size = ids.ncard := by
  have hnodup : v.toList.Nodup :=
    Std.HashSet.distinct_toList.imp fun hne heq => by simp [heq] at hne
  have hset : ids = ↑v.toList.toFinset := by
    ext id
    simp [← h id, Std.HashSet.mem_toList]
  rw [hset, Set.ncard_coe_finset, List.toFinset_card_of_nodup hnodup, Std.HashSet.length_toList]

/-- **A walk enters each declaration once.** When the root is a translation unit and no two nodes
have the same id, a walk that is not cancelled has entered the declarations that can be reached
from the root, and no others. It counts each time that it enters one, and has counted as many as
there are. -/
theorem run_enters_reached (unit : ParsedUnit) (options : WalkOptions) {c : CancelSchedule}
    (hc : c.Monotone) (watched : Bool)
    (hroot : ∃ data, unit.root.content = .decl .translationUnit data)
    (hids : unit.root.ids.Nodup)
    (hend : (run unit options c watched).stats.aborted = false) :
    (∀ id, id ∈ (finalState unit options c watched).visited ↔
        ∃ n, Reached unit.root n ∧ n.content.isDecl ∧ n.id = id) ∧
      (run unit options c watched).stats.declarations =
        {n | Reached unit.root n ∧ n.content.isDecl}.ncard := by
  obtain ⟨data, hdata⟩ := hroot
  have hup : ¬isMadeUp unit.root.content := by
    rw [hdata]
    exact Bool.false_ne_true
  have hdecl : Suits .decl unit.root := by
    rw [Suits, hdata]
    rfl
  have henters : Enters (entered unit.root) (start unit watched)
      (finalState unit options c watched) := by
    rw [finalState_eq_of_not_aborted unit options hc watched hend, finalState_eq_exec]
    exact visit_enters rfl hdecl hids (by simp [start])
  have hvisited (id : NodeId) :
      id ∈ (finalState unit options c watched).visited ↔ id ∈ entered unit.root := by
    rw [henters.visited]
    simp [start]
  refine ⟨?_, ?_⟩
  · intro id
    rw [hvisited]
    exact ⟨fun h => h.2, fun h => ⟨hup, h⟩⟩
  · show (finalState unit options c watched).stats.declarations = _
    rw [henters.counted rfl, ncard_reached hids hup, size_eq_ncard hvisited]

/-- A function with a parameter, behind it a structure that was made up with a field in it. -/
def functionAndMadeUp : ParsedUnit :=
  .ofRoot ⟨⟨1⟩, .decl .translationUnit {}, [
      ⟨⟨2⟩, .decl .function { name := some "f" }, [⟨⟨3⟩, .decl .parmVar {}, []⟩]⟩,
      ⟨⟨4⟩, .decl .record { implicitMark := some true }, [⟨⟨5⟩, .decl .field {}, []⟩]⟩]⟩
    ⟨"/m.cpp", ⟨"/"⟩, fun _ => none⟩

/-- A walk enters the unit, the function and its parameter. -/
theorem run_enters_reached_functionAndMadeUp :
    {n | Reached functionAndMadeUp.root n ∧ n.content.isDecl}.ncard = 3 := by
  have hends : (run functionAndMadeUp {} .never false).stats.aborted = false := rfl
  obtain ⟨-, hcount⟩ := run_enters_reached functionAndMadeUp {} CancelSchedule.monotone_never false
    ⟨_, rfl⟩ (by decide) hends
  rw [← hcount]
  cbv

end UnitIndex.Walk
