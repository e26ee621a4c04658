import Mathlib.Tactic
import UnitIndex.Proofs.Walk.Entering

/-!
Where a walk comes, and what it delivers there.

A stop of a walk is a node in the role in which it is visited and in the state in which the walk
comes to it. Every stop leads on to the stops at the children (`Stop.next`), and the log of a stop
is the tree of them in the order of the walk (`Stop.log`); a law of it is proved by induction over
the log. What a visit delivers is what is delivered at the stops of its log, one after the other
(`facts_visit`). If no two nodes have the same id, the walk comes to each node that can be reached
once, and to no others but those that were made up (`nodup_log`, `exists_mem_log_iff`).
-/

namespace UnitIndex.Walk

/-- A node that a walk comes to, in its role, and the state in which it does. -/
structure Stop where
  role : Role
  node : Node
  state : WalkState

/-- The stops at the children that a course goes through. -/
def stopsAlong (ctx : WalkContext) (course : Course) : List Node → WalkState → List Stop
  | [], _ => []
  | n :: rest, s =>
    if course = .nothing then []
    else
      let r := exec (turnsBack course) ctx s
      if r.1 then []
      else
        match course.role? n.content with
        | some role =>
          ⟨role, n, r.2⟩ ::
            stopsAlong ctx (course.next n.content) rest (exec (visit role n) ctx r.2).2
        | none => stopsAlong ctx (course.next n.content) rest r.2

namespace Stop

/-- What comes of the arrival at a stop: the courses through the children, and the state behind. -/
def arrived (ctx : WalkContext) (a : Stop) : (Course × Course) × WalkState :=
  exec (arrive a.role a.node.id a.node.content a.node.inner) ctx a.state

/-- What is delivered at a stop itself. -/
def delivered (ctx : WalkContext) (a : Stop) : List Fact :=
  (a.arrived ctx).2.facts.toList.drop a.state.facts.size

/-- The stops at the children of a stop. -/
def next (ctx : WalkContext) (a : Stop) : List Stop :=
  let r := a.arrived ctx
  stopsAlong ctx r.1.1 a.node.inner r.2 ++
    stopsAlong ctx r.1.2 a.node.inner (exec (visitAll r.1.1 a.node.inner) ctx r.2).2

end Stop

variable {ctx : WalkContext} {s : WalkState} {a b : Stop} {course : Course} {ns : List Node}

/-- A walk along some nodes stops at those. -/
lemma mem_of_mem_stopsAlong (h : b ∈ stopsAlong ctx course ns s) : b.node ∈ ns := by
  induction ns generalizing course s with
  | nil => exact absurd h (by simp [stopsAlong])
  | cons n rest ih =>
      rw [stopsAlong] at h
      split at h
      · exact absurd h (by simp)
      dsimp only at h
      split at h
      · exact absurd h (by simp)
      split at h
      · rcases List.mem_cons.mp h with rfl | h
        · exact List.mem_cons_self
        · exact List.mem_cons_of_mem _ (ih h)
      · exact List.mem_cons_of_mem _ (ih h)

namespace Stop

/-- So it goes on to children. -/
lemma mem_inner_of_mem_next (h : b ∈ a.next ctx) : b.node ∈ a.node.inner := by
  rcases List.mem_append.mp h with h | h
  · exact mem_of_mem_stopsAlong h
  · exact mem_of_mem_stopsAlong h

/-- These are smaller, so that the log ends. -/
lemma sizeOf_lt_of_mem_next (h : b ∈ a.next ctx) : sizeOf b.node < sizeOf a.node :=
  Node.sizeOf_lt_of_mem_inner (mem_inner_of_mem_next h)

/-- The stops of a visit, in the order of the walk. -/
def log (ctx : WalkContext) (a : Stop) : List Stop :=
  a :: (a.next ctx).attach.flatMap fun b => log ctx b.1
termination_by sizeOf a.node
decreasing_by exact sizeOf_lt_of_mem_next b.2

/-- The log of a stop is the stop and the logs of those that it leads to. -/
lemma log_eq (ctx : WalkContext) (a : Stop) : a.log ctx = a :: (a.next ctx).flatMap (log ctx) := by
  rw [log]
  simp

/-- A law of stops holds if it holds of a stop whenever it holds of those at the children. -/
lemma induction (ctx : WalkContext) {P : Stop → Prop}
    (h : ∀ a, (∀ b ∈ a.next ctx, P b) → P a) (a : Stop) : P a := by
  induction a using log.induct ctx with
  | case1 a ih => exact h a fun b hb => ih ⟨b, hb⟩

lemma self_mem_log (ctx : WalkContext) (a : Stop) : a ∈ a.log ctx := by
  rw [log_eq]
  exact List.mem_cons_self

/-- A stop of the log is the stop itself or one further on. -/
lemma mem_log_iff : b ∈ a.log ctx ↔ b = a ∨ ∃ c ∈ a.next ctx, b ∈ c.log ctx := by
  rw [log_eq, List.mem_cons, List.mem_flatMap]

/-- The stops at the children of a stop of the log are in the log. -/
lemma mem_log_of_mem_next {c : Stop} (hb : b ∈ a.log ctx) (hc : c ∈ b.next ctx) :
    c ∈ a.log ctx := by
  induction a using induction ctx with
  | h a ih =>
      rcases mem_log_iff.mp hb with rfl | ⟨d, hd, hb⟩
      · exact mem_log_iff.mpr (Or.inr ⟨c, hc, self_mem_log ctx c⟩)
      · exact mem_log_iff.mpr (Or.inr ⟨d, hd, ih d hd hb⟩)

/-- All stops of a log are at nodes of the tree. -/
lemma mem_nodes_of_mem_log (h : b ∈ a.log ctx) : b.node ∈ a.node.nodes := by
  induction a using induction ctx with
  | h a ih =>
      rcases mem_log_iff.mp h with rfl | ⟨c, hc, h⟩
      · exact b.node.self_mem_nodes
      · exact Node.mem_nodes_of_mem_inner (mem_inner_of_mem_next hc) (ih c hc h)

lemma mem_ids_of_mem_log (h : b ∈ a.log ctx) : b.node.id ∈ a.node.ids :=
  List.mem_map_of_mem (mem_nodes_of_mem_log h)

end Stop

/-! ### What is delivered -/

/-- To visit a node is to arrive at it, and to go along its two courses. -/
lemma exec_visit (role : Role) (n : Node) (ctx : WalkContext) (s : WalkState) :
    exec (visit role n) ctx s =
      let r := exec (arrive role n.id n.content n.inner) ctx s
      exec (visitAll r.1.2 n.inner) ctx (exec (visitAll r.1.1 n.inner) ctx r.2).2 := by
  obtain ⟨id, content, inner⟩ := n
  rw [visit]
  rfl

/-- To go along some nodes is to turn back, or to visit the first and to go on. -/
lemma exec_visitAll_cons (hcourse : course ≠ .nothing) (n : Node) (rest : List Node)
    (ctx : WalkContext) (s : WalkState) :
    exec (visitAll course (n :: rest)) ctx s =
      let r := exec (turnsBack course) ctx s
      if r.1 then ((), r.2)
      else
        match course.role? n.content with
        | some role =>
          exec (visitAll (course.next n.content) rest) ctx (exec (visit role n) ctx r.2).2
        | none => exec (visitAll (course.next n.content) rest) ctx r.2 := by
  obtain ⟨id, content, inner⟩ := n
  rw [visitAll, if_neg hcourse, exec_bind]
  dsimp only
  split
  · rfl
  · cases course.role? content <;> rfl

/-- To ask whether to turn back delivers nothing. -/
lemma facts_turnsBack (course : Course) (ctx : WalkContext) (s : WalkState) :
    (exec (turnsBack course) ctx s).2.facts = s.facts := by
  rw [turnsBack]
  split <;> rfl

namespace Stop

/-- What arriving delivers stands behind what was delivered before. -/
lemma facts_arrived (ctx : WalkContext) (a : Stop) :
    (a.arrived ctx).2.facts.toList = a.state.facts.toList ++ a.delivered ctx := by
  have hprefix := (Action.arrive a.role a.node.id a.node.content a.node.inner).delivers ctx a.state
  have hsplit := List.prefix_iff_eq_append.mp hprefix
  rw [Array.length_toList] at hsplit
  exact hsplit.symm

/-- What has been delivered behind a visit is what was before, and what is delivered at the stops
of its log. -/
def Accounted (ctx : WalkContext) (a : Stop) : Prop :=
  (exec (visit a.role a.node) ctx a.state).2.facts.toList =
    a.state.facts.toList ++ (a.log ctx).flatMap (delivered ctx)

end Stop

/-- What is delivered along some nodes is what is delivered at their stops. -/
lemma facts_visitAll (h : ∀ b ∈ stopsAlong ctx course ns s, b.Accounted ctx) :
    (exec (visitAll course ns) ctx s).2.facts.toList =
      s.facts.toList ++
        (stopsAlong ctx course ns s).flatMap fun b =>
          (b.log ctx).flatMap (Stop.delivered ctx) := by
  induction ns generalizing course s with
  | nil => simp [visitAll, stopsAlong]
  | cons n rest ih =>
      rw [stopsAlong] at h ⊢
      by_cases hcourse : course = .nothing
      · rw [hcourse, exec_visitAll_nothing]
        simp
      rw [if_neg hcourse] at h ⊢
      rw [exec_visitAll_cons hcourse]
      -- first the question, then the child if the course picks it, then the rest
      have hfacts := facts_turnsBack course ctx s
      generalize exec (turnsBack course) ctx s = r at h hfacts ⊢
      obtain ⟨back, t⟩ := r
      dsimp only at h hfacts ⊢
      rw [← hfacts]
      cases back with
      | true => simp
      | false =>
          simp only [Bool.false_eq_true, if_false] at h ⊢
          cases hrole : course.role? n.content with
          | none =>
              rw [hrole] at h
              exact ih h
          | some role =>
              rw [hrole] at h
              obtain ⟨hfirst, hrest⟩ := List.forall_mem_cons.mp h
              dsimp only
              rw [ih hrest, hfirst, List.flatMap_cons, List.append_assoc]

/-- **What a visit delivers** is what is delivered at the stops of its log. -/
lemma facts_visit (ctx : WalkContext) (a : Stop) : a.Accounted ctx := by
  induction a using Stop.induction ctx with
  | h a ih =>
      have hfirst := facts_visitAll fun b hb => ih b (List.mem_append_left _ hb)
      have hsecond := facts_visitAll fun b hb => ih b (List.mem_append_right _ hb)
      rw [Stop.Accounted, exec_visit, Stop.log_eq, List.flatMap_cons, List.flatMap_assoc,
        Stop.next, List.flatMap_append]
      dsimp only at hfirst hsecond ⊢
      rw [← Stop.arrived, hsecond, hfirst, Stop.facts_arrived, List.append_assoc, List.append_assoc]

/-! ### Roles -/

/-- The stops along a course are at the children that it goes through, in their roles. -/
lemma map_stopsAlong (hctx : ctx.cancelled = .never) (course : Course) (ns : List Node)
    (s : WalkState) :
    (stopsAlong ctx course ns s).map (fun b => (b.role, b.node)) = picked course ns := by
  induction ns generalizing course s with
  | nil => rfl
  | cons n rest ih =>
      rw [stopsAlong]
      by_cases hcourse : course = .nothing
      · rw [if_pos hcourse, hcourse, picked_nothing, List.map_nil]
      rw [if_neg hcourse]
      dsimp only
      rw [exec_turnsBack hctx, if_neg Bool.false_ne_true, picked]
      cases course.role? n.content with
      | none => exact ih _ _
      | some role =>
          dsimp only
          rw [List.map_cons, ih]

namespace Stop

/-- A stop leads on to the children that its courses pick. -/
lemma map_next (hctx : ctx.cancelled = .never) (a : Stop) :
    (a.next ctx).map (fun b => (b.role, b.node)) =
      picked (a.arrived ctx).1.1 a.node.inner ++ picked (a.arrived ctx).1.2 a.node.inner := by
  rw [next, List.map_append, map_stopsAlong hctx, map_stopsAlong hctx]

/-- The stops at the children, by their roles. -/
lemma exists_mem_next_iff (hctx : ctx.cancelled = .never) {role : Role} {c : Node} :
    (∃ b ∈ a.next ctx, b.role = role ∧ b.node = c) ↔
      (role, c) ∈ picked (a.arrived ctx).1.1 a.node.inner ∨
        (role, c) ∈ picked (a.arrived ctx).1.2 a.node.inner := by
  rw [← List.mem_append, ← map_next hctx, List.mem_map]
  simp only [Prod.mk.injEq]

lemma map_node_next (hctx : ctx.cancelled = .never) (a : Stop) :
    (a.next ctx).map (·.node) =
      pickedNodes (a.arrived ctx).1.1 a.node.inner ++
        pickedNodes (a.arrived ctx).1.2 a.node.inner := by
  have hmap := congrArg (List.map Prod.snd) (map_next hctx a)
  rwa [List.map_map, List.map_append] at hmap

/-- The stops at the children, by their nodes. -/
lemma exists_node_mem_next_iff (hctx : ctx.cancelled = .never) {c : Node} :
    (∃ b ∈ a.next ctx, b.node = c) ↔
      c ∈ pickedNodes (a.arrived ctx).1.1 a.node.inner ∨
        c ∈ pickedNodes (a.arrived ctx).1.2 a.node.inner := by
  rw [← List.mem_append, ← map_node_next hctx, List.mem_map]

/-! ### Fresh subtrees -/

/-- The node may be visited in the role, no two nodes below it have the same id, and nothing there
has been entered. -/
structure Placed (a : Stop) : Prop where
  suits : Suits a.role a.node
  nodup : a.node.ids.Nodup
  fresh : ∀ id ∈ a.node.ids, id ∉ a.state.visited

end Stop

/-- Along fresh nodes that suit their roles every stop is a fresh one. -/
lemma placed_stopsAlong (hctx : ctx.cancelled = .never)
    (hsuits : ∀ {role n}, (role, n) ∈ picked course ns → Suits role n)
    (hids : (ns.flatMap Node.ids).Nodup)
    (hnew : ∀ n ∈ pickedNodes course ns, ∀ id ∈ n.ids, id ∉ s.visited)
    (hb : b ∈ stopsAlong ctx course ns s) : b.Placed := by
  induction ns generalizing course s with
  | nil => exact absurd hb (by simp [stopsAlong])
  | cons n rest ih =>
      rw [stopsAlong] at hb
      split at hb
      · exact absurd hb (by simp)
      rw [List.flatMap_cons] at hids
      obtain ⟨hid, hrest, hapart⟩ := List.nodup_append.mp hids
      have hturn := (Action.turnsBack course).enters_nothing ctx s
      have hsame (i : NodeId) : i ∈ (exec (turnsBack course) ctx s).2.visited ↔ i ∈ s.visited := by
        rw [hturn.visited, Set.mem_empty_iff_false, or_false]
      dsimp only at hb
      rw [exec_turnsBack hctx, if_neg Bool.false_ne_true] at hb
      rw [pickedNodes, picked] at hnew
      rw [picked] at hsuits
      cases hrole : course.role? n.content with
      | none =>
          rw [hrole] at hb hsuits hnew
          refine ih hsuits hrest (fun c hc i hi => ?_) hb
          rw [hsame]
          exact hnew c hc i hi
      | some role =>
          rw [hrole] at hb hsuits hnew
          -- nothing below the first node has been entered yet
          have hfresh : ∀ id ∈ n.ids, id ∉ (exec (turnsBack course) ctx s).2.visited := by
            intro i hi
            rw [hsame]
            exact hnew n List.mem_cons_self i hi
          rcases List.mem_cons.mp hb with rfl | hb
          · exact ⟨hsuits List.mem_cons_self, hid, hfresh⟩
          · -- a visit of the first node enters nothing below the others
            have hvisit := visit_enters hctx (hsuits List.mem_cons_self) hid hfresh
            refine ih (fun h => hsuits (List.mem_cons_of_mem _ h)) hrest (fun c hc i hi => ?_) hb
            rw [hvisit.visited, hsame]
            rintro (hs | hn)
            · exact hnew c (List.mem_cons_of_mem _ hc) i hi hs
            · have hmem := List.mem_flatMap.mpr ⟨c, mem_of_mem_pickedNodes hc, hi⟩
              exact hapart i (mem_ids_of_mem_entered hn) i hmem rfl

/-- The ids of a tree are that of the root and those of the children. -/
lemma ids_eq (n : Node) : n.ids = n.id :: n.inner.flatMap Node.ids := by
  obtain ⟨id, content, inner⟩ := n
  exact Node.ids_mk id content inner

/-- Nodes with different ids are different. -/
lemma nodup_of_nodup_ids (h : (ns.flatMap Node.ids).Nodup) : ns.Nodup := by
  obtain ⟨-, hpair⟩ := List.nodup_flatMap.mp h
  refine hpair.imp fun {c d} hdisjoint heq => ?_
  have hmem : c.id ∈ c.ids := List.mem_map_of_mem c.self_mem_nodes
  exact hdisjoint hmem (heq ▸ hmem)

namespace Stop

/-- The stops at the children are placed, and at different nodes. -/
structure Fans (ctx : WalkContext) (a : Stop) : Prop where
  placed : ∀ b ∈ a.next ctx, b.Placed
  nodup : ((a.next ctx).map (·.node)).Nodup

/-- Courses that have no child in common, and that suit their children, lead to fresh stops. -/
lemma fans_of_courses (hctx : ctx.cancelled = .never)
    (hsuits : ∀ {role c}, (role, c) ∈ picked (a.arrived ctx).1.1 a.node.inner ∨
      (role, c) ∈ picked (a.arrived ctx).1.2 a.node.inner → Suits role c)
    (hapart : ∀ c, c ∈ pickedNodes (a.arrived ctx).1.1 a.node.inner →
      c ∉ pickedNodes (a.arrived ctx).1.2 a.node.inner)
    (hinner : (a.node.inner.flatMap Node.ids).Nodup)
    (hfresh : ∀ c ∈ a.node.inner, ∀ id ∈ c.ids, id ∉ (a.arrived ctx).2.visited) :
    a.Fans ctx where
  placed := by
    intro b hb
    rcases List.mem_append.mp hb with hb | hb
    · refine placed_stopsAlong hctx (fun h => hsuits (Or.inl h)) hinner ?_ hb
      exact fun c hc id hid => hfresh c (mem_of_mem_pickedNodes hc) id hid
    · -- the first course has entered nothing below the children of the second
      have hfirst := visitAll_enters hctx (s := (a.arrived ctx).2) (fun h => hsuits (Or.inl h))
        hinner fun c hc id hid => hfresh c (mem_of_mem_pickedNodes hc) id hid
      refine placed_stopsAlong hctx (fun h => hsuits (Or.inr h)) hinner (fun c hc id hid => ?_) hb
      rw [hfirst.visited]
      rintro (ht | ⟨c', hc', hid'⟩)
      · exact hfresh c (mem_of_mem_pickedNodes hc) id hid ht
      · obtain rfl := eq_of_mem_ids hinner (mem_of_mem_pickedNodes hc)
          (mem_of_mem_pickedNodes hc') hid (mem_ids_of_mem_entered hid')
        exact hapart c hc' hc
  nodup := by
    have hnodup := nodup_of_nodup_ids hinner
    rw [map_node_next hctx]
    refine List.nodup_append.mpr ⟨(pickedNodes_sublist _ _).nodup hnodup,
      (pickedNodes_sublist _ _).nodup hnodup, fun c hc d hd heq => ?_⟩
    exact hapart c hc (heq ▸ hd)

/-- Where there is nothing to go through a walk does not go on. -/
lemma next_eq_nil (hctx : ctx.cancelled = .never) (h : (a.arrived ctx).1 = (.nothing, .nothing)) :
    a.next ctx = [] := by
  have hmap := map_next hctx a
  rw [h, picked_nothing, List.append_nil] at hmap
  exact List.map_eq_nil_iff.mp hmap

namespace Placed

/-- Below a fresh stop no two nodes have the same id. -/
lemma nodup_inner (h : a.Placed) :
    a.node.id ∉ a.node.inner.flatMap Node.ids ∧ (a.node.inner.flatMap Node.ids).Nodup := by
  have hids := h.nodup
  rw [ids_eq] at hids
  exact List.nodup_cons.mp hids

/-- A walk arrives at a fresh stop for the first time. -/
lemma arrival (h : a.Placed) (hctx : ctx.cancelled = .never) :
    Arrival a.node a.state (a.arrived ctx) :=
  arrival_arrive hctx h.suits h.nodup (h.fresh _ (List.mem_map_of_mem a.node.self_mem_nodes))

/-- **A fresh stop leads to fresh stops.** -/
lemma fans (h : a.Placed) (hctx : ctx.cancelled = .never) : a.Fans ctx := by
  obtain ⟨hid, hinner⟩ := h.nodup_inner
  cases h.arrival hctx with
  | turned _ hcourses _ =>
      have hnil := next_eq_nil hctx hcourses
      exact ⟨by simp [hnil], by simp [hnil]⟩
  | passed _ hcovers henters =>
      refine fans_of_courses hctx hcovers.suits hcovers.apart hinner fun c hc i hi => ?_
      have hmem : i ∈ a.node.inner.flatMap Node.ids := List.mem_flatMap.mpr ⟨c, hc, hi⟩
      rw [henters.visited]
      rintro (hs | ⟨-, rfl⟩)
      · refine h.fresh i ?_ hs
        rw [ids_eq]
        exact List.mem_cons_of_mem _ hmem
      · exact hid hmem

/-- The children at which there are stops are those that the node leads to. -/
lemma exists_node_mem_next_iff (h : a.Placed) (hctx : ctx.cancelled = .never) {c : Node} :
    (∃ b ∈ a.next ctx, b.node = c) ↔ ¬isMadeUp a.node.content ∧ Leads a.node c := by
  rw [Stop.exists_node_mem_next_iff hctx]
  cases h.arrival hctx with
  | turned hup hcourses _ => simp [hcourses, hup, pickedNodes]
  | passed hup hcovers _ => simp [hup, hcovers.leads]

end Placed

/-! ### Whole logs -/

/-- If no node occurs twice in the logs further on, none occurs twice in the log. -/
lemma nodup_log_of_fans (hids : a.node.ids.Nodup) (hfans : a.Fans ctx)
    (hlogs : ∀ b ∈ a.next ctx, ((b.log ctx).map (·.node.id)).Nodup) :
    ((a.log ctx).map (·.node.id)).Nodup := by
  rw [ids_eq] at hids
  obtain ⟨hid, hinner⟩ := List.nodup_cons.mp hids
  rw [log_eq, List.map_cons, List.map_flatMap, List.nodup_cons, List.nodup_flatMap]
  refine ⟨fun hmem => ?_, hlogs, ?_⟩
  · obtain ⟨b, hb, hmem⟩ := List.mem_flatMap.mp hmem
    obtain ⟨d, hd, heq⟩ := List.mem_map.mp hmem
    refine hid (List.mem_flatMap.mpr ⟨b.node, mem_inner_of_mem_next hb, ?_⟩)
    rw [← heq]
    exact mem_ids_of_mem_log hd
  · -- no node is below two children
    have hpair := List.pairwise_map.mp hfans.nodup
    refine hpair.imp_of_mem fun {b c} hb hc hne => ?_
    intro i hi hi'
    obtain ⟨d, hd, rfl⟩ := List.mem_map.mp hi
    obtain ⟨d', hd', heq⟩ := List.mem_map.mp hi'
    refine hne (eq_of_mem_ids hinner (mem_inner_of_mem_next hb) (mem_inner_of_mem_next hc)
      (mem_ids_of_mem_log hd) ?_)
    rw [← heq]
    exact mem_ids_of_mem_log hd'

/-- A walk comes to no node twice. -/
lemma nodup_log (hctx : ctx.cancelled = .never) (h : a.Placed) :
    ((a.log ctx).map (·.node.id)).Nodup := by
  induction a using induction ctx with
  | h a ih =>
      have hfans := h.fans hctx
      exact nodup_log_of_fans h.nodup hfans fun b hb => ih b hb (hfans.placed b hb)

/-- All its stops are placed. -/
lemma Placed.of_mem_log (hctx : ctx.cancelled = .never) (h : a.Placed) (hb : b ∈ a.log ctx) :
    b.Placed := by
  induction a using induction ctx with
  | h a ih =>
      rcases mem_log_iff.mp hb with rfl | ⟨c, hc, hb⟩
      · exact h
      · exact ih c hc ((h.fans hctx).placed c hc) hb

/-- A walk comes to the nodes that can be reached, and to no others but those that were made up. -/
lemma exists_mem_log_iff (hctx : ctx.cancelled = .never) (h : a.Placed) {n : Node} :
    (∃ b ∈ a.log ctx, b.node = n) ∧ ¬isMadeUp n.content ↔
      ¬isMadeUp a.node.content ∧ Reached a.node n := by
  induction a using induction ctx with
  | h a ih =>
      constructor
      · rintro ⟨⟨b, hb, rfl⟩, hup⟩
        -- the stop itself, or one further on, which can be reached from a child
        rcases mem_log_iff.mp hb with rfl | ⟨c, hc, hb⟩
        · exact ⟨hup, .refl⟩
        · obtain ⟨hup', hreached⟩ :=
            (ih c hc ((h.fans hctx).placed c hc)).mp ⟨⟨b, hb, rfl⟩, hup⟩
          obtain ⟨hupa, hleads⟩ := (h.exists_node_mem_next_iff hctx).mp ⟨c, hc, rfl⟩
          exact ⟨hupa, .head ⟨hleads, hup'⟩ hreached⟩
      · rintro ⟨hup, hreached⟩
        rcases hreached.cases_head with rfl | ⟨c, ⟨hleads, hup'⟩, hreached⟩
        · exact ⟨⟨a, self_mem_log ctx a, rfl⟩, hup⟩
        · obtain ⟨d, hd, rfl⟩ := (h.exists_node_mem_next_iff hctx).mpr ⟨hup, hleads⟩
          obtain ⟨⟨b, hb, hnode⟩, hupn⟩ :=
            (ih d hd ((h.fans hctx).placed d hd)).mpr ⟨hup', hreached⟩
          exact ⟨⟨b, mem_log_iff.mpr (Or.inr ⟨d, hd, hb⟩), hnode⟩, hupn⟩

end Stop

/-! ### Whole walks -/

/-- Where a walk starts. -/
def Stop.root (unit : ParsedUnit) (watched : Bool) : Stop := ⟨.decl, unit.root, start unit watched⟩

/-- The stops of a walk that is not cancelled. -/
def stops (unit : ParsedUnit) (options : WalkOptions) (watched : Bool) : List Stop :=
  (Stop.root unit watched).log ⟨unit, options, .never⟩

/-- A walk goes from the root of its tree to the child. The root is visited as a declaration,
whatever it is; of a kind that is not told apart, it counts as a scope. -/
inductive Starts (root child : Node) : Prop
  | decl : root.content.isDecl → Leads root child → Starts root child
  | unknown {kind : Option String} {loc : Option SourceLocation} {range : Option SourceRange} :
      root.content = .other kind loc range → child ∈ root.inner → child.content.isDecl →
      Starts root child

/-- A walk over the tree meets the node. A root that is no declaration is not met itself. -/
def Met (root n : Node) : Prop :=
  ¬isMadeUp root.content ∧
    (root.content.isDecl ∧ n = root ∨
      ∃ c, Starts root c ∧ ¬isMadeUp c.content ∧ Reached c n)

/-- What a walk starts to is a child of the root. -/
lemma Starts.mem_inner {root child : Node} (h : Starts root child) : child ∈ root.inner := by
  cases h with
  | decl _ hleads => exact hleads.mem_inner
  | unknown _ hmem _ => exact hmem

/-- What is met is a node of the tree. -/
lemma Met.mem_nodes {root n : Node} (h : Met root n) : n ∈ root.nodes := by
  obtain ⟨-, ⟨-, rfl⟩ | ⟨c, hstarts, -, hreached⟩⟩ := h
  · exact n.self_mem_nodes
  · exact Node.mem_nodes_of_mem_inner hstarts.mem_inner hreached.mem_nodes

/-- From a declaration a walk meets what can be reached. -/
lemma met_iff_of_isDecl {root n : Node} (h : root.content.isDecl) :
    Met root n ↔ ¬isMadeUp root.content ∧ Reached root n := by
  refine and_congr_right fun hup => ?_
  constructor
  · rintro (⟨-, rfl⟩ | ⟨c, hstarts, hupc, hreached⟩)
    · exact .refl
    · cases hstarts with
      | decl _ hleads => exact .head ⟨hleads, hupc⟩ hreached
      | unknown hother hmem hdecl =>
          have hscope : isScope root.content := by
            rw [hother] at h ⊢
            exact h
          exact .head ⟨.nested hscope hmem hdecl, hupc⟩ hreached
  · intro hreached
    rcases hreached.cases_head with rfl | ⟨c, ⟨hleads, hupc⟩, hreached⟩
    · exact Or.inl ⟨h, rfl⟩
    · exact Or.inr ⟨c, .decl h hleads, hupc, hreached⟩

/-- From a node that is met, a walk goes on. -/
lemma Met.passes {root n c : Node} (h : Met root n) (hpasses : Passes n c) : Met root c := by
  obtain ⟨hup, ⟨hdecl, rfl⟩ | ⟨d, hstarts, hupd, hreached⟩⟩ := h
  · exact (met_iff_of_isDecl hdecl).mpr ⟨hup, .single hpasses⟩
  · exact ⟨hup, Or.inr ⟨d, hstarts, hupd, hreached.tail hpasses⟩⟩

section

variable {unit : ParsedUnit} {options : WalkOptions} {watched : Bool}

/-- **The facts of a walk are those delivered at its stops.** -/
lemma facts_run {c : CancelSchedule} (hc : c.Monotone)
    (hend : (run unit options c watched).stats.aborted = false) :
    (run unit options c watched).facts =
      (stops unit options watched).flatMap (Stop.delivered ⟨unit, options, .never⟩) := by
  have hfacts := facts_visit ⟨unit, options, .never⟩ (Stop.root unit watched)
  show (finalState unit options c watched).facts.toList = _
  rw [finalState_eq_of_not_aborted unit options hc watched hend, finalState_eq_exec]
  exact hfacts

/-- A root that is no declaration is entered, and nothing is reported about it. -/
lemma arrived_root (h : ¬unit.root.content.isDecl) :
    (Stop.root unit watched).arrived ⟨unit, options, .never⟩ =
      ((.nothing, nestedCourse unit.root.content),
        (exec (enter unit.root.id unit.root.content) ⟨unit, options, .never⟩
          (asked (start unit watched))).2) := by
  have hup := not_isMadeUp_of_not_isDecl h
  have hnew : ¬(start unit watched).visited.contains unit.root.id := by simp [start]
  show exec (arriveDecl unit.root.id unit.root.content) ⟨unit, options, .never⟩
    (start unit watched) = _
  rw [exec_arriveDecl rfl, if_neg hup, if_neg hnew]
  cases hcontent : unit.root.content with
  | decl kind data => exact absurd (by rw [hcontent]; rfl) h
  | _ => rfl

/-- A root that is a declaration is a fresh stop. -/
lemma placed_root (h : unit.root.content.isDecl) (hids : unit.root.ids.Nodup) :
    (Stop.root unit watched).Placed :=
  ⟨h, hids, by simp [Stop.root, start]⟩

/-- The children at which a walk stops first are those that it starts to. -/
lemma exists_node_mem_next_root_iff (hids : unit.root.ids.Nodup) {c : Node} :
    (∃ b ∈ (Stop.root unit watched).next ⟨unit, options, .never⟩, b.node = c) ↔
      ¬isMadeUp unit.root.content ∧ Starts unit.root c := by
  by_cases h : unit.root.content.isDecl
  · rw [(placed_root h hids).exists_node_mem_next_iff rfl]
    refine and_congr_right fun _ => ⟨.decl h, ?_⟩
    rintro (⟨-, hleads⟩ | ⟨hother, hmem, hdecl⟩)
    · exact hleads
    · refine .nested ?_ hmem hdecl
      show isScope unit.root.content
      rw [hother] at h ⊢
      exact h
  · have hup := not_isMadeUp_of_not_isDecl h
    rw [Stop.exists_node_mem_next_iff rfl, arrived_root h]
    show c ∈ pickedNodes .nothing _ ∨ c ∈ pickedNodes _ unit.root.inner ↔ _
    cases hcontent : unit.root.content with
    | other kind loc range =>
        -- a root of unknown kind is gone through for its declarations alone
        have hsteady : Steady (.declarations false false) := by
          intro child
          rw [Course.next, Bool.false_and, Bool.false_and, if_neg (by simp)]
        rw [hcontent] at hup
        have hnested : nestedCourse (.other kind loc range) = .declarations false false := rfl
        rw [hnested, mem_pickedNodes hsteady, isSome_role?_declarations]
        constructor
        · rintro (hc | ⟨hmem, hdecl⟩)
          · exact absurd hc (by simp [pickedNodes])
          · exact ⟨hup, .unknown hcontent hmem hdecl⟩
        · rintro ⟨-, hdecl | ⟨-, hmem, hdecl⟩⟩
          · exact absurd hdecl h
          · exact Or.inr ⟨hmem, hdecl⟩
    | decl kind data => exact absurd (by rw [hcontent]; rfl) h
    | _ =>
        have hnone : ¬Starts unit.root c := by
          rintro (hdecl | hother)
          · exact h hdecl
          · exact absurd (hcontent.symm.trans hother) (by simp)
        simp [hnone, nestedCourse, pickedNodes]

/-- Any other root leads to fresh stops as well. -/
lemma fans_root (hids : unit.root.ids.Nodup) :
    (Stop.root unit watched).Fans ⟨unit, options, .never⟩ := by
  by_cases h : unit.root.content.isDecl
  · exact (placed_root h hids).fans rfl
  · obtain ⟨hid, hinner⟩ := List.nodup_cons.mp (ids_eq unit.root ▸ hids)
    have hsuits {role : Role} {c : Node}
        (hc : (role, c) ∈ picked (nestedCourse unit.root.content) unit.root.inner) :
        Suits role c := by
      cases hcontent : unit.root.content with
      | other kind loc range =>
          rw [hcontent] at hc
          exact suits_of_declarations hc
      | decl kind data => exact absurd (by rw [hcontent]; rfl) h
      | _ =>
          rw [hcontent] at hc
          exact absurd hc (by simp [nestedCourse])
    have hnew : unit.root.id ∉ (asked (start unit watched)).visited := by simp [asked, start]
    have henters := enters_enter hnew unit.root.content ⟨unit, options, .never⟩
    refine Stop.fans_of_courses rfl ?_ ?_ hinner ?_
    · rw [arrived_root h]
      rintro role c (hc | hc)
      · exact absurd hc (by simp)
      · exact hsuits hc
    · rw [arrived_root h]
      intro c hc
      exact absurd hc (by simp [pickedNodes])
    · rw [arrived_root h]
      intro c hc i hi
      rw [henters.visited]
      rintro (hs | rfl)
      · exact absurd hs (by simp [asked, start])
      · exact hid (List.mem_flatMap.mpr ⟨c, hc, hi⟩)

/-- A walk comes to no node twice. -/
lemma nodup_stops (hids : unit.root.ids.Nodup) :
    ((stops unit options watched).map (·.node.id)).Nodup := by
  have hfans : (Stop.root unit watched).Fans ⟨unit, options, .never⟩ := fans_root hids
  exact Stop.nodup_log_of_fans hids hfans fun b hb => Stop.nodup_log rfl (hfans.placed b hb)

/-- A walk comes to the nodes that it meets. -/
lemma Met.exists_stop (hids : unit.root.ids.Nodup) {n : Node} (h : Met unit.root n) :
    ∃ a ∈ stops unit options watched, a.Placed ∧ a.node = n := by
  obtain ⟨hup, ⟨hdecl, rfl⟩ | ⟨c, hstarts, hupc, hreached⟩⟩ := h
  · exact ⟨_, Stop.self_mem_log _ _, placed_root hdecl hids, rfl⟩
  · obtain ⟨b, hb, rfl⟩ := (exists_node_mem_next_root_iff hids).mpr ⟨hup, hstarts⟩
    have hctx : (⟨unit, options, .never⟩ : WalkContext).cancelled = .never := rfl
    have hplaced := (fans_root hids).placed b hb
    obtain ⟨⟨a, ha, hnode⟩, -⟩ := (Stop.exists_mem_log_iff hctx hplaced).mpr ⟨hupc, hreached⟩
    have hstop := Stop.mem_log_iff.mpr (Or.inr ⟨b, hb, ha⟩)
    exact ⟨a, hstop, hplaced.of_mem_log rfl ha, hnode⟩

/-- Nothing is delivered where the walk turns back. -/
lemma Stop.Placed.delivered_of_isMadeUp (hctx : ctx.cancelled = .never) (h : a.Placed)
    (hup : isMadeUp a.node.content) : a.delivered ctx = [] := by
  have hdecl : a.node.content.isDecl := by
    by_contra hno
    exact not_isMadeUp_of_not_isDecl hno hup
  have hdeclared (s : WalkState) :
      (exec (arriveDecl a.node.id a.node.content) ctx s).2 = asked s := by
    rw [exec_arriveDecl hctx, if_pos hup]
  have hstmt (s : WalkState) :
      (exec (arriveStmt a.node.id a.node.content a.node.inner) ctx s).2 = asked (asked s) := by
    rw [exec_arriveStmt hctx, if_pos hdecl, hdeclared]
  -- it is a declaration, and in every role it is turned away before anything is reported
  have hfacts : (a.arrived ctx).2.facts = a.state.facts := by
    have hsuits := h.suits
    rw [Stop.arrived]
    cases hrole : a.role with
    | decl => rw [arrive, hdeclared, asked]
    | stmt => rw [arrive, hstmt, asked, asked]
    | callee name depth =>
        rw [arrive]
        split
        · rfl
        split
        · rfl
        · rw [hstmt, asked, asked]
    | initializer ctor =>
        rw [hrole] at hsuits
        obtain ⟨init, hinit⟩ := hsuits
        exact absurd hdecl (by rw [hinit]; exact Bool.false_ne_true)
  rw [Stop.delivered, hfacts, ← Array.length_toList, List.drop_length]

/-- A walk comes to nodes that it meets, or that were made up, except for a root that is no
declaration. -/
lemma cases_of_mem_stops (hids : unit.root.ids.Nodup) (ha : a ∈ stops unit options watched) :
    a = Stop.root unit watched ∧ ¬unit.root.content.isDecl ∨
      a.Placed ∧ (¬isMadeUp a.node.content → Met unit.root a.node) := by
  rcases Stop.mem_log_iff.mp ha with rfl | ⟨b, hb, ha⟩
  · by_cases h : unit.root.content.isDecl
    · exact Or.inr ⟨placed_root h hids, fun hup => ⟨hup, Or.inl ⟨h, rfl⟩⟩⟩
    · exact Or.inl ⟨rfl, h⟩
  · have hplaced := (fans_root hids).placed b hb
    refine Or.inr ⟨hplaced.of_mem_log rfl ha, fun hup => ?_⟩
    obtain ⟨huproot, hstarts⟩ := (exists_node_mem_next_root_iff hids).mp ⟨b, hb, rfl⟩
    obtain ⟨hupb, hreached⟩ := (Stop.exists_mem_log_iff rfl hplaced).mp ⟨⟨a, ha, rfl⟩, hup⟩
    exact ⟨huproot, Or.inr ⟨_, hstarts, hupb, hreached⟩⟩

/-- Where a walk comes to a node that it does not meet, it delivers nothing. -/
lemma met_of_mem_stops (hids : unit.root.ids.Nodup) (ha : a ∈ stops unit options watched) :
    Met unit.root a.node ∨ a.delivered ⟨unit, options, .never⟩ = [] := by
  rcases cases_of_mem_stops hids ha with ⟨rfl, h⟩ | ⟨hplaced, hmet⟩
  · right
    rw [Stop.delivered, arrived_root h]
    rfl
  · by_cases hup : isMadeUp a.node.content
    · exact Or.inr (hplaced.delivered_of_isMadeUp rfl hup)
    · exact Or.inl (hmet hup)

/-- At a node that a walk meets there is one stop. -/
lemma Met.placed (hids : unit.root.ids.Nodup) (ha : a ∈ stops unit options watched)
    (h : Met unit.root a.node) : a.Placed := by
  obtain ⟨b, hb, hplaced, hnode⟩ : ∃ b ∈ stops unit options watched, b.Placed ∧ b.node = a.node :=
    h.exists_stop hids
  obtain rfl := List.inj_on_of_nodup_map (nodup_stops hids) ha hb (by rw [hnode])
  exact hplaced

end

end UnitIndex.Walk
