import Mathlib.Tactic
import UnitIndex.Proofs.Decl.Lookup

/-!
The order of a table.

A table lists the ids of the declarations of its tree in the order in which the tree first names
them (`order_collect_build`), and so without repetition (`noted_nil`); where no two nodes have the
same id, that is the order of the tree (`noted_eq_append`).
-/

namespace UnitIndex

/-- The ids of the declarations of a tree that are told apart, in tree order. -/
def Node.declIds (n : Node) : List NodeId :=
  n.nodes.filterMap fun m => m.content.decl?.map fun _ => m.id

namespace Node

lemma declIds_mk (id : NodeId) (content : Content) (inner : List Node) :
    declIds ⟨id, content, inner⟩ =
      (content.decl?.map fun _ => id).toList ++ inner.flatMap declIds := by
  rw [declIds, nodes_mk, List.filterMap_cons, List.filterMap_flatMap]
  cases content.decl? <;> rfl

/-- The ids of the declarations are among those of the nodes, in the same order. -/
lemma declIds_sublist_ids (n : Node) : n.declIds.Sublist n.ids := by
  have hid (m : Node) : ∀ id ∈ m.content.decl?.map fun _ => m.id, id = m.id := by
    intro id hid
    obtain ⟨_, -, rfl⟩ := Option.map_eq_some_iff.mp hid
    rfl
  rw [declIds, ids]
  induction n.nodes with
  | nil => exact .slnil
  | cons m ms ih =>
      rw [List.filterMap_cons, List.map_cons]
      split
      · exact ih.cons _
      · next id h =>
        rw [hid m id h]
        exact ih.cons_cons _

end Node

namespace DeclTable

/-- A list of ids with those of another one noted behind it, each only once. -/
def noted (known ids : List NodeId) : List NodeId :=
  ids.foldl (fun known id => if id ∈ known then known else known ++ [id]) known

/-- Ids are noted one after the other. -/
lemma noted_append (known ids ids' : List NodeId) :
    noted known (ids ++ ids') = noted (noted known ids) ids' := List.foldl_append

/-- Where none is repeated, all ids are noted. -/
lemma noted_eq_append {known ids : List NodeId} (h : (known ++ ids).Nodup) :
    noted known ids = known ++ ids := by
  induction ids generalizing known with
  | nil => rw [List.append_nil, noted, List.foldl_nil]
  | cons id ids ih =>
      have hnew : id ∉ known := fun hid =>
        (List.nodup_append.mp h).2.2 id hid id List.mem_cons_self rfl
      rw [List.append_cons] at h ⊢
      rw [← ih h, noted, List.foldl_cons, if_neg hnew]
      rfl

/-- Noting ids behind others appends the new ones, each where it first stands. -/
lemma noted_eq (known ids : List NodeId) :
    noted known ids = known ++ (ids.filter (· ∉ known)).eraseDups := by
  induction ids generalizing known with
  | nil => simp [noted]
  | cons id ids ih =>
      rw [noted, List.foldl_cons, ← noted]
      by_cases hid : id ∈ known
      · rw [if_pos hid, ih, List.filter_cons_of_neg (by simpa using hid)]
      · have hnew : (ids.filter (· ∉ known ++ [id])) =
            (ids.filter (· ∉ known)).filter fun k => !k == id := by
          rw [List.filter_filter]
          refine List.filter_congr fun k _ => ?_
          rw [Bool.eq_iff_iff]
          simp [and_comm]
        rw [if_neg hid, ih, List.filter_cons_of_pos (by simpa using hid), List.eraseDups_cons,
          hnew, List.append_assoc, List.singleton_append]

/-- What is noted from the start is the ids without their repetitions. -/
lemma noted_nil (ids : List NodeId) : noted [] ids = ids.eraseDups := by
  simp [noted_eq]

/-- A declaration that is recorded is noted. -/
lemma order_record {t : DeclTable} (ht : Consistent t) (info : DeclInfo) :
    (t.record info).order.toList = noted t.order.toList [info.id] := by
  have hknown : info.id ∈ t.order.toList ↔ (t.get? info.id).isSome := ht.mem_order
  rw [noted, List.foldl_cons, List.foldl_nil, record]
  cases h : t.get? info.id with
  | none =>
      rw [if_neg (by simp [hknown, h])]
      simp
  | some known =>
      rw [if_pos (by simp [hknown, h])]
      dsimp only
      split <;> rfl

/-- A node that is no declaration is not noted. -/
lemma order_recordNode {t : DeclTable} (ht : Consistent t) (names : FileNames) (scope : Scope)
    (id : NodeId) (content : Content) (inner : List Node) :
    (t.recordNode names scope id content inner).order.toList =
      noted t.order.toList (content.decl?.map fun _ => id).toList := by
  cases content with
  | decl kind data => exact order_record ht _
  | _ => rfl

lemma order_closeNode (t : DeclTable) (id : NodeId) (pattern? : Option Node) :
    (t.closeNode id pattern?).order = t.order := by
  cases pattern? with
  | none => rfl
  | some pattern => exact order_update t id _

lemma Consistent.collect {t : DeclTable} (ht : Consistent t) (names : FileNames) (scope : Scope)
    (n : Node) : Consistent (DeclTable.collect names scope t n) :=
  kept_consistent.collect scope ht n fun _ _ _ _ _ _ _ => trivial

lemma Consistent.recordNode {t : DeclTable} (ht : Consistent t) (names : FileNames)
    (scope : Scope) (n : Node) : Consistent (t.recordNode names scope n.id n.content n.inner) :=
  kept_consistent.recordNode (fun _ _ _ _ _ _ _ => trivial) scope ht

mutual

/-- Collecting a tree notes its declarations in pre-order. -/
lemma order_collect (names : FileNames) (scope : Scope) {t : DeclTable} (ht : Consistent t) :
    ∀ n : Node, (collect names scope t n).order.toList = noted t.order.toList n.declIds
  | ⟨id, content, inner⟩ => by
      have hrecord := ht.recordNode names scope ⟨id, content, inner⟩
      rw [collect, order_closeNode, order_collectAll names _ _ 0 hrecord inner,
        order_recordNode ht, ← noted_append, Node.declIds_mk]

/-- Collecting some trees notes the declarations of all of them. -/
lemma order_collectAll (names : FileNames) (scope : Scope) (pattern? : Option Nat) (index : Nat)
    {t : DeclTable} (ht : Consistent t) :
    ∀ ns : List Node, (collectAll names scope pattern? index t ns).order.toList =
      noted t.order.toList (ns.flatMap Node.declIds)
  | [] => by
      rw [collectAll]
      rfl
  | child :: rest => by
      rw [collectAll, order_collectAll names scope pattern? (index + 1) (ht.collect names _ child)
        rest, order_collect names _ ht child, ← noted_append, List.flatMap_cons]

end

/-- Naming leaves the order as it is. -/
lemma order_nameAll (t : DeclTable) : t.nameAll.order = t.order := by
  rw [nameAll]
  exact Array.foldl_induction (motive := fun _ (s : DeclTable) => s.order = t.order) rfl
    fun i s hs => (order_update s _ _).trans hs

/-- A table lists the declarations of its tree in the order in which the tree first names them. -/
lemma order_collect_build (names : FileNames) (root : Node) :
    (collect names {} {} root).nameAll.order.toList = noted [] root.declIds := by
  rw [order_nameAll, order_collect names {} consistent_empty]

end DeclTable

end UnitIndex
