import Mathlib.Tactic
import UnitIndex.Proofs.Decl.Definitions

/-!
The names that a table gives its declarations.

Naming gives each declaration the components of its scopes and its own, and leaves all else alone
(`get?_nameAll`). The components do not depend on the names given so far nor on what counts as a
definition, so that in a finished table every declaration has the name that the finished table gives
it (`qualifiedName_build`).
-/

namespace UnitIndex.DeclTable

variable {t s : DeclTable}

/-- The components of the name of a declaration, outermost first. -/
def components (t : DeclTable) (d : DeclInfo) : List String :=
  (d.name.getD "(anonymous)" :: t.scopeNames maxChain d.parent).reverse

/-- What a declaration says as a scope of others: the component that it adds, and its own scope. -/
def asScope (d : DeclInfo) : Option String × Option NodeId := (scopeName? d, d.parent)

/-- Names of scopes depend on nothing else. -/
lemma scopeNames_congr (h : ∀ id, (s.get? id).map asScope = (t.get? id).map asScope) (steps : Nat)
    (parent : Option NodeId) : s.scopeNames steps parent = t.scopeNames steps parent := by
  induction steps generalizing parent with
  | zero => rfl
  | succ steps ih =>
      -- the next scope is the same in both tables, or there is none in either
      have hparent : (parent.bind s.get?).map asScope = (parent.bind t.get?).map asScope := by
        cases parent with
        | none => rfl
        | some id => exact h id
      rw [scopeNames, scopeNames]
      cases hs : parent.bind s.get? with
      | none =>
          rw [hs, Option.map_none, eq_comm, Option.map_eq_none_iff] at hparent
          rw [hparent]
      | some p =>
          rw [hs, Option.map_some, eq_comm, Option.map_eq_some_iff] at hparent
          obtain ⟨q, hq, hscope⟩ := hparent
          obtain ⟨hname, hup⟩ := Prod.mk.inj hscope
          rw [hq]
          dsimp only
          rw [ih, hname, hup]

lemma qualifiedName_congr (h : ∀ id, (s.get? id).map asScope = (t.get? id).map asScope)
    (d : DeclInfo) : s.qualifiedName d = t.qualifiedName d := by
  rw [qualifiedName, qualifiedName, scopeNames_congr h]

/-- The declaration with the name that the table gives it. -/
def named (t : DeclTable) (d : DeclInfo) : DeclInfo := { d with qualifiedName := t.qualifiedName d }

/-- The table when the declarations in `done` have been named. -/
def NamesDone (t : DeclTable) (done : List NodeId) (s : DeclTable) : Prop :=
  ∀ id, s.get? id = if id ∈ done then (t.get? id).map t.named else t.get? id

/-- Naming does not change what a declaration is as a scope. -/
lemma NamesDone.asScope {done : List NodeId} (h : NamesDone t done s) (id : NodeId) :
    (s.get? id).map asScope = (t.get? id).map asScope := by
  rw [h id]
  split
  · rw [Option.map_map]
    rfl
  · rfl

/-- One more declaration is named. -/
lemma NamesDone.step {done : List NodeId} (h : NamesDone t done s) (id : NodeId) :
    NamesDone t (done ++ [id])
      (s.update id fun d => { d with qualifiedName := s.qualifiedName d }) := by
  intro k
  have hname (d : DeclInfo) : s.qualifiedName d = t.qualifiedName d :=
    qualifiedName_congr h.asScope d
  simp only [hname]
  rw [get?_update, h k]
  by_cases hk : k = id
  · -- naming a second time gives the same name
    rw [if_pos hk, if_pos (List.mem_append_right _ (List.mem_singleton.mpr hk))]
    split
    · rw [Option.map_map]
      rfl
    · rfl
  · rw [if_neg hk]
    exact if_congr (by simp [hk]) rfl rfl

/-- Naming gives each declaration its name and leaves all else alone. -/
lemma get?_nameAll (ht : Consistent t) (id : NodeId) :
    t.nameAll.get? id = (t.get? id).map t.named := by
  have hall : NamesDone t t.order.toList t.nameAll := by
    rw [nameAll, ← Array.foldl_toList]
    exact foldl_done (NamesDone t) _ (fun id => by rw [if_neg List.not_mem_nil])
      fun done s id hs => hs.step id
  rw [hall id]
  split
  · rfl
  · next hid =>
    rw [ht.mem_order, Option.not_isSome_iff_eq_none] at hid
    rw [hid, Option.map_none]

variable {names : FileNames} {root : Node}

/-- What has been collected is a consistent table. -/
lemma consistent_collect (names : FileNames) (root : Node) :
    Consistent (collect names {} {} root) :=
  consistent_empty.collect names {} root

lemma Relinked.asScope (h : Relinked t s) (id : NodeId) :
    (s.get? id).map asScope = (t.get? id).map asScope := by
  rcases h id with heq | ⟨d, hd, heq⟩
  · rw [heq]
  · rw [hd, heq]
    rfl

/-- Every declaration of a finished table has the name that this table gives it. -/
theorem qualifiedName_build {id : NodeId} {d : DeclInfo}
    (hd : (build names root).get? id = some d) :
    d.qualifiedName = "::".intercalate ((build names root).components d) := by
  have hnamed := get?_nameAll (consistent_collect names root)
  have hscopes (k : NodeId) : ((build names root).get? k).map DeclTable.asScope =
      ((collect names {} {} root).get? k).map DeclTable.asScope := by
    rw [(relinked_build names root).asScope, unlinked, hnamed, Option.map_map]
    rfl
  -- linking keeps the name, the parent and the qualified name
  have hbefore : ∃ e, (unlinked names root).get? id = some e ∧
      d.qualifiedName = e.qualifiedName ∧ d.name = e.name ∧ d.parent = e.parent := by
    rcases relinked_build names root id with heq | ⟨e, he, heq⟩
    · exact ⟨d, heq.symm.trans hd, rfl, rfl, rfl⟩
    · obtain rfl := Option.some.inj (heq.symm.trans hd)
      exact ⟨e, he, rfl, rfl, rfl⟩
  obtain ⟨e, he, hqualified, hname, hparent⟩ := hbefore
  rw [unlinked, hnamed] at he
  obtain ⟨first, -, rfl⟩ := Option.map_eq_some_iff.mp he
  have hcomponents : (build names root).components d = (build names root).components first := by
    rw [components, components, hname, hparent]
    rfl
  rw [hqualified, hcomponents]
  -- named while the table was collected, and the scopes have not changed since
  show (collect names {} {} root).qualifiedName first = (build names root).qualifiedName first
  exact (qualifiedName_congr hscopes first).symm

end UnitIndex.DeclTable
