import Mathlib.Tactic
import UnitIndex.Decl.Table
import UnitIndex.Proofs.Walk.Reached

/-!
What the passes over a declaration table keep.

A table is built by few kinds of steps: a declaration of the tree is recorded as it is described,
one that is known is finished, a chain of variables gets its definition, a name gets one more
meaning. `collect_keeps` says that what survives at every node survives collecting a tree; `Kept`
says that a property survives all steps before the last, and `Kept.linked` that it then holds of the
table of the tree before its names are listed. `Consistent` is the property all else rests on:
the ids in tree order are the keys, each once, and a declaration is kept under its own id;
`consistent_build` says that the table of every tree is consistent.
-/

namespace UnitIndex.DeclTable

/-! ### Single steps -/

lemma get?_update (t : DeclTable) (id k : NodeId) (f : DeclInfo → DeclInfo) :
    (t.update id f).get? k = if k = id then (t.get? k).map f else t.get? k := by
  rw [update]
  by_cases hk : k = id
  · subst hk
    cases h : t.get? k with
    | none => simp [h]
    | some d => simp [get?]
  · cases h : t.get? id with
    | none => simp [hk]
    | some d => simp [get?, Std.HashMap.getElem?_insert, hk, Ne.symm hk]

@[simp] lemma order_update (t : DeclTable) (id : NodeId) (f : DeclInfo → DeclInfo) :
    (t.update id f).order = t.order := by
  rw [update]; split <;> rfl

@[simp] lemma typeNames_update (t : DeclTable) (id : NodeId) (f : DeclInfo → DeclInfo) :
    (t.update id f).typeNames = t.typeNames := by
  rw [update]; split <;> rfl

@[simp] lemma varDefinitions_update (t : DeclTable) (id : NodeId) (f : DeclInfo → DeclInfo) :
    (t.update id f).varDefinitions = t.varDefinitions := by
  rw [update]
  split <;> rfl

/-- Recording a declaration says nothing of any other. -/
lemma get?_record (t : DeclTable) (info : DeclInfo) (k : NodeId) :
    (t.record info).get? k = t.get? k ∨ k = info.id ∧ (t.record info).get? k = some info := by
  by_cases hk : k = info.id
  · subst hk
    rw [record]
    split
    · exact Or.inr ⟨rfl, by simp [get?]⟩
    · split
      · exact Or.inl rfl
      · exact Or.inr ⟨rfl, by simp [get?]⟩
  · left
    rw [record]
    split
    · simp [get?, Std.HashMap.getElem?_insert, Ne.symm hk]
    · split
      · rfl
      · simp [get?, Std.HashMap.getElem?_insert, Ne.symm hk]

/-- Recording makes its id known and no other. -/
lemma isSome_get?_record (t : DeclTable) (info : DeclInfo) (k : NodeId) :
    ((t.record info).get? k).isSome ↔ k = info.id ∨ (t.get? k).isSome := by
  by_cases hk : k = info.id
  · subst hk
    rw [record]
    split
    · simp [get?]
    · next known h =>
      split
      · simp [h]
      · simp [get?]
  · rcases get?_record t info k with h | h
    · simp [h, hk]
    · exact absurd h.1 hk

@[simp] lemma typeNames_record (t : DeclTable) (info : DeclInfo) :
    (t.record info).typeNames = t.typeNames := by
  rw [record]
  split
  · rfl
  · split <;> rfl

@[simp] lemma varDefinitions_record (t : DeclTable) (info : DeclInfo) :
    (t.record info).varDefinitions = t.varDefinitions := by
  rw [record]
  split
  · rfl
  · split <;> rfl

@[simp] lemma decls_define (t : DeclTable) (root id : NodeId) :
    (t.define root id).decls = t.decls := by
  rw [define]; split <;> rfl

@[simp] lemma order_define (t : DeclTable) (root id : NodeId) :
    (t.define root id).order = t.order := by
  rw [define]; split <;> rfl

@[simp] lemma typeNames_define (t : DeclTable) (root id : NodeId) :
    (t.define root id).typeNames = t.typeNames := by
  rw [define]; split <;> rfl

@[simp] lemma get?_define (t : DeclTable) (root id k : NodeId) :
    (t.define root id).get? k = t.get? k := by
  simp only [get?, decls_define]

/-! ### Whole passes -/

/-- The table of a tree before its names are listed. -/
def linked (names : FileNames) (root : Node) : DeclTable :=
  (collect names {} {} root).nameAll.linkVariables

/-- The change leaves a declaration as it was described, but for what the later passes put in: its
qualified name, whether it defines what it declares, and the pattern of a template. -/
def Finishes (f : DeclInfo → DeclInfo) : Prop :=
  ∀ d, ∃ name isDefinition pattern,
    f d = { d with qualifiedName := name, isDefinition := isDefinition, pattern := pattern }

/-- The property holds of what is said about any declaration of the tree. -/
def Describes (names : FileNames) (Q : DeclInfo → Prop) (n : Node) : Prop :=
  ∀ m ∈ n.nodes, ∀ kind data, m.content = .decl kind data → ∀ (t : DeclTable) (scope : Scope),
    Q (t.describe names scope m.id kind data m.inner)

/-- A property of tables that survives what is done at the node while a tree is collected. -/
structure KeptAt (names : FileNames) (P : DeclTable → Prop) (n : Node) : Prop where
  record : ∀ {t : DeclTable} (scope : Scope), P t →
    P (t.recordNode names scope n.id n.content n.inner)
  close : ∀ {t : DeclTable} (pattern : Node), n.content.isTemplate → P t →
    P (t.closeNode n.id (some pattern))

section

variable {names : FileNames} {P : DeclTable → Prop}

mutual

/-- What survives at every node of a tree survives collecting it. -/
lemma collect_keeps (scope : Scope) {t : DeclTable} (ht : P t) :
    ∀ n : Node, (∀ m ∈ n.nodes, KeptAt names P m) → P (collect names scope t n)
  | ⟨id, content, inner⟩, hkept => by
      have hself := hkept _ (Node.self_mem_nodes _)
      rw [collect]
      generalize hpattern : (if content.isTemplate then Node.patternIndex? ⟨id, content, inner⟩
        else none) = index?
      have hinner := collectAll_keeps (childScope scope id content) index? 0 (hself.record scope ht)
        inner fun c hc m hm => hkept m (Node.mem_nodes_of_mem_inner hc hm)
      cases hnode : index?.bind (inner[·]?) with
      | none => exact hinner
      | some pattern =>
          have htemplate : content.isTemplate := by
            by_contra hno
            rw [if_neg hno] at hpattern
            rw [← hpattern] at hnode
            exact absurd hnode (by simp)
          exact hself.close pattern htemplate hinner

/-- The same for the children of a node: what survives at each of them survives them all. -/
lemma collectAll_keeps (scope : Scope) (pattern? : Option Nat) (index : Nat) {t : DeclTable}
    (ht : P t) :
    ∀ ns : List Node, (∀ c ∈ ns, ∀ m ∈ c.nodes, KeptAt names P m) →
      P (collectAll names scope pattern? index t ns)
  | [], _ => by
      rw [collectAll]
      exact ht
  | child :: rest, hkept => by
      rw [collectAll]
      obtain ⟨hchild, hrest⟩ := List.forall_mem_cons.mp hkept
      exact collectAll_keeps scope pattern? (index + 1) (collect_keeps _ ht child hchild) rest hrest

end

end

/-- A property of tables that survives the steps of the first three passes, as long as the
declarations that are recorded are described within `Q`. -/
structure Kept (Q : DeclInfo → Prop) (P : DeclTable → Prop) : Prop where
  record : ∀ {t : DeclTable} {info : DeclInfo}, Q info → P t → P (t.record info)
  update : ∀ {t : DeclTable} (id : NodeId) {f : DeclInfo → DeclInfo}, Finishes f → P t →
    P (t.update id f)
  define : ∀ {t : DeclTable} (root id : NodeId), P t → P (t.define root id)

namespace Kept

variable {Q : DeclInfo → Prop} {P : DeclTable → Prop} {names : FileNames}

/-- A node is recorded as it is described, if at all. -/
lemma recordNode (h : Kept Q P) {n : Node} (hdescribes : Describes names Q n) {t : DeclTable}
    (scope : Scope) (ht : P t) : P (t.recordNode names scope n.id n.content n.inner) := by
  cases hcontent : n.content with
  | decl kind data => exact h.record (hdescribes n n.self_mem_nodes kind data hcontent t scope) ht
  | _ => exact ht

/-- What is known of a node when its children have been collected. -/
lemma closeNode (h : Kept Q P) {t : DeclTable} (id : NodeId) (pattern? : Option Node) (ht : P t) :
    P (t.closeNode id pattern?) := by
  cases pattern? with
  | none => exact ht
  | some pattern => exact h.update id (fun d => ⟨d.qualifiedName, _, _, rfl⟩) ht

/-- So what is kept survives at every node. -/
lemma at_node (h : Kept Q P) {n : Node} (hdescribes : Describes names Q n) :
    KeptAt names P n where
  record scope ht := h.recordNode hdescribes scope ht
  close pattern _ ht := h.closeNode _ (some pattern) ht

/-- And it survives collecting a tree. -/
lemma collect (h : Kept Q P) (scope : Scope) {t : DeclTable} (ht : P t) (n : Node)
    (hdescribes : Describes names Q n) : P (DeclTable.collect names scope t n) :=
  collect_keeps scope ht n fun _ hm =>
    h.at_node fun p hp => hdescribes p (Node.mem_nodes_trans hm hp)

/-- And naming all declarations. -/
lemma nameAll (h : Kept Q P) {t : DeclTable} (ht : P t) : P t.nameAll := by
  rw [DeclTable.nameAll]
  exact Array.foldl_induction (motive := fun _ s => P s) ht
    fun _ _ hs => h.update _ (fun d => ⟨_, d.isDefinition, d.pattern, rfl⟩) hs

/-- And giving the chains of variables their definitions. -/
lemma linkVariables (h : Kept Q P) {t : DeclTable} (ht : P t) : P t.linkVariables := by
  -- two passes: the first looks for initialized declarations, the second for tentative ones
  have hfirst : P t.defineInitialized.1 := by
    rw [defineInitialized]
    refine Array.foldl_induction (motive := fun _ (s : DeclTable × Std.HashSet NodeId) => P s.1) ht
      fun i s hs => ?_
    dsimp only
    split
    · split
      · exact h.define _ _ hs
      · exact hs
    · exact hs
  rw [DeclTable.linkVariables]
  dsimp only
  rw [defineTentative]
  refine Array.foldl_induction (motive := fun _ s => P s) hfirst fun i s hs => ?_
  dsimp only
  split
  · split
    · split
      · exact h.update _ (fun d => ⟨d.qualifiedName, false, d.pattern, rfl⟩) hs
      · exact h.define _ _ hs
    · exact hs
  · exact hs

/-- A property that the steps keep and that the empty table has holds of the table of the tree,
until its names are listed. -/
theorem linked (h : Kept Q P) (h0 : P {}) {root : Node} (hdescribes : Describes names Q root) :
    P (DeclTable.linked names root) :=
  h.linkVariables (h.nameAll (h.collect {} h0 root hdescribes))

end Kept

/-! ### Consistency -/

/-- The ids in tree order are the keys of the table, each once, and each declaration is kept under
its own id. -/
structure Consistent (t : DeclTable) : Prop where
  id_eq : ∀ {id : NodeId} {d : DeclInfo}, t.get? id = some d → d.id = id
  nodup : t.order.toList.Nodup
  mem_order : ∀ {id : NodeId}, id ∈ t.order.toList ↔ (t.get? id).isSome

lemma consistent_empty : Consistent {} where
  id_eq := by simp [get?]
  nodup := List.nodup_nil
  mem_order := by simp [get?]

/-- A table stays consistent when a declaration is recorded. -/
lemma Consistent.record {t : DeclTable} (ht : Consistent t) (info : DeclInfo) :
    Consistent (t.record info) where
  id_eq := by
    intro id d hd
    rcases get?_record t info id with h | ⟨rfl, h⟩
    · exact ht.id_eq (h ▸ hd)
    · rw [h] at hd
      cases hd
      rfl
  nodup := by
    rw [DeclTable.record]
    split
    · next h =>
      -- a new id goes to the end
      have hnew : info.id ∉ t.order.toList := by simp [ht.mem_order, h]
      have hne (a : NodeId) (ha : a ∈ t.order) : a ≠ info.id := by
        rintro rfl
        exact hnew (by simpa using ha)
      simpa [List.nodup_append] using ⟨ht.nodup, hne⟩
    · split
      · exact ht.nodup
      · exact ht.nodup
  mem_order := by
    intro id
    -- one that is known already stays where it is
    have hmem : id ∈ (t.record info).order.toList ↔ id = info.id ∨ id ∈ t.order.toList := by
      rw [DeclTable.record]
      split
      · simp [or_comm]
      · next known h =>
        have hin : info.id ∈ t.order.toList := by simp [ht.mem_order, h]
        split <;> exact ⟨Or.inr, fun hid => hid.elim (fun he => he ▸ hin) fun hid => hid⟩
    rw [hmem, isSome_get?_record, ht.mem_order]

/-- Every step of the passes keeps a table consistent. -/
lemma kept_consistent : Kept (fun _ => True) Consistent where
  record _ ht := ht.record _
  update id f hf ht :=
    { id_eq := by
        intro k d hd
        rw [get?_update] at hd
        split at hd
        · obtain ⟨d', hd', rfl⟩ := Option.map_eq_some_iff.mp hd
          -- the id is not among what an update may change
          obtain ⟨name, isDefinition, pattern, heq⟩ := hf d'
          have hid : d'.id = k := ht.id_eq hd'
          rw [heq]
          exact hid
        · exact ht.id_eq hd
      nodup := by rw [order_update]; exact ht.nodup
      mem_order := by
        intro k
        rw [order_update, ht.mem_order, get?_update]
        split <;> simp }
  define root id ht :=
    { id_eq := by
        intro k d hd
        rw [get?_define] at hd
        exact ht.id_eq hd
      nodup := by rw [order_define]; exact ht.nodup
      mem_order := by
        intro k
        rw [order_define, get?_define]
        exact ht.mem_order }

/-- A table whose names have not been listed yet is consistent. -/
theorem consistent_linked (names : FileNames) (root : Node) : Consistent (linked names root) :=
  kept_consistent.linked consistent_empty fun _ _ _ _ _ _ _ => trivial

end UnitIndex.DeclTable
