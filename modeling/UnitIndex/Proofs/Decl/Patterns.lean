import Mathlib.Tactic
import UnitIndex.Proofs.Decl.Naming

/-!
Templates and their patterns.

While a tree is collected, a template becomes a definition when its pattern is one. Where no two
nodes have the same id, what stands behind a template no longer changes the two entries
(`get?_collect`), so that they still agree when the tree has been collected (`patterned_collect`).
Names do not disturb that. Linking does: it takes the rank of a definition from a tentative variable
whose chain has an initialized one, and passes over the template that has this variable as its
pattern. `isDefinition_template_iff` says that this is the only difference, and
`isDefinition_memberTemplate` that it arises.
-/

namespace UnitIndex.DeclTable

variable {names : FileNames} {root : Node} {t : DeclTable}

/-- Whether the declaration counts as a definition, as far as it is known. -/
def defines? (t : DeclTable) (id : NodeId) : Bool := (t.get? id).any (·.isDefinition)

/-! ### Collecting -/

/-- Collecting a tree leaves the declarations alone that are no nodes of it. -/
lemma get?_collect (names : FileNames) (scope : Scope) (t : DeclTable) {n : Node} {id : NodeId}
    (hid : id ∉ n.ids) : (collect names scope t n).get? id = t.get? id := by
  refine collect_keeps (P := fun s => s.get? id = t.get? id) scope rfl n fun m hm => ?_
  have hne : id ≠ m.id := by
    rintro rfl
    exact hid (List.mem_map_of_mem hm)
  refine ⟨fun {s} scope hs => ?_, fun {s} pattern _ hs => ?_⟩
  · cases hcontent : m.content with
    | decl kind data =>
        rcases get?_record s (s.describe names scope m.id kind data m.inner) id with hold | ⟨heq, -⟩
        · exact hold.trans hs
        · exact absurd heq hne
    | _ => exact hs
  · rw [closeNode, notePattern, get?_update, if_neg hne, hs]

lemma get?_collectAll (names : FileNames) (scope : Scope) (pattern? : Option Nat) (index : Nat)
    (t : DeclTable) {ns : List Node} {id : NodeId} (hid : id ∉ ns.flatMap Node.ids) :
    (collectAll names scope pattern? index t ns).get? id = t.get? id := by
  induction ns generalizing index t with
  | nil => rw [collectAll]
  | cons n ns ih =>
      rw [List.flatMap_cons, List.mem_append, not_or] at hid
      rw [collectAll, ih _ _ hid.2, get?_collect names _ t hid.1]

/-- The entry of a template with a pattern among the ids: it counts as a definition just if the
pattern does, and it is no tentative variable. -/
def PatternedAt (t : DeclTable) (ids : List NodeId) (id : NodeId) : Prop :=
  ∀ d pattern, t.get? id = some d → d.pattern = some pattern →
    pattern ∈ ids ∧ d.isDefinition = t.defines? pattern ∧ ¬d.isTentative

/-- Whether a template agrees with its pattern depends on the entries of the two alone. -/
lemma PatternedAt.congr {s : DeclTable} {ids ids' : List NodeId} {id : NodeId}
    (h : PatternedAt t ids id) (hids : ids ⊆ ids') (hid : s.get? id = t.get? id)
    (hsame : ∀ k ∈ ids, s.get? k = t.get? k) : PatternedAt s ids' id := by
  intro d pattern hd hpattern
  obtain ⟨hmem, hdefines, htentative⟩ := h d pattern (hid ▸ hd) hpattern
  refine ⟨hids hmem, ?_, htentative⟩
  rw [hdefines, defines?, defines?, hsame pattern hmem]

/-- Recording a node touches the entry of that node alone. -/
lemma get?_recordNode_of_ne (names : FileNames) (scope : Scope) {id k : NodeId} (hk : k ≠ id)
    (content : Content) (inner : List Node) :
    (t.recordNode names scope id content inner).get? k = t.get? k := by
  cases content with
  | decl kind data =>
      rcases get?_record t (t.describe names scope id kind data inner) k with hold | ⟨heq, -⟩
      · exact hold
      · exact absurd heq hk
  | _ => rfl

/-- A declaration that is met for the first time is recorded as it is described. -/
lemma get?_recordNode_self (names : FileNames) (scope : Scope) {id : NodeId}
    (hid : t.get? id = none) (content : Content) (inner : List Node) :
    (t.recordNode names scope id content inner).get? id =
      content.decl?.map fun (kind, data) => t.describe names scope id kind data inner := by
  cases content with
  | decl kind data =>
      have hdescribed : (t.describe names scope id kind data inner).id = id := rfl
      show (t.record _).get? id = some _
      rw [record, hdescribed, hid]
      simp [get?]
  | _ => exact hid

lemma get?_closeNode_of_ne (t : DeclTable) {id k : NodeId} (hk : k ≠ id) (pattern? : Option Node) :
    (t.closeNode id pattern?).get? k = t.get? k := by
  cases pattern? with
  | none => rfl
  | some pattern => rw [closeNode, notePattern, get?_update, if_neg hk]

/-- A template is described as no variable, and without a pattern. -/
lemma isTentative_describe_of_isTemplate (names : FileNames) (scope : Scope) (id : NodeId)
    {kind : DeclKind} (hkind : kind.isTemplate = true) (data : DeclData) (inner : List Node) :
    (t.describe names scope id kind data inner).isTentative = false := by
  rw [describe]
  cases kind <;> simp_all [DeclKind.isTemplate, DeclClass.ofKind]

/-- What closing a node says about the node itself, if no other node of its tree has its id. -/
lemma patternedAt_closeNode {names : FileNames} {scope : Scope} {id : NodeId} {content : Content}
    {inner : List Node} {s : DeclTable} (hunknown : t.get? id = none)
    (hs : s.get? id = (t.recordNode names scope id content inner).get? id)
    (hid : id ∉ inner.flatMap Node.ids) {pattern? : Option Node}
    (hpattern : ∀ c ∈ pattern?, c ∈ inner ∧ content.isTemplate) :
    PatternedAt (s.closeNode id pattern?) (inner.flatMap Node.ids) id := by
  rw [get?_recordNode_self names scope hunknown] at hs
  intro d pattern hd hnoted
  cases pattern? with
  | none =>
      obtain ⟨⟨kind, data⟩, -, rfl⟩ := Option.map_eq_some_iff.mp (hs.symm.trans hd)
      exact absurd hnoted (by simp [describe])
  | some c =>
      obtain ⟨hc, htemplate⟩ := hpattern c rfl
      have hmem : c.id ∈ inner.flatMap Node.ids :=
        List.mem_flatMap.mpr ⟨c, hc, List.mem_map_of_mem c.self_mem_nodes⟩
      -- the pattern is another node, so that closing the template leaves it alone
      have hne : c.id ≠ id := by
        rintro heq
        exact hid (heq ▸ hmem)
      have hother := get?_closeNode_of_ne s hne (some c)
      rw [closeNode, notePattern, get?_update, if_pos rfl, hs, Option.map_map] at hd
      obtain ⟨⟨kind, data⟩, hdecl, rfl⟩ := Option.map_eq_some_iff.mp hd
      obtain rfl : c.id = pattern := Option.some.inj hnoted
      refine ⟨hmem, ?_, ?_⟩
      · rw [defines?, hother]
        rfl
      · -- a template itself is never tentative
        have hkind : kind.isTemplate = true := by
          cases content with
          | decl kind' data' =>
              obtain ⟨rfl, -⟩ := Prod.mk.inj (Option.some.inj hdecl)
              exact htemplate
          | _ => cases hdecl
        exact Bool.eq_false_iff.mp
          (isTentative_describe_of_isTemplate names scope id hkind data inner)

mutual

/-- Where all ids are new and no two nodes have the same one, each template of the tree agrees with
its pattern when the tree has been collected. -/
lemma patterned_collect (names : FileNames) (scope : Scope) {t : DeclTable} :
    ∀ n : Node, n.ids.Nodup → (∀ id ∈ n.ids, t.get? id = none) →
      ∀ id ∈ n.ids, PatternedAt (collect names scope t n) n.ids id
  | ⟨id, content, inner⟩, hids, hnew, k, hk => by
      rw [Node.ids_mk] at hids hnew hk ⊢
      obtain ⟨hid, hinner⟩ := List.nodup_cons.mp hids
      obtain ⟨hunknown, hnew⟩ := List.forall_mem_cons.mp hnew
      have hne {j : NodeId} (hj : j ∈ inner.flatMap Node.ids) : j ≠ id := by
        rintro rfl
        exact hid hj
      rw [collect]
      generalize hindex : (if content.isTemplate then Node.patternIndex? ⟨id, content, inner⟩
        else none) = index?
      -- first the children, to which recording the node is of no concern
      have hchildren := patterned_collectAll names (childScope scope id content) index? 0
        (t := t.recordNode names scope id content inner) inner hinner fun j hj => by
          rw [get?_recordNode_of_ne names scope (hne hj), hnew j hj]
      have hself := get?_collectAll names (childScope scope id content) index? 0
        (t.recordNode names scope id content inner) hid
      generalize collectAll names (childScope scope id content) index? 0
        (t.recordNode names scope id content inner) inner = s at hchildren hself
      rcases List.mem_cons.mp hk with rfl | hk
      · -- the node itself: its pattern is one of the children
        refine (patternedAt_closeNode hunknown hself hid fun c hc => ?_).congr
          (List.subset_cons_self _ _) rfl fun _ _ => rfl
        obtain ⟨i, rfl, hi⟩ := Option.bind_eq_some_iff.mp hc
        refine ⟨List.mem_of_getElem? hi, ?_⟩
        by_contra hno
        rw [if_neg hno] at hindex
        exact absurd hindex (by simp)
      · -- a node below it: closing the node does not come near it
        exact (hchildren k hk).congr (List.subset_cons_self _ _)
          (get?_closeNode_of_ne s (hne hk) _) fun j hj => get?_closeNode_of_ne s (hne hj) _

/-- The same for the children of a node: what stands behind a child no longer changes it. -/
lemma patterned_collectAll (names : FileNames) (scope : Scope) (pattern? : Option Nat)
    (index : Nat) {t : DeclTable} :
    ∀ ns : List Node, (ns.flatMap Node.ids).Nodup →
      (∀ id ∈ ns.flatMap Node.ids, t.get? id = none) →
      ∀ id ∈ ns.flatMap Node.ids,
        PatternedAt (collectAll names scope pattern? index t ns) (ns.flatMap Node.ids) id
  | [], _, _, k, hk => absurd hk List.not_mem_nil
  | child :: rest, hids, hnew, k, hk => by
      rw [List.flatMap_cons] at hids hnew hk ⊢
      obtain ⟨hchild, hrest, hapart⟩ := List.nodup_append.mp hids
      obtain ⟨hnewChild, hnewRest⟩ := List.forall_mem_append.mp hnew
      rw [collectAll]
      generalize Scope.mk _ _ _ = inner
      rcases List.mem_append.mp hk with hk | hk
      · have hbehind {j : NodeId} (hj : j ∈ child.ids) : j ∉ rest.flatMap Node.ids :=
          fun hj' => hapart j hj j hj' rfl
        exact (patterned_collect names inner child hchild hnewChild k hk).congr
          (List.subset_append_left _ _) (get?_collectAll names scope pattern? _ _ (hbehind hk))
          fun j hj => get?_collectAll names scope pattern? _ _ (hbehind hj)
      · refine (patterned_collectAll names scope pattern? (index + 1) rest hrest
          (fun j hj => ?_) k hk).congr (List.subset_append_right _ _) rfl fun _ _ => rfl
        have hfront : j ∉ child.ids := fun hj' => hapart j hj' j hj rfl
        rw [get?_collect names inner t hfront, hnewRest j hj]

end

/-! ### The finished table -/

/-- Names disturb nothing. -/
lemma patterned_unlinked (hids : root.ids.Nodup) {id : NodeId} (hid : id ∈ root.ids) :
    PatternedAt (unlinked names root) root.ids id := by
  have hnamed := get?_nameAll (consistent_collect names root)
  intro d pattern hd hpattern
  rw [unlinked, hnamed] at hd
  obtain ⟨e, he, rfl⟩ := Option.map_eq_some_iff.mp hd
  obtain ⟨hmem, hdefines, htentative⟩ :=
    patterned_collect names {} root hids (fun _ _ => by simp [get?]) id hid e pattern he hpattern
  refine ⟨hmem, ?_, htentative⟩
  rw [defines?, unlinked, hnamed, Option.any_map]
  exact hdefines

/-- What initializes a chain is a variable of the tree. -/
lemma initializes_iff_exists (hids : root.ids.Nodup) (chain : NodeId) :
    (unlinked names root).initializes chain ↔
      ∃ y ∈ root.nodes, y.isInitialized ∧ (build names root).chainRoot y.id = chain := by
  simp only [(relinked_build names root).chainRoot_eq]
  rw [initializes, List.any_eq_true, order_unlinked hids]
  constructor
  · rintro ⟨id, hid, hchain⟩
    rw [Bool.and_eq_true, beq_iff_eq] at hchain
    obtain ⟨y, hy, hdecl⟩ := List.mem_filterMap.mp hid
    obtain ⟨_, -, rfl⟩ := Option.map_eq_some_iff.mp hdecl
    exact ⟨y, hy, isInitialized_unlinked hids hy ▸ hchain.1, hchain.2⟩
  · rintro ⟨y, hy, hinitialized, hchain⟩
    refine ⟨y.id, List.mem_filterMap.mpr ⟨y, hy, ?_⟩, ?_⟩
    · -- an initialized node is a declaration, and so it is in the order
      rw [Node.isInitialized] at hinitialized
      cases hdecl : y.content.decl? with
      | none => rw [hdecl] at hinitialized; exact absurd hinitialized Bool.false_ne_true
      | some decl => rfl
    · rw [Bool.and_eq_true, beq_iff_eq, isInitialized_unlinked hids hy]
      exact ⟨hinitialized, hchain⟩

/-- What linking does to an entry of the table: it takes the rank of a definition from a tentative
variable whose chain is initialized. -/
lemma exists_unlinked {id : NodeId} {d : DeclInfo} (hids : root.ids.Nodup)
    (hd : (build names root).get? id = some d) :
    ∃ e, (unlinked names root).get? id = some e ∧ d.pattern = e.pattern ∧
      d.isTentative = e.isTentative ∧ (d.isTentative → e.isDefinition) ∧
      d.isDefinition = (e.isDefinition && !(e.isTentative &&
        (unlinked names root).initializes ((build names root).chainRoot id))) := by
  have hlinked := hd
  rw [get?_build, get?_linkVariables (consistent_unlinked names root),
    ← (relinked_build names root).chainRoot_eq] at hlinked
  obtain ⟨e, he, -, htentative, -, -⟩ := (relinked_build names root).exists_get? hd
  obtain ⟨n, hn, rfl, data, hcontent⟩ := exists_node_of_get?_build hd
  -- what is tentative is described as a definition
  have hdefines : d.isTentative → e.isDefinition := fun h =>
    ((fits_unlinked hids hn he _ _ hcontent).2 (cls_of_isTentative hd h)).2 (htentative ▸ h)
  refine ⟨e, he, ?_, htentative, hdefines, ?_⟩
  · split at hlinked
    · rw [he, Option.map_some] at hlinked
      obtain rfl := Option.some.inj hlinked
      rw [retracted]
      split <;> rfl
    · obtain rfl := Option.some.inj (he.symm.trans hlinked)
      rfl
  · split at hlinked
    · next hinitializes =>
      rw [he, Option.map_some] at hlinked
      obtain rfl := Option.some.inj hlinked
      rw [hinitializes, retracted]
      cases htentative : e.isTentative <;> simp
    · next hno =>
      obtain rfl := Option.some.inj (he.symm.trans hlinked)
      simp [hno]

/-- **A template is a definition just if its pattern is one, but for what linking takes away.**
Where no two nodes have the same id, a template whose pattern is known counts as a definition if the
pattern does, and the other way round unless the pattern is a tentative variable whose chain has an
initialized one. Only patterns that are variables can be that. -/
theorem isDefinition_template_iff (names : FileNames) (root : Node) (hids : root.ids.Nodup)
    {id pattern : NodeId} {d p : DeclInfo} (hd : (build names root).get? id = some d)
    (hpattern : d.pattern = some pattern) (hp : (build names root).get? pattern = some p) :
    (p.isDefinition → d.isDefinition) ∧
      (d.isDefinition = p.isDefinition ↔
        ¬(p.isTentative ∧ ∃ y ∈ root.nodes, y.isInitialized ∧
          (build names root).chainRoot y.id = (build names root).chainRoot pattern)) ∧
      (p.cls ≠ .var → d.isDefinition = p.isDefinition) := by
  obtain ⟨n, hn, hnid, -⟩ := exists_node_of_get?_build hd
  have hid : id ∈ root.ids := hnid ▸ List.mem_map_of_mem hn
  obtain ⟨e, he, hpatternEq, htentativeEq, -, hdefinition⟩ := exists_unlinked hids hd
  obtain ⟨q, hq, -, hqtentative, hbefore, hqdefinition⟩ := exists_unlinked hids hp
  obtain ⟨-, hagree, htentative⟩ :=
    patterned_unlinked hids hid e pattern he (hpatternEq ▸ hpattern)
  -- before linking the template agrees with its pattern and is not tentative itself
  have hd' : d.isDefinition = q.isDefinition := by
    rw [hdefinition, hagree, defines?, hq, Option.any_some, Bool.eq_false_iff.mpr htentative]
    simp
  have hcls : p.isTentative → p.cls = .var := cls_of_isTentative hp
  rw [← initializes_iff_exists hids, hd', hqdefinition, hqtentative]
  rw [hqtentative] at hbefore hcls
  generalize (unlinked names root).initializes _ = initialized
  -- linking makes a difference to tentative patterns of initialized chains only
  cases htentative : q.isTentative with
  | false => simp
  | true =>
      rw [hbefore htentative, hcls htentative]
      cases initialized <;> simp

/-- A record with a template of a static variable, which stands a second time outside of the record,
with an initializer. -/
def memberTemplate : Node :=
  ⟨⟨1⟩, .decl .translationUnit {}, [
    ⟨⟨2⟩, .decl .cxxRecord
        { name := some "S", tagUsed := some "struct", completeDefinition := some true }, [
      ⟨⟨3⟩, .decl .varTemplate { name := some "v" }, [
        ⟨⟨4⟩, .decl .templateTypeParm { name := some "T" }, []⟩,
        ⟨⟨5⟩, .decl .var { name := some "v", storageClass := some "static" }, []⟩]⟩]⟩,
    ⟨⟨6⟩, .decl .varTemplate
        { name := some "v", previous := some ⟨3⟩, parentContext := some ⟨2⟩ }, [
      ⟨⟨7⟩, .decl .templateTypeParm { name := some "T" }, []⟩,
      ⟨⟨8⟩, .decl .var
        { name := some "v", previous := some ⟨5⟩, parentContext := some ⟨2⟩, init := some "c" },
        []⟩]⟩]⟩

/-- The template that stands outside is a definition, as its pattern is. -/
theorem isDefinition_outerTemplate :
    memberTemplate.ids.Nodup ∧ ∃ d p, (build literalNames memberTemplate).get? ⟨6⟩ = some d ∧
      d.pattern = some ⟨8⟩ ∧ (build literalNames memberTemplate).get? ⟨8⟩ = some p ∧
      p.isDefinition ∧ d.isDefinition = p.isDefinition := by
  have hids : memberTemplate.ids.Nodup := by decide +kernel
  have htemplate : ((build literalNames memberTemplate).get? ⟨6⟩).map (·.pattern) =
      some (some ⟨8⟩) := by cbv
  have hvariable : ((build literalNames memberTemplate).get? ⟨8⟩).map
      (fun p => (p.isDefinition, p.isTentative)) = some (true, false) := by cbv
  obtain ⟨d, hd, hpattern⟩ := Option.map_eq_some_iff.mp htemplate
  obtain ⟨p, hp, hmarks⟩ := Option.map_eq_some_iff.mp hvariable
  obtain ⟨hdefines, htentative⟩ := Prod.mk.inj hmarks
  obtain ⟨-, hagree, -⟩ := isDefinition_template_iff literalNames memberTemplate hids hd hpattern hp
  exact ⟨hids, d, p, hd, hpattern, hp, hdefines,
    hagree.mpr fun h => Bool.noConfusion (h.1.symm.trans htentative)⟩

/-- **Linking sets a template and its pattern apart**: the template inside of the record stays a
definition when its variable is none any more. -/
theorem isDefinition_memberTemplate :
    ¬∀ (names : FileNames) (root : Node), root.ids.Nodup →
      ∀ (id pattern : NodeId) (d p : DeclInfo), (build names root).get? id = some d →
        d.pattern = some pattern → (build names root).get? pattern = some p →
        d.isDefinition = p.isDefinition := by
  intro h
  have hids : memberTemplate.ids.Nodup := by decide +kernel
  have htemplate : ((build literalNames memberTemplate).get? ⟨3⟩).map
      (fun d => (d.pattern, d.isDefinition)) = some (some ⟨5⟩, true) := by cbv
  have hvariable : ((build literalNames memberTemplate).get? ⟨5⟩).map (·.isDefinition) =
      some false := by cbv
  obtain ⟨d, hd, hmarks⟩ := Option.map_eq_some_iff.mp htemplate
  obtain ⟨p, hp, hretracted⟩ := Option.map_eq_some_iff.mp hvariable
  obtain ⟨hpattern, hdefines⟩ := Prod.mk.inj hmarks
  have hagree := h literalNames memberTemplate hids ⟨3⟩ ⟨5⟩ d p hd hpattern hp
  rw [hdefines, hretracted] at hagree
  exact Bool.noConfusion hagree

end UnitIndex.DeclTable
