import Mathlib.Tactic
import UnitIndex.Proofs.Decl.Described
import UnitIndex.Proofs.Decl.Linking
import UnitIndex.Proofs.Decl.TreeOrder

/-!
The declaration that defines a variable.

* `varDefinitions_build_eq`: in the table of a tree, a chain is defined by its first initialized
  variable, and if it has none, by its first tentative one. So a variable is replaced by the same
  definition whichever of its declarations is named (`definitionOf_eq`), and a definition is its own
  definition (`definitionOf_definitionOf`).
* `fits_unlinked`: where no two nodes have the same id, the entries of a table are those of the
  nodes that have their ids.
* `definitionOf_rule` puts the rule of one definition in terms of the tree.
-/

namespace UnitIndex

namespace Node

/-- Whether the node declares a variable. -/
def isVariable (n : Node) : Bool :=
  n.content.decl?.any fun (kind, _) => DeclClass.ofKind kind == .var

/-- Whether the node declares a variable and initializes it. -/
def isInitialized (n : Node) : Bool :=
  n.content.decl?.any fun (kind, data) => DeclClass.ofKind kind == .var && data.hasInit

end Node

namespace DeclTable

/-! ### The table of a tree -/

variable {names : FileNames} {root : Node}

/-- The table of a tree before its variables are linked. -/
def unlinked (names : FileNames) (root : Node) : DeclTable := (collect names {} {} root).nameAll

lemma consistent_unlinked (names : FileNames) (root : Node) : Consistent (unlinked names root) :=
  kept_consistent.nameAll (consistent_empty.collect names {} root)

lemma get?_build (names : FileNames) (root : Node) (id : NodeId) :
    (build names root).get? id = (unlinked names root).linkVariables.get? id :=
  (listsNames_build names root).get? id

/-- After linking the table is the same but for what counts as a definition. -/
lemma relinked_build (names : FileNames) (root : Node) :
    Relinked (unlinked names root) (build names root) := by
  intro id
  rw [get?_build]
  exact relinked_linkVariables _ id

/-- Before linking no variable has a definition. -/
lemma varDefinitions_unlinked (names : FileNames) (root : Node) :
    (unlinked names root).varDefinitions = {} := by
  have hcollect : (collect names {} {} root).varDefinitions = {} := by
    refine collect_keeps (P := fun t => t.varDefinitions = {}) {} rfl root fun n _ => ?_
    refine ⟨fun scope ht => ?_, fun pattern _ ht => ?_⟩
    · cases hcontent : n.content with
      | decl kind data => exact (varDefinitions_record _ _).trans ht
      | _ => exact ht
    · rw [closeNode, notePattern, varDefinitions_update, ht]
  rw [unlinked, nameAll]
  refine Array.foldl_induction (motive := fun _ (s : DeclTable) => s.varDefinitions = {}) hcollect
    fun i s hs => ?_
  rw [varDefinitions_update, hs]

lemma varDefinitions_listNames (t : DeclTable) (id : NodeId) :
    (t.listNames id).varDefinitions = t.varDefinitions := by
  rw [listNames]
  split
  · split
    · split
      · dsimp only
        split
        · rfl
        · rfl
      · rfl
    · rfl
  · rfl

/-- Listing the names does not touch the definitions. -/
lemma varDefinitions_build (names : FileNames) (root : Node) :
    (build names root).varDefinitions = (linked names root).varDefinitions := by
  show (linked names root).listTypeNames.varDefinitions = _
  rw [listTypeNames]
  refine Array.foldl_induction
    (motive := fun _ (s : DeclTable) => s.varDefinitions = (linked names root).varDefinitions) rfl
    fun i s hs => ?_
  rw [varDefinitions_listNames, hs]

/-- A chain of the finished table is defined by its first initialized variable, and if it has none,
by its first tentative one. -/
lemma varDefinitions_build_eq (chain : NodeId) :
    (build names root).varDefinitions[chain]? =
      ((unlinked names root).order.toList.find? fun id =>
        (unlinked names root).isInitialized id && (build names root).chainRoot id == chain).or
      ((unlinked names root).order.toList.find? fun id =>
        (build names root).isTentative id && (build names root).chainRoot id == chain) := by
  have hrelinked := relinked_build names root
  simp only [hrelinked.chainRoot_eq, hrelinked.isTentative_eq]
  rw [varDefinitions_build]
  exact varDefinitions_linkVariables (varDefinitions_unlinked names root) chain

/-- Only variables are tentative. -/
lemma cls_of_isTentative {id : NodeId} {d : DeclInfo} (hd : (build names root).get? id = some d)
    (htentative : d.isTentative) : d.cls = .var := by
  refine holds_build (fun d => d.isTentative → d.cls = .var) (fun {f d} hf hd => ?_)
    (fun m _ kind data _ t scope htentative => ?_) hd htentative
  · obtain ⟨name, isDefinition, pattern, heq⟩ := hf d
    rw [heq]
    exact hd
  · rw [describe, Bool.and_eq_true, Bool.and_eq_true, beq_iff_eq] at htentative
    exact htentative.1.1

/-- What defines a chain is a variable of the chain. -/
lemma variable_of_varDefinitions {chain id : NodeId}
    (h : (build names root).varDefinitions[chain]? = some id) :
    (build names root).chainRoot id = chain ∧
      ∃ d, (build names root).get? id = some d ∧ d.cls = .var := by
  rw [varDefinitions_build_eq] at h
  rcases Option.or_eq_some_iff.mp h with hfind | ⟨-, hfind⟩
  · have hid := List.find?_some hfind
    rw [Bool.and_eq_true, isInitialized_iff, beq_iff_eq] at hid
    obtain ⟨⟨e, he, hcls, -⟩, hchain⟩ := hid
    refine ⟨hchain, ?_⟩
    rcases relinked_build names root id with heq | ⟨d, hd, heq⟩
    · exact ⟨e, heq.trans he, hcls⟩
    · obtain rfl := Option.some.inj (hd.symm.trans he)
      exact ⟨_, heq, hcls⟩
  · have hid := List.find?_some hfind
    rw [Bool.and_eq_true, isTentative_iff, beq_iff_eq] at hid
    obtain ⟨⟨d, hd, htentative⟩, hchain⟩ := hid
    exact ⟨hchain, d, hd, cls_of_isTentative hd htentative⟩

/-- A variable is replaced by the definition of its chain, if that has one. -/
lemma definitionOf_variable {t : DeclTable} {id : NodeId} {d : DeclInfo} (hd : t.get? id = some d)
    (hcls : d.cls = .var) :
    t.definitionOf id = (t.varDefinitions[t.chainRoot id]?).getD id := by
  rw [definitionOf, hd]
  exact if_pos hcls

/-- What is not a variable whose chain has a definition stands for itself. -/
lemma definitionOf_cases (t : DeclTable) (id : NodeId) :
    t.definitionOf id = id ∨ t.varDefinitions[t.chainRoot id]? = some (t.definitionOf id) := by
  rw [definitionOf]
  split
  · split
    · cases t.varDefinitions[t.chainRoot id]? with
      | none => exact Or.inl rfl
      | some definition => exact Or.inr rfl
    · exact Or.inl rfl
  · exact Or.inl rfl

/-- A definition is its own definition. -/
lemma definitionOf_definitionOf (names : FileNames) (root : Node) (id : NodeId) :
    (build names root).definitionOf ((build names root).definitionOf id) =
      (build names root).definitionOf id := by
  rcases definitionOf_cases (build names root) id with hself | hdefinition
  · rw [hself, hself]
  · obtain ⟨hchain, d, hd, hcls⟩ := variable_of_varDefinitions hdefinition
    rw [definitionOf_variable hd hcls, hchain, hdefinition, Option.getD_some]

/-- A chain in which some variable counts as a definition has one. -/
lemma defined_build {id : NodeId} {d : DeclInfo} (hd : (build names root).get? id = some d)
    (hcls : d.cls = .var) (hdefines : d.isDefinition) :
    ((build names root).varDefinitions[(build names root).chainRoot id]?).isSome := by
  obtain ⟨e, he, hcls', htentative, -, hdefines'⟩ := (relinked_build names root).exists_get? hd
  have hmem : id ∈ (unlinked names root).order.toList :=
    (consistent_unlinked names root).mem_order.mpr (by rw [he]; rfl)
  have hfound {p : NodeId → Bool} (hp : p id) : ((unlinked names root).order.toList.find? fun k =>
      p k && (build names root).chainRoot k == (build names root).chainRoot id).isSome := by
    rw [List.find?_isSome]
    exact ⟨id, hmem, by rw [hp, Bool.true_and, beq_self_eq_true]⟩
  rw [varDefinitions_build_eq, Option.isSome_or, Bool.or_eq_true]
  cases hmark : d.isTentative with
  | true => exact Or.inr (hfound (isTentative_iff.mpr ⟨d, hd, hmark⟩))
  | false =>
      refine Or.inl (hfound (isInitialized_iff.mpr ⟨e, he, hcls'.symm.trans hcls, ?_⟩))
      rw [← htentative, hmark, hdefines' hdefines]
      rfl

/-- The variable is known, and in the chain of that first declaration. -/
structure VariableIn (t : DeclTable) (root id : NodeId) (info : DeclInfo) : Prop where
  chain : InChain t root id
  known : t.get? id = some info
  cls : info.cls = .var

/-- **Redeclarations share their definition**: if some variable of a chain counts as a definition,
then all of them have the same one. -/
lemma definitionOf_eq {names : FileNames} {tree : Node} {root x y z : NodeId}
    {dx dy dz : DeclInfo} (hx : VariableIn (build names tree) root x dx)
    (hy : VariableIn (build names tree) root y dy) (hz : VariableIn (build names tree) root z dz)
    (hdefines : dz.isDefinition) :
    (build names tree).definitionOf x = (build names tree).definitionOf y := by
  have hdefined := defined_build hz.known hz.cls hdefines
  rw [hz.chain.chainRoot_eq] at hdefined
  obtain ⟨definition, hdefinition⟩ := Option.isSome_iff_exists.mp hdefined
  have hdefinitionOf {id : NodeId} {d : DeclInfo} (hd : VariableIn (build names tree) root id d) :
      (build names tree).definitionOf id = definition := by
    rw [definitionOf, hd.known]
    dsimp only
    rw [if_pos hd.cls, hd.chain.chainRoot_eq, hdefinition, Option.getD_some]
  rw [hdefinitionOf hx, hdefinitionOf hy]

/-! ### The nodes of a tree -/

/-- The entry fits the node: it is of the same kind, and if that is a variable, it counts as
initialized just if the node has an initializer, and as a definition if it is tentative. -/
def Fits (n : Node) (d : DeclInfo) : Prop :=
  ∀ kind data, n.content = .decl kind data → d.kind = kind ∧
    (DeclClass.ofKind kind = .var →
      (d.isDefinition && !d.isTentative) = data.hasInit ∧ (d.isTentative → d.isDefinition))

/-- An entry as it is first described is that of its node. -/
lemma fits_describe (t : DeclTable) (scope : Scope) {n : Node} {kind : DeclKind} {data : DeclData}
    (hcontent : n.content = .decl kind data) :
    Fits n (t.describe names scope n.id kind data n.inner) := by
  intro kind' data' hcontent'
  obtain ⟨rfl, rfl⟩ := Content.decl.inj (hcontent.symm.trans hcontent')
  refine ⟨rfl, fun hcls => ?_⟩
  rw [describe, defines]
  dsimp only
  rw [hcls]
  cases data.hasInit <;> simp

/-- Where no two nodes have the same id, entries fit the nodes that have their ids. -/
lemma fits_unlinked (hids : root.ids.Nodup) {n : Node} (hn : n ∈ root.nodes) {d : DeclInfo}
    (hd : (unlinked names root).get? n.id = some d) : Fits n d := by
  have hsame {m n : Node} (hm : m ∈ root.nodes) (hn : n ∈ root.nodes) (hid : n.id = m.id) :
      n = m := List.inj_on_of_nodup_map hids hn hm hid
  have hcollect : ∀ n ∈ root.nodes, ∀ d, (collect names {} {} root).get? n.id = some d →
      Fits n d := by
    refine collect_keeps
      (P := fun t => ∀ n ∈ root.nodes, ∀ d, t.get? n.id = some d → Fits n d) {}
      (fun n _ d hd => absurd hd (by simp [get?])) root fun m hm =>
        ⟨fun {t} scope ht n hn d hd => ?_, fun {t} pattern htemplate ht n hn d hd => ?_⟩
    · cases hcontent : m.content with
      | decl kind data =>
          rw [hcontent, recordNode] at hd
          rcases get?_record t (t.describe names scope m.id kind data m.inner) n.id with
            hold | ⟨hid, hnew⟩
          · exact ht n hn d (hold ▸ hd)
          · obtain rfl := Option.some.inj (hnew.symm.trans hd)
            obtain rfl := hsame hm hn hid
            exact fits_describe t scope hcontent
      | _ =>
          rw [hcontent] at hd
          exact ht n hn d hd
    · rw [closeNode, notePattern, get?_update] at hd
      split at hd
      · next hid =>
        obtain ⟨e, he, rfl⟩ := Option.map_eq_some_iff.mp hd
        obtain rfl := hsame hm hn hid
        intro kind data hcontent
        rw [hcontent] at htemplate
        -- a template is no variable, so it does not matter that its entry changes
        refine ⟨(ht n hn e he kind data hcontent).1, fun hcls => ?_⟩
        cases kind <;> simp_all [DeclClass.ofKind, Content.isTemplate, DeclKind.isTemplate]
      · exact ht n hn d hd
  have hname : ∀ n ∈ root.nodes, ∀ d, (unlinked names root).get? n.id = some d → Fits n d := by
    rw [unlinked, nameAll]
    refine Array.foldl_induction
      (motive := fun _ (s : DeclTable) => ∀ n ∈ root.nodes, ∀ d, s.get? n.id = some d → Fits n d)
      hcollect fun i s hs n hn d hd => ?_
    rw [get?_update] at hd
    split at hd
    · obtain ⟨e, he, rfl⟩ := Option.map_eq_some_iff.mp hd
      exact hs n hn e he
    · exact hs n hn d hd
  exact hname n hn d hd

/-- Without repeated ids the order is that of the declaration nodes. -/
lemma order_unlinked (hids : root.ids.Nodup) :
    (unlinked names root).order.toList = root.declIds := by
  rw [unlinked, order_collect_build, noted_eq_append (root.declIds_sublist_ids.nodup hids),
    List.nil_append]

/-- The declarations that are known are those of the tree. -/
lemma isSome_get?_unlinked (hids : root.ids.Nodup) {n : Node} (hn : n ∈ root.nodes) :
    ((unlinked names root).get? n.id).isSome ↔ n.content.decl?.isSome := by
  rw [← (consistent_unlinked names root).mem_order, order_unlinked hids, Node.declIds,
    List.mem_filterMap]
  constructor
  · rintro ⟨m, hm, hid⟩
    obtain ⟨decl, hdecl, hid⟩ := Option.map_eq_some_iff.mp hid
    obtain rfl := List.inj_on_of_nodup_map hids hm hn hid
    rw [hdecl]
    rfl
  · intro hdecl
    obtain ⟨decl, hdecl⟩ := Option.isSome_iff_exists.mp hdecl
    exact ⟨n, hn, by rw [hdecl]; rfl⟩

/-- The first known declaration is that of the first node. -/
lemma find?_order_unlinked (hids : root.ids.Nodup) {p : NodeId → Bool}
    (hp : ∀ id, p id → ((unlinked names root).get? id).isSome) :
    (unlinked names root).order.toList.find? p =
      (root.nodes.find? fun n => p n.id).map (·.id) := by
  -- nodes that are no declarations do not count, as the table does not know their ids
  have hsame : ∀ n ∈ root.nodes, (n.content.decl?.map fun _ => n.id).any p = p n.id := by
    intro n hn
    rw [Option.any_map]
    cases hdecl : n.content.decl? with
    | some decl => rfl
    | none =>
        rw [Option.any_none, eq_comm, Bool.eq_false_iff]
        intro hpn
        have hknown := (isSome_get?_unlinked hids hn).mp (hp n.id hpn)
        rw [hdecl] at hknown
        exact absurd hknown Bool.false_ne_true
  rw [order_unlinked hids, Node.declIds, List.find?_filterMap, List.find?_congr hsame]
  cases hfind : root.nodes.find? fun n => p n.id with
  | none => rfl
  | some n =>
      have hn := List.mem_of_find?_eq_some hfind
      have hpn := List.find?_some hfind
      have hknown := (isSome_get?_unlinked hids hn).mp (hp n.id hpn)
      obtain ⟨decl, hdecl⟩ := Option.isSome_iff_exists.mp hknown
      rw [Option.bind_some, hdecl]
      rfl

/-- An initialized variable of the table is one of the tree. -/
lemma isInitialized_unlinked (hids : root.ids.Nodup) {n : Node} (hn : n ∈ root.nodes) :
    (unlinked names root).isInitialized n.id = n.isInitialized := by
  have hknown : ((unlinked names root).get? n.id).isSome ↔ n.content.decl?.isSome :=
    isSome_get?_unlinked hids hn
  rw [isInitialized, Node.isInitialized]
  -- a declaration has an entry that fits it, and no other node has any
  cases hcontent : n.content with
  | decl kind data =>
      rw [hcontent] at hknown
      obtain ⟨d, hd⟩ := Option.isSome_iff_exists.mp (hknown.mpr rfl)
      obtain ⟨hkind, hinit⟩ := fits_unlinked hids hn hd kind data hcontent
      rw [hd, Content.decl?, Option.any_some, Option.any_some, DeclInfo.cls, hkind]
      dsimp only
      cases hcls : DeclClass.ofKind kind == .var with
      | true => rw [Bool.true_and, Bool.true_and, (hinit (beq_iff_eq.mp hcls)).1]
      | false => rw [Bool.false_and, Bool.false_and, Bool.false_and]
  | _ =>
      rw [hcontent] at hknown
      have hnone : (unlinked names root).get? n.id = none :=
        Option.not_isSome_iff_eq_none.mp fun h => Bool.false_ne_true (hknown.mp h)
      rw [hnone]
      rfl

/-- A variable of the tree is one of the table. -/
lemma cls_of_isVariable (hids : root.ids.Nodup) {n : Node} (hn : n ∈ root.nodes)
    (hvariable : n.isVariable) :
    ∃ d, (build names root).get? n.id = some d ∧ d.cls = .var := by
  have hknown : ((unlinked names root).get? n.id).isSome ↔ n.content.decl?.isSome :=
    isSome_get?_unlinked hids hn
  rw [← (relinked_build names root).isSome_get?] at hknown
  rw [Node.isVariable] at hvariable
  cases hcontent : n.content with
  | decl kind data =>
      rw [hcontent] at hknown hvariable
      obtain ⟨d, hd⟩ := Option.isSome_iff_exists.mp (hknown.mpr rfl)
      refine ⟨d, hd, ?_⟩
      rw [DeclInfo.cls, kind_of_get?_build hids hn hcontent hd]
      exact beq_iff_eq.mp hvariable
  | _ =>
      rw [hcontent] at hvariable
      exact absurd hvariable Bool.false_ne_true

/-- Every declaration is in a chain that ends within the limit. -/
def ChainsEnd (t : DeclTable) : Prop := ∀ id, (t.get? id).isSome → ∃ first, InChain t first id

/-- In the chain of a declaration, the first one of some sort is that of the first node. -/
lemma find?_chain (hids : root.ids.Nodup)
    (hchains : ChainsEnd (build names root))
    {chain x : NodeId} (hx : InChain (build names root) chain x) {p : NodeId → Bool}
    (hp : ∀ id, p id → ((unlinked names root).get? id).isSome) :
    ((unlinked names root).order.toList.find? fun id =>
        p id && (build names root).chainRoot id == chain) =
      (root.nodes.find? fun y => p y.id ∧ SameChain (build names root) x y.id).map (·.id) := by
  rw [find?_order_unlinked hids fun id hid => hp id (Bool.and_eq_true_iff.mp hid).1]
  congr 1
  refine List.find?_congr fun n _ => ?_
  rw [Bool.eq_iff_iff, Bool.and_eq_true, beq_iff_eq, decide_eq_true_iff]
  refine and_congr_right fun hn => ?_
  have hknown : ((build names root).get? n.id).isSome := by
    rw [(relinked_build names root).isSome_get?]
    exact hp n.id hn
  exact (hx.sameChain_iff (hchains n.id hknown)).symm

/-- The first initialized variable of a chain is the same in the table and in the tree. -/
lemma find?_initialized (hids : root.ids.Nodup) (hchains : ChainsEnd (build names root))
    {chain x : NodeId} (hx : InChain (build names root) chain x) :
    ((unlinked names root).order.toList.find? fun id =>
        (unlinked names root).isInitialized id && (build names root).chainRoot id == chain) =
      (root.nodes.find? fun y => y.isInitialized ∧ SameChain (build names root) x y.id).map
        (·.id) := by
  rw [find?_chain hids hchains hx fun id => isSome_of_isInitialized]
  congr 1
  refine List.find?_congr fun n hn => ?_
  rw [isInitialized_unlinked hids hn]

lemma find?_tentative (hids : root.ids.Nodup) (hchains : ChainsEnd (build names root))
    {chain x : NodeId} (hx : InChain (build names root) chain x) :
    ((unlinked names root).order.toList.find? fun id =>
        (build names root).isTentative id && (build names root).chainRoot id == chain) =
      (root.nodes.find? fun y => (build names root).isTentative y.id ∧
        SameChain (build names root) x y.id).map (·.id) := by
  refine find?_chain hids hchains hx fun id hid => ?_
  rw [← (relinked_build names root).isSome_get?]
  exact isSome_of_isTentative hid

/-- Before variables are linked, tentative ones count as definitions. -/
lemma isDefinition_of_isTentative (hids : root.ids.Nodup) {id : NodeId} {d : DeclInfo}
    (hd : (build names root).get? id = some d)
    (hbefore : (unlinked names root).get? id = some d) (htentative : d.isTentative) :
    d.isDefinition := by
  obtain ⟨n, hn, rfl, data, hcontent⟩ := exists_node_of_get?_build hd
  exact ((fits_unlinked hids hn hbefore _ _ hcontent).2 (cls_of_isTentative hd htentative)).2
    htentative

/-- A chain has an initialized variable in the table just if it has one in the tree. -/
lemma initializes_iff (hids : root.ids.Nodup) (hchains : ChainsEnd (build names root))
    {chain x : NodeId} (hx : InChain (build names root) chain x) :
    (unlinked names root).initializes chain ↔
      ∃ y ∈ root.nodes, y.isInitialized ∧ SameChain (build names root) x y.id := by
  have hfind := congrArg Option.isSome (find?_initialized hids hchains hx)
  simp only [(relinked_build names root).chainRoot_eq] at hfind
  rw [initializes, List.any_eq_true, ← List.find?_isSome, hfind, Option.isSome_map,
    List.find?_isSome]
  simp only [decide_eq_true_eq]

/-! ### The rule -/

/-- **The rule of one definition**: where no two nodes have the same id and all chains end within
the limit, a variable is defined by the first initialized variable of its chain in tree order, and
if there is none, by the first tentative one; without either it stands for itself. A tentative
variable counts as a definition just if its chain has no initialized one. Linking changes nothing
about any other declaration. In the table of any tree, even one whose chains lead in circles, a
definition is its own definition. -/
theorem definitionOf_rule (names : FileNames) (root : Node) :
    let before := unlinked names root
    let t := build names root
    (root.ids.Nodup → ChainsEnd t →
      (∀ x ∈ root.nodes, x.isVariable →
        t.definitionOf x.id =
          (((root.nodes.find? fun y => y.isInitialized ∧ SameChain t x.id y.id).or
            (root.nodes.find? fun y => t.isTentative y.id ∧ SameChain t x.id y.id)).map
              (·.id)).getD x.id) ∧
      ∀ id d, t.get? id = some d → d.isTentative →
        (d.isDefinition ↔ ¬∃ y ∈ root.nodes, y.isInitialized ∧ SameChain t id y.id)) ∧
    (∀ id, ¬t.isTentative id → t.get? id = before.get? id) ∧
    ∀ id, t.definitionOf (t.definitionOf id) = t.definitionOf id := by
  intro before t
  refine ⟨fun hids hchains => ⟨fun x hx hvariable => ?_, fun id d hd htentative => ?_⟩,
    fun id hid => ?_, definitionOf_definitionOf names root⟩
  · -- the definition: the table looks along its order, which is that of the tree
    obtain ⟨d, hd, hcls⟩ := cls_of_isVariable hids hx hvariable
    obtain ⟨first, hfirst⟩ := hchains x.id (by rw [hd]; rfl)
    rw [definitionOf_variable hd hcls, varDefinitions_build_eq, hfirst.chainRoot_eq,
      find?_initialized hids hchains hfirst, find?_tentative hids hchains hfirst, Option.map_or]
  · obtain ⟨first, hfirst⟩ := hchains id (by rw [hd]; rfl)
    rw [← initializes_iff hids hchains hfirst]
    -- the flag: linking has retracted it just where the chain is initialized
    have hlinked := hd
    rw [get?_build, get?_linkVariables (consistent_unlinked names root),
      ← (relinked_build names root).chainRoot_eq, hfirst.chainRoot_eq] at hlinked
    split at hlinked
    · next hinitializes =>
      obtain ⟨e, -, rfl⟩ := Option.map_eq_some_iff.mp hlinked
      rw [isTentative_retracted] at htentative
      rw [retracted, if_pos htentative]
      exact iff_of_false Bool.false_ne_true (not_not_intro hinitializes)
    · next hno =>
      exact iff_of_true (isDefinition_of_isTentative hids hd hlinked htentative) hno
  · -- all else: only tentative variables are ever changed
    rw [(relinked_build names root).isTentative_eq, isTentative_iff] at hid
    rw [get?_build, get?_linkVariables (consistent_unlinked names root)]
    split
    · cases hd : before.get? id with
      | none => rw [Option.map_none]
      | some d => rw [Option.map_some, retracted_eq_self fun h => hid ⟨d, hd, h⟩]
    · rfl

/-- The names of files as they are. -/
def literalNames : FileNames := ⟨"/m.c", ⟨"/"⟩, fun _ => none⟩

/-- A declaration of a variable with an initializer. -/
def initializedVariable : Node :=
  ⟨⟨3⟩, .decl .var { name := some "v", previous := some ⟨2⟩, init := some "c" }, []⟩

/-- A variable that is declared without an initializer, then with one, and then once more. -/
def declaredThrice : Node :=
  ⟨⟨1⟩, .decl .translationUnit {}, [
    ⟨⟨2⟩, .decl .var { name := some "v" }, []⟩,
    initializedVariable,
    ⟨⟨4⟩, .decl .var
      { name := some "v", previous := some ⟨3⟩, storageClass := some "extern" }, []⟩]⟩

lemma inChain_declaredThrice :
    ∀ x ∈ declaredThrice.inner, InChain (build literalNames declaredThrice) ⟨2⟩ x.id := by
  simp only [declaredThrice, List.forall_mem_cons, List.not_mem_nil, false_implies, implies_true,
    and_true]
  exact ⟨inChain_iff.mpr ⟨by cbv, by cbv⟩, inChain_iff.mpr ⟨by cbv, by cbv⟩,
    inChain_iff.mpr ⟨by cbv, by cbv⟩⟩

lemma chainsEnd_declaredThrice : ChainsEnd (build literalNames declaredThrice) := by
  intro id hid
  have horder : (build literalNames declaredThrice).order.toList =
      ⟨1⟩ :: declaredThrice.inner.map (·.id) := by cbv
  rw [← (consistent_build _ declaredThrice).mem_order, horder, List.mem_cons,
    List.mem_map] at hid
  rcases hid with rfl | ⟨x, hx, rfl⟩
  · exact ⟨⟨1⟩, inChain_iff.mpr ⟨by cbv, by cbv⟩⟩
  · exact ⟨⟨2⟩, inChain_declaredThrice x hx⟩

/-- The initialized declaration defines all three, and the one before it is no definition. -/
theorem definitionOf_declaredThrice :
    declaredThrice.ids.Nodup ∧ ChainsEnd (build literalNames declaredThrice) ∧
      (∀ x ∈ declaredThrice.inner,
        (build literalNames declaredThrice).definitionOf x.id = initializedVariable.id) ∧
      ∃ d, (build literalNames declaredThrice).get? ⟨2⟩ = some d ∧ d.isTentative ∧
        ¬d.isDefinition := by
  have hids : declaredThrice.ids.Nodup := by decide +kernel
  obtain ⟨hdefinition, htentative⟩ :=
    (definitionOf_rule literalNames declaredThrice).1 hids chainsEnd_declaredThrice
  have hmarks : ((build literalNames declaredThrice).get? ⟨2⟩).map (·.isTentative) = some true := by
    cbv
  obtain ⟨d, hd, hmark⟩ := Option.map_eq_some_iff.mp hmarks
  have hmem : initializedVariable ∈ declaredThrice.inner :=
    List.mem_cons_of_mem _ List.mem_cons_self
  have hsame {x : Node} (hx : x ∈ declaredThrice.inner) :
      SameChain (build literalNames declaredThrice) x.id initializedVariable.id :=
    ⟨_, inChain_declaredThrice x hx, inChain_declaredThrice _ hmem⟩
  refine ⟨hids, chainsEnd_declaredThrice, fun x hx => ?_, d, hd, hmark, ?_⟩
  · have hvariable : x.isVariable := by
      revert x
      decide
    have hfirst : (declaredThrice.nodes.find? fun y =>
        y.isInitialized ∧ SameChain (build literalNames declaredThrice) x.id y.id) =
        some initializedVariable := by
      rw [List.find?_eq_some_iff_append]
      refine ⟨decide_eq_true ⟨rfl, hsame hx⟩, declaredThrice.nodes.take 2, _, rfl, fun y hy => ?_⟩
      rcases hy with _ | ⟨_, _ | ⟨_, ⟨⟩⟩⟩
      · rfl
      · rfl
    rw [hdefinition x (Node.mem_nodes_of_mem_inner hx x.self_mem_nodes) hvariable, hfirst]
    rfl
  · rw [htentative ⟨2⟩ d hd hmark, not_not]
    have hnode := Node.mem_nodes_of_mem_inner hmem (Node.self_mem_nodes _)
    exact ⟨_, hnode, rfl, hsame List.mem_cons_self⟩

end DeclTable

end UnitIndex
