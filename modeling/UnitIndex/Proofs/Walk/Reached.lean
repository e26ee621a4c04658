import Mathlib.Tactic
import UnitIndex.Walk.Visit

/-!
The declarations that a walk has to reach.

`Leads` says from which node to which child a walk goes, kind by kind, without a word about roles
and courses. What the front-end has made up is passed over, with everything below it; `Reached` is
the closure of what remains. `picked` lists the children that a course goes through, in their
roles, and `covers_declCourses` and `covers_all` compare the two: the courses chosen at a node go
through the children that the node leads to, and through none of them twice.
-/

namespace UnitIndex

namespace Node

/-- The nodes of a tree, each before its children. -/
def nodes (n : Node) : List Node := (n.preorder 0).map (·.2)

/-- The ids of the nodes of a tree. -/
def ids (n : Node) : List NodeId := n.nodes.map (·.id)

mutual

/-- The nodes of a tree do not depend on the depth at which they are counted. -/
lemma map_preorder (d e : Nat) :
    ∀ n : Node, (n.preorder d).map (·.2) = (n.preorder e).map (·.2)
  | ⟨id, content, inner⟩ => by
      rw [preorder, preorder, List.map_cons, List.map_cons, map_preorderAll (d + 1) (e + 1) inner]

lemma map_preorderAll (d e : Nat) :
    ∀ ns : List Node, (preorderAll d ns).map (·.2) = (preorderAll e ns).map (·.2)
  | [] => rfl
  | n :: ns => by
      rw [preorderAll, preorderAll, List.map_append, List.map_append, map_preorder d e n,
        map_preorderAll d e ns]

end

/-- The nodes of some trees are those of each. -/
lemma preorderAll_nodes (d : Nat) (ns : List Node) :
    (preorderAll d ns).map (·.2) = ns.flatMap nodes := by
  induction ns with
  | nil => rfl
  | cons n ns ih =>
      rw [preorderAll, List.map_append, ih, map_preorder d 0 n, List.flatMap_cons, nodes]

/-- The nodes of a tree are its root and those of the children. -/
lemma nodes_mk (id : NodeId) (content : Content) (inner : List Node) :
    nodes ⟨id, content, inner⟩ = ⟨id, content, inner⟩ :: inner.flatMap nodes := by
  rw [nodes, preorder, List.map_cons, preorderAll_nodes]

lemma ids_mk (id : NodeId) (content : Content) (inner : List Node) :
    ids ⟨id, content, inner⟩ = id :: inner.flatMap ids := by
  rw [ids, nodes_mk, List.map_cons, List.map_flatMap]
  rfl

lemma self_mem_nodes (n : Node) : n ∈ n.nodes := by
  obtain ⟨id, content, inner⟩ := n
  rw [nodes_mk]
  exact List.mem_cons_self

/-- The nodes of a child are nodes of the tree. -/
lemma mem_nodes_of_mem_inner {n c m : Node} (hc : c ∈ n.inner) (hm : m ∈ c.nodes) :
    m ∈ n.nodes := by
  obtain ⟨id, content, inner⟩ := n
  rw [nodes_mk]
  exact List.mem_cons_of_mem _ (List.mem_flatMap.mpr ⟨c, hc, hm⟩)

/-- A node of a tree is its root or below a child. -/
lemma mem_nodes_iff {n m : Node} : m ∈ n.nodes ↔ m = n ∨ ∃ c ∈ n.inner, m ∈ c.nodes := by
  obtain ⟨id, content, inner⟩ := n
  rw [nodes_mk, List.mem_cons, List.mem_flatMap]

/-- A child is smaller than its tree. -/
lemma sizeOf_lt_of_mem_inner {n c : Node} (h : c ∈ n.inner) : sizeOf c < sizeOf n := by
  obtain ⟨id, content, inner⟩ := n
  have hlt := List.sizeOf_lt_of_mem h
  simp only [Node.mk.sizeOf_spec] at hlt ⊢
  omega

/-- A law of nodes holds if it holds of a node whenever it holds of its children. -/
lemma induction {P : Node → Prop} (h : ∀ n, (∀ c ∈ n.inner, P c) → P n) (n : Node) : P n :=
  h n fun c _ => induction h c
termination_by sizeOf n
decreasing_by exact sizeOf_lt_of_mem_inner ‹_›

/-- No node of a tree is larger than the tree. -/
lemma sizeOf_le_of_mem_nodes {n m : Node} (h : m ∈ n.nodes) : sizeOf m ≤ sizeOf n := by
  induction n using induction with
  | h n ih =>
      rcases mem_nodes_iff.mp h with rfl | ⟨c, hc, hm⟩
      · exact le_rfl
      · exact (ih c hc hm).trans (sizeOf_lt_of_mem_inner hc).le

/-- Nodes below nodes are nodes. -/
lemma mem_nodes_trans {n m p : Node} (hm : m ∈ n.nodes) (hp : p ∈ m.nodes) : p ∈ n.nodes := by
  induction n using induction with
  | h n ih =>
      rcases mem_nodes_iff.mp hm with rfl | ⟨c, hc, hm⟩
      · exact hp
      · exact mem_nodes_of_mem_inner hc (ih c hc hm)

/-- The children of a template up to its pattern; every child if it has none. -/
def upToPattern (n : Node) : List Node :=
  match n.patternIndex? with
  | some i => n.inner.take (i + 1)
  | none => n.inner

end Node

namespace Walk

/-! ### Steps -/

/-- Whether the node holds declarations and nothing else that is walked: a scope, a friend, or a
declaration that is not told apart. -/
def isScope : Content → Bool
  | .decl kind _ =>
    match kind with
    | .translationUnit | .namespaceDecl | .linkageSpec | .record | .cxxRecord
    | .classTemplateSpecialization | .classTemplatePartialSpecialization | .enum | .friend => true
    | _ => false
  | content => content.isDecl

/-- Whether the node is a declaration of a kind that owns expressions. -/
def ownsStatements : Content → Bool
  | .decl kind _ =>
    match kind with
    | .parmVar | .var | .varTemplateSpecialization | .varTemplatePartialSpecialization | .field
    | .indirectField | .enumConstant | .staticAssert => true
    | _ => false
  | _ => false

/-- Whether the node declares a parameter of a function. -/
def isParameter (content : Content) : Bool := content.decl?.map (·.1) == some .parmVar

/-- A walk goes from the node to its child. -/
inductive Leads (parent child : Node) : Prop
  | nested : isScope parent.content → child ∈ parent.inner → child.content.isDecl →
      Leads parent child
  | pattern : parent.content.isTemplate → child ∈ parent.upToPattern → child.content.isDecl →
      Leads parent child
  | parameter : parent.content.isFunction → child ∈ parent.inner → isParameter child.content →
      Leads parent child
  | body : parent.content.isFunction → child ∈ parent.inner → ¬child.content.isDecl →
      Leads parent child
  | owned : ownsStatements parent.content → child ∈ parent.inner → ¬child.content.isDecl →
      Leads parent child
  | part : ¬parent.content.isDecl → child ∈ parent.inner → Leads parent child

/-- A walk goes from the node to its child and does not turn back there. -/
def Passes (parent child : Node) : Prop := Leads parent child ∧ ¬isMadeUp child.content

/-- A walk that starts at the root comes to the node. -/
def Reached (root n : Node) : Prop := Relation.ReflTransGen Passes root n

/-- The ids of the declarations that a walk enters from a node on. -/
def entered (n : Node) : Set NodeId :=
  {id | ¬isMadeUp n.content ∧ ∃ m, Reached n m ∧ m.content.isDecl ∧ m.id = id}

/-- A walk goes from a node to its children only. -/
lemma Leads.mem_inner {parent child : Node} (h : Leads parent child) : child ∈ parent.inner := by
  cases h with
  | pattern _ hc _ =>
      rw [Node.upToPattern] at hc
      split at hc
      · exact List.mem_of_mem_take hc
      · exact hc
  | nested _ hc _ => exact hc
  | parameter _ hc _ => exact hc
  | body _ hc _ => exact hc
  | owned _ hc _ => exact hc
  | part _ hc => exact hc

/-- What can be reached is a node of the tree. -/
lemma Reached.mem_nodes {root n : Node} (h : Reached root n) : n ∈ root.nodes := by
  induction h using Relation.ReflTransGen.head_induction_on with
  | refl => exact n.self_mem_nodes
  | head hstep _ ih => exact Node.mem_nodes_of_mem_inner hstep.1.mem_inner ih

/-- What is entered is a node of the tree. -/
lemma mem_ids_of_mem_entered {n : Node} {id : NodeId} (h : id ∈ entered n) : id ∈ n.ids := by
  obtain ⟨-, m, hm, -, rfl⟩ := h
  exact List.mem_map_of_mem hm.mem_nodes

/-- Nothing is entered in what is made up. -/
lemma entered_of_isMadeUp {n : Node} (h : isMadeUp n.content) : entered n = ∅ := by
  ext id
  simp [entered, h]

/-- What is entered from a node on: the node, and what is entered from its children on. -/
lemma entered_eq {n : Node} (h : ¬isMadeUp n.content) :
    entered n = {id | n.content.isDecl ∧ n.id = id} ∪ {id | ∃ c, Leads n c ∧ id ∈ entered c} := by
  ext id
  constructor
  · rintro ⟨-, m, hm, hdecl, hid⟩
    rcases hm.cases_head with rfl | ⟨c, hstep, hc⟩
    · exact Or.inl ⟨hdecl, hid⟩
    · exact Or.inr ⟨c, hstep.1, hstep.2, m, hc, hdecl, hid⟩
  · rintro (⟨hdecl, hid⟩ | ⟨c, hlead, hup, m, hm, hdecl, hid⟩)
    · exact ⟨h, n, .refl, hdecl, hid⟩
    · exact ⟨h, m, .head ⟨hlead, hup⟩ hm, hdecl, hid⟩

/-! ### Courses -/

/-- The children that a course goes through, each in its role. -/
def picked (course : Course) : List Node → List (Role × Node)
  | [] => []
  | n :: ns =>
    match course.role? n.content with
    | some role => (role, n) :: picked (course.next n.content) ns
    | none => picked (course.next n.content) ns

/-- The children that a course goes through. -/
def pickedNodes (course : Course) (ns : List Node) : List Node := (picked course ns).map (·.2)

/-- A course that goes on as it is behind every child. -/
def Steady (course : Course) : Prop := ∀ child, course.next child = course

/-- A steady course picks each child by itself. -/
lemma picked_eq_filterMap {course : Course} (h : Steady course) (ns : List Node) :
    picked course ns = ns.filterMap fun n => (course.role? n.content).map (·, n) := by
  induction ns with
  | nil => rfl
  | cons n ns ih =>
      rw [picked, List.filterMap_cons, h, ih]
      cases course.role? n.content <;> rfl

/-- So it picks the children that it has a role for. -/
lemma mem_picked {course : Course} (h : Steady course) {ns : List Node} {role : Role} {n : Node} :
    (role, n) ∈ picked course ns ↔ n ∈ ns ∧ course.role? n.content = some role := by
  rw [picked_eq_filterMap h]
  simp only [List.mem_filterMap, Option.map_eq_some_iff, Prod.mk.injEq]
  constructor
  · rintro ⟨m, hm, r, hr, rfl, rfl⟩
    exact ⟨hm, hr⟩
  · rintro ⟨hn, hr⟩
    exact ⟨n, hn, role, hr, rfl, rfl⟩

/-- The children that a steady course goes through are those for which it has a role. -/
lemma mem_pickedNodes {course : Course} (h : Steady course) {ns : List Node} {n : Node} :
    n ∈ pickedNodes course ns ↔ n ∈ ns ∧ (course.role? n.content).isSome := by
  rw [pickedNodes, List.mem_map]
  constructor
  · rintro ⟨⟨role, m⟩, hm, rfl⟩
    obtain ⟨hmem, hrole⟩ := (mem_picked h).mp hm
    exact ⟨hmem, Option.isSome_iff_exists.mpr ⟨role, hrole⟩⟩
  · rintro ⟨hn, hsome⟩
    obtain ⟨role, hrole⟩ := Option.isSome_iff_exists.mp hsome
    exact ⟨(role, n), (mem_picked h).mpr ⟨hn, hrole⟩, rfl⟩

/-- A course never goes through a child twice. -/
lemma pickedNodes_sublist (course : Course) (ns : List Node) :
    (pickedNodes course ns).Sublist ns := by
  induction ns generalizing course with
  | nil => exact List.Sublist.refl []
  | cons n ns ih =>
      rw [pickedNodes, picked]
      split
      · exact (ih _).cons_cons n
      · exact (ih _).cons n

lemma steady_nothing : Steady .nothing := fun _ => rfl

@[simp] lemma picked_nothing (ns : List Node) : picked .nothing ns = [] := by
  rw [picked_eq_filterMap steady_nothing]
  exact List.filterMap_eq_nil_iff.mpr fun _ _ => rfl

/-- A variable or a field goes through all children that are no declarations. -/
lemma isSome_role?_ownStatements (child : Content) :
    (Course.ownStatements.role? child).isSome = !child.isDecl := by
  rw [Course.role?]
  cases child.isDecl <;> rfl

lemma isSome_role?_body (ctor : Option SourceLocation) (child : Content) :
    ((Course.body ctor).role? child).isSome = !child.isDecl := by
  cases child with
  | ctorInit init => rfl
  | decl kind data => rfl
  | expr kind data => rfl
  | ref kind data => rfl
  | other kind loc range =>
      show (if _ then _ else _ : Option Role).isSome = _
      cases (Content.other kind loc range).isDecl <;> rfl

/-- A scope goes through its declarations. -/
lemma isSome_role?_declarations (upToPattern : Bool) (child : Content) :
    ((Course.declarations false upToPattern).role? child).isSome = child.isDecl := by
  rw [Course.role?]
  cases child.isDecl <;> rfl

/-- A function goes through its parameters. -/
lemma isSome_role?_parameters (child : Content) :
    ((Course.declarations true false).role? child).isSome = isParameter child := by
  rw [Course.role?, isParameter]
  cases child with
  | decl kind data => cases kind <;> rfl
  | other kind loc range =>
      cases (Content.other kind loc range).isDecl <;> rfl
  | _ => rfl

/-- Behind the pattern of a template its course goes through nothing. -/
lemma pickedNodes_upToPattern (n : Node) :
    pickedNodes (.declarations false true) n.inner = n.upToPattern.filter (·.content.isDecl) := by
  rw [Node.upToPattern, Node.patternIndex?]
  induction n.inner with
  | nil => rfl
  | cons c cs ih =>
      rw [List.findIdx?_cons]
      cases hpattern : c.content.isDecl && !c.content.isTemplateParm with
      | true =>
          obtain ⟨hdecl, hparm⟩ := Bool.and_eq_true_iff.mp hpattern
          simp [pickedNodes, picked, Course.role?, Course.next, hdecl, hparm]
      | false =>
          -- a parameter, or no declaration at all: the pattern is yet to come
          have hrest :
              (Course.declarations false true).next c.content = .declarations false true := by
            rw [Course.next, if_neg (by simpa using hpattern)]
          have hpicked : pickedNodes (.declarations false true) (c :: cs) =
              [c].filter (·.content.isDecl) ++ pickedNodes (.declarations false true) cs := by
            rw [pickedNodes, picked, hrest]
            cases hdecl : c.content.isDecl <;> simp [Course.role?, hdecl, pickedNodes]
          rw [hpicked, ih]
          cases cs.findIdx? fun c => c.content.isDecl && !c.content.isTemplateParm with
          | none => rw [← List.filter_append]; rfl
          | some i => rw [← List.filter_append]; rfl

/-! ### What the courses cover -/

/-- The nodes that may be visited in a role. -/
def Suits : Role → Node → Prop
  | .decl, n => n.content.isDecl
  | .stmt, _ => True
  | .callee name _, n => ∀ m ∈ n.nodes, m.id = name → ¬m.content.isDecl
  | .initializer _, n => ∃ init, n.content = .ctorInit init

/-- Two courses through the children of a node, one behind the other, cover those that the node
leads to. -/
structure Covers (n : Node) (courses : Course × Course) : Prop where
  leads : ∀ c, c ∈ pickedNodes courses.1 n.inner ∨ c ∈ pickedNodes courses.2 n.inner ↔ Leads n c
  apart : ∀ c, c ∈ pickedNodes courses.1 n.inner → c ∉ pickedNodes courses.2 n.inner
  suits : ∀ {role c}, (role, c) ∈ picked courses.1 n.inner ∨ (role, c) ∈ picked courses.2 n.inner →
    Suits role c

/-- A course that goes through every child covers a node that is no declaration. -/
lemma covers_all {n : Node} {course : Course} (h : ¬n.content.isDecl)
    (hall : pickedNodes course n.inner = n.inner)
    (hsuits : ∀ {role c}, (role, c) ∈ picked course n.inner → Suits role c) :
    Covers n (course, .nothing) where
  leads := by
    intro c
    rw [hall]
    constructor
    · rintro (hc | hc)
      · exact .part h hc
      · exact absurd hc (by simp [pickedNodes])
    · intro hlead
      exact Or.inl hlead.mem_inner
  apart := by
    intro c _
    simp [pickedNodes]
  suits := by
    rintro role c (hc | hc)
    · exact hsuits hc
    · exact absurd hc (by simp)

/-- A steady course with a role for every child picks all of them. -/
lemma pickedNodes_eq_self {course : Course} (h : Steady course)
    (hrole : ∀ child, (course.role? child).isSome) (ns : List Node) :
    pickedNodes course ns = ns := by
  induction ns with
  | nil => rfl
  | cons n ns ih =>
      obtain ⟨role, hn⟩ := Option.isSome_iff_exists.mp (hrole n.content)
      rw [pickedNodes, picked, hn, h]
      exact congrArg (n :: ·) ih

/-- Statements cover a node that is no declaration. -/
lemma covers_statements {n : Node} (h : ¬n.content.isDecl) : Covers n (.statements, .nothing) := by
  have hsteady : Steady .statements := fun _ => rfl
  refine covers_all h (pickedNodes_eq_self hsteady (fun _ => rfl) _) ?_
  intro role c hc
  obtain ⟨-, hrole⟩ := (mem_picked hsteady).mp hc
  obtain rfl := Option.some.inj hrole
  trivial

lemma covers_mixed {n : Node} (h : ¬n.content.isDecl) : Covers n (.mixed, .nothing) := by
  have hsteady : Steady .mixed := fun _ => rfl
  refine covers_all h (pickedNodes_eq_self hsteady (fun _ => rfl) _) ?_
  intro role c hc
  obtain ⟨-, hrole⟩ := (mem_picked hsteady).mp hc
  obtain rfl := Option.some.inj hrole
  split
  · assumption
  · trivial

/-- Below a callee that has been reported the name is still the same. -/
lemma covers_calleeParts {n : Node} (h : ¬n.content.isDecl) {name : NodeId} (depth : Nat)
    (hname : ∀ m ∈ n.nodes, m.id = name → ¬m.content.isDecl) :
    Covers n (.calleeParts name depth, .nothing) := by
  have hsteady : Steady (.calleeParts name depth) := fun _ => rfl
  refine covers_all h (pickedNodes_eq_self hsteady (fun _ => rfl) _) ?_
  intro role c hc
  obtain ⟨hmem, hrole⟩ := (mem_picked hsteady).mp hc
  obtain rfl := Option.some.inj hrole
  intro m hm
  exact hname m (Node.mem_nodes_of_mem_inner hmem hm)

/-- The callee of a call is visited in its role, whatever that is, and the arguments as
statements. -/
lemma covers_call {n : Node} (h : ¬n.content.isDecl) {role : Role}
    (hrole : ∀ c, n.inner.head? = some c → Suits role c) : Covers n (.call role, .nothing) := by
  have harguments : Steady .arguments := fun _ => rfl
  cases hinner : n.inner with
  | nil =>
      refine covers_all h ?_ ?_
      · rw [hinner]
        rfl
      · intro r c hc
        rw [hinner] at hc
        exact absurd hc (by simp [picked])
  | cons callee rest =>
      have hpicked : picked (.call role) n.inner = (role, callee) :: picked .arguments rest := by
        rw [hinner]
        rfl
      refine covers_all h ?_ ?_
      · rw [pickedNodes, hpicked, List.map_cons, hinner]
        exact congrArg (callee :: ·) (pickedNodes_eq_self harguments (fun _ => rfl) rest)
      · intro r c hc
        rw [hpicked] at hc
        -- the callee, or one of the arguments behind it
        rcases List.mem_cons.mp hc with heq | hc
        · obtain ⟨rfl, rfl⟩ := Prod.mk.inj heq
          exact hrole c (by rw [hinner]; rfl)
        · obtain ⟨-, hr⟩ := (mem_picked harguments).mp hc
          obtain rfl := Option.some.inj hr
          trivial

/-- The first course of a declaration goes through its own parts. -/
lemma ownCourse_eq (kind : DeclKind) (data : DeclData) :
    ownCourse kind data =
      if ownsStatements (.decl kind data) then .ownStatements
      else if kind.isFunction then .body data.loc else .nothing := by
  cases kind <;> rfl

/-- The second one goes through nested declarations. -/
lemma nestedCourse_eq (kind : DeclKind) (data : DeclData) :
    nestedCourse (.decl kind data) =
      if isScope (.decl kind data) then .declarations false false
      else if kind.isFunction then .declarations true false
      else if kind.isTemplate then .declarations false true else .nothing := by
  cases kind <;> rfl

/-- What a course through declarations visits as such is one. -/
lemma suits_of_declarations {parametersOnly upToPattern : Bool} {ns : List Node} {role : Role}
    {c : Node} (h : (role, c) ∈ picked (.declarations parametersOnly upToPattern) ns) :
    Suits role c := by
  induction ns with
  | nil => exact absurd h (by simp [picked])
  | cons n ns ih =>
      have hrest : (role, c) ∈ picked ((Course.declarations parametersOnly upToPattern).next
          n.content) ns → Suits role c := by
        rw [Course.next]
        split
        · intro hc
          exact absurd hc (by simp)
        · exact ih
      rw [picked] at h
      split at h
      · next r hr =>
          rcases List.mem_cons.mp h with heq | h
          · obtain ⟨rfl, rfl⟩ := Prod.mk.inj heq
            rw [Course.role?] at hr
            split at hr
            · exact absurd hr (by simp)
            split at hr
            · exact absurd hr (by simp)
            · next hdecl _ =>
                obtain rfl := Option.some.inj hr
                simpa [Suits] using hdecl
          · exact hrest h
      · exact hrest h

/-- Own parts are visited as statements. -/
lemma suits_of_ownStatements {ns : List Node} {role : Role} {c : Node}
    (h : (role, c) ∈ picked .ownStatements ns) : Suits role c := by
  have hsteady : Steady .ownStatements := fun _ => rfl
  obtain ⟨-, hrole⟩ := (mem_picked hsteady).mp h
  rw [Course.role?] at hrole
  split at hrole
  · exact absurd hrole (by simp)
  · obtain rfl := Option.some.inj hrole
    trivial

/-- The parts of a function are visited as initializers or as statements. -/
lemma suits_of_body {ctor : Option SourceLocation} {ns : List Node} {role : Role} {c : Node}
    (h : (role, c) ∈ picked (.body ctor) ns) : Suits role c := by
  have hsteady : Steady (.body ctor) := fun _ => rfl
  obtain ⟨-, hrole⟩ := (mem_picked hsteady).mp h
  -- an initializer is told its constructor, and declarations are left to the second course
  have hcases : (∃ init, c.content = .ctorInit init ∧ role = .initializer ctor) ∨ role = .stmt := by
    obtain ⟨id, content, inner⟩ := c
    cases content with
    | ctorInit init => exact Or.inl ⟨init, rfl, (Option.some.inj hrole).symm⟩
    | decl kind data => exact absurd hrole (by simp [Course.role?, Content.isDecl])
    | expr kind data => exact Or.inr (Option.some.inj hrole).symm
    | ref kind data => exact Or.inr (Option.some.inj hrole).symm
    | other kind loc range =>
        change (if _ then none else some Role.stmt) = some role at hrole
        split at hrole
        · exact absurd hrole (by simp)
        · exact Or.inr (Option.some.inj hrole).symm
  rcases hcases with ⟨init, hinit, rfl⟩ | rfl
  · exact ⟨init, hinit⟩
  · trivial

/-- The first course of a declaration goes through expressions only. -/
lemma mem_ownNodes {n : Node} {kind : DeclKind} {data : DeclData} (c : Node) :
    c ∈ pickedNodes (ownCourse kind data) n.inner ↔
      (ownsStatements (.decl kind data) ∨ kind.isFunction) ∧ c ∈ n.inner ∧
        ¬c.content.isDecl := by
  rw [ownCourse_eq]
  split
  · next howns =>
      have hsteady : Steady .ownStatements := fun _ => rfl
      rw [mem_pickedNodes hsteady, isSome_role?_ownStatements]
      simp [howns]
  · next howns =>
      split
      · next hfun =>
          have hsteady : Steady (.body data.loc) := fun _ => rfl
          rw [mem_pickedNodes hsteady, isSome_role?_body]
          simp [hfun]
      · next hfun => simp [pickedNodes, howns, hfun]

/-- The second course of a declaration goes through declarations only. -/
lemma mem_nestedNodes {n : Node} {kind : DeclKind} {data : DeclData} (c : Node) :
    c ∈ pickedNodes (nestedCourse (.decl kind data)) n.inner ↔
      isScope (.decl kind data) ∧ c ∈ n.inner ∧ c.content.isDecl ∨
        kind.isFunction ∧ c ∈ n.inner ∧ isParameter c.content ∨
          kind.isTemplate ∧ c ∈ n.upToPattern ∧ c.content.isDecl := by
  -- no declaration is two of these, so that the order of the tests makes no difference
  have hapart : (isScope (.decl kind data) → ¬kind.isFunction ∧ ¬kind.isTemplate) ∧
      (kind.isFunction → ¬kind.isTemplate) := by
    cases kind <;> simp [isScope, DeclKind.isFunction, DeclKind.isTemplate]
  rw [nestedCourse_eq]
  split
  · next hscope =>
      have hsteady : Steady (.declarations false false) := by
        intro child
        rw [Course.next, Bool.false_and, Bool.false_and, if_neg (by simp)]
      rw [mem_pickedNodes hsteady, isSome_role?_declarations]
      simp [hscope, (hapart.1 hscope).1, (hapart.1 hscope).2]
  · next hscope =>
      split
      · next hfun =>
          have hsteady : Steady (.declarations true false) := by
            intro child
            rw [Course.next, Bool.false_and, Bool.false_and, if_neg (by simp)]
          rw [mem_pickedNodes hsteady, isSome_role?_parameters]
          simp [hscope, hfun, hapart.2 hfun]
      · next hfun =>
          split
          · next htempl =>
              rw [pickedNodes_upToPattern, List.mem_filter]
              simp [hscope, hfun, htempl]
          · next htempl => simp [pickedNodes, hscope, hfun, htempl]

/-- Parameters are declarations. -/
lemma isDecl_of_isParameter {content : Content} (h : isParameter content) : content.isDecl := by
  cases content with
  | decl kind data => rfl
  | _ => exact absurd h (by simp [isParameter, Content.decl?])

/-- The courses through the children of a declaration cover it. -/
lemma covers_declCourses {n : Node} (h : n.content.isDecl) : Covers n (declCourses n.content) := by
  obtain ⟨id, content, inner⟩ := n
  cases content with
  | decl kind data =>
      refine ⟨?_, ?_, ?_⟩
      · intro c
        rw [declCourses, mem_ownNodes, mem_nestedNodes]
        constructor
        · rintro (⟨howns | hfun, hc, hdecl⟩ | ⟨hscope, hc, hdecl⟩ | ⟨hfun, hc, hparm⟩ |
            ⟨htempl, hc, hdecl⟩)
          · exact .owned howns hc hdecl
          · exact .body hfun hc hdecl
          · exact .nested hscope hc hdecl
          · exact .parameter hfun hc hparm
          · exact .pattern htempl hc hdecl
        · intro hlead
          cases hlead with
          | nested hscope hc hdecl => exact Or.inr (Or.inl ⟨hscope, hc, hdecl⟩)
          | pattern htempl hc hdecl => exact Or.inr (Or.inr (Or.inr ⟨htempl, hc, hdecl⟩))
          | parameter hfun hc hparm => exact Or.inr (Or.inr (Or.inl ⟨hfun, hc, hparm⟩))
          | body hfun hc hdecl => exact Or.inl ⟨Or.inr hfun, hc, hdecl⟩
          | owned howns hc hdecl => exact Or.inl ⟨Or.inl howns, hc, hdecl⟩
          | part hno _ => exact absurd rfl hno
      · -- no child is in both courses, since the first one has no declarations
        intro c hown hnested
        rw [declCourses, mem_ownNodes] at hown
        rw [declCourses, mem_nestedNodes] at hnested
        rcases hnested with ⟨-, -, hdecl⟩ | ⟨-, -, hparm⟩ | ⟨-, -, hdecl⟩
        · exact hown.2.2 hdecl
        · exact hown.2.2 (isDecl_of_isParameter hparm)
        · exact hown.2.2 hdecl
      · rintro role c (hc | hc)
        · rw [declCourses, ownCourse_eq] at hc
          split at hc
          · exact suits_of_ownStatements hc
          split at hc
          · exact suits_of_body hc
          · exact absurd hc (by simp)
        · rw [declCourses, nestedCourse_eq] at hc
          split at hc
          · exact suits_of_declarations hc
          split at hc
          · exact suits_of_declarations hc
          split at hc
          · exact suits_of_declarations hc
          · exact absurd hc (by simp)
  | other kind loc range =>
      have hsteady : Steady (.declarations false false) := by
        intro child
        rw [Course.next, Bool.false_and, Bool.false_and, if_neg (by simp)]
      have hmem (c : Node) : c ∈ pickedNodes (.declarations false false) inner ↔
          c ∈ inner ∧ c.content.isDecl := by
        rw [mem_pickedNodes hsteady, isSome_role?_declarations]
      refine ⟨?_, ?_, ?_⟩
      · intro c
        constructor
        · rintro (hc | hc)
          · exact absurd hc (by simp [declCourses, pickedNodes])
          · obtain ⟨hc, hdecl⟩ := (hmem c).mp hc
            exact .nested h hc hdecl
        · intro hlead
          cases hlead with
          | nested _ hc hdecl => exact Or.inr ((hmem c).mpr ⟨hc, hdecl⟩)
          | pattern htempl _ _ => exact absurd htempl (by simp [Content.isTemplate])
          | parameter hfun _ _ => exact absurd hfun (by simp [Content.isFunction])
          | body hfun _ _ => exact absurd hfun (by simp [Content.isFunction])
          | owned howns _ _ => exact absurd howns (by simp [ownsStatements])
          | part hno _ => exact absurd h hno
      · intro c hc
        exact absurd hc (by simp [declCourses, pickedNodes])
      · rintro role c (hc | hc)
        · exact absurd hc (by simp [declCourses])
        · exact suits_of_declarations hc
  | expr kind data => exact absurd h (by simp [Content.isDecl])
  | ref kind data => exact absurd h (by simp [Content.isDecl])
  | ctorInit init => exact absurd h (by simp [Content.isDecl])

end Walk

end UnitIndex
