import Mathlib.Tactic
import UnitIndex.Decl.Table
import UnitIndex.Proofs.Walk.Reached

/-!
Expressions that name another declaration.

`Renamed` relates two trees that differ in which of two declarations some expressions name. The
declarations of the two trees are the same (`build_renamed`), since they are collected without a
look at what expressions name.
-/

namespace UnitIndex

/-- The same content, but that an expression may name `y` where it has named `x`. -/
inductive Renames (x y : NodeId) : Content → Content → Prop
  | same (content : Content) : Renames x y content content
  | named {data : RefData} {mention : DeclMention} : data.referenced = some mention →
      mention.id = x → Renames x y (.ref .declRef data)
        (.ref .declRef { data with referenced := some { mention with id := y } })

/-- The same tree, but that expressions may name `y` where they have named `x`. -/
inductive Renamed (x y : NodeId) : Node → Node → Prop
  | node {id : NodeId} {content content' : Content} {inner inner' : List Node} :
      Renames x y content content' → List.Forall₂ (Renamed x y) inner inner' →
      Renamed x y ⟨id, content, inner⟩ ⟨id, content', inner'⟩

namespace Renames

variable {x y : NodeId} {content content' : Content}

/-- Only expressions are renamed, so that the contents agree in all that a table looks at. -/
lemma isDecl_eq (h : Renames x y content content') : content.isDecl = content'.isDecl := by
  cases h <;> rfl

lemma decl?_eq (h : Renames x y content content') : content.decl? = content'.decl? := by
  cases h <;> rfl

lemma isTemplate_eq (h : Renames x y content content') :
    content.isTemplate = content'.isTemplate := by
  cases h <;> rfl

lemma isTemplateParm_eq (h : Renames x y content content') :
    content.isTemplateParm = content'.isTemplateParm := by
  cases h <;> rfl

/-- The two extend over the same text. -/
lemma range?_eq (h : Renames x y content content') : content.range? = content'.range? := by
  cases h <;> rfl

/-- The two make the same scope for what is below them. -/
lemma childScope_eq (h : Renames x y content content') (scope : DeclTable.Scope) (id : NodeId) :
    DeclTable.childScope scope id content = DeclTable.childScope scope id content' := by
  cases h <;> rfl

end Renames

namespace Renamed

variable {x y : NodeId} {n n' : Node} {ns ns' : List Node}

lemma id_eq (h : Renamed x y n n') : n.id = n'.id := by
  cases h
  rfl

/-- The contents of two related nodes are related. -/
lemma content (h : Renamed x y n n') : Renames x y n.content n'.content := by
  cases h with
  | node hcontent _ => exact hcontent

lemma inner (h : Renamed x y n n') : List.Forall₂ (Renamed x y) n.inner n'.inner := by
  cases h with
  | node _ hinner => exact hinner

/-- Nothing need be renamed. -/
lemma refl (x y : NodeId) (n : Node) : Renamed x y n n := by
  induction n using Node.induction with
  | h n ih =>
      obtain ⟨id, content, inner⟩ := n
      exact .node (.same content) (List.forall₂_same.mpr ih)

/-- A body stays a body. -/
lemma isBody_eq (h : Renamed x y n n') : n.isBody = n'.isBody := by
  have hcontent := h.content
  rw [Node.isBody, Node.isBody]
  generalize n.content = content, n'.content = content' at hcontent
  cases hcontent <;> rfl

/-- What is told of nodes by their contents is told of the renamed ones. -/
lemma any_eq (h : List.Forall₂ (Renamed x y) ns ns') {p : Node → Bool}
    (hp : ∀ {n n'}, Renamed x y n n' → p n = p n') : ns.any p = ns'.any p := by
  induction h with
  | nil => rfl
  | cons hn _ ih => rw [List.any_cons, List.any_cons, hp hn, ih]

/-- A search that makes no difference between related nodes ends at the same index. -/
lemma findIdx?_eq (h : List.Forall₂ (Renamed x y) ns ns') {p : Node → Bool}
    (hp : ∀ {n n'}, Renamed x y n n' → p n = p n') : ns.findIdx? p = ns'.findIdx? p := by
  induction h with
  | nil => rfl
  | cons hn _ ih => rw [List.findIdx?_cons, List.findIdx?_cons, hp hn, ih]

/-- The pattern of a template stands at the same place. -/
lemma patternIndex?_eq (h : Renamed x y n n') : n.patternIndex? = n'.patternIndex? := by
  rw [Node.patternIndex?, Node.patternIndex?]
  refine findIdx?_eq h.inner fun hc => ?_
  rw [hc.content.isDecl_eq, hc.content.isTemplateParm_eq]

end Renamed

namespace DeclTable

variable {x y : NodeId} {n n' : Node} {ns ns' : List Node}

/-- What defines a declaration does not depend on names in expressions. -/
lemma defines_renamed (inRecord : Bool) (kind : DeclKind) (data : DeclData)
    (h : List.Forall₂ (Renamed x y) ns ns') :
    defines inRecord kind data ns = defines inRecord kind data ns' := by
  have hbody : ns.any Node.isBody = ns'.any Node.isBody :=
    Renamed.any_eq h fun hc => hc.isBody_eq
  have hconstant : (ns.any fun c => (c.content.decl?.map (·.1)) == some .enumConstant) =
      ns'.any fun c => (c.content.decl?.map (·.1)) == some .enumConstant :=
    Renamed.any_eq h fun hc => by rw [hc.content.decl?_eq]
  rw [defines, defines, hbody, hconstant]

lemma recordNode_renamed (t : DeclTable) (names : FileNames) (scope : Scope)
    (h : Renamed x y n n') :
    t.recordNode names scope n.id n.content n.inner =
      t.recordNode names scope n'.id n'.content n'.inner := by
  cases h with
  | @node id content content' inner inner' hcontent hinner =>
      cases hcontent with
      | same =>
          cases content with
          | decl kind data =>
              dsimp only [recordNode]
              rw [describe, describe, defines_renamed _ _ _ hinner]
          | _ => rfl
      | named => rfl

lemma map_id_renamed (h : List.Forall₂ (Renamed x y) ns ns') :
    ns.map (·.id) = ns'.map (·.id) := by
  induction h with
  | nil => rfl
  | cons hn _ ih => rw [List.map_cons, List.map_cons, hn.id_eq, ih]

/-- Of the pattern of a template only the id matters. -/
lemma closeNode_renamed (t : DeclTable) (id : NodeId) (index? : Option Nat)
    (h : List.Forall₂ (Renamed x y) ns ns') :
    t.closeNode id (index?.bind (ns[·]?)) = t.closeNode id (index?.bind (ns'[·]?)) := by
  cases index? with
  | none => rfl
  | some i =>
      have hid : (ns[i]?).map (·.id) = (ns'[i]?).map (·.id) := by
        rw [← List.getElem?_map, ← List.getElem?_map, map_id_renamed h]
      rw [Option.bind_some, Option.bind_some]
      cases hn : ns[i]? with
      | none =>
          rw [hn, Option.map_none, eq_comm, Option.map_eq_none_iff] at hid
          rw [hid]
      | some n =>
          rw [hn, Option.map_some, eq_comm, Option.map_eq_some_iff] at hid
          obtain ⟨n', hn', hid⟩ := hid
          rw [hn', closeNode, closeNode, hid]

lemma collectAll_renamed (names : FileNames) (scope : Scope) (pattern? : Option Nat) (index : Nat)
    (t : DeclTable) (h : List.Forall₂ (Renamed x y) ns ns')
    (hcollect : ∀ c ∈ ns, ∀ {c'} scope t, Renamed x y c c' →
      collect names scope t c = collect names scope t c') :
    collectAll names scope pattern? index t ns = collectAll names scope pattern? index t ns' := by
  induction h generalizing index t with
  | nil => rfl
  | cons hn _ ih =>
      obtain ⟨hfirst, hrest⟩ := List.forall_mem_cons.mp hcollect
      rw [collectAll, collectAll, hn.content.isDecl_eq, hfirst _ _ hn]
      exact ih (index + 1) _ hrest

/-- Two related trees are collected alike. -/
lemma collect_renamed (names : FileNames) (scope : Scope) (t : DeclTable) (h : Renamed x y n n') :
    collect names scope t n = collect names scope t n' := by
  induction n using Node.induction generalizing n' scope t with
  | h n ih =>
      have hpattern := h.patternIndex?_eq
      have hrecord := recordNode_renamed t names scope h
      have hall (scope : Scope) (pattern? : Option Nat) (t : DeclTable) :=
        collectAll_renamed names scope pattern? 0 t h.inner fun c hc c' scope t => ih c hc scope t
      obtain ⟨id, content, inner⟩ := n
      obtain ⟨id', content', inner'⟩ := n'
      obtain rfl : id = id' := h.id_eq
      have hcontent : Renames x y content content' := h.content
      dsimp only at hpattern hrecord hall
      rw [collect, collect, hcontent.isTemplate_eq, hcontent.childScope_eq, hpattern, hrecord, hall]
      exact closeNode_renamed _ _ _ h.inner

/-- The declarations of a tree do not depend on what expressions name. -/
lemma build_renamed (names : FileNames) (h : Renamed x y n n') :
    build names n = build names n' := by
  rw [build, collect_renamed names {} {} h, build]

end DeclTable

end UnitIndex
