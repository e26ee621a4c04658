import Mathlib.Tactic
import UnitIndex.Proofs.Decl.Naming

/-!
What a table says about the declarations of its tree.

Every declaration node says of what kind its declaration is, what it is called, where it belongs,
of what type it is and where it stands (`Node.descriptions`). A dump may list a declaration more
than once, often as a bare reference behind the full node. The table hears the nodes in tree order:
one without a position never replaces what was said with one (`heard`), and so the last node with a
position prevails, and the last node at all if none has one (`foldl_heard`). Where the declaration
first stands in the tree decides only its place in the order of the table (`noted_nil`).
-/

namespace UnitIndex

/-- What a node says about the declaration that it lists. -/
structure Description where
  kind : DeclKind
  name : Option String
  /-- The semantic parent. -/
  parent : Option NodeId
  type : Option WrittenType
  location : Option FileLocation

namespace Description

/-- Whether the position is known. -/
def isLocated (s : Description) : Bool := s.location.isSome

/-- The last description with a position, and if none has one, the last one. -/
def prevailing (said : List Description) : Option Description :=
  (said.reverse.find? isLocated).or said.getLast?

/-- What is known of a declaration once it is listed again: a node without a position says nothing
new about one that has a position. -/
def heard (known : Option Description) (s : Description) : Option Description :=
  if !s.isLocated && known.any isLocated then known else some s

/-- One more statement is heard, and what prevails is what prevailed or the new one. -/
lemma prevailing_concat (said : List Description) (s : Description) :
    prevailing (said ++ [s]) = heard (prevailing said) s := by
  rw [heard, prevailing, List.reverse_concat, List.find?_cons, List.getLast?_concat]
  -- the last statement prevails if it has a position, or if none in front of it has one
  cases hs : s.isLocated with
  | true => rfl
  | false =>
      dsimp only
      rw [prevailing]
      cases hfind : said.reverse.find? isLocated with
      | some last =>
          have hlast : last.isLocated := List.find?_some hfind
          simp [hlast]
      | none =>
          have hnone : said.getLast?.any isLocated = false := by
            rw [Option.any_eq_false]
            intro last hlast
            have hmem := List.mem_reverse.mpr (List.mem_of_getLast? hlast)
            simpa using List.find?_eq_none.mp hfind last hmem
          simp [hnone]

/-- What is known in the end is what prevails. -/
lemma foldl_heard (said : List Description) : said.foldl heard none = prevailing said := by
  induction said using List.reverseRecOn with
  | nil => rfl
  | append_singleton said s ih => rw [List.foldl_append, ih, prevailing_concat]; rfl

lemma prevailing_singleton (s : Description) : prevailing [s] = some s := by
  rw [← List.nil_append [s], prevailing_concat, heard]
  simp [prevailing]

/-- A description with a position is not hidden by those without one. -/
lemma isLocated_prevailing {said : List Description} {s : Description} (hs : s ∈ said)
    (hlocated : s.isLocated) : ∃ last, prevailing said = some last ∧ last.isLocated := by
  have hfind : (said.reverse.find? isLocated).isSome :=
    List.find?_isSome.mpr ⟨s, List.mem_reverse.mpr hs, hlocated⟩
  obtain ⟨last, hlast⟩ := Option.isSome_iff_exists.mp hfind
  exact ⟨last, by rw [prevailing, hlast, Option.some_or], List.find?_some hlast⟩

end Description

/-- What an entry says that one node alone decides. -/
def DeclInfo.description (d : DeclInfo) : Description :=
  ⟨d.kind, d.name, d.parent, d.type, d.location⟩

/-- What a node below that declaration says, if it is a declaration itself. -/
def Content.description? (names : FileNames) (parent : Option NodeId) (content : Content) :
    Option Description :=
  content.decl?.map fun (kind, data) =>
    ⟨kind, data.name?, data.parentContext.or parent, data.type, data.loc.bind names.resolve?⟩

/-- The declaration below which the children of a node stand. -/
def Content.enclosing (parent : Option NodeId) (id : NodeId) (content : Content) : Option NodeId :=
  if content.decl?.isSome then some id else parent

namespace Node

variable (names : FileNames)

mutual

/-- What the declaration nodes of a tree say, each with its id, in tree order. -/
def descriptions (parent : Option NodeId) : Node → List (NodeId × Description)
  | ⟨id, content, inner⟩ =>
    ((content.description? names parent).map (id, ·)).toList ++
      descriptionsAll (content.enclosing parent id) inner

/-- What the declaration nodes of a list of trees say. -/
def descriptionsAll (parent : Option NodeId) : List Node → List (NodeId × Description)
  | [] => []
  | n :: ns => descriptions parent n ++ descriptionsAll parent ns

end

mutual

/-- What is said is said of the declaration nodes, in tree order. -/
lemma ids_descriptions (parent : Option NodeId) :
    ∀ n : Node, (n.descriptions names parent).map Prod.fst = n.declIds
  | ⟨id, content, inner⟩ => by
      rw [descriptions, List.map_append, ids_descriptionsAll _ inner, declIds_mk,
        Content.description?]
      cases content.decl? <;> rfl

lemma ids_descriptionsAll (parent : Option NodeId) :
    ∀ ns : List Node, (descriptionsAll names parent ns).map Prod.fst = ns.flatMap declIds
  | [] => rfl
  | n :: ns => by
      rw [descriptionsAll, List.map_append, ids_descriptions _ n, ids_descriptionsAll _ ns,
        List.flatMap_cons]

end

end Node

/-- What is said about the declaration of that id. -/
def saidOf (id : NodeId) (said : List (NodeId × Description)) : List Description :=
  (said.filter (·.1 == id)).map Prod.snd

lemma saidOf_append (id : NodeId) (said said' : List (NodeId × Description)) :
    saidOf id (said ++ said') = saidOf id said ++ saidOf id said' := by
  rw [saidOf, List.filter_append, List.map_append]
  rfl

/-- Where each id has one description, that is all that is said. -/
lemma saidOf_eq_singleton {said : List (NodeId × Description)} (hids : (said.map Prod.fst).Nodup)
    {id : NodeId} {s : Description} (hs : (id, s) ∈ said) : saidOf id said = [s] := by
  obtain ⟨before, behind, rfl⟩ := List.append_of_mem hs
  rw [List.map_append, List.map_cons, List.nodup_middle, List.nodup_cons, ← List.map_append] at hids
  have hother : ∀ x ∈ before ++ behind, ¬(x.1 == id) := by
    intro x hx hid
    exact hids.1 (List.mem_map.mpr ⟨x, hx, beq_iff_eq.mp hid⟩)
  obtain ⟨hbefore, hbehind⟩ := List.forall_mem_append.mp hother
  rw [saidOf, List.filter_append, List.filter_eq_nil_iff.mpr hbefore,
    List.filter_cons_of_pos (by exact beq_self_eq_true id), List.filter_eq_nil_iff.mpr hbehind]
  rfl

namespace DeclTable

/-- What the table says about the declaration of that id. -/
def described (t : DeclTable) (id : NodeId) : Option Description :=
  (t.get? id).map DeclInfo.description

/-- A table hears what is recorded of a declaration, and nothing else changes. -/
lemma described_record (t : DeclTable) (info : DeclInfo) (id : NodeId) :
    (t.record info).described id =
      if info.id = id then Description.heard (t.described id) info.description
      else t.described id := by
  split
  · next hid =>
    subst hid
    rw [described, record, described]
    cases h : t.get? info.id with
    | none => simp [get?, Description.heard]
    | some known =>
        -- a known entry gives way unless it alone has a position
        have hlocated (d : DeclInfo) : d.description.isLocated = d.location.isSome := rfl
        rw [Option.map_some, Description.heard, Option.any_some, hlocated, hlocated,
          Option.not_isSome]
        dsimp only
        split
        · rw [h, Option.map_some]
        · simp [get?]
  · next hid =>
    rcases get?_record t info id with h | ⟨hself, -⟩
    · rw [described, h, described]
    · exact absurd hself.symm hid

/-- What is found out later is not about what a declaration says. -/
lemma described_update (t : DeclTable) (id k : NodeId) {f : DeclInfo → DeclInfo}
    (hf : ∀ d, (f d).description = d.description) :
    (t.update id f).described k = t.described k := by
  rw [described, get?_update, described]
  split
  · rw [Option.map_map]
    exact congrArg (Option.map · _) (funext hf)
  · rfl

lemma described_closeNode (t : DeclTable) (id k : NodeId) (pattern? : Option Node) :
    (t.closeNode id pattern?).described k = t.described k := by
  cases pattern? with
  | none => rfl
  | some pattern => exact described_update t id k fun _ => rfl

/-- Of a node the table hears what it says, if it is a declaration. -/
lemma described_recordNode (names : FileNames) (scope : Scope) (t : DeclTable) (id k : NodeId)
    (content : Content) (inner : List Node) :
    (t.recordNode names scope id content inner).described k =
      (saidOf k ((content.description? names scope.parent).map (id, ·)).toList).foldl
        Description.heard (t.described k) := by
  cases content with
  | decl kind data =>
      rw [recordNode, described_record]
      by_cases hid : id = k
      · simp [hid, saidOf, Content.description?, Content.decl?, describe, DeclInfo.description]
      · simp [hid, saidOf, Content.description?, Content.decl?, describe]
  | _ => rfl

/-- The scope below a node is the one that the node makes, or else the one around it. -/
lemma parent_childScope (scope : Scope) (id : NodeId) (content : Content) :
    (childScope scope id content).parent = content.enclosing scope.parent id := by
  cases content with
  | other kind loc range =>
      dsimp only [childScope]
      split <;> rfl
  | _ => rfl

mutual

/-- While a tree is read, the table hears what the nodes of a declaration say. -/
lemma described_collect (names : FileNames) (scope : Scope) (t : DeclTable) (k : NodeId) :
    ∀ n : Node, (collect names scope t n).described k =
      (saidOf k (n.descriptions names scope.parent)).foldl Description.heard (t.described k)
  | ⟨id, content, inner⟩ => by
      rw [collect, described_closeNode, described_collectAll names _ _ 0 _ k inner,
        described_recordNode, parent_childScope, Node.descriptions, saidOf_append,
        List.foldl_append]

lemma described_collectAll (names : FileNames) (scope : Scope) (pattern? : Option Nat)
    (index : Nat) (t : DeclTable) (k : NodeId) :
    ∀ ns : List Node, (collectAll names scope pattern? index t ns).described k =
      (saidOf k (Node.descriptionsAll names scope.parent ns)).foldl Description.heard
        (t.described k)
  | [] => by
      rw [collectAll, Node.descriptionsAll]
      rfl
  | child :: rest => by
      rw [collectAll, described_collectAll names scope pattern? (index + 1) _ k rest,
        described_collect names _ t k child, Node.descriptionsAll, saidOf_append,
        List.foldl_append]

end

lemma described_unlinked (names : FileNames) (root : Node) (id : NodeId) :
    (unlinked names root).described id = (collect names {} {} root).described id := by
  rw [described, unlinked, get?_nameAll (consistent_collect names root), Option.map_map]
  rfl

/-- A table says about a declaration what prevails among what its nodes say. -/
lemma described_build (names : FileNames) (root : Node) (id : NodeId) :
    (build names root).described id =
      Description.prevailing (saidOf id (root.descriptions names none)) := by
  have hlinked : (build names root).described id = (unlinked names root).described id := by
    rw [described, described]
    rcases relinked_build names root id with heq | ⟨d, hd, heq⟩
    · rw [heq]
    · rw [hd, heq]
      rfl
  have hempty : ({} : DeclTable).described id = none := by simp [described, get?]
  rw [hlinked, described_unlinked, described_collect, hempty, Description.foldl_heard]

/-! ### The order of a table -/

/-- The order of a table is that in which the ids first occur in the tree. -/
lemma order_build (names : FileNames) (root : Node) :
    (build names root).order.toList = root.declIds.eraseDups := by
  rw [(listsNames_build names root).order, linked, order_linkVariables, order_collect_build,
    noted_nil]

/-- The declarations of a table stand in its order. -/
lemma Consistent.map_id_toList {t : DeclTable} (ht : Consistent t) :
    t.toList.map (·.id) = t.order.toList := by
  have hself : ∀ id ∈ t.order.toList, (t.get? id).map (·.id) = some id := by
    intro id hid
    obtain ⟨d, hd⟩ := Option.isSome_iff_exists.mp (ht.mem_order.mp hid)
    rw [hd, Option.map_some, ht.id_eq hd]
  rw [toList, List.map_filterMap, List.filterMap_congr hself, List.filterMap_some]

/-- **The contents of a table**, in whatever way its tree repeats ids: the table lists the ids of
the declaration nodes, each once and in the order of their first nodes, and they are its keys. Its
entry for an id has the kind, the name, the semantic parent, the type and the position that the last
of the nodes with a position says, or, if none of them has one, the last of them all. So a bare node
never hides a node with a position, wherever it stands. -/
theorem build_contents (names : FileNames) (root : Node) :
    let t := build names root
    let said := root.descriptions names none
    said.map Prod.fst = root.declIds ∧
    t.order.toList = root.declIds.eraseDups ∧
    t.toList.map (·.id) = root.declIds.eraseDups ∧
    (∀ id, id ∈ t.decls ↔ id ∈ root.declIds) ∧
    (∀ id, t.described id = Description.prevailing (saidOf id said)) ∧
    ∀ id, ∀ s ∈ saidOf id said, s.location.isSome →
      ∃ d, t.get? id = some d ∧ d.location.isSome := by
  intro t said
  have horder := order_build names root
  have ht := consistent_build names root
  refine ⟨Node.ids_descriptions names none root, horder, ?_, fun id => ?_,
    described_build names root, fun id s hs hlocated => ?_⟩
  · rw [ht.map_id_toList, horder]
  · rw [← Std.HashMap.isSome_getElem?_iff_mem, ← List.mem_eraseDups, ← horder, ht.mem_order]
    rfl
  · -- with any position said, one prevails
    obtain ⟨last, hlast, hlocated⟩ := Description.isLocated_prevailing hs hlocated
    rw [← described_build] at hlast
    obtain ⟨d, hd, rfl⟩ := Option.map_eq_some_iff.mp hlast
    exact ⟨d, hd, hlocated⟩

end DeclTable

end UnitIndex
