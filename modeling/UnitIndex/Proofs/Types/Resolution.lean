import Mathlib.Tactic
import UnitIndex.Proofs.Types.Building
import UnitIndex.Types.Resolve

/-!
Resolving types.

The rules that lead from a type to the declaration that defines it can be followed on trees
(`TypeTree.resolveWithin`), where nothing is kept from one type to the next. A canonical type that
is nested too deep is cut off in a table; on trees there is no answer then. If there is one, it is
found from any sound table, and the table stays sound (`keeps_resolveWithin`): types of a table and
their trees are unwrapped by the same rules (`sameRule`), and have been met before in the same
places (`mem_visited`).
-/

namespace UnitIndex

namespace TypeForm

/-- What the rules ask of a form, its label tells. -/
lemma isPointer_label (form : TypeForm) : form.label.isPointer = form.isPointer := by
  cases form <;> rfl

lemma isReference_label (form : TypeForm) : form.label.isReference = form.isReference := by
  cases form <;> rfl

lemma structure?_label (form : TypeForm) : form.label.structure? = form.structure? := by
  cases form <;> rfl

lemma union?_label (form : TypeForm) : form.label.union? = form.union? := by
  cases form <;> rfl

lemma template?_label (form : TypeForm) : form.label.template? = form.template? := by
  cases form <;> rfl

/-- Behind pointers and references there is their part. -/
lemma pointee?_eq (form : TypeForm) :
    form.pointee? = if form.isPointer || form.isReference then form.parts.head? else none := by
  cases form <;> rfl

lemma referenced?_eq (form : TypeForm) :
    form.referenced? = if form.isReference then form.parts.head? else none := by
  cases form <;> rfl

lemma cxxRecord?_label (form : TypeForm) : form.label.cxxRecord? = form.cxxRecord? := by
  cases form <;> rfl

end TypeForm

namespace TypeTree

open TypeTable (Rule Unwrapped maxSugar)

/-- What a reference refers to; any other type stands for itself. -/
def nonReference (tree : TypeTree) : TypeTree :=
  if tree.strip.label.isReference then tree.strip.parts.head?.getD tree else tree

/-- What a pointer or reference leads to. -/
def pointee? (tree : TypeTree) : Option TypeTree :=
  if tree.strip.label.isPointer || tree.strip.label.isReference then tree.strip.parts.head?
  else none

/-- The declaration that the type stands for without unwrapping. -/
def direct? (tree : TypeTree) : Option NodeId :=
  tree.strip.label.structure?.or (tree.strip.label.union?.or (tree.strip.label.cxxRecord?.or
    (tree.pointee?.bind fun p => p.strip.label.cxxRecord?)))

/-- The template that a template-id names, seen through at most so many layers of other sugar. -/
def specializationWithin : Nat → TypeTree → Option (Option NodeId)
  | 0, _ => none
  | layers + 1, tree =>
    match tree.label.template? with
    | some template => some template
    | none => if tree.label.sugar?.isSome then specializationWithin layers tree.desugar else none

/-- The first rule that applies to a type. -/
def rule (tree : TypeTree) : Rule TypeTree :=
  match tree.direct? with
  | some decl => .found (some decl)
  | none =>
    if tree.strip.label.isPointer then
      match tree.pointee? with
      | some pointee => .follow pointee
      | none => .found none
    else
      match tree.specializationWithin maxSugar with
      | some template => .found template
      | none => if tree.strip.label.isReference then .follow tree.nonReference else .bare

/-- The type without its own qualifiers. -/
def bare (tree : TypeTree) : TypeTree := tree.withQuals {}

/-- The tree with the sugar at every level removed. -/
def canonical (tree : TypeTree) : Option TypeTree := tree.canonicalWithin (maxSugar + 1)

/-- What the rules make of a type, unless a canonical type is nested too deep. -/
def unwrap (tree : TypeTree) : Option (Unwrapped TypeTree) :=
  match tree.rule with
  | .found decl => some (.found decl)
  | .follow next => next.canonical.bind fun c => some (.goOn c)
  | .bare => tree.canonical.bind fun c => some (.goOn c.bare)

/-- The declaration found in at most so many steps, from a type that is met after those in
`visited`, unless a canonical type on the way is nested too deep. -/
def resolveWithin : Nat → List TypeTree → TypeTree → Option (Option NodeId)
  | 0, _, _ => some none
  | steps + 1, visited, tree =>
    if tree.bare ∈ visited then some none
    else tree.unwrap.bind fun unwrapped =>
      match unwrapped with
      | .found decl => some decl
      | .goOn next =>
        if next.bare = tree.bare then some none
        else resolveWithin steps (tree.bare :: visited) next

end TypeTree

namespace TypeTable

variable {t : TypeTable}

/-- A type and its tree have the same core. -/
lemma core_eq (h : t.Layered) (q : QualType) : (t.tree q).strip.label = (t.core q).label := by
  rw [← tree_strip h, label_tree h, core]

lemma parts_strip (h : t.Layered) (q : QualType) :
    (t.tree q).strip.parts = (t.core q).parts.map t.tree := by
  rw [← tree_strip h, parts_tree h, core]

/-- The parts of the core stand in the table. -/
lemma core_parts_lt (h : t.Layered) {q : QualType} (hq : q.type < t.size) {p : QualType}
    (hp : p ∈ (t.core q).parts) : p.type < t.size :=
  (h.parts_lt hp).trans (strip_lt h hq)

/-- A type and its tree point to the same. -/
lemma pointee?_tree (h : t.Layered) (q : QualType) :
    (t.tree q).pointee? = (t.pointee? q).map t.tree := by
  rw [TypeTree.pointee?, core_eq h, parts_strip h, TypeForm.isPointer_label,
    TypeForm.isReference_label, pointee?, TypeForm.pointee?_eq, List.head?_map]
  split <;> rfl

/-- What a type points to stands in the table. -/
lemma pointee_lt (h : t.Layered) {q : QualType} (hq : q.type < t.size) {p : QualType}
    (hp : t.pointee? q = some p) : p.type < t.size := by
  rw [pointee?, TypeForm.pointee?_eq] at hp
  split at hp
  · exact core_parts_lt h hq (List.mem_of_mem_head? hp)
  · exact absurd hp (by simp)

/-- References are removed from both alike. -/
lemma denotes_nonReference (h : t.Layered) {q : QualType} (hq : q.type < t.size) :
    Denotes t (t.nonReference q) (t.tree q).nonReference := by
  rw [TypeTree.nonReference, core_eq h, parts_strip h, TypeForm.isReference_label, nonReference,
    TypeForm.referenced?_eq, List.head?_map]
  split
  · cases hp : (t.core q).parts.head? with
    | none => exact ⟨hq, rfl⟩
    | some p => exact ⟨core_parts_lt h hq (List.mem_of_mem_head? hp), rfl⟩
  · exact ⟨hq, rfl⟩

/-- What is found directly in a type is found in its tree. -/
lemma direct?_tree (h : t.Layered) (q : QualType) : (t.tree q).direct? = t.direct? q := by
  have hpointee : ((t.tree q).pointee?.bind fun p => p.strip.label.cxxRecord?) =
      t.pointeeCxxRecord? q := by
    rw [pointee?_tree h, pointeeCxxRecord?, Option.bind_map]
    congr 1
    funext p
    show (t.tree p).strip.label.cxxRecord? = t.cxxRecord? p
    rw [core_eq h, TypeForm.cxxRecord?_label, cxxRecord?]
  rw [TypeTree.direct?, hpointee, core_eq h, TypeForm.structure?_label, TypeForm.union?_label,
    TypeForm.cxxRecord?_label]
  rfl

/-- The template of a specialization is found in its tree. -/
lemma specializationWithin_tree (h : t.Layered) (layers : Nat) (q : QualType) :
    (t.tree q).specializationWithin layers = t.specializationWithin layers q := by
  induction layers generalizing q with
  | zero => rfl
  | succ layers ih =>
      rw [TypeTree.specializationWithin, specializationWithin, label_tree h,
        TypeForm.template?_label]
      cases (t.form q.type).template? with
      | some template => rfl
      | none =>
          dsimp only
          rw [TypeForm.isSome_sugar?_label, ← tree_desugar h, ih]

/-! ### Rules -/

/-- The rules say the same about a type and about what it means. -/
inductive SameRule (t : TypeTable) : Rule QualType → Rule TypeTree → Prop
  | found (decl : Option NodeId) : SameRule t (.found decl) (.found decl)
  | follow {q : QualType} {tree : TypeTree} : Denotes t q tree →
      SameRule t (.follow q) (.follow tree)
  | bare : SameRule t .bare .bare

/-- **The same rule applies to a type and to its tree.** -/
lemma sameRule (h : t.Layered) {q : QualType} {tree : TypeTree} (hq : Denotes t q tree) :
    SameRule t (t.rule q) tree.rule := by
  obtain ⟨hlt, rfl⟩ := hq
  rw [TypeTree.rule, rule, direct?_tree h, pointee?_tree h, core_eq h, TypeForm.isPointer_label,
    TypeForm.isReference_label, specializationWithin_tree h]
  cases t.direct? q with
  | some decl => exact .found _
  | none =>
      dsimp only
      -- the order of the rules: pointers, specializations, references
      show SameRule t (if t.isPointer q then _ else _) (if t.isPointer q then _ else _)
      split
      · cases hp : t.pointee? q with
        | none => exact .found none
        | some p => exact .follow ⟨pointee_lt h hlt hp, rfl⟩
      · show SameRule t (match t.specialization? q with
            | some template => _
            | none => _) (match t.specialization? q with
            | some template => _
            | none => _)
        cases t.specialization? q with
        | some template => exact .found template
        | none =>
            show SameRule t (if t.isReference q then _ else _) (if t.isReference q then _ else _)
            split
            · exact .follow (denotes_nonReference h hlt)
            · exact .bare

/-- What the rules make of a type, and of what it means. -/
inductive SameUnwrapped (t : TypeTable) : Unwrapped QualType → Unwrapped TypeTree → Prop
  | found (decl : Option NodeId) : SameUnwrapped t (.found decl) (.found decl)
  | goOn {q : QualType} {tree : TypeTree} : Denotes t q tree →
      SameUnwrapped t (.goOn q) (.goOn tree)

/-- Without its qualifiers a type denotes its tree without qualifiers. -/
lemma Denotes.bare {q : QualType} {tree : TypeTree} (h : Denotes t q tree) :
    Denotes t ⟨q.type, {}⟩ tree.bare := by
  refine ⟨h.1, ?_⟩
  rw [← h.2, TypeTree.bare, tree_withQuals]

/-- Two types are the same just if their trees are. -/
lemma Denotes.eq_iff (h : t.Layered) {q r : QualType} {a b : TypeTree} (hq : Denotes t q a)
    (hr : Denotes t r b) : q = r ↔ a = b := by
  rw [← hq.2, ← hr.2]
  exact ⟨fun heq => by rw [heq], tree_injective h hq.1 hr.1⟩

/-- Types are the same, up to their qualifiers, when they mean the same up to these. -/
lemma Denotes.type_eq_iff (h : t.Layered) {q r : QualType} {a b : TypeTree} (hq : Denotes t q a)
    (hr : Denotes t r b) : q.type = r.type ↔ a.bare = b.bare := by
  rw [← hq.bare.eq_iff h hr.bare, QualType.mk.injEq]
  simp

section

variable {means : WrittenType → TypeTree → Prop}

/-- **A step of the rules** comes to the same on a type and on its tree. -/
lemma keeps_unwrap {q : QualType} {tree : TypeTree} {unwrapped : Unwrapped TypeTree}
    (hq : Denotes t q tree) (h : tree.unwrap = some unwrapped) :
    Keeps means t (SameUnwrapped · · unwrapped) (unwrap q) := by
  refine .of_sound fun ht => .get ?_
  have hrule := sameRule ht.toLayered hq
  rw [TypeTree.unwrap] at h
  generalize t.rule q = rule, tree.rule = rule' at hrule h
  cases hrule with
  | found decl =>
      obtain rfl := Option.some.inj h
      exact .pure (.found decl)
  | follow hnext =>
      obtain ⟨c, hc, h⟩ := Option.bind_eq_some_iff.mp h
      obtain rfl := Option.some.inj h
      exact Keeps.bind (keeps_canonicalWithin _ hnext hc) fun t' r _ _ hr => .pure (.goOn hr)
  | bare =>
      obtain ⟨c, hc, h⟩ := Option.bind_eq_some_iff.mp h
      obtain rfl := Option.some.inj h
      show Keeps means t _ (canonicalUnqualified q >>= _)
      rw [canonicalUnqualified, bind_assoc]
      refine Keeps.bind (keeps_canonicalWithin _ hq hc) fun t' r _ _ hr => ?_
      rw [pure_bind]
      exact .pure (.goOn hr.bare)

/-- A type has been visited just if its tree has. -/
lemma mem_visited (h : t.Layered) {q : QualType} {tree : TypeTree} (hq : Denotes t q tree)
    {visited : List TypeId} {trees : List TypeTree}
    (hvisited : DenotesAll t (visited.map (⟨·, {}⟩)) trees) :
    q.type ∈ visited ↔ tree.bare ∈ trees := by
  obtain ⟨hlt, rfl⟩ := hvisited
  rw [List.map_map, List.mem_map]
  constructor
  · intro hmem
    exact ⟨q.type, hmem, hq.bare.2⟩
  · rintro ⟨id, hmem, heq⟩
    have hid : Denotes t ⟨id, {}⟩ (t.tree ⟨id, {}⟩) := ⟨hlt _ (List.mem_map_of_mem hmem), rfl⟩
    have htype := (hid.eq_iff h hq.bare).mpr heq
    rw [QualType.mk.injEq] at htype
    rw [← htype.1]
    exact hmem

/-- The rules are followed alike on types and on trees. -/
lemma keeps_resolveWithin (steps : Nat) {q : QualType} {tree : TypeTree} (hq : Denotes t q tree)
    {visited : List TypeId} {trees : List TypeTree}
    (hvisited : DenotesAll t (visited.map (⟨·, {}⟩)) trees) {found : Option NodeId}
    (h : tree.resolveWithin steps trees = some found) :
    Keeps means t (fun _ answer => answer = found) (resolveWithin steps visited q) := by
  induction steps generalizing t q tree visited trees with
  | zero => exact .pure (Option.some.inj h)
  | succ steps ih =>
      refine .of_sound fun ht => ?_
      have hmem := mem_visited ht.toLayered hq hvisited
      rw [TypeTree.resolveWithin] at h
      rw [resolveWithin]
      split at h
      · next hmet =>
          rw [if_pos (hmem.mpr hmet)]
          exact .pure (Option.some.inj h)
      · next hnew =>
          rw [if_neg (mt hmem.mp hnew)]
          obtain ⟨unwrapped, hunwrap, h⟩ := Option.bind_eq_some_iff.mp h
          refine Keeps.bind (keeps_unwrap hq hunwrap) fun t' _ hext _ hsame => ?_
          refine .of_sound fun ht' => ?_
          cases hsame with
          | found decl => exact .pure (Option.some.inj h)
          | @goOn next tree' hnext =>
              have hq' := hq.mono hext
              -- the rules end where a step leads to the type itself
              have hstays := hnext.type_eq_iff ht'.toLayered hq'
              dsimp only at h ⊢
              split at h
              · next heq =>
                  rw [if_pos (hstays.mpr heq)]
                  exact .pure (Option.some.inj h)
              · next hne =>
                  rw [if_neg (mt hstays.mp hne)]
                  refine ih hnext ?_ h
                  rw [List.map_cons]
                  exact denotesAll_cons.mpr ⟨hq'.bare, hvisited.mono hext⟩

end

end TypeTable

end UnitIndex
