import Mathlib.Tactic
import UnitIndex.Types.Table

/-!
Types written out.

A type in a table is a number; what it means is the tree that comes out when every number in it is
replaced by the form behind it (`TypeTable.tree`). Trees outlive the table: they are the same in
any larger table (`tree_of_extends`). In a table in which every part of a form stands in front of
it and no form stands twice (`TypeTable.Layered`), types that mean the same are the same
(`tree_injective`), and interning a form keeps it that way (`Layered.intern`). Sugar can be
stripped on either side (`tree_strip`).
-/

namespace UnitIndex

namespace TypeForm

/-- The form with its parts left out. -/
def label : TypeForm → TypeForm
  | typedef decl _ => typedef decl default
  | elaborated tag _ => elaborated tag default
  | pointer _ => pointer default
  | lvalueRef _ => lvalueRef default
  | rvalueRef _ => rvalueRef default
  | array _ size => array default size
  | specialization template spelling aliased =>
    specialization template spelling (aliased.map fun _ => default)
  | function _ _ variadic => function default [] variadic
  | form => form

/-- A form is its label and its parts. -/
lemma eq_of_label_of_parts {f g : TypeForm} (hlabel : f.label = g.label)
    (hparts : f.parts = g.parts) : f = g := by
  cases f <;> cases g <;> simp_all [label, parts]
  next template _ aliased _ _ aliased' =>
    cases aliased <;> cases aliased' <;> simp_all

end TypeForm

/-- A type that is written out, with its qualifiers. -/
inductive TypeTree where
  | node (label : TypeForm) (quals : Qualifiers) (parts : List TypeTree)

namespace TypeTree

mutual

/-- Whether two trees are the same. -/
def decEq : (a b : TypeTree) → Decidable (a = b)
  | node l q ps, node l' q' ps' =>
    have := decEqAll ps ps'
    decidable_of_iff (l = l' ∧ q = q' ∧ ps = ps') (by rw [node.injEq])

/-- Whether two lists of trees are the same. -/
def decEqAll : (as bs : List TypeTree) → Decidable (as = bs)
  | [], [] => isTrue rfl
  | [], _ :: _ => isFalse nofun
  | _ :: _, [] => isFalse nofun
  | a :: as, b :: bs =>
    have := decEq a b
    have := decEqAll as bs
    decidable_of_iff (a = b ∧ as = bs) (by rw [List.cons.injEq])

end

instance : DecidableEq TypeTree := decEq

/-- The form at the root. -/
def label : TypeTree → TypeForm
  | node label _ _ => label

/-- The qualifiers at the root. -/
def quals : TypeTree → Qualifiers
  | node _ quals _ => quals

/-- The types inside. -/
def parts : TypeTree → List TypeTree
  | node _ _ parts => parts

/-- The type with other qualifiers at its root. -/
def withQuals (quals : Qualifiers) : TypeTree → TypeTree
  | node label _ parts => node label quals parts

end TypeTree

namespace TypeTable

/-- The type written out. -/
def tree (t : TypeTable) (q : QualType) : TypeTree :=
  .node (t.form q.type).label q.quals
    ((t.form q.type).parts.map fun p =>
      if p.type < q.type then t.tree p else .node (.unresolved "") p.quals [])
termination_by q.type

/-! ### Layers -/

/-- The parts of a form stand in front of it, and `ids` tells where each form stands. -/
structure Layered (t : TypeTable) : Prop where
  parts_lt : ∀ {id : TypeId} {p : QualType}, p ∈ (t.form id).parts → p.type < id
  ids_iff : ∀ {form : TypeForm} {id : TypeId},
    t.ids[form]? = some id ↔ id < t.size ∧ t.form id = form

/-- The types of one table are types of the other. -/
structure Extends (t t' : TypeTable) : Prop where
  size_le : t.size ≤ t'.size
  form_eq : ∀ {id : TypeId}, id < t.size → t'.form id = t.form id

lemma Extends.refl (t : TypeTable) : Extends t t := ⟨le_rfl, fun _ => rfl⟩

/-- A table with the same forms is an extension. -/
lemma Extends.of_forms {t t' : TypeTable} (h : t'.forms = t.forms) : Extends t t' where
  size_le := by rw [size, size, h]
  form_eq := by
    intro id _
    rw [form, form, h]

/-- Extensions of extensions are extensions. -/
lemma Extends.trans {t t' t'' : TypeTable} (h : Extends t t') (h' : Extends t' t'') :
    Extends t t'' where
  size_le := h.size_le.trans h'.size_le
  form_eq := by
    intro id hid
    rw [h'.form_eq (hid.trans_le h.size_le), h.form_eq hid]

variable {t t' : TypeTable}

/-- The tree of a type, one level at a time. -/
lemma Layered.tree_eq (h : t.Layered) (q : QualType) :
    t.tree q =
      .node (t.form q.type).label q.quals ((t.form q.type).parts.map t.tree) := by
  rw [tree]
  congr 1
  refine List.map_congr_left fun p hp => ?_
  rw [if_pos (h.parts_lt hp)]

/-- What a type means does not depend on the types that are added behind it. -/
lemma tree_of_extends (hext : Extends t t') {q : QualType} (hq : q.type < t.size) :
    t'.tree q = t.tree q := by
  induction hn : q.type using Nat.strongRecOn generalizing q with
  | _ n ih =>
      subst hn
      rw [tree, tree, hext.form_eq hq]
      congr 1
      refine List.map_congr_left fun p _ => ?_
      by_cases hp : p.type < q.type
      · rw [if_pos hp, if_pos hp]
        exact ih p.type hp (hp.trans hq) rfl
      · rw [if_neg hp, if_neg hp]

/-- A function that tells some elements apart tells lists of them apart. -/
lemma eq_of_map_eq {α β : Type} {f : α → β} {xs ys : List α}
    (h : ∀ x ∈ xs, ∀ y ∈ ys, f x = f y → x = y) (heq : xs.map f = ys.map f) : xs = ys := by
  induction xs generalizing ys with
  | nil =>
      rw [List.map_nil] at heq
      exact (List.map_eq_nil_iff.mp heq.symm).symm
  | cons x xs ih =>
      cases ys with
      | nil => exact absurd heq (by simp)
      | cons y ys =>
          rw [List.map_cons, List.map_cons] at heq
          obtain ⟨hhead, htail⟩ := List.cons.inj heq
          rw [h x List.mem_cons_self y List.mem_cons_self hhead, ih _ htail]
          intro a ha b hb
          exact h a (List.mem_cons_of_mem _ ha) b (List.mem_cons_of_mem _ hb)

/-- Types with one meaning are one type. -/
lemma tree_injective (h : t.Layered) {q r : QualType} (hq : q.type < t.size)
    (hr : r.type < t.size) (heq : t.tree q = t.tree r) : q = r := by
  induction hn : q.type using Nat.strongRecOn generalizing q r with
  | _ n ih =>
      subst hn
      rw [h.tree_eq q, h.tree_eq r, TypeTree.node.injEq] at heq
      obtain ⟨hlabel, hquals, hmap⟩ := heq
      have hparts : (t.form q.type).parts = (t.form r.type).parts := by
        refine eq_of_map_eq (fun p hp p' hp' hpp => ?_) hmap
        have hlt := h.parts_lt hp
        exact ih p.type hlt (hlt.trans hq) ((h.parts_lt hp').trans hr) hpp rfl
      have hform := TypeForm.eq_of_label_of_parts hlabel hparts
      have hid := h.ids_iff.mpr ⟨hr, hform.symm⟩
      rw [h.ids_iff.mpr ⟨hq, rfl⟩] at hid
      cases q
      cases r
      simp_all

/-! ### Interning -/

/-- The fields of a table that are no types. -/
def SameCaches (t t' : TypeTable) : Prop :=
  t'.written = t.written ∧ t'.canonicals = t.canonicals ∧ t'.expanding = t.expanding

/-- A new form stands behind the others. -/
lemma form_push (t : TypeTable) (form : TypeForm) (id : TypeId) :
    (t.forms.push form).getD id (.unresolved "") =
      if id = t.size then form else t.form id := by
  rw [TypeTable.form, size, Array.getD_eq_getD_getElem?, Array.getD_eq_getD_getElem?,
    Array.getElem?_push]
  split <;> rfl

/-- What there is when a form has been interned. -/
structure Interned (t : TypeTable) (form : TypeForm) (r : TypeId × TypeTable) : Prop where
  layered : r.2.Layered
  grown : Extends t r.2
  caches : SameCaches t r.2
  lt_size : r.1 < r.2.size
  form_eq : r.2.form r.1 = form

/-- A form that is new, and whose parts stand in the table, may be put behind the others. -/
lemma Layered.push (h : t.Layered) {form : TypeForm}
    (hparts : ∀ p ∈ form.parts, p.type < t.size) (hnew : t.ids[form]? = none) :
    Layered { t with forms := t.forms.push form, ids := t.ids.insert form t.size } where
  parts_lt := by
    intro id p hp
    rw [TypeTable.form, form_push] at hp
    split at hp
    · next hid =>
        rw [hid]
        exact hparts p hp
    · exact h.parts_lt hp
  ids_iff := by
    intro form' id
    have hsize : (t.forms.push form).size = t.size + 1 := Array.size_push form
    show (t.ids.insert form t.size)[form']? = some id ↔
      id < (t.forms.push form).size ∧ (t.forms.push form).getD id (.unresolved "") = form'
    rw [Std.HashMap.getElem?_insert, hsize, form_push]
    -- the new form has the new id, and all others keep theirs
    by_cases hform : form = form'
    · subst hform
      rw [if_pos (by simp)]
      constructor
      · rintro hid
        obtain rfl := Option.some.inj hid
        simp
      · rintro ⟨hlt, heq⟩
        split at heq
        · next hid => rw [hid]
        · next hid =>
            have hold := h.ids_iff.mpr ⟨lt_of_le_of_ne (Nat.lt_succ_iff.mp hlt) hid, heq⟩
            rw [hnew] at hold
            exact absurd hold (by simp)
    · rw [if_neg (by simpa using hform), h.ids_iff]
      constructor
      · rintro ⟨hlt, heq⟩
        rw [if_neg hlt.ne]
        exact ⟨hlt.trans (Nat.lt_succ_self _), heq⟩
      · rintro ⟨hlt, heq⟩
        split at heq
        · exact absurd heq hform
        · next hid => exact ⟨lt_of_le_of_ne (Nat.lt_succ_iff.mp hlt) hid, heq⟩

/-- Interning finds the form, or adds it behind the others. -/
lemma Layered.intern (h : t.Layered) {form : TypeForm}
    (hparts : ∀ p ∈ form.parts, p.type < t.size) : Interned t form (intern form t) := by
  rw [TypeTable.intern]
  split
  · next id hid =>
      obtain ⟨hlt, heq⟩ := h.ids_iff.mp hid
      exact ⟨h, .refl t, ⟨rfl, rfl, rfl⟩, hlt, heq⟩
  · next hnew =>
      -- the form is not known: it goes behind the others, which stay
      refine ⟨h.push hparts hnew, ⟨?_, ?_⟩, ⟨rfl, rfl, rfl⟩, ?_, ?_⟩
      · show t.forms.size ≤ (t.forms.push form).size
        rw [Array.size_push]
        exact Nat.le_succ _
      · intro id hid
        show (t.forms.push form).getD id (.unresolved "") = t.form id
        rw [form_push, if_neg hid.ne]
      · show t.forms.size < (t.forms.push form).size
        rw [Array.size_push]
        exact Nat.lt_succ_self _
      · show (t.forms.push form).getD t.size (.unresolved "") = form
        rw [form_push, if_pos rfl]

/-- An interned form means what its parts have meant before. -/
lemma Interned.tree_eq {form : TypeForm} {r : TypeId × TypeTable} (h : Interned t form r)
    (hparts : ∀ p ∈ form.parts, p.type < t.size) (quals : Qualifiers) :
    r.2.tree ⟨r.1, quals⟩ = .node form.label quals (form.parts.map t.tree) := by
  rw [h.layered.tree_eq, h.form_eq]
  congr 1
  exact List.map_congr_left fun p hp => tree_of_extends h.grown (hparts p hp)

end TypeTable

/-! ### Sugar -/

namespace TypeTree

/-- The tree with one layer of sugar removed; qualifiers of the layer stay. -/
def desugar (tree : TypeTree) : TypeTree :=
  if tree.label.sugar?.isSome then
    (tree.parts.head?.map fun inner => inner.withQuals (inner.quals.union tree.quals)).getD tree
  else tree

/-- The tree with at most so many layers of sugar removed. -/
def stripWithin : Nat → TypeTree → TypeTree
  | 0, tree => tree
  | layers + 1, tree =>
    if tree.label.sugar?.isSome then stripWithin layers tree.desugar else tree

/-- The tree with all its outer sugar removed. -/
def strip (tree : TypeTree) : TypeTree := tree.stripWithin TypeTable.maxSugar

end TypeTree

namespace TypeForm

/-- Sugar is told by the label. -/
lemma isSome_sugar?_label (form : TypeForm) : form.label.sugar?.isSome = form.sugar?.isSome := by
  cases form <;> simp [label, sugar?]

/-- Sugar has one part, what it is sugar for. -/
lemma parts_of_sugar? {form : TypeForm} {inner : QualType} (h : form.sugar? = some inner) :
    form.parts = [inner] := by
  cases form <;> simp_all [parts, sugar?]

end TypeForm

namespace TypeTable

variable {t : TypeTable}

/-- The label of a tree is that of the form. -/
@[simp] lemma label_tree (h : t.Layered) (q : QualType) :
    (t.tree q).label = (t.form q.type).label := by
  rw [h.tree_eq]
  rfl

/-- The parts of a tree are the trees of the parts. -/
lemma parts_tree (h : t.Layered) (q : QualType) :
    (t.tree q).parts = (t.form q.type).parts.map t.tree := by
  rw [h.tree_eq]
  rfl

@[simp] lemma quals_tree (t : TypeTable) (q : QualType) : (t.tree q).quals = q.quals := by
  rw [tree]
  rfl

/-- Other qualifiers on a type are other qualifiers on its tree. -/
lemma tree_withQuals (t : TypeTable) (q : QualType) (quals : Qualifiers) :
    (t.tree q).withQuals quals = t.tree ⟨q.type, quals⟩ := by
  rw [tree, tree]
  rfl

/-- To remove a layer of sugar from a type is to remove it from the tree. -/
lemma tree_desugar (h : t.Layered) (q : QualType) :
    t.tree (t.desugar q) = (t.tree q).desugar := by
  rw [TypeTree.desugar, label_tree h, TypeForm.isSome_sugar?_label, parts_tree h, desugar]
  cases hsugar : (t.form q.type).sugar? with
  | none => rfl
  | some inner =>
      rw [TypeForm.parts_of_sugar? hsugar]
      show _ = (t.tree inner).withQuals ((t.tree inner).quals.union (t.tree q).quals)
      rw [tree_withQuals, quals_tree, quals_tree]

lemma tree_stripWithin (h : t.Layered) (layers : Nat) (q : QualType) :
    t.tree (t.stripWithin layers q) = (t.tree q).stripWithin layers := by
  induction layers generalizing q with
  | zero => rfl
  | succ layers ih =>
      rw [stripWithin, TypeTree.stripWithin, label_tree h, TypeForm.isSome_sugar?_label]
      split
      · rw [ih, tree_desugar h]
      · rfl

/-- Sugar is stripped alike from a type and from what it means. -/
lemma tree_strip (h : t.Layered) (q : QualType) : t.tree (t.strip q) = (t.tree q).strip :=
  tree_stripWithin h maxSugar q

/-- Below a layer of sugar there is a type of the table. -/
lemma desugar_lt (h : t.Layered) {q : QualType} (hq : q.type < t.size) :
    (t.desugar q).type < t.size := by
  rw [desugar]
  split
  · next inner hsugar =>
      have hmem : inner ∈ (t.form q.type).parts := by
        rw [TypeForm.parts_of_sugar? hsugar]
        exact List.mem_singleton_self inner
      exact (h.parts_lt hmem).trans hq
  · exact hq

lemma strip_lt (h : t.Layered) {q : QualType} (hq : q.type < t.size) :
    (t.strip q).type < t.size := by
  have hwithin (layers : Nat) (q : QualType) (hq : q.type < t.size) :
      (t.stripWithin layers q).type < t.size := by
    induction layers generalizing q with
    | zero => exact hq
    | succ layers ih =>
        rw [stripWithin]
        split
        · exact ih _ (desugar_lt h hq)
        · exact hq
  exact hwithin maxSugar q hq

end TypeTable

end UnitIndex
