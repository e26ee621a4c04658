import Mathlib.Tactic
import UnitIndex.Proofs.Types.Core

/-!
Types without sugar.

`TypeTree.Desugars` tells, without tables and limits, what is left of a type when the sugar at every
level is removed: sugar leaves its qualifiers to what it is sugar for, and all other forms stay as
they are, around the parts that have been desugared. What is left is free of sugar
(`Desugars.sugarFree`), there is one such tree at most (`Desugars.unique`), and one that is free of
sugar already is left as it is (`Desugars.of_sugarFree`).

A type that is nested no deeper than canonical types are built has just this as its canonical type
(`exists_canonicalWithin`), as long as nothing deeper has been asked for before (`Shallow`). The
main statement is `canonical_desugars`.
-/

namespace UnitIndex

namespace Qualifiers

/-- The order in which qualifiers are added makes no difference. -/
lemma union_comm (q r : Qualifiers) : q.union r = r.union q := by
  simp [union, Bool.or_comm]

end Qualifiers

namespace TypeTree

/-! ### Depth -/

mutual

/-- How many levels of types there are inside a type; each layer of sugar is a level. -/
def depth : TypeTree → Nat
  | node _ _ parts => depthAll parts

/-- How many levels there are in some parts of a type. -/
def depthAll : List TypeTree → Nat
  | [] => 0
  | part :: parts => max (depth part + 1) (depthAll parts)

end

/-- Parts are not nested as deep. -/
lemma depth_lt_of_mem_parts {tree part : TypeTree} (h : part ∈ tree.parts) :
    part.depth < tree.depth := by
  obtain ⟨label, quals, parts⟩ := tree
  rw [depth]
  change part ∈ parts at h
  induction parts with
  | nil => exact absurd h (by simp)
  | cons p ps ih =>
      rw [depthAll]
      rcases List.mem_cons.mp h with rfl | h
      · exact lt_max_of_lt_left (Nat.lt_succ_self _)
      · exact lt_max_of_lt_right (ih h)

@[simp] lemma depth_withQuals (tree : TypeTree) (quals : Qualifiers) :
    (tree.withQuals quals).depth = tree.depth := by
  cases tree
  rfl

/-! ### The relation -/

/-- The one tree is what is left of the other when the sugar at every level is removed. -/
inductive Desugars : TypeTree → TypeTree → Prop
  | sugar {label : TypeForm} {quals : Qualifiers} {inner tree : TypeTree} :
      label.sugar?.isSome → Desugars (inner.withQuals (inner.quals.union quals)) tree →
      Desugars (node label quals [inner]) tree
  | form {label : TypeForm} {quals : Qualifiers} {parts parts' : List TypeTree} :
      ¬label.sugar?.isSome → List.Forall₂ Desugars parts parts' →
      Desugars (node label quals parts) (node label quals parts')

/-- There is no sugar at any level. -/
inductive SugarFree : TypeTree → Prop
  | node {label : TypeForm} {quals : Qualifiers} {parts : List TypeTree} :
      ¬label.sugar?.isSome → (∀ part ∈ parts, SugarFree part) → SugarFree (node label quals parts)

mutual

/-- The qualifiers of a type and of its outermost layers of sugar, put together. -/
def outerQuals : TypeTree → Qualifiers
  | node label quals parts =>
    if label.sugar?.isSome then quals.union (outerQualsFirst parts) else quals

/-- Those of the first of some types. -/
def outerQualsFirst : List TypeTree → Qualifiers
  | [] => {}
  | inner :: _ => outerQuals inner

end

/-- Qualifiers added to a type are outer ones. -/
lemma outerQuals_withQuals (tree : TypeTree) (quals : Qualifiers) :
    (tree.withQuals (tree.quals.union quals)).outerQuals = quals.union tree.outerQuals := by
  obtain ⟨label, own, parts⟩ := tree
  rw [withQuals, TypeTree.quals, outerQuals, outerQuals, Qualifiers.union_comm own quals]
  split
  · rw [Qualifiers.union_assoc]
  · rfl

namespace Desugars

variable {a b c : TypeTree}

/-- Induction over the layers of sugar, and over the parts of what is below. -/
lemma induction {motive : (a c : TypeTree) → Desugars a c → Prop}
    (sugar : ∀ {label quals inner tree} (hlabel : label.sugar?.isSome)
      (hinner : Desugars (inner.withQuals (inner.quals.union quals)) tree),
      motive _ tree hinner → motive (node label quals [inner]) tree (.sugar hlabel hinner))
    (form : ∀ {label quals parts parts'} (hlabel : ¬label.sugar?.isSome)
      (hparts : List.Forall₂ Desugars parts parts'),
      List.Forall₂ (fun p p' => ∃ h : Desugars p p', motive p p' h) parts parts' →
      motive (node label quals parts) (node label quals parts') (.form hlabel hparts))
    {a c : TypeTree} (h : Desugars a c) : motive a c h :=
  @Desugars.rec motive
    (fun as cs _ => List.Forall₂ (fun p p' => ∃ h : Desugars p p', motive p p' h) as cs)
    sugar form .nil (fun hpart _ ih ihs => .cons ⟨hpart, ih⟩ ihs) a c h

/-- What is left is free of sugar. -/
lemma sugarFree (h : Desugars a c) : SugarFree c := by
  induction h using induction with
  | sugar _ _ ih => exact ih
  | form hlabel hparts ih =>
      refine .node hlabel ?_
      clear hparts
      induction ih with
      | nil => simp
      | cons hpart _ ihs =>
          obtain ⟨_, hfree⟩ := hpart
          exact List.forall_mem_cons.mpr ⟨hfree, ihs⟩

/-- The qualifiers are those of the type and of the sugar removed at its root. -/
lemma quals_eq (h : Desugars a c) : c.quals = a.outerQuals := by
  induction h using induction with
  | sugar hlabel _ ih => rw [ih, outerQuals_withQuals, outerQuals, if_pos hlabel, outerQualsFirst]
  | form hlabel _ _ => rw [outerQuals, if_neg hlabel, quals]

/-- What is left is nested no deeper. -/
lemma depth_le (h : Desugars a c) : c.depth ≤ a.depth := by
  induction h using induction with
  | sugar _ _ ih =>
      rw [depth_withQuals] at ih
      rw [depth, depthAll]
      exact le_max_of_le_left (ih.trans (Nat.le_succ _))
  | form _ hparts ih =>
      rw [depth, depth]
      clear hparts
      induction ih with
      | nil => exact le_rfl
      | cons hpart _ ihs =>
          obtain ⟨_, hle⟩ := hpart
          rw [depthAll, depthAll]
          exact max_le_max (Nat.succ_le_succ hle) ihs

/-- Sugar is removed in one way. -/
lemma unique (hb : Desugars a b) (hc : Desugars a c) : b = c := by
  induction hb using induction generalizing c with
  | sugar hlabel _ ih =>
      cases hc with
      | sugar _ hinner => exact ih hinner
      | form hnone _ => exact absurd hlabel hnone
  | form hnone hparts ih =>
      cases hc with
      | sugar hlabel _ => exact absurd hlabel hnone
      | @form _ _ _ cs _ hcs =>
          congr 1
          -- the parts are told apart one by one
          clear hparts
          induction ih generalizing cs with
          | nil => exact (List.forall₂_nil_left_iff.mp hcs).symm
          | cons hpart _ ihs =>
              obtain ⟨d, ds, hd, hds, rfl⟩ := List.forall₂_cons_left_iff.mp hcs
              obtain ⟨_, heq⟩ := hpart
              rw [heq hd, ihs hds]

/-- What is free of sugar stays as it is. -/
lemma of_sugarFree (h : SugarFree a) : Desugars a a := by
  induction h with
  | node hlabel _ ih => exact .form hlabel (List.forall₂_same.mpr ih)

end Desugars

end TypeTree

namespace TypeTable

open TypeTree (Desugars SugarFree)

variable {t : TypeTable} {q : QualType}

/-! ### Sugar of types in a table -/

/-- Sugar is around one type. -/
lemma tree_of_sugar (h : t.Layered) {inner : QualType}
    (hsugar : (t.form q.type).sugar? = some inner) :
    t.tree q = .node (t.form q.type).label q.quals [t.tree inner] := by
  rw [h.tree_eq, TypeForm.parts_of_sugar? hsugar, List.map_singleton]

/-- A layer of sugar may be removed first. -/
lemma desugars_desugar_iff (h : t.Layered) (q : QualType) {tree : TypeTree} :
    Desugars (t.tree (t.desugar q)) tree ↔ Desugars (t.tree q) tree := by
  rw [desugar]
  cases hsugar : (t.form q.type).sugar? with
  | none => rfl
  | some inner =>
      have hlabel : (t.form q.type).label.sugar?.isSome := by
        rw [TypeForm.isSome_sugar?_label, hsugar]
        rfl
      have hinner : t.tree ⟨inner.type, inner.quals.union q.quals⟩ =
          (t.tree inner).withQuals ((t.tree inner).quals.union q.quals) := by
        rw [tree_withQuals, quals_tree]
      rw [tree_of_sugar h hsugar]
      dsimp only
      rw [hinner]
      constructor
      · exact .sugar hlabel
      · intro hdesugars
        cases hdesugars with
        | sugar _ hdesugars => exact hdesugars
        | form hnone _ => exact absurd hlabel hnone

/-- A layer of sugar less is a level less. -/
lemma depth_desugar_lt (h : t.Layered) (hsugar : (t.form q.type).sugar?.isSome) :
    (t.tree (t.desugar q)).depth < (t.tree q).depth := by
  obtain ⟨inner, hinner⟩ := Option.isSome_iff_exists.mp hsugar
  have hmem : t.tree inner ∈ (t.tree q).parts := by
    rw [tree_of_sugar h hinner]
    exact List.mem_singleton_self _
  rw [desugar, hinner]
  dsimp only
  rw [← tree_withQuals, TypeTree.depth_withQuals]
  exact TypeTree.depth_lt_of_mem_parts hmem

/-- To remove sugar never makes a type deeper. -/
lemma depth_desugar_le (h : t.Layered) (q : QualType) :
    (t.tree (t.desugar q)).depth ≤ (t.tree q).depth := by
  by_cases hsugar : (t.form q.type).sugar?.isSome
  · exact (depth_desugar_lt h hsugar).le
  · rw [desugar, Option.not_isSome_iff_eq_none.mp hsugar]

/-- When all the sugar at the root is stripped, what is below is desugared as the whole is. -/
lemma desugars_stripWithin (h : t.Layered) {layers : Nat} (hdepth : (t.tree q).depth ≤ layers) :
    ¬(t.form (t.stripWithin layers q).type).sugar?.isSome ∧
      (t.tree (t.stripWithin layers q)).depth ≤ (t.tree q).depth ∧
      ∀ tree, Desugars (t.tree (t.stripWithin layers q)) tree ↔ Desugars (t.tree q) tree := by
  induction layers generalizing q with
  | zero =>
      rw [stripWithin]
      refine ⟨fun hsugar => ?_, le_rfl, fun _ => Iff.rfl⟩
      have hlt := depth_desugar_lt h hsugar
      omega
  | succ layers ih =>
      rw [stripWithin]
      split
      · next hsugar =>
          have hlt := depth_desugar_lt h hsugar
          obtain ⟨hnone, hle, hiff⟩ := ih (q := t.desugar q) (by omega)
          exact ⟨hnone, by omega, fun tree => (hiff tree).trans (desugars_desugar_iff h q)⟩
      · next hnone => exact ⟨hnone, le_rfl, fun _ => Iff.rfl⟩

/-- What can be done with each of several can be done with all. -/
lemma exists_mapM {α β : Type} {f : α → Option β} {R : α → β → Prop} {as : List α}
    (h : ∀ a ∈ as, ∃ b, f a = some b ∧ R a b) :
    ∃ bs, as.mapM f = some bs ∧ List.Forall₂ R as bs := by
  induction as with
  | nil => exact ⟨[], rfl, .nil⟩
  | cons a as ih =>
      obtain ⟨⟨b, hb, hab⟩, has⟩ := List.forall_mem_cons.mp h
      obtain ⟨bs, hbs, hall⟩ := ih has
      exact ⟨b :: bs, by simp [List.mapM_cons, hb, hbs], .cons hab hall⟩

/-- Forms that neither nest types nor are sugar have no types inside. -/
lemma parts_of_plain {form : TypeForm} (hnests : ¬form.nests) (hsugar : ¬form.sugar?.isSome) :
    form.parts = [] := by
  cases form with
  | specialization template spelling aliased =>
      cases aliased with
      | none => rfl
      | some inner => exact absurd rfl hsugar
  | _ => simp_all [TypeForm.nests, TypeForm.sugar?, TypeForm.parts]

/-- **A type that is not nested too deep is desugared** when it is made canonical. -/
lemma exists_canonicalWithin (h : t.Layered) (levels : Nat) (hdepth : (t.tree q).depth ≤ maxSugar)
    (hlt : (t.tree q).depth < levels) :
    ∃ c, (t.tree q).canonicalWithin levels = some c ∧ Desugars (t.tree q) c := by
  induction levels generalizing q with
  | zero => omega
  | succ levels ih =>
      obtain ⟨hnone, hle, hiff⟩ := desugars_stripWithin h hdepth
      change ¬(t.form (t.strip q).type).sugar?.isSome at hnone
      change (t.tree (t.strip q)).depth ≤ _ at hle
      change ∀ tree, Desugars (t.tree (t.strip q)) tree ↔ _ at hiff
      have hlabel : ¬(t.form (t.strip q).type).label.sugar?.isSome := by
        rwa [TypeForm.isSome_sugar?_label]
      rw [TypeTree.canonicalWithin, ← tree_strip h, TypeTree.rebuild, label_tree h,
        TypeForm.nests_label]
      split
      · -- each part is less deep by one, and so are the levels
        have hparts : ∀ part ∈ (t.tree (t.strip q)).parts,
            ∃ c, part.canonicalWithin levels = some c ∧ Desugars part c := by
          intro part hpart
          have hdeeper := TypeTree.depth_lt_of_mem_parts hpart
          rw [parts_tree h] at hpart
          obtain ⟨p, -, rfl⟩ := List.mem_map.mp hpart
          exact ih (by omega) (by omega)
        obtain ⟨cs, hcs, hall⟩ := exists_mapM hparts
        rw [hcs]
        refine ⟨_, rfl, (hiff _).mp ?_⟩
        rw [parts_tree h] at hall
        rw [quals_tree, h.tree_eq]
        exact .form hlabel hall
      · next hnests =>
          refine ⟨_, rfl, (hiff _).mp ?_⟩
          rw [h.tree_eq, parts_of_plain hnests hnone]
          exact .form hlabel .nil

/-! ### Tables in which nothing has been cut off -/

/-- A table in which types have been built, and canonical types asked for of types that are not
nested too deep. -/
inductive Shallow (decls : DeclTable) : TypeTable → Prop
  | fresh : Shallow decls {}
  | build {t : TypeTable} (request : Request) : Shallow decls t →
      Shallow decls ((request.build decls).run t).2
  | canonical {t : TypeTable} {q : QualType} : Shallow decls t → q.type < t.size →
      (t.tree q).depth ≤ 64 → Shallow decls ((canonical q).run t).2

section

variable {decls : DeclTable} {means : WrittenType → TypeTree → Prop} {c : QualType}

/-- What comes of asking a sound table for a canonical type. -/
lemma exists_canonical (ht : Sound means t) (hq : q.type < t.size)
    (hdepth : (t.tree q).depth ≤ 64) :
    ∃ tree, Desugars (t.tree q) tree ∧
      Outcome means t ((canonical q).run t) (Denotes · · tree) := by
  obtain ⟨tree, hcanonical, hdesugars⟩ :=
    exists_canonicalWithin ht.toLayered (maxSugar + 1) hdepth (Nat.lt_succ_of_le hdepth)
  exact ⟨tree, hdesugars, keeps_canonicalWithin _ ⟨hq, rfl⟩ hcanonical ht⟩

/-- Where the table holds what is left without the sugar, that is the canonical type. -/
lemma canonical_eq_of_desugars (ht : Sound means t) (hq : q.type < t.size)
    (hdepth : (t.tree q).depth ≤ 64) (hc : c.type < t.size) (h : Desugars (t.tree q) (t.tree c)) :
    ((canonical q).run t).1 = c := by
  obtain ⟨tree, hdesugars, hout⟩ := exists_canonical ht hq hdepth
  obtain rfl := hdesugars.unique h
  refine tree_injective hout.sound.toLayered hout.result.1 (hc.trans_le hout.grown.size_le) ?_
  rw [hout.result.2, tree_of_extends hout.grown hc]

/-- Such a table is sound, and no typedef is being expanded in it. -/
lemma Shallow.sound (h : Shallow decls t) : Sound (Means decls) t ∧ t.expanding = [] := by
  induction h with
  | fresh => exact ⟨sound_empty _, rfl⟩
  | build request _ ih =>
      obtain ⟨hsound, hexpanding⟩ := ih
      have hout := keeps_build hexpanding request hsound
      exact ⟨hout.sound, hout.expanding.trans hexpanding⟩
  | canonical _ hq hdepth ih =>
      obtain ⟨hsound, hexpanding⟩ := ih
      obtain ⟨tree, -, hout⟩ := exists_canonical hsound hq hdepth
      exact ⟨hout.sound, hout.expanding.trans hexpanding⟩

end

/-- **Canonical types.** In a table in which types have been built, and canonical types asked for of
types that are not nested too deep, let a type have at most 64 levels of types inside it, layers of
sugar among them. Its canonical type `c`

* is what is left of it when the sugar at every level is removed: pointers, references, arrays and
  functions stay as they are, around their parts without sugar, and where sugar is removed its
  qualifiers are added to those of what is below;
* has no sugar at any level;
* has the qualifiers of the type and of its outermost layers of sugar;
* is its own canonical type, and that of the type with one layer of sugar removed, whether this one
  is asked for afterwards or before. -/
theorem canonical_desugars (decls : DeclTable) (t : TypeTable) (q : QualType)
    (ht : Shallow decls t) (hq : q.type < t.size) (hdepth : (t.tree q).depth ≤ 64) :
    ∃ (c : QualType) (t' : TypeTable), (canonical q).run t = (c, t') ∧ c.type < t'.size ∧
      Desugars (t.tree q) (t'.tree c) ∧
      SugarFree (t'.tree c) ∧
      c.quals = (t.tree q).outerQuals ∧
      ((canonical c).run t').1 = c ∧
      ((canonical (t'.desugar q)).run t').1 = c ∧
      ∃ (d : QualType) (u : TypeTable), (canonical (t.desugar q)).run t = (d, u) ∧
        ((canonical q).run u).1 = d := by
  obtain ⟨hsound, -⟩ := ht.sound
  -- the type and the one with a layer of sugar less desugar to the same tree
  have hless := depth_desugar_le hsound.toLayered q
  obtain ⟨tree, hdesugars, hout⟩ := exists_canonical hsound hq hdepth
  obtain ⟨tree', hdesugars', hout'⟩ := exists_canonical hsound
    (desugar_lt hsound.toLayered hq) (hless.trans hdepth)
  rw [desugars_desugar_iff hsound.toLayered] at hdesugars'
  generalize (canonical q).run t = r at hout ⊢
  generalize (canonical (t.desugar q)).run t = r' at hout' ⊢
  obtain ⟨c, t'⟩ := r
  obtain ⟨d, u⟩ := r'
  obtain ⟨hc, rfl⟩ := hout.result
  obtain ⟨hd, rfl⟩ := hout'.result
  have hstays : t'.tree q = t.tree q := tree_of_extends hout.grown hq
  have hstays' : u.tree q = t.tree q := tree_of_extends hout'.grown hq
  have hlayered : t'.Layered := hout.sound.toLayered
  have hq' : q.type < t'.size := hq.trans_le hout.grown.size_le
  refine ⟨c, t', rfl, hc, hdesugars, hdesugars.sugarFree, ?_, ?_, ?_, d, u, rfl, ?_⟩
  · rw [← hdesugars.quals_eq, quals_tree]
  · exact canonical_eq_of_desugars hout.sound hc (hdesugars.depth_le.trans hdepth) hc
      (.of_sugarFree hdesugars.sugarFree)
  · have hle := depth_desugar_le hlayered q
    rw [hstays] at hle
    refine canonical_eq_of_desugars hout.sound (desugar_lt hlayered hq') (hle.trans hdepth) hc ?_
    rw [desugars_desugar_iff hlayered, hstays]
    exact hdesugars
  · refine canonical_eq_of_desugars hout'.sound (hq.trans_le hout'.grown.size_le) ?_ hd ?_
    · rw [hstays']
      exact hdepth
    · rw [hstays']
      exact hdesugars'

/-- A structure `S`, a typedef `T` for it, and a typedef `C` for constant ones. -/
def constants : DeclTable :=
  .build ⟨"", ⟨"/"⟩, fun _ => none⟩ ⟨⟨1⟩, .decl .translationUnit {}, [
    ⟨⟨2⟩, .decl .record { name := some "S", tagUsed := some "struct" }, []⟩,
    ⟨⟨3⟩, .decl .typedef { name := some "T", type := some { qualType := some "::S" } }, []⟩,
    ⟨⟨4⟩, .decl .typedef { name := some "C", type := some { qualType := some "const ::T" } }, []⟩]⟩

/-- The type `volatile C *`, with the table that it has been built in. -/
def constantsType : QualType × TypeTable :=
  (writtenType constants { qualType := some "volatile ::C *" }).run {}

lemma constantsType_eq : constantsType = (writtenTypeWith (expandWithin constants 5) constants
    { qualType := some "volatile ::C *" }).run {} := by
  have hsize : constants.size = 4 := by
    rw [constants, (DeclTable.consistent_build _ _).size_eq]
    cbv
  show (writtenTypeWith (expandWithin constants (constants.size + 1)) constants _).run {} = _
  rw [hsize]

/-- Both typedefs go, and what is left is a pointer to constant volatile structures. -/
theorem canonical_desugars_constants :
    ∃ (c : QualType) (t' : TypeTable),
      (canonical constantsType.1).run constantsType.2 = (c, t') ∧
      t'.tree c = .node (.pointer default) {}
        [.node (.record ⟨2⟩ (some .struct) false) { isConst := true, isVolatile := true } []] ∧
      ((canonical c).run t').1 = c := by
  let core : TypeForm := .record ⟨2⟩ (some .struct) false
  have hlt : constantsType.1.type < constantsType.2.size := by
    rw [constantsType_eq]
    cbv
  have htree : constantsType.2.tree constantsType.1 = .node (.pointer default) {}
      [.node (.typedef ⟨4⟩ default) { isVolatile := true }
        [.node (.typedef ⟨3⟩ default) { isConst := true } [.node core {} []]]] := by
    rw [constantsType_eq]
    cbv
  have hdepth : (constantsType.2.tree constantsType.1).depth ≤ 64 := by
    rw [htree]
    decide
  have hshallow : Shallow constants constantsType.2 := .build (.written _) .fresh
  obtain ⟨c, t', hrun, -, hdesugars, -, -, hself, -⟩ :=
    canonical_desugars constants _ constantsType.1 hshallow hlt hdepth
  refine ⟨c, t', hrun, hdesugars.unique ?_, hself⟩
  rw [htree]
  have hcore (quals : Qualifiers) : Desugars (.node core quals []) (.node core quals []) :=
    .form (by decide) .nil
  exact .form (by decide) (.cons (.sugar rfl (.sugar rfl (hcore _))) .nil)

end TypeTable

end UnitIndex
