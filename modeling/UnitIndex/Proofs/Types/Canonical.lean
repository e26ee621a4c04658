import Mathlib.Tactic
import UnitIndex.Proofs.Types.Tree

/-!
What is kept in a table is true.

A table keeps the types that it has built for written types and the canonical types that it has
found. It is `Sound` when both are right, whatever tables they were found in. `Keeps` says of a
step that it leaves a sound table sound and comes to what it should, told in trees; its sequencing
law is `Keeps.bind`. `TypeTree.canonicalWithin` removes the sugar from a tree at every level and
gives up on a tree that is nested too deep. Where it does not give up, the canonical type is found
from any sound table, and the table stays sound (`keeps_canonicalWithin`).
-/

namespace UnitIndex

namespace TypeForm

/-- Whether the form nests types in which there may be sugar once more. -/
def nests : TypeForm → Bool
  | pointer _ | lvalueRef _ | rvalueRef _ | array _ _ | function _ _ _ => true
  | _ => false

/-- A form that nests types with other types in their place. -/
def withParts : TypeForm → List QualType → TypeForm
  | pointer _, [p] => pointer p
  | lvalueRef _, [p] => lvalueRef p
  | rvalueRef _, [p] => rvalueRef p
  | array _ size, [p] => array p size
  | function _ _ variadic, result :: params => function result params variadic
  | form, _ => form

/-- Other parts leave the label as it is. -/
lemma label_withParts (form : TypeForm) (ps : List QualType) :
    (form.withParts ps).label = form.label := by
  rw [withParts.eq_def]
  split <;> rfl

/-- A form that nests has the parts that it is given. -/
lemma parts_withParts {form : TypeForm} (h : form.nests) {ps : List QualType}
    (hlength : ps.length = form.parts.length) : (form.withParts ps).parts = ps := by
  have hsingle (hone : form.parts.length = 1) : ∃ p, ps = [p] :=
    List.length_eq_one_iff.mp (hlength.trans hone)
  cases form with
  | pointer p => obtain ⟨_, rfl⟩ := hsingle rfl; rfl
  | lvalueRef p => obtain ⟨_, rfl⟩ := hsingle rfl; rfl
  | rvalueRef p => obtain ⟨_, rfl⟩ := hsingle rfl; rfl
  | array p size => obtain ⟨_, rfl⟩ := hsingle rfl; rfl
  | function result params variadic =>
      cases ps with
      | nil => exact absurd hlength (by simp [parts])
      | cons p ps => rfl
  | _ => exact absurd h (by simp [nests])

/-- Whether a form nests is told by its label. -/
lemma nests_label (form : TypeForm) : form.label.nests = form.nests := by cases form <;> rfl

end TypeForm

namespace TypeTree

/-- The tree with its parts made canonical. -/
def rebuild (canonical : TypeTree → Option TypeTree) (tree : TypeTree) : Option TypeTree :=
  if tree.label.nests then
    (tree.parts.mapM canonical).bind fun parts => some (node tree.label tree.quals parts)
  else some tree

/-- The tree with the sugar at every level removed, unless it has more levels. -/
def canonicalWithin : Nat → TypeTree → Option TypeTree
  | 0, _ => none
  | levels + 1, tree => tree.strip.rebuild (canonicalWithin levels)

/-- What succeeds for each of several, succeeds with more of it. -/
lemma mapM_mono {α β : Type} {f g : α → Option β} (hfg : ∀ a b, f a = some b → g a = some b)
    {as : List α} {bs : List β} (h : as.mapM f = some bs) : as.mapM g = some bs := by
  induction as generalizing bs with
  | nil => exact h
  | cons a as ih =>
      rw [List.mapM_cons] at h ⊢
      obtain ⟨b, hb, h⟩ := Option.bind_eq_some_iff.mp h
      obtain ⟨bs', hbs, h⟩ := Option.bind_eq_some_iff.mp h
      rw [hfg a b hb]
      show (as.mapM g).bind _ = some bs
      rw [ih hbs]
      exact h

/-- With more levels followed the outcome is the same. -/
lemma canonicalWithin_mono {m n : Nat} (hmn : m ≤ n) {tree c : TypeTree}
    (h : tree.canonicalWithin m = some c) : tree.canonicalWithin n = some c := by
  induction m generalizing n tree c with
  | zero => exact absurd h (by simp [canonicalWithin])
  | succ m ih =>
      have hpos : n ≠ 0 := by omega
      obtain ⟨n, rfl⟩ := Nat.exists_eq_add_one_of_ne_zero hpos
      rw [canonicalWithin, rebuild] at h ⊢
      split at h
      · next hnests =>
          rw [if_pos hnests]
          obtain ⟨parts, hparts, hnode⟩ := Option.bind_eq_some_iff.mp h
          rw [mapM_mono (fun _ _ => ih (Nat.le_of_succ_le_succ hmn)) hparts]
          exact hnode
      · next hnests =>
          rw [if_neg hnests]
          exact h

/-- Two numbers of levels that suffice find the same type. -/
lemma canonicalWithin_unique {m n : Nat} {tree c d : TypeTree}
    (hc : tree.canonicalWithin m = some c) (hd : tree.canonicalWithin n = some d) : c = d := by
  have hc' := canonicalWithin_mono (Nat.le_max_left m n) hc
  have hd' := canonicalWithin_mono (Nat.le_max_right m n) hd
  exact Option.some.inj (hc'.symm.trans hd')

end TypeTree

namespace TypeTable

variable {α β : Type}

/-- A type of the table that means the tree. -/
def Denotes (t : TypeTable) (q : QualType) (tree : TypeTree) : Prop :=
  q.type < t.size ∧ t.tree q = tree

/-- A type that is written out in a table is so in every extension. -/
lemma Denotes.mono {t t' : TypeTable} (hext : Extends t t') {q : QualType} {tree : TypeTree}
    (h : Denotes t q tree) : Denotes t' q tree :=
  ⟨h.1.trans_le hext.size_le, (tree_of_extends hext h.1).trans h.2⟩

/-- Types of the table that mean the trees, one by one. -/
def DenotesAll (t : TypeTable) (qs : List QualType) (trees : List TypeTree) : Prop :=
  (∀ q ∈ qs, q.type < t.size) ∧ qs.map t.tree = trees

/-- No types denote no trees. -/
lemma denotesAll_nil (t : TypeTable) : DenotesAll t [] [] := ⟨by simp, rfl⟩

lemma denotesAll_cons {t : TypeTable} {q : QualType} {qs : List QualType} {tree : TypeTree}
    {trees : List TypeTree} :
    DenotesAll t (q :: qs) (tree :: trees) ↔ Denotes t q tree ∧ DenotesAll t qs trees := by
  simp only [DenotesAll, Denotes, List.forall_mem_cons, List.map_cons, List.cons.injEq]
  tauto

lemma DenotesAll.mono {t t' : TypeTable} (hext : Extends t t') {qs : List QualType}
    {trees : List TypeTree} (h : DenotesAll t qs trees) : DenotesAll t' qs trees := by
  refine ⟨fun q hq => (h.1 q hq).trans_le hext.size_le, ?_⟩
  rw [← h.2]
  exact List.map_congr_left fun q hq => tree_of_extends hext (h.1 q hq)

/-- The parts of a type denote those of its tree. -/
lemma denotesAll_parts {t : TypeTable} (h : t.Layered) {q : QualType} (hq : q.type < t.size) :
    DenotesAll t (t.form q.type).parts (t.tree q).parts :=
  ⟨fun _ hp => (h.parts_lt hp).trans hq, (parts_tree h q).symm⟩

/-- A type of the table; whatever is known to be its meaning is. -/
def Stands (t : TypeTable) (q : QualType) (means : TypeTree → Prop) : Prop :=
  q.type < t.size ∧ ∀ tree, means tree → t.tree q = tree

/-- A type stands for the tree that it denotes. -/
lemma Denotes.stands {t : TypeTable} {q : QualType} {tree : TypeTree} (h : Denotes t q tree) :
    Stands t q (some tree = some ·) := by
  refine ⟨h.1, ?_⟩
  rintro tree' heq
  obtain rfl := Option.some.inj heq
  exact h.2

/-- It does so in every extension. -/
lemma Stands.mono {t t' : TypeTable} (hext : Extends t t') {q : QualType}
    {means : TypeTree → Prop} (h : Stands t q means) : Stands t' q means := by
  refine ⟨h.1.trans_le hext.size_le, fun tree htree => ?_⟩
  rw [tree_of_extends hext h.1]
  exact h.2 tree htree

lemma Stands.weaken {t : TypeTable} {q : QualType} {means means' : TypeTree → Prop}
    (h : Stands t q means) (hle : ∀ tree, means' tree → means tree) : Stands t q means' :=
  ⟨h.1, fun tree htree => h.2 tree (hle tree htree)⟩

/-! ### Soundness -/

/-- What is kept for a written type is what it means. -/
def TrueWritten (means : WrittenType → TypeTree → Prop) (t : TypeTable) : Prop :=
  ∀ w q, t.written[w]? = some q → Stands t q (means w)

/-- What is kept as canonical is. -/
def TrueCanonicals (t : TypeTable) : Prop :=
  ∀ q c, t.canonicals[q]? = some c → ∃ tree canonical levels,
    Denotes t q tree ∧ Denotes t c canonical ∧ tree.canonicalWithin levels = some canonical

/-- What is kept for written types stays true. -/
lemma TrueWritten.mono {means : WrittenType → TypeTree → Prop} {t t' : TypeTable}
    (h : TrueWritten means t) (hext : Extends t t') (hsame : t'.written = t.written) :
    TrueWritten means t' := by
  intro w q hw
  rw [hsame] at hw
  exact (h w q hw).mono hext

lemma TrueCanonicals.mono {t t' : TypeTable} (h : TrueCanonicals t) (hext : Extends t t')
    (hsame : t'.canonicals = t.canonicals) : TrueCanonicals t' := by
  intro q c hc
  rw [hsame] at hc
  obtain ⟨tree, canonical, levels, hq, hc, hcanonical⟩ := h q c hc
  exact ⟨tree, canonical, levels, hq.mono hext, hc.mono hext, hcanonical⟩

/-- Whatever the table has kept is true. -/
structure Sound (means : WrittenType → TypeTree → Prop) (t : TypeTable) : Prop
    extends Layered t where
  written : TrueWritten means t
  canonicals : TrueCanonicals t

/-- The outcome of a step from `t`: the table is sound, the types in it have stayed, the typedefs
being built are the same, and the result is as it should be. -/
structure Outcome (means : WrittenType → TypeTree → Prop) (t : TypeTable) (r : α × TypeTable)
    (P : TypeTable → α → Prop) : Prop where
  sound : Sound means r.2
  grown : Extends t r.2
  expanding : r.2.expanding = t.expanding
  result : P r.2 r.1

/-- From a sound table the step has a proper outcome. -/
def Keeps (means : WrittenType → TypeTree → Prop) (t : TypeTable) (P : TypeTable → α → Prop)
    (x : TypeM α) : Prop :=
  Sound means t → Outcome means t (x.run t) P

lemma run_bind (x : TypeM α) (f : α → TypeM β) (t : TypeTable) :
    (x >>= f).run t = (f (x.run t).1).run (x.run t).2 := rfl

section

variable {means : WrittenType → TypeTree → Prop} {t : TypeTable} {P : TypeTable → α → Prop}
  {Q : TypeTable → β → Prop}

lemma Keeps.pure {a : α} (h : P t a) : Keeps means t P (pure a) :=
  fun ht => ⟨ht, .refl t, rfl, h⟩

/-- Steps one behind the other. -/
lemma Keeps.bind {x : TypeM α} {f : α → TypeM β} (hx : Keeps means t P x)
    (hf : ∀ t' a, Extends t t' → t'.expanding = t.expanding → P t' a → Keeps means t' Q (f a)) :
    Keeps means t Q (x >>= f) := by
  intro ht
  have hout := hx ht
  have hout' := hf _ _ hout.grown hout.expanding hout.result hout.sound
  exact ⟨hout'.sound, hout.grown.trans hout'.grown, hout'.expanding.trans hout.expanding,
    hout'.result⟩

/-- A step that looks at the table it starts from. -/
lemma Keeps.get {f : TypeTable → TypeM α} (h : Keeps means t P (f t)) :
    Keeps means t P (get >>= f) := h

/-- A step from a table that is known to be sound. -/
lemma Keeps.of_sound {x : TypeM α} (h : Sound means t → Keeps means t P x) : Keeps means t P x :=
  fun ht => h ht ht

/-- Less may be said of what a step comes to. -/
lemma Keeps.imp {x : TypeM α} {P' : TypeTable → α → Prop} (h : Keeps means t P x)
    (himp : ∀ t' a, P t' a → P' t' a) : Keeps means t P' x := by
  intro ht
  have hout := h ht
  exact ⟨hout.sound, hout.grown, hout.expanding, himp _ _ hout.result⟩

/-- A form over types of the table is made a type of the table. -/
lemma keeps_qualified {form : TypeForm} (quals : Qualifiers)
    (h : ∀ p ∈ form.parts, p.type < t.size) :
    Keeps means t (Denotes · · (.node form.label quals (form.parts.map t.tree)))
      (qualified form quals) := by
  intro ht
  have hinterned := ht.toLayered.intern h
  obtain ⟨hwritten, hcanonicals, hexpanding⟩ := hinterned.caches
  exact ⟨⟨hinterned.layered, ht.written.mono hinterned.grown hwritten,
    ht.canonicals.mono hinterned.grown hcanonicals⟩, hinterned.grown, hexpanding,
    hinterned.lt_size, hinterned.tree_eq h quals⟩

/-! ### Canonical types -/

/-- A step for each of several types. -/
lemma Keeps.mapM {f : QualType → TypeM QualType} {g : TypeTree → Option TypeTree}
    (hf : ∀ t' q tree c, Extends t t' → Denotes t' q tree → g tree = some c →
      Keeps means t' (Denotes · · c) (f q))
    {qs : List QualType} {trees cs : List TypeTree} (h : DenotesAll t qs trees)
    (hcs : trees.mapM g = some cs) :
    Keeps means t (fun t' ps => DenotesAll t' ps cs ∧ ps.length = qs.length) (qs.mapM f) := by
  induction qs generalizing t trees cs with
  | nil =>
      obtain rfl : [] = trees := h.2
      obtain rfl : [] = cs := Option.some.inj hcs
      exact .pure ⟨denotesAll_nil t, rfl⟩
  | cons q qs ih =>
      cases trees with
      | nil => exact absurd h.2 (by simp)
      | cons tree trees =>
          obtain ⟨hq, hqs⟩ := denotesAll_cons.mp h
          rw [List.mapM_cons] at hcs ⊢
          obtain ⟨c, hc, hcs⟩ := Option.bind_eq_some_iff.mp hcs
          obtain ⟨cs', hcs', hcs⟩ := Option.bind_eq_some_iff.mp hcs
          obtain rfl := Option.some.inj hcs
          -- the first type, and then the others in the table that this leaves
          refine .bind (hf t q tree c (.refl t) hq hc) fun t' p hext _ hp => ?_
          refine .bind (ih ?_ (hqs.mono hext) hcs') fun t'' ps hext' _ hps => ?_
          · intro u r rtree d hu hr hd
            exact hf u r rtree d (hext.trans hu) hr hd
          · obtain ⟨hps, hlength⟩ := hps
            refine .pure ⟨denotesAll_cons.mpr ⟨hp.mono hext', hps⟩, ?_⟩
            rw [List.length_cons, List.length_cons, hlength]

/-- A form is rebuilt if it nests. -/
lemma rebuilt?_eq (canonical : QualType → TypeM QualType) (form : TypeForm) :
    rebuilt? canonical form =
      if form.nests then form.parts.mapM canonical >>= fun ps => pure (some (form.withParts ps))
      else pure none := by
  cases form <;> simp [rebuilt?, TypeForm.nests, TypeForm.parts, TypeForm.withParts]

/-- To rebuild a type is to rebuild its form, and to keep the qualifiers. -/
lemma run_rebuild (f : QualType → TypeM QualType) (q : QualType) (t : TypeTable) :
    (rebuild f q).run t =
      (rebuilt? f (t.form q.type) >>= fun form? =>
        match form? with
        | some form => qualified form q.quals
        | none => pure q).run t := rfl

/-- **A type is rebuilt from the trees of its parts.** -/
lemma keeps_rebuild {f : QualType → TypeM QualType} {g : TypeTree → Option TypeTree}
    (hf : ∀ t' q tree c, Extends t t' → Denotes t' q tree → g tree = some c →
      Keeps means t' (Denotes · · c) (f q))
    {q : QualType} {tree c : TypeTree} (h : Denotes t q tree) (hc : tree.rebuild g = some c) :
    Keeps means t (Denotes · · c) (rebuild f q) := by
  intro ht
  have hlabel : (t.form q.type).label = tree.label := by rw [← h.2, label_tree ht.toLayered]
  have hnests : (t.form q.type).nests = tree.label.nests := by
    rw [← hlabel, TypeForm.nests_label]
  have hquals : q.quals = tree.quals := by rw [← h.2, quals_tree]
  have hparts := denotesAll_parts ht.toLayered h.1
  rw [h.2] at hparts
  rw [run_rebuild, rebuilt?_eq, hnests]
  rw [TypeTree.rebuild] at hc
  split at hc
  · -- each part is replaced, and the form put around them again
    next htrue =>
      rw [if_pos htrue, bind_assoc]
      obtain ⟨cs, hcs, hnode⟩ := Option.bind_eq_some_iff.mp hc
      obtain rfl := Option.some.inj hnode
      refine Keeps.bind (Keeps.mapM hf hparts hcs) (fun t' ps _ _ hps => ?_) ht
      obtain ⟨hps, hlength⟩ := hps
      rw [← TypeForm.parts_withParts (hnests.trans htrue) hlength] at hps
      rw [pure_bind, ← hlabel, ← hquals, ← TypeForm.label_withParts _ ps, ← hps.2]
      exact keeps_qualified q.quals hps.1
  · next hfalse =>
      rw [if_neg hfalse]
      obtain rfl := Option.some.inj hc
      exact ⟨ht, .refl t, rfl, h⟩

/-- Canonical types may be kept when they are right. -/
lemma keeps_keepCanonical {q c : QualType} {tree canonical : TypeTree} {levels : Nat}
    (hq : Denotes t q tree) (hc : Denotes t c canonical)
    (hcanonical : tree.canonicalWithin levels = some canonical) :
    Keeps means t (fun t' _ => Denotes t' c canonical) (keepCanonical q c) := by
  intro ht
  have hext : Extends t { t with canonicals := t.canonicals.insert q c } := .of_forms rfl
  have hkept : TrueCanonicals { t with canonicals := t.canonicals.insert q c } := by
    intro q' c' hget
    rw [Std.HashMap.getElem?_insert] at hget
    split at hget
    · next heq =>
        obtain rfl := eq_of_beq heq
        obtain rfl := Option.some.inj hget
        exact ⟨tree, canonical, levels, hq.mono hext, hc.mono hext, hcanonical⟩
    · obtain ⟨tree', canonical', levels', hq', hc', hcanonical'⟩ := ht.canonicals q' c' hget
      exact ⟨tree', canonical', levels', hq'.mono hext, hc'.mono hext, hcanonical'⟩
  exact ⟨⟨⟨ht.parts_lt, ht.ids_iff⟩, ht.written.mono hext rfl, hkept⟩, hext, rfl, hc.mono hext⟩

/-- A canonical type that is known is not looked for again. -/
lemma run_canonicalWithin_succ (levels : Nat) (q : QualType) (t : TypeTable) :
    (canonicalWithin (levels + 1) q).run t =
      match t.canonicals[q]? with
      | some c => (c, t)
      | none => (rebuild (canonicalWithin levels) (t.strip q) >>= fun canonical =>
          keepCanonical q canonical >>= fun _ => pure canonical).run t := by
  have hknown : (knownCanonical? q).run t = (t.canonicals[q]?, t) := rfl
  rw [canonicalWithin, run_bind, hknown]
  cases t.canonicals[q]? <;> rfl

/-- The canonical type is found whatever has been found before. -/
lemma keeps_canonicalWithin (levels : Nat) {q : QualType} {tree c : TypeTree}
    (h : Denotes t q tree) (hc : tree.canonicalWithin levels = some c) :
    Keeps means t (Denotes · · c) (canonicalWithin levels q) := by
  induction levels generalizing t q tree c with
  | zero => exact absurd hc (by simp [TypeTree.canonicalWithin])
  | succ levels ih =>
      intro ht
      rw [run_canonicalWithin_succ]
      cases hknown : t.canonicals[q]? with
      | some known =>
          obtain ⟨tree', canonical, levels', hq', hc', hcanonical⟩ := ht.canonicals q known hknown
          obtain rfl : tree = tree' := h.2.symm.trans hq'.2
          -- what is known may have been found with other levels, but it is the same
          obtain rfl := TypeTree.canonicalWithin_unique hc hcanonical
          exact ⟨ht, .refl t, rfl, hc'⟩
      | none =>
          have hstrip : Denotes t (t.strip q) tree.strip := by
            refine ⟨strip_lt ht.toLayered h.1, ?_⟩
            rw [tree_strip ht.toLayered, h.2]
          have hrebuild := keeps_rebuild (fun t' q tree c _ hq hc => ih hq hc) hstrip hc
          refine Keeps.bind hrebuild (fun t' p hext _ hp => ?_) ht
          exact .bind (keeps_keepCanonical (h.mono hext) hp hc) fun t'' _ _ _ hp' => .pure hp'

end

end TypeTable

end UnitIndex
