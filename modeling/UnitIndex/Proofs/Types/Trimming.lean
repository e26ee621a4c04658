import Mathlib.Tactic
import UnitIndex.Proofs.Types.Canonical
import UnitIndex.Proofs.Types.Construction

/-!
Canonical types that are cut off.

The canonical type of a type that is nested too deep has unresolved types in place of some of those
inside, and it depends on what was kept before in which places. `TypeTree.Trims` says that a tree is
a canonical one up to such places. Whatever table one starts from and however many levels are
followed, a canonical type is one of these, and those that are kept are too (`Trimmed`); the main
statement is `trims_canonicalWithin`. `Trimming` is said of a step that keeps a table so; besides
new forms it adds nothing, and none of them names a declaration.
-/

namespace UnitIndex

/-- The one tree is the canonical form of the other, up to types in it that are left out. -/
inductive TypeTree.Trims : TypeTree → TypeTree → Prop
  | off (tree : TypeTree) : Trims tree (node (.unresolved "") {} [])
  | core {tree : TypeTree} : ¬tree.strip.label.nests → Trims tree tree.strip
  | around {tree : TypeTree} {parts : List TypeTree} : tree.strip.label.nests →
      List.Forall₂ Trims tree.strip.parts parts →
      Trims tree (node tree.strip.label tree.strip.quals parts)

/-- What nests types names no declaration. -/
lemma named_of_nests {form : TypeForm} (h : form.nests) (decls : DeclTable) : Named decls form := by
  cases form with
  | pointer _ | lvalueRef _ | rvalueRef _ | array _ _ | function _ _ _ => trivial
  | _ => exact absurd h (by simp [TypeForm.nests])

namespace TypeForm

/-- Other parts do not change whether a form nests. -/
lemma nests_withParts (form : TypeForm) (ps : List QualType) :
    (form.withParts ps).nests = form.nests := by
  rw [← nests_label, label_withParts, nests_label]

end TypeForm

namespace TypeTable

variable {α β : Type}

/-- The type is in the table, and is the canonical form of the tree up to types left out. -/
def TrimsTo (tree : TypeTree) (t : TypeTable) (c : QualType) : Prop :=
  c.type < t.size ∧ tree.Trims (t.tree c)

/-- What is left of a tree is left of it in every extension. -/
lemma TrimsTo.mono {t t' : TypeTable} (hext : Extends t t') {tree : TypeTree} {c : QualType}
    (h : TrimsTo tree t c) : TrimsTo tree t' c := by
  refine ⟨h.1.trans_le hext.size_le, ?_⟩
  rw [tree_of_extends hext h.1]
  exact h.2

/-- The types of the table are the canonical forms of the trees, one by one. -/
def TrimAll (trees : List TypeTree) (t : TypeTable) (cs : List QualType) : Prop :=
  (∀ c ∈ cs, c.type < t.size) ∧ List.Forall₂ TypeTree.Trims trees (cs.map t.tree)

lemma trimAll_nil (t : TypeTable) : TrimAll [] t [] := ⟨by simp, .nil⟩

lemma TrimsTo.cons {t : TypeTable} {tree : TypeTree} {trees : List TypeTree} {c : QualType}
    {cs : List QualType} (hc : TrimsTo tree t c) (hcs : TrimAll trees t cs) :
    TrimAll (tree :: trees) t (c :: cs) :=
  ⟨List.forall_mem_cons.mpr ⟨hc.1, hcs.1⟩, .cons hc.2 hcs.2⟩

/-- What is kept as canonical is, up to types left out. -/
structure Trimmed (t : TypeTable) : Prop extends Layered t where
  canonicals : ∀ q c, t.canonicals[q]? = some c → q.type < t.size ∧ TrimsTo (t.tree q) t c

/-- A table stays trimmed when forms are added. -/
lemma Trimmed.mono {t t' : TypeTable} (h : Trimmed t) (hlayered : t'.Layered)
    (hext : Extends t t') (hsame : t'.canonicals = t.canonicals) : Trimmed t' where
  toLayered := hlayered
  canonicals := by
    intro q c hc
    rw [hsame] at hc
    obtain ⟨hq, hkept⟩ := h.canonicals q c hc
    rw [tree_of_extends hext hq]
    exact ⟨hq.trans_le hext.size_le, hkept.mono hext⟩

/-- What is kept for a type is what is left of its tree. -/
lemma Trimmed.kept {t : TypeTable} (ht : Trimmed t) {q c : QualType} {tree : TypeTree}
    (h : Denotes t q tree) (hc : t.canonicals[q]? = some c) : TrimsTo tree t c := by
  obtain ⟨-, hkept⟩ := ht.canonicals q c hc
  rwa [h.2] at hkept

/-- Trimmed tables result from a step that adds forms and canonical types, and nothing else. -/
structure TrimOutcome (t : TypeTable) (r : α × TypeTable) (P : TypeTable → α → Prop) : Prop where
  trimmed : Trimmed r.2
  grown : Extends t r.2
  written : r.2.written = t.written
  expanding : r.2.expanding = t.expanding
  named : ∀ decls, AllNamed decls t → AllNamed decls r.2
  result : P r.2 r.1

/-- From a trimmed table the step has such an outcome. -/
def Trimming (t : TypeTable) (P : TypeTable → α → Prop) (x : TypeM α) : Prop :=
  Trimmed t → TrimOutcome t (x.run t) P

section

variable {t : TypeTable} {P : TypeTable → α → Prop} {Q : TypeTable → β → Prop}

lemma Trimming.pure {a : α} (h : P t a) : Trimming t P (pure a) :=
  fun ht => ⟨ht, .refl t, rfl, rfl, fun _ hnamed => hnamed, h⟩

/-- Steps one behind the other. -/
lemma Trimming.bind {x : TypeM α} {f : α → TypeM β} (hx : Trimming t P x)
    (hf : ∀ t' a, Extends t t' → P t' a → Trimming t' Q (f a)) : Trimming t Q (x >>= f) := by
  intro ht
  have hout := hx ht
  have hout' := hf _ _ hout.grown hout.result hout.trimmed
  exact ⟨hout'.trimmed, hout.grown.trans hout'.grown, hout'.written.trans hout.written,
    hout'.expanding.trans hout.expanding, fun decls h => hout'.named decls (hout.named decls h),
    hout'.result⟩

/-- Less may be said of what a step comes to. -/
lemma Trimming.imp {x : TypeM α} {P' : TypeTable → α → Prop} (h : Trimming t P x)
    (himp : ∀ t' a, P t' a → P' t' a) : Trimming t P' x := by
  intro ht
  have hout := h ht
  exact ⟨hout.trimmed, hout.grown, hout.written, hout.expanding, hout.named, himp _ _ hout.result⟩

/-- At most one form is new. -/
lemma forms_intern (form : TypeForm) (t : TypeTable) {form' : TypeForm}
    (h : form' ∈ (intern form t).2.forms) : form' ∈ t.forms ∨ form' = form := by
  rw [intern] at h
  split at h
  · exact Or.inl h
  · exact Array.mem_push.mp h

/-- A form that nests types of the table, or is unresolved, is made a type of the table. -/
lemma trimming_qualified {form : TypeForm} (quals : Qualifiers)
    (hparts : ∀ p ∈ form.parts, p.type < t.size) (hnamed : ∀ decls, Named decls form) :
    Trimming t (Denotes · · (.node form.label quals (form.parts.map t.tree)))
      (qualified form quals) := by
  intro ht
  have hinterned := ht.toLayered.intern hparts
  obtain ⟨hwritten, hcanonicals, hexpanding⟩ := hinterned.caches
  refine ⟨ht.mono hinterned.layered hinterned.grown hcanonicals, hinterned.grown, hwritten,
    hexpanding, ?_, hinterned.lt_size, hinterned.tree_eq hparts quals⟩
  intro decls hall form' hmem
  rcases forms_intern form t hmem with hold | rfl
  · exact hall form' hold
  · exact hnamed decls

/-- A step for each of several types. -/
lemma Trimming.mapM {f : QualType → TypeM QualType}
    (hf : ∀ t' q tree, Extends t t' → Denotes t' q tree → Trimming t' (TrimsTo tree) (f q))
    {qs : List QualType} {trees : List TypeTree} (h : DenotesAll t qs trees) :
    Trimming t (TrimAll trees) (qs.mapM f) := by
  induction qs generalizing t trees with
  | nil =>
      obtain rfl : [] = trees := h.2
      exact .pure (trimAll_nil t)
  | cons q qs ih =>
      cases trees with
      | nil => exact absurd h.2 (by simp)
      | cons tree trees =>
          obtain ⟨hq, hqs⟩ := denotesAll_cons.mp h
          rw [List.mapM_cons]
          refine .bind (hf t q tree (.refl t) hq) fun t' c hext hc => ?_
          have hrest := ih (fun u r rtree hu hr => hf u r rtree (hext.trans hu) hr) (hqs.mono hext)
          exact .bind hrest fun t'' cs hext' hcs => .pure ((hc.mono hext').cons hcs)

/-- **A type is rebuilt from what is left of its parts.** -/
lemma trimming_rebuild {f : QualType → TypeM QualType}
    (hf : ∀ t' q tree, Extends t t' → Denotes t' q tree → Trimming t' (TrimsTo tree) (f q))
    {q : QualType} {tree : TypeTree} (h : Denotes t q tree) :
    Trimming t (TrimsTo tree) (rebuild f (t.strip q)) := by
  intro ht
  have hstrip : Denotes t (t.strip q) tree.strip := by
    refine ⟨strip_lt ht.toLayered h.1, ?_⟩
    rw [tree_strip ht.toLayered, h.2]
  have hlabel : (t.form (t.strip q).type).label = tree.strip.label := by
    rw [← hstrip.2, label_tree ht.toLayered]
  have hquals : (t.strip q).quals = tree.strip.quals := by rw [← hstrip.2, quals_tree]
  have hnests : (t.form (t.strip q).type).nests = tree.strip.label.nests := by
    rw [← hlabel, TypeForm.nests_label]
  have hparts := denotesAll_parts ht.toLayered hstrip.1
  rw [hstrip.2] at hparts
  rw [run_rebuild, rebuilt?_eq]
  -- a form with parts is put around what is left of them; any other stays
  by_cases htrue : (t.form (t.strip q).type).nests
  · rw [if_pos htrue, bind_assoc]
    refine Trimming.bind (Trimming.mapM hf hparts) (fun t' cs _ hcs => ?_) ht
    have hlength : cs.length = (t.form (t.strip q).type).parts.length := by
      have hsame := hcs.2.length_eq
      rw [List.length_map] at hsame
      rw [← hsame, ← hparts.2, List.length_map]
    have hcsparts := TypeForm.parts_withParts htrue hlength
    have hnamed (decls : DeclTable) : Named decls ((t.form (t.strip q).type).withParts cs) :=
      named_of_nests (by rw [TypeForm.nests_withParts, htrue]) decls
    rw [pure_bind]
    refine Trimming.imp (trimming_qualified _ ?_ hnamed) fun t'' c hc => ⟨hc.1, ?_⟩
    · rw [hcsparts]
      exact hcs.1
    · rw [hc.2, hcsparts, TypeForm.label_withParts, hlabel, hquals]
      exact .around (hnests ▸ htrue) hcs.2
  · rw [if_neg htrue]
    refine Trimming.pure ⟨hstrip.1, ?_⟩ ht
    rw [hstrip.2]
    exact .core (hnests ▸ htrue)

/-- Canonical types may be kept when they are right up to types left out. -/
lemma trimming_keepCanonical {q c : QualType} {tree : TypeTree} (hq : Denotes t q tree)
    (hc : TrimsTo tree t c) : Trimming t (fun t' _ => TrimsTo tree t' c) (keepCanonical q c) := by
  intro ht
  have hext : Extends t { t with canonicals := t.canonicals.insert q c } := .of_forms rfl
  have hkept : Trimmed { t with canonicals := t.canonicals.insert q c } := by
    refine ⟨⟨ht.parts_lt, ht.ids_iff⟩, fun q' c' hget => ?_⟩
    rw [Std.HashMap.getElem?_insert] at hget
    split at hget
    · next heq =>
        obtain rfl := eq_of_beq heq
        obtain rfl := Option.some.inj hget
        rw [tree_of_extends hext hq.1, hq.2]
        exact ⟨hq.1, hc.mono hext⟩
    · obtain ⟨hq', hc'⟩ := ht.canonicals q' c' hget
      rw [tree_of_extends hext hq']
      exact ⟨hq', hc'.mono hext⟩
  exact ⟨hkept, hext, rfl, rfl, fun _ h => h, hc.mono hext⟩

/-- Where no level is left, an unresolved type is put in place. -/
lemma run_canonicalWithin_zero (q : QualType) (t : TypeTable) :
    (canonicalWithin 0 q).run t =
      match t.canonicals[q]? with
      | some c => (c, t)
      | none => (plain (.unresolved "")).run t := by
  have hknown : (knownCanonical? q).run t = (t.canonicals[q]?, t) := rfl
  rw [canonicalWithin, run_bind, hknown]
  cases t.canonicals[q]? <;> rfl

/-- **Whatever has been kept, a canonical type is the one of its type up to types left out**, and
the table stays trimmed. -/
lemma trims_canonicalWithin (levels : Nat) {q : QualType} {tree : TypeTree}
    (h : Denotes t q tree) : Trimming t (TrimsTo tree) (canonicalWithin levels q) := by
  induction levels generalizing t q tree with
  | zero =>
      intro ht
      rw [run_canonicalWithin_zero]
      cases hknown : t.canonicals[q]? with
      | some known => exact Trimming.pure (ht.kept h hknown) ht
      | none =>
          have hparts : ∀ p ∈ (TypeForm.unresolved "").parts, p.type < t.size := by
            simp [TypeForm.parts]
          -- no level is left: an unresolved type in its place, which is not kept for it
          have hoff := trimming_qualified {} hparts fun _ => trivial
          refine Trimming.imp hoff (fun t' c hc => ⟨hc.1, ?_⟩) ht
          rw [hc.2]
          exact .off tree
  | succ levels ih =>
      intro ht
      rw [run_canonicalWithin_succ]
      cases hknown : t.canonicals[q]? with
      | some known => exact Trimming.pure (ht.kept h hknown) ht
      | none =>
          have hrebuild := trimming_rebuild (fun t' q tree _ hq => ih hq) h
          refine Trimming.bind hrebuild (fun t' c hext hc => ?_) ht
          exact .bind (trimming_keepCanonical (h.mono hext) hc) fun _ _ _ hc' => .pure hc'

end

end TypeTable

end UnitIndex
