import Mathlib.Tactic
import UnitIndex.Proofs.Types.Core

/-!
The unwrapping of types comes to an end by itself.

`Leads` follows the rules with neither a limit on their steps nor a record of the types that have
been met: all that stops it is a rule that finds something, and a type that leads to itself. Still
every type leads somewhere, in fewer steps than it has parts, more or less. What shrinks is the
weight of the type (`TypeTree.weight`), though new types are interned on the way and canonical types
may be cut off: to remove sugar makes a type lighter, so does leaving a part of it out, and a
canonical type that is not lighter is the type itself (`Trims.eq_or_weight_lt`).

So no type is met twice, and a limit that is not met makes no difference: `resolve_settles`.
-/

namespace UnitIndex

namespace TypeTree

/-! ### Weight -/

mutual

/-- How much there is to a type: two for each form in it, and one for what is left out. -/
def weight : TypeTree → Nat
  | node label quals parts =>
    (if label = .unresolved "" ∧ quals = {} then 1 else 2) + weightAll parts

/-- How much there is to some types together. -/
def weightAll : List TypeTree → Nat
  | [] => 0
  | part :: parts => weight part + weightAll parts

end

/-- Every type weighs something. -/
lemma one_le_weight (tree : TypeTree) : 1 ≤ tree.weight := by
  obtain ⟨label, quals, parts⟩ := tree
  rw [weight]
  split <;> omega

/-- Only what stands for a type left out weighs one. -/
lemma one_lt_weight {tree : TypeTree} (h : tree ≠ node (.unresolved "") {} []) :
    1 < tree.weight := by
  obtain ⟨label, quals, parts⟩ := tree
  rw [weight]
  split
  · next hoff =>
      obtain ⟨rfl, rfl⟩ := hoff
      cases parts with
      | nil => exact absurd rfl h
      | cons part parts =>
          rw [weightAll]
          have hpart := one_le_weight part
          omega
  · omega

/-- No part weighs more than all parts. -/
lemma weight_le_weightAll {part : TypeTree} {parts : List TypeTree} (h : part ∈ parts) :
    part.weight ≤ weightAll parts := by
  induction parts with
  | nil => exact absurd h (by simp)
  | cons p ps ih =>
      rw [weightAll]
      rcases List.mem_cons.mp h with rfl | h
      · omega
      · have hle := ih h
        omega

/-- A type weighs more than its parts, unless it stands for what was cut off. -/
lemma weight_of_label_ne {tree : TypeTree} (h : tree.label ≠ .unresolved "") :
    tree.weight = 2 + weightAll tree.parts := by
  obtain ⟨label, quals, parts⟩ := tree
  rw [weight, if_neg fun hoff => h hoff.1]
  rfl

/-! Qualifiers matter only for what is left out. -/

/-- Qualifiers add no more than what such a type lacks. -/
lemma weight_withQuals_le (tree : TypeTree) (quals : Qualifiers) :
    (tree.withQuals quals).weight ≤ tree.weight + 1 := by
  obtain ⟨label, own, parts⟩ := tree
  rw [withQuals, weight, weight]
  split <;> split <;> omega

/-- Without its qualifiers a type is no heavier. -/
lemma weight_bare_le (tree : TypeTree) : tree.bare.weight ≤ tree.weight := by
  obtain ⟨label, quals, parts⟩ := tree
  rw [bare, withQuals, weight, weight]
  split
  · split <;> omega
  · next hne => rw [if_neg fun hoff => hne ⟨hoff.1, rfl⟩]

/-- Nor is it lighter, unless it stands for what was cut off. -/
lemma weight_bare_of_label_ne {tree : TypeTree} (h : tree.label ≠ .unresolved "") :
    tree.bare.weight = tree.weight := by
  have hbare : tree.bare.label ≠ .unresolved "" := by
    cases tree
    exact h
  rw [weight_of_label_ne h, weight_of_label_ne hbare]
  cases tree
  rfl

/-! ### Sugar -/

/-- Sugar does not stand for what was cut off. -/
lemma label_ne_of_sugar {tree : TypeTree} (h : tree.label.sugar?.isSome) :
    tree.label ≠ .unresolved "" := by
  intro hlabel
  rw [hlabel] at h
  exact absurd h (by simp [TypeForm.sugar?])

/-- To remove a layer of sugar changes nothing or makes a type lighter. -/
lemma eq_or_weight_desugar_lt (tree : TypeTree) :
    tree.desugar = tree ∨ tree.desugar.weight < tree.weight := by
  rw [desugar]
  split
  · next hsugar =>
      cases hparts : tree.parts with
      | nil => exact Or.inl rfl
      | cons inner rest =>
          refine Or.inr ?_
          have hweight := weight_of_label_ne (label_ne_of_sugar hsugar)
          have hinner := weight_withQuals_le inner (inner.quals.union tree.quals)
          rw [hparts, weightAll] at hweight
          show (inner.withQuals (inner.quals.union tree.quals)).weight < tree.weight
          omega
  · exact Or.inl rfl

lemma eq_or_weight_stripWithin_lt (layers : Nat) (tree : TypeTree) :
    tree.stripWithin layers = tree ∨ (tree.stripWithin layers).weight < tree.weight := by
  induction layers generalizing tree with
  | zero => exact Or.inl rfl
  | succ layers ih =>
      rw [stripWithin]
      split
      · rcases eq_or_weight_desugar_lt tree with heq | hlt
        · rw [heq]
          exact ih tree
        · rcases ih tree.desugar with heq | hlt'
          · rw [heq]
            exact Or.inr hlt
          · exact Or.inr (hlt'.trans hlt)
      · exact Or.inl rfl

lemma eq_or_weight_strip_lt (tree : TypeTree) :
    tree.strip = tree ∨ tree.strip.weight < tree.weight :=
  eq_or_weight_stripWithin_lt TypeTable.maxSugar tree

/-- Below its sugar no type is heavier. -/
lemma weight_strip_le (tree : TypeTree) : tree.strip.weight ≤ tree.weight := by
  rcases eq_or_weight_strip_lt tree with heq | hlt
  · rw [heq]
  · exact hlt.le

/-- What was cut off has no sugar. -/
lemma strip_of_label_eq {tree : TypeTree} (h : tree.label = .unresolved "") :
    tree.strip = tree := by
  show (if tree.label.sugar?.isSome then _ else tree) = tree
  rw [h]
  rfl

/-- What is inside a type, below its sugar, is lighter than the type without its qualifiers. -/
lemma weight_lt_of_mem_strip {tree part : TypeTree} (hlabel : tree.strip.label ≠ .unresolved "")
    (h : part ∈ tree.strip.parts) : part.weight < tree.bare.weight := by
  have hpart := weight_le_weightAll h
  have hstrip := weight_of_label_ne hlabel
  have hle := weight_strip_le tree
  by_cases hown : tree.label = .unresolved ""
  · rw [strip_of_label_eq hown] at hlabel
    exact absurd hown hlabel
  · rw [weight_bare_of_label_ne hown]
    omega

/-! ### Canonical types -/

namespace Trims

variable {tree c : TypeTree}

/-- Induction over the levels of a canonical type. -/
lemma induction {motive : (tree c : TypeTree) → Trims tree c → Prop}
    (off : ∀ tree, motive tree _ (.off tree))
    (core : ∀ {tree} (hnests : ¬tree.strip.label.nests), motive tree _ (.core hnests))
    (around : ∀ {tree parts} (hnests : tree.strip.label.nests)
      (hparts : List.Forall₂ Trims tree.strip.parts parts),
      List.Forall₂ (fun p p' => ∃ h : Trims p p', motive p p' h) tree.strip.parts parts →
      motive tree _ (.around hnests hparts))
    {tree c : TypeTree} (h : Trims tree c) : motive tree c h :=
  @Trims.rec motive
    (fun as cs _ => List.Forall₂ (fun p p' => ∃ h : Trims p p', motive p p' h) as cs)
    off core around .nil (fun hpart _ ih ihs => .cons ⟨hpart, ih⟩ ihs) tree c h

/-- **A canonical type is the type itself or lighter**, whatever has been left out of it. -/
lemma eq_or_weight_lt (h : Trims tree c) : c = tree ∨ c.weight < tree.weight := by
  induction h using induction with
  | off tree =>
      by_cases hoff : tree = node (.unresolved "") {} []
      · exact Or.inl hoff.symm
      · exact Or.inr (one_lt_weight hoff)
  | core _ => exact eq_or_weight_strip_lt _
  | @around tree parts hnests hparts ih =>
      -- all parts are the same, or one of them is lighter
      have hall : parts = tree.strip.parts ∨ weightAll parts < weightAll tree.strip.parts := by
        generalize tree.strip.parts = parts' at hparts ih
        clear hparts
        induction ih with
        | nil => exact Or.inl rfl
        | cons hpart _ ihs =>
            obtain ⟨_, hpart⟩ := hpart
            rw [weightAll, weightAll]
            rcases hpart with rfl | hlt <;> rcases ihs with rfl | hlts
            · exact Or.inl rfl
            all_goals exact Or.inr (by omega)
      have hstrip : node tree.strip.label tree.strip.quals tree.strip.parts = tree.strip := by
        cases tree.strip
        rfl
      rcases hall with rfl | hlt
      · rw [hstrip]
        exact eq_or_weight_strip_lt tree
      · have hless : (node tree.strip.label tree.strip.quals parts).weight < tree.strip.weight := by
          rw [← hstrip, weight, weight, hstrip]
          omega
        exact Or.inr (hless.trans_le (weight_strip_le tree))

/-- A canonical type is no heavier. -/
lemma weight_le (h : Trims tree c) : c.weight ≤ tree.weight := by
  rcases h.eq_or_weight_lt with rfl | hlt
  · exact le_rfl
  · exact hlt.le

/-- So it is without qualifiers. -/
lemma bare_eq_or_weight_lt (h : Trims tree c) :
    c.bare = tree.bare ∨ c.bare.weight < tree.bare.weight := by
  by_cases hlabel : tree.label = .unresolved ""
  · -- what was cut off is heavier with qualifiers than without, so it is looked at by itself
    have hself := strip_of_label_eq hlabel
    cases h with
    | off =>
        by_cases hoff : tree.bare = node (.unresolved "") {} []
        · exact Or.inl hoff.symm
        · exact Or.inr (one_lt_weight hoff)
    | core =>
        rw [hself]
        exact Or.inl rfl
    | around hnests =>
        rw [hself, hlabel] at hnests
        exact absurd hnests (by simp [TypeForm.nests])
  · rw [weight_bare_of_label_ne hlabel]
    rcases h.eq_or_weight_lt with rfl | hlt
    · exact Or.inl rfl
    · exact Or.inr ((weight_bare_le c).trans_lt hlt)

end Trims

end TypeTree

namespace TypeTable

open TypeTree (Trims)

variable {t t' : TypeTable} {q next : QualType}

/-- How much there is to a type of the table. -/
def weight (t : TypeTable) (id : TypeId) : Nat := (t.tree ⟨id, {}⟩).weight

/-- The weight of a type is that of its tree. -/
lemma weight_eq (t : TypeTable) (q : QualType) : t.weight q.type = (t.tree q).bare.weight := by
  rw [weight, TypeTree.bare, tree_withQuals]

/-- It stays the same when the table grows. -/
lemma weight_of_extends (hext : Extends t t') {id : TypeId} (h : id < t.size) :
    t'.weight id = t.weight id := by
  rw [weight, weight, tree_of_extends hext h]

/-! ### One step -/

/-- What the rules lead on to is inside the type, below its sugar. -/
lemma mem_parts_of_follow (h : t.Layered) (hrule : t.rule q = .follow next) :
    (t.tree q).strip.label ≠ .unresolved "" ∧ next ∈ (t.core q).parts := by
  -- the rules follow pointers and references, and nothing else
  have hindirect : (t.core q).isIndirect ∧ next ∈ (t.core q).parts := by
    rw [rule] at hrule
    split at hrule
    · exact absurd hrule (by simp)
    · split at hrule
      · split at hrule
        · next pointee hpointee =>
            obtain rfl : pointee = next := by simpa using hrule
            rw [pointee?, TypeForm.pointee?_eq] at hpointee
            split at hpointee
            · next hindirect => exact ⟨hindirect, List.mem_of_mem_head? hpointee⟩
            · exact absurd hpointee (by simp)
        · exact absurd hrule (by simp)
      · split at hrule
        · exact absurd hrule (by simp)
        · split at hrule
          · next hreference =>
              obtain rfl : t.nonReference q = next := by simpa using hrule
              rw [isReference] at hreference
              rw [nonReference]
              cases hcore : t.core q with
              | lvalueRef inner | rvalueRef inner =>
                  exact ⟨rfl, List.mem_singleton_self inner⟩
              | _ => simp [hcore, TypeForm.isReference] at hreference
          · exact absurd hrule (by simp)
  refine ⟨fun hlabel => ?_, hindirect.2⟩
  rw [core_eq h] at hlabel
  have hnot : (t.core q).label.isPointer = false ∧ (t.core q).label.isReference = false := by
    rw [hlabel]
    exact ⟨rfl, rfl⟩
  rw [TypeForm.isPointer_label, TypeForm.isReference_label] at hnot
  simp [TypeForm.isIndirect, hnot] at hindirect

/-- A step leads to the same type or to a lighter one. -/
lemma lightens_unwrap (hq : q.type < t.size) :
    Trimming t (fun t' unwrapped => ∀ next, unwrapped = .goOn next → next.type < t'.size ∧
      (next.type = q.type ∨ t'.weight next.type < t.weight q.type)) (unwrap q) := by
  intro ht
  rw [run_unwrap]
  cases hruled : t.rule q with
  | found decl => exact Trimming.pure (fun next hnext => absurd hnext (by simp)) ht
  | follow inner =>
      obtain ⟨hlabel, hmem⟩ := mem_parts_of_follow ht.toLayered hruled
      have hpart : t.tree inner ∈ (t.tree q).strip.parts := by
        rw [parts_strip ht.toLayered]
        exact List.mem_map_of_mem hmem
      -- what is followed is lighter, and its canonical type is no heavier than that
      have hinner := TypeTree.weight_lt_of_mem_strip hlabel hpart
      have hcanonical := trims_canonicalWithin (maxSugar + 1)
        (⟨core_parts_lt ht.toLayered hq hmem, rfl⟩ : Denotes t inner (t.tree inner))
      refine Trimming.bind hcanonical (fun t' c _ hc => .pure fun next hnext => ?_) ht
      obtain rfl : c = next := by simpa using hnext
      refine ⟨hc.1, Or.inr ?_⟩
      rw [weight_eq, weight_eq]
      exact ((TypeTree.weight_bare_le _).trans hc.2.weight_le).trans_lt hinner
  | bare =>
      have hself : Denotes t q (t.tree q) := ⟨hq, rfl⟩
      have hcanonical := trims_canonicalWithin (maxSugar + 1) hself
      show TrimOutcome t ((canonicalUnqualified q >>= _).run t) _
      rw [canonicalUnqualified, bind_assoc]
      refine Trimming.bind hcanonical (fun t' c hext hc => ?_) ht
      rw [pure_bind]
      refine fun ht' => Trimming.pure (fun next hnext => ?_) ht'
      obtain rfl : ⟨c.type, {}⟩ = next := by simpa using hnext
      -- a canonical type that is not lighter is the type itself, and so it has its id
      have hsame : c.type = q.type ↔ (t'.tree c).bare = (t.tree q).bare :=
        Denotes.type_eq_iff ht'.toLayered ⟨hc.1, rfl⟩ (hself.mono hext)
      show c.type < t'.size ∧ (c.type = q.type ∨ t'.weight c.type < t.weight q.type)
      rw [hsame, weight_eq, weight_eq]
      exact ⟨hc.1, hc.2.bare_eq_or_weight_lt⟩

/-! ### All steps -/

/-- The rules lead from a type to a declaration, or to none, in so many steps. The last one finds
it, or leads to the type that it starts from. -/
inductive Leads : Nat → TypeTable → QualType → Option NodeId × TypeTable → Prop
  | found {t t' : TypeTable} {q : QualType} {decl : Option NodeId} :
      (unwrap q).run t = (.found decl, t') → Leads 1 t q (decl, t')
  | stays {t t' : TypeTable} {q next : QualType} :
      (unwrap q).run t = (.goOn next, t') → next.type = q.type → Leads 1 t q (none, t')
  | goOn {n : Nat} {t t' : TypeTable} {q next : QualType} {r : Option NodeId × TypeTable} :
      (unwrap q).run t = (.goOn next, t') → next.type ≠ q.type → Leads n t' next r →
      Leads (n + 1) t q r

/-- Every type leads somewhere. -/
lemma exists_leads (ht : Trimmed t) (hq : q.type < t.size) :
    ∃ n r, n ≤ t.weight q.type ∧ Leads n t q r := by
  induction hweight : t.weight q.type using Nat.strongRecOn generalizing t q with
  | _ weight ih =>
      subst hweight
      have hout := lightens_unwrap hq ht
      have hone : 1 ≤ t.weight q.type := TypeTree.one_le_weight _
      generalize hrun : (unwrap q).run t = r at hout
      obtain ⟨unwrapped, t'⟩ := r
      cases unwrapped with
      | found decl => exact ⟨1, _, hone, .found hrun⟩
      | goOn next =>
          obtain ⟨hnext, hlight⟩ := hout.result next rfl
          -- the type itself, where the rules end, or a lighter one
          by_cases hstays : next.type = q.type
          · exact ⟨1, _, hone, .stays hrun hstays⟩
          · have hlt := hlight.resolve_left hstays
            obtain ⟨n, r, hn, hleads⟩ := ih _ hlt hout.trimmed hnext rfl
            exact ⟨n + 1, r, hn.trans_lt hlt, .goOn hrun hstays hleads⟩

/-- One step of resolving. -/
lemma run_resolveWithin_succ (steps : Nat) {visited : List TypeId} (hnew : q.type ∉ visited)
    (t : TypeTable) :
    (resolveWithin (steps + 1) visited q).run t =
      match (unwrap q).run t with
      | (.found decl, t') => (decl, t')
      | (.goOn next, t') =>
        if next.type = q.type then (none, t')
        else (resolveWithin steps (q.type :: visited) next).run t' := by
  rw [resolveWithin, if_neg hnew, run_bind]
  generalize (unwrap q).run t = r
  obtain ⟨unwrapped | next, t'⟩ := r
  · rfl
  · dsimp only
    split <;> rfl

/-- The limit and the types met before make no difference where the rules lead somewhere, as long as
these are heavier; and with fewer steps nothing is found. -/
lemma Leads.run_resolveWithin {n : Nat} {r : Option NodeId × TypeTable} (h : Leads n t q r)
    (ht : Trimmed t) (hq : q.type < t.size) {visited : List TypeId}
    (hvisited : ∀ id ∈ visited, id < t.size ∧ t.weight q.type < t.weight id) (steps : Nat) :
    (n ≤ steps → (resolveWithin steps visited q).run t = r) ∧
      (steps < n → ((resolveWithin steps visited q).run t).1 = none) := by
  induction h generalizing visited steps with
  | @found _ _ q decl hrun =>
      have hnew : q.type ∉ visited := fun hmem => (hvisited _ hmem).2.false
      cases steps with
      | zero => exact ⟨fun hle => absurd hle (by omega), fun _ => rfl⟩
      | succ steps =>
          rw [run_resolveWithin_succ steps hnew, hrun]
          exact ⟨fun _ => rfl, fun hlt => absurd hlt (by omega)⟩
  | @stays _ _ q next hrun hstays =>
      have hnew : q.type ∉ visited := fun hmem => (hvisited _ hmem).2.false
      cases steps with
      | zero => exact ⟨fun hle => absurd hle (by omega), fun _ => rfl⟩
      | succ steps =>
          rw [run_resolveWithin_succ steps hnew, hrun]
          dsimp only
          rw [if_pos hstays]
          exact ⟨fun _ => rfl, fun hlt => absurd hlt (by omega)⟩
  | @goOn n t t' q next r hrun hother _ ih =>
      have hnew : q.type ∉ visited := fun hmem => (hvisited _ hmem).2.false
      cases steps with
      | zero => exact ⟨fun hle => absurd hle (by omega), fun _ => rfl⟩
      | succ steps =>
          have hout := lightens_unwrap hq ht
          rw [hrun] at hout
          obtain ⟨hnext, hlight⟩ := hout.result next rfl
          have hlt := hlight.resolve_left hother
          have hheavier : ∀ id ∈ q.type :: visited, id < t'.size ∧
              t'.weight next.type < t'.weight id := by
            intro id hid
            have hold : id < t.size ∧ t.weight q.type ≤ t.weight id := by
              rcases List.mem_cons.mp hid with rfl | hid
              · exact ⟨hq, le_rfl⟩
              · exact ⟨(hvisited id hid).1, (hvisited id hid).2.le⟩
            rw [weight_of_extends hout.grown hold.1]
            exact ⟨hold.1.trans_le hout.grown.size_le, hlt.trans_le hold.2⟩
          obtain ⟨henough, hfew⟩ := ih hout.trimmed hnext hheavier steps
          rw [run_resolveWithin_succ steps hnew, hrun]
          dsimp only
          rw [if_neg hother]
          exact ⟨fun hle => henough (by omega), fun hlt => hfew (by omega)⟩

/-- **The limit on unwrapping is only a backstop.** In a table that is used by whatever calls, on
whatever declarations, a declaration that is found within a limit is found within every larger one.
For the rules lead from every type to an answer by themselves, with neither a limit nor a record of
the types met, in `n` steps, no more than the weight of the type: whatever limit allows for as many
steps gives just this answer and leaves the same table behind, and below it nothing is found. -/
theorem resolve_settles (decls : DeclTable) (t : TypeTable) (q : QualType) (ht : Used decls t)
    (hq : q.type < t.size) :
    (∀ maxDepth more decl, ((resolve maxDepth q).run t).1 = some decl →
        ((resolve (maxDepth + more) q).run t).1 = some decl) ∧
      ∃ n r, n ≤ t.weight q.type ∧ Leads n t q r ∧
        (∀ maxDepth, n ≤ maxDepth → (resolve maxDepth q).run t = r) ∧
        ∀ maxDepth, maxDepth < n → ((resolve maxDepth q).run t).1 = none := by
  have htrimmed := ht.tended.toTrimmed
  obtain ⟨n, r, hn, hleads⟩ := exists_leads htrimmed hq
  have hruns : ∀ steps, (n ≤ steps → (resolve steps q).run t = r) ∧
      (steps < n → ((resolve steps q).run t).1 = none) :=
    hleads.run_resolveWithin htrimmed hq (by simp)
  refine ⟨fun maxDepth more decl hfound => ?_, n, r, hn, hleads, fun maxDepth => (hruns maxDepth).1,
    fun maxDepth => (hruns maxDepth).2⟩
  have henough : n ≤ maxDepth := by
    by_contra hfew
    have hnone := (hruns maxDepth).2 (by omega)
    exact absurd (hnone.symm.trans hfound) (by simp)
  have hsame := ((hruns maxDepth).1 henough).trans ((hruns (maxDepth + more)).1 (by omega)).symm
  rw [← hsame]
  exact hfound

/-- The class behind a reference to a pointer to it is found with two steps or more. -/
theorem resolve_settles_ladder :
    Used ladder ladderType.2 ∧ ladderType.1.type < ladderType.2.size ∧
      ∀ more, ((resolve (2 + more) ladderType.1).run ladderType.2).1 = some ⟨2⟩ := by
  have hfresh : Used ladder {} := .fresh
  have hused : Used ladder ladderType.2 := hfresh.call (.build (.written _)) trivial
  have hlt : ladderType.1.type < ladderType.2.size := by
    rw [ladderType_eq]
    cbv
  have htwo : ((resolve 2 ladderType.1).run ladderType.2).1 = some ⟨2⟩ := by
    rw [ladderType_eq]
    cbv
  have hmore := (resolve_settles ladder _ _ hused hlt).1
  exact ⟨hused, hlt, fun more => hmore 2 more ⟨2⟩ htwo⟩

end TypeTable

end UnitIndex
