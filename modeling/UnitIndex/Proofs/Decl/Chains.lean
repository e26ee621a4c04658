import Mathlib.Tactic
import UnitIndex.Proofs.Decl.Lookup

/-!
Chains of redeclarations.

The declarations of a variable are linked backwards (`Redeclares`), and as long as the limit on
chains is kept, all of them find the first one (`InChain.chainRoot_eq`). A table in which some
declarations no longer count as definitions (`Relinked`) has the same chains.
-/

namespace UnitIndex.DeclTable

/-- From a declaration, so many links lead back to the first one of its chain. -/
inductive Redeclares (t : DeclTable) : Nat → NodeId → NodeId → Prop
  | first {root : NodeId} : t.previous? root = none → Redeclares t 0 root root
  | link {n : Nat} {id previous root : NodeId} : t.previous? id = some previous →
      Redeclares t n previous root → Redeclares t (n + 1) id root

/-- The declaration is in the chain of that first declaration, within the limit on chains. -/
def InChain (t : DeclTable) (root id : NodeId) : Prop :=
  ∃ links ≤ maxChain, Redeclares t links id root

/-- As long as the limit is kept, the walk back along a chain ends at its first declaration. -/
lemma Redeclares.chainRootWithin_eq {t : DeclTable} {n : Nat} {id root : NodeId}
    (h : Redeclares t n id root) {steps : Nat} (hsteps : n ≤ steps) :
    t.chainRootWithin steps id = root := by
  induction h generalizing steps with
  | first hroot =>
      cases steps with
      | zero => rfl
      | succ steps => rw [chainRootWithin, hroot]
  | link hprevious _ ih =>
      cases steps with
      | zero => omega
      | succ steps =>
          rw [chainRootWithin, hprevious]
          exact ih (by omega)

/-- All declarations of a chain find the same first one. -/
lemma InChain.chainRoot_eq {t : DeclTable} {root id : NodeId} (h : InChain t root id) :
    t.chainRoot id = root := by
  obtain ⟨links, hle, hlinks⟩ := h
  exact hlinks.chainRootWithin_eq hle

lemma Redeclares.previous?_root {t : DeclTable} {n : Nat} {id root : NodeId}
    (h : Redeclares t n id root) : t.previous? root = none := by
  induction h with
  | first hroot => exact hroot
  | link _ _ ih => exact ih

/-- Where the walk back has come to an end, it has gone along a chain. -/
lemma redeclares_chainRootWithin {t : DeclTable} {steps : Nat} {id : NodeId}
    (h : t.previous? (t.chainRootWithin steps id) = none) :
    ∃ n ≤ steps, Redeclares t n id (t.chainRootWithin steps id) := by
  induction steps generalizing id with
  | zero => exact ⟨0, le_rfl, .first h⟩
  | succ steps ih =>
      rw [chainRootWithin] at h ⊢
      cases hprevious : t.previous? id with
      | none => exact ⟨0, by omega, .first hprevious⟩
      | some previous =>
          rw [hprevious] at h
          obtain ⟨n, hn, hlinks⟩ := ih h
          exact ⟨n + 1, by omega, .link hprevious hlinks⟩

/-- A walk along the links tells whether a declaration is in a chain. -/
lemma inChain_iff {t : DeclTable} {root id : NodeId} :
    InChain t root id ↔ t.chainRoot id = root ∧ t.previous? root = none := by
  constructor
  · intro h
    have hroot := h.chainRoot_eq
    obtain ⟨_, -, hlinks⟩ := h
    exact ⟨hroot, hlinks.previous?_root⟩
  · rintro ⟨rfl, hroot⟩
    exact redeclares_chainRootWithin hroot

instance (t : DeclTable) (root id : NodeId) : Decidable (InChain t root id) :=
  decidable_of_iff _ inChain_iff.symm

/-- Two declarations are in one chain, within the limit on chains. -/
def SameChain (t : DeclTable) (x y : NodeId) : Prop := ∃ root, InChain t root x ∧ InChain t root y

/-- What is in a chain is in one with the declarations that find the same first one, and no
others. -/
lemma InChain.sameChain_iff {t : DeclTable} {root x y : NodeId} (hx : InChain t root x)
    (hy : ∃ root, InChain t root y) : SameChain t x y ↔ t.chainRoot y = root := by
  constructor
  · rintro ⟨root', hx', hy'⟩
    rw [hy'.chainRoot_eq, ← hx'.chainRoot_eq, hx.chainRoot_eq]
  · rintro rfl
    obtain ⟨root, hroot⟩ := hy
    obtain rfl := hroot.chainRoot_eq
    exact ⟨_, hx, hroot⟩

instance (t : DeclTable) (x y : NodeId) : Decidable (SameChain t x y) :=
  decidable_of_iff (InChain t (t.chainRoot x) x ∧ InChain t (t.chainRoot x) y)
    ⟨fun h => ⟨_, h⟩, fun ⟨_, hx, hy⟩ => hx.chainRoot_eq.symm ▸ ⟨hx, hy⟩⟩

/-! ### What linking changes -/

/-- Some declarations no longer count as definitions, and nothing else has changed. -/
def Relinked (t s : DeclTable) : Prop :=
  ∀ id, s.get? id = t.get? id ∨
    ∃ d, t.get? id = some d ∧ s.get? id = some { d with isDefinition := false }

namespace Relinked

variable {t s : DeclTable}

/-- Nothing is relinked if the declarations are the same. -/
lemma of_decls (h : s.decls = t.decls) : Relinked t s := by
  intro id
  left
  rw [get?, h, get?]

/-- What is known now was known before. -/
lemma exists_get? (h : Relinked t s) {id : NodeId} {d : DeclInfo} (hd : s.get? id = some d) :
    ∃ e, t.get? id = some e ∧ d.cls = e.cls ∧ d.isTentative = e.isTentative ∧
      d.previous = e.previous ∧ (d.isDefinition → e.isDefinition) := by
  rcases h id with heq | ⟨e, he, heq⟩
  · exact ⟨d, heq ▸ hd, rfl, rfl, rfl, fun hdef => hdef⟩
  · obtain rfl := Option.some.inj (heq.symm.trans hd)
    exact ⟨e, he, rfl, rfl, rfl, fun hdef => absurd hdef (by simp)⟩

lemma isSome_get? (h : Relinked t s) (id : NodeId) : (s.get? id).isSome = (t.get? id).isSome := by
  rcases h id with heq | ⟨d, hd, heq⟩
  · rw [heq]
  · rw [hd, heq]
    rfl

/-- Linking keeps what a declaration redeclares. -/
lemma map_previous (h : Relinked t s) (id : NodeId) :
    (s.get? id).map (·.previous) = (t.get? id).map (·.previous) := by
  rcases h id with heq | ⟨d, hd, heq⟩
  · rw [heq]
  · rw [hd, heq]
    rfl

/-- Relinking leaves the links alone. -/
lemma previous?_eq (h : Relinked t s) (id : NodeId) : s.previous? id = t.previous? id := by
  have hbind (u : DeclTable) : u.previous? id = ((u.get? id).map (·.previous)).bind fun previous? =>
      previous?.bind fun previous =>
        if previous ≠ id ∧ (u.get? previous).isSome then some previous else none := by
    rw [previous?, Option.bind_map]
    simp only [get?, Std.HashMap.isSome_getElem?_iff_mem, Std.HashMap.contains_iff_mem]
    rfl
  rw [hbind, hbind, h.map_previous]
  simp only [h.isSome_get?]

/-- So chains have the same first declarations. -/
lemma chainRoot_eq (h : Relinked t s) (id : NodeId) : s.chainRoot id = t.chainRoot id := by
  have hwithin (steps : Nat) : s.chainRootWithin steps id = t.chainRootWithin steps id := by
    induction steps generalizing id with
    | zero => rfl
    | succ steps ih =>
        rw [chainRootWithin, chainRootWithin, h.previous?_eq]
        cases t.previous? id with
        | none => rfl
        | some previous => exact ih previous
  exact hwithin maxChain

end Relinked

end UnitIndex.DeclTable
