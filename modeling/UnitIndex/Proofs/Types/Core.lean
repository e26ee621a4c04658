import Mathlib.Tactic
import UnitIndex.Proofs.Types.Arena

/-!
The core of a type.

Below its sugar, its pointers and its references a type has a core. `TypeTree.Layers` counts the
layers above it, all of them and those that are pointers or references, and the main statement,
`resolve_core`, tells from these numbers and the core what a type resolves to: each step of the
rules removes one pointer or reference, with all the sugar around it, and the rules find a record of
the language with classes one layer early.

There are two ways to it. If the rules find something in the core, the canonical types on the way
are not cut off, and the rules can be followed on trees, layer by layer
(`Layers.resolveWithin`). If they do not, the core may be an array or a function of any depth, whose
canonical type may well be cut off; but what is cut off is as dead as what was there before
(`Dead.trims`), and nothing is found (`trimming_resolveWithin`).
-/

namespace UnitIndex

namespace TypeForm

/-- Whether the form is a pointer or a reference. -/
def isIndirect (form : TypeForm) : Bool := form.isPointer || form.isReference

/-- What the rules find where the form is the core: a record that they see as one, or the template
of a template-id. -/
def found? (form : TypeForm) : Option (Option NodeId) :=
  match form.structure?.or (form.union?.or form.cxxRecord?) with
  | some decl => some (some decl)
  | none => form.template?

/-- Found are structures and unions, records without a tag, and all those of the language with
classes. -/
lemma found?_record (decl : NodeId) (tag : Option Tag) (isCxx : Bool) :
    (record decl tag isCxx).found? =
      if tag = some .struct ∨ tag = some .union ∨ tag = none ∨ isCxx then some (some decl)
      else none := by
  cases isCxx <;> rcases tag with _ | _ | _ | _ | _ <;> rfl

/-- A record says itself whether it is one of the language with classes. -/
lemma isSome_cxxRecord?_record (decl : NodeId) (tag : Option Tag) (isCxx : Bool) :
    (record decl tag isCxx).cxxRecord?.isSome = isCxx := by
  cases isCxx <;> rfl

section

variable {form : TypeForm}

/-- Pointers and references have a type inside of them, and are nothing else. -/
lemma nests_of_isIndirect (h : form.isIndirect) : form.nests := by
  cases form <;> simp_all [isIndirect, isPointer, isReference, nests]

lemma sugar?_of_isIndirect (h : form.isIndirect) : form.sugar? = none := by
  cases form <;> simp_all [isIndirect, isPointer, isReference, sugar?]

lemma template?_of_isIndirect (h : form.isIndirect) : form.template? = none := by
  cases form <;> simp_all [isIndirect, isPointer, isReference, template?]

lemma structure?_of_isIndirect (h : form.isIndirect) : form.structure? = none := by
  cases form <;> simp_all [isIndirect, isPointer, isReference, structure?]

lemma union?_of_isIndirect (h : form.isIndirect) : form.union? = none := by
  cases form <;> simp_all [isIndirect, isPointer, isReference, union?]

lemma cxxRecord?_of_isIndirect (h : form.isIndirect) : form.cxxRecord? = none := by
  cases form <;> simp_all [isIndirect, isPointer, isReference, cxxRecord?]

/-- Where the rules find something there are no types inside to be made canonical. -/
lemma nests_of_found? {found : Option NodeId} (h : form.found? = some found) :
    form.nests = false := by
  cases form <;> simp_all [found?, nests, structure?, union?, cxxRecord?, template?]

/-- What is not found is no record with classes either. -/
lemma cxxRecord?_of_found?_eq_none (h : form.found? = none) : form.cxxRecord? = none := by
  rw [found?] at h
  split at h
  · exact absurd h (by simp)
  · next hnone => exact (Option.or_eq_none_iff.mp (Option.or_eq_none_iff.mp hnone).2).2

/-- A record of the language with classes is found. -/
lemma found?_of_cxxRecord? {decl : NodeId} (h : form.cxxRecord? = some decl) :
    form.found? = some (some decl) := by
  obtain ⟨tag, isCxx, rfl⟩ := TypeTable.eq_record_of_cxxRecord? h
  rw [found?, h]
  cases tag with
  | none => rfl
  | some tag => cases tag <;> rfl

end

end TypeForm

namespace TypeTree

open TypeTable (Rule Unwrapped maxSugar)

/-! ### Layers -/

/-- The type has this core below `n` layers of sugar, pointers and references, of which `k` are
pointers or references. Template-ids are cores; an alias of a known type is none. -/
inductive Layers (core : TypeForm) : TypeTree → Nat → Nat → Prop
  | core {tree : TypeTree} : tree.label = core → core.sugar? = none → core.isIndirect = false →
      Layers core tree 0 0
  | sugar {tree inner : TypeTree} {n k : Nat} : tree.label.sugar?.isSome →
      tree.label.template? = none → tree.parts = [inner] → Layers core inner n k →
      Layers core tree (n + 1) k
  | indirect {tree inner : TypeTree} {n k : Nat} : tree.label.isIndirect → tree.parts = [inner] →
      Layers core inner n k → Layers core tree (n + 1) (k + 1)

@[simp] lemma label_withQuals (tree : TypeTree) (quals : Qualifiers) :
    (tree.withQuals quals).label = tree.label := by
  cases tree
  rfl

@[simp] lemma parts_withQuals (tree : TypeTree) (quals : Qualifiers) :
    (tree.withQuals quals).parts = tree.parts := by
  cases tree
  rfl

namespace Layers

variable {core : TypeForm} {tree : TypeTree} {n k : Nat}

/-- Qualifiers make no difference. -/
lemma withQuals (h : Layers core tree n k) (quals : Qualifiers) :
    Layers core (tree.withQuals quals) n k := by
  cases h with
  | core hlabel hsugar hindirect =>
      exact .core (by rw [label_withQuals, hlabel]) hsugar hindirect
  | sugar hsugar htemplate hparts hinner =>
      exact .sugar (by rwa [label_withQuals]) (by rwa [label_withQuals])
        (by rwa [parts_withQuals]) hinner
  | indirect hindirect hparts hinner =>
      exact .indirect (by rwa [label_withQuals]) (by rwa [parts_withQuals]) hinner

/-- A core is neither sugar nor indirect. -/
lemma core_plain (h : Layers core tree n k) : core.sugar? = none ∧ core.isIndirect = false := by
  induction h with
  | core _ hsugar hindirect => exact ⟨hsugar, hindirect⟩
  | sugar _ _ _ _ ih => exact ih
  | indirect _ _ _ ih => exact ih

/-- A type has but one number of pointers and references. -/
lemma unique {n' k' : Nat} (h : Layers core tree n k) (h' : Layers core tree n' k') : k = k' := by
  induction h generalizing n' k' with
  | core hlabel hsugar hindirect =>
      cases h' with
      | core => rfl
      | sugar hsome => exact absurd hsome (by simp [hlabel, hsugar])
      | indirect htrue => exact absurd htrue (by simp [hlabel, hindirect])
  | sugar hsome _ hparts _ ih =>
      cases h' with
      | core hlabel hsugar _ => exact absurd hsome (by simp [hlabel, hsugar])
      | sugar _ _ hparts' hinner' =>
          rw [hparts, List.cons.injEq] at hparts'
          exact ih (hparts'.1 ▸ hinner')
      | indirect htrue => exact absurd hsome (by simp [TypeForm.sugar?_of_isIndirect htrue])
  | indirect htrue hparts _ ih =>
      cases h' with
      | core hlabel _ hindirect => exact absurd htrue (by simp [hlabel, hindirect])
      | sugar hsome => exact absurd hsome (by simp [TypeForm.sugar?_of_isIndirect htrue])
      | indirect _ hparts' hinner' =>
          rw [hparts, List.cons.injEq] at hparts'
          rw [ih (hparts'.1 ▸ hinner')]

/-- Not more layers are indirect than there are. -/
lemma indirect_le (h : Layers core tree n k) : k ≤ n := by
  induction h with
  | core => exact le_rfl
  | sugar _ _ _ _ ih => exact ih.trans (Nat.le_succ _)
  | indirect _ _ _ ih => exact Nat.succ_le_succ ih

/-- Types with different numbers of pointers and references are different, whatever their
qualifiers. -/
lemma bare_ne {tree' : TypeTree} {n' k' : Nat} (h : Layers core tree n k)
    (h' : Layers core tree' n' k') (hne : k ≠ k') : tree.bare ≠ tree'.bare := by
  intro heq
  have hbare : Layers core tree.bare n k := h.withQuals {}
  rw [heq] at hbare
  exact hne (hbare.unique (h'.withQuals {}))

/-! ### Stripping -/

/-- A layer of sugar less. -/
lemma desugar {inner : TypeTree} (hsugar : tree.label.sugar?.isSome) (hparts : tree.parts = [inner])
    (h : Layers core inner n k) : Layers core tree.desugar n k := by
  rw [TypeTree.desugar, if_pos hsugar, hparts]
  exact h.withQuals _

/-- Stripping removes sugar, and no pointer or reference. -/
lemma stripWithin {layers : Nat} (h : Layers core tree n k) (hn : n ≤ layers) :
    (tree.stripWithin layers).label.sugar? = none ∧
      ∃ m ≤ n, Layers core (tree.stripWithin layers) m k := by
  induction layers generalizing tree n with
  | zero =>
      cases h with
      | core hlabel hsugar hindirect =>
          exact ⟨by rw [TypeTree.stripWithin, hlabel, hsugar], 0, le_rfl,
            .core hlabel hsugar hindirect⟩
      | sugar => exact absurd hn (by simp)
      | indirect => exact absurd hn (by simp)
  | succ layers ih =>
      rw [TypeTree.stripWithin]
      cases h with
      | core hlabel hsugar hindirect =>
          rw [if_neg (by simp [hlabel, hsugar])]
          exact ⟨by rw [hlabel, hsugar], 0, le_rfl, .core hlabel hsugar hindirect⟩
      | sugar hsome htemplate hparts hinner =>
          rw [if_pos hsome]
          -- a layer of sugar less, and so is the number of steps
          obtain ⟨hbare, m, hm, hstripped⟩ := ih (hinner.desugar hsome hparts) (by omega)
          exact ⟨hbare, m, by omega, hstripped⟩
      | indirect htrue hparts hinner =>
          have hnone := TypeForm.sugar?_of_isIndirect htrue
          rw [if_neg (by simp [hnone])]
          exact ⟨hnone, _, le_rfl, .indirect htrue hparts hinner⟩

/-- Below the outer sugar there is the core, if there is no pointer or reference. -/
lemma strip_zero (h : Layers core tree n 0) (hn : n ≤ maxSugar) : tree.strip.label = core := by
  obtain ⟨hbare, m, -, hstripped⟩ := h.stripWithin hn
  cases hstripped with
  | core hlabel => exact hlabel
  | sugar hsome => exact absurd hsome (by rw [hbare]; simp)

/-- Else there is a pointer or reference. -/
lemma strip_succ (h : Layers core tree n (k + 1)) (hn : n ≤ maxSugar) :
    tree.strip.label.isIndirect ∧
      ∃ inner m, tree.strip.parts = [inner] ∧ m < n ∧ Layers core inner m k := by
  obtain ⟨hbare, m, hm, hstripped⟩ := h.stripWithin hn
  cases hstripped with
  | sugar hsome => exact absurd hsome (by rw [hbare]; simp)
  | indirect htrue hparts hinner => exact ⟨htrue, _, _, hparts, by omega, hinner⟩

/-! ### Rules -/

/-- Nothing is behind a type without pointers and references. -/
lemma pointee?_zero (h : Layers core tree n 0) (hn : n ≤ maxSugar) : tree.pointee? = none := by
  have hcore : ¬(tree.strip.label.isPointer || tree.strip.label.isReference) := by
    rw [h.strip_zero hn]
    exact Bool.eq_false_iff.mp h.core_plain.2
  rw [TypeTree.pointee?, if_neg hcore]

/-- What the core is found as, it is found as through any sugar. -/
lemma direct?_zero (h : Layers core tree n 0) (hn : n ≤ maxSugar) :
    tree.direct? = core.structure?.or (core.union?.or core.cxxRecord?) := by
  rw [direct?, h.strip_zero hn, h.pointee?_zero hn, Option.bind_none, Option.or_none]

/-- Through a pointer or reference only a record of the language with classes is seen. -/
lemma direct?_succ (h : Layers core tree n (k + 1)) (hn : n ≤ maxSugar) :
    tree.direct? = if k = 0 then core.cxxRecord? else none := by
  obtain ⟨htrue, inner, m, hparts, hm, hinner⟩ := h.strip_succ hn
  have hpointee : tree.pointee? = some inner := by
    have hindirect : tree.strip.label.isPointer || tree.strip.label.isReference := htrue
    rw [pointee?, if_pos hindirect, hparts]
    rfl
  rw [direct?, TypeForm.structure?_of_isIndirect htrue, TypeForm.union?_of_isIndirect htrue,
    TypeForm.cxxRecord?_of_isIndirect htrue, hpointee]
  show inner.strip.label.cxxRecord? = _
  cases k with
  | zero => rw [hinner.strip_zero (by omega), if_pos rfl]
  | succ k =>
      have hinner' := (hinner.strip_succ (by omega)).1
      rw [TypeForm.cxxRecord?_of_isIndirect hinner', if_neg (Nat.succ_ne_zero k)]

/-- A template-id is seen through sugar, but not through pointers or references. -/
lemma specializationWithin {layers : Nat} (h : Layers core tree n k) (hn : n < layers) :
    tree.specializationWithin layers = if k = 0 then core.template? else none := by
  induction layers generalizing tree n with
  | zero => exact absurd hn (Nat.not_lt_zero n)
  | succ layers ih =>
      rw [TypeTree.specializationWithin]
      cases h with
      | core hlabel hsugar _ =>
          rw [hlabel, hsugar, if_pos rfl]
          cases core.template? <;> rfl
      | sugar hsome htemplate hparts hinner =>
          rw [htemplate]
          dsimp only
          rw [if_pos hsome, ih (hinner.desugar hsome hparts) (by omega)]
      | indirect htrue =>
          rw [TypeForm.template?_of_isIndirect htrue, TypeForm.sugar?_of_isIndirect htrue]
          rfl

/-- At the core the rules find it, or have nothing left but to strip it. -/
lemma rule_zero (h : Layers core tree n 0) (hn : n < maxSugar) :
    tree.rule = match core.found? with
      | some found => .found found
      | none => .bare := by
  have hindirect : core.isPointer = false ∧ core.isReference = false := by
    simpa [TypeForm.isIndirect] using h.core_plain.2
  rw [rule, h.direct?_zero hn.le, h.specializationWithin hn, h.strip_zero hn.le, hindirect.1,
    hindirect.2, TypeForm.found?]
  cases core.structure?.or (core.union?.or core.cxxRecord?) with
  | some decl => rfl
  | none => cases core.template? <;> rfl

/-- Behind one pointer or reference the rules find a record of the language with classes. -/
lemma rule_one {decl : NodeId} (h : Layers core tree n 1) (hn : n < maxSugar)
    (hcxx : core.cxxRecord? = some decl) : tree.rule = .found (some decl) := by
  rw [rule, h.direct?_succ hn.le, if_pos rfl, hcxx]

/-- Else they follow the pointer or reference. -/
lemma rule_succ (h : Layers core tree n (k + 1)) (hn : n < maxSugar)
    (hcxx : k = 0 → core.cxxRecord? = none) :
    ∃ inner m, tree.rule = .follow inner ∧ m < n ∧ Layers core inner m k := by
  obtain ⟨htrue, inner, m, hparts, hm, hinner⟩ := h.strip_succ hn.le
  refine ⟨inner, m, ?_, hm, hinner⟩
  -- nothing is found directly, but for a record with classes behind the last pointer
  have hdirect : tree.direct? = none := by
    rw [h.direct?_succ hn.le]
    split
    · next hk => exact hcxx hk
    · rfl
  have htemplate : tree.specializationWithin maxSugar = none := by
    rw [h.specializationWithin hn, if_neg (Nat.succ_ne_zero k)]
  rw [rule, hdirect, htemplate, pointee?, nonReference, hparts]
  dsimp only
  cases hpointer : tree.strip.label.isPointer with
  | true => rfl
  | false =>
      have hreference : tree.strip.label.isReference := by
        rw [TypeForm.isIndirect, hpointer] at htrue
        exact htrue
      rw [hreference]
      rfl

/-! ### Cores that are found -/

/-- The canonical type of such a type is its core below its pointers and references. -/
lemma canonicalWithin {levels : Nat} (h : Layers core tree n k) (hn : n ≤ maxSugar)
    (hcore : core.nests = false) (hk : k < levels) :
    ∃ c, tree.canonicalWithin levels = some c ∧ Layers core c k k := by
  obtain ⟨levels, rfl⟩ := Nat.exists_eq_add_one_of_ne_zero (Nat.ne_zero_of_lt hk)
  rw [TypeTree.canonicalWithin]
  induction k generalizing levels tree n with
  | zero =>
      have hlabel := h.strip_zero hn
      refine ⟨tree.strip, ?_, .core hlabel h.core_plain.1 h.core_plain.2⟩
      rw [rebuild, hlabel, hcore]
      rfl
  | succ k ih =>
      obtain ⟨htrue, inner, m, hparts, hm, hinner⟩ := h.strip_succ hn
      obtain ⟨levels, rfl⟩ := Nat.exists_eq_add_one_of_ne_zero (n := levels) (by omega)
      obtain ⟨c, hc, hlayers⟩ := ih hinner (by omega) levels (by omega)
      refine ⟨node tree.strip.label tree.strip.quals [c], ?_, .indirect htrue rfl hlayers⟩
      rw [rebuild, if_pos (TypeForm.nests_of_isIndirect htrue), hparts, List.mapM_cons,
        TypeTree.canonicalWithin, hc]
      rfl

/-- If nothing is found yet, the next type has one pointer or reference less, and no sugar. -/
lemma unwrap_succ (h : Layers core tree n (k + 1)) (hn : n < maxSugar)
    (hcore : core.nests = false) (hcxx : k = 0 → core.cxxRecord? = none) :
    ∃ c, tree.unwrap = some (.goOn c) ∧ Layers core c k k := by
  obtain ⟨inner, m, hrule, hm, hinner⟩ := h.rule_succ hn hcxx
  have hle := hinner.indirect_le
  obtain ⟨c, hc, hlayers⟩ :
      ∃ c, inner.canonicalWithin (maxSugar + 1) = some c ∧ Layers core c k k :=
    hinner.canonicalWithin (by omega) hcore (by omega)
  refine ⟨c, ?_, hlayers⟩
  rw [unwrap, hrule]
  dsimp only
  rw [canonical, hc]
  rfl

/-- One more pointer or reference takes one more step, except for the last one in front of what is
found early. -/
lemma enough_succ_iff {steps k : Nat} {early : Bool} (h : ¬(k = 0 ∧ early)) :
    (k + 1 < steps + 1 ∨ k + 1 = steps + 1 ∧ 1 ≤ steps + 1 ∧ early) ↔
      (k < steps ∨ k = steps ∧ 1 ≤ steps ∧ early) := by
  cases early with
  | false => simp
  | true =>
      simp only [and_true] at h ⊢
      omega

/-- **Followed on trees, the rules find the core** if there are more steps than pointers and
references; a record of the language with classes they find with one step less. -/
lemma resolveWithin (steps : Nat) {found : Option NodeId} (h : Layers core tree n k)
    (hn : n < maxSugar) (hfound : core.found? = some found) {visited : List TypeTree}
    (hvisited : ∀ v ∈ visited, ∃ v' n' k', v = v'.bare ∧ k < k' ∧ Layers core v' n' k') :
    tree.resolveWithin steps visited =
      some (if k < steps ∨ k = steps ∧ 1 ≤ steps ∧ core.cxxRecord?.isSome then found
        else none) := by
  induction steps generalizing tree n k visited with
  | zero =>
      have hfew : ¬(k < 0 ∨ k = 0 ∧ 1 ≤ 0 ∧ core.cxxRecord?.isSome) := by omega
      rw [TypeTree.resolveWithin, if_neg hfew]
  | succ steps ih =>
      have hnew : tree.bare ∉ visited := by
        intro hmem
        obtain ⟨v', n', k', heq, hlt, hlayers⟩ := hvisited _ hmem
        exact h.bare_ne hlayers hlt.ne heq
      rw [TypeTree.resolveWithin, if_neg hnew]
      cases k with
      | zero =>
          rw [unwrap, h.rule_zero hn, hfound, if_pos (Or.inl (Nat.succ_pos steps))]
          rfl
      | succ k =>
          -- the last pointer to a record with classes need not be followed
          by_cases hearly : k = 0 ∧ core.cxxRecord?.isSome
          · obtain ⟨rfl, hcxx⟩ := hearly
            obtain ⟨decl, hdecl⟩ := Option.isSome_iff_exists.mp hcxx
            have hsame := TypeForm.found?_of_cxxRecord? hdecl
            obtain rfl : found = some decl := Option.some.inj (hfound.symm.trans hsame)
            have henough : 0 + 1 < steps + 1 ∨
                0 + 1 = steps + 1 ∧ 1 ≤ steps + 1 ∧ core.cxxRecord?.isSome := by
              simp only [hcxx, and_true]
              omega
            rw [unwrap, h.rule_one hn hdecl, if_pos henough]
            rfl
          · have hcxx (hk : k = 0) : core.cxxRecord? = none := by
              simpa [hk] using hearly
            obtain ⟨c, hunwrap, hlayers⟩ :=
              h.unwrap_succ hn (TypeForm.nests_of_found? hfound) hcxx
            have hother : c.bare ≠ tree.bare := hlayers.bare_ne h (Nat.succ_ne_self k).symm
            have hk : k < maxSugar := by
              have hle := h.indirect_le
              omega
            rw [hunwrap, Option.bind_some]
            dsimp only
            rw [if_neg hother, ih hlayers hk ?_]
            · simp only [enough_succ_iff hearly]
            · refine List.forall_mem_cons.mpr ⟨⟨tree, n, k + 1, rfl, Nat.lt_succ_self k, h⟩, ?_⟩
              intro v hv
              obtain ⟨v', n', k', heq, hlt, hlayers'⟩ := hvisited v hv
              exact ⟨v', n', k', heq, by omega, hlayers'⟩

end Layers

/-! ### Cores that are not found -/

/-- Below at most `n` layers there is a core in which the rules find nothing. -/
def Dead (n : Nat) (tree : TypeTree) : Prop :=
  ∃ core m k, m ≤ n ∧ core.found? = none ∧ Layers core tree m k

namespace Dead

variable {n : Nat} {tree : TypeTree}

/-- Qualifiers make no difference. -/
lemma withQuals (h : Dead n tree) (quals : Qualifiers) : Dead n (tree.withQuals quals) := by
  obtain ⟨core, m, k, hm, hcore, hlayers⟩ := h
  exact ⟨core, m, k, hm, hcore, hlayers.withQuals quals⟩

/-- A spelling that was not read is dead. -/
lemma unresolved (n : Nat) (spelling : String) : Dead n (node (.unresolved spelling) {} []) :=
  ⟨.unresolved spelling, 0, 0, Nat.zero_le n, rfl, .core rfl rfl rfl⟩

/-- The canonical type is dead as well, whatever is left out of it. -/
lemma trims {c : TypeTree} (h : Dead n tree) (hn : n ≤ maxSugar) (hc : tree.Trims c) :
    Dead n c := by
  obtain ⟨core, m, k, hm, hcore, hlayers⟩ := h
  induction k generalizing n m tree c with
  | zero =>
      have hlabel := hlayers.strip_zero (hm.trans hn)
      obtain ⟨hsugar, hindirect⟩ := hlayers.core_plain
      cases hc with
      | off => exact .unresolved n ""
      | core => exact ⟨core, 0, 0, Nat.zero_le n, hcore, .core hlabel hsugar hindirect⟩
      | around => exact ⟨core, 0, 0, Nat.zero_le n, hcore, .core hlabel hsugar hindirect⟩
  | succ k ih =>
      -- a pointer or reference, which may be cut off as a whole
      obtain ⟨htrue, inner, m', hparts, hm', hinner⟩ := hlayers.strip_succ (hm.trans hn)
      cases hc with
      | off => exact .unresolved n ""
      | core hnests => exact absurd (TypeForm.nests_of_isIndirect htrue) hnests
      | around _ hall =>
          rw [hparts] at hall
          obtain ⟨c', rest, hc', hrest, rfl⟩ := List.forall₂_cons_left_iff.mp hall
          obtain rfl := List.forall₂_nil_left_iff.mp hrest
          have hroom : m' ≤ maxSugar := by omega
          obtain ⟨core', m'', k', hle, hcore', hlayers'⟩ := ih hroom hc' m' le_rfl hinner
          exact ⟨core', m'' + 1, k' + 1, by omega, hcore', .indirect htrue rfl hlayers'⟩

/-- The rules find nothing in it, and go on to what is dead as well. -/
lemma rule (h : Dead n tree) (hn : n < maxSugar) :
    tree.rule = .bare ∨ ∃ inner, tree.rule = .follow inner ∧ Dead n inner := by
  obtain ⟨core, m, k, hm, hcore, hlayers⟩ := h
  cases k with
  | zero =>
      refine Or.inl ?_
      rw [hlayers.rule_zero (by omega), hcore]
  | succ k =>
      have hcxx := TypeForm.cxxRecord?_of_found?_eq_none hcore
      obtain ⟨inner, m', hrule, hm', hinner⟩ := hlayers.rule_succ (by omega) fun _ => hcxx
      exact Or.inr ⟨inner, hrule, core, m', k, by omega, hcore, hinner⟩

end Dead

end TypeTree

namespace TypeTable

open TypeTree (Layers Dead)

section

variable {t : TypeTable} {n : Nat}

/-- A type of the table that is dead. -/
def DenotesDead (n : Nat) (t : TypeTable) (q : QualType) : Prop :=
  q.type < t.size ∧ Dead n (t.tree q)

/-- Canonical types of dead types are dead. -/
lemma trimming_canonical {q : QualType} (hn : n < maxSugar) (hq : DenotesDead n t q) :
    Trimming t (DenotesDead n) (canonical q) :=
  (trims_canonicalWithin (maxSugar + 1) ⟨hq.1, rfl⟩).imp fun _ _ hc =>
    ⟨hc.1, hq.2.trims hn.le hc.2⟩

/-- **A step of the rules finds nothing in a dead type**, and goes on with a dead one. -/
lemma trimming_unwrap {q : QualType} (hn : n < maxSugar) (hq : DenotesDead n t q) :
    Trimming t (fun t' unwrapped => ∃ next, unwrapped = .goOn next ∧ DenotesDead n t' next)
      (unwrap q) := by
  intro ht
  have hrule := sameRule ht.toLayered ⟨hq.1, rfl⟩
  rw [run_unwrap]
  -- the rules are the same on the type and on its tree
  rcases hq.2.rule hn with hbare | ⟨inner, hfollow, hinner⟩
  · rw [hbare] at hrule
    generalize t.rule q = rule at hrule ⊢
    cases hrule with
    | bare =>
        have hcanonical : Trimming t (DenotesDead n) (canonicalUnqualified q) := by
          refine .bind (trimming_canonical hn hq) fun t' c _ hc => .pure ⟨hc.1, ?_⟩
          rw [← tree_withQuals t' c {}]
          exact hc.2.withQuals {}
        exact Trimming.bind hcanonical (fun t' c _ hc => .pure ⟨c, rfl, hc⟩) ht
  · rw [hfollow] at hrule
    generalize t.rule q = rule at hrule ⊢
    cases hrule with
    | @follow next _ hnext =>
        have hdead : DenotesDead n t next := ⟨hnext.1, by rwa [hnext.2]⟩
        have hcanonical := trimming_canonical hn hdead
        exact Trimming.bind hcanonical (fun t' c _ hc => .pure ⟨c, rfl, hc⟩) ht

/-- Nothing is found in a core in which the rules find nothing. -/
lemma trimming_resolveWithin (steps : Nat) {visited : List TypeId} {q : QualType}
    (hn : n < maxSugar) (hq : DenotesDead n t q) :
    Trimming t (fun _ found => found = none) (resolveWithin steps visited q) := by
  induction steps generalizing t visited q with
  | zero => exact .pure rfl
  | succ steps ih =>
      rw [resolveWithin]
      split
      · exact .pure rfl
      · refine .bind (trimming_unwrap hn hq) fun t' unwrapped _ hnext => ?_
        obtain ⟨next, rfl, hnext⟩ := hnext
        dsimp only
        split
        · exact .pure rfl
        · exact ih hnext

end

/-! ### Tables in which types have only been built -/

/-- A table in which types have been built, and nothing else been done. -/
inductive Built (decls : DeclTable) : TypeTable → Prop
  | fresh : Built decls {}
  | build {t : TypeTable} (request : Request) : Built decls t →
      Built decls ((request.build decls).run t).2

section

variable {decls : DeclTable} {t : TypeTable}

/-- Building types keeps no canonical ones. -/
lemma canonicals_build (decls : DeclTable) (request : Request) (t : TypeTable) :
    ((request.build decls).run t).2.canonicals = t.canonicals := by
  have hrun := ignoresCanonicals_build decls request t t.canonicals
  rw [hrun]

/-- A table in which types were built is sound. -/
lemma Built.sound (h : Built decls t) :
    Sound (Means decls) t ∧ t.expanding = [] ∧ t.canonicals = {} := by
  induction h with
  | fresh => exact ⟨sound_empty _, rfl, rfl⟩
  | @build t request _ ih =>
      obtain ⟨hsound, hexpanding, hcanonicals⟩ := ih
      have hout := keeps_build hexpanding request hsound
      refine ⟨hout.sound, hout.expanding.trans hexpanding, ?_⟩
      rw [canonicals_build, hcanonicals]

/-- It keeps no canonical types, so that it is trimmed. -/
lemma Built.trimmed (h : Built decls t) : Trimmed t := by
  obtain ⟨hsound, -, hcanonicals⟩ := h.sound
  refine ⟨hsound.toLayered, fun q c hc => ?_⟩
  rw [hcanonicals] at hc
  exact absurd hc (by simp)

end

/-! ### What a type resolves to -/

/-- What a type resolves to that has this core below `k` pointers and references. -/
def coreAnswer (maxDepth k : Nat) : TypeForm → Option NodeId
  | .record decl tag isCxx =>
    if (tag = some .struct ∨ tag = some .union ∨ tag = none ∨ isCxx) ∧
        (k < maxDepth ∨ k = maxDepth ∧ 1 ≤ maxDepth ∧ isCxx) then some decl
    else none
  | .specialization template _ none => if k < maxDepth then template else none
  | _ => none

/-- The answer where something is found in the core. -/
lemma coreAnswer_eq_of_found? {core : TypeForm} {found : Option NodeId} (maxDepth k : Nat)
    (hsugar : core.sugar? = none) (h : core.found? = some found) :
    coreAnswer maxDepth k core =
      if k < maxDepth ∨ k = maxDepth ∧ 1 ≤ maxDepth ∧ core.cxxRecord?.isSome then found
      else none := by
  cases core with
  | record decl tag isCxx =>
      rw [TypeForm.found?_record] at h
      split at h
      · next hseen =>
          obtain rfl := Option.some.inj h
          rw [coreAnswer, TypeForm.isSome_cxxRecord?_record]
          exact if_congr (and_iff_right hseen) rfl rfl
      · exact absurd h (by simp)
  | specialization template spelling aliased =>
      obtain rfl : aliased = none := hsugar
      obtain rfl : template = found := Option.some.inj h
      simp [coreAnswer, TypeForm.cxxRecord?]
  | _ => exact absurd h (by simp [TypeForm.found?, TypeForm.structure?, TypeForm.union?,
      TypeForm.cxxRecord?, TypeForm.template?])

/-- The answer where nothing is found there. -/
lemma coreAnswer_eq_none {core : TypeForm} (maxDepth k : Nat) (h : core.found? = none) :
    coreAnswer maxDepth k core = none := by
  cases core with
  | record decl tag isCxx =>
      rw [TypeForm.found?_record] at h
      split at h
      · exact absurd h (by simp)
      · next hunseen => rw [coreAnswer, if_neg fun hall => hunseen hall.1]
  | specialization template spelling aliased =>
      exact absurd h (by simp [TypeForm.found?, TypeForm.structure?, TypeForm.union?,
        TypeForm.cxxRecord?, TypeForm.template?])
  | _ => rfl

/-- Every type has layers and a core, if no template-id in the table is an alias of a known type. -/
lemma exists_layers {t : TypeTable} (ht : t.Layered)
    (halias : ∀ id template spelling inner,
      t.form id ≠ .specialization template spelling (some inner)) (q : QualType) :
    ∃ core n k, Layers core (t.tree q) n k := by
  induction hid : q.type using Nat.strongRecOn generalizing q with
  | _ id ih =>
      subst hid
      -- the type inside stands in front of the type itself
      have hinner {inner : QualType} (hparts : (t.form q.type).parts = [inner]) :
          (t.tree q).parts = [t.tree inner] ∧ ∃ core n k, Layers core (t.tree inner) n k := by
        have hmem : inner ∈ (t.form q.type).parts := by
          rw [hparts]
          exact List.mem_singleton_self inner
        exact ⟨by rw [parts_tree ht, hparts]; rfl, ih inner.type (ht.parts_lt hmem) inner rfl⟩
      have hlabel := label_tree ht q
      cases hform : t.form q.type with
      | typedef decl inner =>
          rw [hform] at hlabel hinner
          obtain ⟨hparts, core, n, k, hlayers⟩ := hinner rfl
          exact ⟨core, n + 1, k, .sugar (by rw [hlabel]; rfl) (by rw [hlabel]; rfl) hparts hlayers⟩
      | elaborated tag inner =>
          rw [hform] at hlabel hinner
          obtain ⟨hparts, core, n, k, hlayers⟩ := hinner rfl
          exact ⟨core, n + 1, k, .sugar (by rw [hlabel]; rfl) (by rw [hlabel]; rfl) hparts hlayers⟩
      | pointer inner | lvalueRef inner | rvalueRef inner =>
          rw [hform] at hlabel hinner
          obtain ⟨hparts, core, n, k, hlayers⟩ := hinner rfl
          exact ⟨core, n + 1, k + 1, .indirect (by rw [hlabel]; rfl) hparts hlayers⟩
      | specialization template spelling aliased =>
          cases aliased with
          | none => exact ⟨_, 0, 0, .core hlabel (by rw [hform]; rfl) (by rw [hform]; rfl)⟩
          | some inner => exact absurd hform (halias q.type template spelling inner)
      | _ => exact ⟨_, 0, 0, .core hlabel (by rw [hform]; rfl) (by rw [hform]; rfl)⟩

section

variable {decls : DeclTable} {t : TypeTable} {q : QualType} {core : TypeForm} {n k : Nat}

/-- With so many steps a core is reached in which something is found. -/
lemma resolve_of_found {found : Option NodeId} (ht : Built decls t) (hq : q.type < t.size)
    (hlayers : Layers core (t.tree q) n k) (hn : n < maxSugar) (hfound : core.found? = some found)
    (maxDepth : Nat) :
    ((resolve maxDepth q).run t).1 =
      if k < maxDepth ∨ k = maxDepth ∧ 1 ≤ maxDepth ∧ core.cxxRecord?.isSome then found
      else none := by
  have hvisited : ∀ v ∈ ([] : List TypeTree), ∃ v' n' k',
      v = v'.bare ∧ k < k' ∧ Layers core v' n' k' := by simp
  have htree := hlayers.resolveWithin maxDepth hn hfound hvisited
  have hnone : DenotesAll t (([] : List TypeId).map (⟨·, {}⟩)) [] := denotesAll_nil t
  exact (keeps_resolveWithin maxDepth ⟨hq, rfl⟩ hnone htree ht.sound.1).result

/-- Other cores lead to nothing, with any number of steps. -/
lemma resolve_of_dead (ht : Built decls t) (hq : q.type < t.size)
    (hlayers : Layers core (t.tree q) n k) (hn : n < maxSugar) (hfound : core.found? = none)
    (maxDepth : Nat) : ((resolve maxDepth q).run t).1 = none := by
  have hdead : DenotesDead n t q := ⟨hq, core, n, k, le_rfl, hfound, hlayers⟩
  exact (trimming_resolveWithin maxDepth hn hdead ht.trimmed).result

/-- **Without known aliases every type leads to its core**, unless it has too many layers: with
enough steps it resolves to what is found there. -/
theorem resolve_of_unaliased (ht : Built decls t) (hq : q.type < t.size)
    (halias : ∀ id template spelling inner,
      t.form id ≠ .specialization template spelling (some inner)) :
    ∃ core n k, Layers core (t.tree q) n k ∧
      (n < maxSugar → ∀ maxDepth, k < maxDepth →
        ((resolve maxDepth q).run t).1 = core.found?.join) := by
  obtain ⟨core, n, k, hlayers⟩ := exists_layers ht.sound.1.toLayered halias q
  refine ⟨core, n, k, hlayers, fun hn maxDepth hk => ?_⟩
  cases hfound : core.found? with
  | some found => rw [resolve_of_found ht hq hlayers hn hfound, if_pos (Or.inl hk)]; rfl
  | none => exact resolve_of_dead ht hq hlayers hn hfound maxDepth

end

/-- **A type resolves to its core.** Below fewer than 64 layers, `k` of which are pointers or
references, with sugar and qualifiers in between as they come, the declaration of the core is found
exactly if there are more steps than `k`; for a record of the language with classes as many are
enough, if there is one. Cores that are neither such records, nor structures, unions or records
without a tag, nor template-ids lead to nothing, however deep they are themselves. -/
theorem resolve_core (decls : DeclTable) (t : TypeTable) (q : QualType) (core : TypeForm)
    (n k maxDepth : Nat) (ht : Built decls t) (hq : q.type < t.size)
    (hlayers : Layers core (t.tree q) n k) (hn : n < 64) :
    ((resolve maxDepth q).run t).1 = coreAnswer maxDepth k core := by
  cases hfound : core.found? with
  | some found =>
      rw [coreAnswer_eq_of_found? maxDepth k hlayers.core_plain.1 hfound]
      exact resolve_of_found ht hq hlayers hn hfound maxDepth
  | none =>
      rw [coreAnswer_eq_none maxDepth k hfound]
      exact resolve_of_dead ht hq hlayers hn hfound maxDepth

/-- A class `S`, and a typedef `P` for pointers to it. -/
def ladder : DeclTable :=
  .build ⟨"", ⟨"/"⟩, fun _ => none⟩ ⟨⟨1⟩, .decl .translationUnit {}, [
    ⟨⟨2⟩, .decl .cxxRecord { name := some "S", tagUsed := some "class" }, []⟩,
    ⟨⟨3⟩, .decl .typedef { name := some "P", type := some { qualType := some "::S *" } }, []⟩]⟩

/-- The type `const P &`, with the table that it has been built in. -/
def ladderType : QualType × TypeTable :=
  (writtenType ladder { qualType := some "const ::P &" }).run {}

lemma ladderType_eq : ladderType = (writtenTypeWith (expandWithin ladder 4) ladder
    { qualType := some "const ::P &" }).run {} := by
  have hsize : ladder.size = 3 := by
    rw [ladder, (DeclTable.consistent_build _ _).size_eq]
    cbv
  show (writtenTypeWith (expandWithin ladder (ladder.size + 1)) ladder _).run {} = _
  rw [hsize]

/-- The class is below a reference and a pointer; two steps find it, one does not. -/
theorem resolve_core_ladder :
    ((resolve 2 ladderType.1).run ladderType.2).1 = some ⟨2⟩ ∧
      ((resolve 1 ladderType.1).run ladderType.2).1 = none := by
  let core : TypeForm := .record ⟨2⟩ (some .cxxClass) true
  have hbuilt : Built ladder ladderType.2 := .build (.written _) .fresh
  have hlt : ladderType.1.type < ladderType.2.size := by
    rw [ladderType_eq]
    cbv
  have htree : ladderType.2.tree ladderType.1 = .node (.lvalueRef default) {}
      [.node (.typedef ⟨3⟩ default) { isConst := true } [.node (.pointer default) {}
        [.node core {} []]]] := by
    rw [ladderType_eq]
    cbv
  have hlayers : Layers core (ladderType.2.tree ladderType.1) 3 2 := by
    rw [htree]
    have hcore : Layers core (.node core {} []) 0 0 := .core rfl rfl rfl
    exact .indirect rfl rfl (.sugar rfl rfl rfl (.indirect rfl rfl hcore))
  exact ⟨resolve_core ladder _ _ core 3 2 2 hbuilt hlt hlayers (by decide),
    resolve_core ladder _ _ core 3 2 1 hbuilt hlt hlayers (by decide)⟩

end TypeTable

end UnitIndex
