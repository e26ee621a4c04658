import Mathlib.Tactic
import UnitIndex.Proofs.Decl.Contents

/-!
How the names of declarations are composed.

The name of a declaration is made by a walk over its semantic scopes. They may stand anywhere in the
tree, and the walk meets at most `maxChain` of them (`ancestors`). The walk from a declaration and
the one from its parent meet the same scopes, except that the one from the parent comes one scope
further up (`scopeNames_succ`). So the name of a declaration is that of its parent with its own
behind it, or, if the parent adds nothing to names, the one it would have in the scope of its
parent, up to the component that only the longer walk reaches (`append_name_eq`,
`qualifiedName_outside_eq`). There is no such component when the parent has less than `maxChain`
ancestors (`cutOff_eq_empty`); scopes that lead in a circle never end.
-/

namespace UnitIndex.DeclTable

/-- The declarations that so many steps upwards meet, from that scope on, innermost first. -/
def ancestors (t : DeclTable) : Nat → Option NodeId → List DeclInfo
  | 0, _ => []
  | steps + 1, scope =>
    match scope.bind t.get? with
    | some p => p :: ancestors t steps p.parent
    | none => []

/-- However far one goes upwards, a declaration has at most so many ancestors. -/
def AncestorsWithin (t : DeclTable) (n : Nat) (d : DeclInfo) : Prop :=
  ∀ steps, (t.ancestors steps d.parent).length ≤ n

/-- What holds of the scopes that add a component to the names of what they hold. -/
def Contributes (p : DeclInfo) : Prop :=
  p.cls = .namespaceDecl ∨ p.cls = .record ∨ p.cls = .function ∨ p.cls = .enum ∧ p.isScoped

section Walk

variable (t : DeclTable) (steps : Nat) (scope : Option NodeId)

/-- The scopes that a walk meets, less those that add nothing to names. -/
lemma scopeNames_eq :
    t.scopeNames steps scope = (t.ancestors steps scope).filterMap scopeName? := by
  induction steps generalizing scope with
  | zero => rfl
  | succ steps ih =>
      rw [scopeNames, ancestors]
      cases scope.bind t.get? with
      | none => rfl
      | some p =>
          dsimp only
          rw [ih, List.filterMap_cons]
          cases scopeName? p <;> rfl

lemma length_ancestors_le : (t.ancestors steps scope).length ≤ steps := by
  induction steps generalizing scope with
  | zero => exact le_rfl
  | succ steps ih =>
      rw [ancestors]
      cases scope.bind t.get? with
      | none => exact Nat.zero_le _
      | some p => exact Nat.succ_le_succ (ih p.parent)

/-- A walk that may go one step further meets the same scopes before that. -/
lemma take_ancestors : (t.ancestors (steps + 1) scope).take steps = t.ancestors steps scope := by
  induction steps generalizing scope with
  | zero => rfl
  | succ steps ih =>
      rw [ancestors, ancestors]
      cases scope.bind t.get? with
      | none => rfl
      | some p => exact congrArg (p :: ·) (ih p.parent)

variable {t scope} in
/-- A walk that ends within some steps never goes further. -/
lemma length_ancestors_le_of {n : Nat} (h : (t.ancestors (n + 1) scope).length ≤ n) :
    (t.ancestors steps scope).length ≤ n := by
  -- on the number of steps after which the walk has ended; the limit on the longer walk is of no
  -- use
  induction n generalizing steps scope with
  | zero =>
      cases steps with
      | zero => exact le_rfl
      | succ steps =>
          rw [ancestors] at h ⊢
          cases hp : scope.bind t.get? with
          | none => exact le_rfl
          | some p => simp [hp] at h
  | succ n ih =>
      cases steps with
      | zero => exact Nat.zero_le _
      | succ steps =>
          rw [ancestors] at h ⊢
          cases hp : scope.bind t.get? with
          | none => exact Nat.zero_le _
          | some p =>
              rw [hp] at h
              exact Nat.succ_le_succ (ih steps (Nat.le_of_succ_le_succ h))

/-- One step more adds the component of the scope that it meets. -/
lemma scopeNames_succ :
    t.scopeNames (steps + 1) scope = t.scopeNames steps scope ++
      (((t.ancestors (steps + 1) scope)[steps]?).bind scopeName?).toList := by
  have hlength := length_ancestors_le t (steps + 1) scope
  rw [scopeNames_eq t steps, scopeNames_eq t (steps + 1), ← take_ancestors t steps]
  generalize t.ancestors (steps + 1) scope = met at hlength
  have hsplit : met = met.take steps ++ met[steps]?.toList := by
    rw [← List.take_add_one, List.take_of_length_le hlength]
  have hlast : met[steps]?.toList.filterMap scopeName? = (met[steps]?.bind scopeName?).toList := by
    cases met[steps]? with
    | none => rfl
    | some last => cases h : scopeName? last <;> simp [h]
  rw [← hlast, ← List.filterMap_append, ← hsplit]

end Walk

/-- One step beyond the limit tells whether it is kept. -/
lemma ancestorsWithin_iff {t : DeclTable} {n : Nat} {d : DeclInfo} :
    AncestorsWithin t n d ↔ (t.ancestors (n + 1) d.parent).length ≤ n :=
  ⟨fun h => h (n + 1), fun h steps => length_ancestors_le_of steps h⟩

/-- The component that only so long a walk adds. -/
def lastName? (t : DeclTable) (d : DeclInfo) : Option String :=
  ((t.ancestors maxChain d.parent)[maxChain - 1]?).bind scopeName?

/-- What the name of a declaration begins with and the names of what it holds do not: the component
of the last scope that a walk of full length meets. -/
def cutOff (t : DeclTable) (d : DeclInfo) : String := (t.lastName? d).elim "" (· ++ "::")

/-- The name of a declaration without what is cut off. -/
def innerName (t : DeclTable) (d : DeclInfo) : String :=
  "::".intercalate ((d.name.getD "(anonymous)" :: t.scopeNames (maxChain - 1) d.parent).reverse)

/-- The walk from a declaration, one step shorter, and what only the last step meets. -/
lemma scopeNames_maxChain (t : DeclTable) (d : DeclInfo) :
    t.scopeNames maxChain d.parent =
      t.scopeNames (maxChain - 1) d.parent ++ (t.lastName? d).toList :=
  scopeNames_succ t (maxChain - 1) d.parent

variable {t : DeclTable} {d p : DeclInfo}

/-- A name is what the walk from the parent does not reach, and the rest. -/
lemma qualifiedName_eq_cutOff (t : DeclTable) (d : DeclInfo) :
    t.qualifiedName d = t.cutOff d ++ t.innerName d := by
  rw [qualifiedName, scopeNames_maxChain, cutOff, innerName]
  cases t.lastName? d with
  | none => simp
  | some last =>
      rw [Option.toList_some, ← List.cons_append, List.reverse_concat,
        String.intercalate_cons_of_ne_nil (by simp), Option.elim_some]

/-- Nothing is cut off where the walk ends before its limit. -/
lemma cutOff_eq_empty (h : AncestorsWithin t (maxChain - 1) p) : t.cutOff p = "" := by
  rw [cutOff, lastName?, List.getElem?_eq_none (h maxChain)]
  rfl

/-- The components above a declaration are that of its parent and those above the parent. -/
lemma scopeNames_parent (hp : d.parent.bind t.get? = some p) :
    t.scopeNames maxChain d.parent =
      (scopeName? p).toList ++ t.scopeNames (maxChain - 1) p.parent := by
  rw [show maxChain = maxChain - 1 + 1 from rfl, scopeNames, hp]
  rfl

/-- **Names in a scope that has one**: a name stands behind that of the scope, without what the
limit cuts off. -/
theorem append_name_eq (hp : d.parent.bind t.get? = some p)
    (hname : scopeName? p = some (p.name.getD "(anonymous)")) :
    t.qualifiedName p ++ "::" ++ d.name.getD "(anonymous)" = t.cutOff p ++ t.qualifiedName d := by
  have hinner : t.qualifiedName d = t.innerName p ++ "::" ++ d.name.getD "(anonymous)" := by
    rw [qualifiedName, scopeNames_parent hp, hname, innerName, Option.toList_some,
      List.singleton_append, List.reverse_cons, String.intercalate_append_of_ne_nil (by simp)
        (by simp), String.intercalate_singleton]
  rw [hinner, qualifiedName_eq_cutOff t p]
  simp only [String.append_assoc]

/-- **Names in a scope that has none**: a name is that in the scope outside, without what the limit
cuts off. -/
theorem qualifiedName_outside_eq (hp : d.parent.bind t.get? = some p)
    (hname : scopeName? p = none) :
    t.qualifiedName { d with parent := p.parent } = t.cutOff p ++ t.qualifiedName d := by
  have hinner : t.qualifiedName d = t.innerName { d with parent := p.parent } := by
    rw [qualifiedName, scopeNames_parent hp, hname, innerName]
    rfl
  rw [qualifiedName_eq_cutOff, hinner]
  rfl

/-! ### Scopes that contribute -/

/-- What a scope adds to the names of what stands in it. -/
lemma scopeName?_of_contributes (hp : Contributes p) (hname : p.name.isSome) :
    scopeName? p = some (p.name.getD "(anonymous)") := by
  obtain ⟨name, hname⟩ := Option.isSome_iff_exists.mp hname
  rw [scopeName?, hname]
  rcases hp with hcls | hcls | hcls | ⟨hcls, hscoped⟩
  · simp [hcls]
  · simp [hcls]
  · simp [hcls]
  · simp [hcls, hscoped]

/-- A parent that does not contribute adds no component. -/
lemma scopeName?_of_not_contributes (hp : ¬Contributes p) : scopeName? p = none := by
  rw [scopeName?]
  split
  · next hcls => exact absurd (.inl hcls) hp
  · next hcls => exact absurd (.inr (.inl hcls)) hp
  · next hcls => exact absurd (.inr (.inr (.inl hcls))) hp
  · next hcls => exact if_neg fun hscoped => hp (.inr (.inr (.inr ⟨hcls, hscoped⟩)))
  · rfl

/-! ### The table of a tree -/

variable {names : FileNames} {root : Node}

/-- Where no two nodes have the same id, a table says what the nodes say. -/
lemma described_of_mem (hids : root.ids.Nodup) {id : NodeId} {s : Description}
    (hs : (id, s) ∈ root.descriptions names none) : (build names root).described id = some s := by
  have hkeys : ((root.descriptions names none).map Prod.fst).Nodup := by
    rw [Node.ids_descriptions]
    exact root.declIds_sublist_ids.nodup hids
  rw [described_build, saidOf_eq_singleton hkeys hs, Description.prevailing_singleton]

/-- **Names compose**: where no two nodes have the same id, every declaration node has an entry that
says what the node says; its semantic parent is the declaration that the node names as such,
wherever that stands in the tree, or else the one around it. If the table knows the parent, and at
most 255 ancestors of the parent, then the name is that of the parent with the declaration's own
name behind it, if the parent is a named namespace, record, function or scoped enumeration; and if
the parent adds nothing to names, it is the one that the declaration has with the parent's parent in
place of the parent. -/
theorem qualifiedName_composes (names : FileNames) {root : Node} (hids : root.ids.Nodup) :
    let t := build names root
    ∀ id s, (id, s) ∈ root.descriptions names none →
      ∃ d, t.get? id = some d ∧ d.description = s ∧
        ∀ p, s.parent.bind t.get? = some p → AncestorsWithin t 255 p →
          (Contributes p → p.name.isSome →
            d.qualifiedName = p.qualifiedName ++ "::" ++ s.name.getD "(anonymous)") ∧
          (¬Contributes p → d.qualifiedName = t.qualifiedName { d with parent := p.parent }) := by
  intro t id s hs
  obtain ⟨d, hd, rfl⟩ := Option.map_eq_some_iff.mp (described_of_mem hids hs)
  refine ⟨d, hd, rfl, fun p hp hwithin => ?_⟩
  have hnamed {id : NodeId} {d : DeclInfo} (hd : t.get? id = some d) :
      d.qualifiedName = t.qualifiedName d := qualifiedName_build hd
  obtain ⟨parent, -, hparent⟩ := Option.bind_eq_some_iff.mp hp
  -- no component is out of reach, since the parent has so few ancestors
  have hcut := cutOff_eq_empty hwithin
  rw [hnamed hd, hnamed hparent]
  refine ⟨fun hcontributes hname => ?_, fun hno => ?_⟩
  · have h := append_name_eq hp (scopeName?_of_contributes hcontributes hname)
    rw [hcut, String.empty_append] at h
    exact h.symm
  · have h := qualifiedName_outside_eq hp (scopeName?_of_not_contributes hno)
    rw [hcut, String.empty_append] at h
    exact h.symm

/-- A method that names as its scope a record which stands behind it. -/
def scopeBehind : Node :=
  ⟨⟨1⟩, .decl .translationUnit {}, [
    ⟨⟨2⟩, .decl .cxxMethod { name := some "f", parentContext := some ⟨4⟩ }, []⟩,
    ⟨⟨3⟩, .decl .namespaceDecl { name := some "n" }, [
      ⟨⟨4⟩, .decl .cxxRecord { name := some "r" }, []⟩]⟩]⟩

/-- What the four nodes say. -/
lemma descriptions_scopeBehind :
    scopeBehind.descriptions literalNames none = [
      (⟨1⟩, ⟨.translationUnit, none, none, none, none⟩),
      (⟨2⟩, ⟨.cxxMethod, some "f", some ⟨4⟩, none, none⟩),
      (⟨3⟩, ⟨.namespaceDecl, some "n", some ⟨1⟩, none, none⟩),
      (⟨4⟩, ⟨.cxxRecord, some "r", some ⟨3⟩, none, none⟩)] := by cbv

/-- The method is named after the record, and the namespace as it would be outside of the unit. -/
theorem qualifiedName_scopeBehind :
    let t := build literalNames scopeBehind
    scopeBehind.ids.Nodup ∧ ∃ method record space,
      t.get? ⟨2⟩ = some method ∧ t.get? ⟨4⟩ = some record ∧ t.get? ⟨3⟩ = some space ∧
      method.qualifiedName = record.qualifiedName ++ "::" ++ "f" ∧
      space.qualifiedName = t.qualifiedName { space with parent := none } := by
  intro t
  have hids : scopeBehind.ids.Nodup := by decide +kernel
  have hentry := qualifiedName_composes literalNames hids
  rw [descriptions_scopeBehind] at hentry
  obtain ⟨method, hmethod, -, hnames⟩ := hentry ⟨2⟩ _ (.tail _ (.head _))
  obtain ⟨space, hspace, -, houtside⟩ := hentry ⟨3⟩ _ (.tail _ (.tail _ (.head _)))
  -- the entries that the walk passes, as far as names are concerned
  have hrecord : ((build literalNames scopeBehind).get? ⟨4⟩).map
      (fun p => (p.cls, p.name, p.parent)) = some (.record, some "r", some ⟨3⟩) := by cbv
  have hunit : ((build literalNames scopeBehind).get? ⟨1⟩).map (fun p => (p.cls, p.parent)) =
      some (.transparent, none) := by cbv
  obtain ⟨record, hrecord, hrecordSays⟩ := Option.map_eq_some_iff.mp hrecord
  obtain ⟨unit, hunit, hunitSays⟩ := Option.map_eq_some_iff.mp hunit
  obtain ⟨hcls, hname, hparent⟩ : record.cls = .record ∧ record.name = some "r" ∧
      record.parent = some ⟨3⟩ := by simpa using hrecordSays
  obtain ⟨hunitCls, hunitParent⟩ : unit.cls = .transparent ∧ unit.parent = none := by
    simpa using hunitSays
  -- two ancestors and the unit, far below the limit
  have htwo : ((build literalNames scopeBehind).ancestors 256 (some ⟨3⟩)).length = 2 := by cbv
  have hrecordWithin : AncestorsWithin t 255 record :=
    ancestorsWithin_iff.mpr (by rw [hparent, htwo]; decide)
  have hunitWithin : AncestorsWithin t 255 unit :=
    ancestorsWithin_iff.mpr (by rw [hunitParent]; exact Nat.zero_le _)
  refine ⟨hids, method, record, space, hmethod, hrecord, hspace, ?_, ?_⟩
  · exact (hnames record hrecord hrecordWithin).1 (.inr (.inl hcls)) (by rw [hname]; rfl)
  · rw [← hunitParent]
    exact (houtside unit hunit hunitWithin).2 (by simp [Contributes, hunitCls])

end UnitIndex.DeclTable
