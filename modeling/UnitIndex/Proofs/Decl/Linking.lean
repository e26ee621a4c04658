import Mathlib.Tactic
import UnitIndex.Proofs.Decl.Chains

/-!
How variables are linked to their definitions.

Two passes go through the declarations in order. `FirstPass` and `SecondPass` say how far a pass has
come when it has gone through some of them, and one step brings it one declaration further. Together
they give what linking does to a table:

* `varDefinitions_linkVariables`: a chain is defined by its first initialized variable, and if it
  has none, by its first tentative one;
* `get?_linkVariables`: the tentative variables of the chains that have an initialized one no longer
  count as definitions, and nothing else has changed.
-/

namespace UnitIndex.DeclTable

/-- Whether the table knows the declaration as an initialized variable. -/
def isInitialized (t : DeclTable) (id : NodeId) : Bool :=
  (t.get? id).any fun d => d.cls == .var && d.isDefinition && !d.isTentative

/-- Whether the table knows the declaration as a tentative one. -/
def isTentative (t : DeclTable) (id : NodeId) : Bool := (t.get? id).any (·.isTentative)

/-- A declaration is initialized if it is a variable that counts as a definition and is not
tentative. -/
lemma isInitialized_iff {t : DeclTable} {id : NodeId} :
    t.isInitialized id ↔
      ∃ d, t.get? id = some d ∧ d.cls = .var ∧ (d.isDefinition && !d.isTentative) = true := by
  rw [isInitialized]
  cases t.get? id with
  | none => simp
  | some d => simp [and_assoc]

/-- A tentative declaration has an entry that says so. -/
lemma isTentative_iff {t : DeclTable} {id : NodeId} :
    t.isTentative id ↔ ∃ d, t.get? id = some d ∧ d.isTentative := by
  rw [isTentative]
  cases t.get? id with
  | none => simp
  | some d => simp

lemma isSome_of_isInitialized {t : DeclTable} {id : NodeId} (h : t.isInitialized id) :
    (t.get? id).isSome := by
  obtain ⟨d, hd, -⟩ := isInitialized_iff.mp h
  rw [hd]
  rfl

lemma isSome_of_isTentative {t : DeclTable} {id : NodeId} (h : t.isTentative id) :
    (t.get? id).isSome := by
  obtain ⟨d, hd, -⟩ := isTentative_iff.mp h
  rw [hd]
  rfl

/-- Linking keeps what is tentative. -/
lemma Relinked.isTentative_eq {t s : DeclTable} (h : Relinked t s) (id : NodeId) :
    s.isTentative id = t.isTentative id := by
  rw [isTentative, isTentative]
  rcases h id with heq | ⟨d, hd, heq⟩
  · rw [heq]
  · rw [hd, heq]
    rfl

/-! ### The first pass -/

/-- One step of the first pass. -/
def linkInitialized (s : DeclTable × Std.HashSet NodeId) (id : NodeId) :
    DeclTable × Std.HashSet NodeId :=
  match s.1.get? id with
  | some d =>
    if d.cls = .var ∧ d.isDefinition ∧ !d.isTentative then
      (s.1.define (s.1.chainRoot id) id, s.2.insert (s.1.chainRoot id))
    else s
  | none => s

/-- The first pass goes through the declarations in order. -/
lemma defineInitialized_eq (t : DeclTable) :
    t.defineInitialized = t.order.toList.foldl linkInitialized (t, {}) := by
  rw [defineInitialized, ← Array.foldl_toList]
  rfl

lemma decls_linkInitialized (s : DeclTable × Std.HashSet NodeId) (id : NodeId) :
    (linkInitialized s id).1.decls = s.1.decls := by
  rw [linkInitialized]
  split
  · split
    · exact decls_define _ _ _
    · rfl
  · rfl

lemma order_linkInitialized (s : DeclTable × Std.HashSet NodeId) (id : NodeId) :
    (linkInitialized s id).1.order = s.1.order := by
  rw [linkInitialized]
  split
  · split
    · exact order_define _ _ _
    · rfl
  · rfl

/-- What holds of an invariant with the elements that have been gone through, at each step, holds of
a whole fold. -/
lemma foldl_done {α β : Type} {f : β → α → β} (I : List α → β → Prop) {b : β} (l : List α)
    (h0 : I [] b) (hstep : ∀ done b a, I done b → I (done ++ [a]) (f b a)) :
    I l (l.foldl f b) := by
  induction l using List.reverseRecOn with
  | nil => exact h0
  | append_singleton l a ih =>
      rw [List.foldl_append, List.foldl_cons, List.foldl_nil]
      exact hstep l _ a ih

/-- A chain that has a definition keeps it. -/
lemma varDefinitions_define (t : DeclTable) (chain id root : NodeId) :
    (t.define chain id).varDefinitions[root]? =
      (t.varDefinitions[root]?).or (if chain = root then some id else none) := by
  rw [define]
  split
  · next h =>
    split
    · next heq =>
      rw [← heq]
      obtain ⟨d, hd⟩ := Option.isSome_iff_exists.mp
        (Std.HashMap.isSome_getElem?_iff_mem.mpr (Std.HashMap.contains_iff_mem.mp h))
      rw [hd, Option.some_or]
    · rw [Option.or_none]
  · next h =>
    rw [Std.HashMap.getElem?_insert]
    by_cases heq : chain = root
    · subst heq
      have hnone : t.varDefinitions[chain]? = none := by simpa using h
      simp [hnone]
    · simp [heq]

/-- The table and the chains of initialized variables, when the declarations in `done` have been
gone through. -/
structure FirstPass (t : DeclTable) (done : List NodeId)
    (s : DeclTable × Std.HashSet NodeId) : Prop where
  decls : s.1.decls = t.decls
  order : s.1.order = t.order
  definition : ∀ root, s.1.varDefinitions[root]? = (t.varDefinitions[root]?).or
    (done.find? fun id => t.isInitialized id && t.chainRoot id == root)
  roots : ∀ root, s.2.contains root =
    done.any fun id => t.isInitialized id && t.chainRoot id == root

/-- One more declaration, and the first pass has come that far. -/
lemma FirstPass.step {t : DeclTable} {done : List NodeId} {s : DeclTable × Std.HashSet NodeId}
    (h : FirstPass t done s) (id : NodeId) : FirstPass t (done ++ [id]) (linkInitialized s id) := by
  have hget : s.1.get? id = t.get? id := by rw [get?, h.decls, get?]
  have hroot : s.1.chainRoot id = t.chainRoot id := (Relinked.of_decls h.decls).chainRoot_eq id
  have hstep : linkInitialized s id = if t.isInitialized id then
      (s.1.define (t.chainRoot id) id, s.2.insert (t.chainRoot id)) else s := by
    rw [linkInitialized, hget, hroot, isInitialized]
    cases t.get? id with
    | none => rfl
    | some d => simp [and_assoc]
  refine ⟨?_, ?_, fun root => ?_, fun root => ?_⟩
  · rw [decls_linkInitialized, h.decls]
  · rw [order_linkInitialized, h.order]
  · -- the definitions: only a chain that is still open gets this one
    rw [hstep, List.find?_append, ← Option.or_assoc, ← h.definition, List.find?_singleton]
    cases t.isInitialized id with
    | true => simp [varDefinitions_define]
    | false => simp
  · -- the roots: that of this chain is now among them
    rw [hstep, List.any_append, ← h.roots, List.any_cons, List.any_nil, Bool.or_false]
    cases t.isInitialized id with
    | true => simp [Bool.or_comm]
    | false => simp

/-- The first pass has gone through the whole order. -/
lemma firstPass_defineInitialized (t : DeclTable) :
    FirstPass t t.order.toList t.defineInitialized := by
  rw [defineInitialized_eq]
  refine foldl_done (FirstPass t) _ ⟨rfl, rfl, fun root => ?_, fun root => ?_⟩
    fun done s id hs => hs.step id
  · rw [List.find?_nil, Option.or_none]
  · simp

/-! ### The second pass -/

/-- One step of the second pass. -/
def linkTentative (roots : Std.HashSet NodeId) (t : DeclTable) (id : NodeId) : DeclTable :=
  match t.get? id with
  | some d =>
    if d.isTentative then
      if roots.contains (t.chainRoot id) then t.update id fun d => { d with isDefinition := false }
      else t.define (t.chainRoot id) id
    else t
  | none => t

/-- The second pass goes through the declarations in order. -/
lemma defineTentative_eq (t : DeclTable) (roots : Std.HashSet NodeId) :
    t.defineTentative roots = t.order.toList.foldl (linkTentative roots) t := by
  rw [defineTentative, ← Array.foldl_toList]
  rfl

/-- The declaration, which no longer counts as a definition if it is tentative. -/
def retracted (d : DeclInfo) : DeclInfo :=
  if d.isTentative then { d with isDefinition := false } else d

@[simp] lemma isTentative_retracted (d : DeclInfo) : (retracted d).isTentative = d.isTentative := by
  rw [retracted]
  split <;> rfl

/-- Only what is tentative is retracted. -/
lemma retracted_eq_self {d : DeclInfo} (h : ¬d.isTentative) : retracted d = d := by
  rw [retracted, if_neg h]

/-- The table when the declarations in `done` have been gone through, `roots` being the chains of
initialized variables. -/
structure SecondPass (t : DeclTable) (roots : Std.HashSet NodeId) (done : List NodeId)
    (s : DeclTable) : Prop where
  get?_eq : ∀ id, s.get? id =
    if id ∈ done ∧ roots.contains (t.chainRoot id) then (t.get? id).map retracted else t.get? id
  order : s.order = t.order
  definition : ∀ root, s.varDefinitions[root]? = (t.varDefinitions[root]?).or
    (done.find? fun id =>
      t.isTentative id && !roots.contains (t.chainRoot id) && t.chainRoot id == root)

namespace SecondPass

variable {t s : DeclTable} {roots : Std.HashSet NodeId} {done : List NodeId}

/-- The second pass changes nothing but what counts as a definition. -/
lemma relinked (h : SecondPass t roots done s) : Relinked t s := by
  intro id
  rw [h.get?_eq]
  split
  · cases hd : t.get? id with
    | none => exact Or.inl rfl
    | some d =>
        rw [Option.map_some, retracted]
        split
        · exact Or.inr ⟨d, rfl, rfl⟩
        · exact Or.inl rfl
  · exact Or.inl rfl

/-- A step does one of two things to a tentative variable, and nothing to any other declaration. -/
lemma linkTentative_eq (h : SecondPass t roots done s) (id : NodeId) :
    s.linkTentative roots id =
      if t.isTentative id then
        if roots.contains (t.chainRoot id) then
          s.update id fun d => { d with isDefinition := false }
        else s.define (t.chainRoot id) id
      else s := by
  rw [linkTentative, ← h.relinked.isTentative_eq, ← h.relinked.chainRoot_eq, isTentative]
  cases s.get? id with
  | none => rfl
  | some d => rfl

/-- A step retracts its declaration, if that is in a chain of an initialized variable. -/
lemma get?_step (h : SecondPass t roots done s) (id : NodeId) :
    (s.linkTentative roots id).get? id =
      if roots.contains (t.chainRoot id) then (t.get? id).map retracted else t.get? id := by
  have hbefore := h.get?_eq id
  rw [h.linkTentative_eq]
  cases hd : t.get? id with
  | none =>
      rw [hd, Option.map_none, ite_self] at hbefore
      rw [isTentative, hd, Option.any_none, if_neg Bool.false_ne_true, hbefore, Option.map_none,
        ite_self]
  | some d =>
      rw [hd] at hbefore
      rw [isTentative, hd, Option.any_some]
      cases htentative : d.isTentative with
      | false =>
          -- nothing happens to it, and there would be nothing to retract
          have hno : ¬d.isTentative := by rw [htentative]; exact Bool.false_ne_true
          rw [Option.map_some, retracted_eq_self hno, ite_self] at hbefore ⊢
          rw [if_neg Bool.false_ne_true, hbefore]
      | true =>
          rw [if_pos rfl]
          split
          · rw [get?_update, if_pos rfl, hbefore]
            -- it may have been retracted before: to retract it twice is to do it once
            split <;> simp [retracted, htentative]
          · next hno => rw [get?_define, hbefore, if_neg fun hin => hno hin.2]

/-- One more tentative variable, and the pass has come that far. -/
lemma step (h : SecondPass t roots done s) (id : NodeId) :
    SecondPass t roots (done ++ [id]) (s.linkTentative roots id) := by
  refine ⟨fun k => ?_, ?_, fun root => ?_⟩
  · -- no entry but that of the variable itself can change
    by_cases hk : k = id
    · rw [hk, h.get?_step]
      simp
    · have hother : (s.linkTentative roots id).get? k = s.get? k := by
        rw [h.linkTentative_eq]
        split
        · split
          · rw [get?_update, if_neg hk]
          · rw [get?_define]
        · rfl
      rw [hother, h.get?_eq]
      simp [hk]
  · rw [h.linkTentative_eq, ← h.order]
    split
    · split
      · exact order_update s id _
      · exact order_define s _ id
    · rfl
  · rw [h.linkTentative_eq, List.find?_append, ← Option.or_assoc, ← h.definition,
      List.find?_singleton]
    cases t.isTentative id with
    | false => simp
    | true =>
        cases hroots : roots.contains (t.chainRoot id) with
        | true => simp
        | false => simp [varDefinitions_define]

end SecondPass

/-- The second pass has gone through the whole order. -/
lemma secondPass_defineTentative (t : DeclTable) (roots : Std.HashSet NodeId) :
    SecondPass t roots t.order.toList (t.defineTentative roots) := by
  rw [defineTentative_eq]
  refine foldl_done (SecondPass t roots) _ ⟨fun id => ?_, rfl, fun root => ?_⟩
    fun done s id hs => hs.step id
  · rw [if_neg fun h => List.not_mem_nil h.1]
  · rw [List.find?_nil, Option.or_none]

/-! ### Both passes -/

/-- Whether some variable of the chain is initialized. -/
def initializes (t : DeclTable) (chain : NodeId) : Bool :=
  t.order.toList.any fun id => t.isInitialized id && t.chainRoot id == chain

/-- The first pass leaves the entries as they are. -/
lemma get?_defineInitialized (t : DeclTable) (id : NodeId) :
    t.defineInitialized.1.get? id = t.get? id := by
  rw [get?, (firstPass_defineInitialized t).decls, get?]

lemma order_linkVariables (t : DeclTable) : t.linkVariables.order = t.order :=
  (secondPass_defineTentative _ _).order.trans (firstPass_defineInitialized t).order

/-- Linking changes nothing but what counts as a definition. -/
lemma relinked_linkVariables (t : DeclTable) : Relinked t t.linkVariables := by
  intro id
  have hpass := (secondPass_defineTentative t.defineInitialized.1 t.defineInitialized.2).relinked id
  rw [get?_defineInitialized] at hpass
  exact hpass

/-- Linking takes the rank of a definition from the tentative variables of the chains that have an
initialized one, and changes nothing else. -/
lemma get?_linkVariables {t : DeclTable} (ht : Consistent t) (id : NodeId) :
    t.linkVariables.get? id =
      if t.initializes (t.chainRoot id) then (t.get? id).map retracted else t.get? id := by
  have hfirst := firstPass_defineInitialized t
  rw [linkVariables]
  dsimp only
  rw [(secondPass_defineTentative _ _).get?_eq, hfirst.order, hfirst.roots, get?_defineInitialized,
    (Relinked.of_decls hfirst.decls).chainRoot_eq, ← initializes]
  cases hd : t.get? id with
  | none => rw [Option.map_none, ite_self, ite_self]
  | some d =>
      have hmem : id ∈ t.order.toList := ht.mem_order.mpr (by rw [hd]; rfl)
      simp only [hmem, true_and]

/-- A chain is defined by its first initialized variable, and if it has none, by its first tentative
one. -/
lemma varDefinitions_linkVariables {t : DeclTable} (h0 : t.varDefinitions = {}) (chain : NodeId) :
    t.linkVariables.varDefinitions[chain]? =
      (t.order.toList.find? fun id => t.isInitialized id && t.chainRoot id == chain).or
        (t.order.toList.find? fun id => t.isTentative id && t.chainRoot id == chain) := by
  have hfirst := firstPass_defineInitialized t
  -- the first pass leaves the entries alone
  have htentative (id : NodeId) : t.defineInitialized.1.isTentative id = t.isTentative id := by
    rw [isTentative, get?_defineInitialized, isTentative]
  rw [linkVariables]
  dsimp only
  rw [(secondPass_defineTentative _ _).definition, hfirst.definition, hfirst.order, h0,
    Std.HashMap.getElem?_empty, Option.none_or]
  simp only [htentative, (Relinked.of_decls hfirst.decls).chainRoot_eq, hfirst.roots]
  cases hfind : t.order.toList.find? fun id => t.isInitialized id && t.chainRoot id == chain with
  | some id => rw [Option.some_or, Option.some_or]
  | none =>
      rw [Option.none_or, Option.none_or]
      refine List.find?_congr fun id _ => ?_
      cases hchain : t.chainRoot id == chain with
      | false => rw [Bool.and_false, Bool.and_false]
      | true =>
          -- without an initialized variable the chain is open to the second pass
          have hno : (t.order.toList.any fun k =>
              t.isInitialized k && t.chainRoot k == t.chainRoot id) = false := by
            rw [List.any_eq_false, beq_iff_eq.mp hchain]
            exact List.find?_eq_none.mp hfind
          rw [hno, Bool.not_false, Bool.and_true]

end UnitIndex.DeclTable
