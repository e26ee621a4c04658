import Mathlib.Tactic
import UnitIndex.Proofs.Decl.Consistent

/-!
What a type name means.

* `typeNames_build`: the index of names is the tree order, cut down for each name to the
  declarations that have it as their simple or their qualified name. So a name without scopes leads
  also to its namesakes in all scopes, and `candidates_build` makes no difference between them.
* `firstLeast_split`: of the candidates that the tag admits, the first of least rank is taken.
* `lookupType?_exact_iff`: a lookup therefore finds a declaration of exactly the name asked for if
  and only if some such declaration is preferred to every namesake from another scope. Nothing
  brings that about: `lookupType?_misses_exact` is a unit in which the namesake wins.
-/

namespace UnitIndex.DeclTable

/-! ### The index of names -/

/-- Whether the index of names lists the declaration. -/
def isIndexed (d : DeclInfo) : Bool := isTypeName d && d.name.isSome

/-- Whether the index lists the declaration under that name, as its simple or its qualified one. -/
def isListedAs (name : String) (d : DeclInfo) : Bool :=
  isTypeName d && d.name.any fun simple => simple == name || d.qualifiedName == name

/-- A declaration is listed under its simple and under its qualified name. -/
lemma isListedAs_iff {name : String} {d : DeclInfo} :
    isListedAs name d ↔
      isIndexed d ∧ (d.name = some name ∨ d.qualifiedName = name) := by
  cases h : d.name with
  | none => simp [isListedAs, isIndexed, h]
  | some simple =>
      simp only [isListedAs, isIndexed, h, Option.any_some, Option.isSome_some, Option.some.injEq,
        Bool.and_true, Bool.and_eq_true, Bool.or_eq_true, beq_iff_eq]

@[simp] lemma decls_listNames (t : DeclTable) (id : NodeId) :
    (t.listNames id).decls = t.decls := by
  rw [listNames]
  split
  · split
    · split
      · dsimp only
        split <;> rfl
      · rfl
    · rfl
  · rfl

@[simp] lemma order_listNames (t : DeclTable) (id : NodeId) :
    (t.listNames id).order = t.order := by
  rw [listNames]
  split
  · split
    · split
      · dsimp only
        split <;> rfl
      · rfl
    · rfl
  · rfl

/-- A name that is listed gets one more meaning, at the end. -/
lemma typeNames_addTypeName (t : DeclTable) (listed : String) (id : NodeId) (name : String) :
    (t.addTypeName listed id).typeNames[name]? =
      if listed = name then some ((t.typeNames[name]?).getD [] ++ [id])
      else t.typeNames[name]? := by
  rw [addTypeName, Std.HashMap.getElem?_insert]
  by_cases h : listed = name <;> simp [h]

/-- A declaration is put at the end of the names under which it is listed. -/
lemma typeNames_listNames (t : DeclTable) (id : NodeId) (name : String) :
    (t.listNames id).typeNames[name]? =
      if (t.get? id).any (isListedAs name) then some ((t.typeNames[name]?).getD [] ++ [id])
      else t.typeNames[name]? := by
  rw [listNames]
  cases hd : t.get? id with
  | none => simp
  | some d =>
      cases hn : d.name with
      | none => simp [hn, isListedAs]
      | some simple =>
          by_cases ht : isTypeName d
          · by_cases hq : d.qualifiedName = simple
            · simp [hn, ht, hq, isListedAs, typeNames_addTypeName]
            · -- a name cannot be both the simple and the qualified one, so it gets the id once
              have hne : ¬(simple = name ∧ d.qualifiedName = name) :=
                fun h => hq (h.2.trans h.1.symm)
              by_cases h1 : simple = name
              · have h2 : d.qualifiedName ≠ name := fun h2 => hne ⟨h1, h2⟩
                simp [hn, ht, h1, h2, isListedAs, typeNames_addTypeName]
              · simp [hn, ht, hq, h1, isListedAs, typeNames_addTypeName]
          · simp [hn, ht, isListedAs]

/-- The index of names of a table in which the ids in `done` have been listed. -/
structure ListsNames (t : DeclTable) (done : List NodeId) (s : DeclTable) : Prop where
  decls : s.decls = t.decls
  order : s.order = t.order
  typeNames : ∀ name ids, s.typeNames[name]? = some ids ↔
    ids ≠ [] ∧ ids = done.filter fun id => (t.get? id).any (isListedAs name)

namespace ListsNames

variable {t s : DeclTable} {done : List NodeId}

/-- Listing names leaves the entries as they are. -/
lemma get? (h : ListsNames t done s) (id : NodeId) : s.get? id = t.get? id := by
  rw [DeclTable.get?, h.decls, DeclTable.get?]

/-- The meanings of a name so far are those, in order, that have it. -/
lemma getD (h : ListsNames t done s) (name : String) :
    (s.typeNames[name]?).getD [] = done.filter fun id => (t.get? id).any (isListedAs name) := by
  cases hs : s.typeNames[name]? with
  | some ids => exact ((h.typeNames name ids).mp hs).2
  | none =>
      by_contra hne
      have := (h.typeNames name _).mpr ⟨Ne.symm hne, rfl⟩
      rw [hs] at this
      exact absurd this (by simp)

/-- One more declaration is listed under its names. -/
lemma step (h : ListsNames t done s) (id : NodeId) :
    ListsNames t (done ++ [id]) (s.listNames id) where
  decls := (decls_listNames s id).trans h.decls
  order := (order_listNames s id).trans h.order
  typeNames := by
    intro name ids
    rw [typeNames_listNames, h.get?, h.getD, List.filter_append, List.filter_singleton]
    cases hl : (t.get? id).any (isListedAs name) with
    | true =>
        simp only [if_true, cond_true, Option.some.injEq]
        exact ⟨fun he => ⟨by simp [← he], he.symm⟩, fun he => he.2.symm⟩
    | false =>
        simp only [Bool.false_eq_true, if_false, cond_false, List.append_nil]
        exact h.typeNames name ids

end ListsNames

/-- The index of a table whose names have not been listed yet, afterwards. -/
lemma listsNames_listTypeNames {t : DeclTable} (h0 : t.typeNames = {}) :
    ListsNames t t.order.toList t.listTypeNames := by
  have key : ∀ (todo done : List NodeId) (s : DeclTable), ListsNames t done s →
      ListsNames t (done ++ todo) (todo.foldl DeclTable.listNames s) := by
    intro todo
    induction todo with
    | nil =>
        intro done s hs
        simpa using hs
    | cons id todo ih =>
        intro done s hs
        rw [List.foldl_cons, ← List.singleton_append, ← List.append_assoc]
        exact ih _ _ (hs.step id)
  rw [listTypeNames, ← Array.foldl_toList]
  refine key t.order.toList [] t ⟨rfl, rfl, fun name ids => ?_⟩
  simp [h0]

/-! ### The finished table -/

/-- Before any name is listed the index is empty. -/
lemma typeNames_linked (names : FileNames) (root : Node) : (linked names root).typeNames = {} := by
  have hkept : Kept (fun _ => True) fun t => t.typeNames = {} :=
    { record := fun _ ht => (typeNames_record _ _).trans ht
      update := fun id f _ ht => (typeNames_update _ id f).trans ht
      define := fun root id ht => (typeNames_define _ root id).trans ht }
  exact hkept.linked rfl fun _ _ _ _ _ _ _ => trivial

/-- The index of names of a finished table. -/
lemma listsNames_build (names : FileNames) (root : Node) :
    ListsNames (linked names root) (linked names root).order.toList (build names root) :=
  listsNames_listTypeNames (typeNames_linked names root)

/-- The table of every tree is consistent. -/
theorem consistent_build (names : FileNames) (root : Node) : Consistent (build names root) := by
  have h := consistent_linked names root
  have hl := listsNames_build names root
  refine ⟨fun hd => h.id_eq (by rwa [hl.get?] at hd), ?_, ?_⟩
  · rw [hl.order]
    exact h.nodup
  · intro id
    rw [hl.order, hl.get?]
    exact h.mem_order

/-- **The index of names**: a name is listed exactly when some declaration has it, and its list is
the tree order cut down to those declarations. -/
theorem typeNames_build (names : FileNames) (root : Node) (name : String) (ids : List NodeId) :
    (build names root).typeNames[name]? = some ids ↔
      ids ≠ [] ∧ ids = (build names root).order.toList.filter fun id =>
        ((build names root).get? id).any (isListedAs name) := by
  have h := listsNames_build names root
  rw [h.typeNames, h.order]
  simp only [h.get?]

namespace Consistent

variable {t : DeclTable} (h : Consistent t)
include h

/-- The declarations of a table are its entries. -/
lemma mem_toList {d : DeclInfo} : d ∈ t.toList ↔ t.get? d.id = some d := by
  rw [toList, List.mem_filterMap]
  constructor
  · rintro ⟨id, -, hd⟩
    rwa [h.id_eq hd]
  · intro hd
    exact ⟨d.id, h.mem_order.mpr (by simp [hd]), hd⟩

/-- There are as many declarations as ids in tree order. -/
lemma size_eq : t.size = t.order.size := by
  have hperm : t.decls.keys.Perm t.order.toList := by
    refine (List.perm_ext_iff_of_nodup Std.HashMap.nodup_keys h.nodup).mpr fun id => ?_
    rw [Std.HashMap.mem_keys, h.mem_order, get?, Std.HashMap.isSome_getElem?_iff_mem]
  rw [size, ← Std.HashMap.length_keys, hperm.length_eq, Array.length_toList]

/-- Declarations are listed in the order of their ids. -/
lemma pairwise_toList :
    t.toList.Pairwise fun a b => t.order.toList.idxOf a.id < t.order.toList.idxOf b.id := by
  rw [toList, List.pairwise_filterMap]
  have horder : t.order.toList.Pairwise fun a b =>
      t.order.toList.idxOf a < t.order.toList.idxOf b := by
    rw [List.pairwise_iff_getElem]
    intro i j hi hj hij
    rw [h.nodup.idxOf_getElem i hi, h.nodup.idxOf_getElem j hj]
    exact hij
  refine horder.imp fun {a b} hab d hd e he => ?_
  rwa [h.id_eq hd, h.id_eq he]

end Consistent

/-! ### Candidates -/

/-- To choose ids by their entries is to choose the entries. -/
lemma filterMap_filter_any (f : NodeId → Option DeclInfo) (p : DeclInfo → Bool)
    (ids : List NodeId) :
    (ids.filter fun id => (f id).any p).filterMap f = (ids.filterMap f).filter p := by
  induction ids with
  | nil => rfl
  | cons id ids ih =>
      cases hf : f id with
      | none => simp [hf, ih]
      | some d => cases hp : p d <;> simp [hf, hp, ih]

/-- **The candidates of a name** that some declaration has are all declarations that have it, be it
their simple name or their qualified one. -/
theorem candidates_build (names : FileNames) (root : Node) (name : String)
    (hex : ∃ d ∈ (build names root).toList, isListedAs (String.ofList (unrooted name.toList)) d) :
    (build names root).candidates name =
      (build names root).toList.filter (isListedAs (String.ofList (unrooted name.toList))) := by
  obtain ⟨d, hd, hl⟩ := hex
  have hget := (consistent_build names root).mem_toList.mp hd
  have hmem : d.id ∈ (build names root).order.toList.filter fun id =>
      ((build names root).get? id).any (isListedAs (String.ofList (unrooted name.toList))) := by
    refine List.mem_filter.mpr ⟨?_, by simp [hget, hl]⟩
    exact (consistent_build names root).mem_order.mpr (by simp [hget])
  have hnames := (typeNames_build names root (String.ofList (unrooted name.toList)) _).mpr
    ⟨List.ne_nil_of_mem hmem, rfl⟩
  rw [candidates]
  simp only [hnames]
  rw [toList, ← filterMap_filter_any]

/-- Every candidate, also one that only shares the last component of the name, is indexed. -/
lemma isIndexed_of_mem_candidates (names : FileNames) (root : Node) {name : String}
    {d : DeclInfo} (hd : d ∈ (build names root).candidates name) :
    d ∈ (build names root).toList ∧ isIndexed d := by
  -- two ways to a candidate: the whole name, or its last component
  have key : ∀ (listed : String) (ids : List NodeId),
      (build names root).typeNames[listed]? = some ids →
      d ∈ ids.filterMap (build names root).get? → d ∈ (build names root).toList ∧ isIndexed d := by
    intro listed ids hids hmem
    rw [((typeNames_build names root listed ids).mp hids).2, filterMap_filter_any] at hmem
    obtain ⟨hd, hl⟩ := List.mem_filter.mp hmem
    exact ⟨hd, (isListedAs_iff.mp hl).1⟩
  rw [candidates] at hd
  split at hd
  · next ids hids => exact key _ ids hids hd
  · split at hd
    · next before simple hsplit =>
      cases hids : (build names root).typeNames[String.ofList simple]? with
      | none => simp [hids] at hd
      | some ids => exact key _ ids hids (by simpa [hids] using hd)
    · simp at hd

/-! ### The choice among them -/

/-- Among some there is a first one of least rank. -/
lemma firstLeast_eq_none_iff {α : Type} {rank : α → Nat} {l : List α} :
    firstLeast rank l = none ↔ l = [] := by
  cases l with
  | nil => simp [firstLeast]
  | cons a as =>
      rw [firstLeast]
      split
      · split <;> simp
      · simp

/-- The first element of least rank cuts the list into elements of greater rank and elements of no
lesser rank. -/
lemma firstLeast_split {α : Type} {rank : α → Nat} :
    ∀ {l : List α} {a : α}, firstLeast rank l = some a →
      ∃ xs ys, l = xs ++ a :: ys ∧ (∀ x ∈ xs, rank a < rank x) ∧ ∀ y ∈ ys, rank a ≤ rank y
  | [], a, h => by simp [firstLeast] at h
  | b :: bs, a, h => by
      rw [firstLeast] at h
      cases hbs : firstLeast rank bs with
      | none =>
          rw [hbs] at h
          obtain rfl : b = a := by simpa using h
          rw [firstLeast_eq_none_iff.mp hbs]
          exact ⟨[], [], rfl, by simp, by simp⟩
      | some c =>
          -- the first of the rest, or this one if that is no better
          obtain ⟨xs, ys, rfl, hxs, hys⟩ := firstLeast_split hbs
          rw [hbs] at h
          dsimp only at h
          split at h
          · next hlt =>
            obtain rfl : c = a := by simpa using h
            refine ⟨b :: xs, ys, rfl, ?_, hys⟩
            intro x hx
            rcases List.mem_cons.mp hx with rfl | hx
            · exact hlt
            · exact hxs x hx
          · next hle =>
            obtain rfl : b = a := by simpa using h
            refine ⟨[], xs ++ c :: ys, rfl, by simp, ?_⟩
            intro y hy
            rcases List.mem_append.mp hy with hy | hy
            · have := hxs y hy
              omega
            · rcases List.mem_cons.mp hy with rfl | hy
              · omega
              · have := hys y hy
                omega

/-- Whether a lookup prefers one declaration to another: it has the lesser rank, or the same rank
and stands first in the tree. -/
def Outranks (t : DeclTable) (a b : DeclInfo) : Prop :=
  rank a < rank b ∨
    rank a = rank b ∧ t.order.toList.idxOf a.id < t.order.toList.idxOf b.id

/-- Of two declarations not both are preferred. -/
lemma Outranks.asymm {t : DeclTable} {a b : DeclInfo} (h : t.Outranks a b) :
    ¬t.Outranks b a := by
  simp only [Outranks] at h ⊢
  omega

/-- The declaration that a lookup chooses is preferred to all others that it might have chosen. -/
lemma outranks_of_firstLeast {names : FileNames} {root : Node} {p : DeclInfo → Bool}
    {m : DeclInfo} (hm : firstLeast rank ((build names root).toList.filter p) = some m) :
    (m ∈ (build names root).toList ∧ p m) ∧
      ∀ r ∈ (build names root).toList, p r → r = m ∨ (build names root).Outranks m r := by
  obtain ⟨xs, ys, hsplit, hxs, hys⟩ := firstLeast_split hm
  have hmem : m ∈ (build names root).toList.filter p := by simp [hsplit]
  refine ⟨List.mem_filter.mp hmem, fun r hr hp => ?_⟩
  have horder := ((consistent_build names root).pairwise_toList).sublist
    (List.filter_sublist (p := p))
  rw [hsplit, List.pairwise_append, List.pairwise_cons] at horder
  have hrmem : r ∈ xs ++ m :: ys := hsplit ▸ List.mem_filter.mpr ⟨hr, hp⟩
  rcases List.mem_append.mp hrmem with hr | hr
  · exact Or.inr (Or.inl (hxs r hr))
  · rcases List.mem_cons.mp hr with rfl | hr
    · exact Or.inl rfl
    · right
      rcases Nat.lt_or_eq_of_le (hys r hr) with hlt | heq
      · exact Or.inl hlt
      · exact Or.inr ⟨heq, horder.2.1.1 r hr⟩

/-- What a lookup finds has exactly the name asked for only if some declaration that it may choose
has that name, and then all that it may choose are declarations of that simple or qualified name. -/
lemma lookupType?_eq_some {names : FileNames} {root : Node} {name : String} {tag : Option Tag}
    (hex : ∃ d ∈ (build names root).toList, isListedAs (String.ofList (unrooted name.toList)) d)
    {id : NodeId} (hid : (build names root).lookupType? name tag = some id) :
    ∃ m, (build names root).get? id = some m ∧ m.id = id ∧
      firstLeast rank ((build names root).toList.filter fun d =>
        mayName tag d && isListedAs (String.ofList (unrooted name.toList)) d) = some m := by
  rw [lookupType?, candidates_build names root name hex, List.filter_filter] at hid
  obtain ⟨m, hm, rfl⟩ := Option.map_eq_some_iff.mp hid
  exact ⟨m, (consistent_build names root).mem_toList.mp (outranks_of_firstLeast hm).1.1, rfl, hm⟩

/-- **When a lookup honours exact qualified names**: it finds a declaration whose qualified name is
the name asked for, without the `::` in front of it, if and only if there is one among the indexed
declarations that the tag admits which is preferred to each of them that only has the same simple
name. -/
theorem lookupType?_exact_iff (names : FileNames) (root : Node) (name : String)
    (tag : Option Tag) :
    let t := build names root
    let full := String.ofList (unrooted name.toList)
    (∃ id d, t.lookupType? name tag = some id ∧ t.get? id = some d ∧ d.qualifiedName = full) ↔
      ∃ e ∈ t.toList, isIndexed e ∧ mayName tag e ∧ e.qualifiedName = full ∧
        ∀ r ∈ t.toList, isIndexed r → mayName tag r → r.name = some full →
          r.qualifiedName ≠ full → t.Outranks e r := by
  intro t full
  have hcons := consistent_build names root
  constructor
  · rintro ⟨id, d, hid, hget, hname⟩
    -- what is found is a candidate, and better than all others
    have hd : d ∈ t.candidates name := by
      rw [lookupType?] at hid
      obtain ⟨m, hm, rfl⟩ := Option.map_eq_some_iff.mp hid
      obtain ⟨xs, ys, hsplit, -, -⟩ := firstLeast_split hm
      have hmem : m ∈ (t.candidates name).filter (mayName tag) := by simp [t, hsplit]
      have hm := List.mem_of_mem_filter hmem
      rw [hcons.mem_toList.mp (isIndexed_of_mem_candidates names root hm).1] at hget
      cases hget
      exact hm
    obtain ⟨hlist, hindexed⟩ := isIndexed_of_mem_candidates names root hd
    obtain ⟨m, hm, hmid, hleast⟩ := lookupType?_eq_some
      ⟨d, hlist, isListedAs_iff.mpr ⟨hindexed, Or.inr hname⟩⟩ hid
    obtain rfl : d = m := by
      rw [hget] at hm
      exact Option.some.inj hm
    obtain ⟨⟨-, hp⟩, hbest⟩ := outranks_of_firstLeast hleast
    refine ⟨d, hlist, hindexed, (Bool.and_eq_true_iff.mp hp).1, hname, ?_⟩
    intro r hr hri hrt hrn hrq
    have hlisted := isListedAs_iff.mpr ⟨hri, Or.inl hrn⟩
    rcases hbest r hr (Bool.and_eq_true_iff.mpr ⟨hrt, hlisted⟩) with rfl | hbest
    · exact absurd hname hrq
    · exact hbest
  · rintro ⟨e, he, hei, het, hen, hbest⟩
    have hl : isListedAs full e := isListedAs_iff.mpr ⟨hei, Or.inr hen⟩
    -- with such a declaration something is found
    have hne : (t.lookupType? name tag).isSome := by
      rw [lookupType?, candidates_build names root name ⟨e, he, hl⟩, Option.isSome_map,
        Option.isSome_iff_ne_none, Ne, firstLeast_eq_none_iff]
      exact List.ne_nil_of_mem (List.mem_filter.mpr ⟨List.mem_filter.mpr ⟨he, hl⟩, het⟩)
    obtain ⟨id, hid⟩ := Option.isSome_iff_exists.mp hne
    obtain ⟨m, hm, hmid, hleast⟩ := lookupType?_eq_some ⟨e, he, hl⟩ hid
    obtain ⟨⟨hmt, hp⟩, hmbest⟩ := outranks_of_firstLeast hleast
    refine ⟨id, m, hid, hm, ?_⟩
    -- were it not of that name, it would be preferred to the declaration and the other way round
    by_contra hq
    obtain ⟨hmtag, hmlist⟩ := Bool.and_eq_true_iff.mp hp
    obtain ⟨hmi, hmn⟩ := isListedAs_iff.mp hmlist
    have hem := hbest m hmt hmi hmtag (hmn.resolve_right hq) hq
    rcases hmbest e he (Bool.and_eq_true_iff.mpr ⟨het, hl⟩) with rfl | hme
    · exact hq hen
    · exact hem.asymm hme

/-- Two structures `S`, the first in the scope `ns`, the second in none. -/
def namesakes : Node :=
  let record : Content :=
    .decl .cxxRecord { name := some "S", tagUsed := some "struct", completeDefinition := some true }
  ⟨⟨1⟩, .decl .translationUnit {}, [
    ⟨⟨2⟩, .decl .namespaceDecl { name := some "ns" }, [⟨⟨3⟩, record, []⟩]⟩,
    ⟨⟨4⟩, record, []⟩]⟩

/-- A lookup does not always honour exact qualified names: `S` means `ns::S` where that stands
first. -/
theorem lookupType?_misses_exact :
    ¬∀ (names : FileNames) (root : Node) (name : String) (tag : Option Tag),
      (∃ e ∈ (build names root).toList, isIndexed e ∧ mayName tag e ∧
        e.qualifiedName = String.ofList (unrooted name.toList)) →
      ∃ id d, (build names root).lookupType? name tag = some id ∧
        (build names root).get? id = some d ∧
        d.qualifiedName = String.ofList (unrooted name.toList) := by
  intro h
  let names : FileNames := ⟨"", ⟨"/"⟩, fun _ => none⟩
  have hex : (build names namesakes).toList.any (fun e =>
      isIndexed e && mayName none e && e.qualifiedName == "S") := by cbv
  have hfound : (build names namesakes).lookupType? "S" none = some ⟨3⟩ := by cbv
  have hname : ((build names namesakes).get? ⟨3⟩).map (·.qualifiedName) = some "ns::S" := by cbv
  obtain ⟨e, he, hp⟩ := List.any_eq_true.mp hex
  simp only [Bool.and_eq_true, beq_iff_eq] at hp
  obtain ⟨id, d, hid, hget, hd⟩ := h names namesakes "S" none ⟨e, he, hp.1.1, hp.1.2, hp.2⟩
  obtain rfl : ⟨3⟩ = id := Option.some.inj (hfound.symm.trans hid)
  rw [hget, Option.map_some, hd] at hname
  exact absurd hname (by decide)

end UnitIndex.DeclTable
