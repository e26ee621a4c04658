import Mathlib.Tactic
import UnitIndex.Proofs.Types.History
import UnitIndex.Proofs.Types.Termination
import UnitIndex.Proofs.Types.Trimming

/-!
Tables in use.

A table is used by one call after the other: types are built, canonical types are asked for. `Used`
collects the tables that come about so, and `Arena` is the invariant that the calls keep
(`Arena.answer`). The two kinds of calls are each other's strangers. What builds types does not look
at the canonical types that have been kept, so that it may be watched on a table without any, where
all that is known of building applies (`Arena.build`); and what finds canonical types leaves the
types kept for written ones alone (`Arena.canonical`).

The main statement is `types_of_used`.
-/

namespace UnitIndex.TypeTable

/-! ### Calls -/

/-- A call on a table. -/
inductive Call where
  | build (request : Request)
  | canonical (q : QualType)
  | canonicalUnqualified (q : QualType)

namespace Call

/-- The type that the call returns. -/
def answer (decls : DeclTable) : Call → TypeM QualType
  | build request => request.build decls
  | canonical q => TypeTable.canonical q
  | canonicalUnqualified q => TypeTable.canonicalUnqualified q

/-- The call is about types of the table. -/
def Fits (t : TypeTable) : Call → Prop
  | build _ => True
  | canonical q | canonicalUnqualified q => q.type < t.size

end Call

/-- A table that some calls have been made on. -/
inductive Used (decls : DeclTable) : TypeTable → Prop
  | fresh : Used decls {}
  | call {t : TypeTable} (c : Call) : Used decls t → c.Fits t →
      Used decls ((c.answer decls).run t).2

/-! ### Building -/

section

variable {decls : DeclTable} {t : TypeTable}

/-- A spelling that is kept as it stands does not depend on the canonical types. -/
lemma ignoresCanonicals_unresolved (spelling : String) :
    IgnoresCanonicals (unresolved spelling) := by
  intro t kept
  show (qualified (.unresolved spelling) {}).run _ = _
  rw [Construction.run_qualified, Construction.intern_canonicals]
  rfl

/-- Following a typedef does not depend on the canonical types that have been kept. -/
lemma ignoresCanonicals_expand (decls : DeclTable) (decl : NodeId) :
    IgnoresCanonicals (expand decls decl) := by
  rw [expand, expandWithin_eq_enterWithin]
  generalize decls.size + 1 = entries
  induction entries generalizing decl with
  | zero => exact ignoresCanonicals_unresolved ""
  | succ entries ih =>
      intro t kept
      rw [enterWithin, run_enter, run_enter]
      -- a typedef without a type, one that is being expanded, and any other
      cases (decls.get? decl).bind (·.type) with
      | none => exact ignoresCanonicals_unresolved "" t kept
      | some written =>
          dsimp only
          split
          · exact ignoresCanonicals_unresolved _ t kept
          · have hbuild : Construction decls fun follow => writtenTypeWith follow decls written :=
              .writtenTypeWith written
            have hinner :=
              hbuild.ignoresCanonicals ih { t with expanding := decl :: t.expanding } kept
            dsimp only at hinner
            rw [hinner]

lemma ignoresCanonicals_build (decls : DeclTable) (request : Request) :
    IgnoresCanonicals (request.build decls) := by
  rw [request.build_eq]
  exact (request.construction decls).ignoresCanonicals (ignoresCanonicals_expand decls)

/-- A form that names declarations of its class may be put into the table. -/
lemma allNamed_intern {form : TypeForm} (hform : Named decls form) (ht : AllNamed decls t) :
    AllNamed decls (intern form t).2 := by
  intro form' hmem
  rcases forms_intern form t hmem with hold | rfl
  · exact ht form' hold
  · exact hform

/-- Following a typedef puts no other forms there. -/
lemma allNamed_expand (hdecls : decls.Consistent) (decl : NodeId) (ht : AllNamed decls t) :
    AllNamed decls ((expand decls decl).run t).2 := by
  rw [expand, expandWithin_eq_enterWithin]
  generalize decls.size + 1 = entries
  induction entries generalizing decl t with
  | zero => exact allNamed_intern trivial ht
  | succ entries ih =>
      rw [enterWithin, run_enter]
      cases (decls.get? decl).bind (·.type) with
      | none => exact allNamed_intern trivial ht
      | some written =>
          dsimp only
          split
          · exact allNamed_intern trivial ht
          · exact (Construction.writtenTypeWith written).named hdecls
              (fun d t' ht' => ih d ht') (t := { t with expanding := decl :: t.expanding }) ht

lemma allNamed_build (hdecls : decls.Consistent) (request : Request) (ht : AllNamed decls t) :
    AllNamed decls ((request.build decls).run t).2 := by
  rw [request.build_eq]
  exact (request.construction decls).named hdecls (fun d t' ht' => allNamed_expand hdecls d ht') ht

/-- Typedefs are followed to types of the table. -/
lemma faithful_expand (decls : DeclTable) :
    Faithful decls False [] (expand decls) fun _ => none := by
  intro t decl ht _
  have hroom : Room decls t.expanding (decls.size + 1) := by
    rw [ht]
    exact ⟨List.nodup_nil, by simp, rfl⟩
  have hfollows : Follows decls (decls.size + 1) t decl := follows hroom (by simp [ht])
  exact hfollows.imp fun _ _ hq => hq.weaken fun tree htree => absurd htree (by simp)

/-- What is built is a type of the table, and a sound table stays sound. -/
lemma keeps_build (ht : t.expanding = []) (request : Request) :
    Keeps (Means decls) t (fun t' q => q.type < t'.size) (request.build decls) := by
  have hfaithful := faithful_expand decls
  cases request with
  | written type => exact (keeps_writtenType ht type).imp fun _ _ hq => hq.1
  | spelling text =>
      exact (makes_parsedTypeWith hfaithful ht text _ False.elim).imp fun _ _ hq => hq.1
  | decl id depth =>
      exact (makes_declTypeWith hfaithful ht id depth False.elim).imp fun _ _ hq => hq.1

end

/-! ### The invariant -/

/-- A table on whatever declarations: what is kept for written types is what they mean, canonical
types are right up to types left out, and no typedef is being expanded. -/
structure Tended (decls : DeclTable) (t : TypeTable) : Prop extends Trimmed t where
  written : TrueWritten (Means decls) t
  expanding : t.expanding = []

namespace Tended

variable {decls : DeclTable} {t : TypeTable}

/-- An empty table is tended. -/
lemma empty (decls : DeclTable) : Tended decls {} := by
  have hsound := sound_empty (Means decls)
  exact ⟨⟨hsound.toLayered, fun q c hc => absurd hc (by simp)⟩, hsound.written, rfl⟩

/-- Without the canonical types the table is sound. -/
lemma sound (h : Tended decls t) : Sound (Means decls) { t with canonicals := {} } := by
  have hext : Extends t { t with canonicals := {} } := .of_forms rfl
  refine ⟨⟨h.parts_lt, h.ids_iff⟩, h.written.mono hext rfl, fun q c hc => ?_⟩
  exact absurd hc (by simp)

/-- Building types leaves it tended. -/
lemma build (h : Tended decls t) (request : Request) :
    Tended decls ((request.build decls).run t).2 ∧
      Extends t ((request.build decls).run t).2 ∧
      ((request.build decls).run t).1.type < ((request.build decls).run t).2.size := by
  have hout := keeps_build (t := { t with canonicals := {} }) h.expanding request h.sound
  have hrun := ignoresCanonicals_build decls request { t with canonicals := {} } t.canonicals
  dsimp only at hrun
  rw [hrun]
  generalize (request.build decls).run { t with canonicals := {} } = r at hout ⊢
  have hgrown : Extends t r.2 := ⟨hout.grown.size_le, hout.grown.form_eq⟩
  have hext : Extends r.2 { r.2 with canonicals := t.canonicals } := .of_forms rfl
  refine ⟨⟨?_, hout.sound.written.mono hext rfl, ?_⟩, hgrown.trans hext, hout.result⟩
  · exact h.toTrimmed.mono ⟨hout.sound.parts_lt, hout.sound.ids_iff⟩ (hgrown.trans hext) rfl
  · exact hout.expanding.trans h.expanding

lemma canonical (h : Tended decls t) {q : QualType} (hq : q.type < t.size) :
    Tended decls ((TypeTable.canonical q).run t).2 := by
  have hout := trims_canonicalWithin (maxSugar + 1) ⟨hq, rfl⟩ h.toTrimmed
  exact ⟨hout.trimmed, h.written.mono hout.grown hout.written, hout.expanding.trans h.expanding⟩

end Tended

/-- Tables in use are tended. -/
lemma Used.tended {decls : DeclTable} {t : TypeTable} (h : Used decls t) : Tended decls t := by
  induction h with
  | fresh => exact .empty decls
  | call c _ hfits ih =>
      cases c with
      | build request => exact (ih.build request).1
      | canonical q | canonicalUnqualified q => exact ih.canonical hfits

/-- A table as the calls keep it on declarations that fit together: besides, what names a
declaration names one of its class. -/
structure Arena (decls : DeclTable) (t : TypeTable) : Prop extends Trimmed t where
  written : TrueWritten (Means decls) t
  named : AllNamed decls t
  expanding : t.expanding = []

/-- What a step from `t` does to a table in use: it only adds types, and returns one of them. -/
structure Answer (decls : DeclTable) (t : TypeTable) (r : QualType × TypeTable) : Prop where
  arena : Arena decls r.2
  grown : Extends t r.2
  lt_size : r.1.type < r.2.size

namespace Arena

variable {decls : DeclTable} {t : TypeTable}

/-- An empty table is an arena. -/
lemma empty (decls : DeclTable) : Arena decls {} := by
  have htended := Tended.empty decls
  exact ⟨htended.toTrimmed, htended.written, fun form hmem => absurd hmem (by simp), rfl⟩

lemma tended (h : Arena decls t) : Tended decls t := ⟨h.toTrimmed, h.written, h.expanding⟩

/-- Building types is answered from an arena. -/
lemma build (h : Arena decls t) (hdecls : decls.Consistent) (request : Request) :
    Answer decls t ((request.build decls).run t) := by
  obtain ⟨htended, hgrown, hlt⟩ := h.tended.build request
  have hnamed := allNamed_build hdecls request h.named
  exact ⟨⟨htended.toTrimmed, htended.written, hnamed, htended.expanding⟩, hgrown, hlt⟩

lemma canonical (h : Arena decls t) {q : QualType} (hq : q.type < t.size) :
    Answer decls t ((TypeTable.canonical q).run t) := by
  have hout := trims_canonicalWithin (maxSugar + 1) ⟨hq, rfl⟩ h.toTrimmed
  refine ⟨⟨hout.trimmed, ?_, hout.named decls h.named, ?_⟩, hout.grown, hout.result.1⟩
  · exact h.written.mono hout.grown hout.written
  · exact hout.expanding.trans h.expanding

/-- Every call keeps the invariant. -/
lemma answer (h : Arena decls t) (hdecls : decls.Consistent) {c : Call} (hc : c.Fits t) :
    Answer decls t ((c.answer decls).run t) := by
  cases c with
  | build request => exact h.build hdecls request
  | canonical q => exact h.canonical hc
  | canonicalUnqualified q =>
      have hanswer := h.canonical hc
      exact ⟨hanswer.arena, hanswer.grown, hanswer.lt_size⟩

end Arena

/-- **Tables in use are arenas**, whatever calls have been made. -/
lemma Used.arena {decls : DeclTable} (hdecls : decls.Consistent) {t : TypeTable}
    (h : Used decls t) : Arena decls t := by
  induction h with
  | fresh => exact .empty decls
  | call c _ hfits ih => exact (ih.answer hdecls hfits).arena

/-! ### Resolving -/

/-- A declaration that types resolve to: a record, or a template that types are made from. -/
def Resolvable (decls : DeclTable) (decl : NodeId) : Prop :=
  ∃ d, decls.get? decl = some d ∧
    (d.cls = .record ∨ d.kind = .classTemplate ∨ d.kind = .typeAliasTemplate)

section

variable {decls : DeclTable} {t : TypeTable} {decl : NodeId}

/-- Forms that do not stand in the table name nothing. -/
lemma AllNamed.form (h : AllNamed decls t) (id : TypeId) : Named decls (t.form id) := by
  rw [TypeTable.form, Array.getD_eq_getD_getElem?]
  cases hform : t.forms[id]? with
  | none => trivial
  | some form => exact h form (Array.mem_of_getElem? hform)

/-- The declaration of a record can be resolved to. -/
lemma resolvable_of_record {tag : Option Tag} {isCxx : Bool}
    (h : Named decls (.record decl tag isCxx)) : Resolvable decls decl := by
  obtain ⟨d, hd, hcls, -⟩ := h
  exact ⟨d, hd, Or.inl hcls⟩

/-- Only records are structures, unions or records of the language. -/
lemma eq_record_of_structure? {form : TypeForm} (h : form.structure? = some decl) :
    ∃ tag isCxx, form = .record decl tag isCxx := by
  rw [TypeForm.structure?.eq_def] at h
  split at h <;> simp_all

lemma eq_record_of_union? {form : TypeForm} (h : form.union? = some decl) :
    ∃ tag isCxx, form = .record decl tag isCxx := by
  rw [TypeForm.union?.eq_def] at h
  split at h <;> simp_all

lemma eq_record_of_cxxRecord? {form : TypeForm} (h : form.cxxRecord? = some decl) :
    ∃ tag isCxx, form = .record decl tag isCxx := by
  rw [TypeForm.cxxRecord?.eq_def] at h
  split at h <;> simp_all

/-- What a type stands for directly is a record that some form of the table names. -/
lemma exists_record_of_direct? {q : QualType} (h : t.direct? q = some decl) :
    ∃ id tag isCxx, t.form id = .record decl tag isCxx := by
  rw [direct?, Option.or_eq_some_iff, Option.or_eq_some_iff, Option.or_eq_some_iff] at h
  rcases h with hstructure | ⟨-, hunion | ⟨-, hcxx | ⟨-, hpointee⟩⟩⟩
  · exact ⟨_, eq_record_of_structure? hstructure⟩
  · exact ⟨_, eq_record_of_union? hunion⟩
  · exact ⟨_, eq_record_of_cxxRecord? hcxx⟩
  · obtain ⟨p, -, hp⟩ := Option.bind_eq_some_iff.mp hpointee
    exact ⟨_, eq_record_of_cxxRecord? hp⟩

/-- A template is one that some form of the table names. -/
lemma exists_template_of_specializationWithin {layers : Nat} {q : QualType}
    (h : t.specializationWithin layers q = some (some decl)) :
    ∃ id, (t.form id).template? = some (some decl) := by
  induction layers generalizing q with
  | zero => exact absurd h (by simp [specializationWithin])
  | succ layers ih =>
      rw [specializationWithin] at h
      split at h
      · next template htemplate =>
          rw [← Option.some.inj h]
          exact ⟨q.type, htemplate⟩
      · split at h
        · exact ih h
        · exact absurd h (by simp)

lemma resolvable_of_template? {form : TypeForm} (hnamed : Named decls form)
    (h : form.template? = some (some decl)) : Resolvable decls decl := by
  cases form with
  | specialization template spelling aliased =>
      obtain rfl : template = some decl := Option.some.inj h
      obtain ⟨d, hd, -, htemplate⟩ := hnamed
      refine ⟨d, hd, Or.inr ?_⟩
      rw [DeclInfo.isTypeTemplate] at htemplate
      split at htemplate
      · next hkind => exact Or.inl hkind
      · next hkind => exact Or.inr hkind
      · exact absurd htemplate (by simp)
  | _ => exact absurd h (by simp [TypeForm.template?])

/-- What the rules find is a record or a template. -/
lemma resolvable_of_rule (hnamed : AllNamed decls t) {q : QualType}
    (h : t.rule q = .found (some decl)) : Resolvable decls decl := by
  rw [rule] at h
  -- a record that is met directly, or else the template of a specialization
  cases hdirect : t.direct? q with
  | some d =>
      rw [hdirect] at h
      obtain rfl : d = decl := by simpa using h
      obtain ⟨id, tag, isCxx, hform⟩ := exists_record_of_direct? hdirect
      exact resolvable_of_record (hform ▸ hnamed.form id)
  | none =>
      rw [hdirect] at h
      dsimp only at h
      split at h
      · split at h <;> exact absurd h (by simp)
      · split at h
        · next template htemplate =>
            obtain rfl : template = some decl := by simpa using h
            obtain ⟨id, hid⟩ := exists_template_of_specializationWithin htemplate
            exact resolvable_of_template? (hnamed.form id) hid
        · split at h <;> exact absurd h (by simp)

end

/-- What a step of resolving does to a table in use. -/
def Serves {α : Type} (decls : DeclTable) (t : TypeTable) (P : TypeTable → α → Prop)
    (x : TypeM α) : Prop :=
  Used decls t → Used decls (x.run t).2 ∧ P (x.run t).2 (x.run t).1

section

variable {decls : DeclTable} {t : TypeTable}

lemma Serves.pure {α : Type} {P : TypeTable → α → Prop} {a : α} (h : P t a) :
    Serves decls t P (pure a) :=
  fun ht => ⟨ht, h⟩

/-- Two steps serve, if each does in the table that it meets. -/
lemma Serves.bind {α β : Type} {P : TypeTable → α → Prop} {Q : TypeTable → β → Prop}
    {x : TypeM α} {f : α → TypeM β} (hx : Serves decls t P x)
    (hf : ∀ t' a, P t' a → Serves decls t' Q (f a)) : Serves decls t Q (x >>= f) := by
  intro ht
  obtain ⟨ht', ha⟩ := hx ht
  exact hf _ _ ha ht'

/-- Every call serves. -/
lemma serves_answer (hdecls : decls.Consistent) {c : Call} (hc : c.Fits t) :
    Serves decls t (fun t' q => q.type < t'.size) (c.answer decls) :=
  fun ht => ⟨ht.call c hc, ((ht.arena hdecls).answer hdecls hc).lt_size⟩

/-- What is found when a type is unwrapped can be resolved to; what is gone on to is in the
table. -/
def Proper (decls : DeclTable) (t : TypeTable) : Unwrapped QualType → Prop
  | .found found => ∀ decl ∈ found, Resolvable decls decl
  | .goOn next => next.type < t.size

/-- A step of resolving is the rule, and at most one canonical type. -/
lemma run_unwrap (q : QualType) (t : TypeTable) :
    (unwrap q).run t = (match t.rule q with
      | .found decl => pure (.found decl)
      | .follow next => canonical next >>= fun c => pure (.goOn c)
      | .bare => canonicalUnqualified q >>= fun c => pure (.goOn c) :
        TypeM (Unwrapped QualType)).run t := rfl

/-- It stays within the types of the table, and finds what can be resolved to. -/
lemma serves_unwrap (hdecls : decls.Consistent) {q : QualType} (hq : q.type < t.size) :
    Serves decls t (Proper decls) (unwrap q) := by
  intro ht
  have harena := ht.arena hdecls
  have hrule := sameRule harena.toLayered ⟨hq, rfl⟩
  rw [run_unwrap]
  cases hruled : t.rule q with
  | found found =>
      refine Serves.pure (fun decl hdecl => ?_) ht
      rw [Option.mem_def.mp hdecl] at hruled
      exact resolvable_of_rule harena.named hruled
  | follow next =>
      -- the rule follows a part of the type, which stands in front of it
      have hnext : next.type < t.size := by
        rw [hruled] at hrule
        generalize (t.tree q).rule = rule' at hrule
        cases hrule with
        | follow hnext => exact hnext.1
      have hcall := serves_answer (c := .canonical next) hdecls hnext
      exact Serves.bind hcall (fun t' c hc => Serves.pure (P := Proper decls) hc) ht
  | bare =>
      have hcall := serves_answer (c := .canonicalUnqualified q) hdecls hq
      exact Serves.bind hcall (fun t' c hc => Serves.pure (P := Proper decls) hc) ht

/-- **Resolving** serves, whatever the number of steps is. -/
lemma serves_resolveWithin (hdecls : decls.Consistent) (steps : Nat) {visited : List TypeId}
    {q : QualType} (hq : q.type < t.size) :
    Serves decls t (fun _ found => ∀ decl ∈ found, Resolvable decls decl)
      (resolveWithin steps visited q) := by
  -- to find nothing serves in any table
  have hnone (t' : TypeTable) : Serves decls t'
      (fun _ found => ∀ decl ∈ found, Resolvable decls decl) (pure none) :=
    .pure (by simp)
  induction steps generalizing t visited q with
  | zero => exact hnone t
  | succ steps ih =>
      rw [resolveWithin]
      split
      · exact hnone t
      · refine .bind (serves_unwrap hdecls hq) fun t' unwrapped hproper => ?_
        cases unwrapped with
        | found found => exact .pure hproper
        | goOn next =>
            dsimp only
            split
            · exact hnone t'
            · exact ih hproper

end

/-! ### The types of a table in use -/

/-- The form of a type of the table. -/
lemma form_eq_getElem {t : TypeTable} {id : TypeId} (h : id < t.forms.size) :
    t.form id = t.forms[id] := by
  rw [form, Array.getD_eq_getD_getElem?, Array.getElem?_eq_getElem h, Option.getD_some]

/-- **Ids may be cut to 32 bits**: up to 2^32 types of a table they tell the same types apart. -/
theorem Used.toUInt32_eq_iff {names : FileNames} {root : Node} {t : TypeTable}
    (h : Used (.build names root) t) (hsize : t.size ≤ UInt32.size) {i j : TypeId}
    (hi : i < t.size) (hj : j < t.size) (quals : Qualifiers) :
    i.toUInt32 = j.toUInt32 ↔ t.tree ⟨i, quals⟩ = t.tree ⟨j, quals⟩ := by
  have harena := h.arena (DeclTable.consistent_build names root)
  have hcut {id : TypeId} (hid : id < t.size) : id.toUInt32.toNat = id :=
    UInt32.toNat_ofNat_of_lt' (hid.trans_le hsize)
  constructor
  · intro heq
    rw [← hcut hi, heq, hcut hj]
  · intro heq
    obtain ⟨rfl, -⟩ := QualType.mk.inj (tree_injective harena.toLayered hi hj heq)
    rfl

/-- **The types of a table that is used by whatever calls**, built on the declarations of whatever
tree:

* the types inside a type stand in front of it, so that a type can be written out, and types are the
  same exactly if they are the same when written out (with ids of 32 bits: `Used.toUInt32_eq_iff`);
* the ids tell exactly where the forms stand;
* what names a declaration names one of its class;
* every further call returns a type of the table that it leaves behind;
* a type resolves to nothing but records, class templates and alias templates, and the table may be
  used on. -/
theorem types_of_used (names : FileNames) (root : Node) (t : TypeTable)
    (h : Used (.build names root) t) :
    (∀ id, ∀ p ∈ (t.form id).parts, p.type < id) ∧
      (∀ q, t.tree q =
        .node (t.form q.type).label q.quals ((t.form q.type).parts.map t.tree)) ∧
      (∀ (i j : TypeId) quals, i < t.size → j < t.size →
        (i = j ↔ t.tree ⟨i, quals⟩ = t.tree ⟨j, quals⟩)) ∧
      (∀ (form : TypeForm) (id : TypeId), t.ids[form]? = some id ↔ t.forms[id]? = some form) ∧
      (∀ form ∈ t.forms, Named (.build names root) form) ∧
      (∀ c : Call, c.Fits t →
        ((c.answer (.build names root)).run t).1.type <
          ((c.answer (.build names root)).run t).2.size) ∧
      (∀ maxDepth q, q.type < t.size →
        Used (.build names root) ((resolve maxDepth q).run t).2 ∧
          ∀ decl, ((resolve maxDepth q).run t).1 = some decl →
            Resolvable (.build names root) decl) := by
  have hdecls := DeclTable.consistent_build names root
  have harena := h.arena hdecls
  refine ⟨fun id p hp => harena.parts_lt hp, harena.toLayered.tree_eq, ?_, ?_, harena.named, ?_, ?_⟩
  · -- types that are written out alike have the same id
    intro i j quals hi hj
    constructor
    · rintro rfl
      rfl
    · intro heq
      exact congrArg QualType.type (tree_injective harena.toLayered hi hj heq)
  · intro form id
    rw [harena.ids_iff, Array.getElem?_eq_some_iff]
    constructor
    · rintro ⟨hlt, rfl⟩
      exact ⟨hlt, (form_eq_getElem hlt).symm⟩
    · rintro ⟨hlt, rfl⟩
      exact ⟨hlt, form_eq_getElem hlt⟩
  · intro c hc
    exact (harena.answer hdecls hc).lt_size
  · intro maxDepth q hq
    exact serves_resolveWithin hdecls maxDepth hq h

/-- A table that the type `const A` has been built in, and its canonical type been asked for. -/
def roundaboutInUse : TypeTable :=
  let built := (writtenType roundabout { qualType := some "const ::A" }).run {}
  ((canonical built.1).run built.2).2

/-- There the template behind `A` is found, which is one that types are made from. -/
theorem types_of_used_roundabout :
    Used roundabout roundaboutInUse ∧
      ((resolve 32 ⟨5, {}⟩).run roundaboutInUse).1 = some ⟨3⟩ ∧ Resolvable roundabout ⟨3⟩ := by
  have hbuilt : ((writtenType roundabout { qualType := some "const ::A" }).run {}).1.type <
      ((writtenType roundabout { qualType := some "const ::A" }).run {}).2.size := by
    rw [writtenType_roundabout]
    cbv
  have hused : Used roundabout roundaboutInUse := by
    have hfresh : Used roundabout {} := .fresh
    have hcalled := hfresh.call (.build (.written { qualType := some "const ::A" })) trivial
    exact hcalled.call (.canonical _) hbuilt
  have hfound : ((resolve 32 ⟨5, {}⟩).run roundaboutInUse).1 = some ⟨3⟩ := by
    rw [roundaboutInUse, writtenType_roundabout]
    cbv
  have hlt : 5 < roundaboutInUse.size := by
    rw [roundaboutInUse, writtenType_roundabout]
    cbv
  obtain ⟨-, -, -, -, -, -, hresolve⟩ := types_of_used _ _ roundaboutInUse hused
  exact ⟨hused, hfound, (hresolve 32 ⟨5, {}⟩ hlt).2 ⟨3⟩ hfound⟩

end UnitIndex.TypeTable
