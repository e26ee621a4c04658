import Mathlib.Tactic
import UnitIndex.Proofs.Decl.Lookup
import UnitIndex.Types.Build

/-!
What the building of types is made of.

A step of the building is put together from few others: a form is interned, the table is looked at,
what was built is kept, a typedef is followed. `Construction` is the closure of these under
sequencing, for steps that leave open how typedefs are followed; `Construction.writtenTypeWith` and
its companions say that whatever is built lies in it. The code of the building is gone through only
there, and a law of it is proved by induction over `Construction`:

* the typedefs that are being expanded are the same behind a step as before it
  (`Construction.expanding`);
* two ways of following typedefs that agree make a step do the same (`Construction.congr`);
* a form that names a declaration names one of its class (`Construction.named`);
* what has been kept of canonical types makes no difference (`Construction.ignoresCanonicals`).

Each of these takes the same law of the way in which typedefs are followed.
-/

namespace UnitIndex

/-! ### Names -/

/-- The form names a declaration of its own class, if it names any; a record is one of that tag and
language. -/
def Named (decls : DeclTable) : TypeForm → Prop
  | .record decl tag isCxx =>
    ∃ d, decls.get? decl = some d ∧ d.cls = .record ∧ d.tag = tag ∧ d.isCxx = isCxx
  | .enum decl => ∃ d, decls.get? decl = some d ∧ d.cls = .enum
  | .typedef decl _ => ∃ d, decls.get? decl = some d ∧ d.cls = .typedef
  | .specialization (some template) _ _ =>
    ∃ d, decls.get? template = some d ∧ d.cls = .template ∧ d.isTypeTemplate
  | _ => True

namespace DeclTable

variable {decls : DeclTable}

/-- Templates of types are templates. -/
lemma cls_of_isTypeTemplate {d : DeclInfo} (h : d.isTypeTemplate) : d.cls = .template := by
  rw [DeclInfo.isTypeTemplate] at h
  rw [DeclInfo.cls]
  split at h <;> simp_all [DeclClass.ofKind]

/-- A template that is found by its name is one that types are made from. -/
lemma named_lookupTemplate? (h : decls.Consistent) (name spelling : String)
    (aliased : Option QualType) :
    Named decls (.specialization (decls.lookupTemplate? name) spelling aliased) := by
  rw [lookupTemplate?]
  cases hfind : (decls.candidates name).find? (·.isTypeTemplate) with
  | none => trivial
  | some d =>
      have htemplate : d.isTypeTemplate := List.find?_some hfind
      have hmem := List.mem_of_find?_eq_some hfind
      rw [candidates] at hmem
      obtain ⟨id, -, hid⟩ := List.mem_filterMap.mp hmem
      have hget : decls.get? d.id = some d := by rw [h.id_eq hid, hid]
      exact ⟨d, hget, cls_of_isTypeTemplate htemplate, htemplate⟩

/-- So is an unnamed record or enumeration that is found by its position. -/
lemma named_anonymousForm? (h : decls.Consistent) {text : String} {form : TypeForm}
    (hform : TypeTable.anonymousForm? decls text = some form) : Named decls form := by
  obtain ⟨position, -, hform⟩ := Option.bind_eq_some_iff.mp hform
  obtain ⟨name, -, hform⟩ := Option.bind_eq_some_iff.mp hform
  obtain ⟨d, hfind, hform⟩ := Option.bind_eq_some_iff.mp hform
  have hget : decls.get? d.id = some d := h.mem_toList.mp (List.mem_of_find?_eq_some hfind)
  have hcls : d.cls = .record ∨ d.cls = .enum := by
    have hfound := List.find?_some hfind
    simp only [Bool.and_eq_true, Bool.or_eq_true, beq_iff_eq] at hfound
    exact hfound.1
  split at hform
  · next henum =>
      obtain rfl := Option.some.inj hform
      exact ⟨d, hget, henum⟩
  · next hother =>
      obtain rfl := Option.some.inj hform
      exact ⟨d, hget, hcls.resolve_right hother, rfl, rfl⟩

/-- So is the template of a template-id that is known to be an alias template. -/
lemma named_aliasTemplate {template : NodeId}
    (h : (decls.get? template).any (·.kind == .typeAliasTemplate)) (spelling : String)
    (aliased : Option QualType) :
    Named decls (.specialization (some template) spelling aliased) := by
  cases hget : decls.get? template with
  | none => simp [hget] at h
  | some d =>
      have hkind : d.kind = .typeAliasTemplate := by simpa [hget] using h
      have htemplate : d.isTypeTemplate := by rw [DeclInfo.isTypeTemplate, hkind]
      exact ⟨d, hget, cls_of_isTypeTemplate htemplate, htemplate⟩

/-- So is the typedef that a written type is said to name. -/
lemma named_namedAlias? {written : WrittenType} {expr : Option TypeExpr} {aliasId : NodeId}
    {quals : Qualifiers} (h : TypeTable.namedAlias? decls written expr = some (aliasId, quals))
    (underlying : QualType) : Named decls (.typedef aliasId underlying) := by
  obtain ⟨id, -, h⟩ := Option.bind_eq_some_iff.mp h
  obtain ⟨d, hget, h⟩ := Option.bind_eq_some_iff.mp h
  obtain ⟨e, -, h⟩ := Option.bind_eq_some_iff.mp h
  split at h
  · next hcls =>
      obtain ⟨rfl, -⟩ := Prod.mk.inj (Option.some.inj h)
      exact ⟨d, hget, hcls.1⟩
  · exact absurd h (by simp)

end DeclTable

namespace TypeTable

/-- Every form of the table names a declaration of its class, if it names any. -/
def AllNamed (decls : DeclTable) (t : TypeTable) : Prop := ∀ form ∈ t.forms, Named decls form

/-- What has been kept of canonical types makes no difference to the step, nor the step to it. -/
def IgnoresCanonicals {α : Type} (x : TypeM α) : Prop :=
  ∀ t kept, x.run { t with canonicals := kept } =
    ((x.run t).1, { (x.run t).2 with canonicals := kept })

/-- The steps that the building of types is made of; how typedefs are followed is left open. What is
read of the table does not depend on the canonical types that have been kept. -/
inductive Construction (decls : DeclTable) :
    {α : Type} → ((NodeId → TypeM QualType) → TypeM α) → Prop where
  | pure {α : Type} (a : α) : Construction decls fun _ => pure a
  | bind {α β : Type} {x : (NodeId → TypeM QualType) → TypeM α}
      {f : (NodeId → TypeM QualType) → α → TypeM β} :
      Construction decls x → (∀ a, Construction decls fun follow => f follow a) →
      Construction decls fun follow => x follow >>= f follow
  | look {α : Type} {f : (NodeId → TypeM QualType) → TypeTable → TypeM α} :
      (∀ t, Construction decls fun follow => f follow t) →
      (∀ follow t kept, f follow { t with canonicals := kept } = f follow t) →
      Construction decls fun follow => get >>= f follow
  | intern (form : TypeForm) (quals : Qualifiers) : (decls.Consistent → Named decls form) →
      Construction decls fun _ => qualified form quals
  | keep (written : WrittenType) (q : QualType) : Construction decls fun _ =>
      modify fun t => { t with written := t.written.insert written q }
  | follow (decl : NodeId) : Construction decls fun follow => follow decl

namespace Construction

variable {decls : DeclTable}

/-! ### The code of the building -/

/-- A spelling that is kept as it stands. -/
lemma unresolved (spelling : String) :
    Construction decls fun _ => TypeTable.unresolved spelling :=
  .intern _ _ fun _ => trivial

/-- **Declarations.** -/
lemma declTypeWith (decl : NodeId) (depth : Nat) :
    Construction decls fun follow => TypeTable.declTypeWith follow decls decl depth := by
  simp only [TypeTable.declTypeWith]
  cases hinfo : decls.get? decl with
  | none => exact unresolved _
  | some info =>
      dsimp only
      cases hcls : info.cls with
      | record => exact .intern _ _ fun _ => ⟨info, hinfo, hcls, rfl, rfl⟩
      | enum => exact .intern _ _ fun _ => ⟨info, hinfo, hcls⟩
      | typedef =>
          dsimp only
          split
          · exact .bind (.follow decl) fun _ => .intern _ _ fun _ => ⟨info, hinfo, hcls⟩
          · exact unresolved _
      | _ => exact unresolved _

/-- **Bases.** What is looked up is of the class that the form asks for. -/
lemma baseTypeWith (depth : Nat) (base : TypeBase) :
    Construction decls fun follow => TypeTable.baseTypeWith follow decls depth base := by
  cases base with
  | builtin words => exact .intern _ _ fun _ => trivial
  | templateParm text => exact .intern _ _ fun _ => trivial
  | verbatim text => exact unresolved text
  | anonymous tag text =>
      refine .intern _ _ fun h => ?_
      cases hform : anonymousForm? decls text with
      | none => trivial
      | some form => exact DeclTable.named_anonymousForm? h hform
  | named tag path =>
      -- a name with arguments is a specialization, and is not looked up among the types
      simp only [TypeTable.baseTypeWith]
      cases path.getLast?.bind (·.args) with
      | some args => exact .intern _ _ fun h => DeclTable.named_lookupTemplate? h _ _ _
      | none =>
          dsimp only
          cases decls.lookupType? ("::".intercalate (path.map (·.name))) tag with
          | none => exact unresolved _
          | some decl =>
              refine .bind (declTypeWith decl depth) fun named => ?_
              cases tag with
              | some tag => exact .intern _ _ fun _ => trivial
              | none => exact .pure named

mutual

/-- **Type expressions**, by recursion on their parts. -/
lemma exprTypeWith (depth : Nat) : ∀ expr : TypeExpr,
    Construction decls fun follow => TypeTable.exprTypeWith follow decls depth expr
  | ⟨base, quals, ops⟩ => by
      simp only [TypeTable.exprTypeWith]
      exact .bind (baseTypeWith depth base) fun _ => applyOps depth _ ops

lemma applyOps (depth : Nat) (current : QualType) : ∀ ops : List TypeOp,
    Construction decls fun follow => TypeTable.applyOps follow decls depth current ops
  | [] => by
      simp only [TypeTable.applyOps]
      exact .pure current
  | op :: ops => by
      simp only [TypeTable.applyOps]
      exact .bind (applyOp depth current op) fun next => applyOps depth next ops

lemma applyOp (depth : Nat) (current : QualType) : ∀ op : TypeOp,
    Construction decls fun follow => TypeTable.applyOp follow decls depth current op
  | .pointer quals => .intern _ _ fun _ => trivial
  | .lvalueRef => .intern _ _ fun _ => trivial
  | .rvalueRef => .intern _ _ fun _ => trivial
  | .array size => .intern _ _ fun _ => trivial
  | .function params variadic => by
      simp only [TypeTable.applyOp]
      exact .bind (paramTypes (depth + 1) params) fun _ => .intern _ _ fun _ => trivial

lemma paramTypes (depth : Nat) : ∀ params : List TypeExpr,
    Construction decls fun follow => TypeTable.paramTypes follow decls depth params
  | [] => by
      simp only [TypeTable.paramTypes]
      exact .pure []
  | p :: ps => by
      simp only [TypeTable.paramTypes]
      exact .bind (exprTypeWith depth p) fun _ => .bind (paramTypes depth ps) fun _ => .pure _

end

/-- **Spellings**, read or kept as they stand. -/
lemma parsedTypeWith (spelling : String) (expr : Option TypeExpr) :
    Construction decls fun follow => TypeTable.parsedTypeWith follow decls spelling expr := by
  cases expr with
  | some expr => exact exprTypeWith 0 expr
  | none => exact unresolved spelling

lemma spellingTypeWith (spelling : String) :
    Construction decls fun follow => TypeTable.spellingTypeWith follow decls spelling :=
  parsedTypeWith spelling _

/-- What is mended. -/
lemma mendWith (desugared : String) (built : QualType) :
    Construction decls fun follow => TypeTable.mendWith follow decls desugared built := by
  simp only [TypeTable.mendWith]
  refine .look (fun t => ?_) fun _ _ _ => rfl
  split
  · exact spellingTypeWith desugared
  · next template spelling hform =>
      split
      · next hkind =>
          refine .bind (spellingTypeWith desugared) fun _ => .intern _ _ fun _ => ?_
          exact DeclTable.named_aliasTemplate hkind spelling _
      · exact .pure built
  · exact .pure built

/-- **Written types** that the table does not know yet. -/
lemma freshTypeWith (written : WrittenType) :
    Construction decls fun follow => TypeTable.freshTypeWith follow decls written := by
  simp only [TypeTable.freshTypeWith]
  cases halias : namedAlias? decls written (TypeExpr.parse? (written.spelling?.getD "")) with
  | some named =>
      obtain ⟨aliasId, quals⟩ := named
      have hnamed (underlying : QualType) : Named decls (.typedef aliasId underlying) :=
        DeclTable.named_namedAlias? halias underlying
      cases written.desugared.filter (· ≠ "") with
      | some d => exact .bind (spellingTypeWith d) fun _ => .intern _ _ fun _ => hnamed _
      | none => exact .bind (.follow aliasId) fun _ => .intern _ _ fun _ => hnamed _
  | none =>
      cases written.desugared.filter (· ≠ "") with
      | none => exact parsedTypeWith _ _
      | some d =>
          dsimp only
          split
          · exact spellingTypeWith d
          · exact .bind (parsedTypeWith _ _) fun built => mendWith d built

/-- **Written types.** -/
lemma writtenTypeWith (written : WrittenType) :
    Construction decls fun follow => TypeTable.writtenTypeWith follow decls written := by
  simp only [TypeTable.writtenTypeWith]
  refine .look (fun t => ?_) fun _ _ _ => rfl
  split
  · exact .pure _
  · exact .bind (freshTypeWith written) fun built =>
      .bind (.keep written built) fun _ => .pure built

/-! ### Laws -/

section

variable {follow follow' : NodeId → TypeM QualType} {α : Type}
  {x : (NodeId → TypeM QualType) → TypeM α}

/-- A type is its form, put into the table, and its qualifiers. -/
lemma run_qualified (form : TypeForm) (quals : Qualifiers) (t : TypeTable) :
    (qualified form quals).run t = (⟨(TypeTable.intern form t).1, quals⟩,
      (TypeTable.intern form t).2) := rfl

/-- Forms that are put into the table are no typedefs being expanded. -/
lemma intern_expanding (form : TypeForm) (t : TypeTable) :
    (TypeTable.intern form t).2.expanding = t.expanding := by
  rw [TypeTable.intern]
  split <;> rfl

lemma intern_canonicals (form : TypeForm) (t : TypeTable)
    (kept : Std.HashMap QualType QualType) :
    TypeTable.intern form { t with canonicals := kept } =
      ((TypeTable.intern form t).1, { (TypeTable.intern form t).2 with canonicals := kept }) := by
  rw [TypeTable.intern, TypeTable.intern]
  cases t.ids[form]? <;> rfl

/-- The typedefs that are being expanded are the same behind a step as before it. -/
lemma expanding (h : Construction decls x) {E : List NodeId}
    (hfollow : ∀ decl t, t.expanding = E → ((follow decl).run t).2.expanding = E) {t : TypeTable}
    (ht : t.expanding = E) : ((x follow).run t).2.expanding = E := by
  induction h generalizing t with
  | pure a => exact ht
  | bind _ _ ihx ihf => exact ihf _ (ihx ht)
  | look _ _ ih => exact ih t ht
  | intern form quals _ => exact (intern_expanding form t).trans ht
  | keep written q => exact ht
  | follow decl => exact hfollow decl t ht

/-- Two ways of following typedefs that agree make a step do the same. -/
lemma congr (h : Construction decls x) {E : List NodeId}
    (hfollow : ∀ decl t, t.expanding = E → ((follow decl).run t).2.expanding = E)
    (hagree : ∀ decl t, t.expanding = E → (follow decl).run t = (follow' decl).run t)
    {t : TypeTable} (ht : t.expanding = E) : (x follow).run t = (x follow').run t := by
  induction h generalizing t with
  | pure a => rfl
  | @bind _ _ x f hx _ ihx ihf =>
      show (f follow ((x follow).run t).1).run ((x follow).run t).2 =
        (f follow' ((x follow').run t).1).run ((x follow').run t).2
      rw [← ihx ht]
      exact ihf _ (hx.expanding hfollow ht)
  | look _ _ ih => exact ih t ht
  | intern form quals _ => rfl
  | keep written q => rfl
  | follow decl => exact hagree decl t ht

/-- A form that names a declaration names one of its class. -/
lemma named (h : Construction decls x) (hdecls : decls.Consistent)
    (hfollow : ∀ decl t, AllNamed decls t → AllNamed decls ((follow decl).run t).2) {t : TypeTable}
    (ht : AllNamed decls t) : AllNamed decls ((x follow).run t).2 := by
  induction h generalizing t with
  | pure a => exact ht
  | bind _ _ ihx ihf => exact ihf _ (ihx ht)
  | look _ _ ih => exact ih t ht
  | intern form quals hform =>
      show AllNamed decls (TypeTable.intern form t).2
      rw [TypeTable.intern]
      split
      · exact ht
      · intro form' hmem
        rcases Array.mem_push.mp hmem with hold | rfl
        · exact ht form' hold
        · exact hform hdecls
  | keep written q => exact ht
  | follow decl => exact hfollow decl t ht

/-- What has been kept of canonical types makes no difference. -/
lemma ignoresCanonicals (h : Construction decls x)
    (hfollow : ∀ decl, IgnoresCanonicals (follow decl)) : IgnoresCanonicals (x follow) := by
  induction h with
  | pure a => exact fun _ _ => rfl
  | @bind _ _ x f _ _ ihx ihf =>
      intro t kept
      show (f follow ((x follow).run { t with canonicals := kept }).1).run
        ((x follow).run { t with canonicals := kept }).2 = _
      -- the first step gives the same, so that the second one meets the same table
      rw [ihx t kept]
      exact ihf _ _ kept
  | @look _ f _ hf ih =>
      intro t kept
      show (f follow { t with canonicals := kept }).run { t with canonicals := kept } = _
      rw [hf]
      exact ih t t kept
  | intern form quals _ =>
      intro t kept
      rw [run_qualified, run_qualified, intern_canonicals]
  | keep written q => exact fun _ _ => rfl
  | follow decl => exact hfollow decl

end

end Construction

/-! ### Requests -/

/-- What a table may be asked to build. -/
inductive Request where
  | written (type : WrittenType)
  | spelling (text : String)
  | decl (id : NodeId) (depth : Nat)

namespace Request

/-- The type asked for. -/
def build (decls : DeclTable) : Request → TypeM QualType
  | written type => writtenType decls type
  | spelling text => spellingType decls text
  | decl id depth => declType decls id depth

/-- The type asked for, where typedefs are followed as `follow` says. -/
def buildWith (follow : NodeId → TypeM QualType) (decls : DeclTable) : Request → TypeM QualType
  | written type => writtenTypeWith follow decls type
  | spelling text => spellingTypeWith follow decls text
  | decl id depth => declTypeWith follow decls id depth

/-- A request is built with the expansion of typedefs. -/
lemma build_eq (decls : DeclTable) (request : Request) :
    request.build decls = request.buildWith (expand decls) decls := by
  cases request <;> rfl

/-- Every request is a construction. -/
lemma construction (decls : DeclTable) (request : Request) :
    Construction decls fun follow => request.buildWith follow decls := by
  cases request with
  | written type => exact .writtenTypeWith type
  | spelling text => exact .spellingTypeWith text
  | decl id depth => exact .declTypeWith id depth

end Request

end TypeTable

end UnitIndex
