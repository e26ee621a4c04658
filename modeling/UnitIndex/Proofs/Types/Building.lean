import Mathlib.Tactic
import UnitIndex.Proofs.Types.Meaning

/-!
Building types.

Whatever is built, a sound table stays sound, and a written type comes out as what it means
(`keeps_writtenType`). If its reading does not end, nothing is said about the type that comes out,
but neither has anything that is not true been kept for others.

The functions of the building are gone through one by one; each makes of a table what its
counterpart says in trees, as far as that says anything. `Faithful` is what is assumed of the
typedefs that are followed in them; it is needed only for those that the reading depends on. In
`follows` the circle is closed. A typedef that is met while it is being expanded is cut off, and
that must not hit one whose reading ends: those being expanded have readings that take longer than
that of the typedef at hand (`Above`), so that it is none of them.
-/

namespace UnitIndex.TypeTable

open TypeTree (leaf)

/-- The step makes a type that means the tree, if there is one. -/
abbrev Makes (decls : DeclTable) (t : TypeTable) (x : TypeM QualType) (o : Option TypeTree) :
    Prop :=
  Keeps (Means decls) t (fun t' q => Stands t' q (o = some ·)) x

/-- While these typedefs are being expanded, typedefs are followed to the expected trees. When a
reading is `needed`, it takes only typedefs for which there is one, and nothing is said about the
others. -/
def Faithful (decls : DeclTable) (needed : Prop) (expanding : List NodeId)
    (expand : NodeId → TypeM QualType) (expected : NodeId → Option TypeTree) : Prop :=
  ∀ t decl, t.expanding = expanding → (needed → (expected decl).isSome) →
    Makes decls t (expand decl) (expected decl)

section

variable {decls : DeclTable} {t : TypeTable} {q : QualType} {o : Option TypeTree}

/-- A form without parts is written out as it stands. -/
lemma makes_leaf {form : TypeForm} (h : form.parts = []) :
    Makes decls t (plain form) (some (leaf form)) := by
  refine (keeps_qualified {} (by simp [h])).imp fun t' q hq => ?_
  rw [h] at hq
  exact hq.stands

/-- A form around a type of the table. -/
lemma makes_around {form : TypeForm} {quals : Qualifiers} (hform : form.parts = [q])
    (h : Stands t q (o = some ·)) :
    Makes decls t (qualified form quals)
      (o.bind fun tree => some (.node form.label quals [tree])) := by
  refine (keeps_qualified quals (by simpa [hform] using h.1)).imp fun t' r hr => ⟨hr.1, ?_⟩
  intro tree htree
  obtain ⟨inner, hinner, hnode⟩ := Option.bind_eq_some_iff.mp htree
  rw [hr.2, ← Option.some.inj hnode, hform, List.map_singleton, h.2 inner hinner]

/-- Less may be expected of a step. -/
lemma Makes.weaken {x : TypeM QualType} {o' : Option TypeTree} (h : Makes decls t x o)
    (hle : ∀ tree, o' = some tree → o = some tree) : Makes decls t x o' :=
  h.imp fun _ _ hq => hq.weaken hle

/-- What is made does not depend on whether something else is known. -/
lemma Makes.regardless {x : TypeM QualType} (h : Makes decls t x o) (o' : Option TypeTree) :
    Makes decls t x (o'.bind fun _ => o) := by
  refine h.weaken fun tree htree => ?_
  obtain ⟨_, -, ho⟩ := Option.bind_eq_some_iff.mp htree
  exact ho

/-- More qualifiers on a type are more qualifiers on its tree. -/
lemma Stands.withQuals (h : Stands t q (o = some ·)) (quals : Qualifiers) :
    Stands t ⟨q.type, q.quals.union quals⟩
      ((o.map fun tree => tree.withQuals (tree.quals.union quals)) = some ·) := by
  refine ⟨h.1, ?_⟩
  intro tree htree
  obtain ⟨inner, hinner, rfl⟩ := Option.map_eq_some_iff.mp htree
  rw [← h.2 inner hinner, tree_withQuals, quals_tree]

lemma isSome_of_regardless {α β : Type} {needed : Prop} {o : Option α} {o' : Option β}
    (h : needed → (o.bind fun _ => o').isSome) : needed → o'.isSome := by
  intro hn
  obtain ⟨b, hb⟩ := Option.isSome_iff_exists.mp (h hn)
  obtain ⟨_, -, ho⟩ := Option.bind_eq_some_iff.mp hb
  rw [ho]
  rfl

lemma isSome_of_bind_bind {α β γ : Type} {needed : Prop} {o : Option α} {o' : Option β}
    {f : α → β → Option γ} (h : needed → (o.bind fun a => o'.bind (f a)).isSome) :
    needed → o'.isSome := by
  intro hn
  obtain ⟨c, hc⟩ := Option.isSome_iff_exists.mp (h hn)
  obtain ⟨a, -, hc⟩ := Option.bind_eq_some_iff.mp hc
  obtain ⟨b, hb, -⟩ := Option.bind_eq_some_iff.mp hc
  rw [hb]
  rfl

/-- A reading that ends goes through an end of each part. -/
lemma isSome_of_bind {α β : Type} {needed : Prop} {o : Option α} {f : α → Option β}
    (h : needed → (o.bind f).isSome) : needed → o.isSome := by
  intro hn
  obtain ⟨b, hb⟩ := Option.isSome_iff_exists.mp (h hn)
  obtain ⟨a, ha, -⟩ := Option.bind_eq_some_iff.mp hb
  rw [ha]
  rfl

end

section

variable {decls : DeclTable} {needed : Prop} {E : List NodeId} {expand : NodeId → TypeM QualType}
  {expected : NodeId → Option TypeTree} {t : TypeTable}

/-- **Declarations.** A typedef is followed up to a number of levels. -/
lemma makes_declTypeWith (he : Faithful decls needed E expand expected) (ht : t.expanding = E)
    (decl : NodeId) (depth : Nat)
    (hn : needed → (TypeTree.declWith expected decls decl depth).isSome) :
    Makes decls t (declTypeWith expand decls decl depth)
      (TypeTree.declWith expected decls decl depth) := by
  rw [TypeTree.declWith] at hn ⊢
  rw [declTypeWith]
  cases hinfo : decls.get? decl with
  | none => exact makes_leaf rfl
  | some info =>
      rw [hinfo] at hn
      dsimp only at hn ⊢
      cases hcls : info.cls with
      | record => exact makes_leaf rfl
      | enum => exact makes_leaf rfl
      | typedef =>
          rw [hcls] at hn
          dsimp only at hn ⊢
          -- beyond the levels a typedef is kept by its name
          by_cases hdepth : depth < maxSugar
          · rw [if_pos hdepth] at hn ⊢
            rw [if_pos hdepth]
            exact Keeps.bind (he t decl ht (isSome_of_bind hn))
              fun t' q _ _ hq => makes_around rfl hq
          · rw [if_neg hdepth, if_neg hdepth]
            exact makes_leaf rfl
      | _ => exact makes_leaf rfl

/-- Unnamed types have no parts. -/
lemma parts_anonymousForm? {text : String} {form : TypeForm}
    (h : anonymousForm? decls text = some form) : form.parts = [] := by
  obtain ⟨position, -, h⟩ := Option.bind_eq_some_iff.mp h
  obtain ⟨name, -, h⟩ := Option.bind_eq_some_iff.mp h
  obtain ⟨info, -, h⟩ := Option.bind_eq_some_iff.mp h
  split at h
  · obtain rfl := Option.some.inj h
    rfl
  · obtain rfl := Option.some.inj h
    rfl

/-- **Bases**, of which only names without arguments are looked up. -/
lemma makes_baseTypeWith (he : Faithful decls needed E expand expected) (ht : t.expanding = E)
    (depth : Nat) (base : TypeBase)
    (hn : needed → (TypeTree.baseWith expected decls depth base).isSome) :
    Makes decls t (baseTypeWith expand decls depth base)
      (TypeTree.baseWith expected decls depth base) := by
  cases base with
  | builtin words => exact makes_leaf rfl
  | templateParm text => exact makes_leaf rfl
  | verbatim text => exact makes_leaf rfl
  | anonymous tag text =>
      refine makes_leaf ?_
      cases h : anonymousForm? decls text with
      | none => rfl
      | some form => exact parts_anonymousForm? h
  | named tag path =>
      rw [TypeTree.baseWith] at hn ⊢
      rw [baseTypeWith]
      -- a specialization is kept by its spelling
      cases hargs : path.getLast?.bind (·.args) with
      | some args => exact makes_leaf rfl
      | none =>
          rw [hargs] at hn
          dsimp only at hn ⊢
          cases hdecl : decls.lookupType? ("::".intercalate (path.map (·.name))) tag with
          | none => exact makes_leaf rfl
          | some decl =>
              rw [hdecl] at hn
              cases tag with
              | some tag =>
                  have hmakes := makes_declTypeWith he ht decl depth (isSome_of_bind hn)
                  exact Keeps.bind hmakes fun t' q _ _ hq => makes_around rfl hq
              | none =>
                  show Makes decls t (declTypeWith expand decls decl depth >>= pure) _
                  rw [bind_pure]
                  exact makes_declTypeWith he ht decl depth hn

/-- Types of the table that are the parts of a type. -/
def StandAll (t : TypeTable) (qs : List QualType) (o : Option (List TypeTree)) : Prop :=
  (∀ q ∈ qs, q.type < t.size) ∧ ∀ trees, o = some trees → qs.map t.tree = trees

/-- No types stand for no trees. -/
lemma standAll_nil (t : TypeTable) : StandAll t [] (some []) :=
  ⟨by simp, fun _ h => Option.some.inj h⟩

/-- One more type stands for one more tree. -/
lemma Stands.cons {q : QualType} {qs : List QualType} {o : Option TypeTree}
    {os : Option (List TypeTree)} (hq : Stands t q (o = some ·)) (hqs : StandAll t qs os) :
    StandAll t (q :: qs) (o.bind fun tree => os.bind fun trees => some (tree :: trees)) := by
  refine ⟨List.forall_mem_cons.mpr ⟨hq.1, hqs.1⟩, fun all hall => ?_⟩
  obtain ⟨tree, htree, hall⟩ := Option.bind_eq_some_iff.mp hall
  obtain ⟨trees, htrees, hall⟩ := Option.bind_eq_some_iff.mp hall
  rw [List.map_cons, hq.2 tree htree, hqs.2 trees htrees]
  exact Option.some.inj hall

/-- A function of types is a function of their trees. -/
lemma makes_function {q : QualType} {qs : List QualType} {o : Option TypeTree}
    {os : Option (List TypeTree)} (hq : Stands t q (o = some ·)) (hqs : StandAll t qs os)
    (variadic : Bool) :
    Makes decls t (plain (.function q qs variadic)) (o.bind fun tree => os.bind fun trees =>
      some (.node (.function default [] variadic) {} (tree :: trees))) := by
  have hall := hq.cons hqs
  refine Keeps.imp (keeps_qualified {} ?_) fun t' r hr => ⟨hr.1, fun tree htree => ?_⟩
  · exact hall.1
  obtain ⟨result, hresult, htree⟩ := Option.bind_eq_some_iff.mp htree
  obtain ⟨params, hparams, htree⟩ := Option.bind_eq_some_iff.mp htree
  rw [hr.2, ← Option.some.inj htree]
  congr 1
  refine hall.2 _ ?_
  rw [hresult, hparams]
  rfl

mutual

/-- **Type expressions**: the base, and the operations on it. -/
lemma makes_exprTypeWith (he : Faithful decls needed E expand expected) (depth : Nat) :
    ∀ (expr : TypeExpr) {t : TypeTable}, t.expanding = E →
      (needed → (TypeTree.exprWith expected decls depth expr).isSome) →
      Makes decls t (exprTypeWith expand decls depth expr)
        (TypeTree.exprWith expected decls depth expr)
  | ⟨base, quals, ops⟩, t, ht, hn => by
      rw [TypeTree.exprWith] at hn ⊢
      rw [exprTypeWith]
      refine Keeps.bind (makes_baseTypeWith he ht depth base (isSome_of_bind hn))
        fun t' q _ hexp hq => ?_
      have hbind : ((TypeTree.baseWith expected decls depth base).bind fun base =>
            TypeTree.applyOps expected decls depth (base.withQuals (base.quals.union quals)) ops) =
          ((TypeTree.baseWith expected decls depth base).map fun base =>
            base.withQuals (base.quals.union quals)).bind fun tree =>
              TypeTree.applyOps expected decls depth tree ops := by
        rw [Option.bind_map]
        rfl
      rw [hbind] at hn ⊢
      exact makes_applyOps he depth ops (hexp.trans ht) (hq.withQuals quals) hn

/-- The operations one after the other. -/
lemma makes_applyOps (he : Faithful decls needed E expand expected) (depth : Nat) :
    ∀ (ops : List TypeOp) {t : TypeTable} {q : QualType} {o : Option TypeTree}, t.expanding = E →
      Stands t q (o = some ·) →
      (needed → (o.bind fun tree => TypeTree.applyOps expected decls depth tree ops).isSome) →
      Makes decls t (applyOps expand decls depth q ops)
        (o.bind fun tree => TypeTree.applyOps expected decls depth tree ops)
  | [], t, q, o, _, hq, _ => by
      have hbind : (o.bind fun tree => TypeTree.applyOps expected decls depth tree []) = o :=
        Option.bind_fun_some o
      rw [hbind]
      exact .pure hq
  | op :: ops, t, q, o, ht, hq, hn => by
      have hbind : (o.bind fun tree => TypeTree.applyOps expected decls depth tree (op :: ops)) =
          (o.bind fun tree => TypeTree.applyOp expected decls depth tree op).bind fun tree =>
            TypeTree.applyOps expected decls depth tree ops := by
        rw [Option.bind_assoc]
        rfl
      rw [hbind] at hn ⊢
      rw [applyOps]
      refine Keeps.bind (makes_applyOp he depth op ht hq (isSome_of_bind hn))
        fun t' q' _ hexp hq' => ?_
      exact makes_applyOps he depth ops (hexp.trans ht) hq' hn

/-- One operation, which puts a form around the type. -/
lemma makes_applyOp (he : Faithful decls needed E expand expected) (depth : Nat) :
    ∀ (op : TypeOp) {t : TypeTable} {q : QualType} {o : Option TypeTree}, t.expanding = E →
      Stands t q (o = some ·) →
      (needed → (o.bind fun tree => TypeTree.applyOp expected decls depth tree op).isSome) →
      Makes decls t (applyOp expand decls depth q op)
        (o.bind fun tree => TypeTree.applyOp expected decls depth tree op)
  | .pointer quals, t, q, o, _, hq, _ => makes_around rfl hq
  | .lvalueRef, t, q, o, _, hq, _ => makes_around rfl hq
  | .rvalueRef, t, q, o, _, hq, _ => makes_around rfl hq
  | .array size, t, q, o, _, hq, _ => makes_around rfl hq
  | .function params variadic, t, q, o, ht, hq, hn => by
      rw [applyOp]
      refine Keeps.bind (keeps_paramTypes he (depth + 1) params ht (isSome_of_bind_bind hn))
        fun t' qs hext _ hqs => ?_
      exact makes_function (hq.mono hext) hqs variadic

/-- The types of parameters. -/
lemma keeps_paramTypes (he : Faithful decls needed E expand expected) (depth : Nat) :
    ∀ (ps : List TypeExpr) {t : TypeTable}, t.expanding = E →
      (needed → (TypeTree.paramsWith expected decls depth ps).isSome) →
      Keeps (Means decls) t
        (fun t' qs => StandAll t' qs (TypeTree.paramsWith expected decls depth ps))
        (paramTypes expand decls depth ps)
  | [], t, _, _ => .pure (standAll_nil t)
  | p :: ps, t, ht, hn => by
      rw [TypeTree.paramsWith] at hn ⊢
      rw [paramTypes]
      refine Keeps.bind (makes_exprTypeWith he depth p ht (isSome_of_bind hn))
        fun t' q _ hexp hq => ?_
      refine Keeps.bind (keeps_paramTypes he depth ps (hexp.trans ht) (isSome_of_bind_bind hn))
        fun t'' qs hext _ hqs => ?_
      exact .pure ((hq.mono hext).cons hqs)

end

/-- A spelling that is read or kept as it stands. -/
lemma makes_parsedTypeWith (he : Faithful decls needed E expand expected) (ht : t.expanding = E)
    (spelling : String) (expr : Option TypeExpr)
    (hn : needed → (TypeTree.parsedWith expected decls spelling expr).isSome) :
    Makes decls t (parsedTypeWith expand decls spelling expr)
      (TypeTree.parsedWith expected decls spelling expr) := by
  cases expr with
  | some expr => exact makes_exprTypeWith he 0 expr ht hn
  | none => exact makes_leaf rfl

/-- A type that is mended by what it is said to stand for. -/
lemma makes_mendWith (he : Faithful decls needed E expand expected) (ht : t.expanding = E)
    (desugared : String) {q : QualType} {o : Option TypeTree} (hq : Stands t q (o = some ·))
    (hn : needed → (o.bind (TypeTree.mendWith expected decls desugared)).isSome) :
    Makes decls t (mendWith expand decls desugared q)
      (o.bind (TypeTree.mendWith expected decls desugared)) := by
  refine .of_sound fun hsound => ?_
  -- the trees take the branch that is taken here, if they take one
  have hbranch (branch : TypeTree → Option TypeTree)
      (h : ∀ tree, tree.label = (t.form q.type).label → tree.quals = q.quals →
        TypeTree.mendWith expected decls desugared tree = branch tree) :
      o.bind (TypeTree.mendWith expected decls desugared) = o.bind branch := by
    cases o with
    | none => rfl
    | some tree =>
        refine h tree ?_ ?_
        · rw [← hq.2 tree rfl, label_tree hsound.toLayered]
        · rw [← hq.2 tree rfl, quals_tree]
  have hkept (h : ∀ tree, tree.label = (t.form q.type).label →
      TypeTree.mendWith expected decls desugared tree = some tree) :
      Makes decls t (pure q) (o.bind (TypeTree.mendWith expected decls desugared)) := by
    rw [hbranch some fun tree hlabel _ => h tree hlabel, Option.bind_fun_some]
    exact .pure hq
  refine .get ?_
  cases hform : t.form q.type with
  -- only what could not be read, and an alias template without its type, are mended
  | unresolved spelling =>
      rw [hform] at hbranch
      have hsame := hbranch (fun _ => TypeTree.spellingWith expected decls desugared) (by
        intro tree hlabel _
        rw [TypeTree.mendWith, hlabel]
        rfl)
      rw [hsame] at hn ⊢
      exact (makes_parsedTypeWith he ht _ _ (isSome_of_regardless hn)).regardless o
  | specialization template spelling aliased =>
      rw [hform] at hbranch hkept
      cases template with
      | none =>
          refine hkept fun tree hlabel => ?_
          rw [TypeTree.mendWith, hlabel]
          rfl
      | some template =>
          cases aliased with
          | some aliased =>
              refine hkept fun tree hlabel => ?_
              rw [TypeTree.mendWith, hlabel]
              rfl
          | none =>
              dsimp only
              by_cases hkind : (decls.get? template).any (·.kind == .typeAliasTemplate)
              · rw [if_pos hkind]
                have hsame := hbranch (fun _ =>
                    (TypeTree.spellingWith expected decls desugared).bind fun aliased =>
                      some (.node (.specialization (some template) spelling (some default))
                        q.quals [aliased])) (by
                  intro tree hlabel hquals
                  rw [TypeTree.mendWith, hlabel, hquals]
                  exact if_pos hkind)
                rw [hsame] at hn ⊢
                have hspelling := makes_parsedTypeWith he ht desugared _
                  (isSome_of_bind (isSome_of_regardless hn))
                refine Makes.regardless (Keeps.bind hspelling fun t' r _ _ hr => ?_) o
                exact makes_around rfl hr
              · rw [if_neg hkind]
                refine hkept fun tree hlabel => ?_
                rw [TypeTree.mendWith, hlabel]
                exact if_neg hkind
  | _ =>
      rw [hform] at hkept
      refine hkept fun tree hlabel => ?_
      rw [TypeTree.mendWith, hlabel]
      rfl

/-- **Written types** that the table does not know yet. -/
lemma makes_freshTypeWith (he : Faithful decls needed E expand expected) (ht : t.expanding = E)
    (written : WrittenType)
    (hn : needed → (TypeTree.writtenWith expected decls written).isSome) :
    Makes decls t (freshTypeWith expand decls written)
      (TypeTree.writtenWith expected decls written) := by
  rw [TypeTree.writtenWith] at hn ⊢
  rw [freshTypeWith]
  dsimp only at hn ⊢
  -- a typedef that the whole spelling names, or any other type
  cases hnamed : namedAlias? decls written (TypeExpr.parse? (written.spelling?.getD "")) with
  | some named =>
      obtain ⟨aliasId, quals⟩ := named
      rw [hnamed] at hn
      dsimp only at hn ⊢
      cases hdesugared : written.desugared.filter (· ≠ "") with
      | some d =>
          rw [hdesugared] at hn
          exact Keeps.bind (makes_parsedTypeWith he ht _ _ (isSome_of_bind hn))
            fun t' q _ _ hq => makes_around rfl hq
      | none =>
          rw [hdesugared] at hn
          exact Keeps.bind (he t aliasId ht (isSome_of_bind hn))
            fun t' q _ _ hq => makes_around rfl hq
  | none =>
      rw [hnamed] at hn
      dsimp only at hn ⊢
      cases hdesugared : written.desugared.filter (· ≠ "") with
      | none =>
          rw [hdesugared] at hn
          exact makes_parsedTypeWith he ht _ _ hn
      | some d =>
          rw [hdesugared] at hn
          dsimp only at hn ⊢
          split at hn
          · next hambiguous =>
              rw [if_pos hambiguous, if_pos hambiguous]
              exact makes_parsedTypeWith he ht _ _ hn
          · next hambiguous =>
              rw [if_neg hambiguous, if_neg hambiguous]
              refine Keeps.bind (makes_parsedTypeWith he ht _ _ (isSome_of_bind hn))
                fun t' q _ hexp hq => ?_
              exact makes_mendWith he (hexp.trans ht) d hq hn

end

/-! ### Keeping what was built -/

/-- A written type that the table knows is not built again. -/
lemma run_writtenTypeWith (expand : NodeId → TypeM QualType) (decls : DeclTable)
    (written : WrittenType) (t : TypeTable) :
    (writtenTypeWith expand decls written).run t =
      match t.written[written]? with
      | some known => (known, t)
      | none =>
        let r := (freshTypeWith expand decls written).run t
        (r.1, { r.2 with written := r.2.written.insert written r.1 }) := by
  have hget : (get : TypeM TypeTable).run t = (t, t) := rfl
  rw [writtenTypeWith, run_bind, hget]
  cases t.written[written]? <;> rfl

section

variable {decls : DeclTable} {t : TypeTable}

/-- What a written type means may be kept for it. -/
lemma Sound.keepWritten (ht : Sound (Means decls) t) {written : WrittenType} {q : QualType}
    (hq : Stands t q (Means decls written)) :
    Sound (Means decls) { t with written := t.written.insert written q } := by
  have hext : Extends t { t with written := t.written.insert written q } := .of_forms rfl
  refine ⟨⟨ht.parts_lt, ht.ids_iff⟩, ?_, ht.canonicals.mono hext rfl⟩
  intro w q' hget
  rw [Std.HashMap.getElem?_insert] at hget
  split at hget
  · next heq =>
      obtain rfl := eq_of_beq heq
      obtain rfl := Option.some.inj hget
      exact hq.mono hext
  · exact (ht.written w q' hget).mono hext

/-- A written type comes out as what it means, whether it was built before or not, if typedefs are
followed far enough for its reading. -/
lemma keeps_writtenTypeWith {needed : Prop} {E : List NodeId} {expand : NodeId → TypeM QualType}
    {expected : NodeId → Option TypeTree} (he : Faithful decls needed E expand expected)
    (hE : t.expanding = E) {written : WrittenType}
    (hn : needed → (TypeTree.writtenWith expected decls written).isSome)
    (hfar : ∀ tree, Means decls written tree →
      TypeTree.writtenWith expected decls written = some tree) :
    Keeps (Means decls) t (fun t' q => Stands t' q (Means decls written))
      (writtenTypeWith expand decls written) := by
  intro ht
  rw [run_writtenTypeWith]
  cases hknown : t.written[written]? with
  | some known => exact ⟨ht, .refl t, rfl, ht.written written known hknown⟩
  | none =>
      obtain ⟨hsound, hgrown, hexpanding, hresult⟩ := makes_freshTypeWith he hE written hn ht
      dsimp only
      generalize (freshTypeWith expand decls written).run t = r at hsound hgrown hexpanding hresult
      have hstands : Stands r.2 r.1 (Means decls written) := hresult.weaken hfar
      have hext : Extends r.2 { r.2 with written := r.2.written.insert written r.1 } :=
        .of_forms rfl
      exact ⟨hsound.keepWritten hstands, hgrown.trans hext, hexpanding, hstands.mono hext⟩

/-- Soundness does not look at what is being expanded. -/
lemma Sound.setExpanding {means : WrittenType → TypeTree → Prop} (ht : Sound means t)
    (E : List NodeId) : Sound means { t with expanding := E } := by
  have hext : Extends t { t with expanding := E } := .of_forms rfl
  exact ⟨⟨ht.parts_lt, ht.ids_iff⟩, ht.written.mono hext rfl, ht.canonicals.mono hext rfl⟩

end

/-! ### Following typedefs -/

/-- There is room for the typedefs that are being expanded and for so many more. -/
structure Room (decls : DeclTable) (expanding : List NodeId) (entries : Nat) : Prop where
  nodup : expanding.Nodup
  known : ∀ e ∈ expanding, (decls.get? e).isSome
  left : entries + expanding.length = decls.size + 1

namespace Room

variable {decls : DeclTable} {E : List NodeId} {entries : Nat}

/-- There is always a declaration left that is not being expanded. -/
lemma entries_pos (h : Room decls E entries) : 0 < entries := by
  have hsub : E ⊆ decls.decls.keys := by
    intro e he
    have hknown := h.known e he
    rw [DeclTable.get?, Std.HashMap.isSome_getElem?_iff_mem] at hknown
    exact Std.HashMap.mem_keys.mpr hknown
  have hle : E.length ≤ decls.size := by
    rw [DeclTable.size, ← Std.HashMap.length_keys]
    exact (h.nodup.subperm hsub).length_le
  have hleft := h.left
  omega

/-- One more typedef being expanded leaves room for one less. -/
lemma enter (h : Room decls E (entries + 1)) {decl : NodeId}
    (hknown : (decls.get? decl).isSome) (hnew : decl ∉ E) : Room decls (decl :: E) entries where
  nodup := List.nodup_cons.mpr ⟨hnew, h.nodup⟩
  known := List.forall_mem_cons.mpr ⟨hknown, h.known⟩
  left := by
    have hleft := h.left
    rw [List.length_cons]
    omega

end Room

/-- The reading of the one typedef takes longer than that of the other. -/
def Above (decls : DeclTable) (e decl : NodeId) : Prop :=
  ∀ n, (TypeTree.expandWithin decls (n + 1) e).isSome →
    (TypeTree.expandWithin decls n decl).isSome

namespace Above

variable {decls : DeclTable}

/-- Readings that take longer than longer ones take longer. -/
lemma trans {e d c : NodeId} (h : Above decls e d) (h' : Above decls d c) : Above decls e c := by
  intro n he
  cases n with
  | zero => exact absurd (h 0 he) (by simp [TypeTree.expandWithin])
  | succ n =>
      obtain ⟨tree, htree⟩ := Option.isSome_iff_exists.mp (h' n (h (n + 1) he))
      have hmore := TypeTree.expandWithin_mono decls (Nat.le_succ n) c tree htree
      rw [hmore]
      rfl

/-- The reading of a typedef that takes longer than itself does not end. -/
lemma not_ends {e : NodeId} (h : Above decls e e) (n : Nat) :
    TypeTree.expandWithin decls n e = none := by
  induction n with
  | zero => rfl
  | succ n ih =>
      rw [← Option.not_isSome_iff_eq_none]
      intro hsome
      have hless := h n hsome
      rw [ih] at hless
      exact absurd hless (by simp)

end Above

/-- A typedef is cut off if it is being expanded, and else it is what it is written as. -/
lemma run_expandWithin_succ {decls : DeclTable} {entries : Nat} {decl : NodeId}
    {written : WrittenType} (hwritten : (decls.get? decl).bind (·.type) = some written)
    (t : TypeTable) :
    (expandWithin decls (entries + 1) decl).run t =
      if decl ∈ t.expanding then (unresolved (written.spelling?.getD "")).run t
      else
        let r := (writtenTypeWith (expandWithin decls entries) decls written).run
          { t with expanding := decl :: t.expanding }
        (r.1, { r.2 with expanding := r.2.expanding.erase decl }) := by
  have hget : (get : TypeM TypeTable).run t = (t, t) := rfl
  rw [expandWithin, hwritten, run_bind, hget]
  dsimp only
  split <;> rfl

/-- The trees that a typedef stands for. -/
def Expands (decls : DeclTable) (decl : NodeId) (tree : TypeTree) : Prop :=
  ∃ n, TypeTree.expandWithin decls n decl = some tree

/-- What a typedef expands to is what its type means. -/
lemma means_of_expands {decls : DeclTable} {decl : NodeId} {written : WrittenType}
    (hwritten : (decls.get? decl).bind (·.type) = some written) {tree : TypeTree}
    (h : Expands decls decl tree) : Means decls written tree := by
  obtain ⟨n, hn⟩ := h
  cases n with
  | zero => exact absurd hn (by simp [TypeTree.expandWithin])
  | succ n =>
      rw [TypeTree.expandWithin, hwritten] at hn
      exact ⟨n, hn⟩

section

variable {decls : DeclTable} {t : TypeTable} {entries : Nat} {decl : NodeId}

/-- Following the typedef keeps a sound table sound, and leads to what the typedef stands for. -/
def Follows (decls : DeclTable) (entries : Nat) (t : TypeTable) (decl : NodeId) : Prop :=
  Keeps (Means decls) t (fun t' q => Stands t' q (Expands decls decl))
    (expandWithin decls entries decl)

/-- The reading of the written type takes the reading of the typedef. -/
def Takes (decls : DeclTable) (written : WrittenType) (decl : NodeId) : Prop :=
  ∀ n, (TypeTree.writtenWith (TypeTree.expandWithin decls n) decls written).isSome →
    (TypeTree.expandWithin decls n decl).isSome

/-- A reading takes longer than the readings that it takes. -/
lemma Takes.above {written : WrittenType} {d : NodeId}
    (hwritten : (decls.get? decl).bind (·.type) = some written) (h : Takes decls written d) :
    Above decls decl d := by
  intro n hn
  rw [TypeTree.expandWithin, hwritten] at hn
  exact h n hn

/-- If the typedefs that the reading takes are followed to what they stand for, the written type
comes out as what it means. -/
lemma keeps_written_of_follows {written : WrittenType}
    (hfollows : ∀ t' d, t'.expanding = t.expanding → Takes decls written d →
      Follows decls entries t' d) :
    Keeps (Means decls) t (fun t' q => Stands t' q (Means decls written))
      (writtenTypeWith (expandWithin decls entries) decls written) := by
  by_cases hends :
      ∃ n, (TypeTree.writtenWith (TypeTree.expandWithin decls n) decls written).isSome
  · classical
    -- nothing that the shortest reading follows takes longer than any other reading does
    have hspec := Nat.find_spec hends
    have he : Faithful decls True t.expanding (expandWithin decls entries)
        (TypeTree.expandWithin decls (Nat.find hends)) := by
      intro t' d ht hd
      have htakes : Takes decls written d := by
        intro n hn
        obtain ⟨tree, htree⟩ := Option.isSome_iff_exists.mp (hd trivial)
        rw [TypeTree.expandWithin_mono decls (Nat.find_min' hends hn) d tree htree]
        rfl
      exact (hfollows t' d ht htakes).imp fun _ _ hq => hq.weaken fun tree htree => ⟨_, htree⟩
    refine keeps_writtenTypeWith he rfl (fun _ => hspec) fun tree htree => ?_
    obtain ⟨tree', htree'⟩ := Option.isSome_iff_exists.mp hspec
    rw [htree', Means.unique ⟨_, htree'⟩ htree]
  · have hnone (n : Nat)
        (h : (TypeTree.writtenWith (TypeTree.expandWithin decls n) decls written).isSome) :
        False := hends ⟨n, h⟩
    have he : Faithful decls False t.expanding (expandWithin decls entries) fun _ => none := by
      intro t' d ht _
      have htakes : Takes decls written d := fun n hn => (hnone n hn).elim
      refine (hfollows t' d ht htakes).imp fun _ _ hq => hq.weaken fun tree htree => ?_
      exact absurd htree (by simp)
    refine keeps_writtenTypeWith he rfl False.elim ?_
    rintro tree ⟨n, hn⟩
    exact (hnone n (by rw [hn]; rfl)).elim

/-- A typedef without a type is kept as it stands. -/
lemma follows_of_unwritten (h : (decls.get? decl).bind (·.type) = none) :
    Follows decls (entries + 1) t decl := by
  rw [Follows, expandWithin, h]
  refine (makes_leaf rfl).imp fun t' q hq => hq.weaken ?_
  rintro tree ⟨n, hn⟩
  cases n with
  | zero => exact absurd hn (by simp [TypeTree.expandWithin])
  | succ n =>
      rw [TypeTree.expandWithin, h] at hn
      exact hn

/-- A typedef that is cut off is one whose reading does not end. -/
lemma follows_of_expanding {written : WrittenType}
    (hwritten : (decls.get? decl).bind (·.type) = some written) (hmem : decl ∈ t.expanding)
    (habove : Above decls decl decl) : Follows decls (entries + 1) t decl := by
  intro ht
  rw [run_expandWithin_succ hwritten, if_pos hmem]
  refine (makes_leaf rfl).imp (fun t' q hq => hq.weaken ?_) ht
  rintro tree ⟨n, hn⟩
  rw [habove.not_ends n] at hn
  exact absurd hn (by simp)

/-- A typedef that is entered comes out as what is written there. -/
lemma follows_of_enter {written : WrittenType}
    (hwritten : (decls.get? decl).bind (·.type) = some written) (hnew : decl ∉ t.expanding)
    (h : Keeps (Means decls) { t with expanding := decl :: t.expanding }
      (fun t' q => Stands t' q (Means decls written))
      (writtenTypeWith (expandWithin decls entries) decls written)) :
    Follows decls (entries + 1) t decl := by
  intro ht
  rw [run_expandWithin_succ hwritten, if_neg hnew]
  obtain ⟨hsound, hgrown, hexpanding, hresult⟩ := h (ht.setExpanding _)
  dsimp only at hexpanding ⊢
  generalize (writtenTypeWith (expandWithin decls entries) decls written).run
    { t with expanding := decl :: t.expanding } = r at hsound hgrown hexpanding hresult
  have hext : Extends r.2 { r.2 with expanding := r.2.expanding.erase decl } := .of_forms rfl
  refine ⟨hsound.setExpanding _, ⟨?_, ?_⟩, ?_, ?_⟩
  · exact hgrown.size_le
  · exact hgrown.form_eq
  · rw [hexpanding, List.erase_cons_head]
  · exact (hresult.mono hext).weaken fun tree => means_of_expands hwritten

/-- Typedefs are followed to what they stand for. Those that are being expanded have readings that
take longer, so that a typedef whose reading ends is never cut off. -/
lemma follows (hroom : Room decls t.expanding entries)
    (habove : ∀ e ∈ t.expanding, Above decls e decl) : Follows decls entries t decl := by
  induction entries generalizing t decl with
  | zero => exact absurd hroom.entries_pos (Nat.lt_irrefl 0)
  | succ entries ih =>
      cases hwritten : (decls.get? decl).bind (·.type) with
      | none => exact follows_of_unwritten hwritten
      | some written =>
          by_cases hmem : decl ∈ t.expanding
          · exact follows_of_expanding hwritten hmem (habove decl hmem)
          · refine follows_of_enter hwritten hmem
              (keeps_written_of_follows fun t' d ht' htakes => ?_)
            -- what is read below takes less than the typedef, and so less than all that are being
            -- expanded
            have hbelow := htakes.above hwritten
            have hknown : (decls.get? decl).isSome := by
              obtain ⟨info, hinfo, -⟩ := Option.bind_eq_some_iff.mp hwritten
              rw [hinfo]
              rfl
            refine ih ?_ ?_
            · rw [ht']
              exact hroom.enter hknown hmem
            · rw [ht']
              exact List.forall_mem_cons.mpr ⟨hbelow, fun e he => (habove e he).trans hbelow⟩

/-- **A written type comes out as what it means**, from any sound table, and the table stays
sound. -/
theorem keeps_writtenType (ht : t.expanding = []) (written : WrittenType) :
    Keeps (Means decls) t (fun t' q => Stands t' q (Means decls written))
      (writtenType decls written) := by
  refine keeps_written_of_follows fun t' d ht' _ => ?_
  rw [ht] at ht'
  refine follows ?_ ?_
  · rw [ht']
    exact ⟨List.nodup_nil, by simp, rfl⟩
  · rw [ht']
    simp

end

end UnitIndex.TypeTable
