import Mathlib.Tactic
import UnitIndex.Proofs.Types.Canonical
import UnitIndex.Types.Build

/-!
What a written type means.

A written type can be read without any table: names are looked up and typedefs are followed, and
what comes out is a tree. Nothing is kept and nothing is marked on the way; a typedef that leads
back to itself is followed for ever, so that the reading of a type on which it depends never ends.
`Means` says that a reading ends with a tree. It never ends with two of them (`Means.unique`),
since with more steps a reading that has ended ends the same way (`expandWithin_mono`).
-/

namespace UnitIndex

namespace TypeTree

open TypeTable (maxSugar anonymousForm? namedAlias? namesAmbiguously)

/-- The tree of a form without parts. -/
def leaf (form : TypeForm) : TypeTree := node form.label {} []

/-- The type that a declaration introduces, inside `depth` parameter lists. -/
def declWith (expand : NodeId → Option TypeTree) (decls : DeclTable) (decl : NodeId)
    (depth : Nat) : Option TypeTree :=
  match decls.get? decl with
  | none => some (leaf (.unresolved ""))
  | some info =>
    match info.cls with
    | .record => some (leaf (.record decl info.tag info.isCxx))
    | .enum => some (leaf (.enum decl))
    | .typedef =>
      if depth < maxSugar then
        (expand decl).bind fun underlying => some (node (.typedef decl default) {} [underlying])
      else some (leaf (.unresolved info.qualifiedName))
    | _ => some (leaf (.unresolved info.qualifiedName))

/-- The type that the base of a type expression names. -/
def baseWith (expand : NodeId → Option TypeTree) (decls : DeclTable) (depth : Nat) :
    TypeBase → Option TypeTree
  | .builtin words => some (leaf (.builtin words))
  | .templateParm text => some (leaf (.templateParm text))
  | .verbatim text => some (leaf (.unresolved text))
  | .anonymous _ text => some (leaf ((anonymousForm? decls text).getD (.unresolved text)))
  | .named tag path =>
    let name := "::".intercalate (path.map (·.name))
    match path.getLast?.bind (·.args) with
    | some args =>
      some (leaf (.specialization (decls.lookupTemplate? name)
        (name ++ "<" ++ ", ".intercalate args ++ ">") none))
    | none =>
      match decls.lookupType? name tag with
      | none => some (leaf (.unresolved name))
      | some decl =>
        match tag with
        | some tag =>
          (declWith expand decls decl depth).bind fun named =>
            some (node (.elaborated tag default) {} [named])
        | none => declWith expand decls decl depth

mutual

/-- The type of a type expression, inside `depth` parameter lists. -/
def exprWith (expand : NodeId → Option TypeTree) (decls : DeclTable) (depth : Nat) :
    TypeExpr → Option TypeTree
  | ⟨base, quals, ops⟩ =>
    (baseWith expand decls depth base).bind fun base =>
      applyOps expand decls depth (base.withQuals (base.quals.union quals)) ops

/-- The type that the operations of a declarator make of `current`. -/
def applyOps (expand : NodeId → Option TypeTree) (decls : DeclTable) (depth : Nat)
    (current : TypeTree) : List TypeOp → Option TypeTree
  | [] => some current
  | op :: ops =>
    (applyOp expand decls depth current op).bind fun next => applyOps expand decls depth next ops

/-- The type that one operation makes of `current`. -/
def applyOp (expand : NodeId → Option TypeTree) (decls : DeclTable) (depth : Nat)
    (current : TypeTree) : TypeOp → Option TypeTree
  | .pointer quals => some (node (.pointer default) quals [current])
  | .lvalueRef => some (node (.lvalueRef default) {} [current])
  | .rvalueRef => some (node (.rvalueRef default) {} [current])
  | .array size => some (node (.array default size) {} [current])
  | .function params variadic =>
    (paramsWith expand decls (depth + 1) params).bind fun params =>
      some (node (.function default [] variadic) {} (current :: params))

/-- The types of parameters. -/
def paramsWith (expand : NodeId → Option TypeTree) (decls : DeclTable) (depth : Nat) :
    List TypeExpr → Option (List TypeTree)
  | [] => some []
  | p :: ps =>
    (exprWith expand decls depth p).bind fun param =>
      (paramsWith expand decls depth ps).bind fun params => some (param :: params)

end

/-- The type of a parsed spelling, if it could be parsed. -/
def parsedWith (expand : NodeId → Option TypeTree) (decls : DeclTable) (spelling : String)
    (expr : Option TypeExpr) : Option TypeTree :=
  match expr with
  | some expr => exprWith expand decls 0 expr
  | none => some (leaf (.unresolved spelling))

/-- The type of a bare spelling. -/
def spellingWith (expand : NodeId → Option TypeTree) (decls : DeclTable) (spelling : String) :
    Option TypeTree :=
  parsedWith expand decls spelling (TypeExpr.parse? spelling)

/-- The type built so far, mended by the desugared spelling. -/
def mendWith (expand : NodeId → Option TypeTree) (decls : DeclTable) (desugared : String)
    (built : TypeTree) : Option TypeTree :=
  match built.label with
  | .unresolved _ => spellingWith expand decls desugared
  | .specialization (some template) spelling none =>
    if (decls.get? template).any (·.kind == .typeAliasTemplate) then
      (spellingWith expand decls desugared).bind fun aliased =>
        some (node (.specialization (some template) spelling (some default)) built.quals [aliased])
    else some built
  | _ => some built

/-- The type that is written. -/
def writtenWith (expand : NodeId → Option TypeTree) (decls : DeclTable) (written : WrittenType) :
    Option TypeTree :=
  let spelling := written.spelling?.getD ""
  let desugared := written.desugared.filter (· ≠ "")
  let expr := TypeExpr.parse? spelling
  match namedAlias? decls written expr with
  | some (aliasId, quals) =>
    (match desugared with
      | some d => spellingWith expand decls d
      | none => expand aliasId).bind fun underlying =>
      some (node (.typedef aliasId default) quals [underlying])
  | none =>
    match desugared with
    | none => parsedWith expand decls spelling expr
    | some d =>
      if expr.any fun e => namesAmbiguously decls e.base then spellingWith expand decls d
      else (parsedWith expand decls spelling expr).bind (mendWith expand decls d)

/-- The type behind a typedef, if it takes no more than so many typedefs to follow. -/
def expandWithin (decls : DeclTable) : Nat → NodeId → Option TypeTree
  | 0, _ => none
  | entries + 1, decl =>
    match (decls.get? decl).bind (·.type) with
    | none => some (leaf (.unresolved ""))
    | some written => writtenWith (expandWithin decls entries) decls written

/-! ### More steps -/

/-- Wherever the one has come to an end, so has the other, with the same outcome. -/
def Below {α : Type} (o o' : Option α) : Prop := ∀ a, o = some a → o' = some a

lemma Below.refl {α : Type} (o : Option α) : Below o o := fun _ h => h

/-- Two steps agree where the first of them has ended, if each does. -/
lemma Below.bind {α β : Type} {o o' : Option α} {f f' : α → Option β} (h : Below o o')
    (hf : ∀ a, Below (f a) (f' a)) : Below (o.bind f) (o'.bind f') := by
  intro b hb
  obtain ⟨a, ha, hfa⟩ := Option.bind_eq_some_iff.mp hb
  rw [h a ha]
  exact hf a b hfa

section

variable {expand expand' : NodeId → Option TypeTree}

/-- **Declarations** have the same reading when more typedefs are followed to their end. -/
lemma declWith_mono (he : ∀ decl, Below (expand decl) (expand' decl)) (decls : DeclTable)
    (decl : NodeId) (depth : Nat) :
    Below (declWith expand decls decl depth) (declWith expand' decls decl depth) := by
  rw [declWith, declWith]
  cases decls.get? decl with
  | none => exact .refl _
  | some info =>
      dsimp only
      split
      · exact .refl _
      · exact .refl _
      · split
        · exact (he decl).bind fun _ => .refl _
        · exact .refl _
      · exact .refl _

lemma baseWith_mono (he : ∀ decl, Below (expand decl) (expand' decl)) (decls : DeclTable)
    (depth : Nat) (base : TypeBase) :
    Below (baseWith expand decls depth base) (baseWith expand' decls depth base) := by
  cases base with
  | named tag path =>
      rw [baseWith, baseWith]
      cases path.getLast?.bind (·.args) with
      | some args => exact .refl _
      | none =>
          dsimp only
          cases decls.lookupType? ("::".intercalate (path.map (·.name))) tag with
          | none => exact .refl _
          | some decl =>
              cases tag with
              | some tag => exact (declWith_mono he decls decl depth).bind fun _ => .refl _
              | none => exact declWith_mono he decls decl depth
  | _ => exact .refl _

mutual

lemma exprWith_mono (he : ∀ decl, Below (expand decl) (expand' decl)) (decls : DeclTable)
    (depth : Nat) : ∀ expr : TypeExpr,
    Below (exprWith expand decls depth expr) (exprWith expand' decls depth expr)
  | ⟨base, quals, ops⟩ => by
      rw [exprWith, exprWith]
      exact (baseWith_mono he decls depth base).bind fun _ => applyOps_mono he decls depth _ ops

lemma applyOps_mono (he : ∀ decl, Below (expand decl) (expand' decl)) (decls : DeclTable)
    (depth : Nat) (current : TypeTree) : ∀ ops : List TypeOp,
    Below (applyOps expand decls depth current ops) (applyOps expand' decls depth current ops)
  | [] => .refl _
  | op :: ops => by
      rw [applyOps, applyOps]
      exact (applyOp_mono he decls depth current op).bind fun next =>
        applyOps_mono he decls depth next ops

lemma applyOp_mono (he : ∀ decl, Below (expand decl) (expand' decl)) (decls : DeclTable)
    (depth : Nat) (current : TypeTree) : ∀ op : TypeOp,
    Below (applyOp expand decls depth current op) (applyOp expand' decls depth current op)
  | .function params variadic => by
      rw [applyOp, applyOp]
      exact (paramsWith_mono he decls (depth + 1) params).bind fun _ => .refl _
  | .pointer _ | .lvalueRef | .rvalueRef | .array _ => .refl _

lemma paramsWith_mono (he : ∀ decl, Below (expand decl) (expand' decl)) (decls : DeclTable)
    (depth : Nat) : ∀ ps : List TypeExpr,
    Below (paramsWith expand decls depth ps) (paramsWith expand' decls depth ps)
  | [] => .refl _
  | p :: ps => by
      rw [paramsWith, paramsWith]
      exact (exprWith_mono he decls depth p).bind fun _ =>
        (paramsWith_mono he decls depth ps).bind fun _ => .refl _

end

lemma parsedWith_mono (he : ∀ decl, Below (expand decl) (expand' decl)) (decls : DeclTable)
    (spelling : String) (expr : Option TypeExpr) :
    Below (parsedWith expand decls spelling expr) (parsedWith expand' decls spelling expr) := by
  cases expr with
  | some expr => exact exprWith_mono he decls 0 expr
  | none => exact .refl _

lemma mendWith_mono (he : ∀ decl, Below (expand decl) (expand' decl)) (decls : DeclTable)
    (desugared : String) (built : TypeTree) :
    Below (mendWith expand decls desugared built) (mendWith expand' decls desugared built) := by
  rw [mendWith, mendWith]
  split
  · exact parsedWith_mono he decls _ _
  · split
    · exact (parsedWith_mono he decls _ _).bind fun _ => .refl _
    · exact .refl _
  · exact .refl _

/-- **Written types** have the same reading. -/
lemma writtenWith_mono (he : ∀ decl, Below (expand decl) (expand' decl)) (decls : DeclTable)
    (written : WrittenType) :
    Below (writtenWith expand decls written) (writtenWith expand' decls written) := by
  rw [writtenWith, writtenWith]
  split
  · refine Below.bind ?_ fun _ => .refl _
    split
    · exact parsedWith_mono he decls _ _
    · exact he _
  · split
    · exact parsedWith_mono he decls _ _
    · split
      · exact parsedWith_mono he decls _ _
      · exact (parsedWith_mono he decls _ _).bind fun _ => mendWith_mono he decls _ _

end

/-- A typedef that has been followed to the end with so many typedefs has been with more. -/
lemma expandWithin_mono (decls : DeclTable) {m n : Nat} (hmn : m ≤ n) (decl : NodeId) :
    Below (expandWithin decls m decl) (expandWithin decls n decl) := by
  induction m generalizing n decl with
  | zero =>
      intro tree h
      exact absurd h (by simp [expandWithin])
  | succ m ih =>
      cases n with
      | zero => exact absurd hmn (Nat.not_succ_le_zero m)
      | succ n =>
          rw [expandWithin, expandWithin]
          cases (decls.get? decl).bind (·.type) with
          | none => exact .refl _
          | some written => exact writtenWith_mono (ih (Nat.le_of_succ_le_succ hmn)) decls written

end TypeTree

/-- The written type is read as the tree. -/
def Means (decls : DeclTable) (written : WrittenType) (tree : TypeTree) : Prop :=
  ∃ entries, TypeTree.writtenWith (TypeTree.expandWithin decls entries) decls written = some tree

/-- A written type is read in one way only. -/
lemma Means.unique {decls : DeclTable} {written : WrittenType} {a b : TypeTree}
    (ha : Means decls written a) (hb : Means decls written b) : a = b := by
  obtain ⟨m, ha⟩ := ha
  obtain ⟨n, hb⟩ := hb
  have hm := TypeTree.writtenWith_mono (TypeTree.expandWithin_mono decls (Nat.le_max_left m n))
    decls written a ha
  have hn := TypeTree.writtenWith_mono (TypeTree.expandWithin_mono decls (Nat.le_max_right m n))
    decls written b hb
  exact Option.some.inj (hm.symm.trans hn)

end UnitIndex
