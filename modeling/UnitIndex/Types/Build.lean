import UnitIndex.Decl.Table
import UnitIndex.Spelling.Parser
import UnitIndex.Types.Table

/-!
Building types from spellings.

A written type is read as a type expression and its names are looked up among the declarations of
the unit. A name that means a typedef leads on to the type of that declaration, which is again
written, and so on; a typedef that is reached while its own type is being built ends as an
unresolved spelling, so the expansion passes through each typedef at most once and comes to an end.

The functions take `expand`, the type behind a typedef, as an argument. `TypeTable.expandWithin`
closes the circle: it descends on the number of typedefs that may still be entered.
-/

namespace UnitIndex.TypeTable

/-! ### Declarations and names -/

/-- A type for a spelling that means nothing known. -/
def unresolved (spelling : String) : TypeM QualType := plain (.unresolved spelling)

/-- The type that a declaration introduces. Below `maxSugar` levels of parameters typedefs are not
followed. -/
def declTypeWith (expand : NodeId → TypeM QualType) (decls : DeclTable) (decl : NodeId)
    (depth : Nat) : TypeM QualType := do
  match decls.get? decl with
  | none => unresolved ""
  | some info =>
    match info.cls with
    | .record => plain (.record decl info.tag info.isCxx)
    | .enum => plain (.enum decl)
    | .typedef =>
      if depth < maxSugar then
        let underlying ← expand decl
        plain (.typedef decl underlying)
      else unresolved info.qualifiedName
    | _ => unresolved info.qualifiedName

/-- The file, line and column in the spelling of an unnamed type, `(unnamed struct at f.c:3:9)`. -/
def anonymousPosition? (text : String) : Option (String × Nat × Nat) := do
  let inner := text.toList.dropWhile (· == '(')
  let inner := (inner.reverse.dropWhile (· == ')')).reverse
  let (_, position) ← Text.splitLast? " at ".toList inner
  let (front, column) ← Text.splitLast? [':'] position
  let column ← Text.numeral? 10 Text.limit32 column
  let (file, line) ← Text.splitLast? [':'] front
  let line ← Text.numeral? 10 Text.limit32 line
  some (String.ofList file, line, column)

/-- The unnamed record or enumeration that stands where the spelling says. -/
def anonymousForm? (decls : DeclTable) (text : String) : Option TypeForm := do
  let (file, line, column) ← anonymousPosition? text
  let name ← Path.fileName? ⟨file⟩
  let info ← decls.toList.find? fun info =>
    (info.cls == .record || info.cls == .enum) &&
      info.location.any fun l =>
        l.line.toNat == line && l.column.toNat == column && Path.endsWith ⟨l.file⟩ ⟨name⟩
  if info.cls = .enum then some (.enum info.id) else some (.record info.id info.tag info.isCxx)

/-- The type that the base of a type expression names. -/
def baseTypeWith (expand : NodeId → TypeM QualType) (decls : DeclTable) (depth : Nat) :
    TypeBase → TypeM QualType
  | .builtin words => plain (.builtin words)
  | .templateParm text => plain (.templateParm text)
  | .verbatim text => unresolved text
  | .anonymous _ text => plain ((anonymousForm? decls text).getD (.unresolved text))
  | .named tag path => do
    let name := "::".intercalate (path.map (·.name))
    match path.getLast?.bind (·.args) with
    | some args =>
      plain (.specialization (decls.lookupTemplate? name)
        (name ++ "<" ++ ", ".intercalate args ++ ">") none)
    | none =>
      match decls.lookupType? name tag with
      | none => unresolved name
      | some decl =>
        let named ← declTypeWith expand decls decl depth
        match tag with
        | some tag => plain (.elaborated tag named)
        | none => return named

/-! ### Type expressions -/

mutual

/-- The type of a type expression, inside `depth` parameter lists. -/
def exprTypeWith (expand : NodeId → TypeM QualType) (decls : DeclTable) (depth : Nat) :
    TypeExpr → TypeM QualType
  | ⟨base, quals, ops⟩ => do
    let base ← baseTypeWith expand decls depth base
    applyOps expand decls depth ⟨base.type, base.quals.union quals⟩ ops

/-- The type that the operations of a declarator make of `current`. -/
def applyOps (expand : NodeId → TypeM QualType) (decls : DeclTable) (depth : Nat)
    (current : QualType) : List TypeOp → TypeM QualType
  | [] => return current
  | op :: ops => do applyOps expand decls depth (← applyOp expand decls depth current op) ops

/-- The type that one operation makes of `current`. -/
def applyOp (expand : NodeId → TypeM QualType) (decls : DeclTable) (depth : Nat)
    (current : QualType) : TypeOp → TypeM QualType
  | .pointer quals => qualified (.pointer current) quals
  | .lvalueRef => plain (.lvalueRef current)
  | .rvalueRef => plain (.rvalueRef current)
  | .array size => plain (.array current size)
  | .function params variadic => do
    let params ← paramTypes expand decls (depth + 1) params
    plain (.function current params variadic)

/-- The types of parameters. -/
def paramTypes (expand : NodeId → TypeM QualType) (decls : DeclTable) (depth : Nat) :
    List TypeExpr → TypeM (List QualType)
  | [] => return []
  | p :: ps => do
    let t ← exprTypeWith expand decls depth p
    return t :: (← paramTypes expand decls depth ps)

end

/-! ### Spellings -/

/-- The type of a spelling that has been read, if it could be read. -/
def parsedTypeWith (expand : NodeId → TypeM QualType) (decls : DeclTable) (spelling : String)
    (expr : Option TypeExpr) : TypeM QualType :=
  match expr with
  | some expr => exprTypeWith expand decls 0 expr
  | none => unresolved spelling

/-- The type of a bare spelling. -/
def spellingTypeWith (expand : NodeId → TypeM QualType) (decls : DeclTable) (spelling : String) :
    TypeM QualType :=
  parsedTypeWith expand decls spelling (TypeExpr.parse? spelling)

/-- The typedef that the front-end says a written type names, when the type is nothing but that
name. -/
def namedAlias? (decls : DeclTable) (written : WrittenType) (expr : Option TypeExpr) :
    Option (NodeId × Qualifiers) := do
  let aliasId ← written.aliasId
  let info ← decls.get? aliasId
  let expr ← expr
  if info.cls = .typedef ∧ expr.ops.isEmpty then some (aliasId, expr.quals) else none

/-- Whether the base is a name that several scopes share. -/
def namesAmbiguously (decls : DeclTable) (base : TypeBase) : Bool :=
  base.qualifiedName?.any decls.isAmbiguous

/-- The type built so far, mended by the desugared spelling: that spelling replaces a type that
nothing is known about, and tells what the specialization of an alias template is an alias of. -/
def mendWith (expand : NodeId → TypeM QualType) (decls : DeclTable) (desugared : String)
    (built : QualType) : TypeM QualType := do
  match (← get).form built.type with
  | .unresolved _ => spellingTypeWith expand decls desugared
  | .specialization (some template) spelling none =>
    if (decls.get? template).any (·.kind == .typeAliasTemplate) then
      let aliased ← spellingTypeWith expand decls desugared
      qualified (.specialization (some template) spelling (some aliased)) built.quals
    else return built
  | _ => return built

/-- The type of a written type that is met for the first time. -/
def freshTypeWith (expand : NodeId → TypeM QualType) (decls : DeclTable) (written : WrittenType) :
    TypeM QualType := do
  let spelling := written.spelling?.getD ""
  let desugared := written.desugared.filter (· ≠ "")
  let expr := TypeExpr.parse? spelling
  match namedAlias? decls written expr with
  | some (aliasId, quals) =>
    let underlying ←
      match desugared with
      | some d => spellingTypeWith expand decls d
      | none => expand aliasId
    qualified (.typedef aliasId underlying) quals
  | none =>
    match desugared with
    | none => parsedTypeWith expand decls spelling expr
    | some d =>
      if expr.any fun e => namesAmbiguously decls e.base then
        -- the desugared spelling is fully qualified
        spellingTypeWith expand decls d
      else
        mendWith expand decls d (← parsedTypeWith expand decls spelling expr)

/-- The type of a written type. -/
def writtenTypeWith (expand : NodeId → TypeM QualType) (decls : DeclTable)
    (written : WrittenType) : TypeM QualType := do
  match (← get).written[written]? with
  | some known => return known
  | none =>
    let built ← freshTypeWith expand decls written
    modify fun t => { t with written := t.written.insert written built }
    return built

/-! ### Typedefs -/

/-- The type behind a typedef, with so many more typedefs to enter. One that is being expanded
already stands for its spelling. -/
def expandWithin (decls : DeclTable) : Nat → NodeId → TypeM QualType
  | 0, _ => unresolved ""
  | entries + 1, decl => do
    match (decls.get? decl).bind (·.type) with
    | none => unresolved ""
    | some written =>
      if decl ∈ (← get).expanding then unresolved (written.spelling?.getD "")
      else
        modify fun t => { t with expanding := decl :: t.expanding }
        let underlying ← writtenTypeWith (expandWithin decls entries) decls written
        modify fun t => { t with expanding := t.expanding.erase decl }
        return underlying

/-- The type behind a typedef. -/
def expand (decls : DeclTable) (decl : NodeId) : TypeM QualType :=
  expandWithin decls (decls.size + 1) decl

/-- The type that a declaration introduces, inside `depth` parameter lists. -/
def declType (decls : DeclTable) (decl : NodeId) (depth : Nat) : TypeM QualType :=
  declTypeWith (expand decls) decls decl depth

/-- The type of a bare spelling. -/
def spellingType (decls : DeclTable) (spelling : String) : TypeM QualType :=
  spellingTypeWith (expand decls) decls spelling

/-- The type that the front-end wrote at a node. -/
def writtenType (decls : DeclTable) (written : WrittenType) : TypeM QualType :=
  writtenTypeWith (expand decls) decls written

end UnitIndex.TypeTable
