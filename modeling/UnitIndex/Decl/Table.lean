import Std.Data.HashMap
import Std.Data.HashSet
import UnitIndex.Decl.Info
import UnitIndex.Location.FileNames
import UnitIndex.Text.Split

/-!
The declarations of a translation unit.

`DeclTable.build` collects the declarations of a tree in the order in which the tree first names
them, then names them by their semantic scopes, links variables to their definitions, and lists the
declarations that type spellings may name. A node that is listed again replaces what was known,
unless the earlier node has a position and the later one has none.

`lookupType?`, `lookupTemplate?` and `isAmbiguous` answer for a name as it stands in a type
spelling; `definitionOf` applies the rule of one definition among the redeclarations of a variable.
-/

namespace UnitIndex

/-- The declarations of a translation unit, by the ids of their nodes. -/
structure DeclTable where
  decls : Std.HashMap NodeId DeclInfo := {}
  /-- Ids in tree order. -/
  order : Array NodeId := #[]
  /-- Declarations that name types or type templates, by simple and by qualified name. -/
  typeNames : Std.HashMap String (List NodeId) := {}
  /-- The defining declaration of a chain of redeclared variables, by the root of the chain. -/
  varDefinitions : Std.HashMap NodeId NodeId := {}
  deriving Inhabited

namespace DeclTable

/-- Chains of redeclarations and of parents are followed no further than this. -/
def maxChain : Nat := 256

/-! ### Access -/

/-- The declaration with that id. -/
def get? (t : DeclTable) (id : NodeId) : Option DeclInfo := t.decls[id]?

/-- The number of declarations. -/
def size (t : DeclTable) : Nat := t.decls.size

/-- The declarations in tree order. -/
def toList (t : DeclTable) : List DeclInfo := t.order.toList.filterMap t.get?

/-- The declaration changed by `f`, if there is one. -/
def update (t : DeclTable) (id : NodeId) (f : DeclInfo → DeclInfo) : DeclTable :=
  match t.get? id with
  | some info => { t with decls := t.decls.insert id (f info) }
  | none => t

/-! ### Redeclarations -/

/-- One step to an earlier redeclaration that the table knows. -/
def previous? (t : DeclTable) (id : NodeId) : Option NodeId := do
  let previous ← (← t.get? id).previous
  if previous ≠ id ∧ t.decls.contains previous then some previous else none

/-- The declaration reached by at most so many steps back. -/
def chainRootWithin (t : DeclTable) : Nat → NodeId → NodeId
  | 0, id => id
  | steps + 1, id =>
    match t.previous? id with
    | some previous => chainRootWithin t steps previous
    | none => id

/-- The first declaration of the chain that `id` redeclares. -/
def chainRoot (t : DeclTable) (id : NodeId) : NodeId := t.chainRootWithin maxChain id

/-- The defining declaration of a variable's chain, when there is one; every other declaration
stands for itself. -/
def definitionOf (t : DeclTable) (id : NodeId) : NodeId :=
  match t.get? id with
  | some info =>
    if info.cls = .var then (t.varDefinitions[t.chainRoot id]?).getD id else id
  | none => id

/-! ### Names -/

/-- A name without the `::` in front of it. -/
def unrooted (name : List Char) : List Char :=
  match name with
  | ':' :: ':' :: rest => unrooted rest
  | _ => name

/-- The declarations that a name may mean: those of exactly that name, and when there are none,
those whose simple name is its last component. -/
def candidates (t : DeclTable) (name : String) : List DeclInfo :=
  let name := unrooted name.toList
  let ids :=
    match t.typeNames[String.ofList name]? with
    | some ids => ids
    | none =>
      match Text.splitLast? "::".toList name with
      | some (_, simple) => (t.typeNames[String.ofList simple]?).getD []
      | none => []
  ids.filterMap t.get?

/-- Whether a type written with the keyword `written` may be declared with `declared`: `struct` and
`class` are interchangeable. -/
def tagAgrees (declared : Option Tag) (written : Tag) : Bool :=
  match declared, written with
  | some .struct, .cxxClass | some .cxxClass, .struct => true
  | declared, written => declared == some written

/-- Whether a type written with that tag, or without one, may name the declaration. -/
def mayName (tag : Option Tag) (d : DeclInfo) : Bool :=
  match tag with
  | some .enum => d.cls == .enum
  | some t => d.cls == .record && tagAgrees d.tag t
  | none => d.cls.namesType

/-- Typedefs come before definitions, and those before other declarations. -/
def rank (d : DeclInfo) : Nat :=
  if d.cls = .typedef then 0 else if d.isDefinition then 1 else 2

/-- The first element of least rank. -/
def firstLeast {α : Type} (rank : α → Nat) : List α → Option α
  | [] => none
  | a :: as =>
    match firstLeast rank as with
    | some b => if rank b < rank a then some b else some a
    | none => some a

/-- The declaration that a type name means. -/
def lookupType? (t : DeclTable) (name : String) (tag : Option Tag) : Option NodeId :=
  (firstLeast rank ((t.candidates name).filter (mayName tag))).map (·.id)

/-- The template that the name of a template-id means. -/
def lookupTemplate? (t : DeclTable) (name : String) : Option NodeId :=
  ((t.candidates name).find? (·.isTypeTemplate)).map (·.id)

/-- Whether the name may mean declarations of different qualified names. -/
def isAmbiguous (t : DeclTable) (name : String) : Bool :=
  let named := (t.candidates name).filter fun d => d.cls.namesType || d.cls == .template
  match named with
  | [] => false
  | first :: rest => rest.any fun d => d.qualifiedName ≠ first.qualifiedName

/-! ### Collecting -/

/-- Where a node stands. -/
structure Scope where
  parent : Option NodeId := none
  inFunction : Bool := false
  inInstantiation : Bool := false

/-- Whether the parent of the scope is a record, as far as the tree has been read. -/
def Scope.inRecord (s : Scope) (t : DeclTable) : Bool :=
  match s.parent.bind t.get? with
  | some p => p.cls == .record
  | none => false

/-- Whether the node by itself defines what it declares. -/
def defines (inRecord : Bool) (kind : DeclKind) (data : DeclData) (inner : List Node) : Bool :=
  match DeclClass.ofKind kind with
  | .function =>
    inner.any Node.isBody || data.explicitlyDefaulted.isSome ||
      data.explicitlyDeleted.getD false
  | .record => data.completeDefinition.getD false
  | .enum =>
    data.completeDefinition.getD false ||
      inner.any fun c => (c.content.decl?.map (·.1)) == some .enumConstant
  | .var => data.hasInit || (!data.isExtern && !inRecord)
  | .parameter | .field | .enumConstant | .namespaceDecl | .namespaceAlias | .typedef => true
  | _ => false

/-- What a declaration node says in its scope; names are left for later. -/
def describe (t : DeclTable) (names : FileNames) (scope : Scope) (id : NodeId) (kind : DeclKind)
    (data : DeclData) (inner : List Node) : DeclInfo :=
  let cls := DeclClass.ofKind kind
  let isDefinition := defines (scope.inRecord t) kind data inner
  { id := id
    kind := kind
    name := data.name?
    qualifiedName := ""
    parent := data.parentContext.or scope.parent
    location := data.loc.bind names.resolve?
    isDefinition := isDefinition
    isTentative := cls == .var && isDefinition && !data.hasInit
    isImplicit := data.isImplicit
    isLocal :=
      match cls with
      | .parameter | .templateParm => true
      | .var => scope.inFunction
      | _ => false
    isInstantiation := scope.inInstantiation
    previous := data.previous
    type := data.type
    tag := if kind = .enum then some .enum else data.tagUsed.bind Tag.ofKeyword?
    isScoped := data.scopedEnumTag.isSome
    pattern := none }

/-- The table with a declaration added. One without a position never hides one that has it. -/
def record (t : DeclTable) (info : DeclInfo) : DeclTable :=
  match t.get? info.id with
  | none => { t with decls := t.decls.insert info.id info, order := t.order.push info.id }
  | some known =>
    if info.location.isNone && known.location.isSome then t
    else { t with decls := t.decls.insert info.id info }

/-- The scope of a node's children. -/
def childScope (scope : Scope) (id : NodeId) (content : Content) : Scope :=
  match content with
  | .decl kind _ =>
    { scope with parent := some id, inFunction := scope.inFunction || kind.isFunction }
  | .ctorInit _ => scope
  | content =>
    -- whatever stands below a statement belongs to a function
    if content.isDecl then scope else { scope with inFunction := true }

/-- Note on a template which of its children is the pattern; the template is a definition when that
one is. -/
def notePattern (t : DeclTable) (id pattern : NodeId) : DeclTable :=
  let isDefinition := (t.get? pattern).any (·.isDefinition)
  t.update id fun info => { info with pattern := some pattern, isDefinition := isDefinition }

/-- The table with what a node itself declares added. -/
def recordNode (t : DeclTable) (names : FileNames) (scope : Scope) (id : NodeId)
    (content : Content) (inner : List Node) : DeclTable :=
  match content with
  | .decl kind data => t.record (t.describe names scope id kind data inner)
  | _ => t

/-- The table behind a node's children, with the pattern noted if the node is a template that has
one. -/
def closeNode (t : DeclTable) (id : NodeId) (pattern? : Option Node) : DeclTable :=
  match pattern? with
  | some pattern => t.notePattern id pattern.id
  | none => t

mutual

/-- The table with the declarations of a tree added. -/
def collect (names : FileNames) (scope : Scope) (t : DeclTable) : Node → DeclTable
  | ⟨id, content, inner⟩ =>
    let pattern? :=
      if content.isTemplate then Node.patternIndex? ⟨id, content, inner⟩ else none
    let t := collectAll names (childScope scope id content) pattern? 0
      (t.recordNode names scope id content inner) inner
    t.closeNode id (pattern?.bind (inner[·]?))

/-- The table with the declarations of a node's children added. Those behind the pattern of a
template are instantiations. -/
def collectAll (names : FileNames) (scope : Scope) (pattern? : Option Nat) (index : Nat)
    (t : DeclTable) : List Node → DeclTable
  | [] => t
  | child :: rest =>
    let instantiated := pattern?.any (· < index) && child.content.isDecl
    let inner := { scope with inInstantiation := scope.inInstantiation || instantiated }
    collectAll names scope pattern? (index + 1) (collect names inner t child) rest

end

/-! ### Finishing -/

/-- The component that a scope adds to the names of what it holds. -/
def scopeName? (d : DeclInfo) : Option String :=
  match d.cls with
  | .namespaceDecl => some (d.name.getD "(anonymous namespace)")
  | .record | .function => some (d.name.getD "(anonymous)")
  | .enum => if d.isScoped then some (d.name.getD "") else none
  | _ => none

/-- The components that at most so many scopes from `parent` upwards add, innermost first. -/
def scopeNames (t : DeclTable) : Nat → Option NodeId → List String
  | 0, _ => []
  | steps + 1, parent =>
    match parent.bind t.get? with
    | some p => (scopeName? p).toList ++ scopeNames t steps p.parent
    | none => []

/-- The name of a declaration behind the names of its semantic scopes. -/
def qualifiedName (t : DeclTable) (d : DeclInfo) : String :=
  "::".intercalate
    ((d.name.getD "(anonymous)" :: t.scopeNames maxChain d.parent).reverse)

/-- The table with every declaration named. -/
def nameAll (t : DeclTable) : DeclTable :=
  t.order.foldl (fun t id => t.update id fun d => { d with qualifiedName := t.qualifiedName d }) t

/-- The definition of a chain, unless it has one. -/
def define (t : DeclTable) (root id : NodeId) : DeclTable :=
  if t.varDefinitions.contains root then t
  else { t with varDefinitions := t.varDefinitions.insert root id }

/-- Let the first initialized variable of each chain define it; the roots of those chains. -/
def defineInitialized (t : DeclTable) : DeclTable × Std.HashSet NodeId :=
  t.order.foldl
    (fun (t, roots) id =>
      match t.get? id with
      | some d =>
        if d.cls = .var ∧ d.isDefinition ∧ !d.isTentative then
          (t.define (t.chainRoot id) id, roots.insert (t.chainRoot id))
        else (t, roots)
      | none => (t, roots))
    (t, {})

/-- Let the first tentative variable define each chain that has no initialized one; in the others
tentative variables define nothing. -/
def defineTentative (t : DeclTable) (roots : Std.HashSet NodeId) : DeclTable :=
  t.order.foldl
    (fun t id =>
      match t.get? id with
      | some d =>
        if d.isTentative then
          let root := t.chainRoot id
          if roots.contains root then t.update id fun d => { d with isDefinition := false }
          else t.define root id
        else t
      | none => t)
    t

/-- The table with the variables linked to their definitions. -/
def linkVariables (t : DeclTable) : DeclTable :=
  let (t, roots) := t.defineInitialized
  t.defineTentative roots

/-- Whether a type spelling may mean the declaration. -/
def isTypeName (d : DeclInfo) : Bool :=
  !d.isImplicit && !d.isInstantiation && (d.cls.namesType || d.isTypeTemplate)

/-- The table with one more meaning of a name. -/
def addTypeName (t : DeclTable) (name : String) (id : NodeId) : DeclTable :=
  { t with typeNames := t.typeNames.insert name ((t.typeNames[name]?).getD [] ++ [id]) }

/-- The table with the names of a declaration listed, its simple one and, where that differs, its
qualified one. -/
def listNames (t : DeclTable) (id : NodeId) : DeclTable :=
  match t.get? id with
  | some d =>
    match d.name with
    | some name =>
      if isTypeName d then
        let t := t.addTypeName name id
        if d.qualifiedName ≠ name then t.addTypeName d.qualifiedName id else t
      else t
    | none => t
  | none => t

/-- The table with the names of all types listed. -/
def listTypeNames (t : DeclTable) : DeclTable := t.order.foldl listNames t

/-- The declarations of a tree. -/
def build (names : FileNames) (root : Node) : DeclTable :=
  (collect names {} {} root).nameAll.linkVariables.listTypeNames

end DeclTable

end UnitIndex
