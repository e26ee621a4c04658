import UnitIndex.Walk.State

/-!
The walk itself.

A node is visited in a role: as a declaration, as a statement, as part of the callee of a call that
has been reported, or as an initializer of a constructor. `arrive` does what is due at the node
alone, reporting its facts, and tells how the children are to be gone through, in at most two
courses. `visit` and `visitAll` do nothing but follow these courses down the tree.
-/

namespace UnitIndex

/-- The role in which a node is visited. -/
inductive Role where
  | decl
  | stmt
  /-- Inside a callee whose name is the node `name`, so many wrappers deep. -/
  | callee (name : NodeId) (depth : Nat)
  /-- As an initializer of a constructor that stands at `ctor`. -/
  | initializer (ctor : Option SourceLocation)
  deriving DecidableEq, Repr

/-- How the children of a node are gone through. -/
inductive Course where
  | nothing
  /-- Every child as a statement. -/
  | statements
  /-- Declarations as such, the other children as statements. -/
  | mixed
  /-- The children that are no declarations, as statements. -/
  | ownStatements
  /-- The initializers and statements of a function that stands at `ctor`. -/
  | body (ctor : Option SourceLocation)
  /-- The first child in the role given, the others as arguments. -/
  | call (callee : Role)
  | arguments
  /-- Every child as a part of a callee. -/
  | calleeParts (name : NodeId) (depth : Nat)
  /-- The children that are declarations; of a function only the parameters, of a template only
  those up to its pattern. -/
  | declarations (parametersOnly upToPattern : Bool)
  deriving DecidableEq, Repr

namespace Course

/-- Whether the walk asks before each child if it is cancelled. -/
def asks : Course → Bool
  | body _ | arguments | declarations _ _ => true
  | _ => false

/-- The role of a child, unless it is left out. -/
def role? (course : Course) (child : Content) : Option Role :=
  match course with
  | nothing => none
  | statements | arguments => some .stmt
  | mixed => some (if child.isDecl then .decl else .stmt)
  | ownStatements => if child.isDecl then none else some .stmt
  | body ctor =>
    match child with
    | .ctorInit _ => some (.initializer ctor)
    | _ => if child.isDecl then none else some .stmt
  | call role => some role
  | calleeParts name depth => some (.callee name depth)
  | declarations parametersOnly _ =>
    if !child.isDecl then none
    else if parametersOnly && (child.decl?.map (·.1)) != some .parmVar then none
    else some .decl

/-- How it goes on behind a child. -/
def next (course : Course) (child : Content) : Course :=
  match course with
  | call _ => arguments
  | declarations parametersOnly upToPattern =>
    if upToPattern && child.isDecl && !child.isTemplateParm then nothing
    else declarations parametersOnly upToPattern
  | course => course

end Course

namespace Walk

/-! ### Declarations -/

/-- The kind under which a declaration is reported, if it is. -/
def symbolKind? : DeclKind → Option SymbolKind
  | .parmVar => some .parameter
  | .var | .varTemplateSpecialization | .varTemplatePartialSpecialization => some .var
  | .field | .indirectField => some .field
  | .enumConstant => some .enumConstant
  | .record | .cxxRecord | .classTemplateSpecialization | .classTemplatePartialSpecialization =>
    some .record
  | .enum => some .enum
  | .namespaceDecl => some .namespaceDecl
  | .namespaceAlias => some .namespaceAlias
  | .typedef | .typeAlias => some .typedef
  | k =>
    if k.isFunction then some .function else if k.isTemplate then some .template else none

/-- Whether the declaration is reported although it may be local. -/
def reportsLocal (id : NodeId) (kind : DeclKind) : WalkM Bool := do
  let indexLocals := (← read).options.indexLocals
  match symbolKind? kind with
  | some .parameter => return indexLocals
  | some .var => return indexLocals || !(← decl? id).any (·.isLocal)
  | _ => return true

/-- Where the definition of a variable stands when that is another declaration. -/
def definitionLocation? (decls : DeclTable) (info : DeclInfo) (id : NodeId) :
    Option FileLocation :=
  if info.cls = .var ∧ decls.definitionOf id ≠ id then
    (decls.get? (decls.definitionOf id)).bind (·.location)
  else none

/-- The type that is reported with a symbol: that of a variable, field or parameter. -/
def reportedType? (info : DeclInfo) (data : DeclData) : Option WrittenType :=
  match info.cls with
  | .var | .field | .parameter => data.type
  | _ => none

/-- Report a declaration that has a name and a position. -/
def emitSymbol (id : NodeId) (data : DeclData) (kind : SymbolKind) : WalkM Unit := do
  if ← isCancelled then return
  let some info ← decl? id | return
  if info.name.isNone then return
  let some location ← site? data.loc | return
  let definition := definitionLocation? (← read).unit.decls info id
  let typeLocation ← typeLocation? (reportedType? info data)
  emit (.symbol {
    qualifiedName := info.qualifiedName, kind := kind, location := location,
    isDefinition := info.isDefinition, definition := definition, typeLocation := typeLocation })

/-- The course through the statements that a declaration owns. -/
def ownCourse (kind : DeclKind) (data : DeclData) : Course :=
  match kind with
  | .parmVar | .var | .varTemplateSpecialization | .varTemplatePartialSpecialization | .field
  | .indirectField | .enumConstant | .staticAssert => .ownStatements
  | k => if k.isFunction then .body data.loc else .nothing

/-- The course through the declarations nested in a node. -/
def nestedCourse : Content → Course
  | .decl kind _ =>
    match kind with
    | .translationUnit | .namespaceDecl | .linkageSpec | .record | .cxxRecord
    | .classTemplateSpecialization | .classTemplatePartialSpecialization | .enum | .friend =>
      .declarations false false
    | k =>
      if k.isFunction then .declarations true false
      else if k.isTemplate then .declarations false true
      else .nothing
  | .other _ _ _ => .declarations false false
  | _ => .nothing

/-- Whether the node was made up by the front-end; the root of a unit never counts as that. -/
def isMadeUp : Content → Bool
  | .decl kind data => kind != .translationUnit && data.isImplicit
  | _ => false

/-- Note that a declaration is entered: its location is passed, and it counts. -/
def enter (id : NodeId) (content : Content) : WalkM Unit := do
  let names := (← read).unit.names
  modify fun s =>
    { s with
      visited := s.visited.insert id
      tracker :=
        match content.loc? with
        | some loc => s.tracker.observe names loc
        | none => s.tracker
      stats := { s.stats with declarations := s.stats.declarations + 1 } }

/-- Report a declaration that has been entered. -/
def reportDecl (id : NodeId) (content : Content) : WalkM Unit := do
  match content with
  | .decl kind data =>
    if let some symbol := symbolKind? kind then
      if ← reportsLocal id kind then emitSymbol id data symbol
  | _ => return

/-- The courses through the children of a declaration. -/
def declCourses (content : Content) : Course × Course :=
  match content with
  | .decl kind data => (ownCourse kind data, nestedCourse content)
  | _ => (.nothing, nestedCourse content)

/-- Enter a declaration, once, and report it. -/
def arriveDecl (id : NodeId) (content : Content) : WalkM (Course × Course) := do
  if ← isCancelled then return (.nothing, .nothing)
  if isMadeUp content then return (.nothing, .nothing)
  if (← get).visited.contains id then return (.nothing, .nothing)
  enter id content
  reportDecl id content
  return declCourses content

/-! ### References -/

/-- Where a name is spelled: at the location of its own if there is one, else where a plain name
starts and a member access ends. -/
def refSite? (kind : RefKind) (data : RefData) : Option SourceLocation :=
  data.loc.or <| data.range.map fun range =>
    match kind with
    | .member => range.stop
    | .declRef => range.start

/-- The member that a member access names. -/
def memberTarget? (data : RefData) : Option NodeId :=
  data.referencedMember.or (data.referenced.map (·.id))

/-- The declaration that a reference names. -/
def refTarget? (kind : RefKind) (data : RefData) : Option NodeId :=
  match kind with
  | .declRef => data.referenced.map (·.id)
  | .member => memberTarget? data

/-- Report the use of a declaration. -/
def emitUse (kind : ReferenceKind) (loc : Option SourceLocation) (id : NodeId) : WalkM Unit := do
  if !(← isIndexable id) then return
  let some target ← target? id | return
  let some site ← site? loc | return
  emitReference kind site (some target)

/-- The use that a reference makes of its declaration. -/
def useOf : RefKind → ReferenceKind
  | .declRef => .variableRead
  | .member => .memberAccess

/-- Report the use of the declaration that a name in an expression refers to. -/
def emitRef (kind : RefKind) (data : RefData) : WalkM Unit := do
  let some id := refTarget? kind data | return
  emitUse (useOf kind) (refSite? kind data) id

/-- Report a type that an expression names, when it names a declaration. -/
def emitTypeUse (data : ExprData) (type : Option WrittenType) : WalkM Unit := do
  let some type := type | return
  let some id ← resolveType type | return
  let some site ← site? (data.loc.or (data.range.map (·.start))) | return
  let some target ← target? id | return
  emitReference .typeUse site (some target)

/-! ### Calls -/

/-- Wrappers around a callee are looked through no deeper than this. -/
def maxCalleeDepth : Nat := 32

/-- Whether the node stands around a callee without changing what is called. -/
def isCalleeWrapper : Content → Bool
  | .expr kind _ => kind.isCalleeWrapper
  | _ => false

mutual

/-- The name that a callee expression boils down to, `depth` wrappers inside it. -/
def calleeOf? (depth : Nat) : Node → Option (NodeId × RefKind × RefData)
  | ⟨id, content, inner⟩ =>
    match content with
    | .ref kind data => some (id, kind, data)
    | .expr kind _ =>
      if kind.isCalleeWrapper && depth < maxCalleeDepth then calleeOfFirst? (depth + 1) inner
      else none
    | _ => none

/-- The name that the first of some nodes boils down to. -/
def calleeOfFirst? (depth : Nat) : List Node → Option (NodeId × RefKind × RefData)
  | [] => none
  | n :: _ => calleeOf? depth n

end

/-- The declaration that the callee of a call names. -/
def calleeDecl? (inner : List Node) : Option NodeId :=
  (calleeOfFirst? 0 inner).bind fun (_, kind, ref) => refTarget? kind ref

/-- Where a call is spelled: at the name of its callee, else where it starts. -/
def callSite? (data : ExprData) (inner : List Node) : Option SourceLocation :=
  ((calleeOfFirst? 0 inner).bind fun (_, kind, ref) => refSite? kind ref).or
    (data.range.map (·.start))

/-- Whether the callee of a call names a function. -/
def callsFunction (inner : List Node) : WalkM Bool := do
  let some id := calleeDecl? inner | return false
  isFunction id

/-- The target of a call: the function that it names. -/
def callTarget? (inner : List Node) : WalkM (Option Target) := do
  let some id := calleeDecl? inner | return none
  if ← isFunction id then target? id else return none

/-- Report a call. -/
def emitCall (data : ExprData) (inner : List Node) : WalkM Unit := do
  let some site ← site? (callSite? data inner) | return
  emitReference .call site (← callTarget? inner)

/-- The role in which a callee is visited: the name of a function is not reported again. -/
def calleeRole (inner : List Node) (isFunction : Bool) : Role :=
  match calleeOfFirst? 0 inner with
  | some (name, _, _) => if isFunction then .callee name 0 else .stmt
  | none => .stmt

/-- Report what an initializer of a constructor initializes: the member, or the class that it
constructs. -/
def arriveInitializer (ctor : Option SourceLocation) (init : CtorInit) (inner : List Node) :
    WalkM Unit := do
  let first := inner.head?.bind fun n => n.content.range?.map (·.start)
  let some site ← site? (first.or ctor) | return
  match init.member with
  | some member =>
    if ← isIndexable member.id then emitReference .memberAccess site (← target? member.id)
  | none =>
    let some type := init.base.or init.delegating | return
    emitReference .typeUse site (← typeTarget? type)

/-! ### Statements -/

/-- Report what a statement or expression refers to by itself. -/
def reportStmt (content : Content) (inner : List Node) : WalkM Unit := do
  match content with
  | .expr kind data =>
    if kind.isCall then emitCall data inner
    else if (← read).options.typeUses then
      if kind.isExplicitCast then emitTypeUse data data.type
      else if kind = .typeTrait then emitTypeUse data (data.argType.or data.typeArg)
  | .ref kind data => emitRef kind data
  | _ => return

/-- The course through the children of a statement or expression. -/
def stmtCourse (content : Content) (inner : List Node) : WalkM Course := do
  match content with
  | .expr kind _ =>
    if kind = .declStmt then return .mixed
    else if kind.isCall then return .call (calleeRole inner (← callsFunction inner))
    else return .statements
  | _ => return .statements

/-- Visit a statement or expression, or a declaration inside of one, such as the class of a
lambda. -/
def arriveStmt (id : NodeId) (content : Content) (inner : List Node) :
    WalkM (Course × Course) := do
  if ← isCancelled then return (.nothing, .nothing)
  if content.isDecl then arriveDecl id content
  else
    reportStmt content inner
    return (← stmtCourse content inner, .nothing)

/-- Do what is due at a node, and choose the courses through its children. -/
def arrive (role : Role) (id : NodeId) (content : Content) (inner : List Node) :
    WalkM (Course × Course) := do
  match role with
  | .decl => arriveDecl id content
  | .stmt => arriveStmt id content inner
  | .callee name depth =>
    if id ≠ name ∧ depth < maxCalleeDepth ∧ isCalleeWrapper content then
      return (.calleeParts name (depth + 1), .nothing)
    else if id = name then
      -- the object of a member call is visited
      return (.statements, .nothing)
    else arriveStmt id content inner
  | .initializer ctor =>
    match content with
    | .ctorInit init => do
      arriveInitializer ctor init inner
      return (.statements, .nothing)
    | _ => return (.nothing, .nothing)

/-- Whether the walk turns back before the next child of a course. -/
def turnsBack (course : Course) : WalkM Bool :=
  if course.asks then isCancelled else return false

mutual

/-- Visit a node and everything below it. -/
def visit (role : Role) : Node → WalkM Unit
  | ⟨id, content, inner⟩ => do
    let (first, second) ← arrive role id content inner
    visitAll first inner
    visitAll second inner

/-- Go through the children of a node. -/
def visitAll (course : Course) : List Node → WalkM Unit
  | [] => return
  | ⟨id, content, inner⟩ :: rest => do
    if course = .nothing then return
    if ← turnsBack course then return
    match course.role? content with
    | some role =>
      visit role ⟨id, content, inner⟩
      visitAll (course.next content) rest
    | none => visitAll (course.next content) rest

end

end Walk

end UnitIndex
