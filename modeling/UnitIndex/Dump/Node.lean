import UnitIndex.Dump.Kind
import UnitIndex.Dump.Location

/-!
Nodes of a dumped syntax tree.

A node has an id, what the dump says about a node of its kind (`Content`), and its children in
source order. Kinds that are not told apart keep their name and position.
-/

namespace UnitIndex

/-- The identity of a node within its dump. -/
structure NodeId where
  value : UInt64
  deriving DecidableEq, Repr, Hashable, Inhabited

/-- A type as the front-end prints it. -/
structure WrittenType where
  /-- The type as it is written in the source. -/
  qualType : Option String := none
  /-- The type without its outer sugar, fully qualified. -/
  desugared : Option String := none
  /-- The alias that the written type names. -/
  aliasId : Option NodeId := none
  deriving DecidableEq, Repr, Hashable

/-- The written spelling, unless it is empty. -/
def WrittenType.spelling? (t : WrittenType) : Option String := t.qualType.filter (· ≠ "")

/-- A declaration as another node mentions it. -/
structure DeclMention where
  id : NodeId
  kind : Option String := none
  name : Option String := none
  type : Option WrittenType := none
  deriving DecidableEq, Repr

/-- What the dump says about a declaration. -/
structure DeclData where
  name : Option String := none
  loc : Option SourceLocation := none
  range : Option SourceRange := none
  implicitMark : Option Bool := none
  type : Option WrittenType := none
  previous : Option NodeId := none
  /-- The semantic parent of a declaration that stands outside of it. -/
  parentContext : Option NodeId := none
  storageClass : Option String := none
  /-- How a variable is initialized. -/
  init : Option String := none
  completeDefinition : Option Bool := none
  tagUsed : Option String := none
  scopedEnumTag : Option String := none
  explicitlyDefaulted : Option String := none
  explicitlyDeleted : Option Bool := none
  deriving DecidableEq, Repr

namespace DeclData

/-- The name, unless it is empty. -/
def name? (d : DeclData) : Option String := d.name.filter (· ≠ "")

/-- Whether the front-end made the declaration up. -/
def isImplicit (d : DeclData) : Bool := d.implicitMark.getD false

/-- Whether the declaration is written with `extern`. -/
def isExtern (d : DeclData) : Bool := d.storageClass == some "extern"

/-- Whether the declaration has an initializer. -/
def hasInit (d : DeclData) : Bool := d.init.isSome

end DeclData

/-- What the dump says about a statement or expression. -/
structure ExprData where
  loc : Option SourceLocation := none
  range : Option SourceRange := none
  type : Option WrittenType := none
  /-- The type operand of a size or alignment query, under either of its two names. -/
  argType : Option WrittenType := none
  typeArg : Option WrittenType := none
  deriving DecidableEq, Repr

/-- What the dump says about an expression that names a declaration. -/
structure RefData where
  loc : Option SourceLocation := none
  range : Option SourceRange := none
  referenced : Option DeclMention := none
  referencedMember : Option NodeId := none
  name : Option String := none
  implicitMark : Option Bool := none
  deriving DecidableEq, Repr

/-- What a constructor initializer initializes. -/
structure CtorInit where
  member : Option DeclMention := none
  base : Option WrittenType := none
  delegating : Option WrittenType := none
  deriving DecidableEq, Repr

/-- What a node is. -/
inductive Content where
  | decl (kind : DeclKind) (data : DeclData)
  | expr (kind : ExprKind) (data : ExprData)
  | ref (kind : RefKind) (data : RefData)
  | ctorInit (data : CtorInit)
  /-- A kind that is not told apart. -/
  | other (kind : Option String) (loc : Option SourceLocation) (range : Option SourceRange)
  deriving DecidableEq, Repr

namespace Content

/-- The name of the node's kind. -/
def kindName : Content → String
  | decl k _ => k.name
  | expr k _ => k.name
  | ref k _ => k.name
  | ctorInit _ => "CXXCtorInitializer"
  | other k _ _ => k.getD "Other"

/-- The facts of a declaration. -/
def decl? : Content → Option (DeclKind × DeclData)
  | decl k d => some (k, d)
  | _ => none

/-- Whether the node is a declaration, of a kind that is told apart or of any other. -/
def isDecl : Content → Bool
  | decl _ _ => true
  | other (some k) _ _ => k.endsWith "Decl"
  | _ => false

/-- Whether the node declares a function, a method or the like. -/
def isFunction : Content → Bool
  | decl k _ => k.isFunction
  | _ => false

/-- Whether the node declares a template. -/
def isTemplate : Content → Bool
  | decl k _ => k.isTemplate
  | _ => false

/-- Whether the node declares a parameter of a template. -/
def isTemplateParm : Content → Bool
  | decl k _ => k.isTemplateParm
  | _ => false

/-- The position of the node's name, or of the node. -/
def loc? : Content → Option SourceLocation
  | decl _ d => d.loc
  | expr _ d => d.loc
  | ref _ d => d.loc
  | ctorInit _ => none
  | other _ loc _ => loc

/-- The stretch of text that the node covers. -/
def range? : Content → Option SourceRange
  | decl _ d => d.range
  | expr _ d => d.range
  | ref _ d => d.range
  | ctorInit _ => none
  | other _ _ range => range

end Content

/-- A node of the tree. -/
structure Node where
  id : NodeId
  content : Content
  inner : List Node
  deriving Repr

namespace Node

/-- Where the templated declaration stands among a template's children: the first declaration that
is no template parameter. The declarations behind it are instantiations. -/
def patternIndex? (n : Node) : Option Nat :=
  n.inner.findIdx? fun c => c.content.isDecl && !c.content.isTemplateParm

/-- Whether the node is the body of a function. -/
def isBody (n : Node) : Bool :=
  match n.content with
  | .other (some k) _ _ => k == "CompoundStmt" || k == "CXXTryStmt"
  | _ => false

mutual

/-- The number of nodes of a tree. -/
def size : Node → Nat
  | ⟨_, _, inner⟩ => sizeAll inner + 1

/-- The number of nodes of a list of trees. -/
def sizeAll : List Node → Nat
  | [] => 0
  | n :: ns => size n + sizeAll ns

end

mutual

/-- The nodes of a tree with their depths, each before its children. -/
def preorder (depth : Nat) : Node → List (Nat × Node)
  | ⟨id, content, inner⟩ => (depth, ⟨id, content, inner⟩) :: preorderAll (depth + 1) inner

/-- The nodes of a list of trees. -/
def preorderAll (depth : Nat) : List Node → List (Nat × Node)
  | [] => []
  | n :: ns => preorder depth n ++ preorderAll depth ns

end

end Node

end UnitIndex
