import UnitIndex.Dump.Node
import UnitIndex.Location.Basic
import UnitIndex.Spelling.Tag

/-!
What is known about one declaration.
-/

namespace UnitIndex

/-- The broad class of a declaration. -/
inductive DeclClass where
  | function
  | var
  | parameter
  | field
  | record
  | enum
  | enumConstant
  | namespaceDecl
  | namespaceAlias
  | typedef
  | template
  | templateParm
  /-- A context that adds nothing to qualified names. -/
  | transparent
  | other
  deriving DecidableEq, Repr

namespace DeclClass

/-- The class of a kind of declarations. -/
def ofKind : DeclKind → DeclClass
  | .function | .cxxMethod | .cxxConstructor | .cxxDestructor | .cxxConversion
  | .cxxDeductionGuide => .function
  | .var | .varTemplateSpecialization | .varTemplatePartialSpecialization => .var
  | .parmVar => .parameter
  | .field | .indirectField => .field
  | .record | .cxxRecord | .classTemplateSpecialization | .classTemplatePartialSpecialization =>
    .record
  | .enum => .enum
  | .enumConstant => .enumConstant
  | .namespaceDecl => .namespaceDecl
  | .namespaceAlias => .namespaceAlias
  | .typedef | .typeAlias => .typedef
  | .classTemplate | .functionTemplate | .varTemplate | .typeAliasTemplate => .template
  | .templateTypeParm | .nonTypeTemplateParm | .templateTemplateParm => .templateParm
  | .translationUnit | .linkageSpec | .externCContext => .transparent
  | _ => .other

/-- Whether declarations of the class name types. -/
def namesType : DeclClass → Bool
  | .record | .enum | .typedef => true
  | _ => false

end DeclClass

/-- One declaration. -/
structure DeclInfo where
  id : NodeId
  kind : DeclKind
  name : Option String
  qualifiedName : String
  /-- The semantic parent. -/
  parent : Option NodeId
  location : Option FileLocation
  isDefinition : Bool
  /-- A variable with neither initializer nor `extern`: it defines its chain of redeclarations only
  when none of them has an initializer. -/
  isTentative : Bool
  isImplicit : Bool
  /-- A parameter, template parameter or variable inside a function. -/
  isLocal : Bool
  /-- A member of an instantiation of a template. -/
  isInstantiation : Bool
  previous : Option NodeId
  type : Option WrittenType
  tag : Option Tag
  /-- Whether the declaration is a scoped enumeration. -/
  isScoped : Bool
  /-- The templated declaration of a template. -/
  pattern : Option NodeId
  deriving Repr

namespace DeclInfo

/-- The class of the declaration. -/
def cls (d : DeclInfo) : DeclClass := .ofKind d.kind

/-- Whether the declaration is a record of the language with classes. -/
def isCxx (d : DeclInfo) : Bool := d.kind.isCxxRecord

/-- Whether the declaration is a template that types are made from. -/
def isTypeTemplate (d : DeclInfo) : Bool :=
  match d.kind with
  | .classTemplate | .typeAliasTemplate => true
  | _ => false

end DeclInfo

end UnitIndex
