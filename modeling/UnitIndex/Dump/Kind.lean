/-!
Kinds of syntax-tree nodes that are told apart.

Declarations, expressions with a part in the walk, and name references each have their kinds; every
other kind is kept as text only. Names are those that the dump prints.
-/

namespace UnitIndex

/-- Kinds of declarations. -/
inductive DeclKind where
  | translationUnit | namespaceDecl | namespaceAlias | linkageSpec | externCContext
  | record | cxxRecord | enum | enumConstant | typedef | typeAlias
  | classTemplate | classTemplateSpecialization | classTemplatePartialSpecialization
  | functionTemplate | varTemplate | varTemplateSpecialization
  | varTemplatePartialSpecialization | typeAliasTemplate | templateTypeParm
  | nonTypeTemplateParm | templateTemplateParm
  | function | cxxMethod | cxxConstructor | cxxDestructor | cxxConversion | cxxDeductionGuide
  | var | parmVar | field | indirectField
  | usingDecl | usingDirective | usingShadow | unresolvedUsingTypename | unresolvedUsingValue
  | accessSpec | friend | staticAssert | label | fileScopeAsm | importDecl
  deriving DecidableEq, Repr

namespace DeclKind

/-- The name of the kind in a dump. -/
def name : DeclKind → String
  | translationUnit => "TranslationUnitDecl"
  | namespaceDecl => "NamespaceDecl"
  | namespaceAlias => "NamespaceAliasDecl"
  | linkageSpec => "LinkageSpecDecl"
  | externCContext => "ExternCContextDecl"
  | record => "RecordDecl"
  | cxxRecord => "CXXRecordDecl"
  | enum => "EnumDecl"
  | enumConstant => "EnumConstantDecl"
  | typedef => "TypedefDecl"
  | typeAlias => "TypeAliasDecl"
  | classTemplate => "ClassTemplateDecl"
  | classTemplateSpecialization => "ClassTemplateSpecializationDecl"
  | classTemplatePartialSpecialization => "ClassTemplatePartialSpecializationDecl"
  | functionTemplate => "FunctionTemplateDecl"
  | varTemplate => "VarTemplateDecl"
  | varTemplateSpecialization => "VarTemplateSpecializationDecl"
  | varTemplatePartialSpecialization => "VarTemplatePartialSpecializationDecl"
  | typeAliasTemplate => "TypeAliasTemplateDecl"
  | templateTypeParm => "TemplateTypeParmDecl"
  | nonTypeTemplateParm => "NonTypeTemplateParmDecl"
  | templateTemplateParm => "TemplateTemplateParmDecl"
  | function => "FunctionDecl"
  | cxxMethod => "CXXMethodDecl"
  | cxxConstructor => "CXXConstructorDecl"
  | cxxDestructor => "CXXDestructorDecl"
  | cxxConversion => "CXXConversionDecl"
  | cxxDeductionGuide => "CXXDeductionGuideDecl"
  | var => "VarDecl"
  | parmVar => "ParmVarDecl"
  | field => "FieldDecl"
  | indirectField => "IndirectFieldDecl"
  | usingDecl => "UsingDecl"
  | usingDirective => "UsingDirectiveDecl"
  | usingShadow => "UsingShadowDecl"
  | unresolvedUsingTypename => "UnresolvedUsingTypenameDecl"
  | unresolvedUsingValue => "UnresolvedUsingValueDecl"
  | accessSpec => "AccessSpecDecl"
  | friend => "FriendDecl"
  | staticAssert => "StaticAssertDecl"
  | label => "LabelDecl"
  | fileScopeAsm => "FileScopeAsmDecl"
  | importDecl => "ImportDecl"

/-- Every kind. -/
def all : List DeclKind :=
  [translationUnit, namespaceDecl, namespaceAlias, linkageSpec, externCContext, record, cxxRecord,
    enum, enumConstant, typedef, typeAlias, classTemplate, classTemplateSpecialization,
    classTemplatePartialSpecialization, functionTemplate, varTemplate, varTemplateSpecialization,
    varTemplatePartialSpecialization, typeAliasTemplate, templateTypeParm, nonTypeTemplateParm,
    templateTemplateParm, function, cxxMethod, cxxConstructor, cxxDestructor, cxxConversion,
    cxxDeductionGuide, var, parmVar, field, indirectField, usingDecl, usingDirective, usingShadow,
    unresolvedUsingTypename, unresolvedUsingValue, accessSpec, friend, staticAssert, label,
    fileScopeAsm, importDecl]

/-- The kind of that name. -/
def ofName? (name : String) : Option DeclKind := all.find? fun k => k.name == name

/-- Functions of every sort. -/
def isFunction : DeclKind → Bool
  | function | cxxMethod | cxxConstructor | cxxDestructor | cxxConversion | cxxDeductionGuide =>
    true
  | _ => false

/-- Templates, as opposed to what they are templates of. -/
def isTemplate : DeclKind → Bool
  | classTemplate | functionTemplate | varTemplate | typeAliasTemplate => true
  | _ => false

/-- Parameters of templates. -/
def isTemplateParm : DeclKind → Bool
  | templateTypeParm | nonTypeTemplateParm | templateTemplateParm => true
  | _ => false

/-- Records of the language with classes. -/
def isCxxRecord : DeclKind → Bool
  | cxxRecord | classTemplateSpecialization | classTemplatePartialSpecialization => true
  | _ => false

end DeclKind

/-- Kinds of expressions and statements that take part in the walk. -/
inductive ExprKind where
  | declStmt | call | memberCall | operatorCall
  | implicitCast | paren | materializeTemporary | bindTemporary | withCleanups
  | cStyleCast | staticCast | dynamicCast | reinterpretCast | constCast | functionalCast
  | typeTrait
  deriving DecidableEq, Repr

namespace ExprKind

/-- The name of the kind in a dump. -/
def name : ExprKind → String
  | declStmt => "DeclStmt"
  | call => "CallExpr"
  | memberCall => "CXXMemberCallExpr"
  | operatorCall => "CXXOperatorCallExpr"
  | implicitCast => "ImplicitCastExpr"
  | paren => "ParenExpr"
  | materializeTemporary => "MaterializeTemporaryExpr"
  | bindTemporary => "CXXBindTemporaryExpr"
  | withCleanups => "ExprWithCleanups"
  | cStyleCast => "CStyleCastExpr"
  | staticCast => "CXXStaticCastExpr"
  | dynamicCast => "CXXDynamicCastExpr"
  | reinterpretCast => "CXXReinterpretCastExpr"
  | constCast => "CXXConstCastExpr"
  | functionalCast => "CXXFunctionalCastExpr"
  | typeTrait => "UnaryExprOrTypeTraitExpr"

/-- Every kind. -/
def all : List ExprKind :=
  [declStmt, call, memberCall, operatorCall, implicitCast, paren, materializeTemporary,
    bindTemporary, withCleanups, cStyleCast, staticCast, dynamicCast, reinterpretCast, constCast,
    functionalCast, typeTrait]

/-- The kind of that name. -/
def ofName? (name : String) : Option ExprKind := all.find? fun k => k.name == name

/-- Calls of every sort. -/
def isCall : ExprKind → Bool
  | call | memberCall | operatorCall => true
  | _ => false

/-- Expressions that stand around a callee without changing what is called. -/
def isCalleeWrapper : ExprKind → Bool
  | implicitCast | paren | materializeTemporary | bindTemporary | withCleanups => true
  | _ => false

/-- Casts that name their type. -/
def isExplicitCast : ExprKind → Bool
  | cStyleCast | staticCast | dynamicCast | reinterpretCast | constCast | functionalCast => true
  | _ => false

end ExprKind

/-- Kinds of expressions that name a declaration. -/
inductive RefKind where
  | declRef
  | member
  deriving DecidableEq, Repr

namespace RefKind

/-- The name of the kind in a dump. -/
def name : RefKind → String
  | declRef => "DeclRefExpr"
  | member => "MemberExpr"

/-- The kind of that name. -/
def ofName? : String → Option RefKind
  | "DeclRefExpr" => some declRef
  | "MemberExpr" => some member
  | _ => none

end RefKind

end UnitIndex
