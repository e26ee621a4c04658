import Mathlib.Tactic
import UnitIndex.Spelling.Parser
import UnitIndex.Proofs.Spelling.Lexing

/-!
Type expressions as they are written.

A type is written as its qualifiers, its base and its declarator. The declarator is built from the
last operation to the first: the mark of a pointer or of a reference comes in front of what is there
already, an array bound or a parameter list behind it, with parentheses around what is there if it
begins with a mark (`declarator`). `TypeExpr.nesting` counts how far the text nests, and
`TypeExpr.Plain` says which types have a notation that stands for no other type.
-/

namespace UnitIndex

/-! ### Specifiers -/

/-- A component of a name, with its template arguments. -/
def PathSegment.spelling (s : PathSegment) : List Char :=
  s.name.toList ++
    match s.args with
    | some args => '<' :: (", ".intercalate args).toList ++ ['>']
    | none => []

/-- A qualified name. -/
def pathText (names : List PathSegment) : List Char :=
  [':', ':'].intercalate (names.map PathSegment.spelling)

/-- A tag keyword in front of what it introduces. -/
def Tag.spelling : Option Tag → List Char
  | some tag => tag.keyword.toList ++ [' ']
  | none => []

def TypeBase.spelling : TypeBase → List Char
  | .builtin words => words.toList
  | .named tag path => Tag.spelling tag ++ pathText path
  | .templateParm text => text.toList
  | .anonymous tag text => Tag.spelling tag ++ text.toList
  | .verbatim text => text.toList

/-- The qualifiers in front of a base. -/
def Qualifiers.spelling (q : Qualifiers) : List Char :=
  q.words.flatMap fun word => word.toList ++ [' ']

/-! ### Declarators -/

/-- What stands behind a mark or a base, if there is anything, is kept apart by a space. -/
def apart (d : List Char) : List Char := if d.isEmpty then [] else ' ' :: d

/-- Whether a declarator begins with the mark of a pointer or of a reference. -/
def startsMark (d : List Char) : Bool := d.head? = some '*' || d.head? = some '&'

/-- A declarator that begins with a mark needs parentheses in front of a bound or a parameter
list. -/
def grouped (d : List Char) : List Char := if startsMark d then '(' :: d ++ [')'] else d

namespace TypeOp

/-- Whether the operation is written in front. -/
def isMark : TypeOp → Bool
  | .pointer _ | .lvalueRef | .rvalueRef => true
  | .array _ | .function _ _ => false

end TypeOp

mutual

/-- The type as it is written. -/
def TypeExpr.spelling : TypeExpr → List Char
  | ⟨base, quals, ops⟩ => quals.spelling ++ base.spelling ++ apart (declarator ops)

/-- The operations as they are written around nothing. -/
def declarator : List TypeOp → List Char
  | [] => []
  | op :: ops =>
    if op.isMark then op.symbol ++ apart (declarator ops) else grouped (declarator ops) ++ op.symbol

/-- What is written for one operation. -/
def TypeOp.symbol : TypeOp → List Char
  | .pointer quals => '*' :: quals.text.toList
  | .lvalueRef => ['&']
  | .rvalueRef => ['&', '&']
  | .array (some n) => '[' :: Nat.toDigits 10 n ++ [']']
  | .array none => ['[', ']']
  | .function params variadic =>
    '(' :: [',', ' '].intercalate (spellings params ++ if variadic then [['.', '.', '.']] else []) ++
      [')']

def spellings : List TypeExpr → List (List Char)
  | [] => []
  | p :: ps => p.spelling :: spellings ps

end

/-! ### Nesting -/

mutual

/-- How many levels the text of a type nests below its own: one for its declarator, which may nest
further. -/
def TypeExpr.nesting : TypeExpr → Nat
  | ⟨_, _, ops⟩ => declaratorNesting ops + 1

/-- A declarator in parentheses is one level below the declarator around it. -/
def declaratorNesting : List TypeOp → Nat
  | [] => 0
  | op :: ops =>
    let inner := declaratorNesting ops
    max op.nesting (if !op.isMark && startsMark (declarator ops) then inner + 1 else inner)

/-- A parameter is two levels below the declarator that its list belongs to. -/
def TypeOp.nesting : TypeOp → Nat
  | .function params _ => parametersNesting params
  | _ => 0

def parametersNesting : List TypeExpr → Nat
  | [] => 0
  | p :: ps => max (p.nesting + 2) (parametersNesting ps)

end

/-! ### Types with a notation of their own -/

namespace TypeExpr

/-- Whether the grammar gives the word a meaning of its own, so that it names no type. -/
def isKeyword (word : String) : Bool :=
  (Qualifiers.none.absorb? word).isSome || (Tag.ofKeyword? word).isSome ||
    word ∈ operandWords || word ∈ builtinWords ||
    word ∈ ["__attribute__", "typename", "template"]

end TypeExpr

/-- Whether the component is one identifier that is no keyword, without template arguments. -/
structure PathSegment.Plain (s : PathSegment) : Prop where
  isWord : Token.isWord s.name.toList = true
  not_keyword : TypeExpr.isKeyword s.name = false
  args_eq : s.args = none

/-- Words of the language, or a name of plain components. -/
inductive TypeBase.Plain : TypeBase → Prop
  | builtin (words : List String) (hne : words ≠ []) (h : ∀ w ∈ words, w ∈ TypeExpr.builtinWords) :
    Plain (.builtin (" ".intercalate words))
  | named {tag : Option Tag} {path : List PathSegment} (hne : path ≠ []) (h : ∀ s ∈ path, s.Plain) :
    Plain (.named tag path)

variable (allowed : List TypeExpr → Prop)

mutual

/-- Whether all bases are plain, all array bounds fit 64 bits and all parameter lists are allowed,
at every level. -/
inductive TypeExpr.Plain : TypeExpr → Prop
  | intro {base : TypeBase} {quals : Qualifiers} {ops : List TypeOp} (hbase : base.Plain)
    (hops : ∀ op ∈ ops, TypeOp.Plain op) : TypeExpr.Plain ⟨base, quals, ops⟩

inductive TypeOp.Plain : TypeOp → Prop
  | pointer (quals : Qualifiers) : TypeOp.Plain (.pointer quals)
  | lvalueRef : TypeOp.Plain .lvalueRef
  | rvalueRef : TypeOp.Plain .rvalueRef
  | array {size : Option Nat} (h : ∀ n ∈ size, n < Text.limit64) : TypeOp.Plain (.array size)
  | function {params : List TypeExpr} {variadic : Bool} (hlist : allowed params)
    (hparams : ∀ p ∈ params, TypeExpr.Plain p) : TypeOp.Plain (.function params variadic)

end

/-! ### Small facts -/

variable {op : TypeOp}

/-- A mark stands in front of what is there already. -/
lemma declarator_of_isMark (h : op.isMark = true) (ops : List TypeOp) :
    declarator (op :: ops) = op.symbol ++ apart (declarator ops) := by
  rw [declarator, if_pos h]

/-- A bound or a parameter list stands behind it, and keeps it together. -/
lemma declarator_of_not_isMark (h : op.isMark = false) (ops : List TypeOp) :
    declarator (op :: ops) = grouped (declarator ops) ++ op.symbol := by
  rw [declarator, if_neg (by simp [h])]

end UnitIndex
