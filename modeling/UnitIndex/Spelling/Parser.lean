import UnitIndex.Spelling.Token
import UnitIndex.Spelling.TypeExpr
import UnitIndex.Text.Blank
import UnitIndex.Text.Numeral

/-!
Reading type spellings.

A spelling is declaration specifiers (qualifiers, an optional tag, and words of the language or one
possibly qualified and templated name) followed by an abstract declarator (`*`, `&`, `&&`, `[n]`,
parameter lists, and grouping parentheses). `TypeExpr.parse?` reads a whole spelling or refuses it.

Each reader takes the tokens that are left and returns what it read with the tokens after it. The
recursion descends on the levels of nesting that are still allowed, at most `maxNesting` below the
outermost; a loop inside one level is bounded by the tokens that are left, since each round takes at
least one.
-/

namespace UnitIndex.TypeExpr

open UnitIndex.Text (trim numeral? limit64)

/-- Deeper nesting than this is refused. -/
def maxNesting : Nat := 64

/-- Reads something off the front of the tokens. -/
abbrev Reader (α : Type) := List Token → Option (α × List Token)

/-! ### Bracketed text -/

/-- The trimmed text that a run of tokens stands for. -/
def textOf (ts : List Token) : String := String.ofList (trim (Token.source ts))

/-- The tokens before the `)` that closes a parenthesis already read, and the tokens behind it.
`level` counts the parentheses opened since. -/
def splitClose (level : Nat) : List Token → Option (List Token × List Token)
  | [] => none
  | t :: ts =>
    match t.kind, level with
    | .rparen, 0 => some ([], ts)
    | .rparen, n + 1 => (splitClose n ts).map fun (inside, rest) => (t :: inside, rest)
    | .lparen, n => (splitClose (n + 1) ts).map fun (inside, rest) => (t :: inside, rest)
    | _, n => (splitClose n ts).map fun (inside, rest) => (t :: inside, rest)

/-- The text up to the parenthesis that closes one already read. -/
def untilClose : Reader String := fun ts =>
  (splitClose 0 ts).map fun (inside, rest) => (textOf inside, rest)

/-- The text between a pair of parentheses. -/
def parenthesized : Reader String
  | t :: ts => if t.kind = .lparen then untilClose ts else none
  | [] => none

/-- Template arguments up to the closing `>`. Commas and `>` count only outside nested brackets, and
an empty text before the closing `>` is no argument. `arg` holds the tokens of the argument that is
being read, last first. -/
def templateArgs (angles parens : Nat) (arg : List Token) : Reader (List String)
  | [] => none
  | t :: ts =>
    let text := textOf arg.reverse
    match t.kind with
    | .greater =>
      if angles = 0 ∧ parens = 0 then some (if text.isEmpty then [] else [text], ts)
      else templateArgs (angles - 1) parens (t :: arg) ts
    | .comma =>
      if angles = 0 ∧ parens = 0 then
        (templateArgs 0 0 [] ts).map fun (args, rest) => (text :: args, rest)
      else templateArgs angles parens (t :: arg) ts
    | .less => templateArgs (angles + 1) parens (t :: arg) ts
    | .lparen | .lbracket => templateArgs angles (parens + 1) (t :: arg) ts
    | .rparen | .rbracket => templateArgs angles (parens - 1) (t :: arg) ts
    | _ => templateArgs angles parens (t :: arg) ts

/-- The text from an opening `<`, already read, to the next `>` or the end of the spelling. -/
def untilAngle : List Token → List Token × List Token
  | [] => ([], [])
  | t :: ts =>
    if t.kind = .greater then ([t], ts)
    else
      let (inside, rest) := untilAngle ts
      (t :: inside, rest)

/-! ### Qualified names -/

/-- The components of a qualified name. `rounds` bounds the components and keywords read; template
arguments are read only where `nestable` allows one more level. -/
def path (nestable : Bool) : Nat → Reader (List PathSegment)
  | 0 => fun _ => none
  | rounds + 1 => fun ts => do
    let t :: ts := ts | none
    guard (t.kind = .ident)
    if t.word = "typename" ∨ t.word = "template" then path nestable rounds ts
    else
      let (args, ts) ←
        match ts with
        | open_ :: inside =>
          if open_.kind = .less then
            if nestable then (templateArgs 0 0 [] inside).map fun (args, rest) => (some args, rest)
            else none
          else some (none, ts)
        | [] => some (none, ts)
      let segment : PathSegment := ⟨t.word, args⟩
      match ts with
      | sep :: next :: rest =>
        if sep.kind = .colonColon ∧ next.kind = .ident then
          let (more, rest) ← path nestable rounds (next :: rest)
          some (segment :: more, rest)
        else some ([segment], ts)
      | _ => some ([segment], ts)

/-- A qualified name up to the first token that cannot continue it. -/
def qualifiedPath (nestable : Bool) : Reader (List PathSegment) := fun ts =>
  path nestable ts.length ts

/-! ### Declaration specifiers -/

/-- Words that name types of the language. -/
def builtinWords : List String :=
  ["void", "bool", "_Bool", "char", "wchar_t", "char8_t", "char16_t", "char32_t", "short", "int",
    "long", "signed", "unsigned", "float", "double", "__int128", "__int128_t", "__uint128_t",
    "_Complex", "__fp16", "_Float16", "__bf16", "_Float128", "__float128", "auto", "nullptr_t",
    "__builtin_va_list", "_Float32", "_Float64"]

/-- Words that take an operand in parentheses and stand for a type with no name. -/
def operandWords : List String :=
  ["decltype", "typeof", "__typeof__", "_Atomic", "__underlying_type"]

/-- What the specifiers read so far have said. -/
structure Specifiers where
  quals : Qualifiers := {}
  tag : Option Tag := none
  /-- Words of the language, in source order. -/
  words : List String := []
  base : Option TypeBase := none

namespace Specifiers

/-- Whether nothing yet names the type. -/
def isOpen (s : Specifiers) : Bool := s.base.isNone && s.words.isEmpty

/-- What the specifiers name, when they name anything. -/
def result? (s : Specifiers) : Option (TypeBase × Qualifiers) :=
  match s.base with
  | some base => some (base, s.quals)
  | none => if s.words.isEmpty then none else some (.builtin (" ".intercalate s.words), s.quals)

end Specifiers

/-- Whether the tokens behind an opening parenthesis announce an unnamed entity. -/
def announcesAnonymous : List Token → Bool
  | t :: _ => t.kind = .ident ∧ (t.word = "anonymous" ∨ t.word = "unnamed" ∨ t.word = "lambda")
  | [] => false

/-- The specifiers extended by a qualified name. -/
def withPath (nestable : Bool) (s : Specifiers) : Reader Specifiers := fun ts => do
  let (path, ts) ← qualifiedPath nestable ts
  some ({ s with base := some (.named s.tag path) }, ts)

/-- One identifier among the specifiers: `none` when the spelling is refused, and `some none` when
the identifier does not belong to them. -/
def specifierWord (nestable : Bool) (s : Specifiers) (t : Token) (ts : List Token) :
    Option (Option (Specifiers × List Token)) :=
  match s.quals.absorb? t.word with
  | some quals => some (some ({ s with quals := quals }, ts))
  | none =>
  match Tag.ofKeyword? t.word with
  | some tag => some (some ({ s with tag := some tag }, ts))
  | none =>
  if t.word ∈ operandWords then do
    let (inner, ts) ← parenthesized ts
    some (some ({ s with base := some (.verbatim (t.word ++ "(" ++ inner ++ ")")) }, ts))
  else if t.word = "__attribute__" then do
    let (_, ts) ← parenthesized ts
    some (some (s, ts))
  else if t.word ∈ builtinWords ∧ s.base.isNone then
    some (some ({ s with words := s.words ++ [t.word] }, ts))
  else if s.isOpen then do some (some (← withPath nestable s (t :: ts)))
  else some none

/-- One specifier that is no identifier, in the same terms. -/
def specifierMark (nestable : Bool) (s : Specifiers) (t : Token) (ts : List Token) :
    Option (Option (Specifiers × List Token)) :=
  match t.kind with
  | .colonColon => if s.isOpen then do some (some (← withPath nestable s ts)) else some none
  | .templateParm =>
    if s.base.isNone then some (some ({ s with base := some (.templateParm t.word) }, ts))
    else some none
  | .lparen =>
    if s.isOpen ∧ announcesAnonymous ts then do
      let (inner, ts) ← untilClose ts
      let text := "(" ++ inner ++ ")"
      match ts with
      | sep :: rest =>
        if sep.kind = .colonColon then
          -- `(anonymous namespace)::X` goes on as a qualified name
          let (path, rest) ← qualifiedPath nestable rest
          some (some ({ s with base := some (.named s.tag (⟨text, none⟩ :: path)) }, rest))
        else some (some ({ s with base := some (.anonymous s.tag text) }, ts))
      | [] => some (some ({ s with base := some (.anonymous s.tag text) }, []))
    else some none
  | .less =>
    if s.isOpen then
      let (inside, rest) := untilAngle ts
      let text := String.ofList (t.text ++ Token.source inside)
      some (some ({ s with base := some (.verbatim text) }, rest))
    else some none
  | _ => some none

/-- Specifiers until a token that does not belong to them, at most `rounds` of them. -/
def specifiersFrom (nestable : Bool) : Nat → Specifiers → Reader Specifiers
  | 0, s => fun ts => some (s, ts)
  | rounds + 1, s => fun ts =>
    match ts with
    | [] => some (s, [])
    | t :: rest => do
      let next ←
        if t.kind = .ident then specifierWord nestable s t rest else specifierMark nestable s t rest
      match next with
      | none => some (s, t :: rest)
      | some (s, rest) => specifiersFrom nestable rounds s rest

/-- The declaration specifiers at the front: what they name, and its qualifiers. -/
def specifiers (nestable : Bool) : Reader (TypeBase × Qualifiers) := fun ts => do
  let (s, ts) ← specifiersFrom nestable ts.length {} ts
  some (← s.result?, ts)

/-! ### Declarators -/

/-- Qualifier words at the front. -/
def qualifierWords (q : Qualifiers) : List Token → Qualifiers × List Token
  | [] => (q, [])
  | t :: ts =>
    if t.kind = .ident then
      match q.absorb? t.word with
      | some q => qualifierWords q ts
      | none => (q, t :: ts)
    else (q, t :: ts)

/-- Pointer and reference operations at the front, at most `rounds` of them. -/
def pointers : Nat → List Token → List TypeOp × List Token
  | 0, ts => ([], ts)
  | _ + 1, [] => ([], [])
  | rounds + 1, t :: ts =>
    match t.kind with
    | .star | .caret =>
      let (quals, ts) := qualifierWords {} ts
      let (ops, ts) := pointers rounds ts
      (.pointer quals :: ops, ts)
    | .amp =>
      let (ops, ts) := pointers rounds ts
      (.lvalueRef :: ops, ts)
    | .ampAmp =>
      let (ops, ts) := pointers rounds ts
      (.rvalueRef :: ops, ts)
    | _ => ([], t :: ts)

/-- Whether the token begins a declarator that is grouped by parentheses. -/
def startsPointer : List Token → Bool
  | t :: _ => t.kind = .star ∨ t.kind = .caret ∨ t.kind = .amp ∨ t.kind = .ampAmp
  | [] => false

/-- The tokens behind the next `]`. -/
def afterBracket : List Token → Option (List Token)
  | [] => none
  | t :: ts => if t.kind = .rbracket then some ts else afterBracket ts

/-- An array bound behind its `[`: a number that fits 64 bits, or nothing that counts as one. -/
def arraySuffix : Reader TypeOp := fun ts => do
  let size :=
    match ts with
    | t :: _ => if t.kind = .number then numeral? 10 limit64 t.text else none
    | [] => none
  some (.array size, ← afterBracket ts)

/-- Qualifiers, reference marks and exception specifications behind a parameter list. -/
def functionTail : Nat → List Token → Option (List Token)
  | 0, ts => some ts
  | _ + 1, [] => some []
  | rounds + 1, t :: ts =>
    if t.word = "const" ∨ t.word = "volatile" ∨ t.word = "&" ∨ t.word = "&&" then
      functionTail rounds ts
    else if t.word = "noexcept" ∨ t.word = "__attribute__" then
      match ts with
      | open_ :: inside =>
        if open_.kind = .lparen then do
          let (_, ts) ← untilClose inside
          functionTail rounds ts
        else functionTail rounds ts
      | [] => some []
    else some (t :: ts)

/-- Parameters and ellipses up to the closing parenthesis, at least one of them. -/
def parametersFrom (one : Reader TypeExpr) : Nat → Reader (List TypeExpr × Bool)
  | 0 => fun _ => none
  | rounds + 1 => fun ts => do
    let (params, variadic, ts) ←
      match ts with
      | t :: rest =>
        if t.kind = .ellipsis then some ([], true, rest)
        else (one ts).map fun (p, rest) => ([p], false, rest)
      | [] => none
    match ts with
    | t :: rest =>
      match t.kind with
      | .comma =>
        let ((more, dots), rest) ← parametersFrom one rounds rest
        some ((params ++ more, variadic || dots), rest)
      | .rparen => some ((params, variadic), rest)
      | _ => none
    | [] => none

/-- Whether the parameters are the one word `void`, which spells an empty list. -/
def isVoidList : List TypeExpr → Bool
  | [p] => p.ops.isEmpty && p.base == .builtin "void"
  | _ => false

/-- A parameter list behind its opening parenthesis, with what may follow its closing one. -/
def parameters (one : Reader TypeExpr) : Reader TypeOp := fun ts => do
  let ((params, variadic), ts) ←
    match ts with
    | t :: rest =>
      if t.kind = .rparen then some (([], false), rest) else parametersFrom one ts.length ts
    | [] => none
  let ts ← functionTail ts.length ts
  some (.function (if isVoidList params then [] else params) variadic, ts)

/-- Array bounds and parameter lists at the front, in source order. -/
def suffixes (one : Reader TypeExpr) : Nat → Reader (List TypeOp)
  | 0 => fun ts => some ([], ts)
  | rounds + 1 => fun ts =>
    match ts with
    | [] => some ([], [])
    | t :: rest =>
      match t.kind with
      | .lbracket => do
        let (op, rest) ← arraySuffix rest
        let (ops, rest) ← suffixes one rounds rest
        some (op :: ops, rest)
      | .lparen => do
        let (op, rest) ← parameters one rest
        let (ops, rest) ← suffixes one rounds rest
        some (op :: ops, rest)
      | _ => some ([], t :: rest)

mutual

/-- A type with `levels` levels of nesting allowed, its own included. -/
def typeWithin : Nat → Reader TypeExpr
  | 0 => fun _ => none
  | levels + 1 => fun ts => do
    let ((base, quals), ts) ← specifiers (levels ≠ 0) ts
    let (ops, ts) ← declaratorWithin levels ts
    some (⟨base, quals, ops⟩, ts)

/-- An abstract declarator with `levels` levels of nesting allowed, its own included: its operations
in the order in which they apply. -/
def declaratorWithin : Nat → Reader (List TypeOp)
  | 0 => fun _ => none
  | levels + 1 => fun ts => do
    let (prefixes, ts) := pointers ts.length ts
    let (nested, ts) ←
      match ts with
      | open_ :: inside =>
        if open_.kind = .lparen ∧ startsPointer inside then do
          let (nested, rest) ← declaratorWithin levels inside
          let close :: rest := rest | none
          guard (close.kind = .rparen)
          some (nested, rest)
        else some ([], ts)
      | [] => some ([], ts)
    let one := match levels with
      | 0 => fun _ => none
      | deeper + 1 => typeWithin deeper
    let (suffixes, ts) ← suffixes one ts.length ts
    some (prefixes ++ suffixes.reverse ++ nested, ts)

end

/-- The type that a whole spelling names; `none` for spellings outside the grammar. -/
def parse? (spelling : String) : Option TypeExpr := do
  let (type, rest) ← typeWithin (maxNesting + 1) (Token.lex spelling)
  guard rest.isEmpty
  some type

end UnitIndex.TypeExpr
