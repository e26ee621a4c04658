import UnitIndex.Spelling.Parser

/-!
Reading type spellings with a cursor, every step checked.

`TypeExpr.parse?` hands the tokens that are left from one reader to the next. Here a spelling is
read as it is in place: a cursor moves along its tokens, texts are cut out of the spelling at the
bytes where tokens start and stop, what is read goes into accumulators, and loops go round as long
as their rounds say so. Nothing is taken for granted. A step that would do what must never happen
ends the reading with a `Fault`, whereas a spelling outside the grammar is refused.
-/

namespace UnitIndex.TypeExpr.Checked

open UnitIndex.Text (trim numeral? limit64)
open UnitIndex.Token (bytes)

/-- What must never happen. -/
inductive Fault where
  /-- A text is cut out that ends before it starts, reaches beyond the spelling, or begins or ends
  inside a character. -/
  | badSlice (start stop : Nat)
  /-- Less than nothing is counted. -/
  | underflow
  /-- The cursor is moved behind the last token. -/
  | pastEnd
  /-- A loop goes on after a round in which no token has been taken. -/
  | stalled
  /-- Calls are nested too deep. -/
  | tooDeep
  deriving DecidableEq, Repr

/-- Why a reading ends early. -/
inductive Stop where
  /-- The spelling is outside the grammar. -/
  | refused
  | fault (f : Fault)
  deriving DecidableEq, Repr

/-- What stays the same while a spelling is read, but for the depth of the calls. -/
structure Context where
  text : List Char
  /-- The tokens with the bytes at which they start and stop. -/
  tokens : List (Token × Nat × Nat)
  /-- How many calls the present one is nested in. -/
  calls : Nat := 0

/-- A step of the reading; the state is the number of tokens in front of the cursor. -/
abbrev Scan := ReaderT Context (StateT Nat (Except Stop))

/-! ### Bytes -/

/-- A text cut in two behind so many bytes, if a character ends there. -/
def splitBytes? : Nat → List Char → Option (List Char × List Char)
  | 0, cs => some ([], cs)
  | _ + 1, [] => none
  | n + 1, c :: cs =>
    if c.utf8Size ≤ n + 1 then
      (splitBytes? (n + 1 - c.utf8Size) cs).map fun (front, back) => (c :: front, back)
    else none

/-- The text from one byte to another. -/
def slice? (text : List Char) (start stop : Nat) : Option (List Char) :=
  if start ≤ stop then do
    let (_, back) ← splitBytes? start text
    let (middle, _) ← splitBytes? (stop - start) back
    some middle
  else none

/-! ### Steps -/

/-- The spelling is outside the grammar. -/
def refuse {α : Type} : Scan α := throw .refused

/-- What must never happen has happened. -/
def fail {α : Type} (f : Fault) : Scan α := throw (.fault f)

/-- Calls are nested no deeper than this: beyond the levels of nesting there are the call that
refuses one more level and, below the last of them, those that read one specifier. -/
def maxCalls : Nat := maxNesting + 4

/-- A call. -/
def call {α : Type} (x : Scan α) : Scan α := do
  if (← read).calls < maxCalls then
    withReader (fun ctx => { ctx with calls := ctx.calls + 1 }) x
  else fail .tooDeep

/-- The token that stands so many places behind the next one. -/
def ahead? (n : Nat) : Scan (Option Token) := do
  return ((← read).tokens[(← get) + n]?).map (·.1)

/-- The kind of that token. -/
def kindAhead? (n : Nat) : Scan (Option TokenKind) := return (← ahead? n).map (·.kind)

/-- Move behind the next token. -/
def advance : Scan Unit := do
  if (← get) < (← read).tokens.length then modify (· + 1) else fail .pastEnd

/-- Take the next token, if there is one. -/
def take? : Scan (Option Token) := do
  let some t ← ahead? 0 | return none
  advance
  return some t

/-- Take the next token. -/
def take : Scan Token := do
  let some t ← take? | refuse
  return t

/-- Take the next token if it is of that kind. -/
def eat (kind : TokenKind) : Scan Bool := do
  if (← kindAhead? 0) = some kind then
    advance
    return true
  else return false

/-- Where the next token starts. -/
def nextStart : Scan Nat := do
  match (← read).tokens[← get]? with
  | some (_, start, _) => return start
  | none => return bytes (← read).text

/-- Where the last token stops. -/
def lastStop : Scan Nat := do
  match (← get) with
  | 0 => return 0
  | place + 1 =>
    match (← read).tokens[place]? with
    | some (_, _, stop) => return stop
    | none => return 0

/-- Cut out the text between two bytes. -/
def cut (start stop : Nat) : Scan (List Char) := do
  match slice? (← read).text start stop with
  | some cs => return cs
  | none => fail (.badSlice start stop)

/-- One less. -/
def decrement (n : Nat) : Scan Nat :=
  match n with
  | 0 => fail .underflow
  | n + 1 => return n

/-- How a round of a loop ends. -/
inductive Round (σ α : Type) where
  | again (s : σ)
  | last (a : α)

/-- Rounds, until one is the last. A round that is not has to take a token. -/
def loop {σ α : Type} (round : σ → Scan (Round σ α)) (s : σ) (ctx : Context) (place : Nat) :
    Except Stop (α × Nat) :=
  match round s ctx place with
  | .error e => .error e
  | .ok (.last a, place') => .ok (a, place')
  | .ok (.again s', place') =>
    if place < place' ∧ place' ≤ ctx.tokens.length then loop round s' ctx place'
    else .error (.fault .stalled)
termination_by ctx.tokens.length - place

/-! ### Bracketed text -/

/-- The trimmed text up to the parenthesis that closes one already read. -/
def untilClose : Scan String := call do
  let start ← lastStop
  loop (fun level => do
    let stop ← nextStart
    let t ← take
    match t.kind with
    | .lparen => return .again (level + 1)
    | .rparen =>
      if level = 0 then return .last (String.ofList (trim (← cut start stop)))
      else return .again (← decrement level)
    | _ => return .again level) 0

/-- The text between a pair of parentheses. -/
def parenthesized : Scan String := call do
  if ← eat .lparen then untilClose else refuse

/-- Where the reading of template arguments is. -/
structure Arguments where
  args : List String := []
  /-- Where the argument that is being read starts. -/
  start : Nat
  angles : Nat := 0
  parens : Nat := 0

/-- Template arguments up to the closing `>`. -/
def templateArgs (depth : Nat) : Scan (List String) := call do
  if depth > maxNesting then refuse
  else
    loop (fun (s : Arguments) => do
      let stop ← nextStart
      let t ← take
      match t.kind with
      | .greater =>
        if s.angles = 0 ∧ s.parens = 0 then
          let arg := trim (← cut s.start stop)
          return .last (if arg.isEmpty then s.args else s.args ++ [String.ofList arg])
        else return .again { s with angles := s.angles - 1 }
      | .comma =>
        if s.angles = 0 ∧ s.parens = 0 then
          let arg := trim (← cut s.start stop)
          return .again { s with args := s.args ++ [String.ofList arg], start := ← nextStart }
        else return .again s
      | .less => return .again { s with angles := s.angles + 1 }
      | .lparen | .lbracket => return .again { s with parens := s.parens + 1 }
      | .rparen | .rbracket => return .again { s with parens := s.parens - 1 }
      | _ => return .again s) { start := ← nextStart }

/-! ### Qualified names -/

/-- Template arguments, if a `<` is next. -/
def templateArgs? (depth : Nat) : Scan (Option (List String)) := do
  if ← eat .less then return some (← templateArgs (depth + 1)) else return none

/-- A qualified name up to the first token that cannot continue it. -/
def path (depth : Nat) : Scan (List PathSegment) := call do
  loop (fun segments => do
    let t ← take
    if t.kind ≠ .ident then refuse
    else if t.word = "typename" ∨ t.word = "template" then return .again segments
    else
      let args ← templateArgs? depth
      let segments := segments ++ [⟨t.word, args⟩]
      if (← kindAhead? 0) = some .colonColon ∧ (← kindAhead? 1) = some .ident then
        advance
        return .again segments
      else return .last segments) []

/-! ### Declaration specifiers -/

/-- The specifiers extended by a qualified name. -/
def withPath (depth : Nat) (s : Specifiers) : Scan (Round Specifiers Specifiers) := do
  return .again { s with base := some (.named s.tag (← path depth)) }

/-- A round of the specifiers at an identifier. -/
def wordRound (depth : Nat) (s : Specifiers) (word : String) :
    Scan (Round Specifiers Specifiers) := do
  match s.quals.absorb? word with
  | some quals =>
    advance
    return .again { s with quals := quals }
  | none =>
  match Tag.ofKeyword? word with
  | some tag =>
    advance
    return .again { s with tag := some tag }
  | none =>
  if word ∈ operandWords then
    advance
    let inner ← parenthesized
    return .again { s with base := some (.verbatim (word ++ "(" ++ inner ++ ")")) }
  else if word = "__attribute__" then
    advance
    let _ ← parenthesized
    return .again s
  else if word ∈ builtinWords ∧ s.base.isNone then
    advance
    return .again { s with words := s.words ++ [word] }
  else if s.isOpen then withPath depth s
  else return .last s

/-- Whether an unnamed entity is announced behind the next token. -/
def anonymousAhead : Scan Bool := do
  let some t ← ahead? 1 | return false
  return t.kind = .ident ∧ (t.word = "anonymous" ∨ t.word = "unnamed" ∨ t.word = "lambda")

/-- A round of the specifiers at an opening parenthesis that announces an unnamed entity. -/
def anonymousRound (depth : Nat) (s : Specifiers) : Scan (Round Specifiers Specifiers) := do
  advance
  let inner ← untilClose
  let text := "(" ++ inner ++ ")"
  if ← eat .colonColon then
    let path ← path depth
    return .again { s with base := some (.named s.tag (⟨text, none⟩ :: path)) }
  else return .again { s with base := some (.anonymous s.tag text) }

/-- Pass everything up to the next `>`, or all that is left. -/
def passAngle : Scan Unit :=
  loop (fun _ => do
    match ← take? with
    | some t => if t.kind = .greater then return .last () else return .again ()
    | none => return .last ()) ()

/-- A round of the specifiers at an opening `<`. -/
def angleRound (s : Specifiers) : Scan (Round Specifiers Specifiers) := do
  let start ← nextStart
  passAngle
  let text ← cut start (← lastStop)
  return .again { s with base := some (.verbatim (String.ofList text)) }

/-- A round of the specifiers at a token. -/
def specifierRound (depth : Nat) (s : Specifiers) : Scan (Round Specifiers Specifiers) := do
  let some t ← ahead? 0 | return .last s
  match t.kind with
  | .ident => wordRound depth s t.word
  | .colonColon =>
    if s.isOpen then
      advance
      withPath depth s
    else return .last s
  | .templateParm =>
    if s.base.isNone then
      advance
      return .again { s with base := some (.templateParm t.word) }
    else return .last s
  | .lparen => if s.isOpen ∧ (← anonymousAhead) then anonymousRound depth s else return .last s
  | .less => if s.isOpen then angleRound s else return .last s
  | _ => return .last s

/-- The declaration specifiers: what they name, and its qualifiers. -/
def specifiers (depth : Nat) : Scan (TypeBase × Qualifiers) := call do
  let s : Specifiers ← loop (specifierRound depth) {}
  let some result := s.result? | refuse
  return result

/-! ### Declarators -/

/-- Qualifier words. -/
def qualifierWords : Scan Qualifiers :=
  loop (fun quals => do
    let some t ← ahead? 0 | return .last quals
    if t.kind = .ident then
      match (quals : Qualifiers).absorb? t.word with
      | some quals =>
        advance
        return .again quals
      | none => return .last quals
    else return .last quals) {}

/-- Pointer and reference operations. -/
def pointers : Scan (List TypeOp) :=
  loop (fun ops => do
    match ← kindAhead? 0 with
    | some .star | some .caret =>
      advance
      return .again (ops ++ [.pointer (← qualifierWords)])
    | some .amp =>
      advance
      return .again (ops ++ [.lvalueRef])
    | some .ampAmp =>
      advance
      return .again (ops ++ [.rvalueRef])
    | _ => return .last ops) []

/-- Whether a declarator that is grouped by parentheses is next. -/
def groupAhead : Scan Bool := do
  if (← kindAhead? 0) = some .lparen then
    match ← kindAhead? 1 with
    | some .star | some .caret | some .amp | some .ampAmp => return true
    | _ => return false
  else return false

/-- A number that fits 64 bits, if a number is next. -/
def arraySize : Scan (Option Nat) := do
  let some t ← ahead? 0 | return none
  if t.kind = .number then
    advance
    return numeral? 10 limit64 t.text
  else return none

/-- Pass everything up to the next `]`. -/
def passBracket : Scan Unit :=
  loop (fun _ => do
    if ← eat .rbracket then return .last ()
    else
      let _ ← take
      return .again ()) ()

/-- An array bound behind its `[`. -/
def arraySuffix : Scan TypeOp := do
  let size ← arraySize
  passBracket
  return .array size

/-- Qualifiers, reference marks and exception specifications behind a parameter list. -/
def functionTail : Scan Unit :=
  loop (fun _ => do
    let some t ← ahead? 0 | return .last ()
    if t.word = "const" ∨ t.word = "volatile" ∨ t.word = "&" ∨ t.word = "&&" then
      advance
      return .again ()
    else if t.word = "noexcept" ∨ t.word = "__attribute__" then
      advance
      if (← kindAhead? 0) = some .lparen then
        let _ ← parenthesized
      return .again ()
    else return .last ()) ()

/-- Parameters, and whether there was an ellipsis, with one more parameter or an ellipsis. -/
def withParameter (one : Scan TypeExpr) (list : List TypeExpr × Bool) :
    Scan (List TypeExpr × Bool) := do
  if ← eat .ellipsis then return (list.1, true) else return (list.1 ++ [← one], list.2)

/-- Behind a parameter or an ellipsis there is another one or the closing parenthesis. -/
def behindParameter (list : List TypeExpr × Bool) :
    Scan (Round (List TypeExpr × Bool) (List TypeExpr × Bool)) := do
  if ← eat .comma then return .again list
  else if ← eat .rparen then return .last list
  else refuse

/-- Parameters and ellipses up to the closing parenthesis, at least one of them. -/
def parametersFrom (one : Scan TypeExpr) : Scan (List TypeExpr × Bool) :=
  loop (fun list => do behindParameter (← withParameter one list)) ([], false)

/-- Parameters and ellipses up to the closing parenthesis, if there are any. -/
def parametersUntilClose (one : Scan TypeExpr) : Scan (List TypeExpr × Bool) := do
  if ← eat .rparen then return ([], false) else parametersFrom one

/-- A parameter list behind its opening parenthesis, with what may follow its closing one. -/
def parameters (one : Scan TypeExpr) : Scan TypeOp := call do
  let (params, variadic) ← parametersUntilClose one
  functionTail
  return .function (if isVoidList params then [] else params) variadic

/-- Array bounds and parameter lists. -/
def suffixes (list : Scan TypeOp) : Scan (List TypeOp) :=
  loop (fun ops => do
    match ← kindAhead? 0 with
    | some .lbracket =>
      advance
      return .again (ops ++ [← arraySuffix])
    | some .lparen =>
      advance
      return .again (ops ++ [← list])
    | _ => return .last ops) []

/-- A declarator that is grouped by parentheses, if one is next. -/
def grouped (inner : Scan (List TypeOp)) : Scan (List TypeOp) := do
  if ← groupAhead then
    advance
    let nested ← inner
    if ← eat .rparen then return nested else refuse
  else return []

mutual

/-- A type at that depth. -/
def typeAt (depth : Nat) : Scan TypeExpr := call do
  if _h : depth > maxNesting then refuse
  else
    let (base, quals) ← specifiers depth
    let ops ← declaratorAt (depth + 1)
    return ⟨base, quals, ops⟩
termination_by (maxNesting + 2 - depth, 0)
decreasing_by
  exact Prod.Lex.left _ _ (by omega)

/-- An abstract declarator at that depth: its operations in the order in which they apply. -/
def declaratorAt (depth : Nat) : Scan (List TypeOp) := call do
  if _h : depth > maxNesting then refuse
  else
    let prefixes ← pointers
    let nested ← grouped (declaratorAt (depth + 1))
    let suffixes ← suffixes (parametersAt (depth + 1))
    return prefixes ++ suffixes.reverse ++ nested
termination_by (maxNesting + 2 - depth, 0)
decreasing_by
  all_goals exact Prod.Lex.left _ _ (by omega)

/-- A parameter list at that depth. -/
def parametersAt (depth : Nat) : Scan TypeOp := parameters (typeAt (depth + 1))
termination_by (maxNesting + 2 - depth, 1)
decreasing_by
  rcases Nat.lt_or_ge depth (maxNesting + 2) with h | h
  · exact Prod.Lex.left _ _ (by omega)
  · rw [show maxNesting + 2 - (depth + 1) = maxNesting + 2 - depth by omega]
    exact Prod.Lex.right _ (by omega)

end

/-- A spelling and its tokens, before anything has been read. -/
def contextOf (spelling : String) : Context :=
  { text := spelling.toList, tokens := Token.spans 0 (Token.lex spelling) }

/-- What is said of a spelling of so many tokens once a type has been read off its front. -/
def verdict (tokens : Nat) : Except Stop (TypeExpr × Nat) → Except Fault (Option TypeExpr)
  | .ok (type, place) => .ok (if tokens ≤ place then some type else none)
  | .error .refused => .ok none
  | .error (.fault f) => .error f

/-- The type that a whole spelling names, if it names one, or what has gone wrong. -/
def parse? (spelling : String) : Except Fault (Option TypeExpr) :=
  let ctx := contextOf spelling
  verdict ctx.tokens.length (typeAt 0 ctx 0)

end UnitIndex.TypeExpr.Checked
