/-!
Tokens of type spellings.

A spelling is cut into tokens by longest match: at each place the rule that takes the most
characters wins, blanks between tokens are skipped, and a character that no rule takes is a token of
its own. `lex` returns the tokens in order, each with the blanks in front of it, so the spelling is
the concatenation of what they hold and of the blanks at the end (`source_lex`).
-/

namespace UnitIndex

/-- What a token is. -/
inductive TokenKind where
  /-- A canonical template parameter, `type-parameter-0-1`. -/
  | templateParm
  | ident
  | number
  | colonColon
  | colon
  | less
  | greater
  | lparen
  | rparen
  | lbracket
  | rbracket
  | star
  | ampAmp
  | amp
  | caret
  | comma
  | ellipsis
  /-- A character that the grammar has no use for. -/
  | unknown
  deriving DecidableEq, Repr

/-- A token and the blanks that stand in front of it. -/
structure Token where
  gap : List Char
  kind : TokenKind
  text : List Char
  deriving DecidableEq, Repr

namespace Token

/-! ### Character classes -/

/-- The blanks that may stand between tokens: space, tab, line feed, carriage return, form feed. -/
def isGap (c : Char) : Bool :=
  c == ' ' || c == '\t' || c == '\n' || c == '\r' || c == '\x0c'

/-- Letters that may begin an identifier. -/
def isIdentStart (c : Char) : Bool := c.isAlpha || c == '_' || c == '$'

/-- Characters that continue an identifier. -/
def isIdentRest (c : Char) : Bool := isIdentStart c || c.isDigit

/-- Characters that continue a number: digits, letters, and the marks `_`, `.` and the quote. -/
def isNumberRest (c : Char) : Bool := c.isAlphanum || c == '_' || c == '.' || c == '\''

/-! ### Longest match -/

/-- The text with `mark` taken off its front. -/
def after? (mark : List Char) (cs : List Char) : Option (List Char) :=
  match mark, cs with
  | [], cs => some cs
  | _ :: _, [] => none
  | m :: ms, c :: cs => if m = c then after? ms cs else none

/-- How many characters at the front of `cs` spell a canonical template parameter: the mark
`type-parameter-`, digits, a dash, digits. -/
def templateParmLength? (cs : List Char) : Option Nat := do
  let mark := "type-parameter-".toList
  let cs ← after? mark cs
  let depth := cs.takeWhile Char.isDigit
  let cs ← after? ['-'] (cs.dropWhile Char.isDigit)
  let index := cs.takeWhile Char.isDigit
  if depth.isEmpty || index.isEmpty then none
  else some (mark.length + depth.length + 1 + index.length)

/-- The kind of the longest token at `c :: cs` and how many characters of `cs` it takes. -/
def munch (c : Char) (cs : List Char) : TokenKind × Nat :=
  if isIdentStart c then
    match templateParmLength? (c :: cs) with
    | some n => (.templateParm, n - 1)
    | none => (.ident, (cs.takeWhile isIdentRest).length)
  else if c.isDigit then (.number, (cs.takeWhile isNumberRest).length)
  else
    match c, cs with
    | ':', ':' :: _ => (.colonColon, 1)
    | ':', _ => (.colon, 0)
    | '<', _ => (.less, 0)
    | '>', _ => (.greater, 0)
    | '(', _ => (.lparen, 0)
    | ')', _ => (.rparen, 0)
    | '[', _ => (.lbracket, 0)
    | ']', _ => (.rbracket, 0)
    | '*', _ => (.star, 0)
    | '&', '&' :: _ => (.ampAmp, 1)
    | '&', _ => (.amp, 0)
    | '^', _ => (.caret, 0)
    | ',', _ => (.comma, 0)
    | '.', '.' :: '.' :: _ => (.ellipsis, 2)
    | _, _ => (.unknown, 0)

/-- The tokens of a text; `gap` holds the blanks passed since the last token. -/
def lexFrom (gap : List Char) (cs : List Char) : List Token :=
  match cs with
  | [] => []
  | c :: rest =>
    if isGap c then lexFrom (gap ++ [c]) rest
    else
      let (kind, n) := munch c rest
      ⟨gap, kind, c :: rest.take n⟩ :: lexFrom [] (rest.drop n)
  termination_by cs.length
  decreasing_by
    · exact Nat.lt_succ_self _
    · exact Nat.lt_succ_of_le (by rw [List.length_drop]; exact Nat.sub_le ..)

/-- The tokens of a spelling. -/
def lex (spelling : String) : List Token := lexFrom [] spelling.toList

/-! ### The text that tokens stand for -/

/-- The text of a run of tokens with the blanks in front of each. -/
def source (ts : List Token) : List Char := ts.flatMap fun t => t.gap ++ t.text

/-- The text of the token as a string. -/
def word (t : Token) : String := String.ofList t.text

/-- The number of bytes in a text. -/
def bytes : List Char → Nat
  | [] => 0
  | c :: cs => c.utf8Size + bytes cs

/-- Each token with the byte offsets of its first and one-past-last character in the spelling. -/
def spans (at_ : Nat) : List Token → List (Token × Nat × Nat)
  | [] => []
  | t :: ts =>
    let start := at_ + bytes t.gap
    let stop := start + bytes t.text
    (t, start, stop) :: spans stop ts

theorem source_nil : source [] = [] := rfl

/-- The source of tokens is what they hold, with the blanks in front of each. -/
theorem source_cons (t : Token) (ts : List Token) :
    source (t :: ts) = t.gap ++ t.text ++ source ts := by
  simp [source]

/-- No character is lost: the tokens, followed by blanks, are the text. -/
theorem source_lexFrom (gap cs : List Char) (h : gap.all isGap = true) :
    ∃ tail, tail.all isGap = true ∧ source (lexFrom gap cs) ++ tail = gap ++ cs := by
  fun_induction lexFrom gap cs with
  | case1 gap => exact ⟨gap, h, by simp [source]⟩
  | case2 gap c rest hc ih =>
    obtain ⟨tail, ht, hs⟩ := ih (by simp_all)
    exact ⟨tail, ht, by simp [hs]⟩
  | case3 gap c rest hc kind n hm ih =>
    obtain ⟨tail, ht, hs⟩ := ih (by simp)
    refine ⟨tail, ht, ?_⟩
    rw [source_cons, List.append_assoc, hs]
    simp [List.take_append_drop]

/-- The tokens of a spelling hold all of it but for the blanks at the end. -/
theorem source_lex (spelling : String) :
    ∃ tail, tail.all isGap = true ∧ source (lex spelling) ++ tail = spelling.toList :=
  source_lexFrom [] spelling.toList (by simp)

end Token

end UnitIndex
