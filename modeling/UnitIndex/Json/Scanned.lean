import UnitIndex.Json.Fault
import UnitIndex.Json.Value
import UnitIndex.Text.Numeral

/-!
What a one-pass reader finds in a JSON text.

A reader that decodes a text while it reads stops at the first problem in text order, whether the
text is broken there or merely says something unwanted. `Scanned` separates the two without changing
that order: it is the value as far as the text is JSON, and a `broken` value or a `stops` ending
stands where it ceases to be. Nothing follows such a place. A decoder that visits values in text
order and raises the snag of the first broken place it meets reports what a one-pass reader would.
Values and names keep the places where someone notices that they are not what is wanted.

Text that is only passed over is checked less strictly than text that is read: an unpaired surrogate
or a number beyond all doubles may be passed over (`unreadable`), and a broken place carries the
snag for either purpose.
-/

namespace UnitIndex

/-- How a sequence of items or fields comes to its end. -/
inductive Ending where
  /-- By its bracket; the place is behind that. -/
  | closed (after : Place)
  /-- The text breaks off between two items; one snag for those who read, one for those who skip. -/
  | stops (read skip : Snag)
  deriving DecidableEq, Repr

/-- The name of a field. -/
inductive FieldName where
  /-- A name and the place where someone stops who does not want it. -/
  | plain (s : String) (after : Place)
  /-- It may only be passed over. -/
  | unreadable (read : Snag)
  /-- The text breaks off where the name should stand. -/
  | broken (read skip : Snag)
  deriving DecidableEq, Repr

/-- A JSON text as far as it is one. -/
inductive Scanned where
  | null (after : Place)
  | bool (b : Bool) (after : Place)
  /-- An integer of at most 64 bits. -/
  | integer (n : Int) (after : Place)
  /-- Any other number: its text, and its value to within a few units of the last place. -/
  | real (text : String) (negative : Bool) (value : Double) (after : Place)
  | string (s : String) (after : Place)
  | array (items : List Scanned) (ending : Ending) (start : Place)
  /-- Fields in order; behind a comma there always is one, if with a broken name. -/
  | object (fields : List (FieldName × Scanned)) (ending : Ending) (start : Place)
  /-- A string or number that may only be passed over. -/
  | unreadable (read : Snag)
  | broken (read skip : Snag)
  deriving Repr

namespace Scanned

/-- The snags of the two kinds of reader, who reads and who passes over. -/
abbrev Snags := Snag × Snag

/-- The same snag for both kinds of reader. -/
def both (s : Snag) : Snags := (s, s)

/-! ### Blanks and words -/

/-- The blanks of the format. -/
def isBlank (c : Char) : Bool := c == ' ' || c == '\n' || c == '\t' || c == '\r'

/-- The text behind its leading blanks. -/
def skipBlanks (cs : List Char) : List Char := cs.dropWhile isBlank

/-- The text behind `word`. -/
def afterWord : List Char → List Char → Except Snag (List Char)
  | [], cs => .ok cs
  | _ :: _, [] => .error (.here .valueEnds [])
  | w :: ws, c :: cs => if w = c then afterWord ws cs else .error (.next .noWord (c :: cs))

/-! ### Strings -/

/-- A piece of a string: a character, or the number of a `\u` escape and the text behind that. -/
inductive Piece where
  | char (c : Char)
  | unit (n : Nat) (after : List Char)
  deriving Repr

/-- The character that a one-letter escape stands for. -/
def escaped? : Char → Option Char
  | '"' => some '"'
  | '\\' => some '\\'
  | '/' => some '/'
  | 'b' => some '\x08'
  | 'f' => some '\x0c'
  | 'n' => some '\n'
  | 'r' => some '\r'
  | 't' => some '\t'
  | _ => none

/-- The snag of digits behind `\u` that are none: four bytes of any kind make an escape, if a wrong
one. -/
def badUnit (digits : List Char) : Snag :=
  if (String.ofList digits).utf8ByteSize < 4 then .here .stringEnds []
  else ⟨.badEscape, ⟨digits, 4⟩⟩

/-- The pieces up to the closing quote and the text behind it, or the snags that come first. -/
def pieces : List Char → List Piece × Except Snags (List Char)
  | [] => ([], .error (both (.here .stringEnds [])))
  | '"' :: rest => ([], .ok rest)
  | ['\\'] => ([], .error (both (.here .stringEnds [])))
  | '\\' :: 'u' :: a :: b :: c :: d :: rest =>
    match UnitIndex.Text.digits? 16 65536 [a, b, c, d] with
    | some n =>
      let (ps, end_) := pieces rest
      (.unit n rest :: ps, end_)
    | none => ([], .error (both (badUnit (a :: b :: c :: d :: rest))))
  | '\\' :: 'u' :: rest => ([], .error (both (badUnit rest)))
  | '\\' :: e :: rest =>
    match escaped? e with
    | some c =>
      let (ps, end_) := pieces rest
      (.char c :: ps, end_)
    | none => ([], .error (both (.next .badEscape (e :: rest))))
  | c :: rest =>
    if c.toNat < 32 then
      ([], .error (.next .controlCharacter (c :: rest), .here .controlCharacter (c :: rest)))
    else
      let (ps, end_) := pieces rest
      (.char c :: ps, end_)

/-- Whether the number is the first half of a surrogate pair. -/
def isLead (n : Nat) : Bool := 0xd800 ≤ n && n ≤ 0xdbff

/-- Whether the number is the second half of a surrogate pair. -/
def isTrail (n : Nat) : Bool := 0xdc00 ≤ n && n ≤ 0xdfff

/-- The character of a surrogate pair. -/
def paired (lead trail : Nat) : Char :=
  Char.ofNat (0x10000 + (lead - 0xd800) * 0x400 + (trail - 0xdc00))

/-- The snag behind the first half of a pair when no second half follows; `otherwise` if another
escape begins there or the text ends. -/
def brokenPair (otherwise : Option Snag) : List Char → Option Snag
  | [] | ['\\'] | '\\' :: 'u' :: _ => otherwise
  | '\\' :: rest => some ⟨.brokenPair, ⟨'\\' :: rest, 2⟩⟩
  | rest => some (.next .brokenPair rest)

/-- The characters that the pieces spell, or the snag of the first unpaired half, if none of `end_`
comes before it. -/
def spell (end_ : Option Snag) : List Piece → List Char × Option Snag
  | [] => ([], end_)
  | .char c :: rest =>
    let (cs, snag) := spell end_ rest
    (c :: cs, snag)
  | .unit n after :: rest =>
    if isLead n then
      match rest with
      | .unit m after' :: rest' =>
        if isTrail m then
          let (cs, snag) := spell end_ rest'
          (paired n m :: cs, snag)
        else ([], some (.here .loneSurrogate after'))
      | _ => ([], brokenPair end_ after)
    else if isTrail n then ([], some (.here .loneSurrogate after))
    else
      let (cs, snag) := spell end_ rest
      (Char.ofNat n :: cs, snag)

/-- A string found behind its opening quote. -/
inductive FoundString where
  | whole (s : String)
  /-- It holds an unpaired surrogate. -/
  | unpaired (read : Snag)
  deriving Repr

/-- The string behind an opening quote and the text behind its closing one. -/
def string? (cs : List Char) : Except Snags (FoundString × List Char) :=
  let (ps, end_) := pieces cs
  match end_ with
  | .ok rest =>
    match spell none ps with
    | (s, none) => .ok (.whole (String.ofList s), rest)
    | (_, some snag) => .ok (.unpaired snag, rest)
  | .error (read, skip) => .error (((spell (some read) ps).2).getD read, skip)

/-! ### Numbers -/

/-- The parts of a number as it is written. -/
structure Numeral where
  negative : Bool
  whole : List Char
  fraction : List Char
  /-- Whether there is an exponent and it has a minus, its digits and all text from them on. -/
  exponent : Option (Bool × List Char × List Char)
  deriving Repr

/-- One or more digits; the snags of digits that are missing where the text ends and elsewhere. -/
def someDigits (ended other : List Char → Snags) (cs : List Char) :
    Except Snags (List Char × List Char) :=
  let digits := cs.takeWhile Char.isDigit
  if digits.isEmpty then .error (if cs.isEmpty then ended cs else other cs)
  else .ok (digits, cs.dropWhile Char.isDigit)

/-- Digits with no superfluous zero in front. -/
def wholeDigits (cs : List Char) : Except Snags (List Char × List Char) := do
  let (digits, rest) ← someDigits
    (fun cs => (.here .valueEnds cs, .here .badNumber cs)) (both ∘ .next .badNumber) cs
  match cs with
  | '0' :: behind => if digits.length > 1 then throw (both (.next .badNumber behind))
  | _ => pure ()
  return (digits, rest)

/-- The digits behind a decimal point, if there is one. -/
def fractionDigits (cs : List Char) : Except Snags (List Char × List Char) :=
  match cs with
  | '.' :: rest =>
    someDigits (fun cs => (.here .valueEnds cs, .here .badNumber cs)) (both ∘ .next .badNumber) rest
  | _ => .ok ([], cs)

/-- The exponent, if there is one. -/
def exponentPart (cs : List Char) :
    Except Snags (Option (Bool × List Char × List Char) × List Char) := do
  let signed (negative : Bool) (cs : List Char) :
      Except Snags (Option (Bool × List Char × List Char) × List Char) := do
    let (digits, rest) ← someDigits
      (fun cs => (.here .valueEnds cs, .here .badNumber cs)) (both ∘ .next .badNumber) cs
    return (some (negative, digits, cs), rest)
  match cs with
  | e :: rest =>
    if e = 'e' ∨ e = 'E' then
      match rest with
      | '+' :: rest => signed false rest
      | '-' :: rest => signed true rest
      | _ => signed false rest
    else return (none, cs)
  | [] => return (none, cs)

/-- A number at the front of the text. -/
def numeral? (cs : List Char) : Except Snags (Numeral × List Char) := do
  let (negative, cs) := match cs with
    | '-' :: rest => (true, rest)
    | _ => (false, cs)
  let (whole, cs) ← wholeDigits cs
  let (fraction, cs) ← fractionDigits cs
  let (exponent, cs) ← exponentPart cs
  return (⟨negative, whole, fraction, exponent⟩, cs)

/-- The number that digits continue from `acc` while it stays below `limit`, and the digits that are
left. -/
def leading (limit acc : Nat) : List Char → Nat × List Char
  | [] => (acc, [])
  | c :: cs =>
    let next := acc * 10 + (c.toNat - 48)
    if next < limit then leading limit next cs else (acc, c :: cs)

namespace Numeral

/-- Exponents from here on are infinitely large. -/
def exponentLimit : Nat := Nat.pow 2 31

/-- The value when the numeral is an integer that 64 bits hold; a negative zero is none. -/
def integer? (n : Numeral) : Option Int :=
  if n.exponent.isSome ∨ !n.fraction.isEmpty then none
  else
    match leading UnitIndex.Text.limit64 0 n.whole with
    | (m, []) =>
      if n.negative then if 0 < m ∧ m ≤ Nat.pow 2 63 then some (-m) else none else some m
    | _ => none

/-- The leading digits, as many as 64 bits hold, and the power of ten that goes with them, exponent
apart. Of the whole digits those that do not fit count as zeros, of the others they do not count. -/
def significand (n : Numeral) : Nat × Int :=
  let (m, dropped) := leading UnitIndex.Text.limit64 0 n.whole
  let (m, left) := leading UnitIndex.Text.limit64 m n.fraction
  (m, dropped.length - (n.fraction.length - left.length))

/-- The magnitude, or the text from where it is known to be beyond all doubles; `rest` is the text
behind the numeral. -/
def magnitude (n : Numeral) (rest : List Char) : Except (List Char) Double :=
  let (m, power) := n.significand
  let scaled (power : Int) : Except (List Char) Double :=
    match Double.scaled? m power with
    | some d => .ok d
    | none => .error rest
  match n.exponent with
  | none => scaled power
  | some (negative, digits, text) =>
    match leading exponentLimit 0 digits with
    | (e, []) => scaled (if negative then power - e else power + e)
    | (_, left) =>
      if m = 0 ∨ negative then .ok .zero
      else .error (text.drop (digits.length - left.length + 1))

end Numeral

/-- A number at the front of the text and the text behind it. -/
def number (cs : List Char) : Scanned × Option (List Char) :=
  match numeral? cs with
  | .ok (n, rest) =>
    let found : Scanned :=
      match n.integer? with
      | some i => .integer i ⟨rest, 0⟩
      | none =>
        match n.magnitude rest with
        | .ok d => .real (String.ofList (cs.take (cs.length - rest.length))) n.negative d ⟨rest, 0⟩
        | .error left => .unreadable (.here .hugeNumber left)
    (found, some rest)
  | .error (read, skip) => (.broken read skip, none)

/-! ### Values

Each function returns what it found and the text behind it; there is none when the text breaks off
inside. `depth` bounds the number of brackets and items passed and is taken from the length of the
text. -/

/-- A value that is one word. -/
def keyword (v : Place → Scanned) (word : List Char) (cs : List Char) :
    Scanned × Option (List Char) :=
  match afterWord word cs with
  | .ok rest => (v ⟨rest, 0⟩, some rest)
  | .error snag => (.broken snag snag, none)

/-- The place where someone stops who does not want the fields from here on: behind blanks and a
bracket, if it closes here. -/
def settle (cs : List Char) : Place :=
  match skipBlanks cs with
  | '\x7d' :: rest => ⟨rest, 0⟩
  | rest => ⟨rest, 0⟩

mutual

/-- The value at the front of a text. -/
def value : Nat → List Char → Scanned × Option (List Char)
  | 0, cs => (.broken (.next .valueEnds cs) (.next .valueEnds cs), none)
  | depth + 1, cs =>
    match skipBlanks cs with
    | [] => (.broken (.next .valueEnds []) (.next .valueEnds []), none)
    | c :: rest =>
      match c with
      | '"' =>
        match string? rest with
        | .ok (.whole s, rest) => (.string s ⟨rest, 0⟩, some rest)
        | .ok (.unpaired snag, rest) => (.unreadable snag, some rest)
        | .error (read, skip) => (.broken read skip, none)
      | '[' =>
        let (items, ending, rest') := items depth true rest
        (.array items ending ⟨c :: rest, 0⟩, rest')
      | '\x7b' =>
        let (fields, ending, rest') := fields depth true rest
        (.object fields ending ⟨c :: rest, 0⟩, rest')
      | 'n' => keyword .null "ull".toList rest
      | 't' => keyword (.bool true) "rue".toList rest
      | 'f' => keyword (.bool false) "alse".toList rest
      | c =>
        if c = '-' ∨ c.isDigit then number (c :: rest)
        else (.broken (.next .noValue (c :: rest)) (.next .noValue (c :: rest)), none)

/-- The items of an array behind its bracket or behind an item. -/
def items : Nat → Bool → List Char → List Scanned × Ending × Option (List Char)
  | 0, _, cs => ([], .stops (.next .arrayEnds cs) (.next .arrayEnds cs), none)
  | depth + 1, first, cs =>
    let item (cs : List Char) : List Scanned × Ending × Option (List Char) :=
      match value depth cs with
      | (v, some rest) =>
        let (vs, ending, rest) := items depth false rest
        (v :: vs, ending, rest)
      | (v, none) => ([v], .closed ⟨[], 0⟩, none)
    match skipBlanks cs with
    | [] => ([], .stops (.next .arrayEnds []) (.next .arrayEnds []), none)
    | ']' :: rest => ([], .closed ⟨rest, 0⟩, some rest)
    | c :: rest =>
      if first then item (c :: rest)
      else if c = ',' then
        match skipBlanks rest with
        | ']' :: rest =>
          ([.broken (.next .trailingComma (']' :: rest)) (.next .noValue (']' :: rest))],
            .closed ⟨rest, 0⟩, none)
        | rest => item rest
      else
        ([], .stops (.next .noArrayComma (c :: rest)) (.next .noArrayComma (c :: rest)), none)

/-- The fields of an object behind its bracket or behind a field. -/
def fields : Nat → Bool → List Char → List (FieldName × Scanned) × Ending × Option (List Char)
  | 0, _, cs => ([], .stops (.next .objectEnds cs) (.next .objectEnds cs), none)
  | depth + 1, first, cs =>
    let broken (read skip : Snag) : List (FieldName × Scanned) × Ending × Option (List Char) :=
      ([(.broken read skip, .broken read skip)], .closed ⟨[], 0⟩, none)
    let field (cs : List Char) : List (FieldName × Scanned) × Ending × Option (List Char) :=
      match cs with
      | '"' :: rest =>
        match string? rest with
        | .error (read, skip) => broken read skip
        | .ok (found, rest) =>
          let name := match found with
            | .whole s => .plain s (settle rest)
            | .unpaired snag => .unreadable snag
          let stop (snag : Snag) : List (FieldName × Scanned) × Ending × Option (List Char) :=
            ([(name, .broken snag snag)], .closed ⟨[], 0⟩, none)
          match skipBlanks rest with
          | ':' :: rest =>
            match value depth rest with
            | (v, some rest) =>
              let (more, ending, rest) := fields depth false rest
              ((name, v) :: more, ending, rest)
            | (v, none) => ([(name, v)], .closed ⟨[], 0⟩, none)
          | [] => stop (.next .objectEnds [])
          | rest => stop (.next .noColon rest)
      | [] => broken (.next .valueEnds []) (.next .objectEnds [])
      | '\x7d' :: rest =>
        broken (.next .trailingComma ('\x7d' :: rest)) (.next .unquotedName ('\x7d' :: rest))
      | rest => broken (.next .unquotedName rest) (.next .unquotedName rest)
    match skipBlanks cs with
    | [] => ([], .stops (.next .objectEnds []) (.next .objectEnds []), none)
    | '\x7d' :: rest => ([], .closed ⟨rest, 0⟩, some rest)
    | c :: rest =>
      if first then field (c :: rest)
      else if c = ',' then field (skipBlanks rest)
      else
        ([], .stops (.next .noObjectComma (c :: rest)) (.next .noObjectComma (c :: rest)), none)

end

/-! ### Documents -/

/-- A text as a value and what follows it, blanks apart. -/
structure Document where
  root : Scanned
  rest : List Char
  deriving Repr

/-- What stands in a text. -/
def document (text : List Char) : Document :=
  match value (2 * text.length + 2) text with
  | (root, some rest) => ⟨root, skipBlanks rest⟩
  | (root, none) => ⟨root, []⟩

/-- What is raised when something follows the value of a document. -/
def Document.snag? (d : Document) : Option Snag :=
  if d.rest.isEmpty then none else some (.next .trailingText d.rest)

/-! ### Passing over a value -/

mutual

/-- The snag that stops someone who passes over the value. -/
def skipSnag? : Scanned → Option Snag
  | .broken _ skip => some skip
  | .array items ending _ => skipItems? items ending
  | .object fields ending _ => skipFields? fields ending
  | _ => none

/-- The snag among the items of an array or at their end. -/
def skipItems? : List Scanned → Ending → Option Snag
  | [], .closed _ => none
  | [], .stops _ skip => some skip
  | v :: vs, ending => (skipSnag? v).or (skipItems? vs ending)

/-- The snag among the fields of an object or at their end. -/
def skipFields? : List (FieldName × Scanned) → Ending → Option Snag
  | [], .closed _ => none
  | [], .stops _ skip => some skip
  | (_, v) :: fs, ending => (skipSnag? v).or (skipFields? fs ending)

end

/-- The snag of a value that is not of the type that is wanted: its own if it has one. -/
def refusal (wanted : String) : Scanned → Snag
  | .null after => ⟨.wrongType .null wanted, after⟩
  | .bool b after => ⟨.wrongType (.bool b) wanted, after⟩
  | .integer n after => ⟨.wrongType (.integer n) wanted, after⟩
  | .real _ negative d after => ⟨.wrongType (.real negative d) wanted, after⟩
  | .string s after => ⟨.wrongType (.string s) wanted, after⟩
  | .array _ _ start => ⟨.wrongType .array wanted, start⟩
  | .object _ _ start => ⟨.wrongType .object wanted, start⟩
  | .unreadable read => read
  | .broken read _ => read

/-- The text behind a value that is whole. -/
def behind? : Scanned → Option (List Char)
  | .null after | .bool _ after | .integer _ after | .real _ _ _ after | .string _ after
  | .array _ (.closed after) _ | .object _ (.closed after) _ => some after.left
  | _ => none

/-- Behind a value, wants the bracket that closes an array. -/
def arrayCloses (v : Scanned) : Except Snag Unit :=
  match v.behind?.map skipBlanks with
  | none | some (']' :: _) => .ok ()
  | some [] => .error (.next .arrayEnds [])
  | some (',' :: rest) =>
    match skipBlanks rest with
    | ']' :: rest => .error (.next .trailingComma (']' :: rest))
    | rest => .error (.next .trailingText rest)
  | some rest => .error (.next .trailingText rest)

/-- Behind a value, wants the bracket that closes an object. -/
def objectCloses (v : Scanned) : Except Snag Unit :=
  match v.behind?.map skipBlanks with
  | none | some ('\x7d' :: _) => .ok ()
  | some [] => .error (.next .objectEnds [])
  | some (',' :: rest) => .error (.next .trailingComma (',' :: rest))
  | some rest => .error (.next .trailingText rest)

end Scanned

namespace Json

mutual

/-- The value that a scanned text holds. -/
def ofScanned : Scanned → Except Snag Json
  | .null _ => .ok .null
  | .bool b _ => .ok (.bool b)
  | .integer n _ => .ok (.integer n)
  | .real text _ _ _ => .ok (.real text)
  | .string s _ => .ok (.string s)
  | .array items (.closed _) _ => return .array (← ofItems items)
  | .array items (.stops read _) _ => do
    let _ ← ofItems items
    throw read
  | .object fields (.closed _) _ => return .object (← ofFields fields)
  | .object fields (.stops read _) _ => do
    let _ ← ofFields fields
    throw read
  | .unreadable read => .error read
  | .broken read _ => .error read

/-- The items of an array. -/
def ofItems : List Scanned → Except Snag (List Json)
  | [] => .ok []
  | v :: vs => return (← ofScanned v) :: (← ofItems vs)

/-- The fields of an object. -/
def ofFields : List (FieldName × Scanned) → Except Snag (List (String × Json))
  | [] => .ok []
  | (.plain k _, v) :: fs => return (k, ← ofScanned v) :: (← ofFields fs)
  | (.unreadable read, _) :: _ => .error read
  | (.broken read _, _) :: _ => .error read

end

/-- The value of a whole text. -/
def parse (text : String) : Except Fault Json :=
  let d := Scanned.document text.toList
  let read : Except Snag Json := do
    let j ← ofScanned d.root
    match d.snag? with
    | some snag => throw snag
    | none => return j
  read.mapError (·.fault text.toList)

end Json

end UnitIndex
