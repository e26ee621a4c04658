import UnitIndex.Text.Numeral
import UnitIndex.Toml.Value

/-!
Reading TOML documents, version 1.0 of the format.

Every reader takes the text that is left and returns what it read with the text behind it, or
refuses the text. `Toml.parse?` reads a document. Values nest at most `maxNesting` deep.
-/

namespace UnitIndex.Toml

open UnitIndex.Text (digits? digitsValue? exceedsDoubles)

/-- Values and keys are refused from this depth on. -/
def maxNesting : Nat := 80

/-- Reads something off the front of a text. -/
abbrev Reader (α : Type) := List Char → Option (α × List Char)

/-! ### Blanks, line ends, comments -/

/-- The blanks of the format. -/
def isBlank (c : Char) : Bool := c == ' ' || c == '\t'

/-- The text behind its leading blanks. -/
def skipBlanks (cs : List Char) : List Char := cs.dropWhile isBlank

/-- The text behind a line end. -/
def lineEnd? : List Char → Option (List Char)
  | '\n' :: rest => some rest
  | '\r' :: '\n' :: rest => some rest
  | _ => none

/-- Characters that may stand in a comment: no control characters but tabs. -/
def isPlain (c : Char) : Bool := c == '\t' || (0x20 ≤ c.toNat && c.toNat != 0x7f)

/-- The text behind a comment, if one begins here. -/
def skipComment : List Char → List Char
  | '#' :: rest => rest.dropWhile isPlain
  | cs => cs

/-- The text behind the rest of a line, which holds nothing but a comment. -/
def restOfLine? (cs : List Char) : Option (List Char) :=
  match skipComment (skipBlanks cs) with
  | [] => some []
  | cs => lineEnd? cs

/-- The text behind blanks, line ends and comments; `rounds` bounds the lines passed. -/
def skipLines : Nat → List Char → Option (List Char)
  | 0, cs => some cs
  | rounds + 1, cs =>
    match skipBlanks cs with
    | '#' :: rest => do skipLines rounds (← lineEnd? (skipComment ('#' :: rest)))
    | '\n' :: rest => skipLines rounds rest
    | '\r' :: rest => do skipLines rounds (← lineEnd? ('\r' :: rest))
    | cs => some cs

/-- The text behind blanks, line ends and comments. -/
def skipSpace (cs : List Char) : Option (List Char) := skipLines (cs.length + 1) cs

/-! ### Strings -/

/-- The character with the number that hexadecimal digits spell. -/
def scalar? (hex : List Char) : Option Char := do
  let n ← digits? 16 0x110000 hex
  if 0xd800 ≤ n ∧ n ≤ 0xdfff then none else some (Char.ofNat n)

/-- An escape behind its backslash. -/
def escape : Reader Char
  | 'b' :: rest => some ('\x08', rest)
  | 't' :: rest => some ('\t', rest)
  | 'n' :: rest => some ('\n', rest)
  | 'f' :: rest => some ('\x0c', rest)
  | 'r' :: rest => some ('\r', rest)
  | '"' :: rest => some ('"', rest)
  | '\\' :: rest => some ('\\', rest)
  | 'u' :: rest =>
    if rest.length < 4 then none else (scalar? (rest.take 4)).map (·, rest.drop 4)
  | 'U' :: rest =>
    if rest.length < 8 then none else (scalar? (rest.take 8)).map (·, rest.drop 8)
  | _ => none

/-- A string on one line up to its closing quote; `rounds` bounds its characters. -/
def lineString (quote : Char) : Nat → Reader (List Char)
  | 0 => fun _ => none
  | rounds + 1 => fun cs =>
    match cs with
    | [] => none
    | c :: rest =>
      if c = quote then some ([], rest)
      else if c = '\\' ∧ quote = '"' then do
        let (c, rest) ← escape rest
        let (more, rest) ← lineString quote rounds rest
        some (c :: more, rest)
      else if isPlain c then do
        let (more, rest) ← lineString quote rounds rest
        some (c :: more, rest)
      else none

/-- The text behind the blanks and line ends that follow an escaped line end. -/
def skipFolded : Nat → List Char → List Char
  | 0, cs => cs
  | rounds + 1, cs =>
    let cs := skipBlanks cs
    match lineEnd? cs with
    | some rest => skipFolded rounds rest
    | none => cs

/-- A string on several lines up to its three closing quotes; one or two quotes may stand in it,
also right before those. -/
def blockString (quote : Char) : Nat → Reader (List Char)
  | 0 => fun _ => none
  | rounds + 1 => fun cs =>
    let quotes := (cs.takeWhile (· == quote)).length
    if 3 ≤ quotes then
      if quotes ≤ 5 then some (List.replicate (quotes - 3) quote, cs.drop quotes) else none
    else
      match cs with
      | [] => none
      | c :: rest =>
        match lineEnd? cs with
        | some rest => do
          let (more, rest) ← blockString quote rounds rest
          some ('\n' :: more, rest)
        | none =>
          if c = '\\' ∧ quote = '"' then
            match lineEnd? (skipBlanks rest) with
            | some folded => blockString quote rounds (skipFolded rounds folded)
            | none => do
              let (c, rest) ← escape rest
              let (more, rest) ← blockString quote rounds rest
              some (c :: more, rest)
          else if isPlain c then do
            let (more, rest) ← blockString quote rounds rest
            some (c :: more, rest)
          else none

/-- A string on several lines behind its opening quotes; a line end right there does not count. -/
def blockBody (quote : Char) : Reader (List Char) := fun cs =>
  blockString quote (cs.length + 1) ((lineEnd? cs).getD cs)

/-- A string of any of the four sorts. -/
def quoted : Reader String := fun cs => do
  let (s, rest) ←
    match cs with
    | '"' :: '"' :: '"' :: rest => blockBody '"' rest
    | '"' :: rest => lineString '"' (rest.length + 1) rest
    | '\'' :: '\'' :: '\'' :: rest => blockBody '\'' rest
    | '\'' :: rest => lineString '\'' (rest.length + 1) rest
    | _ => none
  some (String.ofList s, rest)

/-! ### Keys -/

/-- Characters of a bare key. -/
def isBare (c : Char) : Bool := c.isAlphanum || c == '_' || c == '-'

/-- One part of a key. -/
def keyPart : Reader String
  | '"' :: rest => (lineString '"' (rest.length + 1) rest).map fun (s, r) => (String.ofList s, r)
  | '\'' :: rest => (lineString '\'' (rest.length + 1) rest).map fun (s, r) => (String.ofList s, r)
  | cs =>
    let bare := cs.takeWhile isBare
    if bare.isEmpty then none else some (String.ofList bare, cs.drop bare.length)

/-- The parts of a key, with blanks around each; `rounds` bounds their number. -/
def keyParts : Nat → Reader (List String)
  | 0 => fun _ => none
  | rounds + 1 => fun cs => do
    let (part, cs) ← keyPart (skipBlanks cs)
    match skipBlanks cs with
    | '.' :: rest =>
      let (more, rest) ← keyParts rounds rest
      some (part :: more, rest)
    | cs => some ([part], cs)

/-- A key of one or more parts. -/
def key : Reader (List String) := keyParts (maxNesting - 1)

/-! ### Numbers -/

/-- Digits behind a first one; an underscore stands between two of them or is refused. -/
def moreDigits (isDigit : Char → Bool) : Reader (List Char)
  | [] => some ([], [])
  | ['_'] => none
  | '_' :: c :: rest =>
    if isDigit c then (moreDigits isDigit rest).map fun (ds, rest) => (c :: ds, rest) else none
  | c :: rest =>
    if isDigit c then (moreDigits isDigit rest).map fun (ds, rest) => (c :: ds, rest)
    else some ([], c :: rest)

/-- One or more digits, with single underscores between them. -/
def digitRun (isDigit : Char → Bool) : Reader (List Char)
  | [] => none
  | c :: rest =>
    if isDigit c then (moreDigits isDigit rest).map fun (ds, rest) => (c :: ds, rest) else none

/-- A sign, if one stands here: whether it is a minus. -/
def sign (cs : List Char) : Bool × List Char :=
  match cs with
  | '-' :: rest => (true, rest)
  | '+' :: rest => (false, rest)
  | _ => (false, cs)

/-- Decimal digits without a superfluous zero in front. -/
def wholePart : Reader (List Char)
  | '0' :: rest => some (['0'], rest)
  | cs => digitRun Char.isDigit cs

/-- The digits behind a decimal point, if there is one. -/
def fractionPart : Reader (Option (List Char))
  | '.' :: rest => (digitRun Char.isDigit rest).map fun (ds, rest) => (some ds, rest)
  | cs => some (none, cs)

/-- The exponent, if there is one. -/
def exponentPart : Reader (Option Int)
  | c :: rest =>
    if c = 'e' ∨ c = 'E' then do
      let (negative, rest) := sign rest
      let (ds, rest) ← digitRun Char.isDigit rest
      let n ← digitsValue? 10 0 ds
      some (some (if negative then -n else n), rest)
    else some (none, c :: rest)
  | [] => some (none, [])

/-- An integer of 64 bits. -/
def integer? (n : Int) : Option Toml :=
  if -Int.pow 2 63 ≤ n ∧ n < Int.pow 2 63 then some (.integer n) else none

/-- An integer in another base, behind its mark. -/
def basedNumber (base : Nat) : Reader Toml := fun cs => do
  let (ds, rest) ← digitRun (fun c => (Text.digitValue? base c).isSome) cs
  some (← integer? (← digitsValue? base 0 ds), rest)

/-- An integer or a floating-point number in decimal digits. A float beyond all doubles is
refused. -/
def decimalNumber : Reader Toml := fun cs => do
  let (negative, cs) := sign cs
  let (whole, cs) ← wholePart cs
  let (fraction, cs) ← fractionPart cs
  let (exponent, cs) ← exponentPart cs
  match fraction, exponent with
  | none, none =>
    let n ← digitsValue? 10 0 whole
    some (← integer? (if negative then -n else n), cs)
  | _, _ =>
    let fraction := fraction.getD []
    let scale := exponent.getD 0 - fraction.length
    if !negative ∧ exceedsDoubles (whole ++ fraction) scale then none else some (.float, cs)

/-- The words for numbers that no digits spell. -/
def wordNumber (cs : List Char) : Option (Toml × List Char) :=
  match (sign cs).2 with
  | 'i' :: 'n' :: 'f' :: rest => some (.float, rest)
  | 'n' :: 'a' :: 'n' :: rest => some (.float, rest)
  | _ => none

/-! ### Dates and times -/

/-- A number of exactly so many digits between the bounds. -/
def fixedNumber (width least most : Nat) : Reader Nat := fun cs => do
  let ds := cs.take width
  guard (ds.length = width ∧ ds.all Char.isDigit)
  let n ← digitsValue? 10 0 ds
  if least ≤ n ∧ n ≤ most then some (n, cs.drop width) else none

/-- The text behind `c`. -/
def after? (c : Char) : List Char → Option (List Char)
  | d :: rest => if c = d then some rest else none
  | [] => none

/-- The days of a month. -/
def daysOf (year month : Nat) : Nat :=
  if month = 2 then
    if (year % 4 = 0 ∧ year % 100 ≠ 0) ∨ year % 400 = 0 then 29 else 28
  else if month = 4 ∨ month = 6 ∨ month = 9 ∨ month = 11 then 30
  else 31

/-- The text behind a date. -/
def date? (cs : List Char) : Option (List Char) := do
  let (year, cs) ← fixedNumber 4 0 9999 cs
  let (month, cs) ← fixedNumber 2 1 12 (← after? '-' cs)
  let (_, cs) ← fixedNumber 2 1 (daysOf year month) (← after? '-' cs)
  some cs

/-- The text behind a time of day. -/
def time? (cs : List Char) : Option (List Char) := do
  let (_, cs) ← fixedNumber 2 0 23 cs
  let (_, cs) ← fixedNumber 2 0 59 (← after? ':' cs)
  let (_, cs) ← fixedNumber 2 0 60 (← after? ':' cs)
  match cs with
  | '.' :: rest =>
    let ds := rest.takeWhile Char.isDigit
    if ds.isEmpty then none else some (rest.drop ds.length)
  | _ => some cs

/-- The text behind a distance from universal time, if one stands here. -/
def offset? (cs : List Char) : Option (List Char) :=
  let distance (rest : List Char) : Option (List Char) := do
    let (_, cs) ← fixedNumber 2 0 23 rest
    let (_, cs) ← fixedNumber 2 0 59 (← after? ':' cs)
    some cs
  match cs with
  | 'Z' :: rest | 'z' :: rest => some rest
  | '+' :: rest | '-' :: rest => distance rest
  | _ => some cs

/-- Whether a date seems to stand here. -/
def startsDate (cs : List Char) : Bool :=
  (cs.take 4).length = 4 && (cs.take 4).all Char.isDigit && cs[4]? == some '-'

/-- Whether a time of day seems to stand here. -/
def startsTime (cs : List Char) : Bool :=
  (cs.take 2).length = 2 && (cs.take 2).all Char.isDigit && cs[2]? == some ':'

/-- A date, a time, or both. -/
def dateOrTime : Reader Toml := fun cs =>
  if startsDate cs then do
    let cs ← date? cs
    match cs with
    | c :: rest =>
      if (c = 'T' ∨ c = 't' ∨ c = ' ') ∧ startsTime rest then
        some (.dateTime, ← offset? (← time? rest))
      else some (.dateTime, cs)
    | [] => some (.dateTime, [])
  else do some (.dateTime, ← time? cs)

/-- A date, a time or a number. -/
def number : Reader Toml := fun cs =>
  if startsDate cs || startsTime cs then dateOrTime cs
  else
    match cs with
    | '0' :: 'x' :: rest => basedNumber 16 rest
    | '0' :: 'o' :: rest => basedNumber 8 rest
    | '0' :: 'b' :: rest => basedNumber 2 rest
    | _ => (decimalNumber cs).or (wordNumber cs)

/-! ### Values -/

/-- The text behind a word. -/
def word? : List Char → List Char → Option (List Char)
  | [], cs => some cs
  | w :: ws, cs => do word? ws (← after? w cs)

mutual

/-- A value inside `depth` others. `fuel` bounds the values and separators read and is taken from
the length of the text. -/
def value (depth : Nat) : Nat → Reader Toml
  | 0 => fun _ => none
  | fuel + 1 => fun cs =>
    match cs with
    | '"' :: _ | '\'' :: _ => (quoted cs).map fun (s, rest) => (.string s, rest)
    | '[' :: rest =>
      if maxNesting ≤ depth + 1 then none
      else (items (depth + 1) fuel rest).map fun (vs, rest) => (.array vs, rest)
    | '\x7b' :: rest =>
      if maxNesting ≤ depth + 1 then none
      else
        match skipBlanks rest with
        | '\x7d' :: rest => some (.inlineTable [], rest)
        | _ => (fields (depth + 1) fuel [] rest).map fun (fs, rest) =>
            (.inlineTable (closedFields fs), rest)
    | 't' :: rest => (word? "rue".toList rest).map fun rest => (.bool true, rest)
    | 'f' :: rest => (word? "alse".toList rest).map fun rest => (.bool false, rest)
    | 'i' :: _ | 'n' :: _ => wordNumber cs
    | _ => number cs

/-- The items of an array up to its closing bracket. -/
def items (depth : Nat) : Nat → Reader (List Toml)
  | 0 => fun _ => none
  | fuel + 1 => fun cs => do
    match ← skipSpace cs with
    | ']' :: rest => some ([], rest)
    | cs =>
      let (v, cs) ← value depth fuel cs
      match ← skipSpace cs with
      | ',' :: rest =>
        let (vs, rest) ← items depth fuel rest
        some (v :: vs, rest)
      | ']' :: rest => some ([v], rest)
      | _ => none

/-- The fields of a table in braces up to the closing one; a comma stands between any two. -/
def fields (depth : Nat) : Nat → Fields → Reader Fields
  | 0, _ => fun _ => none
  | fuel + 1, seen => fun cs => do
    let (k, cs) ← key cs
    let cs ← after? '=' cs
    let (v, cs) ← value depth fuel (skipBlanks cs)
    let seen ← assignInline k v seen
    match skipBlanks cs with
    | ',' :: rest => fields depth fuel seen rest
    | '\x7d' :: rest => some (seen, rest)
    | _ => none

end

/-! ### Documents -/

/-- A document while it is read: its fields, and the table that assignments go to. -/
structure Document where
  root : Fields := []
  current : List String := []

/-- The document after an assignment in its current table. -/
def Document.assign (d : Document) (k : List String) (v : Toml) : Option Document := do
  let root ← alter false (fun form fields => Toml.assign k v form fields) d.current .defined d.root
  return { d with root := root }

/-- One statement and the text behind its line. -/
def statement (d : Document) (cs : List Char) : Option (Document × List Char) := do
  match cs with
  | '[' :: '[' :: rest =>
    let (k, rest) ← key rest
    let rest ← restOfLine? (← after? ']' (← after? ']' rest))
    some ({ root := ← openElement k d.root, current := k }, rest)
  | '[' :: rest =>
    let (k, rest) ← key rest
    let rest ← restOfLine? (← after? ']' rest)
    some ({ root := ← openTable k d.root, current := k }, rest)
  | _ =>
    let (k, rest) ← key cs
    let (v, rest) ← value 0 (rest.length + 1) (skipBlanks (← after? '=' rest))
    some (← d.assign k v, ← restOfLine? rest)

/-- Statements up to the end of the text; `rounds` bounds their number. -/
def statements : Nat → Document → List Char → Option Document
  | 0, d, _ => some d
  | rounds + 1, d, cs => do
    match ← skipSpaceOrEnd cs with
    | [] => some d
    | cs =>
      let (d, rest) ← statement d cs
      statements rounds d rest
where
  /-- The text behind blanks, line ends and comments, of which the last may end the text. -/
  skipSpaceOrEnd (cs : List Char) : Option (List Char) := skipLinesOrEnd (cs.length + 1) cs
  /-- The same, past at most so many lines. -/
  skipLinesOrEnd : Nat → List Char → Option (List Char)
    | 0, cs => some cs
    | rounds + 1, cs =>
      match skipBlanks cs with
      | '#' :: rest => do skipLinesOrEnd rounds (← restOfLine? ('#' :: rest))
      | '\n' :: rest => skipLinesOrEnd rounds rest
      | '\r' :: rest => do skipLinesOrEnd rounds (← lineEnd? ('\r' :: rest))
      | cs => some cs

/-- The fields of a document. A mark of the byte order in front of it does not count. -/
def parse? (text : String) : Option Fields :=
  let cs := match text.toList with
    | '\ufeff' :: rest => rest
    | cs => cs
  (statements (cs.length + 1) {} cs).map (·.root)

end UnitIndex.Toml
