import Mathlib.Tactic
import UnitIndex.Json.Scanned
import UnitIndex.Proofs.Text.Decimal

/-!
Reading values in their compact form.

Every value that is `Exact`, one whose numbers are integers of at most 64 bits, is read back from
its compact form (`parse_compact`). The scanner is followed along the value, one lemma for each
form: behind the text of a value it is where the text ends (`scans_compact`), as long as something
follows there that ends a value (`Closes`). The levels that the scanner may use never run out,
since each of them costs a character.
-/

namespace UnitIndex.Scanned

open UnitIndex.Text

/-- Whether no value goes on into the text. -/
def Closes (rest : List Char) : Prop := ∀ c ∈ rest.head?, c = ',' ∨ c = ']' ∨ c = '\x7d'

variable {rest : List Char} {n limit : ℕ} {ds : List Char}

/-- What ends a value is no digit. -/
lemma Closes.leavesDigits (h : Closes rest) : LeavesDigits rest := by
  intro c hc
  rcases h c hc with rfl | rfl | rfl <;> rfl

/-- Commas and closing brackets end a value. -/
lemma closes_cons {c : Char} (h : c = ',' ∨ c = ']' ∨ c = '\x7d') (cs : List Char) :
    Closes (c :: cs) := by
  intro d hd
  obtain rfl := Option.some.inj hd
  exact h

/-- Nothing is skipped where no blank stands. -/
lemma skipBlanks_cons {c : Char} (h : isBlank c = false) (cs : List Char) :
    skipBlanks (c :: cs) = c :: cs :=
  List.dropWhile_cons_of_neg (by simp [h])

/-! ### Strings -/

/-- A control character with no letter of its own is the number between `\u00` and the rest. -/
lemma digits?_hexDigit {m : ℕ} (h : m < 32) :
    digits? 16 65536 ['0', '0', Json.hexDigit (m / 16), Json.hexDigit (m % 16)] = some m := by
  have hall : ∀ m < 32, digits? 16 65536
      ['0', '0', Json.hexDigit (m / 16), Json.hexDigit (m % 16)] = some m := by decide
  exact hall m h

/-- A character that is written in its place, or in a form of its own, is one piece. -/
lemma pieces_escape (c : Char) (cs : List Char) :
    ∃ p, pieces (Json.escape c ++ cs) = (p :: (pieces cs).1, (pieces cs).2) ∧
      ∀ end_ ps, spell end_ (p :: ps) = (c :: (spell end_ ps).1, (spell end_ ps).2) := by
  have hchar (d : Char) (end_ : Option Snag) (ps : List Piece) :
      spell end_ (.char d :: ps) = (d :: (spell end_ ps).1, (spell end_ ps).2) := by
    rw [spell]
  -- a backslash and a letter stand for one character
  have hletter (e d : Char) (he : e ≠ 'u') (hd : escaped? e = some d) :
      pieces ('\\' :: e :: cs) = (.char d :: (pieces cs).1, (pieces cs).2) := by
    rw [pieces]
    · rw [hd]
    · exact fun _ _ _ _ _ heq => absurd heq he
    · exact fun heq => absurd heq he
  unfold Json.escape
  split
  · exact ⟨.char '"', hletter '"' '"' (by decide) rfl, hchar _⟩
  · exact ⟨.char '\\', hletter '\\' '\\' (by decide) rfl, hchar _⟩
  · exact ⟨.char '\x08', hletter 'b' '\x08' (by decide) rfl, hchar _⟩
  · exact ⟨.char '\x0c', hletter 'f' '\x0c' (by decide) rfl, hchar _⟩
  · exact ⟨.char '\n', hletter 'n' '\n' (by decide) rfl, hchar _⟩
  · exact ⟨.char '\r', hletter 'r' '\r' (by decide) rfl, hchar _⟩
  · exact ⟨.char '\t', hletter 't' '\t' (by decide) rfl, hchar _⟩
  · next hquote hslash _ _ _ _ _ =>
    split
    · next hlow =>
      -- other control characters are written as four digits, and are no surrogates
      refine ⟨.unit c.toNat cs, ?_, fun end_ ps => ?_⟩
      · show pieces ('\\' :: 'u' :: '0' :: '0' :: _ :: _ :: cs) = _
        rw [pieces, digits?_hexDigit hlow]
      · have hlead : isLead c.toNat = false := by simp [isLead]; omega
        have htrail : isTrail c.toNat = false := by simp [isTrail]; omega
        rw [spell.eq_def]
        simp only [hlead, htrail, Char.ofNat_toNat, Bool.false_eq_true, if_false]
    · next hlow =>
      refine ⟨.char c, ?_, hchar _⟩
      show pieces (c :: cs) = _
      rw [pieces]
      · rw [if_neg hlow]
      all_goals simp_all

/-- The text between the quotes of a string is read as the string. -/
lemma pieces_quoted (cs rest : List Char) :
    ∃ ps, pieces (cs.flatMap Json.escape ++ '"' :: rest) = (ps, .ok rest) ∧
      spell none ps = (cs, none) := by
  induction cs with
  | nil => exact ⟨[], by rw [List.flatMap_nil, List.nil_append, pieces], rfl⟩
  | cons c cs ih =>
      obtain ⟨ps, hps, hspell⟩ := ih
      obtain ⟨p, hp, hone⟩ := pieces_escape c (cs.flatMap Json.escape ++ '"' :: rest)
      refine ⟨p :: ps, ?_, ?_⟩
      · rw [List.flatMap_cons, List.append_assoc, hp, hps]
      · rw [hone, hspell]

/-- A string is read back from its quoted form. -/
lemma string?_quoted (s : String) (rest : List Char) :
    string? (s.toList.flatMap Json.escape ++ '"' :: rest) = .ok (.whole s, rest) := by
  obtain ⟨ps, hps, hspell⟩ := pieces_quoted s.toList rest
  simp [string?, hps, hspell]

/-! ### Integers -/

/-- Digits of a number within the limit are all taken. -/
lemma leading_digits (hds : ∀ c ∈ ds, c.isDigit = true) {acc : ℕ}
    (h : Nat.ofDigitChars 10 ds acc < limit) :
    leading limit acc ds = (Nat.ofDigitChars 10 ds acc, []) := by
  induction ds generalizing acc with
  | nil => rfl
  | cons c ds ih =>
      obtain ⟨-, hds⟩ := List.forall_mem_cons.mp hds
      rw [Nat.ofDigitChars_cons, Nat.mul_comm 10 acc] at h ⊢
      have hnext := (le_ofDigitChars (acc * 10 + (c.toNat - '0'.toNat)) ds).trans_lt h
      rw [leading]
      exact (if_pos hnext).trans (ih hds h)

/-- Digits with no superfluous zero are all of the numeral that they begin. -/
lemma wholeDigits_toDigits (n : ℕ) (hrest : LeavesDigits rest) :
    wholeDigits (Nat.toDigits 10 n ++ rest) = .ok (Nat.toDigits 10 n, rest) := by
  have hds : ∀ c ∈ Nat.toDigits 10 n, c.isDigit = true := fun c => isDigit_of_mem_toDigits
  have hsome : ∀ ended other, someDigits ended other (Nat.toDigits 10 n ++ rest) =
      .ok (Nat.toDigits 10 n, rest) := by
    intro ended other
    have hne : (Nat.toDigits 10 n).isEmpty = false := by simp [Nat.toDigits_ne_nil]
    rw [someDigits, takeWhile_append_stop hds hrest, dropWhile_append_stop hds hrest, hne]
    rfl
  rw [wholeDigits, hsome]
  cases hn : Nat.toDigits 10 n with
  | nil => exact absurd hn Nat.toDigits_ne_nil
  | cons d ds =>
      -- a leading zero is the only digit
      by_cases hd : d = '0'
      · subst hd
        obtain rfl := toDigits_eq_zero_cons hn
        rfl
      · rw [List.cons_append]
        dsimp only [bind, Except.bind]
        split
        · next heq => exact absurd (List.cons.inj heq).1 hd
        · rfl

/-- A number with nothing but its whole digits. -/
lemma numeral?_toDigits (n : ℕ) (hrest : Closes rest) :
    numeral? (Nat.toDigits 10 n ++ rest) = .ok (⟨false, Nat.toDigits 10 n, [], none⟩, rest) ∧
      numeral? ('-' :: (Nat.toDigits 10 n ++ rest)) =
        .ok (⟨true, Nat.toDigits 10 n, [], none⟩, rest) := by
  have hwhole := wholeDigits_toDigits n hrest.leavesDigits
  have hfraction : fractionDigits rest = .ok ([], rest) := by
    cases rest with
    | nil => rfl
    | cons c cs => rcases hrest c rfl with rfl | rfl | rfl <;> rfl
  have hexponent : exponentPart rest = .ok (none, rest) := by
    cases rest with
    | nil => rfl
    | cons c cs => rcases hrest c rfl with rfl | rfl | rfl <;> rfl
  -- neither fraction nor exponent begins where the value ends
  have hparts (negative : Bool) : (do
      let whole ← wholeDigits (Nat.toDigits 10 n ++ rest)
      let fraction ← fractionDigits whole.2
      let exponent ← exponentPart fraction.2
      return (⟨negative, whole.1, fraction.1, exponent.1⟩, exponent.2) :
        Except Snags (Numeral × List Char)) =
        .ok (⟨negative, Nat.toDigits 10 n, [], none⟩, rest) := by
    rw [hwhole]
    show (fractionDigits rest >>= _) = _
    rw [hfraction]
    show (exponentPart rest >>= _) = _
    rw [hexponent]
    rfl
  constructor
  · rw [numeral?]
    · exact hparts false
    · -- no numeral without a minus begins with one
      intro cs heq
      obtain ⟨d, ds, hn, hd⟩ := exists_toDigits_eq_cons n
      rw [hn] at heq
      obtain ⟨rfl, -⟩ := List.cons.inj heq
      exact absurd hd (by decide)
  · exact hparts true

/-- A number that is not negative is written as its digits. -/
lemma toList_toString_natCast (m : ℕ) : (toString (m : ℤ)).toList = Nat.toDigits 10 m := by
  show (toString m).toList = _
  rw [Nat.toString_eq_ofList_toDigits, String.toList_ofList]

/-- A negative one has a minus in front. -/
lemma toList_toString_negSucc (m : ℕ) :
    (toString (Int.negSucc m)).toList = '-' :: Nat.toDigits 10 (m + 1) := by
  show ("-" ++ toString (m + 1)).toList = _
  rw [Nat.toString_eq_ofList_toDigits]
  simp

/-- An integer begins with a minus or a digit. -/
lemma exists_toString_eq_cons (i : ℤ) :
    ∃ c cs, (toString i).toList = c :: cs ∧ (c = '-' ∨ c.isDigit) := by
  cases i with
  | ofNat m =>
      obtain ⟨d, ds, hm, hd⟩ := exists_toDigits_eq_cons m
      exact ⟨d, ds, by rw [Int.ofNat_eq_natCast, toList_toString_natCast, hm], Or.inr hd⟩
  | negSucc m => exact ⟨'-', _, toList_toString_negSucc m, Or.inl rfl⟩

/-- **An integer of at most 64 bits is read back.** -/
lemma number_integer {i : ℤ} (hleast : -2 ^ 63 ≤ i) (hmost : i < 2 ^ 64) (hrest : Closes rest) :
    number ((toString i).toList ++ rest) = (.integer i ⟨rest, 0⟩, some rest) := by
  -- the digits stay below the limit, so that none of them is dropped
  have hvalue (m : ℕ) (hm : m < limit64) : leading limit64 0 (Nat.toDigits 10 m) = (m, []) := by
    have hdigits := Nat.ofDigitChars_ten_toDigits (n := m)
    have hlt : Nat.ofDigitChars 10 (Nat.toDigits 10 m) 0 < limit64 := by rwa [hdigits]
    rw [leading_digits (fun c => isDigit_of_mem_toDigits) hlt, hdigits]
  cases i with
  | ofNat m =>
      rw [Int.ofNat_eq_natCast] at hmost ⊢
      have hm : m < limit64 := by rw [limit64]; omega
      rw [toList_toString_natCast, number, (numeral?_toDigits m hrest).1]
      simp [Numeral.integer?, hvalue m hm]
  | negSucc m =>
      have hm : m + 1 < limit64 := by rw [limit64]; omega
      have hbound : m + 1 ≤ Nat.pow 2 63 := by
        show m + 1 ≤ 2 ^ 63
        omega
      rw [toList_toString_negSucc, List.cons_append, number, (numeral?_toDigits (m + 1) hrest).2]
      simp [Numeral.integer?, hvalue (m + 1) hm, hbound, Int.negSucc_eq]

/-! ### Values -/

/-- A number begins with nothing that has another meaning. -/
lemma isBlank_of_number {c : Char} (hc : c = '-' ∨ c.isDigit) : isBlank c = false := by
  refine Bool.eq_false_iff.mpr fun hblank => ?_
  simp only [isBlank, Bool.or_eq_true, beq_iff_eq] at hblank
  rcases hblank with ((rfl | rfl) | rfl) | rfl <;> exact absurd hc (by decide)

/-- A value that begins with a digit or a minus is a number. -/
lemma value_number {c : Char} (hc : c = '-' ∨ c.isDigit) (depth : ℕ) (cs : List Char) :
    value (depth + 1) (c :: cs) = number (c :: cs) := by
  rw [value, skipBlanks_cons (isBlank_of_number hc)]
  dsimp only
  split
  all_goals try exact absurd hc (by decide)
  rw [if_pos hc]

section

variable {depth : ℕ} {c : Char} {k : String} {cs behind : List Char} {v : Scanned}
  {vs : List Scanned} {fs : List (FieldName × Scanned)} {ending : Ending}
  {left : Option (List Char)}

/-- A quote begins a string. -/
lemma value_string (hk : string? cs = .ok (.whole k, behind)) :
    value (depth + 1) ('"' :: cs) = (.string k ⟨behind, 0⟩, some behind) := by
  have hquote : skipBlanks ('"' :: cs) = '"' :: cs := skipBlanks_cons rfl _
  simp [value, hquote, hk]

/-- A bracket begins an array, and a brace an object, whose parts are one level further down. -/
lemma value_array (h : items depth true cs = (vs, ending, left)) :
    value (depth + 1) ('[' :: cs) = (.array vs ending ⟨'[' :: cs, 0⟩, left) := by
  have hopen : skipBlanks ('[' :: cs) = '[' :: cs := skipBlanks_cons rfl _
  simp [value, hopen, h]

lemma value_object (h : fields depth true cs = (fs, ending, left)) :
    value (depth + 1) ('\x7b' :: cs) = (.object fs ending ⟨'\x7b' :: cs, 0⟩, left) := by
  have hopen : skipBlanks ('\x7b' :: cs) = '\x7b' :: cs := skipBlanks_cons rfl _
  simp [value, hopen, h]

/-- A first item. -/
lemma items_first (hblank : isBlank c = false) (hbracket : c ≠ ']')
    (hv : value depth (c :: cs) = (v, some behind))
    (hmore : items depth false behind = (vs, ending, left)) :
    items (depth + 1) true (c :: cs) = (v :: vs, ending, left) := by
  simp [items, skipBlanks_cons hblank, hv, hmore]

/-- An item behind a comma. -/
lemma items_comma (hblank : isBlank c = false) (hbracket : c ≠ ']')
    (hv : value depth (c :: cs) = (v, some behind))
    (hmore : items depth false behind = (vs, ending, left)) :
    items (depth + 1) false (',' :: c :: cs) = (v :: vs, ending, left) := by
  have hcomma : skipBlanks (',' :: c :: cs) = ',' :: c :: cs := skipBlanks_cons rfl _
  simp [items, hcomma, skipBlanks_cons hblank, hbracket, hv, hmore]

/-- A first field. -/
lemma fields_first (hk : string? cs = .ok (.whole k, ':' :: behind))
    {behind' : List Char} (hv : value depth behind = (v, some behind'))
    (hmore : fields depth false behind' = (fs, ending, left)) :
    fields (depth + 1) true ('"' :: cs) =
      ((.plain k (settle (':' :: behind)), v) :: fs, ending, left) := by
  have hquote : skipBlanks ('"' :: cs) = '"' :: cs := skipBlanks_cons rfl _
  have hcolon : skipBlanks (':' :: behind) = ':' :: behind := skipBlanks_cons rfl _
  simp [fields, hquote, hk, hcolon, hv, hmore]

/-- A field behind a comma. -/
lemma fields_comma (hk : string? cs = .ok (.whole k, ':' :: behind))
    {behind' : List Char} (hv : value depth behind = (v, some behind'))
    (hmore : fields depth false behind' = (fs, ending, left)) :
    fields (depth + 1) false (',' :: '"' :: cs) =
      ((.plain k (settle (':' :: behind)), v) :: fs, ending, left) := by
  have hcomma : skipBlanks (',' :: '"' :: cs) = ',' :: '"' :: cs := skipBlanks_cons rfl _
  have hquote : skipBlanks ('"' :: cs) = '"' :: cs := skipBlanks_cons rfl _
  have hcolon : skipBlanks (':' :: behind) = ':' :: behind := skipBlanks_cons rfl _
  simp [fields, hcomma, hquote, hk, hcolon, hv, hmore]

end

end UnitIndex.Scanned

namespace UnitIndex.Json

open Scanned

mutual

/-- Whether the value is read back from its written forms: all numbers in it are integers of at most
64 bits. -/
def Exact : Json → Prop
  | .integer n => -2 ^ 63 ≤ n ∧ n < 2 ^ 64
  | .real _ => False
  | .array items => ExactItems items
  | .object fields => ExactFields fields
  | _ => True

/-- Whether all of the items are. -/
def ExactItems : List Json → Prop
  | [] => True
  | j :: rest => Exact j ∧ ExactItems rest

/-- Whether the values of all of the fields are. -/
def ExactFields : List (String × Json) → Prop
  | [] => True
  | (_, j) :: rest => Exact j ∧ ExactFields rest

end

/-- The items behind an item that has been read. -/
def moreItems : List Json → List Char
  | [] => []
  | j :: js => ',' :: compactItems (j :: js)

/-- The fields behind a field that has been read. -/
def moreFields : List (String × Json) → List Char
  | [] => []
  | f :: fs => ',' :: compactFields (f :: fs)

/-- The compact form of some values is that of the first one, and of each other one behind a comma.
-/
lemma compactItems_cons (j : Json) (js : List Json) :
    compactItems (j :: js) = compact j ++ moreItems js := by
  cases js with
  | nil => rw [compactItems, moreItems, List.append_nil]
  | cons k ks => rw [compactItems, moreItems]; simp

lemma compactFields_cons (k : String) (j : Json) (fs : List (String × Json)) :
    compactFields ((k, j) :: fs) = quoted k ++ ':' :: compact j ++ moreFields fs := by
  cases fs with
  | nil => rw [compactFields, moreFields, List.append_nil]
  | cons f fs => rw [compactFields, moreFields]; simp

/-- A value begins with a character that is neither blank nor a closing bracket. -/
lemma exists_compact_eq_cons {j : Json} (h : j.Exact) :
    ∃ c cs, compact j = c :: cs ∧ isBlank c = false ∧ c ≠ ']' := by
  cases j with
  | null => exact ⟨'n', _, rfl, rfl, by decide⟩
  | bool b =>
      cases b with
      | true => exact ⟨'t', _, rfl, rfl, by decide⟩
      | false => exact ⟨'f', _, rfl, rfl, by decide⟩
  | integer i =>
      obtain ⟨c, cs, hi, hc⟩ := exists_toString_eq_cons i
      exact ⟨c, cs, hi, isBlank_of_number hc, fun heq => absurd hc (by rw [heq]; decide)⟩
  | real text => exact h.elim
  | string s => exact ⟨'"', _, rfl, rfl, by decide⟩
  | array js => exact ⟨'[', _, by rw [compact]; rfl, rfl, by decide⟩
  | object fs => exact ⟨'\x7b', _, by rw [compact]; rfl, rfl, by decide⟩

/-- The scanner finds the value in front of the text, with so many levels. -/
def Scans (j : Json) (depth : ℕ) (rest : List Char) : Prop :=
  ∃ v, value depth (compact j ++ rest) = (v, some rest) ∧ ofScanned v = .ok j

/-- The scanner finds the items behind another one and the bracket, with so many levels. -/
def ScansItems (js : List Json) (depth : ℕ) (rest : List Char) : Prop :=
  ∃ vs, items depth false (moreItems js ++ ']' :: rest) =
    (vs, .closed ⟨rest, 0⟩, some rest) ∧ ofItems vs = .ok js

/-- The scanner finds the fields behind another one and the bracket, with so many levels. -/
def ScansFields (fs : List (String × Json)) (depth : ℕ) (rest : List Char) : Prop :=
  ∃ vs, fields depth false (moreFields fs ++ '\x7d' :: rest) =
    (vs, .closed ⟨rest, 0⟩, some rest) ∧ ofFields vs = .ok fs

section

variable {j : Json} {js : List Json} {k : String} {fs : List (String × Json)} {depth : ℕ}
  {rest : List Char}

/-- Behind each value of an array there is a comma or the bracket. -/
lemma closes_moreItems (js : List Json) (rest : List Char) :
    Closes (moreItems js ++ ']' :: rest) := by
  cases js with
  | nil => exact closes_cons (Or.inr (Or.inl rfl)) _
  | cons j js => exact closes_cons (Or.inl rfl) _

/-- Behind each field of an object there is a comma or the brace. -/
lemma closes_moreFields (fs : List (String × Json)) (rest : List Char) :
    Closes (moreFields fs ++ '\x7d' :: rest) := by
  cases fs with
  | nil => exact closes_cons (Or.inr (Or.inr rfl)) _
  | cons f fs => exact closes_cons (Or.inl rfl) _

/-- If a value makes sense and so do those behind it, all of them do. -/
lemma ofItems_cons {v : Scanned} {vs : List Scanned} (hv : ofScanned v = .ok j)
    (hvs : ofItems vs = .ok js) : ofItems (v :: vs) = .ok (j :: js) := by
  rw [ofItems, hv, hvs]
  rfl

lemma ofFields_cons {v : Scanned} {after : Place} {vs : List (FieldName × Scanned)}
    (hv : ofScanned v = .ok j) (hvs : ofFields vs = .ok fs) :
    ofFields ((.plain k after, v) :: vs) = .ok ((k, j) :: fs) := by
  rw [ofFields, hv, hvs]
  rfl

end

mutual

/-- A value is found in front of what closes it. -/
lemma scans_compact : ∀ (j : Json) {depth : ℕ} {rest : List Char}, j.Exact →
    j.compact.length < depth → Closes rest → Scans j depth rest
  | .null, depth + 1, rest, _, _, _ => ⟨.null ⟨rest, 0⟩, rfl, rfl⟩
  | .bool true, depth + 1, rest, _, _, _ => ⟨.bool true ⟨rest, 0⟩, rfl, rfl⟩
  | .bool false, depth + 1, rest, _, _, _ => ⟨.bool false ⟨rest, 0⟩, rfl, rfl⟩
  | .integer i, depth + 1, rest, h, _, hrest => by
      obtain ⟨c, cs, hi, hc⟩ := exists_toString_eq_cons i
      have hnumber := number_integer h.1 h.2 hrest
      refine ⟨.integer i ⟨rest, 0⟩, ?_, rfl⟩
      show value (depth + 1) ((toString i).toList ++ rest) = _
      rw [hi, List.cons_append] at hnumber ⊢
      rw [value_number hc, hnumber]
  | .string s, depth + 1, rest, _, _, _ => by
      have htext : compact (.string s) ++ rest =
          '"' :: (s.toList.flatMap escape ++ '"' :: rest) := by
        show '"' :: (_ ++ ['"']) ++ rest = _
        simp
      exact ⟨.string s ⟨rest, 0⟩, by rw [htext, value_string (string?_quoted s rest)], rfl⟩
  | .array [], depth + 2, rest, _, _, _ => ⟨.array [] (.closed ⟨rest, 0⟩) ⟨_, 0⟩, rfl, rfl⟩
  | .array (j :: js), depth + 2, rest, h, hdepth, _ => by
      rw [compact, compactItems_cons] at hdepth
      simp only [List.length_append, List.length_cons, List.length_nil] at hdepth
      obtain ⟨v, hv, hj⟩ :=
        @scans_compact j depth _ h.1 (by omega) (closes_moreItems js rest)
      obtain ⟨vs, hvs, hjs⟩ := @scans_items js depth rest h.2 (by omega)
      obtain ⟨c, cs, hc, hblank, hbracket⟩ := exists_compact_eq_cons h.1
      have htext : compact (.array (j :: js)) ++ rest =
          '[' :: c :: (cs ++ (moreItems js ++ ']' :: rest)) := by
        rw [compact, compactItems_cons, hc]
        simp
      rw [hc, List.cons_append] at hv
      refine ⟨_, by rw [htext, value_array (items_first hblank hbracket hv hvs)], ?_⟩
      rw [ofScanned, ofItems_cons hj hjs]
      rfl
  | .object [], depth + 2, rest, _, _, _ => ⟨.object [] (.closed ⟨rest, 0⟩) ⟨_, 0⟩, rfl, rfl⟩
  | .object ((k, j) :: fs), depth + 2, rest, h, hdepth, hrest => by
      rw [compact, compactFields_cons] at hdepth
      simp only [List.length_append, List.length_cons, List.length_nil] at hdepth
      obtain ⟨v, hv, hj⟩ :=
        @scans_compact j depth _ h.1 (by omega) (closes_moreFields fs rest)
      obtain ⟨vs, hvs, hfs⟩ := @scans_fields fs depth rest h.2 (by omega)
      have htext : compact (.object ((k, j) :: fs)) ++ rest = '\x7b' :: '"' ::
          (k.toList.flatMap escape ++ '"' :: ':' ::
            (j.compact ++ (moreFields fs ++ '\x7d' :: rest))) := by
        rw [compact, compactFields_cons, quoted]
        simp
      refine ⟨_, by rw [htext, value_object (fields_first (string?_quoted k _) hv hvs)], ?_⟩
      rw [ofScanned, ofFields_cons hj hfs]
      rfl

/-- Items are found behind another one. -/
lemma scans_items : ∀ (js : List Json) {depth : ℕ} {rest : List Char}, ExactItems js →
    (moreItems js).length < depth → ScansItems js depth rest
  | [], depth + 1, rest, _, _ => ⟨[], rfl, rfl⟩
  | j :: js, depth + 1, rest, h, hdepth => by
      rw [moreItems, compactItems_cons] at hdepth
      simp only [List.length_append, List.length_cons] at hdepth
      obtain ⟨v, hv, hj⟩ :=
        @scans_compact j depth _ h.1 (by omega) (closes_moreItems js rest)
      obtain ⟨vs, hvs, hjs⟩ := @scans_items js depth rest h.2 (by omega)
      obtain ⟨c, cs, hc, hblank, hbracket⟩ := exists_compact_eq_cons h.1
      have htext : moreItems (j :: js) ++ ']' :: rest =
          ',' :: c :: (cs ++ (moreItems js ++ ']' :: rest)) := by
        rw [moreItems, compactItems_cons, hc]
        simp
      rw [hc, List.cons_append] at hv
      exact ⟨v :: vs, by rw [htext, items_comma hblank hbracket hv hvs], ofItems_cons hj hjs⟩

/-- Fields are found behind another one. -/
lemma scans_fields : ∀ (fs : List (String × Json)) {depth : ℕ} {rest : List Char},
    ExactFields fs → (moreFields fs).length < depth → ScansFields fs depth rest
  | [], depth + 1, rest, _, _ => ⟨[], rfl, rfl⟩
  | (k, j) :: fs, depth + 1, rest, h, hdepth => by
      rw [moreFields, compactFields_cons] at hdepth
      simp only [List.length_append, List.length_cons] at hdepth
      obtain ⟨v, hv, hj⟩ :=
        @scans_compact j depth _ h.1 (by omega) (closes_moreFields fs rest)
      obtain ⟨vs, hvs, hfs⟩ := @scans_fields fs depth rest h.2 (by omega)
      have htext : moreFields ((k, j) :: fs) ++ '\x7d' :: rest = ',' :: '"' ::
          (k.toList.flatMap escape ++ '"' :: ':' ::
            (j.compact ++ (moreFields fs ++ '\x7d' :: rest))) := by
        rw [moreFields, compactFields_cons, quoted]
        simp
      refine ⟨_, by rw [htext, fields_comma (string?_quoted k _) hv hvs], ?_⟩
      exact ofFields_cons hj hfs

end

/-- **A value is read back from its compact form.** -/
theorem parse_compact {j : Json} (h : j.Exact) : parse (String.ofList j.compact) = .ok j := by
  have hcloses : Closes [] := fun c hc => absurd hc (by simp)
  have hdepth : j.compact.length < 2 * j.compact.length + 2 := by omega
  obtain ⟨v, hv, hj⟩ := scans_compact j h hdepth hcloses
  rw [List.append_nil] at hv
  have hdocument : document j.compact = ⟨v, []⟩ := by
    rw [document, hv]
    rfl
  rw [parse, String.toList_ofList, hdocument]
  simp only [hj]
  rfl

/-! ### Control characters -/

/-- Whether the text holds no control character. -/
def Visible (cs : List Char) : Prop := ∀ c ∈ cs, 32 ≤ c.toNat

instance (cs : List Char) : Decidable (Visible cs) :=
  decidable_of_iff (cs.all fun c => 32 ≤ c.toNat) (by simp [Visible])

lemma visible_append {cs ds : List Char} : Visible (cs ++ ds) ↔ Visible cs ∧ Visible ds :=
  List.forall_mem_append

lemma visible_cons {c : Char} {cs : List Char} : Visible (c :: cs) ↔ 32 ≤ c.toNat ∧ Visible cs :=
  List.forall_mem_cons

/-- What escapes a character is no control character. -/
lemma visible_escape (c : Char) : Visible (escape c) := by
  have hdigit : ∀ m < 16, 32 ≤ (hexDigit m).toNat := by decide
  unfold escape
  split
  iterate 7 decide
  split
  · next hlow =>
    have hhigh := hdigit (c.toNat / 16) (by omega)
    have hlast := hdigit (c.toNat % 16) (by omega)
    simp only [visible_cons, hhigh, hlast, true_and]
    decide
  · next hlow => exact visible_cons.mpr ⟨by omega, by simp [Visible]⟩

/-- A quoted string has no control characters. -/
lemma visible_quoted (s : String) : Visible (quoted s) := by
  rw [quoted, visible_append, visible_cons]
  refine ⟨⟨by decide, fun c hc => ?_⟩, by decide⟩
  obtain ⟨d, -, hd⟩ := List.mem_flatMap.mp hc
  exact visible_escape d c hd

lemma visible_toString (i : ℤ) : Visible (toString i).toList := by
  have hdigits (m : ℕ) : Visible (Nat.toDigits 10 m) := by
    intro c hc
    have hdigit := UnitIndex.Text.isDigit_of_mem_toDigits hc
    simp only [Char.isDigit, Bool.and_eq_true, decide_eq_true_eq] at hdigit
    have hle : 48 ≤ c.toNat := UInt32.le_iff_toNat_le.mp hdigit.1
    omega
  cases i with
  | ofNat m =>
      rw [Int.ofNat_eq_natCast, toList_toString_natCast]
      exact hdigits m
  | negSucc m =>
      rw [toList_toString_negSucc, visible_cons]
      exact ⟨by decide, hdigits (m + 1)⟩

mutual

/-- There is no control character in a compact form, and so no line break. -/
lemma visible_compact : ∀ {j : Json}, j.Exact → Visible j.compact
  | .null, _ => by decide
  | .bool true, _ => by decide
  | .bool false, _ => by decide
  | .integer i, _ => visible_toString i
  | .string s, _ => visible_quoted s
  | .array items, h => by
      rw [compact, visible_append, visible_cons]
      exact ⟨⟨by decide, visible_compactItems h⟩, by decide⟩
  | .object fields, h => by
      rw [compact, visible_append, visible_cons]
      exact ⟨⟨by decide, visible_compactFields h⟩, by decide⟩

lemma visible_compactItems : ∀ {js : List Json}, ExactItems js → Visible (compactItems js)
  | [], _ => by simp [compactItems, Visible]
  | [j], h => visible_compact h.1
  | j :: k :: js, h => by
      rw [compactItems, visible_append, visible_cons]
      · exact ⟨visible_compact h.1, by decide, visible_compactItems h.2⟩
      · simp

lemma visible_compactFields : ∀ {fs : List (String × Json)}, ExactFields fs →
    Visible (compactFields fs)
  | [], _ => by simp [compactFields, Visible]
  | [(k, j)], h => by
      rw [compactFields, visible_append, visible_cons]
      exact ⟨visible_quoted k, by decide, visible_compact h.1⟩
  | (k, j) :: f :: fs, h => by
      rw [compactFields_cons, visible_append, visible_append, visible_cons, moreFields,
        visible_cons]
      exact ⟨⟨visible_quoted k, by decide, visible_compact h.1⟩, by decide,
        visible_compactFields h.2⟩

end

end UnitIndex.Json
