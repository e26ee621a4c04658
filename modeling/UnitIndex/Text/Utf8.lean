/-!
Reading bytes as UTF-8.

Programs print bytes, and not every run of bytes is text. `decode` reads what is well formed and
puts the replacement character for the rest: one for each longest piece that begins a character and
is not completed, and one for each byte that begins none. It never fails and uses up every byte.
-/

namespace UnitIndex.Text.Utf8

/-- The replacement character. -/
def replacement : Char := '\ufffd'

/-- What the first byte of a character says about the bytes behind it: how many there are, the
bounds of the first of them, and the bits that the first byte itself holds. -/
structure Lead where
  count : Nat
  least : Nat
  most : Nat
  bits : Nat
  deriving DecidableEq, Repr

/-- Read a first byte. The bounds shut out spellings that are too long, surrogates, and numbers that
no character has. -/
def lead? (b : Nat) : Option Lead :=
  if b < 0x80 then some ⟨0, 0x80, 0xbf, b⟩
  else if b < 0xc2 then none
  else if b < 0xe0 then some ⟨1, 0x80, 0xbf, b - 0xc0⟩
  else if b < 0xf0 then
    some ⟨2, if b = 0xe0 then 0xa0 else 0x80, if b = 0xed then 0x9f else 0xbf, b - 0xe0⟩
  else if b < 0xf5 then
    some ⟨3, if b = 0xf0 then 0x90 else 0x80, if b = 0xf4 then 0x8f else 0xbf, b - 0xf0⟩
  else none

/-- Read `count` bytes that continue a character: its number, if all of them are there, and what is
left. -/
def continue? : Nat → Nat → Nat → Nat → List UInt8 → Option Nat × List UInt8
  | 0, _, _, bits, bytes => (some bits, bytes)
  | _ + 1, _, _, _, [] => (none, [])
  | count + 1, least, most, bits, b :: bytes =>
    let n := b.toNat
    if least ≤ n ∧ n ≤ most then continue? count 0x80 0xbf (bits * 64 + (n - 0x80)) bytes
    else (none, b :: bytes)

/-- No byte is read twice. -/
theorem length_continue?_le (count least most bits : Nat) (bytes : List UInt8) :
    (continue? count least most bits bytes).2.length ≤ bytes.length := by
  induction count generalizing least most bits bytes with
  | zero => simp [continue?]
  | succ count ih =>
    cases bytes with
    | nil => simp [continue?]
    | cons b bytes =>
      simp only [continue?]
      split
      · exact Nat.le_trans (ih ..) (Nat.le_succ _)
      · simp

/-- The text that the bytes spell. -/
def decode : List UInt8 → List Char
  | [] => []
  | b :: bytes =>
    match lead? b.toNat with
    | none => replacement :: decode bytes
    | some lead =>
      let rest := continue? lead.count lead.least lead.most lead.bits bytes
      ((rest.1.map Char.ofNat).getD replacement) :: decode rest.2
  termination_by bytes => bytes.length
  decreasing_by
    · exact Nat.lt_succ_self _
    · exact Nat.lt_succ_of_le (length_continue?_le ..)

/-- `decode` on strings. -/
def decoded (bytes : List UInt8) : String := String.ofList (decode bytes)

end UnitIndex.Text.Utf8
