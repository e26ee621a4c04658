/-!
Unsigned numerals in a positional system.

A numeral is an optional plus sign and one or more digits; leading zeros are allowed and a value
that does not fit below the limit is refused.
-/

namespace UnitIndex.Text

/-- The value of `c` as a digit of base `base`; letters count from ten in either case. -/
def digitValue? (base : Nat) (c : Char) : Option Nat :=
  let n := c.toNat
  let value :=
    if c.isDigit then some (n - 48)
    else if c.isLower then some (n - 97 + 10)
    else if c.isUpper then some (n - 65 + 10)
    else none
  value.filter (· < base)

/-- The number that the digits `cs` continue from `acc`. -/
def digitsValue? (base : Nat) (acc : Nat) : List Char → Option Nat
  | [] => some acc
  | c :: cs => do digitsValue? base (acc * base + (← digitValue? base c)) cs

/-- One or more digits with a value below `limit`. -/
def digits? (base limit : Nat) (cs : List Char) : Option Nat :=
  if cs.isEmpty then none else (digitsValue? base 0 cs).filter (· < limit)

/-- A numeral below `limit`, with or without a plus sign. -/
def numeral? (base limit : Nat) (cs : List Char) : Option Nat :=
  match cs with
  | '+' :: rest => digits? base limit rest
  | _ => digits? base limit cs

/-- Whether the number that has these decimal digits, times ten to the power of `scale`, rounds to
more than the largest double, that is, reaches the middle between that one and the next power of
two. -/
def exceedsDoubles (digits : List Char) (scale : Int) : Bool :=
  let digits := digits.dropWhile (· == '0')
  let top : Int := digits.length + scale
  if digits.isEmpty ∨ top < 308 then false
  else if top > 310 then true
  else
    let bound := Nat.pow 2 1024 - Nat.pow 2 970
    let n := (digitsValue? 10 0 digits).getD 0
    let power := Nat.pow 10 scale.natAbs
    if scale < 0 then bound * power ≤ n else bound ≤ n * power

/-- One past the largest 32-bit number. -/
def limit32 : Nat := 4294967296

/-- One past the largest 64-bit number. -/
def limit64 : Nat := 18446744073709551616

end UnitIndex.Text
