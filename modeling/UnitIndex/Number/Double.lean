/-!
Doubles: floating-point numbers with 53 binary digits.

A `Double` is kept as the exact number that it stands for, and operations are carried out on exact
numbers and rounded once (`Double.nearest`), a tie to the even neighbour. Signs, infinities and
other values that are no numbers are left to the user of the module. `Double.scaled?` is a quick way
to a double from decimal digits: one rounding for the digits, one for the power of ten and one for
their product, so that the result may differ from the nearest double in the last place, and a number
right below the end of the range may fall out of it.
-/

namespace UnitIndex

/-- The number `mantissa * 2 ^ exponent`. -/
structure Double where
  mantissa : Nat
  exponent : Int
  deriving DecidableEq, Repr

namespace Double

/-- The exponent of the smallest doubles. -/
def leastExponent : Int := -1074

/-- The exponent of the largest doubles. -/
def greatestExponent : Int := 971

/-- The double zero. -/
def zero : Double := ⟨0, leastExponent⟩

/-- The whole number nearest to a quotient, the even one of two. -/
def roundDiv (num den : Nat) : Nat :=
  let q := num / den
  let r := 2 * (num % den)
  if r > den ∨ (r = den ∧ q % 2 = 1) then q + 1 else q

/-- The quotient times a power of two, as a quotient. -/
def shifted (num den : Nat) (power : Int) : Nat × Nat :=
  if 0 ≤ power then (num * Nat.pow 2 power.toNat, den) else (num, den * Nat.pow 2 power.natAbs)

/-- The double nearest to a quotient, as if their exponents had no upper end. -/
def nearest (num den : Nat) : Double :=
  if num = 0 then zero
  else
    -- of the two exponents that the lengths leave, the one that gives 53 digits
    let low : Int := (num.log2 : Int) - den.log2 - 53
    let (n, d) := shifted num den (-low)
    let exponent := max leastExponent (if n < Nat.pow 2 53 * d then low else low + 1)
    let (n, d) := shifted num den (-exponent)
    let mantissa := roundDiv n d
    if mantissa = Nat.pow 2 53 then ⟨Nat.pow 2 52, exponent + 1⟩ else ⟨mantissa, exponent⟩

/-- Whether the number is within the range of doubles. -/
def isInRange (d : Double) : Bool := d.exponent ≤ greatestExponent

/-- The product, rounded. -/
def mul (a b : Double) : Double :=
  let (n, d) := shifted (a.mantissa * b.mantissa) 1 (a.exponent + b.exponent)
  nearest n d

/-- The quotient, rounded. -/
def div (a b : Double) : Double :=
  let (n, d) := shifted a.mantissa b.mantissa (a.exponent - b.exponent)
  nearest n d

/-- The power of ten, rounded. -/
def powerOfTen (n : Nat) : Double := nearest (Nat.pow 10 n) 1

/-- The largest power of ten within the range. -/
def maxPower : Nat := 308

/-- The quotient of a double and a power of ten, which is divided out in steps if it is large. -/
def divPower (d : Double) (power : Nat) : Double :=
  if power ≤ maxPower then d.div (powerOfTen power)
  else if d.mantissa = 0 then d
  else divPower (d.div (powerOfTen maxPower)) (power - maxPower)
  termination_by power
  decreasing_by simp only [maxPower] at *; omega

/-- The double for the digits `significand` times a power of ten, unless it is out of range. -/
def scaled? (significand : Nat) (power : Int) : Option Double :=
  let d := nearest significand 1
  if power < 0 then some (d.divPower power.natAbs)
  else if significand = 0 then some d
  else if (maxPower : Int) < power then none
  else
    let d := d.mul (powerOfTen power.toNat)
    if d.isInRange then some d else none

end Double

end UnitIndex
