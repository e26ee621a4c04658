import UnitIndex.Number.Double

/-!
The shortest decimal text of a double.

Of all decimals that are nearer to a double than to any other, `Double.shortest` finds one with the
fewest digits, and of those the nearest. `Double.text` writes it positionally while the point is not
far from its digits, and with an exponent otherwise.
-/

namespace UnitIndex.Double

/-- A decimal `digits * 10 ^ power`. -/
structure Decimal where
  digits : Nat
  power : Int
  deriving DecidableEq, Repr

/-- The nearest multiple of a power of ten to the double, if it still rounds to the double. -/
def onGrid? (d : Double) (power : Int) : Option Decimal :=
  -- everything is counted in quarters of the double's last place
  let value := 4 * d.mantissa
  let lowest := Nat.pow 2 52
  let below := if d.mantissa = lowest ∧ leastExponent < d.exponent then value - 1 else value - 2
  let above := value + 2
  let (n, den) := shifted (if 0 ≤ power then Nat.pow 10 power.toNat else 1)
    (if 0 ≤ power then 1 else Nat.pow 10 power.natAbs) (2 - d.exponent)
  let readsBack (c : Nat) : Bool :=
    if d.mantissa % 2 = 0 then below * den ≤ c * n && c * n ≤ above * den
    else below * den < c * n && c * n < above * den
  let low := value * den / n
  let high := low + 1
  let toLow := value * den - low * n
  let toHigh := high * n - value * den
  let first := if toLow < toHigh ∨ (toLow = toHigh ∧ low % 2 = 0) then low else high
  ([first, low, high].find? fun c => 0 < c && readsBack c).map (⟨·, power⟩)

/-- No double has a digit in front of this power of ten. -/
def topPower : Int := 309

/-- How many powers of ten there are from the top to the last digit that a double can need. -/
def powers : Nat := 650

/-- The shortest decimal that rounds to the double. -/
def shortest (d : Double) : Decimal :=
  if d.mantissa = 0 then ⟨0, 0⟩
  else ((List.range powers).findSome? fun (k : Nat) => d.onGrid? (topPower - k)).getD ⟨0, 0⟩

/-- Positional notation is kept for this many digits in front of the point. -/
def mostWholeDigits : Int := 16

/-- Positional notation is kept while fewer than so many zeros follow the point. -/
def mostLeadingZeros : Int := 5

/-- The decimal as text. -/
def Decimal.text (x : Decimal) : String :=
  let digits := Nat.toDigits 10 x.digits
  let point : Int := digits.length + x.power
  let zeros (n : Int) : List Char := List.replicate n.toNat '0'
  String.ofList <|
    if x.digits = 0 then "0.0".toList
    else if 0 ≤ x.power ∧ point ≤ mostWholeDigits then digits ++ zeros x.power ++ ".0".toList
    else if 0 < point ∧ point ≤ mostWholeDigits then
      digits.take point.toNat ++ '.' :: digits.drop point.toNat
    else if -mostLeadingZeros < point ∧ point ≤ 0 then "0.".toList ++ zeros (-point) ++ digits
    else
      let exponent := 'e' :: (toString (point - 1)).toList
      match digits with
      | [d] => d :: exponent
      | d :: rest => d :: '.' :: rest ++ exponent
      | [] => exponent

/-- The shortest decimal text that rounds to the double. -/
def text (d : Double) : String := d.shortest.text

end UnitIndex.Double
