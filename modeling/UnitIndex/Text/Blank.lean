/-!
Blank characters and trimming.

`isBlank` is the `White_Space` property: the twenty-five code points that every trimming and every
"blank line" test of this library means. `trim` drops a run of them at either end and nothing else.
-/

namespace UnitIndex.Text

/-- The character property `White_Space`. -/
def isBlank (c : Char) : Bool :=
  let n := c.toNat
  (0x09 ≤ n && n ≤ 0x0d) || n == 0x20 || n == 0x85 || n == 0xa0 || n == 0x1680 ||
    (0x2000 ≤ n && n ≤ 0x200a) || n == 0x2028 || n == 0x2029 || n == 0x202f || n == 0x205f ||
    n == 0x3000

/-- Drop the blanks in front. -/
def trimStart (cs : List Char) : List Char := cs.dropWhile isBlank

/-- Drop the blanks behind. -/
def trimEnd (cs : List Char) : List Char := (cs.reverse.dropWhile isBlank).reverse

/-- Drop the blanks at both ends. -/
def trim (cs : List Char) : List Char := trimEnd (trimStart cs)

/-- `trim` on strings. -/
def trimmed (s : String) : String := String.ofList (trim s.toList)

/-- Whether nothing but blanks stands in the text. -/
def isAllBlank (s : String) : Bool := s.toList.all isBlank

end UnitIndex.Text
