/-!
Letters of ASCII in either case. Other characters have no case here.
-/

namespace UnitIndex.Text

/-- The text with its capital letters made small. -/
def lowerAscii (s : String) : String := String.ofList (s.toList.map Char.toLower)

/-- Whether two texts are equal but for the case of their letters. -/
def sameIgnoringCase (s t : String) : Bool := s.toList.map Char.toLower == t.toList.map Char.toLower

end UnitIndex.Text
