import UnitIndex.Text.Unprintable

/-!
Texts as they are quoted in messages.

In a quoted text quotes and backslashes have a backslash in front, the common controls have letters,
and characters that would not be seen stand as their number in hexadecimal digits.
-/

namespace UnitIndex.Text

/-- A character as it stands in a quoted text. -/
def escaped (c : Char) : List Char :=
  match c with
  | '"' => ['\\', '"']
  | '\\' => ['\\', '\\']
  | '\n' => ['\\', 'n']
  | '\r' => ['\\', 'r']
  | '\t' => ['\\', 't']
  | '\x00' => ['\\', '0']
  | c =>
    if isUnprintable c then '\\' :: 'u' :: '\x7b' :: Nat.toDigits 16 c.toNat ++ ['\x7d'] else [c]

/-- A text in quotes. -/
def quoted (s : String) : String := String.ofList ('"' :: s.toList.flatMap escaped ++ ['"'])

end UnitIndex.Text
