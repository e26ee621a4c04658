/-!
Cutting texts at a separator.
-/

namespace UnitIndex.Text

/-- The pieces between the occurrences of `sep`, at least one. -/
def splitOn (sep : Char) : List Char → List (List Char)
  | [] => [[]]
  | c :: cs =>
    if c = sep then [] :: splitOn sep cs
    else
      match splitOn sep cs with
      | [] => [[c]]
      | piece :: pieces => (c :: piece) :: pieces

/-- The pieces with `sep` between them. -/
def joinWith (sep : Char) : List (List Char) → List Char
  | [] => []
  | [piece] => piece
  | piece :: pieces => piece ++ sep :: joinWith sep pieces

/-- There is a piece even in the empty text. -/
theorem splitOn_ne_nil (sep : Char) (cs : List Char) : splitOn sep cs ≠ [] := by
  induction cs with
  | nil => simp [splitOn]
  | cons c cs ih =>
    rw [splitOn]
    split
    · simp
    · split <;> simp

/-- The texts before and behind the last occurrence of `mark`, when there is one. -/
def splitLast? (mark : List Char) (cs : List Char) : Option (List Char × List Char) :=
  match cs with
  | [] => none
  | c :: rest =>
    match splitLast? mark rest with
    | some (before, behind) => some (c :: before, behind)
    | none => if mark.isPrefixOf (c :: rest) then some ([], (c :: rest).drop mark.length) else none

/-- The lines of a text: pieces ended by a line feed, each without one carriage return before it;
a last piece without a line feed is a line unless it is empty. -/
def lines (cs : List Char) : List (List Char) :=
  let pieces := splitOn '\n' cs
  let ended := pieces.dropLast.map fun piece =>
    if piece.getLast? = some '\r' then piece.dropLast else piece
  match pieces.getLast? with
  | some [] | none => ended
  | some last => ended ++ [last]

end UnitIndex.Text
