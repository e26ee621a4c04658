/-!
Type qualifiers as a set of three flags, and the words that set them.
-/

namespace UnitIndex

/-- The qualifiers of one level of a type. -/
structure Qualifiers where
  isConst : Bool := false
  isVolatile : Bool := false
  isRestrict : Bool := false
  deriving DecidableEq, Repr, Hashable, Inhabited

namespace Qualifiers

/-- No qualifier at all. -/
def none : Qualifiers := {}

/-- The qualifiers with `word` recorded, when it is a qualifier word. Nullability and alignment
annotations are qualifier words that leave no trace. -/
def absorb? (q : Qualifiers) (word : String) : Option Qualifiers :=
  match word with
  | "const" => some { q with isConst := true }
  | "volatile" => some { q with isVolatile := true }
  | "restrict" | "__restrict" | "__restrict__" => some { q with isRestrict := true }
  | "_Nonnull" | "_Nullable" | "_Null_unspecified" | "__unaligned" => some q
  | _ => Option.none

/-- Whether no flag is set. -/
def isEmpty (q : Qualifiers) : Bool := q == none

/-- The flags set in either. -/
def union (q r : Qualifiers) : Qualifiers where
  isConst := q.isConst || r.isConst
  isVolatile := q.isVolatile || r.isVolatile
  isRestrict := q.isRestrict || r.isRestrict

/-- Qualifiers are added in any grouping. -/
theorem union_assoc (p q r : Qualifiers) : (p.union q).union r = p.union (q.union r) := by
  simp [union, Bool.or_assoc]

/-- The words of the flags that are set, in the order `const`, `volatile`, `restrict`. -/
def words (q : Qualifiers) : List String :=
  (if q.isConst then ["const"] else []) ++ (if q.isVolatile then ["volatile"] else []) ++
    (if q.isRestrict then ["restrict"] else [])

/-- The words of the flags that are set, joined by single spaces. -/
def text (q : Qualifiers) : String := " ".intercalate q.words

end Qualifiers

end UnitIndex
