import UnitIndex.Text.Split

/-!
File paths.

A path is kept as it was written. What it means is a list of components: repeated slashes and a `.`
anywhere but in front of a relative path say nothing, and two paths are the same file name when
their components agree (`Path.same`). Nothing here looks at a file system.
-/

namespace UnitIndex

/-- A path as it is written. -/
structure Path where
  text : String
  deriving DecidableEq, Repr, Hashable, Inhabited

namespace Path

open UnitIndex.Text (splitOn joinWith)

/-- A step of a path. -/
inductive Component where
  | root
  /-- A `.` in front of a relative path. -/
  | here
  | up
  | name (s : String)
  deriving DecidableEq, Repr

/-! ### Components -/

/-- Whether the path starts at the root. -/
def isAbsolute (p : Path) : Bool := p.text.toList.head? == some '/'

/-- The pieces between the slashes, without the slash of the root. -/
def pieces (p : Path) : List (List Char) :=
  match p.text.toList with
  | '/' :: rest => splitOn '/' rest
  | cs => splitOn '/' cs

/-- The component that a piece stands for; `first` when nothing stands before it. -/
def component? (first : Bool) (piece : List Char) : Option Component :=
  match piece with
  | [] => none
  | ['.'] => if first then some .here else none
  | ['.', '.'] => some .up
  | _ => some (.name (String.ofList piece))

/-- The components that the pieces stand for; `first` when nothing stands before them. -/
def componentsOf (first : Bool) : List (List Char) → List Component
  | [] => []
  | piece :: rest => (component? first piece).toList ++ componentsOf false rest

/-- The steps of the path. -/
def components (p : Path) : List Component :=
  if p.isAbsolute then .root :: componentsOf false p.pieces else componentsOf true p.pieces

/-- Whether two paths have the same steps. -/
def same (p q : Path) : Bool := p.components == q.components

/-- Whether the last steps of `p` are the steps of `q`. -/
def endsWith (p q : Path) : Bool := q.components.isSuffixOf p.components

/-- The rank of a component among components of other sorts. -/
def Component.rank : Component → Nat
  | .root => 0
  | .here => 1
  | .up => 2
  | .name _ => 3

/-- Components in order: the root, `.`, `..`, then names by their code points. -/
def Component.lt : Component → Component → Bool
  | .name s, .name t => s < t
  | a, b => a.rank < b.rank

/-- Lists of components in dictionary order. -/
def componentsLt : List Component → List Component → Bool
  | _, [] => false
  | [], _ :: _ => true
  | a :: as, b :: bs => if a = b then componentsLt as bs else a.lt b

/-- Paths in order of their components. -/
def lt (p q : Path) : Bool := componentsLt p.components q.components

/-! ### Parts -/

/-- The path behind another one: `q` alone when it is absolute, else with a slash between. -/
def join (p q : Path) : Path :=
  if q.isAbsolute then q
  else
    match p.text.toList.getLast? with
    | none | some '/' => ⟨p.text ++ q.text⟩
    | some _ => ⟨p.text ++ "/" ++ q.text⟩

/-- The pieces, last first, without those at the end that say nothing. -/
def trimmedPieces (first : Bool) : List (List Char) → List (List Char)
  | [] => []
  | piece :: before =>
    match component? (first && before.isEmpty) piece with
    | some _ => piece :: before
    | none => trimmedPieces first before

/-- The path without its last component; none for the root and the empty path. -/
def parent? (p : Path) : Option Path :=
  let relative := !p.isAbsolute
  match trimmedPieces relative p.pieces.reverse with
  | [] => none
  | _ :: before =>
    let body := String.ofList (joinWith '/' (trimmedPieces relative before).reverse)
    some ⟨if relative then body else "/" ++ body⟩

/-- The path, its parent, the parent of that, and so on; at most `n` of them. -/
def ancestorsWithin : Nat → Path → List Path
  | 0, _ => []
  | n + 1, p =>
    p :: match p.parent? with
      | some q => ancestorsWithin n q
      | none => []

/-- The path and all paths above it, nearest first. -/
def ancestors (p : Path) : List Path := ancestorsWithin (p.text.length + 2) p

/-- The last component, when it is a name. -/
def fileName? (p : Path) : Option String :=
  match p.components.getLast? with
  | some (.name s) => some s
  | _ => none

/-- What stands behind the last dot of the file name; a dot in front of the name begins none. -/
def extension? (p : Path) : Option String := do
  let name ← p.fileName?
  let (stem, ext) ← Text.splitLast? ['.'] name.toList
  if stem.isEmpty then none else some (String.ofList ext)

end Path

end UnitIndex
