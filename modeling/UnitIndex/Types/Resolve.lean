import UnitIndex.Types.Build

/-!
The declaration that defines a type.

A type is unwrapped step by step, and the first rule that applies wins:

1. a structure or union stands for its declaration;
2. so does a record of the language with classes, also behind one pointer or reference;
3. a pointer leads to its canonical pointee;
4. a template-id stands for the template that it names;
5. a reference leads to the canonical type that it refers to;
6. any other type leads to its canonical type without qualifiers.

Rules 3, 5 and 6 go on only to a different type; no type is met twice, and there are no more steps
than a limit says.
-/

namespace UnitIndex.TypeTable

/-- The limit on unwrapping unless another is set. -/
def defaultMaxDepth : Nat := 32

/-- The declaration that the type stands for without unwrapping. -/
def direct? (t : TypeTable) (q : QualType) : Option NodeId :=
  (t.structure? q).or ((t.union? q).or ((t.cxxRecord? q).or (t.pointeeCxxRecord? q)))

/-- What the rules say about a type. -/
inductive Rule (α : Type) where
  | found (decl : Option NodeId)
  /-- Go on to the canonical form of another type. -/
  | follow (next : α)
  /-- Go on to the canonical form of the type itself, without its qualifiers. -/
  | bare

/-- The first rule that applies to a type. -/
def rule (t : TypeTable) (q : QualType) : Rule QualType :=
  match t.direct? q with
  | some decl => .found (some decl)
  | none =>
    if t.isPointer q then
      match t.pointee? q with
      | some pointee => .follow pointee
      | none => .found none
    else
      match t.specialization? q with
      | some template => .found template
      | none => if t.isReference q then .follow (t.nonReference q) else .bare

/-- What the rules make of a type. -/
inductive Unwrapped (α : Type) where
  | found (decl : Option NodeId)
  | goOn (next : α)

/-- One application of the rules. -/
def unwrap (q : QualType) : TypeM (Unwrapped QualType) := do
  match (← get).rule q with
  | .found decl => return .found decl
  | .follow next => return .goOn (← canonical next)
  | .bare => return .goOn (← canonicalUnqualified q)

/-- The declaration found in at most so many steps, from a type that is met after those in
`visited`. -/
def resolveWithin : Nat → List TypeId → QualType → TypeM (Option NodeId)
  | 0, _, _ => return none
  | steps + 1, visited, q => do
    if q.type ∈ visited then return none
    match ← unwrap q with
    | .found decl => return decl
    | .goOn next =>
      if next.type = q.type then return none
      resolveWithin steps (q.type :: visited) next

/-- The declaration that defines a type. -/
def resolve (maxDepth : Nat) (q : QualType) : TypeM (Option NodeId) :=
  resolveWithin maxDepth [] q

/-- The declaration that defines the type written at a node. -/
def resolveWritten (decls : DeclTable) (maxDepth : Nat) (written : WrittenType) :
    TypeM (Option NodeId) := do
  resolve maxDepth (← writtenType decls written)

/-- Where the declaration that defines a type stands. -/
def resolveLocation (decls : DeclTable) (maxDepth : Nat) (q : QualType) :
    TypeM (Option FileLocation) := do
  let decl ← resolve maxDepth q
  return (decl.bind decls.get?).bind (·.location)

end UnitIndex.TypeTable
