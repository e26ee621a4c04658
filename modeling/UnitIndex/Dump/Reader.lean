import UnitIndex.Dump.Node
import UnitIndex.Json.Scanned

/-!
Reading a syntax-tree dump.

A dump is one JSON value, read in one pass. The front-end prints the file and the line of a location
only where they differ from those of the location before, so the reader carries both along
(`Carry`), through every location in text order and at any nesting; a value that is passed over
leaves them alone. The kind of a node decides which of its other keys are read.
-/

namespace UnitIndex

namespace Dump

/-- The file and line of the last location read. -/
structure Carry where
  file : String := ""
  line : UInt64 := 0
  deriving DecidableEq, Repr

/-- Reads with the carried position, or raises the first snag. -/
abbrev Read := StateT Carry (Except Snag)

/-- A field of a scanned object. -/
abbrev Field := FieldName × Scanned

/-! ### Simple values -/

/-- The place where an object or array ends. -/
def ended : Ending → Read Place
  | .closed after => pure after
  | .stops read _ => throw read

/-- What is raised where an object or array ends although more is wanted. -/
def endedEarly {α : Type} (cause : FaultCause) (ending : Ending) : Read α := do
  throw ⟨cause, ← ended ending⟩

/-- The name of a field that is about to be read, and the place where someone stops who does not
want it. -/
def keyName : FieldName → Read (String × Place)
  | .plain name place => pure (name, place)
  | .unreadable read => throw read
  | .broken read _ => throw read

/-- A string. -/
def string : Scanned → Read String
  | .string s _ => pure s
  | v => throw (v.refusal "a string")

/-- A truth value. -/
def bool : Scanned → Read Bool
  | .bool b _ => pure b
  | v => throw (v.refusal "a boolean")

/-- A number of 64 bits without sign. -/
def word : Scanned → Read UInt64
  | .integer (.ofNat n) after =>
    if n < UInt64.size then pure (UInt64.ofNat n)
    else throw ⟨.wrongValue (.integer n) "usize", after⟩
  | .integer n after => throw ⟨.wrongValue (.integer n) "usize", after⟩
  | v => throw (v.refusal "usize")

/-- The node id that a text spells: `0x` and hexadecimal digits. -/
def idOfText? (text : String) : Option NodeId :=
  match text.toList with
  | '0' :: 'x' :: digits =>
    (Text.numeral? 16 Text.limit64 digits).map fun n => ⟨UInt64.ofNat n⟩
  | _ => none

/-- What a node id is called in messages. -/
def idWords : String := "clang syntax tree node id"

/-- A node id, as a string. -/
def id : Scanned → Read NodeId
  | .string s after =>
    match idOfText? s with
    | some i => pure i
    | none => throw ⟨.wrongValue (.string s) idWords, after⟩
  | v => throw (v.refusal idWords)

/-- A value that may be null. -/
def optional {α : Type} (read : Scanned → Read α) : Scanned → Read (Option α)
  | .null _ => pure none
  | v => some <$> read v

/-- Pass over a value. -/
def skip (v : Scanned) : Read Unit :=
  match v.skipSnag? with
  | some snag => throw snag
  | none => pure ()

/-! ### Locations -/

/-- The fields behind a file that another one includes; `file` is the including file once read, and
`nested` whether the includer's own origin has been seen. -/
def includerFields (file : Option String) (nested : Bool) : List Field → Ending → Read String
  | [], ending =>
    match file with
    | some f => do
      let _ ← ended ending
      pure f
    | none => endedEarly (.missingField "file") ending
  | (key, v) :: rest, ending => do
    let (name, place) ← keyName key
    match name with
    | "file" =>
      if file.isSome then throw ⟨.repeatedField "file", place⟩
      includerFields (some (← string v)) nested rest ending
    | "includedFrom" =>
      if nested then throw ⟨.repeatedField "includedFrom", place⟩
      skip v
      includerFields file true rest ending
    | _ => throw ⟨.unknownField name ["includedFrom", "file"], place⟩

/-- The file that an `includedFrom` object names. -/
def includer : Scanned → Read String
  | .object fields ending _ => includerFields none false fields ending
  | v => throw (v.refusal "struct IncludedFrom")

/-- A bare location in the making. -/
structure BareDraft where
  offset : UInt64
  file : Option String := none
  line : Option UInt64 := none
  col : Option UInt64 := none
  tokLen : Option UInt64 := none
  presumedFile : Option String := none
  presumedLine : Option UInt64 := none
  includedFrom : Option String := none
  isMacroArg : Bool := false

/-- The finished location: a file or line that is not given is that of the last location, and a
given one is carried on. Its object ends at `place`. -/
def BareDraft.finish (d : BareDraft) (place : Place) : Read BareLocation := do
  let some col := d.col | throw ⟨.missingField "col", place⟩
  let some tokLen := d.tokLen | throw ⟨.missingField "tokLen", place⟩
  let carry ← get
  let file := d.file.getD carry.file
  let line := d.line.getD carry.line
  set (⟨file, line⟩ : Carry)
  return {
    offset := d.offset, file := file, line := line, col := col, tokLen := tokLen,
    presumedFile := d.presumedFile, presumedLine := d.presumedLine,
    includedFrom := d.includedFrom, isMacroArg := d.isMacroArg }

/-- The names of the fields of locations. -/
def locationFields : List String :=
  ["spellingLoc", "expansionLoc", "offset", "file", "line", "presumedFile", "presumedLine", "col",
    "tokLen", "includedFrom", "isMacroArgExpansion"]

/-- The fields of a bare location behind its offset; of a repeated one the last counts. -/
def bareFields (d : BareDraft) : List Field → Ending → Read BareLocation
  | [], ending => do d.finish (← ended ending)
  | (key, v) :: rest, ending => do
    let (name, place) ← keyName key
    let d ←
      match name with
      | "file" => do pure { d with file := some (← string v) }
      | "line" => do pure { d with line := some (← word v) }
      | "presumedFile" => do pure { d with presumedFile := some (← string v) }
      | "presumedLine" => do pure { d with presumedLine := some (← word v) }
      | "col" => do pure { d with col := some (← word v) }
      | "tokLen" => do pure { d with tokLen := some (← word v) }
      | "includedFrom" => do pure { d with includedFrom := some (← includer v) }
      | "isMacroArgExpansion" => do pure { d with isMacroArg := ← bool v }
      | _ => throw ⟨.unknownField name locationFields, place⟩
    bareFields d rest ending

/-- What a location is called in messages. -/
def locationWords : String := "clang source location"

/-- A bare location: its first field is its offset. -/
def bareLocation : Scanned → Read BareLocation
  | .object ((key, v) :: rest) ending _ => do
    let (name, place) ← keyName key
    match name with
    | "offset" => bareFields { offset := ← word v } rest ending
    | _ => throw ⟨.unknownField name locationFields, place⟩
  | .object [] ending _ => endedEarly (.missingField "offset") ending
  | v => throw (v.refusal locationWords)

/-- A location: nothing, a bare location that serves for both parts, or the two parts in order,
behind which the object must end. -/
def location : Scanned → Read SourceLocation
  | .object [] ending _ => do
    let _ ← ended ending
    return {}
  | .object ((key, v) :: rest) ending _ => do
    let (name, place) ← keyName key
    match name with
    | "offset" =>
      let bare ← bareFields { offset := ← word v } rest ending
      return { spelling := some bare, expansion := some bare }
    | "spellingLoc" =>
      let spelling ← bareLocation v
      match rest with
      | [] => endedEarly (.missingField "expansionLoc") ending
      | (key, v) :: _ =>
        let (name, place) ← keyName key
        match name with
        | "expansionLoc" =>
          let expansion ← bareLocation v
          v.objectCloses
          return { spelling := some spelling, expansion := some expansion }
        | _ => throw ⟨.unknownField name locationFields, place⟩
    | _ => throw ⟨.unknownField name locationFields, place⟩
  | v => throw (v.refusal locationWords)

/-- The fields of a range, its two ends in either order. -/
def rangeFields (start stop : Option SourceLocation) : List Field → Ending → Read SourceRange
  | [], ending =>
    match start, stop with
    | some start, some stop => do
      let _ ← ended ending
      pure ⟨start, stop⟩
    | none, _ => endedEarly (.missingField "begin") ending
    | _, none => endedEarly (.missingField "end") ending
  | (key, v) :: rest, ending => do
    let (name, place) ← keyName key
    match name with
    | "begin" =>
      if start.isSome then throw ⟨.repeatedField "begin", place⟩
      rangeFields (some (← location v)) stop rest ending
    | "end" =>
      if stop.isSome then throw ⟨.repeatedField "end", place⟩
      rangeFields start (some (← location v)) rest ending
    | _ => throw ⟨.unknownField name ["begin", "end"], place⟩

/-- A range: an object with its two ends and nothing else. -/
def range : Scanned → Read SourceRange
  | .object fields ending _ => rangeFields none none fields ending
  | v => throw (v.refusal "clang source range")

/-! ### Types and mentioned declarations -/

/-- The fields of a record, each at most once; `set?` tells how a field of that name is read, and
other fields are passed over. -/
def recordFields {α : Type} (set? : α → String → Option (Scanned → Read α)) (seen : List String)
    (record : α) : List Field → Ending → Read α
  | [], ending => do
    let _ ← ended ending
    return record
  | (key, v) :: rest, ending => do
    let (name, place) ← keyName key
    match set? record name with
    | none =>
      skip v
      recordFields set? seen record rest ending
    | some read =>
      if name ∈ seen then throw ⟨.repeatedField name, place⟩
      recordFields set? (name :: seen) (← read v) rest ending

/-- How a field of a written type is read. -/
def setType? (t : WrittenType) (key : String) : Option (Scanned → Read WrittenType) :=
  match key with
  | "qualType" => some fun v => do return { t with qualType := ← optional string v }
  | "desugaredQualType" => some fun v => do return { t with desugared := ← optional string v }
  | "typeAliasDeclId" => some fun v => do return { t with aliasId := ← optional id v }
  | _ => none

/-- What a written type is called in messages. -/
def typeWords : String := "struct QualType"

/-- A written type, as an object or as the list of its three parts. -/
def writtenType : Scanned → Read WrittenType
  | .object fields ending _ => recordFields setType? [] {} fields ending
  | .array items ending _ => do
    let short (n : Nat) : Read WrittenType :=
      endedEarly (.wrongLength n s!"{typeWords} with 3 elements") ending
    let a :: items := items | short 0
    let qualType ← optional string a
    let b :: items := items | short 1
    let desugared ← optional string b
    let c :: _ := items | short 2
    let aliasId ← optional id c
    c.arrayCloses
    return ⟨qualType, desugared, aliasId⟩
  | v => throw (v.refusal typeWords)

/-- A mentioned declaration in the making. -/
structure MentionDraft where
  id : Option NodeId := none
  kind : Option String := none
  name : Option String := none
  type : Option WrittenType := none

/-- How a field of a mentioned declaration is read. -/
def setMention? (m : MentionDraft) (key : String) : Option (Scanned → Read MentionDraft) :=
  match key with
  | "id" => some fun v => do return { m with id := some (← id v) }
  | "kind" => some fun v => do return { m with kind := ← optional string v }
  | "name" => some fun v => do return { m with name := ← optional string v }
  | "type" => some fun v => do return { m with type := ← optional writtenType v }
  | _ => none

/-- What a mentioned declaration is called in messages. -/
def mentionWords : String := "struct BareDecl"

/-- A mentioned declaration, as an object with an id or as the list of its four parts. -/
def mention : Scanned → Read DeclMention
  | .object fields ending _ => do
    let m ← recordFields setMention? [] {} fields ending
    match m.id with
    | some id => return ⟨id, m.kind, m.name, m.type⟩
    | none => endedEarly (.missingField "id") ending
  | .array items ending _ => do
    let short (n : Nat) : Read DeclMention :=
      endedEarly (.wrongLength n s!"{mentionWords} with 4 elements") ending
    let a :: items := items | short 0
    let id ← id a
    let b :: items := items | short 1
    let kind ← optional string b
    let c :: items := items | short 2
    let name ← optional string c
    let d :: _ := items | short 3
    let type ← optional writtenType d
    d.arrayCloses
    return ⟨id, kind, name, type⟩
  | v => throw (v.refusal mentionWords)

/-! ### Nodes -/

/-- How a field of a declaration is read. -/
def setDecl? (d : DeclData) (key : String) : Option (Scanned → Read DeclData) :=
  match key with
  | "name" => some fun v => do return { d with name := ← optional string v }
  | "loc" => some fun v => do return { d with loc := ← optional location v }
  | "range" => some fun v => do return { d with range := ← optional range v }
  | "isImplicit" => some fun v => do return { d with implicitMark := ← optional bool v }
  | "type" => some fun v => do return { d with type := ← optional writtenType v }
  | "previousDecl" => some fun v => do return { d with previous := ← optional id v }
  | "parentDeclContextId" => some fun v => do return { d with parentContext := ← optional id v }
  | "storageClass" => some fun v => do return { d with storageClass := ← optional string v }
  | "init" => some fun v => do return { d with init := ← optional string v }
  | "completeDefinition" => some fun v => do
      return { d with completeDefinition := ← optional bool v }
  | "tagUsed" => some fun v => do return { d with tagUsed := ← optional string v }
  | "scopedEnumTag" => some fun v => do return { d with scopedEnumTag := ← optional string v }
  | "explicitlyDefaulted" => some fun v => do
      return { d with explicitlyDefaulted := ← optional string v }
  | "explicitlyDeleted" => some fun v => do
      return { d with explicitlyDeleted := ← optional bool v }
  | _ => none

/-- How a field of an expression is read. -/
def setExpr? (d : ExprData) (key : String) : Option (Scanned → Read ExprData) :=
  match key with
  | "loc" => some fun v => do return { d with loc := ← optional location v }
  | "range" => some fun v => do return { d with range := ← optional range v }
  | "type" => some fun v => do return { d with type := ← optional writtenType v }
  | "argType" => some fun v => do return { d with argType := ← optional writtenType v }
  | "typeArg" => some fun v => do return { d with typeArg := ← optional writtenType v }
  | _ => none

/-- How a field of a name reference is read. -/
def setRef? (d : RefData) (key : String) : Option (Scanned → Read RefData) :=
  match key with
  | "loc" => some fun v => do return { d with loc := ← optional location v }
  | "range" => some fun v => do return { d with range := ← optional range v }
  | "referencedDecl" => some fun v => do return { d with referenced := ← optional mention v }
  | "referencedMemberDecl" => some fun v => do
      return { d with referencedMember := ← optional id v }
  | "name" => some fun v => do return { d with name := ← optional string v }
  | "isImplicit" => some fun v => do return { d with implicitMark := ← optional bool v }
  | _ => none

/-- How a field of a constructor initializer is read. -/
def setInit? (d : CtorInit) (key : String) : Option (Scanned → Read CtorInit) :=
  match key with
  | "anyInit" => some fun v => do return { d with member := ← optional mention v }
  | "baseInit" => some fun v => do return { d with base := ← optional writtenType v }
  | "delegatingInit" => some fun v => do return { d with delegating := ← optional writtenType v }
  | _ => none

/-- How a field of a node is read, its children apart. -/
def setContent? (c : Content) (key : String) : Option (Scanned → Read Content) :=
  match c with
  | .decl kind d => (setDecl? d key).map fun read v => .decl kind <$> read v
  | .expr kind d => (setExpr? d key).map fun read v => .expr kind <$> read v
  | .ref kind d => (setRef? d key).map fun read v => .ref kind <$> read v
  | .ctorInit d => (setInit? d key).map fun read v => .ctorInit <$> read v
  | .other kind loc range_ =>
    match key with
    | "kind" => some fun v => do return .other (← optional string v) loc range_
    | "loc" => some fun v => do return .other kind (← optional location v) range_
    | "range" => some fun v => do return .other kind loc (← optional range v)
    | _ => none

/-- A node of that kind about which nothing is known yet, and the fields that are settled: a kind
that is not told apart keeps its name, except that the name `Other` is no name. -/
def emptyContent (kind : String) : Content × List String :=
  match DeclKind.ofName? kind, ExprKind.ofName? kind, RefKind.ofName? kind with
  | some k, _, _ => (.decl k {}, [])
  | _, some k, _ => (.expr k {}, [])
  | _, _, some k => (.ref k {}, [])
  | none, none, none =>
    if kind = "CXXCtorInitializer" then (.ctorInit {}, [])
    else if kind = "Other" then (.other none none none, [])
    else (.other (some kind) none none, ["kind"])

/-- The name of a node's kind. -/
def kindName : Scanned → Read String
  | .string s _ => pure s
  | v => throw (v.refusal "clang syntax tree node kind")

mutual

/-- A node. -/
def node : Scanned → Read Node
  | .object fields ending _ => headFields none fields ending
  | v => throw (v.refusal "clang syntax tree node")

/-- The fields of a node up to its kind: an id and nothing else. -/
def headFields (id? : Option NodeId) : List Field → Ending → Read Node
  | [], ending => do
    let _ ← ended ending
    return ⟨id?.getD ⟨0⟩, .other none none none, []⟩
  | (key, v) :: rest, ending => do
    let (name, place) ← keyName key
    match name with
    | "id" =>
      if id?.isSome then throw ⟨.repeatedField "id", place⟩
      headFields (some (← id v)) rest ending
    | "kind" =>
      let (content, seen) := emptyContent (← kindName v)
      bodyFields (id?.getD ⟨0⟩) content seen [] rest ending
    | "inner" => throw ⟨.missingField "kind", place⟩
    | _ => throw ⟨.unknownField name ["id", "kind", "inner"], place⟩

/-- The fields of a node behind its kind. Children given again replace those given before. -/
def bodyFields (self : NodeId) (content : Content) (seen : List String) (inner : List Node) :
    List Field → Ending → Read Node
  | [], ending => do
    let _ ← ended ending
    return ⟨self, content, inner⟩
  | (.plain "inner" _, v) :: rest, ending => do
    bodyFields self content seen (← children v) rest ending
  | (key, v) :: rest, ending => do
    let (name, place) ← keyName key
    match setContent? content name with
    | none =>
      skip v
      bodyFields self content seen inner rest ending
    | some read =>
      if name ∈ seen then throw ⟨.repeatedField name, place⟩
      bodyFields self (← read v) (name :: seen) inner rest ending

/-- The children of a node. -/
def children : Scanned → Read (List Node)
  | .array items ending _ => nodes items ending
  | v => throw (v.refusal "a sequence")

/-- The nodes of an array. -/
def nodes : List Scanned → Ending → Read (List Node)
  | [], ending => do
    let _ ← ended ending
    return []
  | v :: rest, ending => return (← node v) :: (← nodes rest ending)

end

/-- The tree of a dump. -/
def read (text : String) : Except Fault Node :=
  let found : Except Snag Node := do
    let d := Scanned.document text.toList
    let (root, _) ← (node d.root).run {}
    match d.snag? with
    | some snag => throw snag
    | none => return root
  found.mapError (·.fault text.toList)

end Dump

end UnitIndex
