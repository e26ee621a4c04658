import UnitIndex.Host.FileTree
import UnitIndex.Settings.Basic
import UnitIndex.Toml.Marked

/-!
Settings files.

A settings file is a TOML document with the tables `compiler`, `indexing`, `logging` and
`thread_pool`. What it says replaces the defaults, names that are not known say nothing, and a known
name with a value of another sort makes the file invalid. A date or time in place of a table says
nothing either.
-/

namespace UnitIndex

namespace Settings

/-! ### Values -/

/-- A string. -/
def textOf? : Toml → Option String
  | .string s => some s
  | _ => none

/-- An array of strings. -/
def textsOf? : Toml → Option (List String)
  | .array items => items.mapM textOf?
  | _ => none

/-- A truth value. -/
def flagOf? : Toml → Option Bool
  | .bool b => some b
  | _ => none

/-- An integer that is not negative. -/
def countOf? : Toml → Option Nat
  | .integer (.ofNat n) => some n
  | _ => none

/-- A level: its word, alone or as the name of the only field of a table that holds nothing. -/
def levelOf? : Toml → Option LogLevel
  | .string s => LogLevel.ofWord? s
  | .inlineTable [(s, v)] | .table _ [(s, v)] =>
    match v with
    | .array [] | .tables [] | .inlineTable [] | .table _ [] => LogLevel.ofWord? s
    | _ => none
  | _ => none

/-- The value of a field, or `default` when it is not there. -/
def fieldOr {α : Type} (fields : Toml.Fields) (name : String) (read? : Toml → Option α)
    (default : α) : Option α :=
  match fields.lookup name with
  | some v => read? v
  | none => some default

/-! ### Tables -/

/-- The fields of a value that stands for a section; a date or time has none that is known. -/
def sectionOf? : Toml → Option Toml.Fields
  | .dateTime => some []
  | v => v.fields?

/-- The fields, if those with names that are not known can be passed over. -/
def knowing? (known : List String) (fields : Toml.Fields) : Option Toml.Fields :=
  if fields.all fun (name, v) => known.contains name || v.isSound then some fields else none

/-- The fields of a section; a section that is not there has none. -/
def section? (root : Toml.Fields) (name : String) (known : List String) : Option Toml.Fields := do
  knowing? known (← fieldOr root name sectionOf? [])

/-- Settings for the front-end. -/
def compilerOf? (fields : Toml.Fields) : Option CompilerSettings := do
  let c : CompilerSettings := {}
  return {
    frontEnd := ← fieldOr fields "clang_path" textOf? c.frontEnd
    standard := ← fieldOr fields "std" (fun v => (textOf? v).map some) c.standard
    includePaths := ← fieldOr fields "include_paths" textsOf? c.includePaths
    defines := ← fieldOr fields "defines" textsOf? c.defines
    preIncludes := ← fieldOr fields "pre_includes" textsOf? c.preIncludes
    extraFlags := ← fieldOr fields "extra_flags" textsOf? c.extraFlags }

/-- Settings for what is indexed. -/
def indexingOf? (fields : Toml.Fields) : Option IndexingSettings := do
  let s : IndexingSettings := {}
  return {
    indexLocals := ← fieldOr fields "index_locals" flagOf? s.indexLocals
    typeUses := ← fieldOr fields "type_uses" flagOf? s.typeUses
    maxTypeDepth := ← fieldOr fields "max_type_depth" countOf? s.maxTypeDepth
    extensions := ← fieldOr fields "extensions" textsOf? s.extensions
    timeoutSecs := ← fieldOr fields "timeout_secs" (fun v => (countOf? v).map some)
      s.timeoutSecs }

/-- The settings as a document writes them, if it is valid: what it says, and defaults. -/
def written? (text : String) : Option Settings := do
  let root ← knowing? ["compiler", "indexing", "logging", "thread_pool"] (← Toml.parse? text)
  let compiler ← compilerOf? (← section? root "compiler"
    ["clang_path", "std", "include_paths", "defines", "pre_includes", "extra_flags"])
  let indexing ← indexingOf? (← section? root "indexing"
    ["index_locals", "type_uses", "max_type_depth", "extensions", "timeout_secs"])
  let level ← fieldOr (← section? root "logging" ["level"]) "level" levelOf?
    ({} : Settings).level
  let workers ← fieldOr (← section? root "thread_pool" ["worker_threads"]) "worker_threads" countOf?
    ({} : Settings).workers
  return ⟨compiler, indexing, level, workers⟩

/-- The settings of a document, if it is valid. -/
def ofText? (text : String) : Option Settings := (written? text).map normalized

/-! ### Files -/

/-- Why settings cannot be had. -/
inductive LoadError where
  | unreadable (file : Path)
  | invalid (file : Path)
  deriving DecidableEq, Repr

/-- The message for people. -/
def LoadError.message : LoadError → String
  | unreadable file => s!"failed to read {file.text}"
  | invalid file => s!"invalid settings in {file.text}"

/-- The settings in a file. -/
def load (tree : FileTree) (file : Path) : Except LoadError Settings :=
  match tree.readText? file with
  | none => .error (.unreadable file)
  | some text =>
    match ofText? text with
    | none => .error (.invalid file)
    | some s => .ok s

/-- The name of a settings file. -/
def fileName : Path := ⟨"tu-indexer.toml"⟩

/-- The nearest settings file in a directory or above it; a file stands for its directory. -/
def findFile? (tree : FileTree) (start : Path) : Option Path := do
  let start ← if tree.isFile start then start.parent? else some start
  (start.ancestors.map (·.join fileName)).find? tree.isFile

/-- The settings that hold in a directory, and the file that they come from. -/
def discover (tree : FileTree) (start : Path) : Except LoadError (Settings × Option Path) :=
  match findFile? tree start with
  | none => .ok ({}, none)
  | some file => do return (← load tree file, some file)

end Settings

end UnitIndex
