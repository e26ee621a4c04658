import UnitIndex.Text.Ascii
import UnitIndex.Text.Blank
import UnitIndex.Walk.State

/-!
Settings, their defaults, and their normal form.

Settings come from a file and from the command line as people write them. `Settings.normalized`
trims texts, drops empty ones, forces numbers into their bounds, and falls back to defaults where
nothing is left.
-/

namespace UnitIndex

/-! ### How the front-end is run -/

/-- How the front-end is run. -/
structure CompilerSettings where
  /-- The program. -/
  frontEnd : String := "clang"
  /-- The language standard. -/
  standard : Option String := none
  includePaths : List String := []
  /-- Macros, `NAME` or `NAME=VALUE`. -/
  defines : List String := []
  /-- Headers to be included before every source. -/
  preIncludes : List String := []
  extraFlags : List String := []
  deriving DecidableEq, Repr

namespace CompilerSettings

/-- The flags that the settings stand for: the standard, macros, include paths, headers included
before, and the others. -/
def flags (c : CompilerSettings) : List String :=
  (c.standard.map ("-std=" ++ ·)).toList ++ c.defines.map ("-D" ++ ·) ++
    c.includePaths.map ("-I" ++ ·) ++ (c.preIncludes.flatMap fun h => ["-include", h]) ++
    c.extraFlags

/-- Texts trimmed, without those that are empty then. -/
def cleaned (texts : List String) : List String := (texts.map Text.trimmed).filter (· ≠ "")

/-- The normal form. -/
def normalized (c : CompilerSettings) : CompilerSettings :=
  let frontEnd := Text.trimmed c.frontEnd
  { frontEnd := if frontEnd = "" then ({} : CompilerSettings).frontEnd else frontEnd
    standard := (c.standard.map Text.trimmed).filter (· ≠ "")
    includePaths := cleaned c.includePaths
    defines := cleaned c.defines
    preIncludes := cleaned c.preIncludes
    extraFlags := cleaned c.extraFlags }

end CompilerSettings

/-! ### What is indexed -/

/-- What is indexed and how far. -/
structure IndexingSettings where
  indexLocals : Bool := false
  typeUses : Bool := false
  maxTypeDepth : Nat := TypeTable.defaultMaxDepth
  /-- The extensions of the files that are picked from a directory. -/
  extensions : List String := ["c", "cc", "cpp", "cxx", "c++", "m", "mm"]
  /-- Seconds after which a job is given up. -/
  timeoutSecs : Option Nat := none
  deriving DecidableEq, Repr

namespace IndexingSettings

/-- The least limit on unwrapping types. -/
def leastTypeDepth : Nat := 4

/-- The greatest limit on unwrapping types. -/
def mostTypeDepth : Nat := 256

/-- The options of a walk. -/
def walkOptions (s : IndexingSettings) : WalkOptions :=
  ⟨s.indexLocals, s.typeUses, s.maxTypeDepth⟩

/-- Whether files with that extension are picked. -/
def picks (s : IndexingSettings) (ext : String) : Bool :=
  s.extensions.any fun e => Text.sameIgnoringCase e ext

/-- An extension in small letters, without blanks around it and without dots in front. -/
def cleanExtension (ext : String) : String :=
  Text.lowerAscii (String.ofList ((Text.trim ext.toList).dropWhile (· == '.')))

/-- The list without repetitions, each element at its first place; `seen` are left out too. -/
def withoutRepeats (seen : List String) : List String → List String
  | [] => []
  | e :: es => if e ∈ seen then withoutRepeats seen es else e :: withoutRepeats (e :: seen) es

/-- The normal form. -/
def normalized (s : IndexingSettings) : IndexingSettings :=
  let extensions := withoutRepeats [] ((s.extensions.map cleanExtension).filter (· ≠ ""))
  { s with
    maxTypeDepth := max leastTypeDepth (min s.maxTypeDepth mostTypeDepth)
    timeoutSecs := s.timeoutSecs.filter (0 < ·)
    extensions :=
      if extensions.isEmpty then ({} : IndexingSettings).extensions else extensions }

end IndexingSettings

/-! ### How much is logged -/

/-- How much is logged, from least to most. -/
inductive LogLevel where
  | error
  | warn
  | info
  | debug
  | trace
  deriving DecidableEq, Repr

namespace LogLevel

/-- Every level, from least to most. -/
def all : List LogLevel := [error, warn, info, debug, trace]

/-- The word for the level. -/
def word : LogLevel → String
  | error => "error"
  | warn => "warn"
  | info => "info"
  | debug => "debug"
  | trace => "trace"

/-- The level that a word names. -/
def ofWord? (word : String) : Option LogLevel := all.find? fun l => l.word == word

/-- The place of the level, counted from the least. -/
def rank : LogLevel → Nat
  | error => 0
  | warn => 1
  | info => 2
  | debug => 3
  | trace => 4

/-- The level so many steps up, as far as there are steps. -/
def raised (l : LogLevel) (steps : Nat) : LogLevel := (all[l.rank + steps]?).getD trace

/-- The higher of two levels. -/
def atLeast (l m : LogLevel) : LogLevel := if l.rank < m.rank then m else l

end LogLevel

/-! ### All settings -/

/-- The settings of a run. -/
structure Settings where
  compiler : CompilerSettings := {}
  indexing : IndexingSettings := {}
  level : LogLevel := .info
  /-- How many units are indexed at a time; zero for one to a processor. -/
  workers : Nat := 0
  deriving DecidableEq, Repr

namespace Settings

/-- No more units than this are indexed at a time. -/
def mostWorkers : Nat := 64

/-- How many units are indexed at a time on a machine with so many processors. -/
def workersOn (s : Settings) (processors : Nat) : Nat :=
  if s.workers = 0 then min (max processors 1) mostWorkers else s.workers

/-- The normal form. -/
def normalized (s : Settings) : Settings :=
  { s with
    compiler := s.compiler.normalized
    indexing := s.indexing.normalized
    workers := min s.workers mostWorkers }

end Settings

end UnitIndex
