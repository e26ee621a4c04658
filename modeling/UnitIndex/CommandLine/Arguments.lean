import UnitIndex.CommandLine.Option
import UnitIndex.Path
import UnitIndex.Text.Numeral
import UnitIndex.Text.Split

/-!
Reading the command line.

A value stands behind its option in the next argument, or in the same argument behind `=`, or, for a
letter, right behind it; letters without values can share an argument. Behind a `--` every argument
is a path. Arguments are read in order and the first mistake counts, but a value is looked at only
when the next option that is known comes, or the end. So an unknown option is reported before a bad
value in front of it.
-/

namespace UnitIndex

/-- Why a command line is not carried out. The last two are requests. -/
inductive UsageStop where
  | unknownOption (name : String)
  /-- No path at all. -/
  | noPaths
  /-- An option without its value, or an empty path. -/
  | missingValue
  /-- A value that is no number. -/
  | badValue (value : String)
  /-- An option given twice that may be given once. -/
  | repeated (o : CliOption)
  /-- A value for an option that takes none. -/
  | extraValue (o : CliOption)
  | helpWanted
  | versionWanted
  deriving DecidableEq, Repr

/-- The message for people; requests have none. -/
def UsageStop.message? : UsageStop → Option String
  | unknownOption name => some s!"unknown option {name}"
  | noPaths => some "no source files or directories are given"
  | missingValue => some "a value is missing"
  | badValue value => some s!"{value} is no number"
  | repeated o => some s!"option {o.longName} is given twice"
  | extraValue o => some s!"option {o.longName} takes no value"
  | helpWanted | versionWanted => none

/-- What the command line says. -/
structure Arguments where
  includePaths : List String := []
  preIncludes : List String := []
  defines : List String := []
  logFile : Option Path := none
  /-- Whether the log file is appended to. -/
  append : Bool := false
  /-- How often more logging was asked for, up to 255. -/
  verbosity : Nat := 0
  workers : Option Nat := none
  frontEnd : Option String := none
  standard : Option String := none
  settingsFile : Option Path := none
  /-- A file with the text of the only source. -/
  unsaved : Option Path := none
  output : Option Path := none
  indexLocals : Bool := false
  typeUses : Bool := false
  paths : List Path := []
  deriving DecidableEq, Repr

namespace Arguments

/-- More logging is asked for no more often than this. -/
def mostVerbosity : Nat := 255

/-- A path, which is not empty. -/
def path (value : String) : Except UsageStop Path :=
  if value = "" then .error .missingValue else .ok ⟨value⟩

/-- A number of 64 bits. -/
def number (value : String) : Except UsageStop Nat :=
  match Text.numeral? 10 Text.limit64 value.toList with
  | some n => .ok n
  | none => .error (.badValue value)

/-- Take note of an option that takes a value. -/
def withValue (a : Arguments) (value : String) : CliOption → Except UsageStop Arguments
  | .includePath => .ok { a with includePaths := a.includePaths ++ [value] }
  | .preInclude => .ok { a with preIncludes := a.preIncludes ++ [value] }
  | .define => .ok { a with defines := a.defines ++ [value] }
  | .frontEnd => .ok { a with frontEnd := some value }
  | .standard => .ok { a with standard := some value }
  | .workers => return { a with workers := some (← number value) }
  | .logFile => return { a with logFile := some (← path value) }
  | .settingsFile => return { a with settingsFile := some (← path value) }
  | .unsaved => return { a with unsaved := some (← path value) }
  | .output => return { a with output := some (← path value) }
  | _ => .ok a

/-- Take note of an option that takes no value. -/
def withFlag (a : Arguments) : CliOption → Except UsageStop Arguments
  | .append => .ok { a with append := true }
  | .verbose => .ok { a with verbosity := min (a.verbosity + 1) mostVerbosity }
  | .indexLocals => .ok { a with indexLocals := true }
  | .typeUses => .ok { a with typeUses := true }
  | .help => .error .helpWanted
  | .version => .error .versionWanted
  | _ => .ok a

end Arguments

/-! ### Reading in order -/

/-- What was read and is not looked at yet. -/
inductive Pending where
  | none
  /-- An option whose value is still to come. -/
  | awaiting (o : CliOption)
  | value (o : CliOption) (value : String)
  | paths (values : List String)
  deriving DecidableEq, Repr

/-- The state of reading a command line. -/
structure ArgumentReader where
  arguments : Arguments := {}
  /-- The options that have been looked at. -/
  seen : List CliOption := []
  pending : Pending := .none
  /-- Whether every argument from here on is a path. -/
  onlyPaths : Bool := false
  deriving Repr

namespace ArgumentReader

/-- Look at an option with its value, or at one that takes none. -/
def use (r : ArgumentReader) (o : CliOption) (value : Option String) :
    Except UsageStop ArgumentReader := do
  if !o.isRepeatable && r.seen.contains o then .error (.repeated o)
  else
    let arguments ← match value with
      | some value => r.arguments.withValue value o
      | none => r.arguments.withFlag o
    return { r with arguments := arguments, seen := o :: r.seen }

/-- Look at what is pending. -/
def settle (r : ArgumentReader) : Except UsageStop ArgumentReader := do
  let idle := { r with pending := .none }
  match r.pending with
  | .none => .ok idle
  | .awaiting _ => .error .missingValue
  | .value o value => idle.use o value
  | .paths values =>
    let paths ← values.mapM Arguments.path
    return { idle with arguments.paths := r.arguments.paths ++ paths }

/-- An option with the value that is attached to it, if there is one. -/
def option (r : ArgumentReader) (o : CliOption) (attached : Option String) :
    Except UsageStop ArgumentReader := do
  let r ← r.settle
  match o.takesValue, attached with
  | true, none => return { r with pending := .awaiting o }
  | true, some value => r.use o (some value)
  | false, _ => r.use o none

/-- A path. -/
def path (r : ArgumentReader) (value : String) : Except UsageStop ArgumentReader := do
  match r.pending with
  | .paths values => return { r with pending := .paths (values ++ [value]) }
  | _ => return { ← r.settle with pending := .paths [value] }

/-- An option by its long name, with what stands behind `=`. -/
def long (r : ArgumentReader) (name : String) (attached : Option String) :
    Except UsageStop ArgumentReader :=
  match CliOption.ofLongName? name with
  | none => .error (.unknownOption name)
  | some o =>
    if !o.takesValue && attached.isSome then .error (.extraValue o) else r.option o attached

/-- Options by their letters. What follows a letter that takes a value is the value, without an `=`
in front. -/
def letters (r : ArgumentReader) : List Char → Except UsageStop ArgumentReader
  | [] => .ok r
  | c :: cs =>
    match CliOption.ofLetter? c with
    | none => .error (.unknownOption (String.singleton c))
    | some o =>
      if o.takesValue then
        match cs with
        | [] => r.option o none
        | '=' :: value => r.option o (some (String.ofList value))
        | value => r.option o (some (String.ofList value))
      else do (← r.option o none).letters cs

/-- An argument that is no option: the value that is awaited, or a path. -/
def plain (r : ArgumentReader) (arg : String) : Except UsageStop ArgumentReader :=
  match r.pending with
  | .awaiting o => .ok { r with pending := .value o arg }
  | _ => r.path arg

/-- The name and the attached value of a long option. -/
def splitAttached (body : List Char) : String × Option String :=
  let name := String.ofList (body.takeWhile (· != '='))
  match body.dropWhile (· != '=') with
  | [] => (name, none)
  | _ :: value => (name, some (String.ofList value))

/-- The next argument. -/
def next (r : ArgumentReader) (arg : String) : Except UsageStop ArgumentReader :=
  if r.onlyPaths then r.path arg
  else
    match arg.toList with
    | ['-', '-'] => .ok { r with onlyPaths := true }
    | '-' :: '-' :: body =>
      let (name, attached) := splitAttached body
      r.long name attached
    | '-' :: c :: cs => r.letters (c :: cs)
    | _ => r.plain arg

end ArgumentReader

/-- Read the arguments of a command line, without the name of the program. -/
def Arguments.parse (args : List String) : Except UsageStop Arguments := do
  let r ← (← args.foldlM ArgumentReader.next {}).settle
  if r.arguments.paths.isEmpty then .error .noPaths else return r.arguments

end UnitIndex
