/-!
The options of the command line.

Every option has a long name, many have a letter too, and some take a value.
-/

namespace UnitIndex

/-- An option of the command line. -/
inductive CliOption where
  | includePath
  | preInclude
  | define
  | logFile
  | append
  | verbose
  | workers
  | frontEnd
  | standard
  | settingsFile
  | unsaved
  | output
  | indexLocals
  | typeUses
  | help
  | version
  deriving DecidableEq, Repr

namespace CliOption

/-- Every option. -/
def all : List CliOption :=
  [includePath, preInclude, define, logFile, append, verbose, workers, frontEnd, standard,
    settingsFile, unsaved, output, indexLocals, typeUses, help, version]

/-- The long name. -/
def longName : CliOption → String
  | includePath => "include-path"
  | preInclude => "include"
  | define => "define"
  | logFile => "log-file"
  | append => "append"
  | verbose => "verbose"
  | workers => "thread-count"
  | frontEnd => "clang"
  | standard => "std"
  | settingsFile => "config"
  | unsaved => "unsaved"
  | output => "output"
  | indexLocals => "index-locals"
  | typeUses => "type-uses"
  | help => "help"
  | version => "version"

/-- The letter. -/
def letter? : CliOption → Option Char
  | includePath => some 'I'
  | preInclude => some 'i'
  | define => some 'D'
  | logFile => some 'L'
  | append => some 'A'
  | verbose => some 'v'
  | workers => some 'j'
  | output => some 'o'
  | help => some 'h'
  | version => some 'V'
  | _ => none

/-- Whether the option takes a value. -/
def takesValue : CliOption → Bool
  | append | verbose | indexLocals | typeUses | help | version => false
  | _ => true

/-- Whether the option may be given again and again. -/
def isRepeatable : CliOption → Bool
  | includePath | preInclude | define | verbose => true
  | _ => false

/-- The option with a long name; names are not shortened. -/
def ofLongName? (name : String) : Option CliOption := all.find? (·.longName == name)

/-- The option with a letter. -/
def ofLetter? (c : Char) : Option CliOption := all.find? (·.letter? == some c)

end CliOption

end UnitIndex
