import UnitIndex.Host.FileTree
import UnitIndex.Json.Value
import UnitIndex.Text.Ascii

/-!
What has to be known to parse one translation unit, and the command that does it.

A unit is a source file, the directory in which its flags are meant, the flags, and perhaps a text
that stands in for what the file holds on disk. `CompileCommand.ofUnit` is the front-end's command
line for it.
-/

namespace UnitIndex

/-- Why a unit cannot be described. -/
inductive UnitError where
  | noSourceFile
  | isDirectory (source : Path)
  deriving DecidableEq, Repr

/-- The message for people. -/
def UnitError.message : UnitError → String
  | noSourceFile => "compilation unit needs a source file"
  | isDirectory source => s!"source path {source.text} names a directory"

/-- One translation unit to be parsed. -/
structure CompilationUnit where
  /-- The source file, behind the working directory if it was relative. -/
  source : Path
  workingDirectory : Path
  /-- Flags for the front-end, passed on as they are. -/
  flags : List String
  /-- A text in place of what the source file holds. -/
  unsaved : Option String := none
  deriving DecidableEq, Repr

namespace CompilationUnit

/-- The unit of a source file. -/
def build (tree : FileTree) (source workingDirectory : Path) (flags : List String)
    (unsaved : Option String) : Except UnitError CompilationUnit :=
  if source.text = "" then .error .noSourceFile
  else
    let source := workingDirectory.join source
    if tree.isDir source then .error (.isDirectory source)
    else .ok ⟨source, workingDirectory, flags, unsaved⟩

/-- Whether the flags ask for a standard of C. -/
def flagsAreC (u : CompilationUnit) : Bool :=
  u.flags.any fun f =>
    (f.startsWith "-std=c" || f.startsWith "-std=gnu") &&
      (Text.splitLast? "++".toList f.toList).isNone

/-- Whether the flags choose a language. -/
def choosesLanguage (u : CompilationUnit) : Bool := u.flags.any (·.startsWith "-x")

/-- The front-end's name for the language of the source file, told by its extension; a header is C
when the flags are. -/
def language (u : CompilationUnit) : String :=
  match Text.lowerAscii (u.source.extension?.getD "") with
  | "c" => "c"
  | "m" => "objective-c"
  | "mm" => "objective-c++"
  | "h" => if u.flagsAreC then "c" else "c++"
  | _ => "c++"

end CompilationUnit

/-- A command line and where it is to be run. -/
structure CompileCommand where
  directory : Path
  file : Path
  /-- The program and its arguments. -/
  arguments : List String
  deriving DecidableEq, Repr

namespace CompileCommand

/-- The flags that make the front-end print its syntax tree instead of compiling. -/
def dumpFlags : List String :=
  ["-fsyntax-only", "-fno-color-diagnostics", "-Xclang", "-ast-dump=json"]

/-- The arguments that name the source. A text that stands in for the file is read from standard
input: then the language has to be said, and quoted includes have to be looked up beside the
file. -/
def sourceArguments (u : CompilationUnit) : List String :=
  if u.unsaved.isSome then
    (match u.source.parent? with
      | some dir => ["-iquote", dir.text]
      | none => []) ++
    (if u.choosesLanguage then [] else ["-x", u.language]) ++ ["-"]
  else [u.source.text]

/-- The command that dumps the syntax tree of a unit. -/
def ofUnit (u : CompilationUnit) (frontEnd : String) : CompileCommand where
  directory := u.workingDirectory
  file := u.source
  arguments := frontEnd :: u.flags ++ dumpFlags ++ sourceArguments u

/-- The program that the command runs. -/
def program (c : CompileCommand) : String := c.arguments.headD ""

/-- What the program is given. -/
def operands (c : CompileCommand) : List String := c.arguments.tail

/-- Whether the command is one for that file, however the path is spelled. -/
def isFor (c : CompileCommand) (file : Path) : Bool := c.file.same file

/-- The entry of a compilation database. -/
def toJson (c : CompileCommand) : Json :=
  .object [("directory", .string c.directory.text), ("file", .string c.file.text),
    ("arguments", .array (c.arguments.map .string))]

/-- A compilation database that holds this command alone. -/
def database (c : CompileCommand) : String := (Json.array [c.toJson]).pretty

end CompileCommand

end UnitIndex
