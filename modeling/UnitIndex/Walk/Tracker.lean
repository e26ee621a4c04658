import UnitIndex.Location.FileNames

/-!
Which file the walk is in.

A dump carries no preprocessor events, so they are derived from the locations that the walk passes:
a location in another file than the current one enters that file, and when it says which file
included its own, the inclusion is reported first. An observer, if there is one, is sent every
event.
-/

namespace UnitIndex

/-- What an observer is told. -/
inductive FileEvent where
  /-- A file is current from now on; no file at the border of a made-up buffer. -/
  | enter (file : Option String)
  | include (includer included : String)
  deriving DecidableEq, Repr

/-- The current file, and the events sent to the observer if there is one. -/
structure FileTracker where
  current : Option String := none
  observed : Option (Array FileEvent) := none
  deriving Repr

namespace FileTracker

/-- A tracker with an observer. -/
def watched : FileTracker := { observed := some #[] }

/-- The tracker after it has told the observer. -/
def send (t : FileTracker) (e : FileEvent) : FileTracker :=
  { t with observed := t.observed.map (·.push e) }

/-- The tracker in another file; the empty name is no file. -/
def enter (t : FileTracker) (file : Option String) : FileTracker :=
  let file := file.filter (· ≠ "")
  { t with current := file }.send (.enter file)

/-- The tracker after an inclusion. -/
def noteInclude (t : FileTracker) (includer included : String) : FileTracker :=
  t.send (.include includer included)

/-- The tracker after the walk has passed a location. -/
def observe (t : FileTracker) (names : FileNames) (loc : SourceLocation) : FileTracker :=
  match loc.seen? with
  | none => t
  | some bare =>
    if bare.file = "" then t
    else
      let file := names.canonical bare.file
      if t.current = some file then t
      else
        let t :=
          match bare.includedFrom.filter (· ≠ "") with
          | some origin => t.noteInclude (names.canonical origin) file
          | none => t
        t.enter (some file)

end FileTracker

end UnitIndex
