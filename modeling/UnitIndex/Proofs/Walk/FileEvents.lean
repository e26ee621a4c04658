import Mathlib
import UnitIndex.Host.FileTree
import UnitIndex.Walk.Tracker

/-!
The events of a file tracker.

What a tracker does in one step is what it tells an observer (`told`): its current file is the one
that was entered last, and nothing else depends on whether there is an observer (`step_eq_tell`). So
a run of any steps is its log, the events in order with the steps that sent them (`run_eq_tell`).

A location that gives another file than the current one enters that file, perhaps behind an
inclusion, and every other location does nothing (`told_observe`). As the log is cut at an event
(`exists_of_log_eq_append_cons`), the current file there is known, so two files that locations enter
one after the other differ. The main statement is `run_protocol`.
-/

namespace UnitIndex

/-- An entry of two lists in a row is one of the second or one of the first. -/
lemma cases_of_append_eq_append_cons {α : Type} {as bs front behind : List α} {x : α}
    (h : as ++ bs = front ++ x :: behind) :
    (∃ more, front = as ++ more ∧ bs = more ++ x :: behind) ∨
      ∃ more, as = front ++ x :: more ∧ behind = more ++ bs := by
  rcases List.append_eq_append_iff.mp h with ⟨more, hfront, hbs⟩ | ⟨more, has, hbehind⟩
  · exact Or.inl ⟨more, hfront, hbs⟩
  · cases more with
    | nil => exact Or.inl ⟨[], by simpa using has.symm, hbehind.symm⟩
    | cons y more =>
        obtain ⟨rfl, rfl⟩ := List.cons.inj hbehind
        exact Or.inr ⟨more, has, rfl⟩

/-! ### The files of locations -/

namespace Path

/-- An absolute path has a text. -/
lemma text_ne_empty_of_isAbsolute {p : Path} (h : p.isAbsolute) : p.text ≠ "" := by
  intro hempty
  rw [isAbsolute, hempty] at h
  exact absurd h (by decide)

lemma text_join_ne_empty {p q : Path} (h : q.text ≠ "") : (p.join q).text ≠ "" := by
  have happend (s : String) : s ++ q.text ≠ "" := fun hempty =>
    h (String.append_eq_empty_iff.mp hempty).2
  rw [join]
  split
  · exact h
  · split <;> exact happend _

end Path

/-- What stands in a tree has an absolute path. -/
lemma FileTree.isAbsolute_of_realPath? {t : FileTree} {p q : Path} (h : t.realPath? p = some q) :
    q.isAbsolute := by
  obtain ⟨place, -, rfl⟩ := Option.map_eq_some_iff.mp h
  simp [Path.isAbsolute, pathOf]

namespace FileNames

variable {names : FileNames} {file : String} {loc : SourceLocation}

/-- The file that a location gives, if it gives one. -/
def ownFile? (names : FileNames) (loc : SourceLocation) : Option String :=
  loc.seen?.bind fun b => if b.file = "" then none else some (names.canonical b.file)

/-- The file that a location says has included its own. -/
def includer? (names : FileNames) (loc : SourceLocation) : Option String :=
  loc.seen?.bind fun b => (b.includedFrom.filter (· ≠ "")).map names.canonical

/-- The canonical form of what stands somewhere is its real path. -/
lemma canonical_of_realPath? {p : Path} (hfile : file ≠ stdin) (hphysical : isPhysicalFile file)
    (h : names.realPath? (names.workingDirectory.join ⟨file⟩) = some p) :
    names.canonical file = p.text := by
  rw [canonical, if_neg hfile, if_neg (by simp [hphysical])]
  dsimp only
  rw [h, Option.getD_some]

/-- A file keeps a name where the real path of a file is absolute. -/
lemma canonical_ne_empty (hreal : ∀ p q, names.realPath? p = some q → q.isAbsolute)
    (hfile : file ≠ "") (hstdin : file = stdin → names.primary ≠ "") :
    names.canonical file ≠ "" := by
  rw [canonical]
  split_ifs with h
  · exact hstdin h
  · exact hfile
  · dsimp only
    cases hpath : names.realPath? (names.workingDirectory.join ⟨file⟩) with
    | none => exact Path.text_join_ne_empty hfile
    | some q => exact Path.text_ne_empty_of_isAbsolute (hreal _ q hpath)

/-- The main file has a name, and the real path of a file is absolute. -/
structure Proper (names : FileNames) : Prop where
  primary_ne_empty : names.primary ≠ ""
  isAbsolute_realPath? : ∀ p q, names.realPath? p = some q → q.isAbsolute

/-- So it is in a tree of files, if the main file is not read from standard input. -/
lemma proper_ofPrimary (t : FileTree) {primary : Path} (workingDirectory : Path)
    (hprimary : primary.text ≠ "") (hstdin : primary.text ≠ stdin) :
    (ofPrimary primary workingDirectory t.realPath?).Proper :=
  ⟨canonical_ne_empty (fun _ _ => FileTree.isAbsolute_of_realPath?) hprimary
    fun h => absurd h hstdin, fun _ _ => FileTree.isAbsolute_of_realPath?⟩

/-- Where the names are proper no file loses its name. -/
lemma Proper.canonical_ne_empty (h : names.Proper) (hfile : file ≠ "") :
    names.canonical file ≠ "" :=
  FileNames.canonical_ne_empty h.isAbsolute_realPath? hfile fun _ => h.primary_ne_empty

end FileNames

/-! ### One step -/

/-- What a tracker can be asked to do. -/
inductive TrackerStep where
  | enter (file : Option String)
  | include (includer included : String)
  | observe (loc : SourceLocation)

/-- The file that an event enters, if it enters one or none. -/
def FileEvent.entered? : FileEvent → Option (Option String)
  | .enter file => some file
  | .include _ _ => none

/-- The events of a location, as a rule: one that gives another file than the current one enters
that file, and reports its inclusion before. -/
def FileNames.announced (names : FileNames) (current : Option String) (loc : SourceLocation) :
    List FileEvent :=
  match names.ownFile? loc with
  | none => []
  | some file =>
    if current = some file then []
    else ((names.includer? loc).map (FileEvent.include · file)).toList ++ [.enter (some file)]

namespace FileTracker

/-- The tracker after a step. -/
def step (names : FileNames) (t : FileTracker) : TrackerStep → FileTracker
  | .enter file => t.enter file
  | .include includer included => t.noteInclude includer included
  | .observe loc => t.observe names loc

/-- What an observer who begins to watch is told of a step. -/
def told (names : FileNames) (current : Option String) (s : TrackerStep) : List FileEvent :=
  ((step names ⟨current, some #[]⟩ s).observed.getD #[]).toList

/-- The file that the last of the events enters, or `current` if none enters one. -/
def lastEntered (current : Option String) (events : List FileEvent) : Option String :=
  (events.filterMap FileEvent.entered?).getLastD current

/-- The tracker in the file entered last, the observer told. -/
def tell (t : FileTracker) (events : List FileEvent) : FileTracker :=
  ⟨lastEntered t.current events, t.observed.map (· ++ events.toArray)⟩

variable {names : FileNames} {t t' : FileTracker} {current : Option String}
  {loc : SourceLocation} {steps : List TrackerStep}

/-- Events are looked at one after the other. -/
lemma lastEntered_append (current : Option String) (es fs : List FileEvent) :
    lastEntered current (es ++ fs) = lastEntered (lastEntered current es) fs := by
  rw [lastEntered, List.filterMap_append, List.getLastD_eq_getLast?, List.getLast?_append,
    lastEntered, lastEntered, List.getLastD_eq_getLast?, List.getLastD_eq_getLast?, Option.getD_or]

/-- Where nothing is entered the file stays. -/
lemma lastEntered_of_none {events : List FileEvent} (h : ∀ e ∈ events, e.entered? = none) :
    lastEntered current events = current := by
  rw [lastEntered, List.filterMap_eq_nil_iff.mpr h, List.getLastD_nil]

lemma tell_nil (t : FileTracker) : t.tell [] = t := by
  obtain ⟨current, observed⟩ := t
  simp [tell, lastEntered]

/-- Events are told one after the other. -/
lemma tell_append (t : FileTracker) (es fs : List FileEvent) :
    t.tell (es ++ fs) = (t.tell es).tell fs := by
  simp [tell, lastEntered_append, Function.comp_def]

/-- To enter a file tells of that. -/
lemma enter_eq_tell (t : FileTracker) (file : Option String) :
    t.enter file = t.tell [.enter (file.filter (· ≠ ""))] := by
  simp [enter, send, tell, lastEntered, FileEvent.entered?]

lemma noteInclude_eq_tell (t : FileTracker) (includer included : String) :
    t.noteInclude includer included = t.tell [.include includer included] := by
  simp [noteInclude, send, tell, lastEntered, FileEvent.entered?]

/-- A location does what the rule says. -/
lemma observe_eq_tell (h : names.Proper) (t : FileTracker) (loc : SourceLocation) :
    t.observe names loc = t.tell (names.announced t.current loc) := by
  rw [observe, FileNames.announced, FileNames.ownFile?, FileNames.includer?]
  cases loc.seen? with
  | none => exact (tell_nil t).symm
  | some bare =>
      dsimp only [Option.bind_some]
      by_cases hempty : bare.file = ""
      · rw [if_pos hempty, if_pos hempty]
        exact (tell_nil t).symm
      rw [if_neg hempty, if_neg hempty]
      dsimp only
      split_ifs with hsame
      · exact (tell_nil t).symm
      · -- the name is not empty, so that the file is entered and not left
        have hfile : (some (names.canonical bare.file)).filter (· ≠ "") =
            some (names.canonical bare.file) :=
          Option.filter_eq_some_iff.mpr ⟨rfl, by
            simpa using h.canonical_ne_empty hempty⟩
        cases bare.includedFrom.filter (· ≠ "") with
        | none => exact (enter_eq_tell t _).trans (by rw [hfile]; rfl)
        | some origin =>
            dsimp only
            rw [enter_eq_tell, noteInclude_eq_tell, ← tell_append, hfile]
            rfl

/-- **A step does what it tells**, whether there is an observer or not. -/
lemma step_eq_tell (h : names.Proper) (t : FileTracker) (s : TrackerStep) :
    t.step names s = t.tell (told names t.current s) := by
  suffices htell : ∃ events, ∀ observed, (⟨t.current, observed⟩ : FileTracker).step names s =
      tell ⟨t.current, observed⟩ events by
    obtain ⟨events, hevents⟩ := htell
    have htold : told names t.current s = events := by
      rw [told, hevents]
      simp [tell]
    rw [htold]
    exact hevents t.observed
  cases s with
  | enter file => exact ⟨_, fun observed => enter_eq_tell _ file⟩
  | «include» includer included => exact ⟨_, fun observed => noteInclude_eq_tell _ _ _⟩
  | observe loc =>
      exact ⟨names.announced t.current loc, fun observed => observe_eq_tell h _ loc⟩

/-- What a location tells is what the rule says. -/
lemma told_observe (h : names.Proper) (current : Option String) (loc : SourceLocation) :
    told names current (.observe loc) = names.announced current loc := by
  rw [told, step, observe_eq_tell h]
  simp [tell]

/-! ### What a location tells -/

/-- The entering is the last that a location tells, and an inclusion stands right in front. -/
lemma announced_eq_append_cons {e : FileEvent} {front behind : List FileEvent}
    (h : names.announced current loc = front ++ e :: behind) :
    ∃ file, names.ownFile? loc = some file ∧ current ≠ some file ∧
      (e = .enter (some file) ∧ behind = [] ∨
        ∃ includer, e = .include includer file ∧ behind = [.enter (some file)]) := by
  rw [FileNames.announced] at h
  cases hfile : names.ownFile? loc with
  | none => simp [hfile] at h
  | some file =>
      simp only [hfile] at h
      split_ifs at h with hcurrent
      · simp at h
      refine ⟨file, rfl, hcurrent, ?_⟩
      -- the event is the entering, or it is the inclusion in front of it
      rcases cases_of_append_eq_append_cons h with ⟨more, -, hmore⟩ | ⟨more, hinclude, rfl⟩
      · cases more with
        | nil =>
            obtain ⟨rfl, rfl⟩ := List.cons.inj hmore
            exact Or.inl ⟨rfl, rfl⟩
        | cons f more => simp at hmore
      · cases hincluder : names.includer? loc with
        | none => simp [hincluder] at hinclude
        | some includer =>
            rw [hincluder] at hinclude
            cases front with
            | nil =>
                obtain ⟨rfl, rfl⟩ := List.cons.inj hinclude
                exact Or.inr ⟨includer, rfl, rfl⟩
            | cons f front => simp at hinclude

/-- A location enters a file just if it gives another one than the current. -/
lemma exists_enter_mem_announced_iff :
    (∃ file, .enter file ∈ names.announced current loc) ↔
      ∃ file, names.ownFile? loc = some file ∧ current ≠ some file := by
  constructor
  · rintro ⟨file, hmem⟩
    obtain ⟨front, behind, h⟩ := List.append_of_mem hmem
    obtain ⟨own, hown, hcurrent, -⟩ := announced_eq_append_cons h
    exact ⟨own, hown, hcurrent⟩
  · rintro ⟨file, hown, hcurrent⟩
    exact ⟨some file, by simp [FileNames.announced, hown, hcurrent]⟩

/-- The file that a location enters is its own, not the current one, and is current then. -/
lemma eq_of_enter_mem_announced {file : Option String}
    (h : .enter file ∈ names.announced current loc) :
    names.ownFile? loc = file ∧ current ≠ file ∧
      lastEntered current (names.announced current loc) = file := by
  obtain ⟨front, behind, hsplit⟩ := List.append_of_mem h
  obtain ⟨own, hown, hcurrent, ⟨henter, rfl⟩ | ⟨includer, henter, -⟩⟩ :=
    announced_eq_append_cons hsplit
  · obtain rfl := FileEvent.enter.inj henter
    refine ⟨hown, hcurrent, ?_⟩
    rw [hsplit, lastEntered_append]
    rfl
  · exact absurd henter (by simp)

/-! ### Runs -/

/-- The tracker after some steps. -/
def run (names : FileNames) (t : FileTracker) (steps : List TrackerStep) : FileTracker :=
  steps.foldl (step names) t

/-- The events of some steps in order, each with the step that sends it. -/
def log (names : FileNames) (t : FileTracker) : List TrackerStep → List (TrackerStep × FileEvent)
  | [] => []
  | s :: steps => (told names t.current s).map (s, ·) ++ log names (t.step names s) steps

lemma map_snd_map (s : TrackerStep) (events : List FileEvent) :
    (events.map (s, ·)).map Prod.snd = events := by
  rw [List.map_map]
  exact List.map_id events

/-- **A run does what its log tells**, whether there is an observer or not. -/
lemma run_eq_tell (h : names.Proper) (t : FileTracker) (steps : List TrackerStep) :
    t.run names steps = t.tell ((t.log names steps).map Prod.snd) := by
  induction steps generalizing t with
  | nil => exact (tell_nil t).symm
  | cons s steps ih =>
      rw [log, List.map_append, map_snd_map, tell_append, ← step_eq_tell h, ← ih]
      rfl

/-- Behind a step the current file is the one that was entered last. -/
lemma current_step (h : names.Proper) (t : FileTracker) (s : TrackerStep) :
    (t.step names s).current = lastEntered t.current (told names t.current s) := by
  rw [step_eq_tell h, tell]

/-- The log goes by the current file alone. -/
lemma log_congr (h : names.Proper) (ht : t.current = t'.current) (steps : List TrackerStep) :
    t.log names steps = t'.log names steps := by
  induction steps generalizing t t' with
  | nil => rfl
  | cons s steps ih =>
      have hnext : (t.step names s).current = (t'.step names s).current := by
        rw [current_step h, current_step h, ht]
      rw [log, log, ht, ih hnext]

/-- Where a log is cut at an event, a step was at work, which the events before have brought to its
current file. -/
lemma exists_of_log_eq_append_cons (h : names.Proper) {s : TrackerStep} {e : FileEvent}
    {front behind : List (TrackerStep × FileEvent)}
    (hlog : t.log names steps = front ++ (s, e) :: behind) :
    ∃ (t' : FileTracker) (earlier : List (TrackerStep × FileEvent)) (pre post : List FileEvent)
      (later : List TrackerStep),
      told names t'.current s = pre ++ e :: post ∧
      t'.current = lastEntered t.current (earlier.map Prod.snd) ∧
      front = earlier ++ pre.map (s, ·) ∧
      behind = post.map (s, ·) ++ (t'.step names s).log names later := by
  induction steps generalizing t front with
  | nil =>
      rw [log] at hlog
      exact absurd hlog (by simp)
  | cons first steps ih =>
      rw [log] at hlog
      rcases cases_of_append_eq_append_cons hlog with ⟨more, rfl, hmore⟩ | ⟨more, hfirst, rfl⟩
      · obtain ⟨t', earlier, pre, post, later, htold, hcurrent, rfl, hbehind⟩ := ih hmore
        refine ⟨t', (told names t.current first).map (first, ·) ++ earlier, pre, post, later, htold,
          ?_, (List.append_assoc ..).symm, hbehind⟩
        rw [List.map_append, map_snd_map, lastEntered_append, ← current_step h, hcurrent]
      · obtain ⟨pre, tail, htold, rfl, htail⟩ := List.map_eq_append_iff.mp hfirst
        obtain ⟨e', post, rfl, he, rfl⟩ := List.map_eq_cons_iff.mp htail
        obtain ⟨rfl, rfl⟩ := Prod.mk.inj he
        exact ⟨t, [], pre, post, steps, htold, rfl, rfl, rfl⟩

/-- Behind an inclusion that a location tells, the included file is entered. -/
lemma exists_eq_enter_cons (h : names.Proper) {includer included : String}
    {front behind : List (TrackerStep × FileEvent)}
    (hlog : t.log names steps = front ++ (.observe loc, .include includer included) :: behind) :
    ∃ behind', behind = (.observe loc, .enter (some included)) :: behind' := by
  obtain ⟨t', earlier, pre, post, later, htold, -, -, rfl⟩ := exists_of_log_eq_append_cons h hlog
  rw [told_observe h] at htold
  obtain ⟨file, -, -, ⟨he, -⟩ | ⟨origin, he, rfl⟩⟩ := announced_eq_append_cons htold
  · exact absurd he (by simp)
  · obtain ⟨-, rfl⟩ := FileEvent.include.inj he
    exact ⟨_, rfl⟩

/-- The first file of a log that is entered is not the current one, if a location enters it. -/
lemma current_ne_of_log (h : names.Proper) {file : Option String}
    {front behind : List (TrackerStep × FileEvent)}
    (hlog : t.log names steps = front ++ (.observe loc, .enter file) :: behind)
    (hfront : ∀ e ∈ front, e.2.entered? = none) : t.current ≠ file := by
  obtain ⟨t', earlier, pre, post, later, htold, hcurrent, rfl, -⟩ :=
    exists_of_log_eq_append_cons h hlog
  have hearlier : ∀ e ∈ earlier.map Prod.snd, e.entered? = none := by
    intro e he
    obtain ⟨entry, hentry, rfl⟩ := List.mem_map.mp he
    exact hfront entry (List.mem_append_left _ hentry)
  rw [lastEntered_of_none hearlier] at hcurrent
  rw [told_observe h] at htold
  rw [← hcurrent]
  exact (eq_of_enter_mem_announced (by rw [htold]; simp)).2.1

/-- Two files that locations enter one after the other differ. -/
lemma ne_of_log (h : names.Proper) {loc' : SourceLocation} {file file' : Option String}
    {front between behind : List (TrackerStep × FileEvent)}
    (hlog : t.log names steps = front ++ (.observe loc, .enter file) ::
      (between ++ (.observe loc', .enter file') :: behind))
    (hbetween : ∀ e ∈ between, e.2.entered? = none) : file ≠ file' := by
  obtain ⟨t', earlier, pre, post, later, htold, -, -, hlater⟩ :=
    exists_of_log_eq_append_cons h hlog
  rw [told_observe h] at htold
  have hmem : .enter file ∈ names.announced t'.current loc := by rw [htold]; simp
  obtain ⟨-, -, hentered⟩ := eq_of_enter_mem_announced hmem
  obtain ⟨own, -, -, ⟨-, rfl⟩ | ⟨origin, he, -⟩⟩ := announced_eq_append_cons htold
  · rw [List.map_nil, List.nil_append] at hlater
    have hnext := current_ne_of_log h hlater.symm hbetween
    rwa [current_step h, told_observe h, hentered] at hnext
  · exact absurd he (by simp)

/-- **The tracker and its events.** After any steps the current file is the one that was entered
last, and an observer, if there is one, has been told every event in order. Next, a location enters
a file just if it gives another one than the current, which is then current. In the log an inclusion
that a location reports stands right in front of the entering, and two files that locations enter
one after the other differ. The observer has no part in any of it. -/
theorem run_protocol (h : names.Proper) (observed : Option (Array FileEvent))
    (steps : List TrackerStep) :
    let t := run names ⟨none, observed⟩ steps
    let sent := log names ⟨none, observed⟩ steps
    (t.current = lastEntered none (sent.map Prod.snd) ∧
      t.observed = observed.map (· ++ (sent.map Prod.snd).toArray)) ∧
    (∀ loc, ((∃ file, .enter file ∈ told names t.current (.observe loc)) ↔
        ∃ file, names.ownFile? loc = some file ∧ t.current ≠ some file) ∧
      ∀ file, .enter file ∈ told names t.current (.observe loc) →
        names.ownFile? loc = file ∧ (t.observe names loc).current = file) ∧
    (∀ front loc includer included behind,
      sent = front ++ (.observe loc, .include includer included) :: behind →
        ∃ behind', behind = (.observe loc, .enter (some included)) :: behind') ∧
    (∀ front loc file between loc' file' behind,
      sent = front ++ (.observe loc, .enter file) ::
        (between ++ (.observe loc', .enter file') :: behind) →
      (∀ e ∈ between, e.2.entered? = none) → file ≠ file') ∧
    ∀ observed', log names ⟨none, observed'⟩ steps = sent ∧
      (run names ⟨none, observed'⟩ steps).current = t.current := by
  intro t sent
  have hrun : t = tell ⟨none, observed⟩ (sent.map Prod.snd) := run_eq_tell h _ steps
  refine ⟨⟨by rw [hrun, tell], by rw [hrun, tell]⟩, fun loc => ?_,
    fun _ _ _ _ _ hsent => exists_eq_enter_cons h hsent,
    fun _ _ _ _ _ _ _ hsent => ne_of_log h hsent, fun observed' => ?_⟩
  · rw [told_observe h]
    refine ⟨exists_enter_mem_announced_iff, fun file hmem => ?_⟩
    obtain ⟨hown, -, hentered⟩ := eq_of_enter_mem_announced hmem
    exact ⟨hown, by rw [observe_eq_tell h, tell, hentered]⟩
  · have hcurrent : (⟨none, observed'⟩ : FileTracker).current =
        (⟨none, observed⟩ : FileTracker).current := rfl
    have hlog : log names ⟨none, observed'⟩ steps = sent := log_congr h hcurrent steps
    exact ⟨hlog, by rw [run_eq_tell h, hlog, hrun, tell, tell]⟩

end FileTracker

namespace FileTracker.Includes

/-- A source and a header in a directory of its own. -/
def tree : FileTree where
  entries :=
    [(["u"], .directory), (["u", "m.c"], .file ⟨"", false⟩), (["u", "inc"], .directory),
      (["u", "inc", "a.h"], .file ⟨"", false⟩)]

/-- The file names of the source. -/
def names : FileNames := .ofPrimary ⟨"m.c"⟩ ⟨"/u"⟩ tree.realPath?

/-- A location in that file, included from another one if that is given. -/
def located (file : String) (origin : Option String := none) : SourceLocation :=
  let bare : BareLocation :=
    { offset := 0, file := file, line := 1, col := 1, tokLen := 1, includedFrom := origin }
  ⟨some bare, some bare⟩

/-- A location in a macro of the header, spelled in a buffer that is no file. -/
def expanded : SourceLocation :=
  ⟨(located "<scratch space>").spelling, (located "inc/a.h").expansion⟩

/-- The source on standard input, the header, once more by another name, a border of a buffer, and a
macro of the header. -/
def steps : List TrackerStep :=
  [.observe (located "<stdin>"), .observe (located "inc/../inc/a.h" "<stdin>"),
    .observe (located "/u/inc/a.h"), .enter (some ""), .observe expanded]

/-- In a tree of files the names are proper. -/
lemma proper_names : names.Proper := FileNames.proper_ofPrimary tree _ (by decide) (by decide)

lemma realPath?_header : tree.realPath? ⟨"/u/inc/a.h"⟩ = some ⟨"/u/inc/a.h"⟩ := by cbv

lemma realPath?_detour : tree.realPath? ⟨"/u/inc/../inc/a.h"⟩ = some ⟨"/u/inc/a.h"⟩ := by cbv

/-- Four ways to name a file: the input itself, a detour, the file, and the whole path. -/
lemma canonical_stdin : names.canonical "<stdin>" = "/u/m.c" := by
  have hjoin : Path.join ⟨"/u"⟩ ⟨"m.c"⟩ = ⟨"/u/m.c"⟩ := by decide +kernel
  have hreal : tree.realPath? (Path.join ⟨"/u"⟩ ⟨"m.c"⟩) = some ⟨"/u/m.c"⟩ := by
    rw [hjoin]
    cbv
  show FileNames.canonical ⟨"", ⟨"/u"⟩, tree.realPath?⟩ "m.c" = "/u/m.c"
  exact FileNames.canonical_of_realPath? (by decide) (by decide +kernel) hreal

lemma canonical_detour : names.canonical "inc/../inc/a.h" = "/u/inc/a.h" := by
  have hjoin : Path.join ⟨"/u"⟩ ⟨"inc/../inc/a.h"⟩ = ⟨"/u/inc/../inc/a.h"⟩ := by decide +kernel
  refine FileNames.canonical_of_realPath? (by decide) (by decide +kernel) ?_
  exact (congrArg tree.realPath? hjoin).trans realPath?_detour

lemma canonical_header : names.canonical "inc/a.h" = "/u/inc/a.h" := by
  have hjoin : Path.join ⟨"/u"⟩ ⟨"inc/a.h"⟩ = ⟨"/u/inc/a.h"⟩ := by decide +kernel
  refine FileNames.canonical_of_realPath? (by decide) (by decide +kernel) ?_
  exact (congrArg tree.realPath? hjoin).trans realPath?_header

lemma canonical_absolute : names.canonical "/u/inc/a.h" = "/u/inc/a.h" := by
  have hjoin : Path.join ⟨"/u"⟩ ⟨"/u/inc/a.h"⟩ = ⟨"/u/inc/a.h"⟩ := by decide +kernel
  refine FileNames.canonical_of_realPath? (by decide) (by decide +kernel) ?_
  exact (congrArg tree.realPath? hjoin).trans realPath?_header

/-- The inclusion stands in front of the entering that it leads to. -/
lemma log_steps : log names .watched steps =
    [(.observe (located "<stdin>"), .enter (some "/u/m.c")),
      (.observe (located "inc/../inc/a.h" "<stdin>"), .include "/u/m.c" "/u/inc/a.h"),
      (.observe (located "inc/../inc/a.h" "<stdin>"), .enter (some "/u/inc/a.h")),
      (.enter (some ""), .enter none), (.observe expanded, .enter (some "/u/inc/a.h"))] := by
  simp [steps, log, told, step, observe, enter, noteInclude, send, watched, located, expanded,
    SourceLocation.seen?, Option.filter_some, canonical_stdin, canonical_detour, canonical_header,
    canonical_absolute]

end FileTracker.Includes

open FileTracker FileTracker.Includes in
/-- Two files and no file are entered, one of them through a detour. -/
theorem FileTracker.run_protocol_includes :
    names.Proper ∧ (run names .watched steps).current = some "/u/inc/a.h" ∧
      (run names .watched steps).observed = some #[.enter (some "/u/m.c"),
        .include "/u/m.c" "/u/inc/a.h", .enter (some "/u/inc/a.h"), .enter none,
        .enter (some "/u/inc/a.h")] ∧
      (∀ e ∈ [(TrackerStep.observe (located "inc/../inc/a.h" "<stdin>"),
        FileEvent.include "/u/m.c" "/u/inc/a.h")], e.2.entered? = none) ∧
      some "/u/m.c" ≠ some "/u/inc/a.h" := by
  obtain ⟨⟨hcurrent, hobserved⟩, -, -, hne, -⟩ := run_protocol proper_names (some #[]) steps
  have hbetween : ∀ e ∈ [(TrackerStep.observe (located "inc/../inc/a.h" "<stdin>"),
      FileEvent.include "/u/m.c" "/u/inc/a.h")], e.2.entered? = none := by
    simp [FileEvent.entered?]
  have hlog : log names ⟨none, some #[]⟩ steps = _ := log_steps
  rw [hlog] at hcurrent hobserved
  exact ⟨proper_names, hcurrent, hobserved, hbetween,
    hne [] _ _ [_] _ _ [_, _] hlog hbetween⟩

end UnitIndex
