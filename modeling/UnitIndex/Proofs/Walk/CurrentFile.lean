import Mathlib.Tactic
import UnitIndex.Proofs.Walk.FileEvents
import UnitIndex.Proofs.Walk.Locations
import UnitIndex.Proofs.Walk.Options

/-!
The file that a walk is in.

At each stop of a walk the current file is the one that was entered last: the file of the last
declaration before it whose location gives one, and the main file before there is any
(`currentFile`). So the log of a walk can be read as a list of files (`Follows`), whatever the
order in which the walk goes over the tree.

Where a declaration is reported follows from this. The walk takes a location without a file to be
in the current file, and the printer takes it to be in the main file; otherwise they agree. The main
statement is `symbol_positions`; `printed_elsewhere` is a walk in which they do not agree, since the
body of a function is gone through before its parameters.
-/

namespace UnitIndex

/-- The name as that of a file; the empty name is no file. -/
def knownFile (file : String) : Option String := if file = "" then none else some file

/-- A file that is known has a name. -/
lemma eq_of_knownFile {file f : String} (h : knownFile file = some f) : f = file := by
  rw [knownFile] at h
  split at h
  · exact absurd h (by simp)
  · exact (Option.some.inj h).symm

namespace FileLocation

/-- The same place in another file. -/
def inFile (l : FileLocation) (file : String) : FileLocation := { l with file := file }

/-- One place in two files is displayed alike just if the files are the same. -/
lemma text_inFile_eq_iff (l : FileLocation) (file file' : String) :
    (l.inFile file).text = (l.inFile file').text ↔ file = file' := by
  constructor
  · intro h
    simpa [text, inFile, toString, ← String.toList_inj] using h
  · rintro rfl
    rfl

end FileLocation

namespace FileTracker

/-- A location that gives a file makes it the current one, any other one leaves it as it is. -/
lemma current_observe {t : FileTracker} {file : String} (ht : t.current = knownFile file)
    (names : FileNames) (loc : SourceLocation) :
    (t.observe names loc).current = knownFile ((names.ownFile? loc).getD file) := by
  rw [observe, FileNames.ownFile?]
  cases loc.seen? with
  | none => exact ht
  | some bare =>
      dsimp only [Option.bind_some]
      split
      · exact ht
      · rw [Option.getD_some]
        split
        · next hsame =>
            rw [ht] at hsame
            rw [ht, eq_of_knownFile hsame]
        · show (some (names.canonical bare.file)).filter (· ≠ "") = _
          rw [knownFile, Option.filter_some]
          by_cases hempty : names.canonical bare.file = "" <;> simp [hempty]

end FileTracker

namespace Walk

/-! ### The files that a walk passes -/

namespace Stop

/-- Whether the node is entered there, if it has not been before. -/
def enters (a : Stop) : Bool :=
  (a.role == .decl || a.node.content.isDecl) && !isMadeUp a.node.content

/-- The file that is entered there, if one is. -/
def file? (names : FileNames) (a : Stop) : Option String :=
  if a.enters then a.node.content.loc?.bind names.ownFile? else none

/-- The tracker behind a stop. -/
def track (names : FileNames) (t : FileTracker) (a : Stop) : FileTracker :=
  if a.enters then a.node.content.loc?.elim t (t.observe names) else t

end Stop

/-- The file that is current behind some stops. -/
def currentFile (names : FileNames) (passed : List Stop) : String :=
  (passed.filterMap (Stop.file? names)).getLastD names.primary

/-- At each of the stops the tracker is the one behind the stops before it. -/
def Follows (names : FileNames) (t : FileTracker) : List Stop → Prop
  | [] => True
  | a :: as => a.state.tracker = t ∧ Follows names (a.track names t) as

section

variable {names : FileNames} {t : FileTracker} {as bs : List Stop} {a : Stop}

/-- A log follows a tracker if its front does, and what is behind follows what the front leaves. -/
lemma follows_append :
    Follows names t (as ++ bs) ↔
      Follows names t as ∧ Follows names (as.foldl (Stop.track names) t) bs := by
  induction as generalizing t with
  | nil => simp [Follows]
  | cons a as ih => rw [List.cons_append, Follows, Follows, List.foldl_cons, ih, and_assoc]

/-- A stop changes the current file if it enters one. -/
lemma current_track {file : String} (ht : t.current = knownFile file) (a : Stop) :
    (a.track names t).current = knownFile ((a.file? names).getD file) := by
  rw [Stop.track, Stop.file?]
  split
  · cases a.node.content.loc? with
    | none => exact ht
    | some loc => exact FileTracker.current_observe ht names loc
  · exact ht

/-- The current file is the one that was entered last. -/
lemma current_foldl {file : String} (ht : t.current = knownFile file) (passed : List Stop) :
    (passed.foldl (Stop.track names) t).current =
      knownFile ((passed.filterMap (Stop.file? names)).getLastD file) := by
  induction passed generalizing t file with
  | nil => exact ht
  | cons a passed ih =>
      rw [List.foldl_cons, ih (current_track ht a), List.filterMap_cons]
      cases a.file? names with
      | none => rfl
      | some f => rw [List.getLastD_cons, Option.getD_some]

end

/-! ### The tracker at the stops of a walk -/

section

variable {ctx : WalkContext} {a : Stop} {course : Course} {ns : List Node} {s : WalkState}

/-- The log of a stop follows the tracker there, and the visit leads to the tracker behind it. -/
def Stop.Tracked (ctx : WalkContext) (a : Stop) : Prop :=
  Follows ctx.unit.names a.state.tracker (a.log ctx) ∧
    (exec (visit a.role a.node) ctx a.state).2.tracker =
      (a.log ctx).foldl (Stop.track ctx.unit.names) a.state.tracker

/-- The log of some trees follows the tracker, and leaves it where they do. -/
lemma tracked_visitAll (h : ∀ b ∈ stopsAlong ctx course ns s, b.Tracked ctx) :
    Follows ctx.unit.names s.tracker ((stopsAlong ctx course ns s).flatMap (Stop.log ctx)) ∧
      (exec (visitAll course ns) ctx s).2.tracker =
        ((stopsAlong ctx course ns s).flatMap (Stop.log ctx)).foldl
          (Stop.track ctx.unit.names) s.tracker := by
  induction ns generalizing course s with
  | nil =>
      rw [visitAll]
      exact ⟨trivial, rfl⟩
  | cons n rest ih =>
      rw [stopsAlong] at h ⊢
      by_cases hcourse : course = .nothing
      · rw [hcourse, exec_visitAll_nothing]
        exact ⟨trivial, rfl⟩
      rw [if_neg hcourse] at h ⊢
      rw [exec_visitAll_cons hcourse]
      -- to ask whether to turn back enters nothing
      have htracker := ((Action.turnsBack course).same ctx s).tracker
      generalize exec (turnsBack course) ctx s = r at h htracker ⊢
      obtain ⟨back, t⟩ := r
      dsimp only at h htracker ⊢
      rw [htracker]
      cases back with
      | true => exact ⟨trivial, rfl⟩
      | false =>
          simp only [Bool.false_eq_true, if_false] at h ⊢
          cases hrole : course.role? n.content with
          | none =>
              rw [hrole] at h
              exact ih h
          | some role =>
              rw [hrole] at h
              -- the child, and then the rest, from where the child leaves the tracker
              obtain ⟨⟨hfollows, hvisit⟩, hrest⟩ := List.forall_mem_cons.mp h
              obtain ⟨hfollows', hvisit'⟩ := ih hrest
              dsimp only at hfollows hvisit ⊢
              rw [hvisit] at hfollows'
              rw [List.flatMap_cons, List.foldl_append, hvisit', hvisit]
              exact ⟨follows_append.mpr ⟨hfollows, hfollows'⟩, rfl⟩

/-- What holds behind each stop by itself holds along the whole log. -/
lemma tracked_of_arrived
    (h : ∀ b ∈ a.log ctx, (b.arrived ctx).2.tracker = b.track ctx.unit.names b.state.tracker) :
    a.Tracked ctx := by
  induction a using Stop.induction ctx with
  | h a ih =>
      have hnext (b : Stop) (hb : b ∈ a.next ctx) : b.Tracked ctx := by
        refine ih b hb fun c hc => h c ?_
        exact Stop.mem_log_iff.mpr (Or.inr ⟨b, hb, hc⟩)
      obtain ⟨hfirst, hvisit⟩ := tracked_visitAll fun b hb => hnext b (List.mem_append_left _ hb)
      obtain ⟨hsecond, hvisit'⟩ := tracked_visitAll fun b hb => hnext b (List.mem_append_right _ hb)
      have hself := h a (Stop.self_mem_log ctx a)
      rw [Stop.Tracked, exec_visit, Stop.log_eq, Stop.next, List.flatMap_append]
      dsimp only at hfirst hvisit hsecond hvisit' ⊢
      rw [← Stop.arrived, List.foldl_cons, List.foldl_append, ← hself, ← hvisit, hvisit']
      rw [hvisit] at hsecond
      rw [Follows, ← hself]
      exact ⟨⟨rfl, follows_append.mpr ⟨hfirst, hsecond⟩⟩, rfl⟩

end

/-! ### Arriving at a stop -/

namespace Stop.Placed

variable {ctx : WalkContext} {a : Stop}

/-- At a declaration a walk arrives as at one, whatever the role. -/
lemma exists_arrived_of_isDecl (hctx : ctx.cancelled = .never) (h : a.Placed)
    (hdecl : a.node.content.isDecl) :
    ∃ s, Same a.state s ∧ s.facts = a.state.facts ∧
      a.arrived ctx = exec (arriveDecl a.node.id a.node.content) ctx s := by
  have hsuits := h.suits
  have hstmt : exec (arriveStmt a.node.id a.node.content a.node.inner) ctx a.state =
      exec (arriveDecl a.node.id a.node.content) ctx (asked a.state) := by
    rw [exec_arriveStmt hctx, if_pos hdecl]
  have hasked : Same a.state (asked a.state) := ⟨rfl, rfl⟩
  rw [arrived]
  cases hrole : a.role with
  | decl => exact ⟨a.state, .refl _, rfl, rfl⟩
  | stmt => exact ⟨asked a.state, hasked, rfl, hstmt⟩
  | callee name depth =>
      rw [hrole] at hsuits
      have hwrapper : ¬isCalleeWrapper a.node.content := by
        intro hwrapper
        cases hcontent : a.node.content <;>
          simp [hcontent, isCalleeWrapper, Content.isDecl] at hwrapper hdecl
      -- no declaration is the name of a callee, nor a wrapper around it
      have hname : a.node.id ≠ name := fun hname => hsuits _ a.node.self_mem_nodes hname hdecl
      rw [arrive, if_neg fun hall => hwrapper hall.2.2, if_neg hname]
      exact ⟨asked a.state, hasked, rfl, hstmt⟩
  | initializer ctor =>
      rw [hrole] at hsuits
      obtain ⟨init, hinit⟩ := hsuits
      rw [hinit] at hdecl
      exact absurd hdecl Bool.false_ne_true

/-- Where a declaration is entered, it is reported behind that. -/
lemma exists_arrived_of_enters (hctx : ctx.cancelled = .never) (h : a.Placed)
    (hdecl : a.node.content.isDecl) (hup : ¬isMadeUp a.node.content) :
    ∃ s, Same a.state s ∧ s.facts = a.state.facts ∧
      (a.arrived ctx).2 = (exec (reportDecl a.node.id a.node.content) ctx
        (exec (enter a.node.id a.node.content) ctx s).2).2 := by
  obtain ⟨s, hsame, hfacts, harrived⟩ := h.exists_arrived_of_isDecl hctx hdecl
  have hnew : ¬s.visited.contains a.node.id := by
    rw [← hsame.visited]
    simpa using h.fresh _ (List.mem_map_of_mem a.node.self_mem_nodes)
  refine ⟨asked s, hsame.trans ⟨rfl, rfl⟩, hfacts, ?_⟩
  rw [harrived, exec_arriveDecl hctx, if_neg hup, if_neg hnew]

/-- Nothing else is entered. -/
lemma same_arrived_of_not_isDecl (hctx : ctx.cancelled = .never) (h : a.Placed)
    (hdecl : ¬a.node.content.isDecl) : Same a.state (a.arrived ctx).2 := by
  have hsuits := h.suits
  have hstmt : Same a.state
      (exec (arriveStmt a.node.id a.node.content a.node.inner) ctx a.state).2 := by
    rw [exec_arriveStmt_of_not_isDecl hctx hdecl]
    have hasked : Same a.state (asked a.state) := ⟨rfl, rfl⟩
    exact hasked.trans ((Action.reportStmt a.node.content a.node.inner).same ctx (asked a.state))
  rw [arrived]
  cases hrole : a.role with
  | decl =>
      rw [hrole] at hsuits
      exact absurd hsuits hdecl
  | stmt => exact hstmt
  | callee name depth =>
      rw [arrive]
      split
      · exact .refl _
      split
      · exact .refl _
      · exact hstmt
  | initializer ctor =>
      cases a.node.content with
      | ctorInit init => exact (Action.arriveInitializer ctor init a.node.inner).same ctx a.state
      | _ => exact .refl _

/-- Behind a stop the tracker is what the node makes of it. -/
lemma tracker_arrived (hctx : ctx.cancelled = .never) (h : a.Placed) :
    (a.arrived ctx).2.tracker = a.track ctx.unit.names a.state.tracker := by
  by_cases hdecl : a.node.content.isDecl
  · by_cases hup : isMadeUp a.node.content
    · obtain ⟨s, hsame, -, harrived⟩ := h.exists_arrived_of_isDecl hctx hdecl
      rw [harrived, exec_arriveDecl hctx, if_pos hup, track, enters, hup, hsame.tracker]
      simp [asked]
    · obtain ⟨s, hsame, -, harrived⟩ := h.exists_arrived_of_enters hctx hdecl hup
      -- what is reported does not move the tracker, but entering does
      have hreport := (Action.reportDecl a.node.id a.node.content).same ctx
        (exec (enter a.node.id a.node.content) ctx s).2
      rw [harrived, ← hreport.tracker, tracker_enter, track, enters, hdecl, hsame.tracker]
      simp [hup]
  · have hrole : a.role ≠ .decl := by
      intro hrole
      have hsuits := h.suits
      rw [hrole] at hsuits
      exact hdecl hsuits
    rw [← (h.same_arrived_of_not_isDecl hctx hdecl).tracker, track, enters]
    simp [hdecl, hrole]

end Stop.Placed

section

variable {unit : ParsedUnit} {options : WalkOptions} {watched : Bool}

/-- So it is at all stops of a walk. -/
lemma tracker_arrived_of_mem_stops (hids : unit.root.ids.Nodup) {a : Stop}
    (ha : a ∈ stops unit options watched) :
    (a.arrived ⟨unit, options, .never⟩).2.tracker = a.track unit.names a.state.tracker := by
  rcases cases_of_mem_stops hids ha with ⟨rfl, hroot⟩ | ⟨hplaced, -⟩
  · have hup := not_isMadeUp_of_not_isDecl hroot
    rw [arrived_root hroot, tracker_enter, Stop.track]
    simp [Stop.enters, Stop.root, hup, asked]
  · exact hplaced.tracker_arrived rfl

/-- **The current file of a walk** is the one that was entered last. -/
lemma current_of_stops (hids : unit.root.ids.Nodup) {front back : List Stop} {a : Stop}
    (h : stops unit options watched = front ++ a :: back) :
    a.state.tracker.current = knownFile (currentFile unit.names front) := by
  have htracked : (Stop.root unit watched).Tracked ⟨unit, options, .never⟩ :=
    tracked_of_arrived fun b hb => tracker_arrived_of_mem_stops hids hb
  have hfollows : Follows unit.names (start unit watched).tracker (front ++ a :: back) :=
    h ▸ htracked.1
  rw [(follows_append.mp hfollows).2.1]
  refine current_foldl ?_ front
  rw [start, knownFile]
  by_cases hempty : unit.names.primary = "" <;>
    cases watched <;> simp [FileTracker.enter, FileTracker.send, hempty]

/-! ### Symbols -/

/-- A symbol stands at its site. -/
lemma siteIn_of_mem_symbolFact? {current : Option String} {id : NodeId} {data : DeclData}
    {kind : SymbolKind} {sym : Symbol}
    (h : Fact.symbol sym ∈ symbolFact? unit current id data kind) :
    siteIn unit.names current data.loc = some sym.location := by
  rw [symbolFact?] at h
  obtain ⟨info, -, h⟩ := Option.bind_eq_some_iff.mp h
  split at h
  · exact absurd h (by simp)
  obtain ⟨location, hlocation, h⟩ := Option.bind_eq_some_iff.mp h
  obtain rfl := Fact.symbol.inj (Option.some.inj h)
  exact hlocation

/-- What is reported of a declaration that has been entered. -/
lemma exists_delivers_reportDecl (unit : ParsedUnit) (options : WalkOptions) (id : NodeId)
    (kind : DeclKind) (data : DeclData) (s : WalkState) :
    ∃ fact : Option Fact,
      Delivers fact.toList s
        (exec (reportDecl id (.decl kind data)) ⟨unit, options, .never⟩ s).2 ∧
      ∀ f ∈ fact, ∃ symbol, f ∈ symbolFact? unit s.tracker.current id data symbol := by
  rw [reportDecl]
  cases hkind : symbolKind? kind with
  | none => exact ⟨none, .nothing rfl, by simp⟩
  | some symbol =>
      dsimp only
      rw [exec_bind, exec_reportsLocal hkind]
      dsimp only
      split
      · exact ⟨_, delivers_emitSymbol rfl id data symbol s, fun f hf => ⟨symbol, hf⟩⟩
      · exact ⟨none, .nothing rfl, by simp⟩

/-- A symbol that is delivered at a stop tells of the declaration entered there, and stands where
this one has a site in the current file. -/
lemma siteIn_of_mem_delivered (hids : unit.root.ids.Nodup) {a : Stop}
    (ha : a ∈ stops unit options watched) {sym : Symbol}
    (hsym : Fact.symbol sym ∈ a.delivered ⟨unit, options, .never⟩) :
    ∃ kind data, a.node.content = .decl kind data ∧ symbolKind? kind = some sym.kind ∧
      a.file? unit.names = data.loc.bind unit.names.ownFile? ∧
      siteIn unit.names (a.track unit.names a.state.tracker).current data.loc =
        some sym.location := by
  have hmem : (a.node, Fact.symbol sym) ∈ deliveries unit options watched :=
    List.mem_flatMap.mpr ⟨a, ha, List.mem_map_of_mem hsym⟩
  obtain @⟨_, kind, data, -, hcontent, hkind, -, -⟩ := told_of_mem_deliveries hmem
  have hplaced : a.Placed := by
    rcases met_of_mem_stops hids ha with hmet | hnone
    · exact hmet.placed hids ha
    · rw [hnone] at hsym
      exact absurd hsym (by simp)
  -- what the compiler has made up is passed over
  have hup : ¬isMadeUp a.node.content := by
    intro hup
    rw [hplaced.delivered_of_isMadeUp rfl hup] at hsym
    exact absurd hsym (by simp)
  have hdecl : a.node.content.isDecl := by
    rw [hcontent]
    rfl
  have hfile : a.file? unit.names = data.loc.bind unit.names.ownFile? := by
    rw [Stop.file?, Stop.enters, hdecl, hcontent]
    rw [hcontent] at hup
    simp [hup, Content.loc?]
  refine ⟨kind, data, hcontent, hkind, hfile, ?_⟩
  let ctx : WalkContext := ⟨unit, options, .never⟩
  have hctx : ctx.cancelled = .never := rfl
  obtain ⟨s, hsame, hfacts, harrived⟩ := hplaced.exists_arrived_of_enters hctx hdecl hup
  let t := (exec (enter a.node.id a.node.content) ctx s).2
  -- the symbol is placed behind the entry, where the file is already that of the declaration
  have htracker : t.tracker = a.track unit.names a.state.tracker := by
    rw [tracker_enter, Stop.track, Stop.enters, hdecl, hsame.tracker]
    simp [ctx, hup]
  obtain ⟨fact, ⟨new, hnew, huntyped⟩, hfact⟩ :=
    exists_delivers_reportDecl unit options a.node.id kind data t
  rw [← hcontent] at hnew
  have hdelivered : a.delivered ctx = new := by
    refine Stop.delivered_eq ?_
    rw [harrived, ← hfacts]
    exact hnew
  rw [hdelivered] at hsym
  have hreported : Fact.symbol { sym with typeLocation := none } ∈ fact.toList := by
    rw [← huntyped]
    exact List.mem_filterMap.mpr ⟨_, hsym, rfl⟩
  obtain ⟨symbol, hmem⟩ := hfact _ (Option.mem_toList.mp hreported)
  rw [htracker] at hmem
  have hsite := siteIn_of_mem_symbolFact? hmem
  exact hsite

/-- What a walk has delivered when it is cancelled is delivered at its first stops. -/
lemma cancelled_facts {c : CancelSchedule} (hc : c.Monotone) :
    (run unit options c watched).facts <+: (deliveries unit options watched).map Prod.snd := by
  have hall := facts_visit ⟨unit, options, .never⟩ (Stop.root unit watched)
  have hnever : (finalState unit options .never watched).facts.toList =
      (deliveries unit options watched).map Prod.snd := by
    rw [finalState_eq_exec, map_deliveries]
    exact hall
  show (finalState unit options c watched).facts.toList <+: _
  rw [← hnever, finalState_eq_exec, finalState_eq_exec]
  rcases (Action.visit .decl unit.root).cut unit options hc
    (start unit watched) with heq | ⟨-, hprefix⟩
  · rw [heq]
  · exact hprefix

end

/-- A site is the place that a location resolves to, in the file of this one or else in the current
file. -/
lemma eq_inFile_of_siteIn {names : FileNames} {current : Option String} {loc : SourceLocation}
    {l site : FileLocation} (hl : names.resolve? loc = some l)
    (h : siteIn names current (some loc) = some site) :
    ∃ file, (if l.file = "" then current else some l.file) = some file ∧ site = l.inFile file := by
  rw [siteIn, Option.bind_eq_bind, Option.bind_some, hl, Option.bind_eq_bind,
    Option.bind_some] at h
  -- a location without a file takes the current one, if there is one
  have hfile : ∃ file, (if l.file = "" then current else some l.file) = some file ∧
      (if isPhysicalFile file then some (l.inFile file) else none) = some site := by
    dsimp only at h
    split at h
    · next hempty =>
      rw [if_pos hempty]
      exact Option.bind_eq_some_iff.mp h
    · next hsome =>
      rw [if_neg hsome]
      exact ⟨l.file, rfl, h⟩
  obtain ⟨file, hfile, hsite⟩ := hfile
  split at hsite
  · exact ⟨file, hfile, (Option.some.inj hsite).symm⟩
  · exact absurd hsite (by simp)

/-- What has a site is displayed there in the same place as it is printed; only the file differs, if
the location gives none. -/
lemma exists_place_of_siteIn {names : FileNames} {loc : SourceLocation} {current : String}
    {site : FileLocation}
    (h : siteIn names (knownFile ((names.ownFile? loc).getD current)) (some loc) = some site) :
    ∃ place : FileLocation,
      names.print? loc = some (place.inFile ((names.ownFile? loc).getD names.primary)).text ∧
      site = place.inFile ((names.ownFile? loc).getD current) := by
  obtain ⟨place, hplace, l, hl, -⟩ := stands_of_siteIn h
  obtain rfl := Option.some.inj hplace
  obtain ⟨bare, hbare, -, hown⟩ := resolve?_eq_some hl
  obtain ⟨file, hfile, rfl⟩ := eq_inFile_of_siteIn hl h
  have hprint : names.print? loc =
      some (if l.file = "" then l.inFile names.primary else l).text := by
    rw [FileNames.print?, hl]
    rfl
  have howned : names.ownFile? loc = if bare.file = "" then none else some l.file := by
    rw [FileNames.ownFile?, hbare, hown, Option.bind_some]
    split <;> rfl
  refine ⟨l, ?_⟩
  rw [hprint, howned]
  rw [howned] at hfile
  -- without a file of its own the two differ in what they take for it
  by_cases hempty : bare.file = ""
  · rw [if_pos hempty] at hown hfile ⊢
    rw [if_pos hown] at hfile ⊢
    obtain rfl := eq_of_knownFile hfile
    exact ⟨rfl, rfl⟩
  · rw [if_neg hempty] at hfile ⊢
    rw [Option.getD_some] at hfile
    have hne : l.file ≠ "" := by
      intro hne
      rw [hne] at hfile
      exact absurd hfile (by simp [knownFile])
    rw [if_neg hne] at hfile ⊢
    obtain rfl := Option.some.inj hfile
    exact ⟨rfl, rfl⟩

/-- **Where symbols are displayed**, in a unit in which no two nodes have the same id. A walk, cut
short or not, delivers what is delivered at its first stops. A symbol that is delivered at a stop is
that of the declaration there, which has a location:

* its line, column and offset are those that the printer shows for this location;
* its file is the one that the location gives, and that is the file printed;
* if the location gives none, its file is the one entered last by the declarations passed so far,
  whereas the main file is printed.

So the symbol is displayed as the location is printed exactly if the location gives a file, or the
file entered last is the main file. -/
theorem symbol_positions (unit : ParsedUnit) (options : WalkOptions) {c : CancelSchedule}
    (hc : c.Monotone) (watched : Bool) (hids : unit.root.ids.Nodup) :
    (run unit options c watched).facts <+: (deliveries unit options watched).map Prod.snd ∧
      ∀ front a back, stops unit options watched = front ++ a :: back →
        ∀ sym, Fact.symbol sym ∈ a.delivered ⟨unit, options, .never⟩ →
          ∃ kind data loc, ∃ place : FileLocation,
            a.node.content = .decl kind data ∧ symbolKind? kind = some sym.kind ∧
            data.loc = some loc ∧
            unit.names.print? loc = some
              (place.inFile ((unit.names.ownFile? loc).getD unit.names.primary)).text ∧
            sym.location =
              place.inFile ((unit.names.ownFile? loc).getD (currentFile unit.names front)) ∧
            (unit.names.print? loc = some sym.location.text ↔
              (unit.names.ownFile? loc = none →
                currentFile unit.names front = unit.names.primary)) := by
  refine ⟨cancelled_facts hc, fun front a back hstops sym hsym => ?_⟩
  have ha : a ∈ stops unit options watched := by
    rw [hstops]
    exact List.mem_append_right _ List.mem_cons_self
  obtain ⟨kind, data, hcontent, hkind, hfile, hsite⟩ := siteIn_of_mem_delivered hids ha hsym
  rw [current_track (current_of_stops hids hstops), hfile] at hsite
  obtain ⟨loc, hloc, -⟩ := stands_of_siteIn hsite
  rw [hloc, Option.bind_some] at hsite
  obtain ⟨place, hprint, hplace⟩ := exists_place_of_siteIn hsite
  refine ⟨kind, data, loc, place, hcontent, hkind, hloc, hprint, hplace, ?_⟩
  rw [hprint, hplace, Option.some_inj, FileLocation.text_inFile_eq_iff]
  cases unit.names.ownFile? loc with
  | none => simp [eq_comm]
  | some file => simp

/-- A function with a parameter, and a variable in its body that is declared in a header. -/
def headerInBody : ParsedUnit :=
  .ofRoot ⟨⟨1⟩, .decl .translationUnit {}, [
      ⟨⟨2⟩, .decl .function { name := some "f", loc := some (placeIn "" 1) }, [
        ⟨⟨3⟩, .decl .parmVar { name := some "p", loc := some (placeIn "" 2) }, []⟩,
        ⟨⟨4⟩, .expr .declStmt {}, [
          ⟨⟨5⟩, .decl .var { name := some "v", loc := some (placeIn "/a.h" 3) }, []⟩]⟩]⟩]⟩
    literalNames

/-- What is delivered in the unit, where it is displayed, and where it is printed. -/
lemma map_deliveries_headerInBody :
    (deliveries headerInBody { indexLocals := true } false).map (fun p =>
      (p.2.isSymbol, p.2.site.text, p.1.content.loc?.bind headerInBody.names.print?)) =
      [(true, "/m.cpp:1:1", some "/m.cpp:1:1"), (true, "/a.h:3:1", some "/a.h:3:1"),
        (true, "/a.h:2:1", some "/m.cpp:2:1")] := by
  cbv

/-- The stops of the walk, the files that they enter, and what they deliver. -/
lemma map_stops_headerInBody :
    (stops headerInBody { indexLocals := true } false).map (fun a =>
      (a.node.id.value, a.file? headerInBody.names,
        a.node.content.loc?.bind headerInBody.names.ownFile?,
        (a.delivered ⟨headerInBody, { indexLocals := true }, .never⟩).map Fact.isSymbol)) =
      [(1, none, none, []), (2, none, none, [true]), (4, none, none, []),
        (5, some "/a.h", some "/a.h", [true])] ++ [(3, none, none, [true])] := by
  cbv

/-- The parameter is passed behind the body, where the current file is the header. -/
theorem symbol_positions_headerInBody :
    ∃ front a sym,
      stops headerInBody { indexLocals := true } false = front ++ [a] ∧ a.node.id.value = 3 ∧
      Fact.symbol sym ∈ a.delivered ⟨headerInBody, { indexLocals := true }, .never⟩ ∧
      sym.location.file = "/a.h" ∧
      a.node.content.loc?.bind headerInBody.names.print? ≠ some sym.location.text := by
  obtain ⟨front, rest, hstops, hfront, hrest⟩ := List.map_eq_append_iff.mp map_stops_headerInBody
  obtain ⟨a, back, rfl, ha, hback⟩ := List.map_eq_cons_iff.mp hrest
  obtain rfl := List.map_eq_nil_iff.mp hback
  simp only [Prod.mk.injEq] at ha
  obtain ⟨hid, -, hown, hdelivered⟩ := ha
  obtain ⟨f, _, hf, hsymbol, -⟩ := List.map_eq_cons_iff.mp hdelivered
  cases f with
  | reference r => exact absurd hsymbol Bool.false_ne_true
  | symbol sym =>
      have hmem : Fact.symbol sym ∈
          a.delivered ⟨headerInBody, { indexLocals := true }, .never⟩ := by
        rw [hf]
        exact List.mem_cons_self
      -- the last file entered in front of the parameter is the header
      have hcurrent : currentFile headerInBody.names front = "/a.h" := by
        have hfiles : front.filterMap (Stop.file? headerInBody.names) = ["/a.h"] := by
          have hpassed := congrArg (List.filterMap fun entry => entry.2.1) hfront
          rw [List.filterMap_map] at hpassed
          exact hpassed
        rw [currentFile, hfiles]
        rfl
      obtain ⟨kind, data, loc, place, hcontent, -, hloc, -, hsite, hprint⟩ :=
        (symbol_positions headerInBody { indexLocals := true } CancelSchedule.monotone_never false
          (by decide)).2 front a [] hstops sym hmem
      have hplace : a.node.content.loc? = some loc := by
        rw [hcontent]
        exact hloc
      rw [hplace, Option.bind_some] at hown
      refine ⟨front, a, sym, hstops, hid, hmem, ?_, ?_⟩
      · rw [hsite, hown, hcurrent]
        rfl
      · rw [hplace, Option.bind_some, Ne, hprint, hcurrent]
        intro hsame
        exact absurd (hsame hown) (by decide)

/-- Symbols are not always displayed as their declarations are printed. -/
theorem printed_elsewhere :
    ¬∀ (unit : ParsedUnit) (options : WalkOptions) (watched : Bool), unit.root.ids.Nodup →
      ∀ p ∈ deliveries unit options watched, ∀ sym loc, p.2 = .symbol sym →
        p.1.content.loc? = some loc → unit.names.print? loc = some sym.location.text := by
  intro h
  have hmem : (true, "/a.h:2:1", some "/m.cpp:2:1") ∈
      (deliveries headerInBody { indexLocals := true } false).map fun p =>
        (p.2.isSymbol, p.2.site.text, p.1.content.loc?.bind headerInBody.names.print?) := by
    rw [map_deliveries_headerInBody]
    simp
  obtain ⟨⟨n, f⟩, hp, heq⟩ := List.mem_map.mp hmem
  simp only [Prod.mk.injEq] at heq
  obtain ⟨hsymbol, htext, hprint⟩ := heq
  cases f with
  | reference r => exact absurd hsymbol Bool.false_ne_true
  | symbol sym =>
      obtain ⟨loc, hloc, hprint⟩ := Option.bind_eq_some_iff.mp hprint
      have hshown := h headerInBody _ false (by decide) _ hp sym loc rfl hloc
      have hsame : "/m.cpp:2:1" = "/a.h:2:1" :=
        Option.some.inj (hprint.symm.trans (hshown.trans (congrArg some htext)))
      exact absurd hsame (by decide)

end Walk

end UnitIndex
