import Mathlib.Tactic
import UnitIndex.Proofs.Decl.Described
import UnitIndex.Proofs.Walk.Uses

/-!
The locations that facts carry.

A fact stands somewhere, and it may mention where something else is declared. Both come from
locations of the tree, but not in the same way.

* Where a fact stands, the walk gives a location without a file the current one, and reports nothing
  in a buffer that is no file (`Stands`).
* What a fact mentions is taken from the declarations of the unit as it is: the file is still left
  out if the tree leaves it out, and it may be no file at all (`Declared`).

`run_locations` says so of all facts of all walks. So every location can be opened as long as the
tree gives the declarations that it locates in physical files, and no line exceeds what a location
holds; `run_mentions_no_file` is a walk that mentions a location without a file.
-/

namespace UnitIndex

namespace FileLocation

/-- Whether a reader can open the location: it is in a physical file, and has a line. -/
def CanBeOpened (l : FileLocation) : Prop := isPhysicalFile l.file ∧ 1 ≤ l.line

end FileLocation

namespace Fact

/-- The locations that a fact mentions besides its own. -/
def mentions : Fact → List FileLocation
  | symbol s => s.definition.toList ++ s.typeLocation.toList
  | reference r => (r.target.map (·.location)).toList

/-- All locations in a fact. -/
def locations (f : Fact) : List FileLocation := f.site :: f.mentions

end Fact

/-- The locations that a dump gives to a node. -/
def Content.places (c : Content) : List SourceLocation :=
  c.loc?.toList ++ c.range?.toList.flatMap fun range => [range.start, range.stop]

namespace Node

/-- The locations in a tree. -/
def places (n : Node) : List SourceLocation := n.nodes.flatMap (·.content.places)

/-- The locations of the declarations in a tree. -/
def declPlaces (n : Node) : List SourceLocation :=
  n.nodes.filterMap fun m => m.content.decl?.bind (·.2.loc)

/-- The places of a node of a tree are places of the tree. -/
lemma mem_places {root n : Node} (hn : n ∈ root.nodes) {loc : SourceLocation}
    (h : loc ∈ n.content.places) : loc ∈ root.places :=
  List.mem_flatMap.mpr ⟨n, hn, h⟩

/-- Among them is its location. -/
lemma loc_mem_places {root n : Node} (hn : n ∈ root.nodes) {loc : SourceLocation}
    (h : n.content.loc? = some loc) : loc ∈ root.places :=
  mem_places hn (List.mem_append_left _ (by rw [h]; exact List.mem_singleton_self loc))

lemma range_mem_places {root n : Node} (hn : n ∈ root.nodes) {range : SourceRange}
    (h : n.content.range? = some range) : range.start ∈ root.places ∧ range.stop ∈ root.places := by
  have hends : n.content.places = n.content.loc?.toList ++ [range.start, range.stop] := by
    rw [Content.places, h]
    simp
  exact ⟨mem_places hn (by simp [hends]), mem_places hn (by simp [hends])⟩

/-- The places of declarations are among all places. -/
lemma declPlaces_subset (n : Node) : n.declPlaces ⊆ n.places := by
  intro loc h
  obtain ⟨m, hm, hloc⟩ := List.mem_filterMap.mp h
  obtain ⟨⟨kind, data⟩, hdecl, hloc⟩ := Option.bind_eq_some_iff.mp hloc
  refine loc_mem_places hm ?_
  cases hcontent : m.content with
  | decl kind' data' =>
      rw [hcontent] at hdecl
      obtain ⟨rfl, rfl⟩ := Prod.mk.inj (Option.some.inj hdecl)
      exact hloc
  | _ =>
      rw [hcontent] at hdecl
      exact absurd hdecl (by simp [Content.decl?])

end Node

namespace Walk

/-- The fact stands where the location of the tree is. -/
def Stands (names : FileNames) (loc : SourceLocation) (site : FileLocation) : Prop :=
  ∃ l, names.resolve? loc = some l ∧ site = { l with file := site.file } ∧
    (l.file ≠ "" → site.file = l.file) ∧ isPhysicalFile site.file

/-- Some declaration of the tree is there. -/
def Declared (names : FileNames) (root : Node) (l : FileLocation) : Prop :=
  ∃ loc ∈ root.declPlaces, names.resolve? loc = some l

/-- The locations of a fact come from the tree. -/
structure Located (names : FileNames) (root : Node) (f : Fact) : Prop where
  site : ∃ loc ∈ root.places, Stands names loc f.site
  mentions : ∀ l ∈ f.mentions, Declared names root l

/-! ### What the reports are about -/

section

variable {root : Node} {names : FileNames} {options : WalkOptions} {cancelled : CancelSchedule}

/-- Declarations are located where the tree declares them. -/
lemma declared_of_get?_build {id : NodeId} {d : DeclInfo}
    (h : (DeclTable.build names root).get? id = some d) {l : FileLocation}
    (hl : d.location = some l) : Declared names root l := by
  refine DeclTable.holds_build (fun d => ∀ l, d.location = some l → Declared names root l)
    (fun {f d} hf hd => ?_) (fun m hm kind data hcontent t scope l hl => ?_) h l hl
  · obtain ⟨name, isDefinition, pattern, heq⟩ := hf d
    rw [heq]
    exact hd
  · obtain ⟨loc, hloc, hresolve⟩ := Option.bind_eq_some_iff.mp hl
    refine ⟨loc, List.mem_filterMap.mpr ⟨m, hm, ?_⟩, hresolve⟩
    rw [hcontent]
    exact hloc

/-- **A site stands where its location says.** -/
lemma stands_of_siteIn {current : Option String} {loc : Option SourceLocation}
    {site : FileLocation} (h : siteIn names current loc = some site) :
    ∃ place, loc = some place ∧ Stands names place site := by
  obtain ⟨place, hplace, h⟩ := Option.bind_eq_some_iff.mp h
  obtain ⟨l, hl, h⟩ := Option.bind_eq_some_iff.mp h
  -- the file of the location, or the current one where it gives none
  have hfile : ∃ file, (l.file ≠ "" → file = l.file) ∧
      (if isPhysicalFile file then some { l with file := file } else none) = some site := by
    dsimp only at h
    split at h
    · next hempty =>
      obtain ⟨file, -, h⟩ := Option.bind_eq_some_iff.mp h
      exact ⟨file, fun hne => absurd hempty hne, h⟩
    · exact ⟨l.file, fun _ => rfl, h⟩
  obtain ⟨file, hsame, h⟩ := hfile
  split at h
  · next hphysical =>
    obtain rfl := Option.some.inj h
    exact ⟨place, hplace, l, hl, rfl, hsame, hphysical⟩
  · exact absurd h (by simp)

/-- A target is located where a declaration is. -/
lemma declared_of_targetIn {id : NodeId} {target : Target}
    (h : targetIn (DeclTable.build names root) id = some target) :
    Declared names root target.location := by
  rw [targetIn, Option.bind_eq_bind, Option.bind_eq_some_iff] at h
  obtain ⟨definition, hget, h⟩ := h
  split at h
  · exact absurd h (by simp)
  · obtain ⟨l, hl, h⟩ := Option.bind_eq_some_iff.mp h
    obtain rfl := Option.some.inj h
    exact declared_of_get?_build hget hl

lemma declared_of_definitionLocation? {d : DeclInfo} {id : NodeId} {l : FileLocation}
    (h : definitionLocation? (DeclTable.build names root) d id = some l) :
    Declared names root l := by
  rw [definitionLocation?] at h
  split at h
  · obtain ⟨definition, hget, hl⟩ := Option.bind_eq_some_iff.mp h
    exact declared_of_get?_build hget hl
  · exact absurd h (by simp)

end

/-- The target, if there is one, is a declaration of the tree. -/
def DeclaredTarget (ctx : WalkContext) (target : Option Target) : Prop :=
  ∀ t ∈ target, Declared ctx.unit.names ctx.unit.root t.location

/-- Where nothing is mentioned nothing has to be located. -/
lemma declaredTarget_none (ctx : WalkContext) : DeclaredTarget ctx none := by simp [DeclaredTarget]

/-- A location that is taken from the tree, if there is one. -/
def FromTree (root : Node) (loc : Option SourceLocation) : Prop :=
  ∀ place ∈ loc, place ∈ root.places

section

variable {root n : Node} {loc loc' : Option SourceLocation}

/-- One of two locations of the tree is a location of the tree. -/
lemma FromTree.or (h : FromTree root loc) (h' : FromTree root loc') :
    FromTree root (loc.or loc') := by
  intro place hplace
  rcases Option.or_eq_some_iff.mp hplace with hloc | ⟨-, hloc⟩
  · exact h place hloc
  · exact h' place hloc

/-- The location of a node is one, and so are the start of its range and the site of a name. -/
lemma fromTree_loc (hn : n ∈ root.nodes) : FromTree root n.content.loc? :=
  fun _ hplace => Node.loc_mem_places hn hplace

lemma fromTree_start (hn : n ∈ root.nodes) : FromTree root (n.content.range?.map (·.start)) := by
  intro place hplace
  obtain ⟨range, hrange, rfl⟩ := Option.map_eq_some_iff.mp hplace
  exact (Node.range_mem_places hn hrange).1

lemma fromTree_refSite? (hn : n ∈ root.nodes) {kind : RefKind} {data : RefData}
    (hcontent : n.content = .ref kind data) : FromTree root (refSite? kind data) := by
  have hloc := fromTree_loc hn
  have hrange {range : SourceRange} (h : data.range = some range) :
      range.start ∈ root.places ∧ range.stop ∈ root.places :=
    Node.range_mem_places hn (by rw [hcontent]; exact h)
  rw [hcontent] at hloc
  refine hloc.or fun place hplace => ?_
  obtain ⟨range, h, rfl⟩ := Option.map_eq_some_iff.mp hplace
  cases kind with
  | member => exact (hrange h).2
  | declRef => exact (hrange h).1

/-- A call stands at the name of its callee, which is a node below it, or at the call itself. -/
lemma fromTree_callSite? (hn : n ∈ root.nodes) {kind : ExprKind} {data : ExprData}
    (hcontent : n.content = .expr kind data) : FromTree root (callSite? data n.inner) := by
  have hstart := fromTree_start hn
  rw [hcontent] at hstart
  refine FromTree.or (fun place hplace => ?_) hstart
  obtain ⟨⟨name, k, ref⟩, hname, hsite⟩ := Option.bind_eq_some_iff.mp hplace
  obtain ⟨c, hc, m, hm, -, hcontent'⟩ := mem_nodes_of_calleeOfFirst? hname
  have hinner := Node.mem_nodes_of_mem_inner (List.mem_of_mem_head? hc) hm
  exact fromTree_refSite? (Node.mem_nodes_trans hn hinner) hcontent' place hsite

end

/-- The result of a step has the property, and the facts that it delivers are located. -/
abbrev Locates {α : Type} (ctx : WalkContext) (Q : α → Prop) (x : WalkM α) : Prop :=
  Yields ctx Q (Located ctx.unit.names ctx.unit.root) x

namespace Locates

variable {ctx : WalkContext}

/-- What a site is looked up for stands in the tree. -/
lemma site? {loc : Option SourceLocation} (h : FromTree ctx.unit.root loc) :
    Locates ctx (fun site => ∀ l ∈ site, ∃ place ∈ ctx.unit.root.places,
      Stands ctx.unit.names place l) (Walk.site? loc) := by
  refine .of_facts (fun s l hl => ?_) fun _ => rfl
  obtain ⟨place, hplace, hstands⟩ := stands_of_siteIn hl
  exact ⟨place, h place hplace, hstands⟩

variable (hctx : ctx.unit.decls = DeclTable.build ctx.unit.names ctx.unit.root)

include hctx

/-- What a target is looked up for is declared. -/
lemma target? (id : NodeId) : Locates ctx (DeclaredTarget ctx) (Walk.target? id) := by
  refine .of_facts (fun s t ht => ?_) fun _ => rfl
  have htarget : targetIn ctx.unit.decls id = some t := ht
  rw [hctx] at htarget
  exact declared_of_targetIn htarget

lemma decl? (id : NodeId) :
    Locates ctx (fun info => ∀ d ∈ info, ∀ l ∈ d.location,
      Declared ctx.unit.names ctx.unit.root l) (Walk.decl? id) := by
  refine .of_facts (fun s d hd l hl => ?_) fun _ => rfl
  have hget : ctx.unit.decls.get? id = some d := hd
  rw [hctx] at hget
  exact declared_of_get?_build hget hl

/-- The place of a type is that of a declaration. -/
lemma typeLocation? (type : Option WrittenType) :
    Locates ctx (fun location => ∀ l ∈ location, Declared ctx.unit.names ctx.unit.root l)
      (Walk.typeLocation? type) := by
  cases type with
  | none => exact .pure (by simp)
  | some type =>
      refine (Yields.silent fun _ => rfl).bind fun found _ => ?_
      cases found with
      | none => exact .pure (by simp)
      | some id =>
          refine (decl? hctx id).bind fun info hinfo => .pure fun l hl => ?_
          obtain ⟨d, hd, hl⟩ := Option.bind_eq_some_iff.mp hl
          exact hinfo d hd l hl

lemma typeTarget? (type : WrittenType) :
    Locates ctx (DeclaredTarget ctx) (Walk.typeTarget? type) := by
  refine (Yields.silent fun _ => rfl).bind fun found _ => ?_
  cases found with
  | none => exact .pure (declaredTarget_none ctx)
  | some id => exact target? hctx id

omit hctx in
/-- A reference may be delivered where its site stands and its target is declared. -/
lemma emitReference {kind : ReferenceKind} {site : FileLocation} {target : Option Target}
    (hsite : ∃ place ∈ ctx.unit.root.places, Stands ctx.unit.names place site)
    (htarget : DeclaredTarget ctx target) :
    Locates ctx (fun _ => True) (Walk.emitReference kind site target) := by
  refine .emit ⟨hsite, fun l hl => ?_⟩
  obtain ⟨t, ht, rfl⟩ := Option.map_eq_some_iff.mp (Option.mem_toList.mp hl)
  exact htarget t ht

/-- **Symbols** stand where their declarations do. -/
lemma emitSymbol (id : NodeId) {data : DeclData} (kind : SymbolKind)
    (h : FromTree ctx.unit.root data.loc) :
    Locates ctx (fun _ => True) (Walk.emitSymbol id data kind) := by
  refine (Yields.silent fun _ => rfl).bind fun cancelled _ => ?_
  split
  · exact .pure trivial
  refine (decl? hctx id).bind fun info _ => ?_
  cases info with
  | none => exact .pure trivial
  | some info =>
      dsimp only
      split
      · exact .pure trivial
      refine (site? h).bind fun location hlocation => ?_
      cases location with
      | none => exact .pure trivial
      | some location =>
          refine .read ((typeLocation? hctx _).bind fun typeLocation htype => .emit ⟨?_, ?_⟩)
          · exact hlocation location rfl
          · intro l hl
            -- what a symbol mentions is its definition or its type
            rcases List.mem_append.mp hl with hl | hl
            · exact declared_of_definitionLocation? (hctx ▸ Option.mem_toList.mp hl)
            · exact htype l (Option.mem_toList.mp hl)

/-- **Uses** stand where they are. -/
lemma emitUse (kind : ReferenceKind) {loc : Option SourceLocation} (id : NodeId)
    (h : FromTree ctx.unit.root loc) :
    Locates ctx (fun _ => True) (Walk.emitUse kind loc id) := by
  refine (Yields.silent fun _ => rfl).bind fun indexable _ => ?_
  split
  · exact .pure trivial
  refine (target? hctx id).bind fun target htarget => ?_
  cases target with
  | none => exact .pure trivial
  | some target =>
      refine (site? h).bind fun site hsite => ?_
      cases site with
      | none => exact .pure trivial
      | some site => exact emitReference (hsite site rfl) htarget

/-- **Uses of types**, at the location of the expression or at its start. -/
lemma emitTypeUse {data : ExprData} (type : Option WrittenType)
    (h : FromTree ctx.unit.root (data.loc.or (data.range.map (·.start)))) :
    Locates ctx (fun _ => True) (Walk.emitTypeUse data type) := by
  cases type with
  | none => exact .pure trivial
  | some type =>
      refine (Yields.silent fun _ => rfl).bind fun found _ => ?_
      cases found with
      | none => exact .pure trivial
      | some id =>
          refine (site? h).bind fun site hsite => ?_
          cases site with
          | none => exact .pure trivial
          | some site =>
              refine (target? hctx id).bind fun target htarget => ?_
              cases target with
              | none => exact .pure trivial
              | some target => exact emitReference (hsite site rfl) htarget

/-- What is called is declared. -/
lemma callTarget? (inner : List Node) :
    Locates ctx (DeclaredTarget ctx) (Walk.callTarget? inner) := by
  rw [Walk.callTarget?]
  cases calleeDecl? inner with
  | none => exact .pure (declaredTarget_none ctx)
  | some id =>
      refine (Yields.silent fun _ => rfl).bind fun isFunction _ => ?_
      split
      · exact target? hctx id
      · exact .pure (declaredTarget_none ctx)

/-- **Calls.** -/
lemma emitCall {data : ExprData} {inner : List Node}
    (h : FromTree ctx.unit.root (callSite? data inner)) :
    Locates ctx (fun _ => True) (Walk.emitCall data inner) := by
  refine (site? h).bind fun site hsite => ?_
  cases site with
  | none => exact .pure trivial
  | some site =>
      exact (callTarget? hctx inner).bind fun target htarget =>
        emitReference (hsite site rfl) htarget

/-- **Initializers** stand at their first part, or at the constructor. -/
lemma arriveInitializer {ctor : Option SourceLocation} (init : CtorInit) {inner : List Node}
    (h : FromTree ctx.unit.root
      ((inner.head?.bind fun n => n.content.range?.map (·.start)).or ctor)) :
    Locates ctx (fun _ => True) (Walk.arriveInitializer ctor init inner) := by
  refine (site? h).bind fun site hsite => ?_
  cases site with
  | none => exact .pure trivial
  | some site =>
      dsimp only
      cases init.member with
      | some member =>
          refine (Yields.silent fun _ => rfl).bind fun indexable _ => ?_
          split
          · exact (target? hctx _).bind fun target htarget =>
              emitReference (hsite site rfl) htarget
          · exact .pure trivial
      | none =>
          dsimp only
          cases init.base.or init.delegating with
          | none => exact .pure trivial
          | some type =>
              exact (typeTarget? hctx type).bind fun target htarget =>
                emitReference (hsite site rfl) htarget

end Locates

/-! ### Nodes -/

/-- If the role is that of an initializer, its constructor is located in the tree. -/
def RoleWithin (root : Node) : Role → Prop
  | .initializer ctor => FromTree root ctor
  | _ => True

/-- If the course leads to initializers, their constructor is located in the tree. -/
def CourseWithin (root : Node) : Course → Prop
  | .body ctor => FromTree root ctor
  | .call role => RoleWithin root role
  | _ => True

/-- So it is with both of two courses. -/
def CoursesWithin (root : Node) (courses : Course × Course) : Prop :=
  CourseWithin root courses.1 ∧ CourseWithin root courses.2

section

variable {root : Node} {course : Course}

/-- What a course hands on comes from the tree. -/
lemma CourseWithin.role? (h : CourseWithin root course) {child : Content} {role : Role}
    (hrole : course.role? child = some role) : RoleWithin root role := by
  cases course with
  | nothing => exact absurd hrole (by simp [Course.role?])
  | call callee =>
      obtain rfl := Option.some.inj hrole
      exact h
  | body ctor =>
      -- only initializers are told the location of their constructor
      cases child with
      | ctorInit init =>
          obtain rfl := Option.some.inj hrole
          exact h
      | _ =>
          dsimp only [Course.role?] at hrole
          split at hrole
          · exact absurd hrole (by simp)
          · obtain rfl := Option.some.inj hrole
            trivial
  | mixed =>
      obtain rfl := Option.some.inj hrole
      split <;> trivial
  | ownStatements =>
      rw [Course.role?] at hrole
      split at hrole
      · exact absurd hrole (by simp)
      · obtain rfl := Option.some.inj hrole
        trivial
  | declarations parametersOnly upToPattern =>
      rw [Course.role?] at hrole
      split at hrole
      · exact absurd hrole (by simp)
      split at hrole
      · exact absurd hrole (by simp)
      · obtain rfl := Option.some.inj hrole
        trivial
  | _ =>
      obtain rfl := Option.some.inj hrole
      trivial

/-- What is handed on behind a child comes from the tree. -/
lemma CourseWithin.next (h : CourseWithin root course) (child : Content) :
    CourseWithin root (course.next child) := by
  cases course with
  | declarations parametersOnly upToPattern =>
      rw [Course.next]
      split <;> trivial
  | call role => trivial
  | _ => exact h

/-- Nested declarations are gone through without anything handed on. -/
lemma courseWithin_nestedCourse (content : Content) : CourseWithin root (nestedCourse content) := by
  cases content with
  | decl kind data => cases kind <;> trivial
  | _ => trivial

/-- A constructor hands its own location on. -/
lemma courseWithin_declCourses {content : Content} (h : FromTree root content.loc?) :
    CoursesWithin root (declCourses content) := by
  have hnested := @courseWithin_nestedCourse root content
  cases content with
  | decl kind data =>
      refine ⟨?_, hnested⟩
      -- the body of a function stands at the function, and no other course has a location
      cases kind <;> first | exact h | trivial
  | _ => exact ⟨trivial, hnested⟩

end

namespace Locates

variable {ctx : WalkContext} (hctx : ctx.unit.decls = DeclTable.build ctx.unit.names ctx.unit.root)
  {n : Node} (hn : n ∈ ctx.unit.root.nodes)

include hctx hn

/-- **Declarations.** -/
lemma reportDecl : Locates ctx (fun _ => True) (Walk.reportDecl n.id n.content) := by
  have hloc := fromTree_loc hn
  cases hcontent : n.content with
  | decl kind data =>
      rw [hcontent] at hloc
      rw [Walk.reportDecl]
      cases symbolKind? kind with
      | none => exact .pure trivial
      | some symbol =>
          refine (Yields.silent (facts_reportsLocal n.id kind ctx)).bind fun reports _ => ?_
          split
          · exact emitSymbol hctx _ _ hloc
          · exact .pure trivial
  | _ => exact .pure trivial

lemma arriveDecl :
    Locates ctx (CoursesWithin ctx.unit.root) (Walk.arriveDecl n.id n.content) := by
  refine (Yields.silent fun _ => rfl).bind fun cancelled _ => ?_
  split
  · exact .pure ⟨trivial, trivial⟩
  split
  · exact .pure ⟨trivial, trivial⟩
  refine (Yields.silent (x := get) fun _ => rfl).bind fun s _ => ?_
  split
  · exact .pure ⟨trivial, trivial⟩
  · refine (Yields.silent fun _ => rfl).bind fun _ _ => ?_
    exact (reportDecl hctx hn).bind fun _ _ => .pure (courseWithin_declCourses (fromTree_loc hn))

/-- **Statements.** -/
lemma reportStmt : Locates ctx (fun _ => True) (Walk.reportStmt n.content n.inner) := by
  have hloc := fromTree_loc hn
  have hstart := fromTree_start hn
  cases hcontent : n.content with
  | expr kind data =>
      rw [hcontent] at hloc hstart
      -- the use of a type stands at the location of the expression, or at its start
      have hsite : FromTree ctx.unit.root (data.loc.or (data.range.map (·.start))) := hloc.or hstart
      rw [Walk.reportStmt]
      split
      · exact emitCall hctx (fromTree_callSite? hn hcontent)
      refine .read ?_
      split
      · split
        · exact emitTypeUse hctx _ hsite
        split
        · exact emitTypeUse hctx _ hsite
        · exact .pure trivial
      · exact .pure trivial
  | ref kind data =>
      rw [Walk.reportStmt, emitRef]
      cases refTarget? kind data with
      | none => exact .pure trivial
      | some id => exact emitUse hctx _ _ (fromTree_refSite? hn hcontent)
  | _ => exact .pure trivial

omit hctx hn in
/-- Below a call the parts of the callee are gone through, and nothing is handed on. -/
lemma stmtCourse (content : Content) (inner : List Node) :
    Locates ctx (CourseWithin ctx.unit.root) (Walk.stmtCourse content inner) := by
  cases content with
  | expr kind data =>
      rw [Walk.stmtCourse]
      split
      · exact .pure trivial
      split
      · refine (Yields.silent fun s => ?_).bind fun isFunction _ => .pure ?_
        · rw [callsFunction]
          cases calleeDecl? inner <;> rfl
        · show RoleWithin ctx.unit.root (calleeRole inner isFunction)
          rw [calleeRole]
          split
          · split <;> trivial
          · trivial
      · exact .pure trivial
  | _ => exact .pure trivial

/-- Arriving at a statement. -/
lemma arriveStmt :
    Locates ctx (CoursesWithin ctx.unit.root) (Walk.arriveStmt n.id n.content n.inner) := by
  refine (Yields.silent fun _ => rfl).bind fun cancelled _ => ?_
  split
  · exact .pure ⟨trivial, trivial⟩
  split
  · exact arriveDecl hctx hn
  · refine (reportStmt hctx hn).bind fun _ _ => ?_
    exact (stmtCourse n.content n.inner).bind fun course hcourse => .pure ⟨hcourse, trivial⟩

/-- **Arriving at a node** in a role that comes from the tree. -/
lemma arrive {role : Role} (hrole : RoleWithin ctx.unit.root role) :
    Locates ctx (CoursesWithin ctx.unit.root) (Walk.arrive role n.id n.content n.inner) := by
  cases role with
  | decl => exact arriveDecl hctx hn
  | stmt => exact arriveStmt hctx hn
  | callee name depth =>
      rw [Walk.arrive]
      split
      · exact .pure ⟨trivial, trivial⟩
      split
      · exact .pure ⟨trivial, trivial⟩
      · exact arriveStmt hctx hn
  | initializer ctor =>
      cases hcontent : n.content with
      | ctorInit init =>
          have hsite : FromTree ctx.unit.root
              ((n.inner.head?.bind fun c => c.content.range?.map (·.start)).or ctor) := by
            refine FromTree.or (fun place hplace => ?_) hrole
            obtain ⟨c, hc, hplace⟩ := Option.bind_eq_some_iff.mp hplace
            -- the first part of an initializer is a node of the tree, too
            have hchild := Node.mem_nodes_of_mem_inner (List.mem_of_mem_head? hc) c.self_mem_nodes
            exact fromTree_start (Node.mem_nodes_trans hn hchild) place hplace
          exact (arriveInitializer hctx init hsite).bind fun _ _ => .pure ⟨trivial, trivial⟩
      | _ => exact .pure ⟨trivial, trivial⟩

end Locates

section

variable {ctx : WalkContext}

mutual

/-- **A visit** of a node of the tree, by recursion on the tree. -/
lemma Locates.visit (hctx : ctx.unit.decls = DeclTable.build ctx.unit.names ctx.unit.root)
    {role : Role} (hrole : RoleWithin ctx.unit.root role) :
    ∀ n : Node, n ∈ ctx.unit.root.nodes → Locates ctx (fun _ => True) (Walk.visit role n)
  | ⟨id, content, inner⟩, hn => by
      have hinner : ∀ c ∈ inner, c ∈ ctx.unit.root.nodes := fun c hc =>
        Node.mem_nodes_trans hn (Node.mem_nodes_of_mem_inner hc c.self_mem_nodes)
      rw [Walk.visit]
      refine (arrive hctx hn hrole).bind fun courses hcourses => ?_
      exact (visitAll hctx hcourses.1 inner hinner).bind fun _ _ =>
        visitAll hctx hcourses.2 inner hinner

/-- A visit of some nodes of the tree. -/
lemma Locates.visitAll (hctx : ctx.unit.decls = DeclTable.build ctx.unit.names ctx.unit.root)
    {course : Course} (hcourse : CourseWithin ctx.unit.root course) :
    ∀ ns : List Node, (∀ n ∈ ns, n ∈ ctx.unit.root.nodes) →
      Locates ctx (fun _ => True) (Walk.visitAll course ns)
  | [], _ => by
      rw [Walk.visitAll]
      exact .pure trivial
  | ⟨id, content, inner⟩ :: rest, hns => by
      obtain ⟨hfirst, hrest⟩ := List.forall_mem_cons.mp hns
      have hnext := Locates.visitAll hctx (hcourse.next content) rest hrest
      rw [Walk.visitAll]
      split
      · exact .pure trivial
      refine (Yields.silent fun s => facts_turnsBack course ctx s).bind fun back _ => ?_
      split
      · exact .pure trivial
      split
      · next role hrole =>
        exact (visit hctx (hcourse.role? hrole) _ hfirst).bind fun _ _ => hnext
      · exact hnext

end

end

/-! ### Whole walks -/

/-- **Every fact of a walk is located**: it stands in the tree, and mentions declarations of it. -/
lemma located_run (root : Node) (names : FileNames) (options : WalkOptions)
    (cancelled : CancelSchedule) (watched : Bool) :
    ∀ f ∈ (run (.ofRoot root names) options cancelled watched).facts, Located names root f := by
  let ctx : WalkContext := ⟨.ofRoot root names, options, cancelled⟩
  have hctx : ctx.unit.decls = DeclTable.build ctx.unit.names ctx.unit.root := by
    simp only [ctx, ParsedUnit.ofRoot]
  have hrole : RoleWithin root .decl := trivial
  have hvisit : Locates ctx (fun _ => True) (visit .decl root) :=
    Locates.visit hctx hrole root root.self_mem_nodes
  obtain ⟨-, new, hnew, hlocated⟩ := hvisit (start ctx.unit watched)
  intro f hf
  refine hlocated f ?_
  rw [start, List.nil_append] at hnew
  exact hnew ▸ hf

/-- The line of the location fits into the 32 bits of a line that is reported. -/
def LineFits (loc : SourceLocation) : Prop := ∃ b ∈ loc.seen?, b.line.toUInt32 ≠ 0

/-- The location has a file of its own, and that is a physical one. -/
def GivesFile (names : FileNames) (loc : SourceLocation) : Prop :=
  ∃ b ∈ loc.seen?, b.file ≠ "" ∧ isPhysicalFile (names.canonical b.file)

section

variable {names : FileNames} {loc : SourceLocation} {l site : FileLocation}

/-- What a location resolves to has its line, and its file if it gives one. -/
lemma resolve?_eq_some (h : names.resolve? loc = some l) :
    ∃ b, loc.seen? = some b ∧ l.line = b.line.toUInt32 ∧
      l.file = if b.file = "" then "" else names.canonical b.file := by
  rw [FileNames.resolve?, Option.bind_eq_bind, Option.bind_eq_some_iff] at h
  obtain ⟨b, hb, h⟩ := h
  split at h
  · exact absurd h (by simp)
  · obtain rfl := Option.some.inj h
    exact ⟨b, hb, rfl, rfl⟩

/-- A line counts from one just if it fits. -/
lemma one_le_line_iff (h : names.resolve? loc = some l) : 1 ≤ l.line ↔ LineFits loc := by
  obtain ⟨b, hb, hline, -⟩ := resolve?_eq_some h
  have hpos (line : UInt32) : 1 ≤ line ↔ line ≠ 0 := by
    rw [UInt32.le_iff_toNat_le, Ne, ← UInt32.toNat_inj]
    exact Nat.one_le_iff_ne_zero
  rw [hpos, hline, LineFits]
  simp [hb]

/-- Where a fact stands, only the line can be missing. -/
lemma Stands.canBeOpened_iff (h : Stands names loc site) : site.CanBeOpened ↔ LineFits loc := by
  obtain ⟨l, hl, hsite, -, hphysical⟩ := h
  have hline : site.line = l.line := by rw [hsite]
  rw [FileLocation.CanBeOpened, hline, one_le_line_iff hl]
  exact and_iff_right hphysical

/-- A location as the tree gives it can be opened if it has a line and a file of its own. -/
lemma canBeOpened_iff_of_resolve? (h : names.resolve? loc = some l) :
    l.CanBeOpened ↔ GivesFile names loc ∧ LineFits loc := by
  rw [FileLocation.CanBeOpened, one_le_line_iff h]
  refine and_congr_left fun _ => ?_
  obtain ⟨b, hb, -, hfile⟩ := resolve?_eq_some h
  have hempty : ¬isPhysicalFile "" := by decide
  rw [hfile, GivesFile]
  split
  · next hno => simp [hb, hno, hempty]
  · next hsome => simp [hb, hsome]

end

/-- **The locations of facts**: a fact stands where some location of the tree is, in a physical file
whether or not that location gives one. What it mentions is a location of a declaration as the tree
gives it, so it can be opened just if the tree gives it a physical file. If the tree does so for all
declarations that it locates, and no line is too long, all locations of all facts can be opened. -/
theorem run_locations (root : Node) (names : FileNames) (options : WalkOptions)
    (cancelled : CancelSchedule) (watched : Bool) :
    (∀ f ∈ (run (.ofRoot root names) options cancelled watched).facts,
      (∃ loc ∈ root.places, Stands names loc f.site ∧ (f.site.CanBeOpened ↔ LineFits loc)) ∧
      ∀ l ∈ f.mentions, ∃ loc ∈ root.declPlaces, names.resolve? loc = some l ∧
        (l.CanBeOpened ↔ GivesFile names loc ∧ LineFits loc)) ∧
    ((∀ loc ∈ root.places, (names.resolve? loc).isSome → LineFits loc) →
      (∀ loc ∈ root.declPlaces, (names.resolve? loc).isSome → GivesFile names loc) →
      ∀ f ∈ (run (.ofRoot root names) options cancelled watched).facts,
        ∀ l ∈ f.locations, l.CanBeOpened) := by
  have hlocated := located_run root names options cancelled watched
  refine ⟨fun f hf => ⟨?_, fun l hl => ?_⟩, fun hlines hfiles f hf l hl => ?_⟩
  · obtain ⟨loc, hloc, hstands⟩ := (hlocated f hf).site
    exact ⟨loc, hloc, hstands, hstands.canBeOpened_iff⟩
  · obtain ⟨loc, hloc, hresolve⟩ := (hlocated f hf).mentions l hl
    exact ⟨loc, hloc, hresolve, canBeOpened_iff_of_resolve? hresolve⟩
  -- the place of the fact itself, or one that it mentions
  rcases List.mem_cons.mp hl with rfl | hl
  · obtain ⟨loc, hloc, hstands⟩ := (hlocated f hf).site
    obtain ⟨l, hresolve, -⟩ := id hstands
    exact hstands.canBeOpened_iff.mpr (hlines loc hloc (by rw [hresolve]; rfl))
  · obtain ⟨loc, hloc, hresolve⟩ := (hlocated f hf).mentions l hl
    have hsome : (names.resolve? loc).isSome := by
      rw [hresolve]
      rfl
    exact (canBeOpened_iff_of_resolve? hresolve).mpr
      ⟨hfiles loc hloc hsome, hlines loc (root.declPlaces_subset hloc) hsome⟩

/-- A place in a file. -/
def placeIn (file : String) (line : UInt64) : SourceLocation :=
  ⟨some ⟨0, file, line, 1, 1, none, none, none, false⟩, none⟩

/-- A structure in a file, and a variable of its type in the main file. -/
def structureIn (file : String) : Node :=
  ⟨⟨1⟩, .decl .translationUnit {}, [
    ⟨⟨2⟩, .decl .cxxRecord {
      name := some "S", loc := some (placeIn file 1), tagUsed := some "struct",
      completeDefinition := some true }, []⟩,
    ⟨⟨3⟩, .decl .var {
      name := some "v", loc := some (placeIn "/m.cpp" 2), type := some { qualType := some "S" } },
      []⟩]⟩

/-- The names of files as they are. -/
def literalNames : FileNames := ⟨"/m.cpp", ⟨"/"⟩, fun _ => none⟩

/-- The unit locates two declarations. -/
lemma declPlaces_structureIn (file : String) :
    (structureIn file).declPlaces = [placeIn file 1, placeIn "/m.cpp" 2] := rfl

lemma places_structureIn (file : String) :
    (structureIn file).places = [placeIn file 1, placeIn "/m.cpp" 2] := rfl

/-- In a header the structure is mentioned where it is. -/
lemma locations_structureIn_header :
    (run (.ofRoot (structureIn "/s.h") literalNames) {} .never false).facts.map Fact.locations =
      [[⟨"/s.h", 1, 1, 0⟩], [⟨"/m.cpp", 2, 1, 0⟩, ⟨"/s.h", 1, 1, 0⟩]] := by
  cbv

/-- Without a file it is mentioned without one. -/
lemma locations_structureIn_nowhere :
    (run (.ofRoot (structureIn "") literalNames) {} .never false).facts.map Fact.locations =
      [[⟨"/m.cpp", 1, 1, 0⟩], [⟨"/m.cpp", 2, 1, 0⟩, ⟨"", 1, 1, 0⟩]] := by
  cbv

/-- Where both are in files, so are the symbols, and the type of the variable. -/
theorem run_locations_structureIn :
    (∀ f ∈ (run (.ofRoot (structureIn "/s.h") literalNames) {} .never false).facts,
      ∀ l ∈ f.locations, l.CanBeOpened) ∧
    (run (.ofRoot (structureIn "/s.h") literalNames) {} .never false).facts.map
      Fact.locations = [[⟨"/s.h", 1, 1, 0⟩], [⟨"/m.cpp", 2, 1, 0⟩, ⟨"/s.h", 1, 1, 0⟩]] := by
  refine ⟨(run_locations _ literalNames {} .never false).2 ?_ ?_, locations_structureIn_header⟩
  · rw [places_structureIn]
    simp only [List.forall_mem_cons, List.not_mem_nil, false_implies, implies_true, and_true]
    exact ⟨fun _ => ⟨_, rfl, by decide⟩, fun _ => ⟨_, rfl, by decide⟩⟩
  · rw [declPlaces_structureIn]
    simp only [List.forall_mem_cons, List.not_mem_nil, false_implies, implies_true, and_true]
    have hheader : isPhysicalFile (literalNames.canonical "/s.h") := by cbv
    have hmain : isPhysicalFile (literalNames.canonical "/m.cpp") := by cbv
    exact ⟨fun _ => ⟨_, rfl, by decide, hheader⟩, fun _ => ⟨_, rfl, by decide, hmain⟩⟩

/-- Not every location that is reported can be opened: a location of the tree without a file is
given one where it is the site of a symbol, but not where it is mentioned as that of a type. -/
theorem run_mentions_no_file :
    ¬∀ (root : Node) (names : FileNames) (options : WalkOptions) (cancelled : CancelSchedule)
      (watched : Bool), ∀ f ∈ (run (.ofRoot root names) options cancelled watched).facts,
        ∀ l ∈ f.locations, l.CanBeOpened := by
  intro h
  have hmem : [⟨"/m.cpp", 2, 1, 0⟩, ⟨"", 1, 1, 0⟩] ∈
      (run (.ofRoot (structureIn "") literalNames) {} .never false).facts.map Fact.locations := by
    rw [locations_structureIn_nowhere]
    exact List.mem_cons_of_mem _ List.mem_cons_self
  obtain ⟨f, hf, hlocations⟩ := List.mem_map.mp hmem
  have hopen := h (structureIn "") literalNames {} .never false f hf ⟨"", 1, 1, 0⟩
    (by rw [hlocations]; exact List.mem_cons_of_mem _ List.mem_cons_self)
  have hempty : ¬isPhysicalFile "" := by decide
  exact hempty hopen.1

end Walk

end UnitIndex
