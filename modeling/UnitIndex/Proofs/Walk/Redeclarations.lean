import Mathlib.Tactic
import UnitIndex.Proofs.Decl.Definitions
import UnitIndex.Proofs.Decl.Renaming
import UnitIndex.Proofs.Walk.Simulation
import UnitIndex.Proofs.Walk.Uses

/-!
Which redeclaration an expression names.

A variable may be declared many times, and an expression names one of its declarations. As far as
one declaration may stand for another (`Interchangeable`), a walk does the same at all nodes of two
trees in which now the one and now the other is named (`simulates_renamed`). Redeclarations of one
variable may stand for each other, provided that uses of both are reported or of neither:
`run_renamed`. A declaration inside of a function may not stand for one outside (`run_drops_read`).
-/

namespace UnitIndex.Walk

/-- An expression may name the one declaration or the other: uses of both are reported or of
neither, with the same target, and a call through the one is like a call through the other. -/
structure Interchangeable (decls : DeclTable) (options : WalkOptions) (x y : NodeId) : Prop where
  indexable :
    ((decls.get? x).any fun info => !info.isImplicit && (!info.isLocal || options.indexLocals)) =
      (decls.get? y).any fun info => !info.isImplicit && (!info.isLocal || options.indexLocals)
  target : targetIn decls x = targetIn decls y
  known :
    ((decls.get? x).any fun info => info.cls == .function && !info.isImplicit) =
      (decls.get? y).any fun info => info.cls == .function && !info.isImplicit

/-- The same declaration, or one that may stand for it. -/
def Swapped (x y : NodeId) (id? id'? : Option NodeId) : Prop :=
  id? = id'? ∨ id? = some x ∧ id'? = some y

/-- Callees that are found at the same name. -/
def SameCallee (x y : NodeId) (f g : NodeId × RefKind × RefData) : Prop :=
  f.1 = g.1 ∧ Renames x y (.ref f.2.1 f.2.2) (.ref g.2.1 g.2.2)

section

variable {ctx : WalkContext} {x y : NodeId} {n n' : Node} {ns ns' : List Node}

/-- The targets of two related names are the same or the two declarations. -/
lemma swapped_refTarget? {kind kind' : RefKind} {data data' : RefData}
    (h : Renames x y (.ref kind data) (.ref kind' data')) :
    Swapped x y (refTarget? kind data) (refTarget? kind' data') := by
  cases h with
  | same => exact Or.inl rfl
  | named hreferenced hid =>
      refine Or.inr ⟨?_, rfl⟩
      rw [refTarget?, hreferenced, Option.map_some, hid]

/-- The sites of the two are the same. -/
lemma refSite?_renamed {kind kind' : RefKind} {data data' : RefData}
    (h : Renames x y (.ref kind data) (.ref kind' data')) :
    refSite? kind data = refSite? kind' data' := by
  cases h <;> rfl

/-- A use of either declaration is reported alike. -/
lemma exec_emitUse_renamed (h : Interchangeable ctx.unit.decls ctx.options x y)
    (kind : ReferenceKind) (loc : Option SourceLocation) (s : WalkState) :
    exec (emitUse kind loc x) ctx s = exec (emitUse kind loc y) ctx s := by
  rw [emitUse, emitUse, exec_bind, exec_bind, exec_isIndexable, exec_isIndexable, h.indexable]
  dsimp only
  split
  · rfl
  · rw [exec_bind, exec_bind, exec_target?, exec_target?, h.target]

lemma exec_emitRef_renamed (h : Interchangeable ctx.unit.decls ctx.options x y)
    {kind kind' : RefKind} {data data' : RefData}
    (hnames : Renames x y (.ref kind data) (.ref kind' data')) (s : WalkState) :
    exec (emitRef kind data) ctx s = exec (emitRef kind' data') ctx s := by
  have hsite := refSite?_renamed hnames
  have hkind : kind = kind' := by cases hnames <;> rfl
  rw [emitRef, emitRef, hsite, hkind]
  rcases swapped_refTarget? hnames with heq | ⟨hx, hy⟩
  · rw [← hkind, heq, hkind]
  · rw [hkind] at hx
    rw [hx, hy]
    exact exec_emitUse_renamed h _ _ s

/-! ### Callees -/

/-- Callees that are found in related nodes are related. -/
lemma calleeOf?_renamed (h : Renamed x y n n') (depth : Nat) :
    Option.Rel (SameCallee x y) (calleeOf? depth n) (calleeOf? depth n') := by
  induction n using Node.induction generalizing n' depth with
  | h n ih =>
      cases h with
      | @node id content content' inner inner' hcontent hinner =>
          -- at the name itself the two may differ, and above it nothing does
          cases hcontent with
          | named hreferenced hid =>
              rw [calleeOf?, calleeOf?]
              exact .some ⟨rfl, .named hreferenced hid⟩
          | same =>
              cases content with
              | ref kind data =>
                  rw [calleeOf?, calleeOf?]
                  exact .some ⟨rfl, .same _⟩
              | expr kind data =>
                  rw [calleeOf?, calleeOf?]
                  split
                  · cases hinner with
                    | nil => exact .none
                    | cons hfirst _ =>
                        rw [calleeOfFirst?, calleeOfFirst?]
                        exact ih _ List.mem_cons_self hfirst _
                  · exact .none
              | _ => exact .none

lemma calleeOfFirst?_renamed (h : List.Forall₂ (Renamed x y) ns ns') :
    Option.Rel (SameCallee x y) (calleeOfFirst? 0 ns) (calleeOfFirst? 0 ns') := by
  cases h with
  | nil => exact .none
  | cons hn _ =>
      rw [calleeOfFirst?, calleeOfFirst?]
      exact calleeOf?_renamed hn 0

/-- So what is called is the same, or one of the two declarations. -/
lemma swapped_calleeDecl? (h : List.Forall₂ (Renamed x y) ns ns') :
    Swapped x y (calleeDecl? ns) (calleeDecl? ns') := by
  have hcallee := calleeOfFirst?_renamed h
  rw [calleeDecl?, calleeDecl?]
  generalize calleeOfFirst? 0 ns = f, calleeOfFirst? 0 ns' = g at hcallee
  cases hcallee with
  | none => exact Or.inl rfl
  | some hfg => exact swapped_refTarget? hfg.2

/-- The site of a call does not depend on what is named. -/
lemma callSite?_renamed (data : ExprData) (h : List.Forall₂ (Renamed x y) ns ns') :
    callSite? data ns = callSite? data ns' := by
  have hcallee := calleeOfFirst?_renamed h
  rw [callSite?, callSite?]
  generalize calleeOfFirst? 0 ns = f, calleeOfFirst? 0 ns' = g at hcallee
  cases hcallee with
  | none => rfl
  | some hfg =>
      rw [Option.bind_some, Option.bind_some]
      dsimp only
      rw [refSite?_renamed hfg.2]

lemma calleeRole_renamed (isFunction : Bool) (h : List.Forall₂ (Renamed x y) ns ns') :
    calleeRole ns isFunction = calleeRole ns' isFunction := by
  have hcallee := calleeOfFirst?_renamed h
  rw [calleeRole, calleeRole]
  generalize calleeOfFirst? 0 ns = f, calleeOfFirst? 0 ns' = g at hcallee
  cases hcallee with
  | none => rfl
  | some hfg =>
      dsimp only
      rw [hfg.1]

lemma callsKnown_renamed (h : Interchangeable ctx.unit.decls ctx.options x y)
    (hns : List.Forall₂ (Renamed x y) ns ns') :
    callsKnown ctx.unit.decls ns = callsKnown ctx.unit.decls ns' := by
  rw [callsKnown, callsKnown]
  rcases swapped_calleeDecl? hns with heq | ⟨hx, hy⟩
  · rw [heq]
  · rw [hx, hy, Option.any_some, Option.any_some, h.known]

/-- The target of a call is the same. -/
lemma exec_callTarget?_renamed (h : Interchangeable ctx.unit.decls ctx.options x y)
    (hns : List.Forall₂ (Renamed x y) ns ns') (s : WalkState) :
    exec (callTarget? ns) ctx s = exec (callTarget? ns') ctx s := by
  rw [callTarget?, callTarget?]
  rcases swapped_calleeDecl? hns with heq | ⟨hx, hy⟩
  · rw [heq]
  · have hfunction (id : NodeId) : exec (isFunction id) ctx s =
        ((ctx.unit.decls.get? id).any fun info => info.cls == .function && !info.isImplicit, s) :=
      rfl
    rw [hx, hy]
    dsimp only
    rw [exec_bind, exec_bind, hfunction, hfunction, h.known]
    dsimp only
    split
    · rw [exec_target?, exec_target?, h.target]
    · rfl

lemma exec_emitCall_renamed (h : Interchangeable ctx.unit.decls ctx.options x y) (data : ExprData)
    (hns : List.Forall₂ (Renamed x y) ns ns') (s : WalkState) :
    exec (emitCall data ns) ctx s = exec (emitCall data ns') ctx s := by
  rw [emitCall, emitCall, callSite?_renamed data hns, exec_bind, exec_bind]
  cases (exec (site? (callSite? data ns')) ctx s).1 with
  | none => rfl
  | some site =>
      dsimp only
      rw [exec_bind, exec_bind, exec_callTarget?_renamed h hns]

/-! ### Nodes -/

section

variable {content content' : Content}

/-- Related nodes have the same roles on every course. -/
lemma isCalleeWrapper_renamed (h : Renames x y content content') :
    isCalleeWrapper content = isCalleeWrapper content' := by
  cases h <;> rfl

lemma role?_renamed (h : Renames x y content content') (course : Course) :
    course.role? content = course.role? content' := by
  cases h <;> rfl

lemma next_renamed (h : Renames x y content content') (course : Course) :
    course.next content = course.next content' := by
  cases h <;> rfl

/-- **At a declaration** a walk does the same. -/
lemma exec_arriveDecl_renamed (h : Renames x y content content') (id : NodeId) (s : WalkState) :
    exec (arriveDecl id content) ctx s = exec (arriveDecl id content') ctx s := by
  cases h <;> rfl

end

/-- Statements are reported alike. -/
lemma exec_reportStmt_renamed (h : Interchangeable ctx.unit.decls ctx.options x y)
    (hn : Renamed x y n n') (s : WalkState) :
    exec (reportStmt n.content n.inner) ctx s = exec (reportStmt n'.content n'.inner) ctx s := by
  cases hn with
  | @node id content content' inner inner' hcontent hinner =>
      cases hcontent with
      | named hreferenced hid => exact exec_emitRef_renamed h (.named hreferenced hid) s
      | same =>
          cases content with
          | expr kind data =>
              dsimp only
              rw [reportStmt, reportStmt]
              split
              · exact exec_emitCall_renamed h data hinner s
              · rfl
          | _ => rfl

/-- A walk goes on alike below them. -/
lemma courseIn_renamed (h : Interchangeable ctx.unit.decls ctx.options x y)
    (hn : Renamed x y n n') :
    courseIn ctx.unit.decls n.content n.inner = courseIn ctx.unit.decls n'.content n'.inner := by
  cases hn with
  | @node id content content' inner inner' hcontent hinner =>
      cases hcontent with
      | named => rfl
      | same =>
          cases content with
          | expr kind data =>
              dsimp only
              rw [courseIn, courseIn, callsKnown_renamed h hinner, calleeRole_renamed _ hinner]
          | _ => rfl

/-- **At a statement** it does the same. -/
lemma exec_arriveStmt_renamed (h : Interchangeable ctx.unit.decls ctx.options x y)
    (hn : Renamed x y n n') (s : WalkState) :
    exec (arriveStmt n.id n.content n.inner) ctx s =
      exec (arriveStmt n'.id n'.content n'.inner) ctx s := by
  rw [arriveStmt, arriveStmt, exec_bind, exec_bind, hn.id_eq, hn.content.isDecl_eq]
  split
  · rfl
  split
  · exact exec_arriveDecl_renamed hn.content _ _
  · rw [exec_bind, exec_bind, exec_reportStmt_renamed h hn, exec_bind, exec_bind, exec_stmtCourse,
      exec_stmtCourse, courseIn_renamed h hn]

/-- The first parts begin at the same place. -/
lemma head?_range_renamed (h : List.Forall₂ (Renamed x y) ns ns') :
    (ns.head?.bind fun n => n.content.range?.map (·.start)) =
      ns'.head?.bind fun n => n.content.range?.map (·.start) := by
  cases h with
  | nil => rfl
  | cons hn _ =>
      rw [List.head?_cons, List.head?_cons, Option.bind_some, Option.bind_some,
        hn.content.range?_eq]

/-- **At every node a walk does the same**, whatever the role. -/
lemma exec_arrive_renamed (h : Interchangeable ctx.unit.decls ctx.options x y)
    (hn : Renamed x y n n') (role : Role) (s : WalkState) :
    exec (arrive role n.id n.content n.inner) ctx s =
      exec (arrive role n'.id n'.content n'.inner) ctx s := by
  cases role with
  | decl =>
      rw [arrive, arrive, hn.id_eq]
      exact exec_arriveDecl_renamed hn.content _ s
  | stmt => exact exec_arriveStmt_renamed h hn s
  | callee name depth =>
      rw [arrive, arrive, hn.id_eq, isCalleeWrapper_renamed hn.content]
      -- inside of a callee a node is known by its id, which is the same
      have hstmt := exec_arriveStmt_renamed h hn s
      rw [hn.id_eq] at hstmt
      split
      · rfl
      split
      · rfl
      · exact hstmt
  | initializer ctor =>
      cases hn with
      | @node id content content' inner inner' hcontent hinner =>
          cases hcontent with
          | named => rfl
          | same =>
              cases content with
              | ctorInit init =>
                  dsimp only [arrive]
                  rw [arriveInitializer, arriveInitializer, head?_range_renamed hinner]
              | _ => rfl

/-- A walk does the same at renamed nodes. -/
lemma simulates_renamed (h : Interchangeable ctx.unit.decls ctx.options x y) :
    Simulates ctx ctx (Renamed x y) Eq where
  inner := fun hn => hn.inner
  role? := fun hn course => role?_renamed hn.content course
  next := fun hn course => next_renamed hn.content course
  arrive := by
    rintro n n' s _ hn rfl role
    rw [exec_arrive_renamed h hn role s]
    exact ⟨rfl, rfl⟩
  turnsBack := by
    rintro s _ rfl course
    exact ⟨rfl, rfl⟩

end

/-- A walk does not look at the tree it goes over but from node to node. -/
lemma Action.exec_root {α : Type} {entering : Bool} {x : WalkM α} (h : Action entering x)
    (unit : ParsedUnit) (tree : Node) (options : WalkOptions) (c : CancelSchedule)
    (s : WalkState) :
    exec x ⟨{ unit with root := tree }, options, c⟩ s = exec x ⟨unit, options, c⟩ s := by
  induction h generalizing s with
  | bind _ _ ihx ihf =>
      rw [exec_bind, exec_bind, ihx]
      exact ihf _ _
  | @read _ f _ hindep ih =>
      have heq : f ⟨{ unit with root := tree }, options, c⟩ = f ⟨unit, options, c⟩ :=
        hindep ⟨unit, options, c⟩ c tree
      rw [exec_bind, exec_bind, exec_read, exec_read, heq]
      exact ih _ s
  | get _ _ ih => exact ih s s
  | emit fact => rw [exec_emit, exec_emit]
  | _ => rfl

/-- So it ends in the same state. -/
lemma finalState_renamed {decls : DeclTable} {options : WalkOptions} {x y : NodeId}
    {tree tree' : Node} (h : Interchangeable decls options x y) (hrenamed : Renamed x y tree tree')
    (names : FileNames) (c : CancelSchedule) (watched : Bool) :
    finalState ⟨tree', decls, names⟩ options c watched =
      finalState ⟨tree, decls, names⟩ options c watched := by
  have hsimulates : Simulates ⟨⟨tree, decls, names⟩, options, c⟩ ⟨⟨tree, decls, names⟩, options, c⟩
      (Renamed x y) Eq := simulates_renamed h
  have hroot := (Action.visit .decl tree').exec_root ⟨tree, decls, names⟩ tree' options c
    (start ⟨tree, decls, names⟩ watched)
  rw [finalState_eq_exec, finalState_eq_exec]
  exact (congrArg Prod.snd hroot).trans (hsimulates.visit hrenamed .decl rfl).symm

/-- Two variables that share their definition may stand for each other, if uses of both are
reported or of neither. -/
lemma interchangeable_of_definitionOf {decls : DeclTable} {options : WalkOptions} {x y : NodeId}
    {dx dy : DeclInfo} (hdx : decls.get? x = some dx) (hdy : decls.get? y = some dy)
    (hclsx : dx.cls = .var) (hclsy : dy.cls = .var)
    (hdefinition : decls.definitionOf x = decls.definitionOf y)
    (hreported : (dx.isImplicit || dx.isLocal && !options.indexLocals) =
      (dy.isImplicit || dy.isLocal && !options.indexLocals)) :
    Interchangeable decls options x y where
  indexable := by
    have hflip (d : DeclInfo) : (!d.isImplicit && (!d.isLocal || options.indexLocals)) =
        !(d.isImplicit || d.isLocal && !options.indexLocals) := by
      cases d.isImplicit <;> cases d.isLocal <;> cases options.indexLocals <;> rfl
    rw [hdx, hdy, Option.any_some, Option.any_some, hflip, hflip, hreported]
  target := by
    rw [targetIn, targetIn, hdefinition]
  known := by
    rw [hdx, hdy, Option.any_some, Option.any_some, hclsx, hclsy]
    rfl

/-- **References do not depend on the redeclaration that is named.** Let `x` and `y` be variables of
one chain, some variable of which counts as a definition, and let any expressions of a tree name
`y` instead of `x`. The two have the same definition; and if uses of both are reported under the
options or of neither, since both are made up or local to a function or neither is, then a walk over
the one tree does what it does over the other. -/
theorem run_renamed (names : FileNames) {tree tree' : Node} {root x y z : NodeId}
    {dx dy dz : DeclInfo} (hx : (DeclTable.build names tree).VariableIn root x dx)
    (hy : (DeclTable.build names tree).VariableIn root y dy)
    (hz : (DeclTable.build names tree).VariableIn root z dz) (hdefines : dz.isDefinition)
    (hrenamed : Renamed x y tree tree') (options : WalkOptions)
    (hreported : (dx.isImplicit || dx.isLocal && !options.indexLocals) =
      (dy.isImplicit || dy.isLocal && !options.indexLocals))
    (c : CancelSchedule) (watched : Bool) :
    (DeclTable.build names tree).definitionOf x = (DeclTable.build names tree).definitionOf y ∧
      run (.ofRoot tree' names) options c watched = run (.ofRoot tree names) options c watched := by
  have hdefinition := DeclTable.definitionOf_eq hx hy hz hdefines
  refine ⟨hdefinition, ?_⟩
  have hinterchangeable : Interchangeable (DeclTable.build names tree) options x y :=
    interchangeable_of_definitionOf hx.known hy.known hx.cls hy.cls hdefinition hreported
  rw [ParsedUnit.ofRoot, ParsedUnit.ofRoot, ← DeclTable.build_renamed names hrenamed, run, run,
    finalState_renamed hinterchangeable hrenamed]

/-- A location in a line of the main file. -/
def inLine (line : UInt64) : SourceLocation :=
  ⟨some ⟨0, "<stdin>", line, 1, 1, none, none, none, false⟩, none⟩

/-- What the dump says about an expression that names that declaration. -/
def naming (id : UInt64) : RefData :=
  { loc := some (inLine 3), referenced := some { id := ⟨id⟩ } }

/-- A variable that is declared a second time, inside of a function or in front of it, and that the
function reads under one of its declarations. -/
def declaredTwice (inside : Bool) (named : UInt64) : Node :=
  let first : Node :=
    ⟨⟨2⟩, .decl .var { name := some "v", loc := some (inLine 1), init := some "c" }, []⟩
  let second : Node :=
    ⟨⟨3⟩, .decl .var {
      name := some "v", loc := some (inLine 2), previous := some ⟨2⟩,
      storageClass := some "extern" }, []⟩
  let function (body : List Node) : Node :=
    ⟨⟨5⟩, .decl .function { name := some "f", loc := some (inLine 4) },
      [⟨⟨6⟩, .other (some "CompoundStmt") none none, body⟩]⟩
  let read : Node := ⟨⟨4⟩, .ref .declRef (naming named), []⟩
  ⟨⟨1⟩, .decl .translationUnit {},
    if inside then [first, function [⟨⟨7⟩, .expr .declStmt {}, [second]⟩, read]]
    else [first, second, function [read]]⟩

/-- The names of files as they are. -/
def plainNames : FileNames := ⟨"/m.cpp", ⟨"/"⟩, fun _ => none⟩

/-- Two units that differ in the declaration that is named. -/
lemma renamed_declaredTwice (inside : Bool) (x y : UInt64) :
    Renamed ⟨x⟩ ⟨y⟩ (declaredTwice inside x) (declaredTwice inside y) := by
  have hnames : Renames ⟨x⟩ ⟨y⟩ (.ref .declRef (naming x)) (.ref .declRef (naming y)) :=
    @Renames.named ⟨x⟩ ⟨y⟩ (naming x) { id := ⟨x⟩ } rfl rfl
  have hread (id : NodeId) : List.Forall₂ (Renamed ⟨x⟩ ⟨y⟩)
      [⟨id, .ref .declRef (naming x), []⟩] [⟨id, .ref .declRef (naming y), []⟩] :=
    .cons (.node hnames .nil) .nil
  cases inside with
  | false =>
      refine .node (.same _) (.cons (.refl _ _ _) (.cons (.refl _ _ _) (.cons ?_ .nil)))
      exact .node (.same _) (.cons (.node (.same _) (hread _)) .nil)
  | true =>
      refine .node (.same _) (.cons (.refl _ _ _) (.cons ?_ .nil))
      exact .node (.same _) (.cons (.node (.same _) (.cons (.refl _ _ _) (hread _))) .nil)

/-- The second declaration redeclares the first one. -/
lemma previous?_declaredTwice (inside : Bool) :
    (DeclTable.build plainNames (declaredTwice inside 3)).previous? ⟨2⟩ = none ∧
      (DeclTable.build plainNames (declaredTwice inside 3)).previous? ⟨3⟩ = some ⟨2⟩ := by
  cases inside with
  | false => exact ⟨by cbv, by cbv⟩
  | true => exact ⟨by cbv, by cbv⟩

/-- The first declaration is the definition. -/
lemma variableIn_first (inside : Bool) :
    ∃ d, (DeclTable.build plainNames (declaredTwice inside 3)).VariableIn ⟨2⟩ ⟨2⟩ d ∧
      d.isDefinition ∧ d.isImplicit = false ∧ d.isLocal = false := by
  have hmarks : ((DeclTable.build plainNames (declaredTwice inside 3)).get? ⟨2⟩).map
      (fun d => (d.cls, d.isDefinition, d.isImplicit, d.isLocal)) =
      some (.var, true, false, false) := by
    cases inside with
    | false => cbv
    | true => cbv
  obtain ⟨d, hd, heq⟩ := Option.map_eq_some_iff.mp hmarks
  simp only [Prod.mk.injEq] at heq
  obtain ⟨hcls, hdefines, himplicit, hlocal⟩ := heq
  have hchain := DeclTable.Redeclares.first (previous?_declaredTwice inside).1
  exact ⟨d, ⟨⟨0, by decide, hchain⟩, hd, hcls⟩, hdefines, himplicit, hlocal⟩

/-- The second declaration is local if it stands inside of the function. -/
lemma variableIn_second (inside : Bool) :
    ∃ d, (DeclTable.build plainNames (declaredTwice inside 3)).VariableIn ⟨2⟩ ⟨3⟩ d ∧
      d.isImplicit = false ∧ d.isLocal = inside := by
  have hmarks : ((DeclTable.build plainNames (declaredTwice inside 3)).get? ⟨3⟩).map
      (fun d => (d.cls, d.isImplicit, d.isLocal)) = some (.var, false, inside) := by
    cases inside with
    | false => cbv
    | true => cbv
  obtain ⟨d, hd, heq⟩ := Option.map_eq_some_iff.mp hmarks
  simp only [Prod.mk.injEq] at heq
  obtain ⟨hcls, himplicit, hlocal⟩ := heq
  obtain ⟨hfirst, hsecond⟩ := previous?_declaredTwice inside
  have hchain := DeclTable.Redeclares.link hsecond (.first hfirst)
  exact ⟨d, ⟨⟨1, by decide, hchain⟩, hd, hcls⟩, himplicit, hlocal⟩

/-- Where both declarations stand in front of the function, the read is reported under either. -/
theorem run_renamed_declaredTwice :
    run (.ofRoot (declaredTwice false 2) plainNames) {} .never false =
        run (.ofRoot (declaredTwice false 3) plainNames) {} .never false ∧
      (run (.ofRoot (declaredTwice false 3) plainNames) {} .never false).stats.references = 1 := by
  obtain ⟨dx, hx, himplicitx, hlocalx⟩ := variableIn_second false
  obtain ⟨dy, hy, hdefines, himplicity, hlocaly⟩ := variableIn_first false
  have hreported : (dx.isImplicit || dx.isLocal && !({} : WalkOptions).indexLocals) =
      (dy.isImplicit || dy.isLocal && !({} : WalkOptions).indexLocals) := by
    rw [himplicitx, himplicity, hlocalx, hlocaly]
  have hrenamed := renamed_declaredTwice false 3 2
  exact ⟨(run_renamed plainNames hx hy hy hdefines hrenamed {} hreported .never false).2, by cbv⟩

/-- A read under a declaration inside of a function is not reported, although the variable and its
definition are those that the read has under the other declaration. -/
theorem run_drops_read :
    ∃ dx dy, (DeclTable.build plainNames (declaredTwice true 3)).VariableIn ⟨2⟩ ⟨3⟩ dx ∧
      (DeclTable.build plainNames (declaredTwice true 3)).VariableIn ⟨2⟩ ⟨2⟩ dy ∧
      dy.isDefinition ∧ Renamed ⟨3⟩ ⟨2⟩ (declaredTwice true 3) (declaredTwice true 2) ∧
      (run (.ofRoot (declaredTwice true 3) plainNames) {} .never false).stats.references = 0 ∧
      (run (.ofRoot (declaredTwice true 2) plainNames) {} .never false).stats.references = 1 ∧
      (run (.ofRoot (declaredTwice true 3) plainNames) {} .never false).facts ≠
        (run (.ofRoot (declaredTwice true 2) plainNames) {} .never false).facts := by
  obtain ⟨dx, hx, -, -⟩ := variableIn_second true
  obtain ⟨dy, hy, hdefines, -, -⟩ := variableIn_first true
  refine ⟨dx, dy, hx, hy, hdefines, renamed_declaredTwice true 3 2, by cbv, by cbv, fun heq => ?_⟩
  have hlength := congrArg List.length heq
  have hfew : (run (.ofRoot (declaredTwice true 3) plainNames) {} .never false).facts.length = 2 :=
    by cbv
  have hall : (run (.ofRoot (declaredTwice true 2) plainNames) {} .never false).facts.length = 3 :=
    by cbv
  omega

end UnitIndex.Walk
