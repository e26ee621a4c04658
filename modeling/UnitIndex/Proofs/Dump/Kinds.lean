import UnitIndex.Proofs.Dump.Reading

/-!
What the kinds of nodes have to do with their positions.

The file and line of a location may be those of the location before it in the text, so what is read
of one node depends on which locations of the nodes before it take part. Which fields of a node are
read is up to its kind, but all kinds but one read its location and its range. The exception are
constructor initializers, which pass over both.

`Scanned.kindless` is a dump apart from the kinds of its nodes. When two dumps that can be read
differ in kinds only, and none of these tells an initializer with a position of its own from a node
of another kind, then their trees have the same shape and the same positions (`read_kindless`).
Where an initializer does have a position, its kind moves the nodes behind it to other files
(`kind_moves_next_node`).
-/

namespace UnitIndex

/-! ### Dumps apart from kinds -/

/-- A name that is not empty is a plain one. -/
lemma FieldName.eq_plain {key : FieldName} {name : String} (h : key.said = name)
    (hname : name ≠ "") : ∃ place, key = .plain name place := by
  cases key with
  | plain name' place => exact ⟨place, h ▸ rfl⟩
  | _ => exact absurd h.symm hname

namespace Scanned

section Kindless

variable (mark : Json → List (FieldName × Scanned) → Json)

mutual

/-- What a node says, its kind and the kinds of the nodes inside apart. In place of a kind stands
what `mark` makes of it and of the fields behind it. -/
def kindless : Scanned → Json
  | .object fields _ _ => .object (kindlessHead fields)
  | v => v.said

/-- The fields of a node up to its kind. -/
def kindlessHead : List (FieldName × Scanned) → List (String × Json)
  | [] => []
  | (key, v) :: rest =>
    if key.said = "kind" then ("kind", mark v.said rest) :: kindlessBody rest
    else (key.said, v.said) :: kindlessHead rest

/-- The fields of a node behind its kind. -/
def kindlessBody : List (FieldName × Scanned) → List (String × Json)
  | [] => []
  | (key, v) :: rest =>
    (key.said, if key.said = "inner" then kindlessChildren v else v.said) :: kindlessBody rest

/-- The children of a node. -/
def kindlessChildren : Scanned → Json
  | .array items _ _ => .array (kindlessNodes items)
  | v => v.said

/-- The nodes of an array. -/
def kindlessNodes : List Scanned → List Json
  | [] => []
  | v :: vs => kindless v :: kindlessNodes vs

end

end Kindless

end Scanned

namespace Content

/-- Whether the node is a constructor initializer. -/
def isInitializer : Content → Bool
  | ctorInit _ => true
  | _ => false

/-- Two nodes that are both initializers or both not have the same location and range. -/
def SameSpot (c c' : Content) : Prop :=
  c.isInitializer = c'.isInitializer → c.loc? = c'.loc? ∧ c.range? = c'.range?

/-- No initializer has a position. -/
lemma spot_eq_of_isInitializer {c c' : Content} (hc : c.isInitializer = true)
    (hc' : c'.isInitializer = true) : c.loc? = c'.loc? ∧ c.range? = c'.range? := by
  cases c with
  | ctorInit d =>
      cases c' with
      | ctorInit d' => exact ⟨rfl, rfl⟩
      | _ => exact nomatch hc'
  | _ => exact nomatch hc

end Content

/-- Two trees of the same shape, with the same ids and positions. -/
inductive Node.Alongside : Node → Node → Prop
  | node {id : NodeId} {content content' : Content} {inner inner' : List Node}
    (spot : content.SameSpot content') (children : List.Forall₂ Alongside inner inner') :
    Alongside ⟨id, content, inner⟩ ⟨id, content', inner'⟩

namespace Dump

/-- Whether the location or the range among the fields of a node gives a file or a line. -/
def tellsPosition (fields : List Field) : Bool :=
  fields.any fun (key, v) => (key.said == "loc" || key.said == "range") && v.said.tells

/-- Whether a node of that kind, with those fields behind it, is an initializer with a position that
it passes over. -/
def overlooks (kind : Json) (fields : List Field) : Json :=
  match kind with
  | .string kind => .bool (kind == "CXXCtorInitializer" && tellsPosition fields)
  | _ => .bool false

/-- Where a position is told, the mark says whether the node is an initializer. -/
lemma overlooks_eq {kind kind' : String} {fields fields' : List Field}
    (h : overlooks (.string kind) fields = overlooks (.string kind') fields')
    (htells : tellsPosition fields = true) (htells' : tellsPosition fields' = true) :
    kind = "CXXCtorInitializer" ↔ kind' = "CXXCtorInitializer" := by
  simpa [overlooks, htells, htells'] using h

/-- What is an object apart from the kinds is an object. -/
lemma kindless_eq_object {mark : Json → List Field → Json} {v : Scanned}
    {said : List (String × Json)} (h : v.kindless mark = .object said) :
    ∃ fields ending start, v = .object fields ending start ∧
      Scanned.kindlessHead mark fields = said := by
  cases v with
  | object fields ending start => exact ⟨fields, ending, start, rfl, Json.object.inj h⟩
  | _ => exact nomatch h

lemma kindlessChildren_eq_array {mark : Json → List Field → Json} {v : Scanned}
    {said : List Json} (h : v.kindlessChildren mark = .array said) :
    ∃ items ending start, v = .array items ending start ∧
      Scanned.kindlessNodes mark items = said := by
  cases v with
  | array items ending start => exact ⟨items, ending, start, rfl, Json.array.inj h⟩
  | _ => exact nomatch h

/-- Of dumps that agree, the values before the kinds say the same. -/
lemma kindlessHead_cons_eq {mark : Json → List Field → Json} {key : FieldName} {v : Scanned}
    {rest fields : List Field}
    (h : Scanned.kindlessHead mark ((key, v) :: rest) = Scanned.kindlessHead mark fields) :
    ∃ key' v' rest', fields = (key', v') :: rest' ∧ key.said = key'.said ∧
      (key.said = "kind" → mark v.said rest = mark v'.said rest' ∧
        Scanned.kindlessBody mark rest = Scanned.kindlessBody mark rest') ∧
      (key.said ≠ "kind" → v.said = v'.said ∧
        Scanned.kindlessHead mark rest = Scanned.kindlessHead mark rest') := by
  match fields with
  | [] =>
    simp only [Scanned.kindlessHead] at h
    split at h <;> exact nomatch h
  | (key', v') :: rest' =>
    refine ⟨key', v', rest', rfl, ?_⟩
    simp only [Scanned.kindlessHead] at h
    split_ifs at h with hkey hkey' hkey' <;> simp only [List.cons.injEq, Prod.mk.injEq] at h
    · obtain ⟨⟨-, hmark⟩, hrest⟩ := h
      exact ⟨hkey.trans hkey'.symm, fun _ => ⟨hmark, hrest⟩, fun hother => absurd hkey hother⟩
    · exact absurd h.1.1.symm hkey'
    · exact absurd h.1.1 hkey
    · obtain ⟨⟨hname, hv⟩, hrest⟩ := h
      exact ⟨hname, fun hkind => absurd hkind hkey, fun _ => ⟨hv, hrest⟩⟩

/-- Of dumps that agree, the values behind names other than `inner` say the same. -/
lemma kindlessBody_cons_eq {mark : Json → List Field → Json} {key : FieldName} {v : Scanned}
    {rest fields : List Field}
    (h : Scanned.kindlessBody mark ((key, v) :: rest) = Scanned.kindlessBody mark fields) :
    ∃ key' v' rest', fields = (key', v') :: rest' ∧ key.said = key'.said ∧
      (key.said = "inner" → v.kindlessChildren mark = v'.kindlessChildren mark) ∧
      (key.said ≠ "inner" → v.said = v'.said) ∧
      Scanned.kindlessBody mark rest = Scanned.kindlessBody mark rest' := by
  match fields with
  | [] => exact nomatch h
  | (key', v') :: rest' =>
    simp only [Scanned.kindlessBody, List.cons.injEq, Prod.mk.injEq] at h
    obtain ⟨⟨hkey, hv⟩, hrest⟩ := h
    refine ⟨key', v', rest', rfl, hkey, fun hinner => ?_, fun hinner => ?_, hrest⟩
    · simpa [← hkey, hinner] using hv
    · simpa [← hkey, hinner] using hv

/-- Where no position is told, neither the first field nor the others tell one. -/
lemma tellsPosition_cons {key : FieldName} {v : Scanned} {rest : List Field}
    (h : tellsPosition ((key, v) :: rest) = false) :
    (key.said = "loc" ∨ key.said = "range" → v.said.tells = false) ∧
      tellsPosition rest = false := by
  simp only [tellsPosition, List.any_cons, Bool.or_eq_false_iff] at h
  refine ⟨fun hkey => ?_, h.2⟩
  obtain hkey | hkey := hkey <;> simpa [hkey] using h.1

/-- Whether a position is told does not depend on the kinds. -/
lemma tellsPosition_eq {mark : Json → List Field → Json} {fields fields' : List Field}
    (h : Scanned.kindlessBody mark fields = Scanned.kindlessBody mark fields') :
    tellsPosition fields = tellsPosition fields' := by
  induction fields generalizing fields' with
  | nil =>
      match fields' with
      | [] => rfl
      | (key, v) :: rest => exact nomatch h
  | cons field rest ih =>
      obtain ⟨key, v⟩ := field
      obtain ⟨key', v', rest', rfl, hkey, -, hv, hrest⟩ := kindlessBody_cons_eq h
      have hrest := ih hrest
      simp only [tellsPosition, List.any_cons] at hrest ⊢
      rw [← hkey, hrest]
      by_cases hinner : key.said = "inner"
      · simp [hinner]
      · rw [hv hinner]

/-! ### Fields behind the kind -/

/-- What a field makes of what is known about a node; unknown fields are passed over. -/
def readField (c : Content) (name : String) (v : Scanned) : Read Content :=
  match setContent? c name with
  | none => do
    skip v
    return c
  | some read => read v

/-- A node that is no initializer reads its location. -/
lemma exists_readField_loc {c : Content} (hc : c.isInitializer = false) :
    ∃ at? : Option SourceLocation → Content,
      (∀ l, (at? l).isInitializer = false ∧ (at? l).loc? = l ∧ (at? l).range? = c.range?) ∧
        ∀ v, readField c "loc" v = at? <$> optional location v := by
  cases c with
  | decl k d => exact ⟨fun l => .decl k { d with loc := l }, fun l => ⟨rfl, rfl, rfl⟩, fun v => by
      simp [readField, setContent?, setDecl?]⟩
  | expr k d => exact ⟨fun l => .expr k { d with loc := l }, fun l => ⟨rfl, rfl, rfl⟩, fun v => by
      simp [readField, setContent?, setExpr?]⟩
  | ref k d => exact ⟨fun l => .ref k { d with loc := l }, fun l => ⟨rfl, rfl, rfl⟩, fun v => by
      simp [readField, setContent?, setRef?]⟩
  | ctorInit d => exact nomatch hc
  | other k loc range => exact ⟨fun l => .other k l range, fun l => ⟨rfl, rfl, rfl⟩, fun v => by
      simp [readField, setContent?]⟩

/-- A node that is no initializer reads its range. -/
lemma exists_readField_range {c : Content} (hc : c.isInitializer = false) :
    ∃ at? : Option SourceRange → Content,
      (∀ r, (at? r).isInitializer = false ∧ (at? r).loc? = c.loc? ∧ (at? r).range? = r) ∧
        ∀ v, readField c "range" v = at? <$> optional range v := by
  cases c with
  | decl k d => exact ⟨fun r => .decl k { d with range := r }, fun r => ⟨rfl, rfl, rfl⟩, fun v => by
      simp [readField, setContent?, setDecl?]⟩
  | expr k d => exact ⟨fun r => .expr k { d with range := r }, fun r => ⟨rfl, rfl, rfl⟩, fun v => by
      simp [readField, setContent?, setExpr?]⟩
  | ref k d => exact ⟨fun r => .ref k { d with range := r }, fun r => ⟨rfl, rfl, rfl⟩, fun v => by
      simp [readField, setContent?, setRef?]⟩
  | ctorInit d => exact nomatch hc
  | other k loc range => exact ⟨fun r => .other k loc r, fun r => ⟨rfl, rfl, rfl⟩, fun v => by
      simp [readField, setContent?]⟩

section Keeps

variable {v : Scanned} {name : String}

/-- The other fields of a declaration keep its location and range, and the carried position. -/
lemma keeps_setDecl {d : DeclData} {read : Scanned → Read DeclData} (hloc : name ≠ "loc")
    (hrange : name ≠ "range") (hread : setDecl? d name = some read) :
    Keeps (fun d' => d'.loc = d.loc ∧ d'.range = d.range) (read v) := by
  unfold setDecl? at hread
  split at hread
  case h_2 => exact absurd rfl hloc
  case h_3 => exact absurd rfl hrange
  case h_15 => exact nomatch hread
  all_goals
    obtain rfl := Option.some.inj hread
    refine Keeps.bind_any ?_ fun _ => .pure ⟨rfl, rfl⟩
  case h_4 | h_10 | h_14 => exact keeps_optional_bool _
  case h_5 => exact keeps_optional_type _
  case h_6 | h_7 => exact keeps_optional_id _
  all_goals exact keeps_optional_string _

lemma keeps_setExpr {d : ExprData} {read : Scanned → Read ExprData} (hloc : name ≠ "loc")
    (hrange : name ≠ "range") (hread : setExpr? d name = some read) :
    Keeps (fun d' => d'.loc = d.loc ∧ d'.range = d.range) (read v) := by
  unfold setExpr? at hread
  split at hread
  case h_1 => exact absurd rfl hloc
  case h_2 => exact absurd rfl hrange
  case h_6 => exact nomatch hread
  all_goals
    obtain rfl := Option.some.inj hread
    exact (keeps_optional_type _).bind fun _ _ => .pure ⟨rfl, rfl⟩

/-- The other fields of a reference keep its location and range, and the carried position. -/
lemma keeps_setRef {d : RefData} {read : Scanned → Read RefData} (hloc : name ≠ "loc")
    (hrange : name ≠ "range") (hread : setRef? d name = some read) :
    Keeps (fun d' => d'.loc = d.loc ∧ d'.range = d.range) (read v) := by
  unfold setRef? at hread
  split at hread
  case h_1 => exact absurd rfl hloc
  case h_2 => exact absurd rfl hrange
  case h_7 => exact nomatch hread
  all_goals
    obtain rfl := Option.some.inj hread
    refine Keeps.bind_any ?_ fun _ => .pure ⟨rfl, rfl⟩
  case h_3 => exact keeps_optional (keeps_mention _)
  case h_4 => exact keeps_optional_id _
  case h_5 => exact keeps_optional_string _
  case h_6 => exact keeps_optional_bool _

/-- No field of an initializer changes the carried position. -/
lemma keeps_setInit {d : CtorInit} {read : Scanned → Read CtorInit}
    (hread : setInit? d name = some read) : Keeps (fun _ => True) (read v) := by
  unfold setInit? at hread
  split at hread
  case h_4 => exact nomatch hread
  all_goals
    obtain rfl := Option.some.inj hread
    refine Keeps.bind_any ?_ fun _ => .pure True.intro
  case h_1 => exact keeps_optional (keeps_mention _)
  all_goals exact keeps_optional_type _

/-- Fields other than the location and the range leave these alone, and the carried position. -/
lemma keeps_readField {c : Content} (hloc : name ≠ "loc") (hrange : name ≠ "range") :
    Keeps (fun d => d.isInitializer = c.isInitializer ∧ d.loc? = c.loc? ∧ d.range? = c.range?)
      (readField c name v) := by
  rw [readField]
  split
  -- a field that the kind does not read is skipped
  case h_1 => exact (keeps_skip v).bind fun _ _ => .pure ⟨rfl, rfl, rfl⟩
  case h_2 read hread =>
    cases c with
    | decl k d =>
        obtain ⟨read, hset, rfl⟩ := Option.map_eq_some_iff.mp hread
        exact (keeps_setDecl hloc hrange hset).map _ fun _ h => ⟨rfl, h⟩
    | expr k d =>
        obtain ⟨read, hset, rfl⟩ := Option.map_eq_some_iff.mp hread
        exact (keeps_setExpr hloc hrange hset).map _ fun _ h => ⟨rfl, h⟩
    | ref k d =>
        obtain ⟨read, hset, rfl⟩ := Option.map_eq_some_iff.mp hread
        exact (keeps_setRef hloc hrange hset).map _ fun _ h => ⟨rfl, h⟩
    | ctorInit d =>
        obtain ⟨read, hset, rfl⟩ := Option.map_eq_some_iff.mp hread
        exact (keeps_setInit hset).map _ fun _ _ => ⟨rfl, rfl, rfl⟩
    | other k loc range =>
        unfold setContent? at hread
        dsimp only at hread
        split at hread
        case h_1 =>
          obtain rfl := Option.some.inj hread
          exact (keeps_optional_string _).bind fun _ _ => .pure ⟨rfl, rfl, rfl⟩
        case h_2 => exact absurd rfl hloc
        case h_3 => exact absurd rfl hrange
        case h_4 => exact nomatch hread

end Keeps

/-- An initializer passes over its location and range, and what tells no position changes none. -/
lemma keeps_readField_spot {c : Content} {name : String} {v : Scanned}
    (hname : name = "loc" ∨ name = "range")
    (h : c.isInitializer = true ∨ v.said.tells = false) :
    Keeps (fun d => d.isInitializer = c.isInitializer) (readField c name v) := by
  cases hc : c.isInitializer with
  | true =>
      cases c with
      | ctorInit d =>
          -- an initializer skips both fields
          have hskip : readField (.ctorInit d) name v = skip v >>= fun _ => pure (.ctorInit d) := by
            obtain rfl | rfl := hname <;> simp [readField, setContent?, setInit?]
          rw [hskip]
          exact (keeps_skip v).bind_any fun _ => .pure rfl
      | _ => exact nomatch hc
  | false =>
      have hv : v.said.tells = false := h.resolve_left (by simp [hc])
      obtain rfl | rfl := hname
      · obtain ⟨at?, hat, hread⟩ := exists_readField_loc hc
        rw [hread]
        exact (keeps_optional (keeps_location hv)).map _ fun l _ => (hat l).1
      · obtain ⟨at?, hat, hread⟩ := exists_readField_range hc
        rw [hread]
        exact (keeps_optional (keeps_range hv)).map _ fun r _ => (hat r).1

/-- What a field makes of two nodes, initializers or not, that are read side by side: they keep to
the same spot, and go on with the same position unless only one of them reads it here. -/
lemma coincide_readField {c c' : Content} {name : String} {v v' : Scanned} (hv : v.said = v'.said)
    (hspot : c.SameSpot c')
    (hread : c.isInitializer = c'.isInitializer ∨
      (name = "loc" ∨ name = "range" → v.said.tells = false)) :
    Coincide (fun d d' => d.SameSpot d' ∧ d.isInitializer = c.isInitializer ∧
        d'.isInitializer = c'.isInitializer)
      (readField c name v) (readField c' name v') := by
  by_cases hname : name = "loc" ∨ name = "range"
  case neg =>
    obtain ⟨hloc, hrange⟩ := not_or.mp hname
    refine .of_keeps (keeps_readField hloc hrange) (keeps_readField hloc hrange) ?_
    rintro d d' ⟨hkind, hl, hr⟩ ⟨hkind', hl', hr'⟩
    refine ⟨fun hdd => ?_, hkind, hkind'⟩
    rw [hl, hr, hl', hr']
    exact hspot (hkind ▸ hkind' ▸ hdd)
  by_cases hplain : c.isInitializer = false ∧ c'.isInitializer = false
  case pos =>
    -- both read the location or range, and it is the same
    obtain ⟨hc, hc'⟩ := hplain
    have hcc := hspot (hc.trans hc'.symm)
    obtain rfl | rfl := hname
    · obtain ⟨at?, hat, heq⟩ := exists_readField_loc hc
      obtain ⟨at'?, hat', heq'⟩ := exists_readField_loc hc'
      rw [heq, heq', hc, hc']
      refine (coincide_optional_location hv).map ?_
      rintro l _ rfl
      obtain ⟨hk, hl, hr⟩ := hat l
      obtain ⟨hk', hl', hr'⟩ := hat' l
      exact ⟨fun _ => ⟨hl.trans hl'.symm, hr.trans (hcc.2.trans hr'.symm)⟩, hk, hk'⟩
    · obtain ⟨at?, hat, heq⟩ := exists_readField_range hc
      obtain ⟨at'?, hat', heq'⟩ := exists_readField_range hc'
      rw [heq, heq', hc, hc']
      refine (coincide_optional_range hv).map ?_
      rintro r _ rfl
      obtain ⟨hk, hl, hr⟩ := hat r
      obtain ⟨hk', hl', hr'⟩ := hat' r
      exact ⟨fun _ => ⟨hl.trans (hcc.1.trans hl'.symm), hr.trans hr'.symm⟩, hk, hk'⟩
  case neg =>
    -- an initializer is among them: none of them moves the position
    have hquiet : c.isInitializer = true ∧ c'.isInitializer = true ∨ v.said.tells = false := by
      cases hc : c.isInitializer <;> cases hc' : c'.isInitializer <;> simp_all
    refine .of_keeps (keeps_readField_spot hname (hquiet.imp_left And.left))
      (keeps_readField_spot hname (hv ▸ hquiet.imp_left And.right)) fun d d' hd hd' => ?_
    refine ⟨fun hdd => Content.spot_eq_of_isInitializer ?_ ?_, hd, hd'⟩
    all_goals
      cases hc : c.isInitializer <;> cases hc' : c'.isInitializer <;> simp_all

/-- How a field other than the children is read. -/
lemma bodyFields_cons {self : NodeId} {content : Content} {seen : List String}
    {inner : List Node} {key : FieldName} {v : Scanned} {rest : List Field} {ending : Ending}
    (hkey : key.said ≠ "inner") :
    bodyFields self content seen inner ((key, v) :: rest) ending = (do
      let (name, place) ← keyName key
      let known := (setContent? content name).isSome
      if known ∧ name ∈ seen then throw ⟨.repeatedField name, place⟩
      let content ← readField content name v
      bodyFields self content (if known then name :: seen else seen) inner rest ending) := by
  rw [bodyFields]
  · refine bind_congr fun ⟨name, place⟩ => ?_
    cases hset : setContent? content name with
    | none => simp [readField, hset]
    | some read =>
      by_cases hseen : name ∈ seen <;> simp [readField, hset, hseen]
  · rintro place rfl
    exact hkey rfl

/-! ### Trees -/

/-- A node begins without a position. -/
lemma emptyContent_spot (kind : String) :
    (emptyContent kind).1.loc? = none ∧ (emptyContent kind).1.range? = none := by
  unfold emptyContent
  split
  case h_4 => split_ifs <;> exact ⟨rfl, rfl⟩
  all_goals exact ⟨rfl, rfl⟩

/-- Which nodes are initializers is up to the kind. -/
lemma isInitializer_emptyContent (kind : String) :
    (emptyContent kind).1.isInitializer = true ↔ kind = "CXXCtorInitializer" := by
  constructor
  · unfold emptyContent
    split
    case h_4 => split_ifs with h <;> simp_all [Content.isInitializer]
    all_goals exact nofun
  · rintro rfl
    rfl

mutual

/-- Two nodes that are the same apart from their kinds have the same shape and positions. -/
lemma coincide_node {v v' : Scanned} (h : v.kindless overlooks = v'.kindless overlooks) :
    Coincide Node.Alongside (node v) (node v') := by
  match v with
  | .object fields ending start =>
    obtain ⟨fields', ending', start', rfl, hfields⟩ := kindless_eq_object h.symm
    exact coincide_headFields hfields.symm ending ending' none
  | .null _ | .bool _ _ | .integer _ _ | .real _ _ _ _ | .string _ _ | .array _ _ _
  | .unreadable _ | .broken _ _ => exact .throw_left _

/-- From the first field on the two are the same, as long as the kind is not known. -/
lemma coincide_headFields {fields fields' : List Field}
    (h : Scanned.kindlessHead overlooks fields = Scanned.kindlessHead overlooks fields')
    (ending ending' : Ending) (id? : Option NodeId) :
    Coincide Node.Alongside (headFields id? fields ending) (headFields id? fields' ending') := by
  match fields with
  | [] =>
    match fields' with
    | [] =>
      exact (coincide_ended ending ending').bind fun _ _ _ =>
        .pure (.node (fun _ => ⟨rfl, rfl⟩) .nil)
    | (key', v') :: rest' =>
      rw [Scanned.kindlessHead, Scanned.kindlessHead] at h
      split at h <;> exact nomatch h
  | (key, v) :: rest =>
    obtain ⟨key', v', rest', rfl, hkey, hkind, hother⟩ := kindlessHead_cons_eq h
    rw [headFields, headFields]
    refine .bind_keyName hkey fun place place' => ?_
    dsimp only
    split
    -- the id of the node, which is read before its kind is known
    case h_1 hid =>
      obtain ⟨hv, hrest⟩ := hother (by simp [hid])
      split
      · exact .throw_left _
      · exact (coincide_id hv).bind_eq fun _ => coincide_headFields hrest ending ending' _
    -- the kind: from here on the two nodes may read other fields
    case h_2 heq =>
      obtain ⟨hmark, hrest⟩ := hkind heq
      refine (Coincide.of_keeps (keeps_kindName v) (keeps_kindName v')
        fun _ _ hs hs' => And.intro hs hs').bind fun kind kind' ⟨hs, hs'⟩ => ?_
      obtain ⟨hloc, hrange⟩ := emptyContent_spot kind
      obtain ⟨hloc', hrange'⟩ := emptyContent_spot kind'
      refine coincide_bodyFields hrest ending ending' _
        (fun _ => ⟨hloc.trans hloc'.symm, hrange.trans hrange'.symm⟩) ?_ _ _ .nil
      rw [hs, hs'] at hmark
      -- without a position to tell it makes no difference which fields are read
      cases htells : tellsPosition rest with
      | false => exact .inr rfl
      | true =>
          refine .inl (Bool.eq_iff_iff.mpr ?_)
          rw [isInitializer_emptyContent, isInitializer_emptyContent]
          exact overlooks_eq hmark htells ((tellsPosition_eq hrest).symm.trans htells)
    case h_3 => exact .throw_left _
    case h_4 => exact .throw_left _

/-- Behind the kind the two are the same: a field of either is read in both, or tells no
position. -/
lemma coincide_bodyFields {fields fields' : List Field}
    (h : Scanned.kindlessBody overlooks fields = Scanned.kindlessBody overlooks fields')
    (ending ending' : Ending) (self : NodeId) {content content' : Content}
    (hspot : content.SameSpot content')
    (hread : content.isInitializer = content'.isInitializer ∨ tellsPosition fields = false)
    (seen seen' : List String) {inner inner' : List Node}
    (hinner : List.Forall₂ Node.Alongside inner inner') :
    Coincide Node.Alongside (bodyFields self content seen inner fields ending)
      (bodyFields self content' seen' inner' fields' ending') := by
  match fields with
  | [] =>
    match fields' with
    | [] => exact (coincide_ended ending ending').bind fun _ _ _ => .pure (.node hspot hinner)
    | (key', v') :: rest' => exact nomatch h
  | (key, v) :: rest =>
    obtain ⟨key', v', rest', rfl, hkey, hchildren, hv, hrest⟩ := kindlessBody_cons_eq h
    have hrestRead := hread.imp_right fun htells => (tellsPosition_cons htells).2
    -- children are read whatever the kind is
    by_cases hname : key.said = "inner"
    case pos =>
      obtain ⟨place, rfl⟩ := FieldName.eq_plain hname (by decide)
      obtain ⟨place', rfl⟩ := FieldName.eq_plain (hkey.symm.trans hname) (by decide)
      rw [bodyFields, bodyFields]
      exact (coincide_children (hchildren hname)).bind fun _ _ hinner =>
        coincide_bodyFields hrest ending ending' self hspot hrestRead seen seen' hinner
    case neg =>
      rw [bodyFields_cons hname, bodyFields_cons (hkey ▸ hname)]
      refine .bind_keyName hkey fun place place' => ?_
      dsimp only
      -- a repeated field ends one reading, so that nothing is left to compare
      by_cases hseen : (setContent? content key.said).isSome = true ∧ key.said ∈ seen
      · rw [if_pos hseen]
        exact .throw_left _
      by_cases hseen' : (setContent? content' key.said).isSome = true ∧ key.said ∈ seen'
      · rw [if_pos hseen']
        exact .throw_right _
      rw [if_neg hseen, if_neg hseen']
      refine (coincide_readField (hv hname) hspot (hread.imp_right fun htells =>
        (tellsPosition_cons htells).1)).bind fun d d' ⟨hspot, hd, hd'⟩ => ?_
      exact coincide_bodyFields hrest ending ending' self hspot (hd ▸ hd' ▸ hrestRead) _ _ hinner

lemma coincide_children {v v' : Scanned}
    (h : v.kindlessChildren overlooks = v'.kindlessChildren overlooks) :
    Coincide (List.Forall₂ Node.Alongside) (children v) (children v') := by
  match v with
  | .array items ending start =>
    obtain ⟨items', ending', start', rfl, hitems⟩ := kindlessChildren_eq_array h.symm
    exact coincide_nodes hitems.symm ending ending'
  | .null _ | .bool _ _ | .integer _ _ | .real _ _ _ _ | .string _ _ | .object _ _ _
  | .unreadable _ | .broken _ _ => exact .throw_left _

/-- Children that are the same apart from the kinds have the same shape and positions. -/
lemma coincide_nodes {items items' : List Scanned}
    (h : Scanned.kindlessNodes overlooks items = Scanned.kindlessNodes overlooks items')
    (ending ending' : Ending) :
    Coincide (List.Forall₂ Node.Alongside) (nodes items ending) (nodes items' ending') := by
  match items, items' with
  | [], [] => exact (coincide_ended ending ending').bind fun _ _ _ => .pure .nil
  | [], _ :: _ => exact nomatch h
  | _ :: _, [] => exact nomatch h
  | v :: rest, v' :: rest' =>
    obtain ⟨hv, hrest⟩ := List.cons.inj h
    rw [nodes, nodes]
    refine (coincide_node hv).bind fun n n' hn => ?_
    exact (coincide_nodes hrest ending ending').bind fun ns ns' hns => .pure (.cons hn hns)

end

/-- A dump that is read is that of its root. -/
lemma reads_of_read {text : String} {n : Node} (h : read text = .ok n) :
    ∃ j, Reads (node (Scanned.document text.toList).root) {} n j := by
  cases hnode : (node (Scanned.document text.toList).root).run {} with
  | error snag =>
      simp [read, hnode, Except.mapError, bind, Except.bind] at h
  | ok found =>
      refine ⟨found.2, ?_⟩
      have hroot : found.1 = n := by
        simp only [read, hnode, Except.mapError, bind, Except.bind] at h
        cases hsnag : (Scanned.document text.toList).snag? with
        | some snag => simp [hsnag, throw, throwThe, MonadExceptOf.throw] at h
        | none => simpa [hsnag, pure, Except.pure] using h
      rw [Reads, hnode, ← hroot]

/-- **Kinds and positions**: two dumps that can be read and differ in the kinds of nodes only, none
of which tells an initializer with a position of its own from another node, have trees of one shape
in which all nodes have the same locations and ranges. (Initializers are apart, which have none.) -/
theorem read_kindless {text text' : String} {n n' : Node}
    (h : (Scanned.document text.toList).root.kindless overlooks =
      (Scanned.document text'.toList).root.kindless overlooks)
    (hn : read text = .ok n) (hn' : read text' = .ok n') : n.Alongside n' := by
  obtain ⟨j, hj⟩ := reads_of_read hn
  obtain ⟨j', hj'⟩ := reads_of_read hn'
  exact (coincide_node h hj hj').1

/-! ### Two nodes, the first in a file of its own -/

/-- A dump up to the kind of its first node. -/
def beforeKind : String := "\x7b\"kind\":\"Unit\",\"inner\":[\x7b\"kind\":\""

/-- The rest of that node, which is in the file `b.h`. -/
def behindKind : String :=
  "\",\"loc\":\x7b\"offset\":9,\"file\":\"b.h\",\"line\":2,\"col\":5,\"tokLen\":1\x7d\x7d,"

/-- The second node, which gives no file, and the end of the dump. -/
def nextNode : String :=
  "\x7b\"kind\":\"VarDecl\",\"loc\":\x7b\"offset\":15,\"col\":6,\"tokLen\":1\x7d\x7d]\x7d"

/-- The dump with a first node of that kind. -/
def twoNodes (kind : String) : String :=
  String.ofList (beforeKind.toList ++ kind.toList ++ behindKind.toList ++ nextNode.toList)

/-- The file and line where a node is. -/
def spot? (n : Node) : Option (String × UInt64) := do
  let bare ← (← n.content.loc?).seen?
  return (bare.file, bare.line)

/-- Two related nodes with a position have the same one. -/
lemma spot?_eq_of_alongside {n n' : Node} (h : n.Alongside n') (hn : (spot? n).isSome = true)
    (hn' : (spot? n').isSome = true) : spot? n = spot? n' := by
  have hplain {n : Node} (hn : (spot? n).isSome = true) : n.content.isInitializer = false := by
    obtain ⟨id, content, inner⟩ := n
    cases content with
    | ctorInit d => exact nomatch hn
    | _ => rfl
  obtain ⟨hspot, -⟩ := h
  rw [spot?, (hspot ((hplain hn).trans (hplain hn').symm)).1, spot?]

lemma spots_eq_of_alongside {ns ns' : List Node} (h : List.Forall₂ Node.Alongside ns ns') :
    List.Forall₂ (fun s s' => s.isSome = true → s'.isSome = true → s = s') (ns.map spot?)
      (ns'.map spot?) := by
  rw [List.forall₂_map_left_iff, List.forall₂_map_right_iff]
  exact h.imp fun _ _ => spot?_eq_of_alongside

/-- The spots of the children of a dump. -/
def childSpots (text : String) : Option (List (Option (String × UInt64))) :=
  (read text).toOption.map fun n => n.inner.map spot?

/-- Positions of children are those of a tree that was read. -/
lemma exists_of_childSpots {text : String} {spots : List (Option (String × UInt64))}
    (h : childSpots text = some spots) : ∃ n, read text = .ok n ∧ n.inner.map spot? = spots := by
  unfold childSpots at h
  cases hread : read text with
  | error fault => simp [hread, Except.toOption] at h
  | ok n => exact ⟨n, rfl, by simpa [hread, Except.toOption] using h⟩

lemma twoNodes_toList (kind : String) :
    (twoNodes kind).toList =
      beforeKind.toList ++ kind.toList ++ behindKind.toList ++ nextNode.toList :=
  String.toList_ofList

/-- As an initializer the first node has no position, and the second one loses its file and line. -/
lemma childSpots_twoNodes :
    childSpots (twoNodes "VarDecl") = some [some ("b.h", 2), some ("b.h", 2)] ∧
      childSpots (twoNodes "FunctionDecl") = some [some ("b.h", 2), some ("b.h", 2)] ∧
      childSpots (twoNodes "CXXCtorInitializer") = some [none, some ("", 0)] := by
  have hbefore : beforeKind.toList = _ := String.toList_ofList
  have hbehind : behindKind.toList = _ := String.toList_ofList
  have hnext : nextNode.toList = _ := String.toList_ofList
  refine ⟨?_, ?_, ?_⟩ <;>
    rw [childSpots, read, twoNodes_toList, hbefore, hbehind, hnext] <;> decide +kernel

/-- The three dumps differ in the kind of the first node only. -/
lemma kindless_twoNodes :
    (Scanned.document (twoNodes "VarDecl").toList).root.kindless overlooks =
        (Scanned.document (twoNodes "FunctionDecl").toList).root.kindless overlooks ∧
      (Scanned.document (twoNodes "VarDecl").toList).root.kindless (fun _ _ => .null) =
        (Scanned.document (twoNodes "CXXCtorInitializer").toList).root.kindless
          fun _ _ => .null := by
  have hbefore : beforeKind.toList = _ := String.toList_ofList
  have hbehind : behindKind.toList = _ := String.toList_ofList
  have hnext : nextNode.toList = _ := String.toList_ofList
  simp only [twoNodes_toList]
  rw [hbefore, hbehind, hnext]
  constructor <;> cbv

/-- A variable and a function with the same position leave the next node where it is. -/
theorem read_kindless_varDecl :
    ∃ n n', read (twoNodes "VarDecl") = .ok n ∧ read (twoNodes "FunctionDecl") = .ok n' ∧
      n.Alongside n' := by
  obtain ⟨n, hn, -⟩ := exists_of_childSpots childSpots_twoNodes.1
  obtain ⟨n', hn', -⟩ := exists_of_childSpots childSpots_twoNodes.2.1
  exact ⟨n, n', hn, hn', read_kindless kindless_twoNodes.1 hn hn'⟩

/-- The kind of an initializer with a position does matter: with it, the node behind it is in no
file. -/
theorem kind_moves_next_node :
    ¬∀ (text text' : String) (n n' : Node),
      (Scanned.document text.toList).root.kindless (fun _ _ => .null) =
        (Scanned.document text'.toList).root.kindless (fun _ _ => .null) →
      read text = .ok n → read text' = .ok n' → n.Alongside n' := by
  intro h
  obtain ⟨⟨id, content, inner⟩, hn, hspots⟩ := exists_of_childSpots childSpots_twoNodes.1
  obtain ⟨⟨id', content', inner'⟩, hn', hspots'⟩ := exists_of_childSpots childSpots_twoNodes.2.2
  obtain ⟨-, hchildren⟩ := h _ _ _ _ kindless_twoNodes.2 hn hn'
  have hspot := spots_eq_of_alongside hchildren
  rw [hspots, hspots'] at hspot
  obtain _ | ⟨-, _ | ⟨hsecond, -⟩⟩ := hspot
  exact absurd (hsecond rfl rfl) (by decide)

end Dump

end UnitIndex
