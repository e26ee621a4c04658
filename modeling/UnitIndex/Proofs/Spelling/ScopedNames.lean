import Mathlib.Tactic
import UnitIndex.Proofs.Decl.Lookup
import UnitIndex.Proofs.Decl.Naming
import UnitIndex.Proofs.Spelling.RoundTrip

/-!
Names behind their scopes, read back.

A declaration is named by its scopes and its own name, and an unnamed namespace is a scope of its
own there, `(anonymous namespace)`. Such a name is read component by component as long as these are
words (`path_pathText`). An unnamed namespace is read in front of them, but not behind a component:
there the name ends, and the spelling is refused because it goes on. So a name is read back just if
only its first component may be an unnamed namespace (`parse?_intercalate`). What a table lists
under a name that is read back is found by it (`parse?_scopedName`).
-/

namespace UnitIndex

open Token (lexFrom LeavesWord)

namespace TypeExpr

variable {b : Bool} {s : Specifiers} {rest : List Char} {names tail : List PathSegment}
  {c : String} {comps : List String}

/-- The component that an unnamed namespace adds to names. -/
def anonymousScope : String := "(anonymous namespace)"

/-- Components of a name: words that are no keywords, the last one among them, and unnamed
namespaces. -/
structure ScopedName (comps : List String) : Prop where
  component : ∀ c ∈ comps, (PathSegment.mk c none).Plain ∨ c = anonymousScope
  last : ∃ c ∈ comps.getLast?, (PathSegment.mk c none).Plain

/-- A name of scopes has a last component. -/
lemma ScopedName.ne_nil (h : ScopedName comps) : comps ≠ [] := by
  rintro rfl
  obtain ⟨c, hc, -⟩ := h.last
  cases hc

/-- An unnamed namespace is not named by a word. -/
lemma not_plain_anonymousScope : ¬(PathSegment.mk anonymousScope none).Plain := fun h =>
  absurd h.isWord (by decide)

/-! ### Components -/

/-- Components in front of which a name already stands. -/
def behindPath (names : List PathSegment) : List Char :=
  names.flatMap fun n => ':' :: ':' :: n.spelling

/-- A path is its first component, and each other one behind a separator. -/
lemma pathText_cons (n : PathSegment) (names : List PathSegment) :
    pathText (n :: names) = n.spelling ++ behindPath names := by
  induction names generalizing n with
  | nil => exact List.intercalate_singleton.trans (List.append_nil _).symm
  | cons n' names ih =>
      rw [pathText_cons_cons, ih]
      rfl

/-- So a path may be cut behind any component. -/
lemma pathText_append (hne : names ≠ []) (tail : List PathSegment) :
    pathText (names ++ tail) = pathText names ++ behindPath tail := by
  obtain ⟨n, names, rfl⟩ := List.exists_cons_of_ne_nil hne
  rw [List.cons_append, pathText_cons, pathText_cons, behindPath, List.flatMap_append,
    List.append_assoc]
  rfl

/-- Joining components writes the name that they are the segments of. -/
lemma toList_intercalate (comps : List String) :
    ("::".intercalate comps).toList = pathText (comps.map (⟨·, none⟩)) := by
  rw [String.toList_intercalate, pathText, List.map_map]
  congr 1
  refine List.map_congr_left fun c _ => ?_
  exact (List.append_nil _).symm

/-- What stands behind the last word in front of an unnamed namespace, or at the end. -/
lemma endsPath_behindPath (htail : ∀ n ∈ tail.head?, n = ⟨anonymousScope, none⟩) :
    EndsPath (behindPath tail) := by
  cases tail with
  | nil => exact ⟨Token.leavesWord_nil, by constructor <;> simp [behindPath], by simp [behindPath]⟩
  | cons n tail =>
      obtain rfl := htail n rfl
      have hcut : lexFrom [] (behindPath (⟨anonymousScope, none⟩ :: tail)) =
          ⟨[], .colonColon, [':', ':']⟩ :: ⟨[], .lparen, ['(']⟩ ::
            lexFrom [] ("anonymous namespace)".toList ++ behindPath tail) := by
        show lexFrom []
          (':' :: ':' :: '(' :: ("anonymous namespace)".toList ++ behindPath tail)) = _
        rw [Token.lexFrom_colonColon, Token.lexFrom_lparen]
      refine ⟨LeavesWord.cons (by decide) (by decide) _, ⟨?_, ?_⟩, ?_⟩ <;> rw [hcut]
      · simp
      · rintro sep next more ⟨⟩ -
        decide
      · simp

/-- Behind a name nothing begins a declarator. -/
lemma not_mem_declaratorKinds_behindPath (tail : List PathSegment) :
    ∀ t ∈ (lexFrom [] (behindPath tail)).head?, t.kind ∉ declaratorKinds := by
  cases tail with
  | nil => simp [behindPath]
  | cons n tail =>
      rw [behindPath, List.flatMap_cons, List.cons_append, List.cons_append,
        Token.lexFrom_colonColon]
      rintro _ ⟨⟩
      decide

/-! ### Unnamed namespaces -/

/-- The tokens between the parentheses of an unnamed namespace. -/
def scopeTokens : List Token :=
  [⟨[], .ident, "anonymous".toList⟩, ⟨[' '], .ident, "namespace".toList⟩]

/-- An unnamed namespace is two words in parentheses. -/
lemma lexFrom_anonymousScope (rest : List Char) :
    lexFrom [] (anonymousScope.toList ++ rest) =
      ⟨[], .lparen, ['(']⟩ :: (scopeTokens ++ ⟨[], .rparen, [')']⟩ :: lexFrom [] rest) := by
  have htext : anonymousScope.toList ++ rest =
      '(' :: ("anonymous".toList ++ ' ' :: ("namespace".toList ++ ')' :: rest)) := rfl
  rw [htext, Token.lexFrom_lparen, Token.lexFrom_word (by decide) (Token.leavesWord_space _),
    Token.lexFrom_space, Token.lexFrom_word (by decide) (LeavesWord.cons (by decide) (by decide) _),
    Token.lexFrom_rparen]
  rfl

/-- An unnamed namespace is followed by a name. -/
lemma specifiersFrom_anonymousScope (hopen : s.isOpen = true) (rounds : ℕ) :
    specifiersFrom b (rounds + 1) s
        (lexFrom [] (anonymousScope.toList ++ ':' :: ':' :: rest)) =
      (qualifiedPath b (lexFrom [] rest)).bind fun (names, ts) =>
        specifiersFrom b rounds
          { s with base := some (.named s.tag (⟨anonymousScope, none⟩ :: names)) } ts := by
  have hannounces (ts : List Token) : announcesAnonymous (scopeTokens ++ ts) = true := rfl
  have hclose (ts : List Token) : splitClose 0 (scopeTokens ++ ⟨[], .rparen, [')']⟩ :: ts) =
      some (scopeTokens, ts) := rfl
  have hscope : "(" ++ textOf scopeTokens ++ ")" = anonymousScope := by decide
  rw [lexFrom_anonymousScope, Token.lexFrom_colonColon, specifiersFrom]
  simp only [specifierMark, hopen, hannounces, untilClose, hclose, hscope, Option.map_some,
    Option.bind_eq_bind, Option.bind_some, and_self, if_true, if_false, reduceCtorEq]
  cases qualifiedPath b (lexFrom [] rest) <;> rfl

/-- An unnamed namespace in front of a name. -/
lemma specifiers_anonymousScope (hne : names ≠ []) (hnames : ∀ n ∈ names, n.Plain)
    (hrest : EndsPath rest) :
    specifiers b (lexFrom [] (anonymousScope.toList ++ ':' :: ':' :: (pathText names ++ rest))) =
      some ((.named none (⟨anonymousScope, none⟩ :: names), {}), lexFrom [] rest) := by
  have hpath := path_pathText (b := b) hne hnames hrest [] le_rfl
  refine ReadsTo.specifiers (s := { base := some (.named none (⟨anonymousScope, none⟩ :: names)) })
    (fun rounds hrounds => ?_) rfl
  cases rounds with
  | zero => simp [lexFrom_anonymousScope] at hrounds
  | succ rounds =>
      rw [specifiersFrom_anonymousScope rfl, qualifiedPath, hpath, Option.bind_some]
      exact specifiersFrom_stop (by simp [Specifiers.isOpen]) hrest.kind_ne rounds

/-- An unnamed namespace cannot follow another one. -/
lemma specifiers_anonymousScope_twice (b : Bool) (rest : List Char) :
    specifiers b (lexFrom [] (anonymousScope.toList ++ ':' :: ':' ::
      (anonymousScope.toList ++ rest))) = none := by
  have hpath : qualifiedPath b (lexFrom [] (anonymousScope.toList ++ rest)) = none := by
    rw [lexFrom_anonymousScope]
    rfl
  obtain ⟨rounds, hrounds⟩ : ∃ rounds, (lexFrom [] (anonymousScope.toList ++ ':' :: ':' ::
      (anonymousScope.toList ++ rest))).length = rounds + 1 := by
    rw [lexFrom_anonymousScope]
    exact ⟨_, List.length_cons⟩
  rw [specifiers, hrounds, specifiersFrom_anonymousScope rfl, hpath]
  rfl

/-! ### Whole names -/

/-- The words at the front, up to the first unnamed namespace. -/
lemma exists_append_of_component
    (h : ∀ c ∈ comps, (PathSegment.mk c none).Plain ∨ c = anonymousScope) :
    ∃ words tail, comps = words ++ tail ∧ (∀ c ∈ words, (PathSegment.mk c none).Plain) ∧
      ∀ c ∈ tail.head?, c = anonymousScope := by
  induction comps with
  | nil => exact ⟨[], [], by simp⟩
  | cons c comps ih =>
      obtain ⟨hc, hcomps⟩ := List.forall_mem_cons.mp h
      rcases hc with hc | rfl
      · obtain ⟨words, tail, rfl, hwords, htail⟩ := ih hcomps
        exact ⟨c :: words, tail, rfl, List.forall_mem_cons.mpr ⟨hc, hwords⟩, htail⟩
      · exact ⟨[], anonymousScope :: comps, rfl, by simp, by simp⟩

/-- A spelling whose specifiers end with some components is a type if no others follow. -/
lemma parse?_of_behindPath {spelling : String} {base : TypeBase}
    (h : specifiers true (Token.lex spelling) = some ((base, {}), lexFrom [] (behindPath tail))) :
    parse? spelling = if tail = [] then some ⟨base, {}, []⟩ else none := by
  rw [parse?_of_specifiers h (not_mem_declaratorKinds_behindPath tail)]
  refine if_congr ?_ rfl rfl
  cases tail with
  | nil => simp [behindPath]
  | cons n tail =>
      rw [behindPath, List.flatMap_cons, List.cons_append, List.cons_append,
        Token.lexFrom_colonColon]
      simp

/-- No unnamed namespace stands behind words just if nothing follows them. -/
lemma forall_ne_anonymousScope_iff {words tail : List String}
    (hwords : ∀ c ∈ words, (PathSegment.mk c none).Plain)
    (htail : ∀ c ∈ tail.head?, c = anonymousScope) :
    (∀ c ∈ words ++ tail, c ≠ anonymousScope) ↔ tail = [] := by
  constructor
  · intro h
    cases tail with
    | nil => rfl
    | cons c tail => exact absurd (htail c rfl) (h c (by simp))
  · rintro rfl c hc rfl
    rw [List.append_nil] at hc
    exact not_plain_anonymousScope (hwords _ hc)

section

variable {words last : List String} (hwords : ∀ c ∈ words, (PathSegment.mk c none).Plain)
  (hlast : ∀ c ∈ last.head?, c = anonymousScope)

include hwords hlast

/-- Words are read up to the first unnamed namespace. -/
lemma parse?_words (hne : words ≠ []) :
    parse? ("::".intercalate (words ++ last)) =
      if last = [] then some ⟨.named none (words.map (⟨·, none⟩)), {}, []⟩ else none := by
  have hpath : words.map (PathSegment.mk · none) ≠ [] := by simpa using hne
  have hplain : ∀ n ∈ words.map (PathSegment.mk · none), n.Plain := by simpa using hwords
  have hends : EndsPath (behindPath (last.map (⟨·, none⟩))) :=
    endsPath_behindPath (by simpa using hlast)
  have hread := (ReadsTo.name (b := true) (s := {}) hpath hplain rfl hends []).specifiers rfl
  rw [← pathText_append hpath, ← List.map_append, ← toList_intercalate] at hread
  rw [parse?_of_behindPath hread]
  exact if_congr List.map_eq_nil_iff rfl rfl

/-- So they are behind an unnamed namespace. -/
lemma parse?_anonymousScope_words (hne : words ≠ []) :
    parse? ("::".intercalate (anonymousScope :: (words ++ last))) =
      if last = [] then
        some ⟨.named none ((anonymousScope :: words).map (⟨·, none⟩)), {}, []⟩
      else none := by
  have hpath : words.map (PathSegment.mk · none) ≠ [] := by simpa using hne
  have hplain : ∀ n ∈ words.map (PathSegment.mk · none), n.Plain := by simpa using hwords
  have hends : EndsPath (behindPath (last.map (⟨·, none⟩))) :=
    endsPath_behindPath (by simpa using hlast)
  have htext : ("::".intercalate (anonymousScope :: (words ++ last))).toList =
      anonymousScope.toList ++ ':' :: ':' ::
        (pathText (words.map (⟨·, none⟩)) ++ behindPath (last.map (⟨·, none⟩))) := by
    obtain ⟨word, words, rfl⟩ := List.exists_cons_of_ne_nil hne
    rw [toList_intercalate, ← pathText_append hpath, ← List.map_append, List.map_cons,
      List.cons_append, List.map_cons, pathText_cons, pathText_cons]
    rfl
  have hread := specifiers_anonymousScope (b := true) hpath hplain hends
  rw [← htext] at hread
  rw [parse?_of_behindPath hread]
  exact if_congr List.map_eq_nil_iff rfl rfl

end

/-- Two unnamed namespaces in a row are refused. -/
lemma parse?_anonymousScope_twice (comps : List String) :
    parse? ("::".intercalate (anonymousScope :: anonymousScope :: comps)) = none := by
  refine parse?_eq_none_of_specifiers ?_
  rw [Token.lex, toList_intercalate, List.map_cons, List.map_cons, pathText_cons]
  exact specifiers_anonymousScope_twice true (behindPath (comps.map (⟨·, none⟩)))

/-- **A name of scopes is read back just if no unnamed namespace stands behind its first
component.** -/
lemma parse?_intercalate (h : ScopedName comps) :
    parse? ("::".intercalate comps) =
      if ∀ c ∈ comps.tail, c ≠ anonymousScope then
        some ⟨.named none (comps.map (⟨·, none⟩)), {}, []⟩
      else none := by
  obtain ⟨first, rest, rfl⟩ := List.exists_cons_of_ne_nil h.ne_nil
  obtain ⟨hfirst, hrest⟩ := List.forall_mem_cons.mp h.component
  obtain ⟨words, last, rfl, hwords, hlast⟩ := exists_append_of_component hrest
  have hnone := forall_ne_anonymousScope_iff hwords hlast
  rcases hfirst with hfirst | rfl
  · rw [← List.cons_append, parse?_words (List.forall_mem_cons.mpr ⟨hfirst, hwords⟩) hlast
      (List.cons_ne_nil first words)]
    refine if_ctx_congr hnone.symm (fun hnever => ?_) fun _ => rfl
    rw [hnone.mp hnever, List.append_nil]
  by_cases hne : words = []
  · -- the last component is a word, so that a second unnamed namespace follows
    subst hne
    obtain ⟨c, more, rfl⟩ : ∃ c more, last = c :: more := by
      refine List.exists_cons_of_ne_nil ?_
      rintro rfl
      obtain ⟨_, ⟨⟩, hword⟩ := h.last
      exact not_plain_anonymousScope hword
    obtain rfl := hlast c rfl
    rw [List.nil_append, parse?_anonymousScope_twice, if_neg (by simp)]
  · rw [parse?_anonymousScope_words hwords hlast hne]
    refine if_ctx_congr hnone.symm (fun hnever => ?_) fun _ => rfl
    rw [hnone.mp hnever, List.append_nil]

/-! ### Names of a table -/

/-- The name that the components spell is their joined text. -/
lemma qualifiedName?_segments (comps : List String) :
    (TypeBase.named none (comps.map (⟨·, none⟩))).qualifiedName? =
      some ("::".intercalate comps) := by
  rw [TypeBase.qualifiedName?, List.map_map]
  exact congrArg (fun names => some ("::".intercalate names)) (List.map_id comps)

/-- A name of scopes does not begin with `::`. -/
lemma unrooted_intercalate (h : ScopedName comps) :
    DeclTable.unrooted ("::".intercalate comps).toList = ("::".intercalate comps).toList := by
  obtain ⟨first, rest, rfl⟩ := List.exists_cons_of_ne_nil h.ne_nil
  rw [toList_intercalate, List.map_cons, pathText_cons]
  rcases h.component first List.mem_cons_self with hfirst | rfl
  · have hword : Token.isWord first.toList = true := hfirst.isWord
    rw [spelling_of_plain hfirst]
    cases htext : first.toList with
    | nil => rw [htext] at hword; exact absurd hword (by decide)
    | cons c cs =>
        have hc : Token.isIdentStart c = true := by
          rw [htext, Token.isWord, Bool.and_eq_true] at hword
          exact hword.1
        -- its first component begins with a letter or with a parenthesis
        have hcolon : c ≠ ':' := by
          rintro rfl
          exact absurd hc (by decide)
        rw [List.cons_append, DeclTable.unrooted]
        rintro _ heq
        exact hcolon (List.cons.inj heq).1
  · rfl

open DeclTable in
/-- What is listed under a name is found by it, or something else that is. -/
lemma exists_lookupType? {names : FileNames} {root : Node} {d : DeclInfo} {name : String}
    {tag : Option Tag} (hd : d ∈ (build names root).toList) (hindexed : isIndexed d)
    (htag : mayName tag d) (hname : d.qualifiedName = name)
    (hroot : unrooted name.toList = name.toList) :
    ∃ id e, (build names root).lookupType? name tag = some id ∧
      (build names root).get? id = some e ∧ (e.name = some name ∨ e.qualifiedName = name) := by
  have hlisted : isListedAs (String.ofList (unrooted name.toList)) d := by
    rw [hroot, String.ofList_toList]
    exact isListedAs_iff.mpr ⟨hindexed, Or.inr hname⟩
  have hsome : ((build names root).lookupType? name tag).isSome := by
    rw [lookupType?, candidates_build names root name ⟨d, hd, hlisted⟩, Option.isSome_map,
      Option.isSome_iff_ne_none, Ne, firstLeast_eq_none_iff]
    exact List.ne_nil_of_mem (List.mem_filter.mpr ⟨List.mem_filter.mpr ⟨hd, hlisted⟩, htag⟩)
  obtain ⟨id, hid⟩ := Option.isSome_iff_exists.mp hsome
  obtain ⟨e, he, -, hleast⟩ := lookupType?_eq_some ⟨d, hd, hlisted⟩ hid
  obtain ⟨⟨-, hfound⟩, -⟩ := outranks_of_firstLeast hleast
  rw [hroot, String.ofList_toList, Bool.and_eq_true] at hfound
  exact ⟨id, e, hid, he, (isListedAs_iff.mp hfound.2).2⟩

open DeclTable in
/-- **Names of scopes, read back.** The text that joins the components of a name spells exactly this
name, if no unnamed namespace stands behind the first component, and is refused otherwise. A table
whose scopes and type have these components gives the type this name, and finds something by it. -/
theorem parse?_scopedName (h : ScopedName comps) :
    (TypeBase.named none (comps.map (⟨·, none⟩))).qualifiedName? =
        some ("::".intercalate comps) ∧
      (parse? ("::".intercalate comps) =
        if ∀ c ∈ comps.tail, c ≠ anonymousScope then
          some ⟨.named none (comps.map (⟨·, none⟩)), {}, []⟩
        else none) ∧
      ∀ names root, ∀ d ∈ (build names root).toList, isIndexed d → d.cls.namesType →
        (build names root).components d = comps →
        d.qualifiedName = "::".intercalate comps ∧
          ∃ id e, (build names root).lookupType? ("::".intercalate comps) none = some id ∧
            (build names root).get? id = some e ∧
            (e.name = some d.qualifiedName ∨ e.qualifiedName = d.qualifiedName) := by
  refine ⟨qualifiedName?_segments comps, parse?_intercalate h, ?_⟩
  intro names root d hd hindexed htype hcomponents
  have hname := qualifiedName_build ((consistent_build names root).mem_toList.mp hd)
  rw [hcomponents] at hname
  rw [hname]
  exact ⟨rfl, exists_lookupType? hd hindexed htype hname (unrooted_intercalate h)⟩

open DeclTable in
/-- A name in an unnamed namespace, and the name of the first of two structures. -/
theorem parse?_scopedName_namesakes :
    parse? "(anonymous namespace)::ns::S" =
        some ⟨.named none [⟨anonymousScope, none⟩, ⟨"ns", none⟩, ⟨"S", none⟩], {}, []⟩ ∧
      ∃ d ∈ (build literalNames namesakes).toList, d.qualifiedName = "ns::S" ∧
        ∃ id, (build literalNames namesakes).lookupType? "ns::S" none = some id := by
  have hns : (PathSegment.mk "ns" none).Plain := ⟨by decide, by decide, rfl⟩
  have hstruct : (PathSegment.mk "S" none).Plain := ⟨by decide, by decide, rfl⟩
  constructor
  · have hscoped : ScopedName [anonymousScope, "ns", "S"] :=
      { component := by simp [hns, hstruct]
        last := ⟨"S", rfl, hstruct⟩ }
    have htext : "::".intercalate [anonymousScope, "ns", "S"] = "(anonymous namespace)::ns::S" := by
      decide
    rw [← htext, (parse?_scopedName hscoped).2.1, if_pos (by decide)]
    rfl
  · have hscoped : ScopedName ["ns", "S"] :=
      { component := by simp [hns, hstruct]
        last := ⟨"S", rfl, hstruct⟩ }
    have htext : "::".intercalate ["ns", "S"] = "ns::S" := by decide
    have hmarks : ((build literalNames namesakes).get? ⟨3⟩).map
        (fun d => (d.id, isIndexed d, d.cls.namesType)) = some (⟨3⟩, true, true) := by cbv
    have hcomponents : ((build literalNames namesakes).get? ⟨3⟩).map
        (build literalNames namesakes).components = some ["ns", "S"] := by cbv
    obtain ⟨d, hd, hmarks⟩ := Option.map_eq_some_iff.mp hmarks
    rw [hd, Option.map_some, Option.some.injEq] at hcomponents
    simp only [Prod.mk.injEq] at hmarks
    obtain ⟨hid, hindexed, htype⟩ := hmarks
    have hmem := (consistent_build literalNames namesakes).mem_toList.mpr (hid.symm ▸ hd)
    obtain ⟨-, -, hlookup⟩ := parse?_scopedName hscoped
    obtain ⟨hname, id, -, hfound, -⟩ := hlookup _ _ d hmem hindexed htype hcomponents
    rw [htext] at hname hfound
    exact ⟨d, hmem, hname, id, hfound⟩

/-- **An unnamed namespace inside of another scope is not read back.** -/
theorem parse?_misses_unnamedNamespace :
    ¬∀ comps, ScopedName comps → ∃ base, parse? ("::".intercalate comps) = some ⟨base, {}, []⟩ ∧
      base.qualifiedName? = some ("::".intercalate comps) := by
  intro h
  have hns : (PathSegment.mk "ns" none).Plain := ⟨by decide, by decide, rfl⟩
  have hstruct : (PathSegment.mk "S" none).Plain := ⟨by decide, by decide, rfl⟩
  have hscoped : ScopedName ["ns", anonymousScope, "S"] :=
    { component := by simp [hns, hstruct]
      last := ⟨"S", rfl, hstruct⟩ }
  obtain ⟨base, hread, -⟩ := h _ hscoped
  rw [parse?_intercalate hscoped, if_neg (by decide)] at hread
  cases hread

end TypeExpr

end UnitIndex
