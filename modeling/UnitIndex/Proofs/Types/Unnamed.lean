import Mathlib.Tactic
import UnitIndex.Proofs.Decl.Definitions
import UnitIndex.Proofs.Spelling.Unnamed
import UnitIndex.Proofs.Types.Arena

/-!
Unnamed types, looked up by their places.

The spelling of an unnamed record or enumeration says in which file, line and column it is declared.
It is cut at its last colons and its last ` at ` (`anonymousPosition?_unnamedAt`). Of the file only
the name counts, without the directories: the type is the first record or enumeration that stands in
that line and column of a file of that name (`mayStandAt`). So it is the one that stands there just
if all others are behind it (`spellingType_unnamedAt`), which two headers of one name show to be
more than a manner of speaking (`not_forall_standsAt`).
-/

namespace UnitIndex

/-! ### The last occurrence of a mark -/

namespace Text

variable {mark cs pre front behind post : List Char} {c sep : Char}

/-- The last mark is behind the first character, or it begins there. -/
lemma splitLast?_cons (mark : List Char) (c : Char) (cs : List Char) :
    splitLast? mark (c :: cs) =
      match splitLast? mark cs with
      | some (before, behind) => some (c :: before, behind)
      | none =>
        if mark.isPrefixOf (c :: cs) then some ([], (c :: cs).drop mark.length) else none := by
  cases hcs : splitLast? mark cs with
  | none => rw [splitLast?, hcs]
  | some parts => rw [splitLast?, hcs]

/-- What stands in front does not change where the last occurrence is. -/
lemma splitLast?_append_of_eq_some (h : splitLast? mark cs = some (front, behind))
    (pre : List Char) : splitLast? mark (pre ++ cs) = some (pre ++ front, behind) := by
  induction pre with
  | nil => exact h
  | cons c pre ih => rw [List.cons_append, splitLast?_cons, ih, List.cons_append]

/-- A mark whose first character does not stand in the text does not either. -/
lemma splitLast?_eq_none (h : c ∉ cs) (mark : List Char) : splitLast? (c :: mark) cs = none := by
  induction cs with
  | nil => rfl
  | cons d cs ih =>
      rw [List.mem_cons, not_or] at h
      rw [splitLast?_cons, ih h.2]
      simp [List.isPrefixOf, h.1]

/-- The last occurrence of a character. -/
lemma splitLast?_singleton (h : sep ∉ behind) (front : List Char) :
    splitLast? [sep] (front ++ sep :: behind) = some (front, behind) := by
  have hlast : splitLast? [sep] (sep :: behind) = some ([], behind) := by
    rw [splitLast?_cons, splitLast?_eq_none h]
    simp [List.isPrefixOf]
  rw [splitLast?_append_of_eq_some hlast, List.append_nil]

/-- A mark does not reach beyond a character that it does not have. -/
lemma isPrefixOf_append_cons (hc : c ∉ mark) (cs post : List Char) :
    mark.isPrefixOf (cs ++ c :: post) = mark.isPrefixOf cs := by
  induction mark generalizing cs with
  | nil => rfl
  | cons m mark ih =>
      rw [List.mem_cons, not_or] at hc
      cases cs with
      | nil => simp [List.isPrefixOf, Ne.symm hc.1]
      | cons d cs => rw [List.cons_append, List.isPrefixOf, List.isPrefixOf, ih hc.2]

/-- What stands behind a character that is not in the mark does not count, if the mark does not
stand there. -/
lemma splitLast?_append_cons (hc : c ∉ mark) (hmark : mark ≠ [])
    (hpost : splitLast? mark post = none) (cs : List Char) :
    splitLast? mark (cs ++ c :: post) =
      (splitLast? mark cs).map fun parts => (parts.1, parts.2 ++ c :: post) := by
  induction cs with
  | nil =>
      obtain ⟨m, mark, rfl⟩ := List.exists_cons_of_ne_nil hmark
      rw [List.mem_cons, not_or] at hc
      rw [List.nil_append, splitLast?_cons, hpost]
      simp [List.isPrefixOf, Ne.symm hc.1, splitLast?]
  | cons d cs ih =>
      -- a mark that begins in front ends in front
      have hprefix := isPrefixOf_append_cons hc (d :: cs) post
      rw [List.cons_append] at hprefix
      rw [List.cons_append, splitLast?_cons, splitLast?_cons, ih, hprefix]
      cases splitLast? mark cs with
      | some parts => rfl
      | none =>
          dsimp only [Option.map_none]
          split
          · next hstart =>
            have hle := (List.isPrefixOf_iff_prefix.mp hstart).length_le
            rw [Option.map_some, ← List.cons_append, List.drop_append_of_le_length hle]
          · rfl

/-- No piece has the separator in it. -/
lemma not_mem_of_mem_splitOn {piece : List Char} (h : piece ∈ splitOn sep cs) : sep ∉ piece := by
  induction cs generalizing piece with
  | nil =>
      obtain rfl : piece = [] := by simpa [splitOn] using h
      exact List.not_mem_nil
  | cons c cs ih =>
      rw [splitOn] at h
      split at h
      · rcases List.mem_cons.mp h with rfl | h
        · exact List.not_mem_nil
        · exact ih h
      · next hc =>
        cases hcs : splitOn sep cs with
        | nil => exact absurd hcs (splitOn_ne_nil sep cs)
        | cons first pieces =>
            rw [hcs] at h ih
            rcases List.mem_cons.mp h with rfl | h
            · rw [List.mem_cons, not_or]
              exact ⟨Ne.symm hc, ih List.mem_cons_self⟩
            · exact ih (List.mem_cons_of_mem first h)

/-- Without a separator the text is one piece. -/
lemma splitOn_of_not_mem (h : sep ∉ cs) : splitOn sep cs = [cs] := by
  induction cs with
  | nil => rfl
  | cons c cs ih =>
      rw [List.mem_cons, not_or] at h
      rw [splitOn, if_neg (Ne.symm h.1), ih h.2]

end Text

/-! ### File names -/

namespace Path

variable {p q : Path} {name : String} {first : Bool}

/-- A step that is a name is the text of a piece, which is none of those with a meaning. -/
lemma exists_piece_of_name {pieces : List (List Char)}
    (h : .name name ∈ componentsOf first pieces) :
    ∃ piece ∈ pieces, piece = name.toList ∧ piece ≠ [] ∧ piece ≠ ['.'] ∧ piece ≠ ['.', '.'] := by
  induction pieces generalizing first with
  | nil => simp [componentsOf] at h
  | cons piece pieces ih =>
      rw [componentsOf, List.mem_append] at h
      rcases h with h | h
      · rw [Option.mem_toList, component?.eq_def] at h
        refine ⟨piece, List.mem_cons_self, ?_⟩
        split at h
        · simp at h
        · split at h <;> simp at h
        · simp at h
        · next hempty hdot hup =>
          obtain rfl : String.ofList piece = name := by simpa using h
          exact ⟨String.toList_ofList.symm, hempty, hdot, hup⟩
      · obtain ⟨piece', hmem, hpiece⟩ := ih h
        exact ⟨piece', List.mem_cons_of_mem piece hmem, hpiece⟩

/-- The name of a file as a path has one step. -/
lemma components_of_fileName? (h : p.fileName? = some name) :
    components ⟨name⟩ = [.name name] := by
  have hlast : p.components.getLast? = some (.name name) := by
    rw [fileName?] at h
    split at h
    · next s hs => rw [hs, Option.some.inj h]
    · cases h
  have hmem : ∃ first, .name name ∈ componentsOf first p.pieces := by
    have hname := List.mem_of_getLast? hlast
    rw [components] at hname
    split at hname
    · exact ⟨false, by simpa using hname⟩
    · exact ⟨true, hname⟩
  obtain ⟨first, hmem⟩ := hmem
  obtain ⟨piece, hpiece, rfl, hempty, hdot, hup⟩ := exists_piece_of_name hmem
  -- the name is a piece of the path, so that it has no slash and no meaning of its own
  have hslash : '/' ∉ name.toList := by
    rw [pieces] at hpiece
    split at hpiece <;> exact Text.not_mem_of_mem_splitOn hpiece
  have habsolute : isAbsolute ⟨name⟩ = false := by
    rw [isAbsolute, beq_eq_false_iff_ne]
    exact fun hroot => hslash (List.mem_of_mem_head? hroot)
  have hpieces : pieces ⟨name⟩ = [name.toList] := by
    rw [pieces]
    split
    · next rest hrest => exact absurd (hrest ▸ List.mem_cons_self) hslash
    · exact Text.splitOn_of_not_mem hslash
  have hcomponent : component? true name.toList = some (.name name) := by
    rw [component?.eq_def]
    split
    · next h => exact absurd h hempty
    · next h => exact absurd h hdot
    · next h => exact absurd h hup
    · rw [String.ofList_toList]
  rw [components, habsolute, hpieces, if_neg Bool.false_ne_true, componentsOf, hcomponent]
  rfl

/-- A path ends with the name of a file just if it names a file of that name. -/
lemma endsWith_fileName? (h : p.fileName? = some name) (q : Path) :
    q.endsWith ⟨name⟩ = true ↔ q.fileName? = some name := by
  rw [endsWith, components_of_fileName? h, List.isSuffixOf_iff_suffix, fileName?]
  constructor
  · rintro ⟨front, hfront⟩
    rw [← hfront, List.getLast?_concat]
  · intro hname
    split at hname
    · next s hs =>
      obtain rfl := Option.some.inj hname
      obtain ⟨front, hfront⟩ := List.getLast?_eq_some_iff.mp hs
      exact ⟨front, hfront.symm⟩
    · cases hname

end Path

/-- The declaration of a record or of an enumeration. -/
def TypeForm.tagged? : TypeForm → Option NodeId
  | record decl _ _ | enum decl => some decl
  | _ => none

/-! ### The place in a spelling -/

namespace TypeTable

open TypeExpr (positionText toList_unnamedText toList_unnamedAt exists_unnamedText_eq
  not_mem_toDigits reverse_dropWhile_append)

variable {word : String} {l : FileLocation} {d : DeclInfo} {decls : DeclTable} {t : TypeTable}

/-- The part of a file name that is read as the file: what stands behind its last ` at `. -/
def behindAt (file : List Char) : List Char :=
  match Text.splitLast? " at ".toList file with
  | some (_, behind) => behind
  | none => file

/-- The text in front of the position ends with the last ` at ` of the file name, or with the one in
front of that name. -/
lemma splitLast?_unnamedText (habsolute : l.file.toList.head? = some '/') (word : String) :
    ∃ front, Text.splitLast? " at ".toList (unnamedText word l).toList =
      some (front, behindAt l.file.toList ++ positionText l) := by
  have hspace : ' ' ∉ Nat.toDigits 10 l.line.toNat ++ ':' :: Nat.toDigits 10 l.column.toNat := by
    simp [not_mem_toDigits]
  have hposition := Text.splitLast?_append_cons (show ':' ∉ " at ".toList by decide)
    (by decide) (Text.splitLast?_eq_none hspace ['a', 't', ' ']) l.file.toList
  rw [toList_unnamedText, ← List.append_assoc, behindAt]
  -- the mark is in the name of the file, or the last one is that in front of it
  cases hfile : Text.splitLast? " at ".toList l.file.toList with
  | some parts =>
      rw [hfile, Option.map_some] at hposition
      have hbehind := Text.splitLast?_append_of_eq_some hposition " at ".toList
      exact ⟨_, Text.splitLast?_append_of_eq_some hbehind _⟩
  | none =>
      rw [hfile, Option.map_none] at hposition
      obtain ⟨rest, hrest⟩ : ∃ rest, l.file.toList = '/' :: rest :=
        List.head?_eq_some_iff.mp habsolute
      have hbehind : Text.splitLast? " at ".toList
          (" at ".toList ++ (l.file.toList ++ positionText l)) =
          some ([], l.file.toList ++ positionText l) := by
        rw [hrest] at hposition ⊢
        replace hposition : Text.splitLast? [' ', 'a', 't', ' ']
            ('/' :: (rest ++ positionText l)) = none := hposition
        show Text.splitLast? _ (' ' :: 'a' :: 't' :: ' ' :: _) = _
        simp [Text.splitLast?_cons _ ' ', Text.splitLast?_cons _ 'a', Text.splitLast?_cons _ 't',
          hposition, List.isPrefixOf]
      exact ⟨_, Text.splitLast?_append_of_eq_some hbehind _⟩

/-- **The place in the spelling of an unnamed type** is cut out of it again. -/
lemma anonymousPosition?_unnamedAt (habsolute : l.file.toList.head? = some '/') (word : String) :
    anonymousPosition? (unnamedAt word l) =
      some (String.ofList (behindAt l.file.toList), l.line.toNat, l.column.toNat) := by
  -- all parentheses at the ends are dropped, and those are the two around the text
  have hinner : (((unnamedAt word l).toList.dropWhile (· == '(')).reverse.dropWhile
      (· == ')')).reverse = (unnamedText word l).toList := by
    obtain ⟨cs, d, htext, hd⟩ := exists_unnamedText_eq word l
    have hparen : (d == ')') = false := by
      rw [beq_eq_false_iff_ne]
      rintro rfl
      exact absurd hd (by decide)
    rw [toList_unnamedAt, htext, List.dropWhile_cons_of_pos (by decide), List.cons_append,
      List.dropWhile_cons_of_neg (by decide), ← List.cons_append, List.reverse_append,
      List.reverse_singleton, List.singleton_append, List.dropWhile_cons_of_pos (by decide),
      ← List.cons_append, reverse_dropWhile_append (p := (· == ')')) hparen]
  obtain ⟨front, hfront⟩ := splitLast?_unnamedText habsolute word
  have hdigits (n : ℕ) : ':' ∉ Nat.toDigits 10 n := not_mem_toDigits (by decide) n
  have hcolumn := Text.splitLast?_singleton (hdigits l.column.toNat)
    (behindAt l.file.toList ++ ':' :: Nat.toDigits 10 l.line.toNat)
  have hline := Text.splitLast?_singleton (hdigits l.line.toNat) (behindAt l.file.toList)
  have hlimit (n : UInt32) : n.toNat < Text.limit32 := n.toNat_lt
  rw [List.append_assoc, List.cons_append] at hcolumn
  simp only [anonymousPosition?, hinner, hfront, positionText, hcolumn, hline,
    Text.numeral?_toDigits (hlimit _), Option.bind_eq_bind, Option.bind_some]

/-- Whether the lookup takes the declaration for one that stands there: it is a record or an
enumeration in that line and column, and its file has the same name. -/
def mayStandAt (l : FileLocation) (d : DeclInfo) : Bool :=
  (d.cls == .record || d.cls == .enum) && d.location.any fun m =>
    m.line == l.line && m.column == l.column &&
      (Path.fileName? ⟨m.file⟩).isSome &&
      Path.fileName? ⟨m.file⟩ == Path.fileName? ⟨String.ofList (behindAt l.file.toList)⟩

/-- Whether the declaration stands there. -/
def StandsAt (l : FileLocation) (d : DeclInfo) : Prop :=
  ∃ m ∈ d.location, m.file = l.file ∧ m.line = l.line ∧ m.column = l.column

/-- The form of the type that a record or an enumeration declares. -/
def tagForm (d : DeclInfo) : TypeForm :=
  if d.cls = .enum then .enum d.id else .record d.id d.tag d.isCxx

/-- Nothing may stand in a file whose name is none. -/
lemma mayStandAt_eq_false (hname : Path.fileName? ⟨String.ofList (behindAt l.file.toList)⟩ = none)
    (d : DeclInfo) : mayStandAt l d = false := by
  refine Bool.eq_false_iff.mpr fun hd => ?_
  simp only [mayStandAt, hname, Bool.and_eq_true, Option.any_eq_true] at hd
  obtain ⟨-, m, -, ⟨-, hsome⟩, heq⟩ := hd
  rw [beq_iff_eq] at heq
  rw [heq] at hsome
  exact Bool.noConfusion hsome

/-- The paths that end with the name of a file are those of files with this name. -/
lemma mayStandAt_eq {name : String}
    (hname : Path.fileName? ⟨String.ofList (behindAt l.file.toList)⟩ = some name) (d : DeclInfo) :
    mayStandAt l d = ((d.cls == .record || d.cls == .enum) && d.location.any fun m =>
      m.line.toNat == l.line.toNat && m.column.toNat == l.column.toNat &&
        Path.endsWith ⟨m.file⟩ ⟨name⟩) := by
  rw [mayStandAt]
  congr 2
  funext m
  rw [Bool.eq_iff_iff]
  simp only [Bool.and_eq_true, beq_iff_eq, UInt32.toNat_inj, Path.endsWith_fileName? hname, hname]
  constructor
  · rintro ⟨⟨hplace, -⟩, hm⟩
    exact ⟨hplace, hm⟩
  · rintro ⟨hplace, hm⟩
    exact ⟨⟨hplace, by rw [hm]; rfl⟩, hm⟩

/-- What the spelling of an unnamed type names is the first that may stand there. -/
lemma anonymousForm?_unnamedAt (habsolute : l.file.toList.head? = some '/') (word : String)
    (decls : DeclTable) :
    anonymousForm? decls (unnamedAt word l) =
      (decls.toList.find? (mayStandAt l)).map tagForm := by
  rw [anonymousForm?, anonymousPosition?_unnamedAt habsolute, Option.bind_eq_bind,
    Option.bind_some]
  cases hname : Path.fileName? ⟨String.ofList (behindAt l.file.toList)⟩ with
  | none =>
      have hnever : decls.toList.find? (mayStandAt l) = none :=
        List.find?_eq_none.mpr fun d _ => by simp [mayStandAt_eq_false hname d]
      rw [hnever]
      simp [hname]
  | some name =>
      simp only [hname, Option.bind_eq_bind, Option.bind_some, ← mayStandAt_eq hname]
      rw [Option.map_eq_bind]
      refine congrArg _ (funext fun d => ?_)
      rw [Function.comp_apply, tagForm]
      split <;> rfl

/-! ### The type of a spelling -/

/-- The spelling of an unnamed type is looked up by its place, or kept as it stands. -/
lemma run_spellingType_anonymous {spelling text : String} {tag : Option Tag}
    (hparse : TypeExpr.parse? spelling = some ⟨.anonymous tag text, {}, []⟩) (decls : DeclTable)
    (t : TypeTable) :
    (spellingType decls spelling).run t =
      (plain ((anonymousForm? decls text).getD (.unresolved text))).run t := by
  rw [spellingType, spellingTypeWith, hparse]
  rfl

/-- What the type of a spelling is a record or an enumeration of. -/
def namedBy (decls : DeclTable) (spelling : String) (t : TypeTable) : Option NodeId :=
  let built := (spellingType decls spelling).run t
  (built.2.form built.1.type).tagged?

/-- The spelling of an unnamed type names the first declaration that may stand there. -/
lemma namedBy_unnamedAt {names : FileNames} {root : Node} (ht : Used (.build names root) t)
    (word : String) (l : FileLocation) (hword : Token.isWord word.toList = true)
    (habsolute : l.file.toList.head? = some '/')
    (hparens : parensNest 0 l.file.toList = true) (tag : Option Tag) :
    namedBy (.build names root)
        (String.ofList (TypeBase.anonymous tag (unnamedAt word l)).spelling) t =
      ((DeclTable.build names root).toList.find? (mayStandAt l)).map (·.id) := by
  have hrun := run_spellingType_anonymous (TypeExpr.parse?_unnamedAt hword hparens tag)
    (.build names root) t
  rw [anonymousForm?_unnamedAt habsolute] at hrun
  rw [namedBy, hrun]
  set form := (((DeclTable.build names root).toList.find? (mayStandAt l)).map tagForm).getD
    (.unresolved (unnamedAt word l)) with hform
  have hlayered := (ht.arena (DeclTable.consistent_build names root)).toLayered
  -- a record or an enumeration has no parts, and neither has a spelling that was kept
  have hparts : ∀ p ∈ form.parts, p.type < t.size := by
    rw [hform]
    cases (DeclTable.build names root).toList.find? (mayStandAt l) with
    | none => simp [TypeForm.parts]
    | some d =>
        rw [Option.map_some, Option.getD_some, tagForm]
        split <;> simp [TypeForm.parts]
  have hinterned : ((plain form).run t).2.form ((plain form).run t).1.type = form :=
    (hlayered.intern hparts).form_eq
  rw [hinterned, hform]
  cases (DeclTable.build names root).toList.find? (mayStandAt l) with
  | none => rfl
  | some d =>
      rw [Option.map_some, Option.getD_some, tagForm]
      split <;> rfl

/-- The first of a kind is as it should be just if each of the kind that is not comes behind one
that is. -/
lemma forall_find?_iff {α : Type} {p : α → Bool} {q : α → Prop} {l : List α} :
    (∀ x, l.find? p = some x → q x) ↔
      ∀ front x back, l = front ++ x :: back → p x → ¬q x → ∃ y ∈ front, p y ∧ q y := by
  constructor
  · intro h front x back hsplit hx hnot
    subst hsplit
    cases hfront : front.find? p with
    | none =>
        have hfind : (front ++ x :: back).find? p = some x := by
          rw [List.find?_append, hfront, List.find?_cons_of_pos hx, Option.none_or]
        exact absurd (h x hfind) hnot
    | some y =>
        have hfind : (front ++ x :: back).find? p = some y := by
          rw [List.find?_append, hfront, Option.some_or]
        exact ⟨y, List.mem_of_find?_eq_some hfront, List.find?_some hfront, h y hfind⟩
  · intro h x hx
    obtain ⟨hp, front, back, hsplit, hfront⟩ := List.find?_eq_some_iff_append.mp hx
    by_contra hnot
    obtain ⟨y, hy, hpy, -⟩ := h front x back hsplit hp hnot
    have hno := hfront y hy
    rw [hpy] at hno
    exact Bool.noConfusion hno

/-- **Unnamed types by their places.** In a table in use, the spelling of an unnamed type names the
first record or enumeration that stands in the line and column that it says, in a file of the name
that it says. So it names none but what stands in the very file just if all others that may stand
there come behind one that does. -/
theorem spellingType_unnamedAt (names : FileNames) (root : Node) (ht : Used (.build names root) t)
    (word : String) (l : FileLocation) (hword : Token.isWord word.toList = true)
    (habsolute : l.file.toList.head? = some '/')
    (hparens : parensNest 0 l.file.toList = true) (tag : Option Tag) :
    let decls := DeclTable.build names root
    let spelling := String.ofList (TypeBase.anonymous tag (unnamedAt word l)).spelling
    namedBy decls spelling t = (decls.toList.find? (mayStandAt l)).map (·.id) ∧
      ((∀ id, namedBy decls spelling t = some id → ∃ d, decls.get? id = some d ∧ StandsAt l d) ↔
        ∀ front d back, decls.toList = front ++ d :: back → mayStandAt l d → ¬StandsAt l d →
          ∃ e ∈ front, mayStandAt l e ∧ StandsAt l e) := by
  intro decls spelling
  have hnamed := namedBy_unnamedAt ht word l hword habsolute hparens tag
  have hget {d : DeclInfo} (hd : decls.toList.find? (mayStandAt l) = some d) :
      decls.get? d.id = some d :=
    (DeclTable.consistent_build names root).mem_toList.mp (List.mem_of_find?_eq_some hd)
  refine ⟨hnamed, ?_⟩
  rw [hnamed, ← forall_find?_iff]
  constructor
  · intro h d hd
    obtain ⟨e, he, hstands⟩ := h d.id (by rw [hd]; rfl)
    obtain rfl := Option.some.inj ((hget hd).symm.trans he)
    exact hstands
  · intro h id hid
    obtain ⟨d, hd, rfl⟩ := Option.map_eq_some_iff.mp hid
    exact ⟨d, hget hd, h d hd⟩

/-- A structure without a name in the ninth column of the third line of a file. -/
def unnamedIn (id : NodeId) (file : String) : Node :=
  ⟨id, .decl .record {
    loc := some ⟨some ⟨0, file, 3, 9, 6, none, none, none, false⟩, none⟩,
    tagUsed := some "struct", completeDefinition := some true }, []⟩

/-- Two headers of one name, each with such a structure. -/
def twoHeaders : Node :=
  ⟨⟨1⟩, .decl .translationUnit {}, [unnamedIn ⟨2⟩ "/a/h", unnamedIn ⟨3⟩ "/b/h"]⟩

/-- The first of the two is found for either place. -/
lemma find?_twoHeaders :
    ((DeclTable.build DeclTable.literalNames twoHeaders).toList.find?
        (mayStandAt ⟨"/a/h", 3, 9, 0⟩)).map (·.id) = some ⟨2⟩ ∧
      ((DeclTable.build DeclTable.literalNames twoHeaders).toList.find?
        (mayStandAt ⟨"/b/h", 3, 9, 0⟩)).map (·.id) = some ⟨2⟩ :=
  ⟨by cbv, by cbv⟩

/-- It stands in the first header. -/
lemma location_twoHeaders :
    ((DeclTable.build DeclTable.literalNames twoHeaders).get? ⟨2⟩).map (·.location) =
      some (some ⟨"/a/h", 3, 9, 0⟩) := by
  cbv

/-- The structure of the first header is named by its place. -/
theorem spellingType_unnamedAt_twoHeaders :
    namedBy (.build DeclTable.literalNames twoHeaders) "struct (unnamed struct at /a/h:3:9)" {} =
        some ⟨2⟩ ∧
      ∃ d, (DeclTable.build DeclTable.literalNames twoHeaders).get? ⟨2⟩ = some d ∧
        StandsAt ⟨"/a/h", 3, 9, 0⟩ d := by
  obtain ⟨hnamed, -⟩ := spellingType_unnamedAt DeclTable.literalNames twoHeaders .fresh "struct"
    ⟨"/a/h", 3, 9, 0⟩ (by decide) (by decide) (by decide) (some .struct)
  obtain ⟨d, hd, hlocation⟩ := Option.map_eq_some_iff.mp location_twoHeaders
  exact ⟨hnamed.trans find?_twoHeaders.1, d, hd, _, hlocation, rfl, rfl, rfl⟩

/-- **Headers of one name are taken for each other**: the place of the second structure names the
first. -/
theorem not_forall_standsAt :
    ¬∀ (names : FileNames) (root : Node) (t : TypeTable), Used (.build names root) t →
      ∀ (tag : Option Tag) (word : String) (l : FileLocation),
        Token.isWord word.toList = true → l.file.toList.head? = some '/' →
        parensNest 0 l.file.toList = true →
        ∀ id, namedBy (.build names root)
            (String.ofList (TypeBase.anonymous tag (unnamedAt word l)).spelling) t = some id →
          ∃ d, (DeclTable.build names root).get? id = some d ∧ StandsAt l d := by
  intro h
  have hfresh : Used (.build DeclTable.literalNames twoHeaders) {} := .fresh
  have hnamed := namedBy_unnamedAt hfresh "struct" ⟨"/b/h", 3, 9, 0⟩ (by decide) (by decide)
    (by decide) none
  obtain ⟨d, hd, m, hm, hfile, -⟩ := h DeclTable.literalNames twoHeaders {} .fresh none "struct"
    ⟨"/b/h", 3, 9, 0⟩ (by decide) (by decide) (by decide) ⟨2⟩ (hnamed.trans find?_twoHeaders.2)
  have hlocation := location_twoHeaders
  rw [hd, Option.map_some, hm, Option.some.injEq, Option.some.injEq] at hlocation
  rw [hlocation] at hfile
  exact absurd hfile (by decide)

end TypeTable

end UnitIndex
