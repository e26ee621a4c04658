import Mathlib.Tactic
import UnitIndex.Proofs.Spelling.Rendering

/-!
The specifiers of a written type, read back.

Qualifiers, words of the language and tag keywords are read word by word: each is one token and is
added to what the specifiers have said so far (`ReadsTo.word`). A name is read as a whole
(`path_pathText`), and the first mark behind a base ends the specifiers (`specifiersFrom_stop`). So
the base and the qualifiers come out as they were written (`specifiers_spelling`).
-/

namespace UnitIndex

open Token (lexFrom isWord LeavesWord marks)

/-! ### Qualifiers -/

namespace Qualifiers

/-- The words of the flags set these flags. -/
lemma absorb_words (q : Qualifiers) : q.words.foldlM absorb? {} = some q := by
  rcases q with ⟨_ | _, _ | _, _ | _⟩ <;> rfl

/-- Qualifiers are written as words. -/
lemma isWord_of_mem_words {q : Qualifiers} {w : String} (h : w ∈ q.words) :
    isWord w.toList = true := by
  have hw : w ∈ ["const", "volatile", "restrict"] := by
    revert h
    rcases q with ⟨_ | _, _ | _, _ | _⟩ <;> simp [words] <;> tauto
  have hall : ∀ w ∈ ["const", "volatile", "restrict"], isWord w.toList = true := by decide
  exact hall w hw

/-- Whether a word is a qualifier does not depend on the flags that are set already. -/
lemma absorb?_eq_none {word : String} (h : none.absorb? word = .none) (q : Qualifiers) :
    q.absorb? word = .none := by
  unfold absorb? at h ⊢
  split at h <;> simp_all

end Qualifiers

namespace TypeExpr

variable {b : Bool} {s : Specifiers} {w cs rest g : List Char} {ts : List Token}
  {out : Specifiers × List Token}

/-- Whether the specifiers go on from `s` over the tokens to `out`. -/
def ReadsTo (b : Bool) (s : Specifiers) (ts : List Token) (out : Specifiers × List Token) : Prop :=
  ∀ rounds, ts.length ≤ rounds → specifiersFrom b rounds s ts = some out

/-- A word that belongs to the specifiers. -/
lemma ReadsTo.word (s' : Specifiers) (hw : isWord w = true) (hrest : LeavesWord rest)
    (hstep : specifierWord b s ⟨g, .ident, w⟩ (lexFrom [] rest) = some (some (s', lexFrom [] rest)))
    (h : ReadsTo b s' (lexFrom [] rest) out) : ReadsTo b s (lexFrom g (w ++ rest)) out := by
  intro rounds hrounds
  rw [Token.lexFrom_word hw hrest] at hrounds ⊢
  cases rounds with
  | zero => simp at hrounds
  | succ rounds =>
      have hrest := h rounds (by simpa using hrounds)
      simpa [specifiersFrom, hstep] using hrest

/-- One round of reading specifiers. -/
lemma specifiersFrom_cons (b : Bool) (rounds : ℕ) (s : Specifiers) (t : Token) (ts : List Token) :
    specifiersFrom b (rounds + 1) s (t :: ts) =
      (if t.kind = .ident then specifierWord b s t ts else specifierMark b s t ts).bind fun next =>
        match next with
        | none => some (s, t :: ts)
        | some (s, rest) => specifiersFrom b rounds s rest := by
  rw [specifiersFrom]
  dsimp only
  split <;> rfl

/-- What begins with neither a word nor a template parameter ends the specifiers once they name
something. -/
lemma specifiersFrom_stop (hbase : s.isOpen = false)
    (hts : ∀ t ∈ ts.head?, t.kind ≠ .ident ∧ t.kind ≠ .templateParm) (rounds : ℕ) :
    specifiersFrom b rounds s ts = some (s, ts) := by
  cases rounds with
  | zero => rfl
  | succ rounds =>
      cases ts with
      | nil => rfl
      | cons t ts =>
          obtain ⟨hident, hparm⟩ := hts t rfl
          have hmark : specifierMark b s t ts = some none := by
            rw [specifierMark]
            split <;> simp_all
          simp [specifiersFrom, hident, hmark]

/-- The qualifiers in front of a base. -/
lemma ReadsTo.qualifiers {words : List String} {q : Qualifiers}
    (hwords : ∀ w ∈ words, isWord w.toList = true)
    (hq : words.foldlM Qualifiers.absorb? s.quals = some q)
    (h : ∀ g, ReadsTo b { s with quals := q } (lexFrom g rest) out) (g : List Char) :
    ReadsTo b s (lexFrom g ((words.flatMap fun w => w.toList ++ [' ']) ++ rest)) out := by
  induction words generalizing s g with
  | nil =>
      obtain rfl : s.quals = q := by simpa using hq
      exact h g
  | cons w words ih =>
      obtain ⟨hw, hwords⟩ := List.forall_mem_cons.mp hwords
      obtain ⟨q', hq', hq⟩ := Option.bind_eq_some_iff.mp hq
      rw [List.flatMap_cons, List.append_assoc, List.append_assoc]
      refine ReadsTo.word { s with quals := q' } hw (Token.leavesWord_space _) ?_ ?_
      · simp [specifierWord, Token.word, hq']
      · rw [List.singleton_append, Token.lexFrom_space]
        exact ih (s := { s with quals := q' }) hwords hq h _

/-! ### Bases -/

/-- No word of the language is a qualifier, a tag or an operator. -/
lemma builtinWords_disjoint :
    ∀ w ∈ builtinWords, Qualifiers.none.absorb? w = none ∧ Tag.ofKeyword? w = none ∧
      w ∉ operandWords ∧ w ≠ "__attribute__" ∧ isWord w.toList = true := by
  decide

/-- A word of the language is added to those read so far. -/
lemma specifierWord_builtin {w : String} (hw : w ∈ builtinWords) (hbase : s.base = none)
    (g : List Char) (ts : List Token) :
    specifierWord b s ⟨g, .ident, w.toList⟩ ts =
      some (some ({ s with words := s.words ++ [w] }, ts)) := by
  obtain ⟨hqual, htag, hoperand, hattribute, -⟩ := builtinWords_disjoint w hw
  simp [specifierWord, Token.word, Qualifiers.absorb?_eq_none hqual, htag, hoperand, hattribute, hw,
    hbase]

/-- Words of the language. -/
lemma ReadsTo.builtin {words : List String} (hne : words ≠ [])
    (hwords : ∀ w ∈ words, w ∈ builtinWords) (hbase : s.base = none) (hrest : LeavesWord rest)
    (h : ReadsTo b { s with words := s.words ++ words } (lexFrom [] rest) out) (g : List Char) :
    ReadsTo b s (lexFrom g ((" ".intercalate words).toList ++ rest)) out := by
  induction words generalizing s g with
  | nil => exact absurd rfl hne
  | cons w words ih =>
      obtain ⟨hw, hwords⟩ := List.forall_mem_cons.mp hwords
      obtain ⟨-, -, -, -, hword⟩ := builtinWords_disjoint w hw
      cases words with
      | nil =>
          rw [String.intercalate_singleton]
          exact ReadsTo.word _ hword hrest (specifierWord_builtin hw hbase g _) h
      | cons w' words =>
          rw [Token.intercalate_append]
          refine ReadsTo.word _ hword (Token.leavesWord_space _)
            (specifierWord_builtin hw hbase g _) ?_
          rw [Token.lexFrom_space]
          refine ih (s := { s with words := s.words ++ [w] }) (by simp) hwords hbase ?_ _
          simpa using h

/-! ### Names -/

/-- Whether the tokens do not continue a name. -/
structure EndsName (ts : List Token) : Prop where
  kind_ne_less : ∀ t ∈ ts.head?, t.kind ≠ .less
  not_scope : ∀ sep next rest, ts = sep :: next :: rest → sep.kind = .colonColon →
    next.kind ≠ .ident

/-- What may follow a name that is the base. -/
structure EndsPath (rest : List Char) : Prop where
  leavesWord : LeavesWord rest
  endsName : EndsName (lexFrom [] rest)
  kind_ne : ∀ t ∈ (lexFrom [] rest).head?, t.kind ≠ .ident ∧ t.kind ≠ .templateParm

/-- What may follow a base: a mark, or nothing. -/
structure EndsBase (rest : List Char) : Prop where
  leavesWord : LeavesWord rest
  kind_mem : ∀ t ∈ (lexFrom [] rest).head?, t.kind ∈ Token.markKinds

/-- A mark continues no name. -/
lemma markKinds_apart : ∀ kind ∈ Token.markKinds,
    kind ≠ .less ∧ kind ≠ .colonColon ∧ kind ≠ .ident ∧ kind ≠ .templateParm := by
  decide

/-- What ends a base ends a path. -/
lemma EndsBase.endsPath (h : EndsBase rest) : EndsPath rest where
  leavesWord := h.leavesWord
  endsName :=
    { kind_ne_less := fun t ht => (markKinds_apart _ (h.kind_mem t ht)).1
      not_scope := fun sep next more hcut hsep => by
        have hmem := h.kind_mem sep (by rw [hcut]; rfl)
        exact absurd hsep (markKinds_apart _ hmem).2.1 }
  kind_ne := fun t ht => (markKinds_apart _ (h.kind_mem t ht)).2.2

/-- The last component of a name. -/
lemma path_last {rounds : ℕ} (hw : isKeyword (String.ofList w) = false) (hts : EndsName ts) :
    path b (rounds + 1) (⟨g, .ident, w⟩ :: ts) = some ([⟨String.ofList w, none⟩], ts) := by
  have hword : ¬(String.ofList w = "typename" ∨ String.ofList w = "template") := by
    rintro (h | h) <;> rw [h] at hw <;> exact absurd hw (by decide)
  rcases ts with _ | ⟨sep, _ | ⟨next, rest⟩⟩
  · simp [path, Token.word, hword]
  · simp [path, Token.word, hword, hts.kind_ne_less sep rfl]
  · have hscope : ¬(sep.kind = .colonColon ∧ next.kind = .ident) := fun h =>
      hts.not_scope sep next rest rfl h.1 h.2
    rw [path]
    simp [Token.word, hword, hts.kind_ne_less sep rfl, if_neg hscope]

/-- A component in front of another one. -/
lemma path_cons {rounds : ℕ} {g' w' c : List Char} (hw : isKeyword (String.ofList w) = false) :
    path b (rounds + 1)
        (⟨g, .ident, w⟩ :: ⟨[], .colonColon, c⟩ :: ⟨g', .ident, w'⟩ :: ts) =
      (path b rounds (⟨g', .ident, w'⟩ :: ts)).map fun (more, rest) =>
        (⟨String.ofList w, none⟩ :: more, rest) := by
  have hword : ¬(String.ofList w = "typename" ∨ String.ofList w = "template") := by
    rintro (h | h) <;> rw [h] at hw <;> exact absurd hw (by decide)
  cases hmore : path b rounds (⟨g', .ident, w'⟩ :: ts) <;>
    (rw [path]; simp [Token.word, hword, hmore])

/-- A plain component is its name. -/
lemma spelling_of_plain {n : PathSegment} (hn : n.Plain) : n.spelling = n.name.toList := by
  rw [PathSegment.spelling, hn.args_eq, List.append_nil]

lemma pathText_singleton {n : PathSegment} (hn : n.Plain) : pathText [n] = n.name.toList :=
  List.intercalate_singleton.trans (spelling_of_plain hn)

/-- Between two components there is a separator. -/
lemma pathText_cons_cons (n n' : PathSegment) (names : List PathSegment) :
    pathText (n :: n' :: names) = n.spelling ++ ':' :: ':' :: pathText (n' :: names) := by
  show List.intercalate _ (_ :: _ :: _) = _
  rw [List.intercalate_cons_cons, List.append_assoc]
  rfl

/-- A name begins with the word of its first component. -/
lemma exists_pathText_eq {n : PathSegment} (hn : n.Plain) (names : List PathSegment) :
    ∃ tail, LeavesWord tail ∧ pathText (n :: names) = n.name.toList ++ tail := by
  cases names with
  | nil => exact ⟨[], Token.leavesWord_nil, by rw [pathText_singleton hn, List.append_nil]⟩
  | cons n' names =>
      have htext := pathText_cons_cons n n' names
      rw [spelling_of_plain hn] at htext
      exact ⟨_, LeavesWord.cons (by decide) (by decide) _, htext⟩

/-- A written name is read up to its end. -/
lemma path_pathText {names : List PathSegment} (hne : names ≠ []) (hnames : ∀ n ∈ names, n.Plain)
    (hrest : EndsPath rest) (g : List Char) {rounds : ℕ}
    (hrounds : (lexFrom g (pathText names ++ rest)).length ≤ rounds) :
    path b rounds (lexFrom g (pathText names ++ rest)) = some (names, lexFrom [] rest) := by
  induction names generalizing g rounds with
  | nil => exact absurd rfl hne
  | cons n names ih =>
      obtain ⟨hn, hnames⟩ := List.forall_mem_cons.mp hnames
      have hkey : isKeyword (String.ofList n.name.toList) = false := by
        rw [String.ofList_toList]
        exact hn.not_keyword
      have hself : (⟨String.ofList n.name.toList, none⟩ : PathSegment) = n := by
        rw [String.ofList_toList, ← hn.args_eq]
      cases names with
      | nil =>
          rw [pathText_singleton hn, Token.lexFrom_word hn.isWord hrest.leavesWord] at hrounds ⊢
          cases rounds with
          | zero => simp at hrounds
          | succ rounds => rw [path_last hkey hrest.endsName, hself]
      | cons n' names =>
          have hn' := hnames n' List.mem_cons_self
          obtain ⟨tail, htail, htext⟩ := exists_pathText_eq hn' names
          have hcut := Token.lexFrom_word hn'.isWord (htail.append hrest.leavesWord) []
          -- the separator ends the first word, and a word follows it
          have hcolon : LeavesWord (':' :: ':' :: pathText (n' :: names) ++ rest) :=
            LeavesWord.cons (by decide) (by decide) _
          rw [pathText_cons_cons, spelling_of_plain hn, List.append_assoc,
            Token.lexFrom_word hn.isWord hcolon, List.cons_append, List.cons_append,
            Token.lexFrom_colonColon, htext, List.append_assoc, hcut] at hrounds ⊢
          cases rounds with
          | zero => simp at hrounds
          | succ rounds =>
              rw [path_cons hkey, ← hcut, ← List.append_assoc, ← htext,
                ih (List.cons_ne_nil n' names) hnames [] ?_, Option.map_some, hself]
              rw [htext, List.append_assoc, hcut]
              simp only [List.length_cons] at hrounds ⊢
              omega

/-- A word that is no keyword begins a name. -/
lemma specifierWord_name {n : String} (hkey : isKeyword n = false) (hopen : s.isOpen = true)
    (g : List Char) (ts : List Token) :
    specifierWord b s ⟨g, .ident, n.toList⟩ ts =
      (withPath b s (⟨g, .ident, n.toList⟩ :: ts)).map some := by
  simp only [isKeyword, Bool.or_eq_false_iff, Option.isSome_eq_false_iff, Option.isNone_iff_eq_none,
    decide_eq_false_iff_not] at hkey
  obtain ⟨⟨⟨⟨hqual, htag⟩, hoperand⟩, hbuiltin⟩, hother⟩ := hkey
  have hattribute : n ≠ "__attribute__" := by rintro h; simp [h] at hother
  simp only [specifierWord, Token.word, String.ofList_toList, Qualifiers.absorb?_eq_none hqual,
    htag, hoperand, hattribute, hbuiltin, hopen, if_false, if_true, false_and]
  exact Option.map_eq_bind.symm

/-- A name as the base. -/
lemma ReadsTo.name {names : List PathSegment} (hne : names ≠ []) (hnames : ∀ n ∈ names, n.Plain)
    (hopen : s.isOpen = true) (hrest : EndsPath rest) (g : List Char) :
    ReadsTo b s (lexFrom g (pathText names ++ rest))
      ({ s with base := some (.named s.tag names) }, lexFrom [] rest) := by
  intro rounds hrounds
  obtain ⟨n, names, rfl⟩ := List.exists_cons_of_ne_nil hne
  have hn := hnames n List.mem_cons_self
  obtain ⟨tail, htail, htext⟩ := exists_pathText_eq hn names
  have hcut := Token.lexFrom_word hn.isWord (htail.append hrest.leavesWord) g
  have hread : withPath b s (⟨g, .ident, n.name.toList⟩ :: lexFrom [] (tail ++ rest)) =
      some ({ s with base := some (.named s.tag (n :: names)) }, lexFrom [] rest) := by
    rw [← hcut, ← List.append_assoc, ← htext, withPath, qualifiedPath,
      path_pathText hne hnames hrest g le_rfl]
    rfl
  have hstep := specifierWord_name (b := b) hn.not_keyword hopen g (lexFrom [] (tail ++ rest))
  rw [hread, Option.map_some] at hstep
  rw [htext, List.append_assoc, hcut] at hrounds ⊢
  cases rounds with
  | zero => simp at hrounds
  | succ rounds =>
      -- the next round finds no specifier
      have hstop := specifiersFrom_stop (b := b)
        (s := { s with base := some (.named s.tag (n :: names)) }) (by simp [Specifiers.isOpen])
        hrest.kind_ne rounds
      simpa [specifiersFrom, hstep] using hstop

/-! ### All specifiers -/

/-- Tags are written as words. -/
lemma isWord_keyword (tag : Tag) : isWord tag.keyword.toList = true := by
  cases tag <;> decide

/-- A tag keyword in front of a name. -/
lemma ReadsTo.tag {tag : Option Tag} (htag : s.tag = none)
    (h : ∀ g, ReadsTo b { s with tag := tag } (lexFrom g rest) out) (g : List Char) :
    ReadsTo b s (lexFrom g (Tag.spelling tag ++ rest)) out := by
  cases tag with
  | none =>
      have hs : { s with tag := none } = s := by rw [← htag]
      rw [hs] at h
      exact h g
  | some tag =>
      rw [Tag.spelling, List.append_assoc]
      refine ReadsTo.word { s with tag := some tag } (isWord_keyword tag)
        (Token.leavesWord_space _) ?_ ?_
      · cases tag <;>
          simp [specifierWord, Token.word, Qualifiers.absorb?, Tag.ofKeyword?, Tag.keyword]
      · rw [List.singleton_append, Token.lexFrom_space]
        exact h _

/-- The specifiers are over when no other one is read. -/
lemma ReadsTo.specifiers {ts' : List Token} {named : TypeBase × Qualifiers}
    (h : ReadsTo b {} ts (s, ts')) (hs : s.result? = some named) :
    specifiers b ts = some (named, ts') := by
  simp [TypeExpr.specifiers, h _ le_rfl, hs]

/-- **The specifiers of a written type are read back** in front of a mark. -/
lemma specifiers_spelling {base : TypeBase} (hbase : base.Plain) (quals : Qualifiers)
    (hrest : EndsBase rest) (g : List Char) :
    specifiers b (lexFrom g (quals.spelling ++ base.spelling ++ rest)) =
      some ((base, quals), lexFrom [] rest) := by
  rw [List.append_assoc]
  -- the qualifiers come first, whatever the base is
  have hquals (out : Specifiers × List Token)
      (h : ∀ g, ReadsTo b { quals := quals } (lexFrom g (base.spelling ++ rest)) out) :
      ReadsTo b {} (lexFrom g (quals.spelling ++ (base.spelling ++ rest))) out :=
    ReadsTo.qualifiers (fun _ => Qualifiers.isWord_of_mem_words) quals.absorb_words h g
  cases hbase with
  | @builtin words hne hwords =>
      refine ReadsTo.specifiers (s := { quals := quals, words := words }) (hquals _ fun g => ?_) ?_
      · refine ReadsTo.builtin hne hwords rfl hrest.leavesWord ?_ g
        exact fun rounds _ =>
          specifiersFrom_stop (by simp [Specifiers.isOpen, hne]) hrest.endsPath.kind_ne rounds
      · simp [Specifiers.result?, hne]
  | @named tag names hne hnames =>
      refine ReadsTo.specifiers
        (s := { quals := quals, tag := tag, base := some (.named tag names) })
        (hquals _ fun g => ?_) rfl
      rw [TypeBase.spelling, List.append_assoc]
      exact ReadsTo.tag rfl (fun g => ReadsTo.name hne hnames rfl hrest.endsPath g) g

/-- A base begins with a word. -/
lemma exists_base_eq {base : TypeBase} (hbase : base.Plain) :
    ∃ w tail, isWord w = true ∧ LeavesWord tail ∧ base.spelling = w ++ tail := by
  cases hbase with
  | @builtin words hne hwords =>
      obtain ⟨w, words, rfl⟩ := List.exists_cons_of_ne_nil hne
      obtain ⟨-, -, -, -, hw⟩ := builtinWords_disjoint w (hwords w List.mem_cons_self)
      cases words with
      | nil =>
          refine ⟨w.toList, [], hw, Token.leavesWord_nil, ?_⟩
          rw [TypeBase.spelling, String.intercalate_singleton, List.append_nil]
      | cons w' words =>
          have htext := Token.intercalate_append w w' words []
          rw [List.append_nil] at htext
          exact ⟨w.toList, _, hw, Token.leavesWord_space _, htext⟩
  | @named tag names hne hnames =>
      obtain ⟨n, names, rfl⟩ := List.exists_cons_of_ne_nil hne
      have hn := hnames n List.mem_cons_self
      cases tag with
      | none =>
          obtain ⟨tail, htail, htext⟩ := exists_pathText_eq hn names
          exact ⟨n.name.toList, tail, hn.isWord, htail, htext⟩
      | some tag =>
          refine ⟨tag.keyword.toList, ' ' :: pathText (n :: names), isWord_keyword tag,
            Token.leavesWord_space _, ?_⟩
          rw [TypeBase.spelling, Tag.spelling, List.append_assoc, List.singleton_append]

/-- So do the specifiers, whatever their qualifiers. -/
lemma exists_specifiers_eq {base : TypeBase} (hbase : base.Plain) (quals : Qualifiers) :
    ∃ w tail, isWord w = true ∧ LeavesWord tail ∧ quals.spelling ++ base.spelling = w ++ tail := by
  rw [Qualifiers.spelling]
  cases hwords : quals.words with
  | nil => exact exists_base_eq hbase
  | cons w words =>
      have hw : w ∈ quals.words := hwords ▸ List.mem_cons_self
      refine ⟨w.toList, ' ' :: ((words.flatMap fun w => w.toList ++ [' ']) ++ base.spelling),
        Qualifiers.isWord_of_mem_words hw, Token.leavesWord_space _, ?_⟩
      rw [List.flatMap_cons, List.append_assoc, List.append_assoc, List.singleton_append]

end TypeExpr

end UnitIndex
