import Mathlib.Tactic
import UnitIndex.Proofs.Spelling.Cursor
import UnitIndex.Proofs.Spelling.Lexing

/-!
Cutting a text into its longest matches.

`Spells` is the rule of each kind of token, by itself, and `Longest` says of a word at the front of
a text that no rule matches more of it. Each token of a text is the longest match where it stands
(`longest_munch`), and there is only one such match (`Longest.unique`).

No rule matches a blank. So a match that is the longest in front of something is also the longest in
front of a blank (`Longest.before`), whatever has to be told apart inside of it, and that is why
tokens keep their kinds when blanks are put between them (`lex_partition`).
-/

namespace UnitIndex.Token

open UnitIndex.TypeExpr.Checked (bytes_append bytes_cons map_spans)

variable {w w' cs text : List Char} {c : Char} {kind kind' : TokenKind}

/-! ### Rules -/

/-- The kinds of tokens that are spelled in one way only. -/
def signs : List (TokenKind × List Char) :=
  [(.colonColon, [':', ':']), (.colon, [':']), (.less, ['<']), (.greater, ['>']), (.lparen, ['(']),
    (.rparen, [')']), (.lbracket, ['[']), (.rbracket, [']']), (.star, ['*']),
    (.ampAmp, ['&', '&']), (.amp, ['&']), (.caret, ['^']), (.comma, [',']),
    (.ellipsis, ['.', '.', '.'])]

/-- What a token of each kind may look like. -/
inductive Spells : TokenKind → List Char → Prop
  | templateParm {depth index : List Char} : depth ≠ [] → (∀ c ∈ depth, c.isDigit) →
      index ≠ [] → (∀ c ∈ index, c.isDigit) →
      Spells .templateParm ("type-parameter-".toList ++ (depth ++ '-' :: index))
  | ident {c : Char} {cs : List Char} : isIdentStart c → (∀ d ∈ cs, isIdentRest d) →
      Spells .ident (c :: cs)
  | number {c : Char} {cs : List Char} : c.isDigit → (∀ d ∈ cs, isNumberRest d) →
      Spells .number (c :: cs)
  | sign {kind : TokenKind} {w : List Char} : (kind, w) ∈ signs → Spells kind w
  /-- Any character but a blank. -/
  | unknown {c : Char} : isGap c = false → Spells .unknown [c]

/-- The word at the front of the text is its longest match: no rule matches more, and any other that
matches as much is the one for all characters, which gives way to the others. -/
structure Longest (kind : TokenKind) (w text : List Char) : Prop where
  spells : Spells kind w
  front : w <+: text
  best : ∀ {kind' : TokenKind} {w' : List Char}, Spells kind' w' → w' <+: text →
    w'.length ≤ w.length ∧ (w'.length = w.length → kind' = kind ∨ kind' = .unknown)

/-- A text has one longest match. -/
lemma Longest.unique (h : Longest kind w text) (h' : Longest kind' w' text) :
    kind' = kind ∧ w' = w := by
  obtain ⟨hle, hkind⟩ := h.best h'.spells h'.front
  obtain ⟨hge, hkind'⟩ := h'.best h.spells h.front
  have hlength := le_antisymm hle hge
  refine ⟨?_, (List.prefix_of_prefix_length_le h'.front h.front hle).eq_of_length hlength⟩
  rcases hkind hlength with rfl | rfl
  · rfl
  · exact (hkind' hlength.symm).elim Eq.symm Eq.symm

/-- Signs are made of characters that stand neither in words nor in numbers nor between tokens. -/
lemma mem_sign (hsign : (kind, w) ∈ signs) :
    ∀ c ∈ w, isGap c = false ∧ isIdentStart c = false ∧ c.isDigit = false := by
  have hall : signs.all fun s => s.2.all fun c => !isGap c && !isIdentStart c && !c.isDigit := by
    decide
  simpa [and_assoc] using List.all_eq_true.mp hall _ hsign

/-- No rule matches a blank. -/
lemma Spells.isGap_eq_false (h : Spells kind w) : ∀ c ∈ w, isGap c = false := by
  have hdigit {c : Char} : c.isDigit → isGap c = false := Token.isGap_eq_false (by decide)
  cases h with
  | templateParm _ hdepth _ hindex =>
      have hmark : ∀ c ∈ "type-parameter-".toList, isGap c = false :=
        forall_mem_of_all (by decide)
      simp only [List.mem_append, List.mem_cons]
      rintro c (hc | hc | rfl | hc)
      · exact hmark c hc
      · exact hdigit (hdepth c hc)
      · rfl
      · exact hdigit (hindex c hc)
  | ident hstart hrest =>
      refine List.forall_mem_cons.mpr ⟨Token.isGap_eq_false (by decide) hstart, fun c hc => ?_⟩
      exact Token.isGap_eq_false (by decide) (hrest c hc)
  | number hdigits hrest =>
      refine List.forall_mem_cons.mpr ⟨hdigit hdigits, fun c hc => ?_⟩
      exact Token.isGap_eq_false (by decide) (hrest c hc)
  | sign hsign => exact fun c hc => (mem_sign hsign c hc).1
  | unknown hc => exact List.forall_mem_singleton.mpr hc

/-- Nothing is matched by no characters. -/
lemma Spells.ne_nil (h : Spells kind w) : w ≠ [] := by
  cases h with
  | templateParm => simp
  | ident | number | unknown => exact List.cons_ne_nil _ _
  | sign hsign =>
      have hall : ∀ s ∈ signs, s.2 ≠ [] := by decide
      exact hall _ hsign

/-- **The longest match stays what it is** when what follows gives way to a blank, or to nothing. -/
lemma Longest.before (h : Longest kind w text) {rest : List Char}
    (hrest : ∀ c ∈ rest.head?, isGap c) : Longest kind w (w ++ rest) where
  spells := h.spells
  front := List.prefix_append w rest
  best := by
    intro kind' w' hspells hw'
    refine h.best hspells ?_
    -- a match that went on behind `w` would contain the blank
    suffices hshort : w' <+: w from hshort.trans h.front
    obtain ⟨behind, htext⟩ := hw'
    rcases List.append_eq_append_iff.mp htext with ⟨more, rfl, -⟩ | ⟨more, rfl, rfl⟩
    · exact List.prefix_append w' more
    · cases more with
      | nil => simp
      | cons d more =>
          have hblank := hrest d rfl
          rw [hspells.isGap_eq_false d (by simp)] at hblank
          exact absurd hblank Bool.false_ne_true

/-! ### Template parameters -/

/-- Characters of a class at the front are among those that are taken. -/
lemma length_le_takeWhile {p : Char → Bool} (hw : ∀ c ∈ w, p c) (hfront : w <+: cs) :
    w.length ≤ (cs.takeWhile p).length := by
  obtain ⟨behind, rfl⟩ := hfront
  rw [List.takeWhile_append_of_pos hw, List.length_append]
  exact Nat.le_add_right _ _

/-- What is behind a mark is found. -/
lemma after?_append (mark cs : List Char) : after? mark (mark ++ cs) = some cs := by
  induction mark with
  | nil => rfl
  | cons m mark ih => rw [List.cons_append, after?, if_pos rfl, ih]

/-- A template parameter is recognized, with all digits that follow. -/
lemma templateParmLength?_mark {depth : List Char} (hdepth : depth ≠ [])
    (hdigits : ∀ c ∈ depth, c.isDigit) (hindex : cs.takeWhile Char.isDigit ≠ []) :
    templateParmLength? ("type-parameter-".toList ++ (depth ++ '-' :: cs)) =
      some ("type-parameter-".toList.length + depth.length + 1 +
        (cs.takeWhile Char.isDigit).length) := by
  have hdash : ∀ c ∈ ('-' :: cs).head?, c.isDigit = false := by
    rintro c ⟨⟩
    rfl
  have hbehind : after? ['-'] ('-' :: cs) = some cs := after?_append ['-'] cs
  rw [templateParmLength?]
  dsimp only
  rw [after?_append]
  simp only [Option.bind_eq_bind, Option.bind_some, Text.takeWhile_append_stop hdigits hdash,
    Text.dropWhile_append_stop hdigits hdash, hbehind, List.isEmpty_eq_false_iff.mpr hdepth,
    List.isEmpty_eq_false_iff.mpr hindex]
  rfl

/-- What is recognized as a template parameter is one. -/
lemma spells_of_templateParmLength? {n : ℕ} (h : templateParmLength? cs = some n) :
    Spells .templateParm (cs.take n) := by
  simp only [templateParmLength?, Option.bind_eq_bind, Option.bind_eq_some_iff] at h
  obtain ⟨behind, hbehind, behind', hbehind', h⟩ := h
  split at h
  · cases h
  · next hsome =>
    rw [Bool.or_eq_true, not_or, List.isEmpty_iff, List.isEmpty_iff] at hsome
    have hdepth := List.takeWhile_append_dropWhile (p := Char.isDigit) (l := behind)
    have hindex := List.takeWhile_append_dropWhile (p := Char.isDigit) (l := behind')
    rw [eq_append_of_after? hbehind', ← hindex, List.singleton_append] at hdepth
    rw [eq_append_of_after? hbehind, ← hdepth, ← Option.some.inj h]
    -- the mark, the depth, a dash and the index, and then the rest
    have htext : "type-parameter-".toList ++ (behind.takeWhile Char.isDigit ++
        '-' :: (behind'.takeWhile Char.isDigit ++ behind'.dropWhile Char.isDigit)) =
        "type-parameter-".toList ++ (behind.takeWhile Char.isDigit ++
          '-' :: behind'.takeWhile Char.isDigit) ++ behind'.dropWhile Char.isDigit := by simp
    rw [htext, List.take_left']
    · exact .templateParm hsome.1 (fun c => List.mem_takeWhile_imp) hsome.2
        fun c => List.mem_takeWhile_imp
    · simp only [List.length_append, List.length_cons]
      omega

/-- A template parameter at the front of a text is recognized, and no less than that. -/
lemma Spells.exists_templateParmLength? (h : Spells .templateParm w) (hfront : w <+: cs) :
    ∃ n, templateParmLength? cs = some n ∧ w.length ≤ n := by
  cases h with
  | @templateParm depth index hdepth hdepths hindex hindexes =>
      obtain ⟨behind, rfl⟩ := hfront
      have htake : (index ++ behind).takeWhile Char.isDigit =
          index ++ behind.takeWhile Char.isDigit := List.takeWhile_append_of_pos hindexes
      have hdigits : (index ++ behind).takeWhile Char.isDigit ≠ [] := by simp [htake, hindex]
      have hsome := templateParmLength?_mark hdepth hdepths hdigits
      rw [List.append_assoc, List.append_assoc, List.cons_append]
      refine ⟨_, hsome, ?_⟩
      rw [htake]
      simp only [List.length_append, List.length_cons]
      omega
  | sign hsign => exact absurd hsign (by simp [signs])

/-! ### The match at the front of a text -/

/-- A letter begins identifiers and template parameters. -/
lemma Spells.of_isIdentStart (h : Spells kind (c :: w)) (hc : isIdentStart c) :
    kind = .templateParm ∨ kind = .ident ∧ (∀ d ∈ w, isIdentRest d) ∨ kind = .unknown ∧ w = [] := by
  generalize hw : c :: w = w' at h
  cases h with
  | templateParm => exact .inl rfl
  | ident _ hrest =>
      obtain ⟨rfl, rfl⟩ := List.cons.inj hw
      exact .inr (.inl ⟨rfl, hrest⟩)
  | number hdigit =>
      obtain ⟨rfl, rfl⟩ := List.cons.inj hw
      exact absurd hc (by simp [isIdentStart_of_isDigit hdigit])
  | sign hsign =>
      have hno := (mem_sign hsign c (hw ▸ List.mem_cons_self)).2.1
      exact absurd hc (Bool.eq_false_iff.mp hno)
  | unknown =>
      obtain ⟨rfl, rfl⟩ := List.cons.inj hw
      exact .inr (.inr ⟨rfl, rfl⟩)

/-- A digit begins numbers. -/
lemma Spells.of_isDigit (h : Spells kind (c :: w)) (hc : c.isDigit) :
    kind = .number ∧ (∀ d ∈ w, isNumberRest d) ∨ kind = .unknown ∧ w = [] := by
  generalize hw : c :: w = w' at h
  cases h with
  | templateParm =>
      obtain ⟨rfl, -⟩ := List.cons.inj hw
      exact absurd hc (by decide)
  | ident hstart =>
      obtain ⟨rfl, rfl⟩ := List.cons.inj hw
      exact absurd hstart (by simp [isIdentStart_of_isDigit hc])
  | number _ hrest =>
      obtain ⟨rfl, rfl⟩ := List.cons.inj hw
      exact .inl ⟨rfl, hrest⟩
  | sign hsign =>
      have hno := (mem_sign hsign c (hw ▸ List.mem_cons_self)).2.2
      exact absurd hc (Bool.eq_false_iff.mp hno)
  | unknown =>
      obtain ⟨rfl, rfl⟩ := List.cons.inj hw
      exact .inr ⟨rfl, rfl⟩

/-- What is neither begins signs. -/
lemma Spells.of_sign (h : Spells kind (c :: w)) (hstart : isIdentStart c = false)
    (hdigit : c.isDigit = false) : (kind, c :: w) ∈ signs ∨ kind = .unknown ∧ w = [] := by
  generalize hw : c :: w = w' at h
  cases h with
  | templateParm =>
      obtain ⟨rfl, -⟩ := List.cons.inj hw
      exact absurd hstart (by decide)
  | ident hident =>
      obtain ⟨rfl, rfl⟩ := List.cons.inj hw
      simp [hident] at hstart
  | number hnumber =>
      obtain ⟨rfl, rfl⟩ := List.cons.inj hw
      simp [hnumber] at hdigit
  | sign hsign => exact .inl hsign
  | unknown =>
      obtain ⟨rfl, rfl⟩ := List.cons.inj hw
      exact .inr ⟨rfl, rfl⟩

/-- A word that is spelled by rule is the longest match if no rule spells a longer one. -/
lemma Longest.of_cons (hspells : Spells kind (c :: w)) (hfront : w <+: cs)
    (hbest : ∀ {kind' w'}, Spells kind' (c :: w') → w' <+: cs →
      w'.length ≤ w.length ∧ (w'.length = w.length → kind' = kind ∨ kind' = .unknown)) :
    Longest kind (c :: w) (c :: cs) where
  spells := hspells
  front := List.prefix_cons_inj c |>.mpr hfront
  best := by
    intro kind' w' hspells' hw'
    obtain ⟨d, w', rfl⟩ := List.exists_cons_of_ne_nil hspells'.ne_nil
    obtain ⟨rfl, hfront⟩ := List.cons_prefix_cons.mp hw'
    simpa using hbest hspells' hfront

/-- There is a dash in every template parameter. -/
lemma Spells.dash_mem (h : Spells .templateParm (c :: w)) : '-' ∈ w := by
  generalize hw : c :: w = w' at h
  cases h with
  | templateParm =>
      obtain ⟨-, rfl⟩ := List.cons.inj hw
      simp
  | sign hsign => exact absurd hsign (by simp [signs])

/-- The name of a template parameter is the longest match, in front of the word it would be. -/
lemma longest_templateParm {n : ℕ} (hstart : isIdentStart c)
    (hn : templateParmLength? (c :: cs) = some n) :
    Longest .templateParm (c :: cs.take (n - 1)) (c :: cs) := by
  have hspells := spells_of_templateParmLength? hn
  have hle := templateParmLength?_le hn
  obtain ⟨m, rfl⟩ : ∃ m, n = m + 1 := by
    cases n with
    | zero => exact absurd rfl hspells.ne_nil
    | succ m => exact ⟨m, rfl⟩
  rw [List.length_cons, Nat.add_le_add_iff_right] at hle
  rw [Nat.add_sub_cancel]
  refine .of_cons hspells (List.take_prefix m cs) fun {kind' w'} hspells' hw' => ?_
  rw [List.length_take_of_le hle]
  rcases hspells'.of_isIdentStart hstart with rfl | ⟨rfl, hrest⟩ | ⟨rfl, rfl⟩
  · obtain ⟨m', hm', hlonger⟩ := hspells'.exists_templateParmLength?
      (List.cons_prefix_cons.mpr ⟨rfl, hw'⟩)
    obtain rfl := Option.some.inj (hn.symm.trans hm')
    exact ⟨Nat.le_of_succ_le_succ hlonger, fun _ => .inl rfl⟩
  · -- an identifier ends at the dash
    have hshorter : w'.length < m := by
      by_contra hlonger
      have hinside : cs.take m <+: w' :=
        List.prefix_of_prefix_length_le (List.take_prefix m cs) hw'
          (by rw [List.length_take_of_le hle]; omega)
      exact absurd (hrest '-' (hinside.subset hspells.dash_mem)) (by decide)
    exact ⟨hshorter.le, fun h => absurd h hshorter.ne⟩
  · exact ⟨Nat.zero_le m, fun _ => .inr rfl⟩

/-- A word goes as far as its characters do. -/
lemma longest_ident (hstart : isIdentStart c) (hnone : templateParmLength? (c :: cs) = none) :
    Longest .ident (c :: cs.takeWhile isIdentRest) (c :: cs) := by
  refine .of_cons (.ident hstart fun d => List.mem_takeWhile_imp) (List.takeWhile_prefix _)
    fun {kind' w'} hspells' hw' => ?_
  rcases hspells'.of_isIdentStart hstart with rfl | ⟨rfl, hrest⟩ | ⟨rfl, rfl⟩
  · obtain ⟨n, hn, -⟩ := hspells'.exists_templateParmLength?
      (List.cons_prefix_cons.mpr ⟨rfl, hw'⟩)
    simp [hnone] at hn
  · exact ⟨length_le_takeWhile hrest hw', fun _ => .inl rfl⟩
  · exact ⟨Nat.zero_le _, fun _ => .inr rfl⟩

lemma longest_number (hdigit : c.isDigit) :
    Longest .number (c :: cs.takeWhile isNumberRest) (c :: cs) := by
  refine .of_cons (.number hdigit fun d => List.mem_takeWhile_imp) (List.takeWhile_prefix _)
    fun {kind' w'} hspells' hw' => ?_
  rcases hspells'.of_isDigit hdigit with ⟨rfl, hrest⟩ | ⟨rfl, rfl⟩
  · exact ⟨length_le_takeWhile hrest hw', fun _ => .inl rfl⟩
  · exact ⟨Nat.zero_le _, fun _ => .inr rfl⟩

/-- A colon or an ampersand of which no second one is taken. -/
lemma munch_undoubled (hc : (kind, c) ∈ [(.colon, ':'), (TokenKind.amp, '&')])
    (h : (munch c cs).2 = 0) : (munch c cs).1 = kind := by
  simp only [List.mem_cons, Prod.mk.injEq, List.not_mem_nil, or_false] at hc
  cases cs with
  | nil => rcases hc with ⟨rfl, rfl⟩ | ⟨rfl, rfl⟩ <;> rfl
  | cons d cs =>
      by_cases hd : d = c
      · subst hd
        rcases hc with ⟨rfl, rfl⟩ | ⟨rfl, rfl⟩ <;> exact absurd (show 1 = 0 from h) Nat.one_ne_zero
      · rcases hc with ⟨rfl, rfl⟩ | ⟨rfl, rfl⟩ <;> simp [munch, isIdentStart, hd]

/-- A sign that stands in a text is no longer than what is taken there, and the same if it is as
long. -/
lemma length_le_munch (hsign : (kind, c :: w) ∈ signs) (hfront : w <+: cs) :
    w.length ≤ (munch c cs).2 ∧ (w.length = (munch c cs).2 → kind = (munch c cs).1) := by
  obtain ⟨behind, rfl⟩ := hfront
  simp only [signs, List.mem_cons, Prod.mk.injEq, List.cons.injEq, List.not_mem_nil, or_false]
    at hsign
  rcases hsign with ⟨rfl, rfl, rfl⟩ | ⟨rfl, rfl, rfl⟩ | ⟨rfl, rfl, rfl⟩ | ⟨rfl, rfl, rfl⟩ |
    ⟨rfl, rfl, rfl⟩ | ⟨rfl, rfl, rfl⟩ | ⟨rfl, rfl, rfl⟩ | ⟨rfl, rfl, rfl⟩ | ⟨rfl, rfl, rfl⟩ |
    ⟨rfl, rfl, rfl⟩ | ⟨rfl, rfl, rfl⟩ | ⟨rfl, rfl, rfl⟩ | ⟨rfl, rfl, rfl⟩ | ⟨rfl, rfl, rfl⟩
  case inr.inl => exact ⟨Nat.zero_le _, fun h => (munch_undoubled (by decide) h.symm).symm⟩
  case inr.inr.inr.inr.inr.inr.inr.inr.inr.inr.inl =>
    exact ⟨Nat.zero_le _, fun h => (munch_undoubled (by decide) h.symm).symm⟩
  all_goals exact ⟨le_rfl, fun _ => rfl⟩

/-- What is taken where neither a letter nor a digit stands is spelled by rule. -/
lemma spells_munch (hgap : isGap c = false) (hstart : isIdentStart c = false)
    (hdigit : c.isDigit = false) (cs : List Char) :
    Spells (munch c cs).1 (c :: cs.take (munch c cs).2) := by
  unfold munch
  rw [if_neg (by simp [hstart]), if_neg (by simp [hdigit])]
  split
  case h_15 => exact .unknown hgap
  all_goals exact .sign (by simp [signs])

/-- **Each token is the longest match where it stands.** -/
lemma longest_munch (hgap : isGap c = false) (cs : List Char) :
    Longest (munch c cs).1 (c :: cs.take (munch c cs).2) (c :: cs) := by
  have htake (p : Char → Bool) : cs.take (cs.takeWhile p).length = cs.takeWhile p :=
    (List.prefix_iff_eq_take.mp (List.takeWhile_prefix p)).symm
  cases hstart : isIdentStart c with
  | true =>
      unfold munch
      rw [if_pos hstart]
      split
      · next n hn => exact longest_templateParm hstart hn
      · next hnone =>
        rw [htake]
        exact longest_ident hstart hnone
  | false =>
      cases hdigit : c.isDigit with
      | true =>
          unfold munch
          rw [if_neg (by simp [hstart]), if_pos hdigit, htake]
          exact longest_number hdigit
      | false =>
          refine .of_cons (spells_munch hgap hstart hdigit cs) (List.take_prefix _ _)
            fun {kind' w'} hspells' hw' => ?_
          rw [List.length_take_of_le (munch_le_length c cs)]
          -- neither a letter nor a digit: a sign, or a character that is not known
          rcases hspells'.of_sign hstart hdigit with hsign | ⟨rfl, rfl⟩
          · obtain ⟨hle, hkind⟩ := length_le_munch hsign hw'
            exact ⟨hle, fun h => .inl (hkind h)⟩
          · exact ⟨Nat.zero_le _, fun _ => .inr rfl⟩

/-- **A longest match is cut off as it is** in front of a blank, and at the end. -/
lemma lexFrom_longest (h : Longest kind w text) {rest : List Char}
    (hrest : ∀ c ∈ rest.head?, isGap c) (g : List Char) :
    lexFrom g (w ++ rest) = ⟨g, kind, w⟩ :: lexFrom [] rest := by
  obtain ⟨c, w, rfl⟩ := List.exists_cons_of_ne_nil h.spells.ne_nil
  have hgap := h.spells.isGap_eq_false c List.mem_cons_self
  obtain ⟨hkind, hw⟩ := (longest_munch hgap (w ++ rest)).unique (h.before hrest)
  rw [List.cons.injEq] at hw
  have hlength := congrArg List.length hw.2
  rw [List.length_take_of_le (munch_le_length c _)] at hlength
  have hmunch : munch c (w ++ rest) = (kind, w.length) := Prod.ext hkind.symm hlength.symm
  rw [List.cons_append, lexFrom_cons hgap hmunch, List.take_left, List.drop_left]

/-! ### Where tokens stand -/

/-- A character of two texts is in the first one or in the second. -/
lemma append_eq_append_cons {l₁ l₂ front back : List Char}
    (h : l₁ ++ l₂ = front ++ c :: back) :
    (∃ more, l₁ = front ++ c :: more) ∨ ∃ more, front = l₁ ++ more ∧ l₂ = more ++ c :: back := by
  rcases List.append_eq_append_iff.mp h with ⟨more, rfl, rfl⟩ | ⟨more, rfl, hback⟩
  · exact .inr ⟨more, rfl, rfl⟩
  · cases more with
    | nil => exact .inr ⟨[], by simp, hback.symm⟩
    | cons d more =>
        obtain ⟨rfl, -⟩ := List.cons.inj hback
        exact .inl ⟨more, rfl⟩

/-- No span begins before the first byte. -/
lemma le_of_mem_spans {n : ℕ} {ts : List Token} :
    ∀ span ∈ spans n ts, n ≤ span.2.1 := by
  induction ts generalizing n with
  | nil => simp [spans]
  | cons t ts ih =>
      rw [spans, List.forall_mem_cons]
      refine ⟨Nat.le_add_right _ _, fun span hspan => ?_⟩
      have hle := ih span hspan
      omega

/-- Tokens follow one another. -/
lemma pairwise_spans (n : ℕ) (ts : List Token) :
    (spans n ts).Pairwise fun a b => a.2.2 ≤ b.2.1 := by
  induction ts generalizing n with
  | nil => exact List.Pairwise.nil
  | cons t ts ih => exact List.Pairwise.cons (fun span hspan => le_of_mem_spans span hspan) (ih _)

/-- A token stands where its bytes say, and is the longest match there. -/
lemma exists_of_mem_spans {g cs : List Char} {n : ℕ} {span : Token × ℕ × ℕ}
    (h : span ∈ spans n (lexFrom g cs)) :
    ∃ front back, g ++ cs = front ++ span.1.text ++ back ∧ span.2.1 = n + bytes front ∧
      span.2.2 = n + bytes (front ++ span.1.text) ∧
      Longest span.1.kind span.1.text (span.1.text ++ back) := by
  fun_induction lexFrom g cs generalizing n with
  | case1 g => simp [spans] at h
  | case2 g c cs hc ih => simpa using ih h
  | case3 g c cs hc kind m hmunch ih =>
      have hlongest := longest_munch (by simpa using hc) cs
      rw [hmunch] at hlongest
      rw [spans] at h
      -- the first token, or one further on, where the text in front has to be put back
      rcases List.mem_cons.mp h with rfl | h
      · refine ⟨g, cs.drop m, by simp, rfl, ?_, by simpa using hlongest⟩
        simp [Nat.add_assoc]
      · obtain ⟨front, back, htext, hstart, hstop, hback⟩ := ih h
        rw [List.nil_append] at htext
        refine ⟨g ++ (c :: cs.take m) ++ front, back, ?_, ?_, ?_, hback⟩
        · calc g ++ c :: cs = g ++ (c :: cs.take m) ++ cs.drop m := by simp
            _ = g ++ (c :: cs.take m) ++ front ++ span.1.text ++ back := by
              rw [htext]
              simp only [List.append_assoc]
        · rw [hstart]
          simp only [bytes_append]
          omega
        · rw [hstop]
          simp only [bytes_append]
          omega

/-- **Tokens cover what is not blank**, and nothing else. -/
lemma isGap_eq_false_iff {g cs front back : List Char} {n : ℕ} (hg : ∀ d ∈ g, isGap d)
    (h : g ++ cs = front ++ c :: back) :
    isGap c = false ↔
      ∃ span ∈ spans n (lexFrom g cs), span.2.1 ≤ n + bytes front ∧ n + bytes front < span.2.2 := by
  fun_induction lexFrom g cs generalizing n front with
  | case1 g =>
      have hc : isGap c := hg c (by rw [← List.append_nil g, h]; simp)
      simp [spans, hc]
  | case2 g d cs hd ih =>
      have hgap : ∀ e ∈ g ++ [d], isGap e := by simpa [or_imp, forall_and] using ⟨hg, hd⟩
      exact ih hgap (by simpa using h)
  | case3 g d cs hd kind m hmunch ih =>
      have hlongest := longest_munch (by simpa using hd) cs
      rw [hmunch] at hlongest
      rw [spans]
      have htext : g ++ ((d :: cs.take m) ++ cs.drop m) = front ++ c :: back := by simpa using h
      have hpos := c.utf8Size_pos
      -- the character stands in front of the token, in it, or behind it
      rcases append_eq_append_cons htext with ⟨more, rfl⟩ | ⟨behind, rfl, hbehind⟩
      · have hc : isGap c := hg c (by simp)
        refine iff_of_false (by simp [hc]) ?_
        rintro ⟨span, hspan, hle, -⟩
        have hstart : n + bytes (front ++ c :: more) ≤ span.2.1 := by
          rcases List.mem_cons.mp hspan with rfl | hspan
          · exact le_rfl
          · exact (Nat.le_add_right _ _).trans (le_of_mem_spans span hspan)
        rw [bytes_append, bytes_cons] at hstart
        omega
      rcases append_eq_append_cons hbehind with ⟨more, hword⟩ | ⟨rest, rfl, hrest⟩
      · have hc : isGap c = false := hlongest.spells.isGap_eq_false c (by rw [hword]; simp)
        refine iff_of_true hc ⟨_, List.mem_cons_self, ?_, ?_⟩
        · simp only [bytes_append]
          omega
        · simp only [hword, bytes_append, bytes_cons]
          omega
      · rw [ih (n := n + (bytes g + bytes (d :: cs.take m))) (by simp) hrest,
          List.exists_mem_cons_iff]
        simp only [bytes_append, Nat.add_assoc]
        rw [or_iff_right]
        omega

/-- The kinds and texts of tokens are found again where single spaces stand between them. -/
lemma map_lexFrom_intercalate {ts : List Token}
    (h : ∀ t ∈ ts, ∃ text, Longest t.kind t.text text) (g : List Char) :
    (lexFrom g (" ".intercalate (ts.map word)).toList).map (fun t => (t.kind, t.text)) =
      ts.map fun t => (t.kind, t.text) := by
  induction ts generalizing g with
  | nil => simp
  | cons t ts ih =>
      obtain ⟨⟨text, ht⟩, hts⟩ := List.forall_mem_cons.mp h
      cases ts with
      | nil =>
          have hcut : lexFrom g (t.text ++ []) = ⟨g, t.kind, t.text⟩ :: lexFrom [] [] :=
            lexFrom_longest ht (by simp) g
          rw [List.append_nil] at hcut
          simp [word, hcut]
      | cons u ts =>
          -- a space stands behind the first text, so that it is still the longest match
          have htext := intercalate_append t.word u.word (ts.map word) []
          have hword : t.word.toList = t.text := String.toList_ofList
          rw [List.append_nil, List.append_nil, hword] at htext
          rw [List.map_cons, List.map_cons, htext, lexFrom_longest ht (by simp [isGap]),
            lexFrom_space, List.map_cons]
          exact congrArg _ (ih hts _)

/-- **Lexing cuts a text into longest matches, which stay the same when they are spaced out.** The
tokens of a text follow one another, none of them empty; each begins and ends between characters of
the text, reads as the text does there, and is the longest match, by the rule of its kind, at the
place where it begins. What stands between them is blank, and nothing else is. The texts of the
tokens with single spaces between them are cut into the same texts again, of the same kinds. -/
theorem lex_partition (spelling : String) :
    let tokens := spans 0 (lex spelling)
    (∀ t start stop, (t, start, stop) ∈ tokens → start < stop ∧
      ∃ front back, spelling.toList = front ++ t.text ++ back ∧ start = bytes front ∧
        stop = bytes (front ++ t.text) ∧ Longest t.kind t.text (t.text ++ back)) ∧
    tokens.Pairwise (fun a b => a.2.2 ≤ b.2.1) ∧
    (∀ front c back, spelling.toList = front ++ c :: back →
      (isGap c = false ↔ ∃ span ∈ tokens, span.2.1 ≤ bytes front ∧ bytes front < span.2.2)) ∧
    (lex (" ".intercalate ((lex spelling).map word))).map (fun t => (t.kind, t.text)) =
      (lex spelling).map fun t => (t.kind, t.text) := by
  dsimp only
  have hspan {t : Token} {start stop : ℕ} (h : (t, start, stop) ∈ spans 0 (lex spelling)) :
      ∃ front back, spelling.toList = front ++ t.text ++ back ∧ start = bytes front ∧
        stop = bytes (front ++ t.text) ∧ Longest t.kind t.text (t.text ++ back) := by
    simpa only [List.nil_append, Nat.zero_add] using exists_of_mem_spans h
  refine ⟨fun t start stop h => ⟨?_, hspan h⟩, pairwise_spans 0 _, fun front c back h => ?_, ?_⟩
  · -- no match is empty, and every character takes a byte
    obtain ⟨front, back, -, rfl, rfl, hlongest⟩ := hspan h
    have hpos : 0 < bytes t.text := by
      obtain ⟨c, cs, htext⟩ := List.exists_cons_of_ne_nil hlongest.spells.ne_nil
      rw [htext, bytes_cons]
      exact Nat.add_pos_left c.utf8Size_pos _
    rw [bytes_append]
    exact Nat.lt_add_of_pos_right hpos
  · have hcover := isGap_eq_false_iff (n := 0) (g := []) (by simp) ((List.nil_append _).trans h)
    simp only [Nat.zero_add] at hcover
    exact hcover
  · refine map_lexFrom_intercalate (fun t ht => ?_) []
    rw [← map_spans 0 (lex spelling)] at ht
    obtain ⟨⟨t, start, stop⟩, hmem, rfl⟩ := List.mem_map.mp ht
    obtain ⟨front, back, -, -, -, hlongest⟩ := hspan hmem
    exact ⟨_, hlongest⟩

end UnitIndex.Token
