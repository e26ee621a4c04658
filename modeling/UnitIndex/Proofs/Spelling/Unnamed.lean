import Mathlib.Tactic
import UnitIndex.Location.Basic
import UnitIndex.Proofs.Spelling.Arguments

/-!
Unnamed types, read back.

An unnamed type is written as the place where it is declared, in parentheses. The text between these
is kept as it stands. It ends at the parenthesis that closes the first one, so that the name of the
file may contain parentheses as long as they nest (`splitClose_lexFrom`). Then the spelling is read
as this text, with the tag in front of it if there is one (`parse?_unnamedAt`).
-/

namespace UnitIndex

open Token (lexFrom isWord cutters)

/-- Whether the parentheses of a text nest, with so many open in front of it. -/
def parensNest : ℕ → List Char → Bool
  | n, [] => n == 0
  | n, c :: cs =>
    if c = '(' then parensNest (n + 1) cs
    else if c = ')' then n ≠ 0 && parensNest (n - 1) cs
    else parensNest n cs

/-- What the spelling of an unnamed type that is declared there says about it. -/
def unnamedText (word : String) (l : FileLocation) : String :=
  "unnamed " ++ word ++ " at " ++ l.text

/-- The spelling of the type. -/
def unnamedAt (word : String) (l : FileLocation) : String := "(" ++ unnamedText word l ++ ")"

variable {cs ds pre post g : List Char} {c d : Char} {n : ℕ} {word : String} {l : FileLocation}
  {ts more : List Token}

/-! ### Nested parentheses -/

/-- Text without parentheses in front makes no difference to how they nest. -/
lemma parensNest_append_left (hopen : '(' ∉ pre) (hclose : ')' ∉ pre) (n : ℕ) (cs : List Char) :
    parensNest n (pre ++ cs) = parensNest n cs := by
  induction pre with
  | nil => rfl
  | cons c pre ih =>
      simp only [List.mem_cons, not_or] at hopen hclose
      rw [List.cons_append, parensNest, if_neg (Ne.symm hopen.1), if_neg (Ne.symm hclose.1),
        ih hopen.2 hclose.2]

lemma parensNest_append_right (hopen : '(' ∉ post) (hclose : ')' ∉ post) (n : ℕ)
    (cs : List Char) : parensNest n (cs ++ post) = parensNest n cs := by
  induction cs generalizing n with
  | nil =>
      have hpost := parensNest_append_left hopen hclose n []
      rwa [List.append_nil] at hpost
  | cons c cs ih => simp only [List.cons_append, parensNest, ih]

/-- The kinds of the tokens that are parentheses. -/
def parenKinds : List TokenKind := [.lparen, .rparen]

/-- Where no parenthesis stands, none is a token. -/
lemma kind_not_mem_parenKinds (hopen : '(' ∉ cs) (hclose : ')' ∉ cs) (g : List Char) :
    ∀ t ∈ lexFrom g cs, t.kind ∉ parenKinds := by
  intro t ht hkind
  have hcutter : ∀ k ∈ parenKinds, k ∈ cutters.map (·.2) := by decide
  have hparen : ∀ cutter ∈ cutters, cutter.2 ∈ parenKinds → cutter.1 = '(' ∨ cutter.1 = ')' := by
    decide
  obtain ⟨b, hb, -, hmem⟩ := Token.exists_cutter_of_mem_lexFrom ht (hcutter _ hkind)
  rcases hparen _ hmem hkind with rfl | rfl
  · exact hopen hb
  · exact hclose hb

namespace TypeExpr

variable {t : Token}

/-- An opening parenthesis goes one level down. -/
lemma splitClose_lparen (h : t.kind = .lparen) (n : ℕ) (ts : List Token) :
    splitClose n (t :: ts) = (splitClose (n + 1) ts).map fun read => (t :: read.1, read.2) := by
  rw [splitClose.eq_def]
  simp only [h]

/-- A closing one goes up, or ends the text. -/
lemma splitClose_rparen (h : t.kind = .rparen) (n : ℕ) (ts : List Token) :
    splitClose n (t :: ts) =
      if n = 0 then some ([], ts)
      else (splitClose (n - 1) ts).map fun read => (t :: read.1, read.2) := by
  rw [splitClose.eq_def]
  cases n <;> simp [h]

/-- What is no parenthesis is passed over. -/
lemma splitClose_append (h : ∀ t ∈ ts, t.kind ∉ parenKinds) (n : ℕ) (more : List Token) :
    splitClose n (ts ++ more) = (splitClose n more).map fun read => (ts ++ read.1, read.2) := by
  induction ts with
  | nil => cases hmore : splitClose n more <;> exact hmore
  | cons t ts ih =>
      obtain ⟨ht, hts⟩ := List.forall_mem_cons.mp h
      simp only [parenKinds, List.mem_cons, List.not_mem_nil, or_false, not_or] at ht
      have hcons : splitClose n (t :: (ts ++ more)) =
          (splitClose n (ts ++ more)).map fun read => (t :: read.1, read.2) := by
        rw [splitClose.eq_def]
        cases hkind : t.kind <;> simp_all
      rw [List.cons_append, hcons, ih hts, Option.map_map]
      rfl

/-- **A text whose parentheses nest ends at the parenthesis behind it.** -/
lemma splitClose_lexFrom (h : parensNest n cs = true) (g : List Char) (ht : t.kind = .rparen)
    (more : List Token) : splitClose n (lexFrom g cs ++ t :: more) = some (lexFrom g cs, more) := by
  -- induction on the text; what has been passed since the last parenthesis stands in front
  suffices hsplit : ∀ pre g, '(' ∉ pre → ')' ∉ pre →
      splitClose n (lexFrom g (pre ++ cs) ++ t :: more) = some (lexFrom g (pre ++ cs), more) from
    hsplit [] g (by simp) (by simp)
  induction cs generalizing n with
  | nil =>
      intro pre g hopen hclose
      obtain rfl : n = 0 := by simpa [parensNest] using h
      rw [List.append_nil, splitClose_append (kind_not_mem_parenKinds hopen hclose g),
        splitClose_rparen ht, if_pos rfl, Option.map_some, List.append_nil]
  | cons c cs ih =>
      intro pre g hopen hclose
      rw [parensNest] at h
      split at h
      · next hc =>
        subst hc
        obtain ⟨gap, hcut⟩ :=
          Token.exists_lexFrom_append (show ('(', .lparen) ∈ Token.cutters by decide) g pre cs
        have hinner := ih h [] [] (by simp) (by simp)
        rw [List.nil_append] at hinner
        rw [hcut, List.append_assoc, splitClose_append (kind_not_mem_parenKinds hopen hclose g),
          List.cons_append, splitClose_lparen rfl, hinner]
        rfl
      · split at h
        · next hc =>
          subst hc
          obtain ⟨hn, h⟩ : n ≠ 0 ∧ parensNest (n - 1) cs = true := by simpa using h
          obtain ⟨gap, hcut⟩ :=
            Token.exists_lexFrom_append (show (')', .rparen) ∈ Token.cutters by decide) g pre cs
          have hinner := ih h [] [] (by simp) (by simp)
          rw [List.nil_append] at hinner
          rw [hcut, List.append_assoc, splitClose_append (kind_not_mem_parenKinds hopen hclose g),
            List.cons_append, splitClose_rparen rfl, if_neg hn, hinner]
          rfl
        · next hleft hright =>
          have hpre := ih h (pre ++ [c]) g (by simp [hopen, Ne.symm hleft])
            (by simp [hclose, Ne.symm hright])
          rwa [List.append_assoc, List.singleton_append] at hpre

/-! ### The text of an unnamed type -/

/-- Digits are no blanks. -/
lemma not_isBlank_of_isDigit (h : c.isDigit = true) : Text.isBlank c = false := by
  obtain ⟨hge, hle⟩ : 48 ≤ c.toNat ∧ c.toNat ≤ 57 := Char.isDigit_iff_toNat.mp h
  simp only [Text.isBlank, Bool.or_eq_false_iff, Bool.and_eq_false_iff, decide_eq_false_iff_not,
    beq_eq_false_iff_ne]
  omega

/-- A mark that is no digit does not stand in a numeral. -/
lemma not_mem_toDigits (h : c.isDigit = false) (n : ℕ) : c ∉ Nat.toDigits 10 n := fun hc => by
  rw [Text.isDigit_of_mem_toDigits hc] at h
  exact Bool.noConfusion h

/-- A mark that continues no word does not stand in one. -/
lemma not_mem_of_isWord {w : List Char} (hw : isWord w = true) (h : Token.isIdentRest c = false) :
    c ∉ w := by
  cases w with
  | nil => simp
  | cons d w =>
      obtain ⟨hd, hw⟩ : Token.isIdentStart d = true ∧ ∀ c ∈ w, Token.isIdentRest c = true := by
        simpa [isWord] using hw
      rintro hc
      have hrest : Token.isIdentRest c = true := by
        rcases List.mem_cons.mp hc with rfl | hc
        · exact Token.isIdentRest_of_isIdentStart hd
        · exact hw c hc
      rw [h] at hrest
      exact Bool.noConfusion hrest

/-- Line and column behind a file name. -/
def positionText (l : FileLocation) : List Char :=
  ':' :: (Nat.toDigits 10 l.line.toNat ++ ':' :: Nat.toDigits 10 l.column.toNat)

/-- A place is its file and its position. -/
lemma toList_text (l : FileLocation) : l.text.toList = l.file.toList ++ positionText l := by
  have htext : l.text =
      l.file ++ ":" ++ toString l.line.toNat ++ ":" ++ toString l.column.toNat := rfl
  rw [htext, Nat.toString_eq_ofList_toDigits, Nat.toString_eq_ofList_toDigits, positionText]
  simp

/-- The text in the parentheses. -/
lemma toList_unnamedText (word : String) (l : FileLocation) :
    (unnamedText word l).toList =
      "unnamed ".toList ++
        (word.toList ++ (" at ".toList ++ (l.file.toList ++ positionText l))) := by
  rw [unnamedText, String.toList_append, String.toList_append, String.toList_append, toList_text,
    List.append_assoc, List.append_assoc]

lemma toList_unnamedAt (word : String) (l : FileLocation) :
    (unnamedAt word l).toList = '(' :: ((unnamedText word l).toList ++ [')']) := by
  rw [unnamedAt, String.toList_append, String.toList_append]
  rfl

/-- Only the name of the file can have parentheses in it. -/
lemma parensNest_unnamedText (hword : isWord word.toList = true)
    (hfile : parensNest 0 l.file.toList = true) :
    parensNest 0 (unnamedText word l).toList = true := by
  have hopen : '(' ∉ positionText l := by
    simp [positionText, not_mem_toDigits]
  have hclose : ')' ∉ positionText l := by
    simp [positionText, not_mem_toDigits]
  have hopen' : '(' ∉ word.toList := not_mem_of_isWord hword (by decide)
  have hclose' : ')' ∉ word.toList := not_mem_of_isWord hword (by decide)
  have hunnamed : '(' ∉ "unnamed ".toList ∧ ')' ∉ "unnamed ".toList := by decide
  have hat : '(' ∉ " at ".toList ∧ ')' ∉ " at ".toList := by decide
  rw [toList_unnamedText, parensNest_append_left hunnamed.1 hunnamed.2,
    parensNest_append_left hopen' hclose', parensNest_append_left hat.1 hat.2,
    parensNest_append_right hopen hclose, hfile]

/-- The text begins with a letter and ends with a digit. -/
lemma exists_unnamedText_eq (word : String) (l : FileLocation) :
    ∃ cs d, (unnamedText word l).toList = 'u' :: (cs ++ [d]) ∧ d.isDigit = true := by
  obtain ⟨ds, d, hdigits⟩ : ∃ ds d, Nat.toDigits 10 l.column.toNat = ds ++ [d] :=
    ⟨_, _, (List.dropLast_append_getLast Nat.toDigits_ne_nil).symm⟩
  refine ⟨"nnamed ".toList ++ (word.toList ++ (" at ".toList ++ (l.file.toList ++ ':' ::
    (Nat.toDigits 10 l.line.toNat ++ ':' :: ds)))), d, ?_, ?_⟩
  · rw [toList_unnamedText, positionText, hdigits]
    simp only [List.append_assoc, List.cons_append]
    rfl
  · refine Text.isDigit_of_mem_toDigits (n := l.column.toNat) ?_
    rw [hdigits]
    exact List.mem_append_right ds List.mem_cons_self

/-- Where a text ends with something else, no more is dropped at its end. -/
lemma reverse_dropWhile_append {p : Char → Bool} (hd : p d = false) (cs : List Char) :
    ((cs ++ [d]).reverse.dropWhile p).reverse = cs ++ [d] := by
  rw [List.reverse_append, List.reverse_singleton, List.singleton_append,
    List.dropWhile_cons_of_neg (by simp [hd]), ← List.singleton_append, List.reverse_append,
    List.reverse_reverse, List.reverse_singleton]

/-- Nothing is trimmed off the text. -/
lemma trim_unnamedText (word : String) (l : FileLocation) :
    Text.trim (unnamedText word l).toList = (unnamedText word l).toList := by
  obtain ⟨cs, d, htext, hd⟩ := exists_unnamedText_eq word l
  rw [htext, Text.trim, Text.trimStart, List.dropWhile_cons_of_neg (by decide), Text.trimEnd,
    ← List.cons_append, reverse_dropWhile_append (not_isBlank_of_isDigit hd)]

/-! ### Reading it -/

variable {b : Bool} {s : Specifiers}

/-- An unnamed type as the base, at the end of the spelling. -/
lemma ReadsTo.anonymous (hword : isWord word.toList = true)
    (hfile : parensNest 0 l.file.toList = true) (hopen : s.isOpen = true) (g : List Char) :
    ReadsTo b s (lexFrom g (unnamedAt word l).toList)
      ({ s with base := some (.anonymous s.tag (unnamedAt word l)) }, []) := by
  obtain ⟨gap, hcut⟩ := Token.exists_lexFrom_append
    (show (')', .rparen) ∈ Token.cutters by decide) [] (unnamedText word l).toList []
  have hstart : lexFrom [] (unnamedText word l).toList =
      ⟨[], .ident, "unnamed".toList⟩ :: lexFrom [] (' ' :: (word.toList ++
        (" at ".toList ++ (l.file.toList ++ positionText l)))) := by
    rw [toList_unnamedText]
    exact Token.lexFrom_word (w := "unnamed".toList) (by decide) (Token.leavesWord_space _) []
  -- the first word announces an unnamed type, and none other is a specifier there
  have hannounces (ts : List Token) :
      announcesAnonymous (lexFrom [] (unnamedText word l).toList ++ ts) = true := by
    rw [hstart]
    rfl
  have hclose : splitClose 0 (lexFrom [] (unnamedText word l).toList ++ [⟨gap, .rparen, [')']⟩]) =
      some (lexFrom [] (unnamedText word l).toList, []) :=
    splitClose_lexFrom (parensNest_unnamedText hword hfile) [] rfl []
  -- the text is kept as it stands, since no blank is at its ends
  have htext : "(" ++ textOf (lexFrom [] (unnamedText word l).toList) ++ ")" =
      unnamedAt word l := by
    rw [textOf_lexFrom (by simp), trim_unnamedText, String.ofList_toList, unnamedAt]
  intro rounds hrounds
  rw [toList_unnamedAt, Token.lexFrom_lparen, hcut, Token.lexFrom_nil] at hrounds ⊢
  cases rounds with
  | zero => simp at hrounds
  | succ rounds =>
      have hmark : specifierMark b s ⟨g, .lparen, ['(']⟩
          (lexFrom [] (unnamedText word l).toList ++ [⟨gap, .rparen, [')']⟩]) =
          some (some ({ s with base := some (.anonymous s.tag (unnamedAt word l)) }, [])) := by
        simp only [specifierMark, hopen, hannounces, and_self, if_true, untilClose, hclose,
          Option.map_some, Option.bind_eq_bind, Option.bind_some, htext]
      rw [specifiersFrom_cons, if_neg (by simp), hmark]
      exact specifiersFrom_stop (by simp [Specifiers.isOpen]) (by simp) rounds

/-- **An unnamed type is read back**, if the parentheses in the name of its file nest. -/
lemma parse?_unnamedAt (hword : isWord word.toList = true)
    (hfile : parensNest 0 l.file.toList = true) (tag : Option Tag) :
    parse? (String.ofList (TypeBase.anonymous tag (unnamedAt word l)).spelling) =
      some ⟨.anonymous tag (unnamedAt word l), {}, []⟩ := by
  have hread : ReadsTo true {} (lexFrom [] (TypeBase.anonymous tag (unnamedAt word l)).spelling)
      ({ tag := tag, base := some (.anonymous tag (unnamedAt word l)) }, []) :=
    ReadsTo.tag rfl (fun g => ReadsTo.anonymous (s := { tag := tag }) hword hfile rfl g) []
  have hspecifiers := hread.specifiers rfl
  have hlex : Token.lex (String.ofList (TypeBase.anonymous tag (unnamedAt word l)).spelling) =
      lexFrom [] (TypeBase.anonymous tag (unnamedAt word l)).spelling := by
    rw [Token.lex, String.toList_ofList]
  rw [← hlex] at hspecifiers
  rw [parse?_of_specifiers hspecifiers (by simp), if_pos rfl]

end TypeExpr

end UnitIndex
