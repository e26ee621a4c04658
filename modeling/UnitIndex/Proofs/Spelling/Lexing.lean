import Mathlib.Data.List.TakeWhile
import Mathlib.Tactic
import UnitIndex.Spelling.Token
import UnitIndex.Proofs.Text.Decimal

/-!
How a text is cut into tokens at its front.

One lemma for each kind of token that the rendering of a type contains: a blank, a mark, a word
(`lexFrom_word`), a decimal numeral (`lexFrom_digits`). Each says which token comes first and that
the rest is cut on its own, whatever it is, if it does not continue the token. Some marks continue
no token: these cut a text in two (`exists_lexFrom_append`).
-/

namespace UnitIndex.Token

open UnitIndex.Text (takeWhile_append_stop)

variable {g w cs ds rest mark : List Char} {b c : Char} {kind : TokenKind}

/-- What holds of each character of a text is decided along the text. -/
lemma forall_mem_of_all {P : Char → Prop} [DecidablePred P] (h : cs.all (decide <| P ·) = true) :
    ∀ c ∈ cs, P c := by
  simpa using h

/-- A class of characters that has none of the five blanks in it. -/
lemma isGap_eq_false {p : Char → Bool} (hp : [' ', '\t', '\n', '\r', '\x0c'].all (!p ·))
    (hc : p c) : isGap c = false := by
  by_contra h
  simp only [Bool.not_eq_false, isGap, Bool.or_eq_true, beq_iff_eq] at h
  simp only [List.all_cons, List.all_nil, Bool.and_true, Bool.and_eq_true, Bool.not_eq_true'] at hp
  rcases h with (((rfl | rfl) | rfl) | rfl) | rfl <;> simp_all

/-- At the end there is no token. -/
@[simp]
lemma lexFrom_nil (g : List Char) : lexFrom g [] = [] := by
  rw [lexFrom]

/-- A blank is put in front of the token behind it. -/
lemma lexFrom_gap (hc : isGap c = true) (g cs : List Char) :
    lexFrom g (c :: cs) = lexFrom (g ++ [c]) cs := by
  rw [lexFrom, if_pos hc]

@[simp]
lemma lexFrom_space (g cs : List Char) : lexFrom g (' ' :: cs) = lexFrom (g ++ [' ']) cs :=
  lexFrom_gap rfl g cs

/-- What is no blank begins a token. -/
lemma lexFrom_cons {n : ℕ} (hc : isGap c = false) (h : munch c cs = (kind, n)) (g : List Char) :
    lexFrom g (c :: cs) = ⟨g, kind, c :: cs.take n⟩ :: lexFrom [] (cs.drop n) := by
  rw [lexFrom, if_neg (by simp [hc]), h]

/-! ### Marks -/

/-- A mark of one character. -/
lemma lexFrom_mark (hc : isGap c = false) (h : munch c cs = (kind, 0)) (g : List Char) :
    lexFrom g (c :: cs) = ⟨g, kind, [c]⟩ :: lexFrom [] cs := by
  rw [lexFrom_cons hc h, List.take_zero, List.drop_zero]

/-- Every mark is a token, whatever follows it. -/
@[simp]
lemma lexFrom_star (g cs : List Char) :
    lexFrom g ('*' :: cs) = ⟨g, .star, ['*']⟩ :: lexFrom [] cs :=
  lexFrom_mark rfl rfl g

@[simp]
lemma lexFrom_comma (g cs : List Char) :
    lexFrom g (',' :: cs) = ⟨g, .comma, [',']⟩ :: lexFrom [] cs :=
  lexFrom_mark rfl rfl g

@[simp]
lemma lexFrom_lparen (g cs : List Char) :
    lexFrom g ('(' :: cs) = ⟨g, .lparen, ['(']⟩ :: lexFrom [] cs :=
  lexFrom_mark rfl rfl g

@[simp]
lemma lexFrom_rparen (g cs : List Char) :
    lexFrom g (')' :: cs) = ⟨g, .rparen, [')']⟩ :: lexFrom [] cs :=
  lexFrom_mark rfl rfl g

@[simp]
lemma lexFrom_lbracket (g cs : List Char) :
    lexFrom g ('[' :: cs) = ⟨g, .lbracket, ['[']⟩ :: lexFrom [] cs :=
  lexFrom_mark rfl rfl g

@[simp]
lemma lexFrom_rbracket (g cs : List Char) :
    lexFrom g (']' :: cs) = ⟨g, .rbracket, [']']⟩ :: lexFrom [] cs :=
  lexFrom_mark rfl rfl g

/-- Two marks of one kind can be one token. -/
@[simp]
lemma lexFrom_ampAmp (g cs : List Char) :
    lexFrom g ('&' :: '&' :: cs) = ⟨g, .ampAmp, ['&', '&']⟩ :: lexFrom [] cs :=
  lexFrom_cons (n := 1) rfl rfl g

@[simp]
lemma lexFrom_colonColon (g cs : List Char) :
    lexFrom g (':' :: ':' :: cs) = ⟨g, .colonColon, [':', ':']⟩ :: lexFrom [] cs :=
  lexFrom_cons (n := 1) rfl rfl g

@[simp]
lemma lexFrom_ellipsis (g cs : List Char) :
    lexFrom g ('.' :: '.' :: '.' :: cs) = ⟨g, .ellipsis, ['.', '.', '.']⟩ :: lexFrom [] cs :=
  lexFrom_cons (n := 2) rfl rfl g

/-- A single ampersand is one only in front of something else. -/
lemma lexFrom_amp (h : ∀ c ∈ cs.head?, c ≠ '&') (g : List Char) :
    lexFrom g ('&' :: cs) = ⟨g, .amp, ['&']⟩ :: lexFrom [] cs := by
  refine lexFrom_mark rfl ?_ g
  cases cs with
  | nil => rfl
  | cons c cs =>
      have hc : c ≠ '&' := h c rfl
      show munch '&' (c :: cs) = _
      simp [munch, isIdentStart, hc]

/-- The marks that follow a whole declarator, or begin one that is written behind. -/
def brackets : List Char := ['(', ')', '[', ',']

/-- The kinds of their tokens. -/
def bracketKinds : List TokenKind := [.lparen, .rparen, .lbracket, .comma]

lemma lexFrom_bracket (hc : c ∈ brackets) (g cs : List Char) :
    ∃ kind ∈ bracketKinds, lexFrom g (c :: cs) = ⟨g, kind, [c]⟩ :: lexFrom [] cs := by
  simp only [brackets, List.mem_cons, List.not_mem_nil, or_false] at hc
  rcases hc with rfl | rfl | rfl | rfl
  · exact ⟨.lparen, by decide, lexFrom_lparen g cs⟩
  · exact ⟨.rparen, by decide, lexFrom_rparen g cs⟩
  · exact ⟨.lbracket, by decide, lexFrom_lbracket g cs⟩
  · exact ⟨.comma, by decide, lexFrom_comma g cs⟩

/-- The marks that a declarator begins with or that follow one. -/
def marks : List Char := '*' :: '&' :: brackets

def markKinds : List TokenKind := .star :: .amp :: .ampAmp :: bracketKinds

/-- Such a mark is no part of a longer token, but for two ampersands. -/
lemma kind_mem_markKinds (h : ∀ c ∈ cs.head?, c ∈ marks) (g : List Char) :
    ∀ t ∈ (lexFrom g cs).head?, t.kind ∈ markKinds := by
  cases cs with
  | nil => simp
  | cons c cs =>
      have hc : c ∈ marks := h c rfl
      rcases List.mem_cons.mp hc with rfl | hc
      · simp [markKinds]
      rcases List.mem_cons.mp hc with rfl | hc
      · by_cases hamp : cs.head? = some '&'
        · obtain ⟨rest, rfl⟩ : ∃ rest, cs = '&' :: rest := List.head?_eq_some_iff.mp hamp
          simp [markKinds]
        · rw [lexFrom_amp (fun c hc h => hamp (h ▸ hc))]
          simp [markKinds]
      · obtain ⟨kind, hkind, hcut⟩ := lexFrom_bracket hc g cs
        rw [hcut]
        simp [markKinds, hkind]

/-! ### Words -/

/-- Whether the text is one identifier. -/
def isWord : List Char → Bool
  | [] => false
  | c :: cs => isIdentStart c && cs.all isIdentRest

/-- Whether the text continues no identifier and no mark of a template parameter. -/
def LeavesWord (cs : List Char) : Prop := ∀ c ∈ cs.head?, isIdentRest c = false ∧ c ≠ '-'

/-- A word is not continued by what is no letter, digit or dash. -/
lemma LeavesWord.cons (h : isIdentRest c = false) (hdash : c ≠ '-') (cs : List Char) :
    LeavesWord (c :: cs) := by
  intro d hd
  obtain rfl : c = d := by simpa using hd
  exact ⟨h, hdash⟩

/-- Two texts that do not continue words do not do so together. -/
lemma LeavesWord.append (h : LeavesWord cs) (hrest : LeavesWord rest) :
    LeavesWord (cs ++ rest) := by
  cases cs with
  | nil => exact hrest
  | cons c cs => exact h

lemma leavesWord_nil : LeavesWord [] := by
  intro c hc
  cases hc

lemma leavesWord_space (cs : List Char) : LeavesWord (' ' :: cs) :=
  LeavesWord.cons (by decide) (by decide) cs

/-- Marks continue no word. -/
lemma leavesWord_of_marks (h : ∀ c ∈ cs.head?, c ∈ marks) : LeavesWord cs := by
  intro c hc
  have hall : ∀ c ∈ marks, isIdentRest c = false ∧ c ≠ '-' := forall_mem_of_all (by decide)
  exact hall c (h c hc)

/-- What begins a word may also stand in it. -/
lemma isIdentRest_of_isIdentStart (h : isIdentStart c = true) : isIdentRest c = true := by
  simp [isIdentRest, h]

/-- A text with a dash behind letters does not begin with a word: the word would have to end at the
dash. -/
lemma after?_dash {ms ms' : List Char} (hms : ∀ m ∈ ms, isIdentRest m = true)
    (hw : ∀ d ∈ w, isIdentRest d = true) (hrest : LeavesWord rest) :
    after? (ms ++ '-' :: ms') (w ++ rest) = none := by
  have hdash : isIdentRest '-' = false := by decide
  induction ms generalizing w with
  | nil =>
      cases w with
      | nil =>
          cases rest with
          | nil => rfl
          | cons c rest => exact if_neg fun h => (hrest c rfl).2 h.symm
      | cons d w =>
          have hd := hw d List.mem_cons_self
          refine if_neg fun h => ?_
          -- the dash would have to be a letter of the word
          rw [← h, hdash] at hd
          exact Bool.noConfusion hd
  | cons m ms ih =>
      obtain ⟨hm, hms⟩ := List.forall_mem_cons.mp hms
      cases w with
      | nil =>
          cases rest with
          | nil => rfl
          | cons c rest =>
              refine if_neg fun h => ?_
              -- the word is over, and a letter of the mark would have to continue it
              rw [h, (hrest c rfl).1] at hm
              exact Bool.noConfusion hm
      | cons d w =>
          show (if m = d then after? (ms ++ '-' :: ms') (w ++ rest) else none) = none
          rw [ih hms fun c hc => hw c (List.mem_cons_of_mem d hc), ite_self]

/-- **A word is one token**, up to what does not continue it. -/
lemma lexFrom_word (hw : isWord w = true) (hrest : LeavesWord rest) (g : List Char) :
    lexFrom g (w ++ rest) = ⟨g, .ident, w⟩ :: lexFrom [] rest := by
  cases w with
  | nil => simp [isWord] at hw
  | cons c cs =>
      obtain ⟨hc, hcs⟩ : isIdentStart c = true ∧ ∀ d ∈ cs, isIdentRest d = true := by
        simpa [isWord] using hw
      have hgap : isGap c = false := isGap_eq_false (by decide) hc
      -- it is no template parameter, for lack of the dash
      have hparm : templateParmLength? (c :: (cs ++ rest)) = none := by
        have hmark : "type-parameter-".toList = "type".toList ++ '-' :: "parameter-".toList := rfl
        have hword : ∀ d ∈ c :: cs, isIdentRest d = true :=
          List.forall_mem_cons.mpr ⟨isIdentRest_of_isIdentStart hc, hcs⟩
        have hnone : after? "type-parameter-".toList (c :: (cs ++ rest)) = none := by
          rw [hmark]
          exact after?_dash (forall_mem_of_all (by decide)) hword hrest
        simp only [templateParmLength?, hnone, Option.bind_eq_bind, Option.bind_none]
      have hmunch : munch c (cs ++ rest) = (.ident, cs.length) := by
        have htake := takeWhile_append_stop hcs fun d hd => (hrest d hd).1
        unfold munch
        rw [if_pos hc, hparm, htake]
      rw [List.cons_append, lexFrom_cons hgap hmunch, List.take_left, List.drop_left]

/-- Words joined by spaces, taken apart behind the first. -/
lemma intercalate_append (w w' : String) (words : List String) (rest : List Char) :
    (" ".intercalate (w :: w' :: words)).toList ++ rest =
      w.toList ++ ' ' :: ((" ".intercalate (w' :: words)).toList ++ rest) := by
  rw [String.intercalate_cons_cons, String.toList_append, String.toList_append, List.append_assoc,
    List.append_assoc]
  rfl

/-! ### Numerals -/

lemma isNumberRest_of_isDigit (h : c.isDigit = true) : isNumberRest c = true := by
  simp [isNumberRest, Char.isAlphanum, h]

/-- Digits begin no word. -/
lemma isIdentStart_of_isDigit (h : c.isDigit = true) : isIdentStart c = false := by
  obtain ⟨-, hle⟩ : 48 ≤ c.toNat ∧ c.toNat ≤ 57 := Char.isDigit_iff_toNat.mp h
  have hupper : c.isUpper = false := by
    refine decide_eq_false fun hc => ?_
    have hge : 65 ≤ c.toNat := UInt32.le_iff_toNat_le.mp hc.1
    omega
  have hlower : c.isLower = false := by
    refine Bool.and_eq_false_iff.mpr (.inl (decide_eq_false fun hc => ?_))
    have hge : 97 ≤ c.toNat := UInt32.le_iff_toNat_le.mp hc
    omega
  have hother : (c == '_') = false ∧ (c == '$') = false := by
    constructor <;> rw [beq_eq_false_iff_ne] <;> rintro rfl <;> exact absurd h (by decide)
  show (c.isUpper || c.isLower || c == '_' || c == '$') = false
  rw [hupper, hlower, hother.1, hother.2]
  rfl

/-- **A decimal numeral is one token** in front of a closing bracket. -/
lemma lexFrom_digits (n : ℕ) (g cs : List Char) :
    lexFrom g (Nat.toDigits 10 n ++ ']' :: cs) =
      ⟨g, .number, Nat.toDigits 10 n⟩ :: lexFrom [] (']' :: cs) := by
  obtain ⟨d, ds, hn, hd⟩ := Text.exists_toDigits_eq_cons n
  have hds : ∀ c ∈ ds, isNumberRest c = true := fun c hc =>
    isNumberRest_of_isDigit (Text.isDigit_of_mem_toDigits (n := n) (hn ▸ List.mem_cons_of_mem d hc))
  have hstart : isIdentStart d = false := isIdentStart_of_isDigit hd
  have hgap : isGap d = false := isGap_eq_false (by decide) hd
  have hmunch : munch d (ds ++ ']' :: cs) = (.number, ds.length) := by
    have hstop : ∀ c ∈ (']' :: cs).head?, isNumberRest c = false := by
      intro c hc
      obtain rfl : ']' = c := by simpa using hc
      decide
    unfold munch
    rw [if_neg (by simp [hstart]), if_pos hd, takeWhile_append_stop hds hstop]
  rw [hn, List.cons_append, lexFrom_cons hgap hmunch, List.take_left, List.drop_left]

/-! ### Where a mark cuts a text -/

/-- The marks that are a token of their own wherever they stand, with the kinds of these tokens. -/
def cutters : List (Char × TokenKind) :=
  [('(', .lparen), (')', .rparen), ('[', .lbracket), (']', .rbracket), (',', .comma), ('<', .less),
    ('>', .greater)]

/-- A cutter is a token of its own. -/
lemma lexFrom_cutter (hb : (b, kind) ∈ cutters) (g cs : List Char) :
    lexFrom g (b :: cs) = ⟨g, kind, [b]⟩ :: lexFrom [] cs := by
  simp only [cutters, List.mem_cons, Prod.mk.injEq, List.not_mem_nil, or_false] at hb
  rcases hb with ⟨rfl, rfl⟩ | ⟨rfl, rfl⟩ | ⟨rfl, rfl⟩ | ⟨rfl, rfl⟩ | ⟨rfl, rfl⟩ | ⟨rfl, rfl⟩ |
    ⟨rfl, rfl⟩ <;> exact lexFrom_mark rfl rfl g

/-- The kinds of the cutters are theirs alone. -/
lemma munch_mem_cutters (h : (munch c cs).1 ∈ cutters.map (·.2)) :
    (c, (munch c cs).1) ∈ cutters ∧ (munch c cs).2 = 0 := by
  unfold munch at h ⊢
  split at h
  · split at h <;> simp [cutters] at h
  · split at h
    · simp [cutters] at h
    · next hstart hdigit =>
      rw [if_neg hstart, if_neg hdigit]
      split at h <;> first
        | exact absurd h (by decide)
        | exact ⟨by decide, rfl⟩

/-- A token of the kind of a cutter is this cutter. -/
lemma exists_cutter_of_mem_lexFrom {t : Token} (ht : t ∈ lexFrom g cs)
    (hkind : t.kind ∈ cutters.map (·.2)) : ∃ b ∈ cs, t.text = [b] ∧ (b, t.kind) ∈ cutters := by
  fun_induction lexFrom g cs with
  | case1 g => simp at ht
  | case2 g c cs hc ih =>
      obtain ⟨b, hb, htext⟩ := ih ht
      exact ⟨b, List.mem_cons_of_mem c hb, htext⟩
  | case3 g c cs hc kind n hmunch ih =>
      rcases List.mem_cons.mp ht with rfl | ht
      · obtain ⟨hmem, hn⟩ := munch_mem_cutters (by rw [hmunch]; exact hkind)
        rw [hmunch] at hmem hn
        subst hn
        exact ⟨c, List.mem_cons_self, rfl, hmem⟩
      · obtain ⟨b, hb, htext⟩ := ih ht
        exact ⟨b, List.mem_cons_of_mem c (List.mem_of_mem_drop hb), htext⟩

/-- A cutter goes on with no other token. -/
lemma cutters_apart : ∀ b ∈ cutters.map (·.1), b.isDigit = false ∧ isIdentRest b = false ∧
    isNumberRest b = false ∧ b ∉ "type-parameter-".toList ∧ b ≠ ':' ∧ b ≠ '&' ∧ b ≠ '.' :=
  forall_mem_of_all (by decide)

/-- Where a character ends a class, what is behind it makes no difference. -/
lemma takeWhile_append_cons {p : Char → Bool} (hp : p b = false) (ds rest : List Char) :
    (ds ++ b :: rest).takeWhile p = ds.takeWhile p := by
  induction ds with
  | nil => simp [hp]
  | cons d ds ih => by_cases hd : p d <;> simp [hd, ih]

lemma dropWhile_append_cons {p : Char → Bool} (hp : p b = false) (ds rest : List Char) :
    (ds ++ b :: rest).dropWhile p = ds.dropWhile p ++ b :: rest := by
  induction ds with
  | nil => simp [hp]
  | cons d ds ih => by_cases hd : p d <;> simp [hd, ih]

/-- A mark without the character is found in front of it or not at all. -/
lemma after?_append_cons (hb : b ∉ mark) (ds rest : List Char) :
    after? mark (ds ++ b :: rest) = (after? mark ds).map (· ++ b :: rest) := by
  induction mark generalizing ds with
  | nil => rfl
  | cons m mark ih =>
      rw [List.mem_cons, not_or] at hb
      cases ds with
      | nil => exact if_neg (Ne.symm hb.1)
      | cons d ds =>
          rw [List.cons_append, after?, after?, ih hb.2]
          split <;> rfl

lemma templateParmLength?_append_cons (hdigit : b.isDigit = false)
    (hmark : b ∉ "type-parameter-".toList) (ds rest : List Char) :
    templateParmLength? (ds ++ b :: rest) = templateParmLength? ds := by
  have hdash : b ∉ ['-'] := fun h => hmark (List.mem_singleton.mp h ▸ by decide)
  rw [templateParmLength?, templateParmLength?]
  dsimp only
  rw [after?_append_cons hmark]
  cases after? "type-parameter-".toList ds with
  | none => rfl
  | some behind =>
      simp only [Option.map_some, Option.bind_eq_bind, Option.bind_some,
        takeWhile_append_cons hdigit, dropWhile_append_cons hdigit, after?_append_cons hdash]
      cases after? ['-'] (behind.dropWhile Char.isDigit) with
      | none => rfl
      | some behind => simp only [Option.map_some, Option.bind_some, takeWhile_append_cons hdigit]

/-- What a token takes does not depend on what stands behind a cutter. -/
lemma munch_append_cons (hb : (b, kind) ∈ cutters) (c : Char) (ds rest : List Char) :
    munch c (ds ++ b :: rest) = munch c ds := by
  obtain ⟨hdigit, hident, hnumber, hmark, hcolon, hamp, hdot⟩ :=
    cutters_apart b (List.mem_map_of_mem hb)
  have hparm : templateParmLength? (c :: (ds ++ b :: rest)) = templateParmLength? (c :: ds) :=
    templateParmLength?_append_cons hdigit hmark (c :: ds) rest
  unfold munch
  rw [hparm, takeWhile_append_cons hident, takeWhile_append_cons hnumber]
  split
  · rfl
  · split
    · rfl
    · -- no token that begins with a mark looks more than two characters ahead
      rcases ds with _ | ⟨d, _ | ⟨d', ds⟩⟩
      · simp only [List.nil_append]
        split <;> simp_all
      · simp only [List.nil_append, List.cons_append]
        split <;> simp_all
      · simp only [List.cons_append]
        split <;> first | rfl | (split <;> simp_all)

/-- What is behind a mark has the mark in front of it. -/
lemma eq_append_of_after? {l r : List Char} (h : after? mark l = some r) : l = mark ++ r := by
  fun_induction after? mark l with
  | case1 l => exact Option.some.inj h
  | case2 => cases h
  | case3 m ms cs ih => rw [ih h, List.cons_append]
  | case4 => cases h

lemma length_eq_of_after? {l r : List Char} (h : after? mark l = some r) :
    l.length = mark.length + r.length := by
  rw [eq_append_of_after? h, List.length_append]

/-- The name of a template parameter is no longer than the text. -/
lemma templateParmLength?_le {l : List Char} {n : ℕ} (h : templateParmLength? l = some n) :
    n ≤ l.length := by
  simp only [templateParmLength?, Option.bind_eq_bind, Option.bind_eq_some_iff] at h
  obtain ⟨behind, hbehind, behind', hbehind', h⟩ := h
  split at h
  · cases h
  · have hl := length_eq_of_after? hbehind
    have hdash := length_eq_of_after? hbehind'
    have hdepth := congrArg List.length
      (List.takeWhile_append_dropWhile (p := Char.isDigit) (l := behind))
    have hindex := (List.takeWhile_prefix (l := behind') Char.isDigit).length_le
    rw [List.length_append] at hdepth
    rw [List.length_singleton] at hdash
    have hn := Option.some.inj h
    omega

/-- A token takes no more than there is. -/
lemma munch_le_length (c : Char) (cs : List Char) : (munch c cs).2 ≤ cs.length := by
  unfold munch
  split
  · split
    · next n hn =>
      have hle := templateParmLength?_le hn
      rw [List.length_cons] at hle
      show n - 1 ≤ cs.length
      omega
    · exact (List.takeWhile_prefix _).length_le
  · split
    · exact (List.takeWhile_prefix _).length_le
    · split <;> simp

/-- **A cutter cuts a text in two**: the tokens of what stands in front of it, and the tokens of
what stands behind. -/
lemma exists_lexFrom_append (hb : (b, kind) ∈ cutters) (g cs rest : List Char) :
    ∃ gap, lexFrom g (cs ++ b :: rest) = lexFrom g cs ++ ⟨gap, kind, [b]⟩ :: lexFrom [] rest := by
  fun_induction lexFrom g cs with
  | case1 g => exact ⟨g, lexFrom_cutter hb g rest⟩
  | case2 g c cs hc ih =>
      obtain ⟨gap, hcut⟩ := ih
      exact ⟨gap, by rw [List.cons_append, lexFrom_gap hc, hcut]⟩
  | case3 g c cs hc kind' n hmunch ih =>
      obtain ⟨gap, hcut⟩ := ih
      have hn : n ≤ cs.length := by simpa [hmunch] using munch_le_length c cs
      refine ⟨gap, ?_⟩
      rw [List.cons_append, lexFrom_cons (by simpa using hc)
        ((munch_append_cons hb c cs rest).trans hmunch), List.take_append_of_le_length hn,
        List.drop_append_of_le_length hn, hcut, List.cons_append]

/-- **A bracket always begins a token**, so what stands in front of it adds to the tokens. -/
lemma length_lexFrom_le (hcs : ∀ c ∈ cs.head?, c ∈ brackets) (g ds : List Char) :
    (lexFrom [] cs).length ≤ (lexFrom g (ds ++ cs)).length := by
  cases cs with
  | nil => simp
  | cons b cs =>
      have hall : ∀ b ∈ brackets, ∃ kind, (b, kind) ∈ cutters := by
        simp [brackets, cutters]
      obtain ⟨kind, hb⟩ := hall b (hcs b rfl)
      obtain ⟨gap, hcut⟩ := exists_lexFrom_append hb g ds cs
      rw [hcut, lexFrom_cutter hb, List.length_append]
      exact Nat.le_add_left _ _

end UnitIndex.Token
