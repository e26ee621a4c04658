import Mathlib.Tactic
import UnitIndex.Diagnostic
import UnitIndex.Proofs.Text.Trimming

/-!
Diagnostics, printed and read back.

The pattern of a diagnostic is written down once more, as the ways to spell what stands behind a
file name (`Tail.Spells`) and as the ways to cut a line in front of that (`Cuts`). A line is cut the
shortest of these ways (`cut?_eq_some_iff`).

A printed diagnostic has other numerals and other blanks than the line that it was read from, so it
might be cut elsewhere. It is not: of a shorter cut, either the position and the severity stand in
the file name up to the colon behind it, and so they do in the line that was read, or one of them
takes something from behind that colon, and a digit would begin a severity
(`Tail.exists_spells_of_straddles`). The main statement is `ofLine?_text`.
-/

namespace UnitIndex

namespace Text

variable {c : Char}

/-- No blank is a digit. -/
lemma isDecimalDigit_of_isBlank (h : isBlank c = true) : isDecimalDigit c = false := by
  have hzeros : ∀ first ∈ digitZeros, c.toNat < first ∨ first + 10 ≤ c.toNat := by
    simp only [isBlank, Bool.or_eq_true, Bool.and_eq_true, decide_eq_true_eq, beq_iff_eq] at h
    intro first hfirst
    simp only [digitZeros, List.mem_cons, List.not_mem_nil, or_false] at hfirst
    omega
  simp only [isDecimalDigit, List.any_eq_false, Bool.and_eq_true, decide_eq_true_eq]
  intro first hfirst
  have := hzeros first hfirst
  omega

end Text

namespace Diagnostic

open UnitIndex.Text (isBlank isDecimalDigit trimStart trimStart_eq_iff)

variable {cs rest rest' file front gap behind : List Char} {s s' : Severity} {t : Tail}

/-! ### Pieces between colons -/

/-- Where a text without a colon stands in front of one, that is the first. -/
lemma append_colon_cases (hcs : ':' ∉ cs) (h : cs ++ ':' :: rest = gap ++ ':' :: behind) :
    gap = cs ∧ behind = rest ∨ ∃ gap', gap = cs ++ ':' :: gap' ∧ rest = gap' ++ ':' :: behind := by
  rcases List.append_eq_append_iff.mp h with ⟨more, rfl, hmore⟩ | ⟨more, rfl, hmore⟩
  · cases more with
    | nil => exact Or.inl ⟨List.append_nil _, (List.cons.inj hmore).2.symm⟩
    | cons c more =>
        obtain ⟨rfl, rfl⟩ := List.cons.inj hmore
        exact Or.inr ⟨more, rfl, rfl⟩
  · cases more with
    | nil => exact Or.inl ⟨(List.append_nil _).symm, (List.cons.inj hmore).2⟩
    | cons c more =>
        obtain ⟨rfl, -⟩ := List.cons.inj hmore
        exact absurd (List.mem_append_right _ List.mem_cons_self) hcs

/-- Of two colons the one in front stands in what is in front of the other. -/
lemma exists_append_of_length_lt (h : cs ++ ':' :: rest = front ++ ':' :: behind)
    (hlt : front.length < cs.length) :
    ∃ gap, cs = front ++ ':' :: gap ∧ behind = gap ++ ':' :: rest := by
  rcases List.append_eq_append_iff.mp h with ⟨more, rfl, -⟩ | ⟨more, rfl, hmore⟩
  · rw [List.length_append] at hlt
    omega
  · cases more with
    | nil => exact absurd hlt (by rw [List.append_nil]; omega)
    | cons c more =>
        obtain ⟨rfl, rfl⟩ := List.cons.inj hmore
        exact ⟨more, rfl, rfl⟩

/-- A text is cut in one way in front of its first colon. -/
lemma append_colon_inj (hcs : ':' ∉ cs) (hgap : ':' ∉ gap)
    (h : cs ++ ':' :: rest = gap ++ ':' :: behind) : cs = gap ∧ rest = behind := by
  rcases append_colon_cases hcs h with ⟨hsame, hbehind⟩ | ⟨more, rfl, -⟩
  · exact ⟨hsame.symm, hbehind.symm⟩
  · exact absurd (List.mem_append_right _ List.mem_cons_self) hgap

/-- What stands behind a mark is what comes after it at the beginning of a text. -/
lemma after?_eq_some_iff {mark : List Char} : after? mark cs = some rest ↔ cs = mark ++ rest := by
  rw [after?]
  constructor
  · intro h
    split at h
    · next hmark =>
        obtain ⟨more, rfl⟩ := List.isPrefixOf_iff_prefix.mp hmark
        rw [List.drop_left, Option.some.injEq] at h
        rw [h]
    · exact absurd h (by simp)
  · rintro rfl
    rw [if_pos (List.isPrefixOf_iff_prefix.mpr (List.prefix_append mark rest)), List.drop_left]

/-! ### Numbers -/

/-- One or more digits of any script. -/
def IsNumber (cs : List Char) : Prop := cs ≠ [] ∧ ∀ c ∈ cs, isDecimalDigit c = true

lemma IsNumber.colon_notMem (h : IsNumber cs) : ':' ∉ cs :=
  fun hcolon => absurd (h.2 ':' hcolon) (by decide)

/-- A number as it is printed. -/
lemma isNumber_toDigits (n : ℕ) : IsNumber (Nat.toDigits 10 n) :=
  ⟨Nat.toDigits_ne_nil, fun _ hc =>
    Text.isDecimalDigit_of_isDigit (Text.isDigit_of_mem_toDigits hc)⟩

/-- A number is some digits and a colon. -/
lemma number?_eq_some_iff {digits : List Char} :
    number? cs = some (digits, rest) ↔ IsNumber digits ∧ cs = digits ++ ':' :: rest := by
  constructor
  · intro h
    obtain ⟨u, hne, h⟩ := Option.bind_eq_some_iff.mp h
    obtain ⟨behind, hbehind, h⟩ := Option.bind_eq_some_iff.mp h
    obtain ⟨rfl, rfl⟩ := Prod.mk.inj (Option.some.inj h)
    rw [Option.guard_eq_some'] at hne
    refine ⟨⟨by simpa using hne, fun c hc => List.mem_takeWhile_imp hc⟩, ?_⟩
    calc cs = cs.takeWhile isDecimalDigit ++ cs.dropWhile isDecimalDigit :=
          List.takeWhile_append_dropWhile.symm
      _ = _ := by rw [after?_eq_some_iff.mp hbehind]; rfl
  · rintro ⟨⟨hne, hdigits⟩, rfl⟩
    -- the digits end at the colon, which is none
    have hcolon : ∀ c ∈ (':' :: rest).head?, isDecimalDigit c = false := by
      rintro c ⟨⟩
      decide
    rw [number?, Text.takeWhile_append_stop hdigits hcolon,
      Text.dropWhile_append_stop hdigits hcolon,
      after?_eq_some_iff.mpr (List.singleton_append (x := ':') (l := rest)).symm]
    cases digits with
    | nil => exact absurd rfl hne
    | cons d ds => rfl

/-! ### Severities -/

/-- No severity is written with a colon. -/
lemma colon_notMem_words (s : Severity) : ':' ∉ s.words.toList := by cases s <;> decide

/-- Severities are told apart by their words. -/
lemma words_injective (h : s.words.toList = s'.words.toList) : s = s' := by
  revert h
  cases s <;> cases s' <;> decide

/-- The words of a severity begin with a letter. -/
lemma exists_words_eq_cons (s : Severity) :
    ∃ c cs, s.words.toList = c :: cs ∧ isBlank c = false ∧ isDecimalDigit c = false := by
  cases s <;> exact ⟨_, _, rfl, by decide, by decide⟩

/-- A severity that is read stands in front of its colon. -/
lemma eq_append_of_severity? (h : severity? cs = some (s, rest)) :
    cs = s.words.toList ++ ':' :: rest := by
  obtain ⟨s', -, h⟩ := List.exists_of_findSome?_eq_some h
  obtain ⟨behind, hbehind, h⟩ := Option.map_eq_some_iff.mp h
  obtain ⟨rfl, rfl⟩ := Prod.mk.inj h
  rw [after?_eq_some_iff.mp hbehind, List.append_assoc, List.singleton_append]

/-- A severity is its words and a colon. -/
lemma severity?_eq_some_iff :
    severity? cs = some (s, rest) ↔ cs = s.words.toList ++ ':' :: rest := by
  refine ⟨eq_append_of_severity?, fun h => ?_⟩
  cases hfound : severity? cs with
  | none =>
      have hs : s ∈ Severity.all := by cases s <;> decide
      have hafter : after? (s.words.toList ++ [':']) cs = some rest :=
        after?_eq_some_iff.mpr (by rw [h, List.append_assoc, List.singleton_append])
      have hnone := List.findSome?_eq_none_iff.mp hfound s hs
      rw [hafter] at hnone
      exact absurd hnone (Option.some_ne_none _)
  | some found =>
      have hcs : cs = found.1.words.toList ++ ':' :: found.2 := eq_append_of_severity? hfound
      obtain ⟨hwords, hrest⟩ := append_colon_inj (colon_notMem_words _) (colon_notMem_words _)
        (h.symm.trans hcs)
      rw [words_injective hwords, hrest]

/-! ### Tails -/

namespace Tail

/-- The text is a way to write the tail. Blanks may stand in front of the severity and in front of
the message, which begins with none. -/
def Spells (t : Tail) (cs : List Char) : Prop :=
  IsNumber t.line ∧ IsNumber t.column ∧ (∀ c ∈ t.message.head?, isBlank c = false) ∧
    ∃ gap gap', (∀ c ∈ gap, isBlank c = true) ∧ (∀ c ∈ gap', isBlank c = true) ∧
      cs = t.line ++ ':' :: (t.column ++ ':' ::
        (gap ++ t.severity.words.toList ++ ':' :: (gap' ++ t.message)))

end Tail

/-- A text is read as a tail just if it is a way to write it. -/
lemma tail?_eq_some_iff : tail? cs = some t ↔ t.Spells cs := by
  constructor
  · intro h
    obtain ⟨⟨line, rest⟩, hline, h⟩ := Option.bind_eq_some_iff.mp h
    obtain ⟨⟨column, rest'⟩, hcolumn, h⟩ := Option.bind_eq_some_iff.mp h
    obtain ⟨⟨severity, behind⟩, hseverity, h⟩ := Option.bind_eq_some_iff.mp h
    obtain rfl := Option.some.inj h
    -- each part is the text in front of the next; the blanks between them are trimmed
    obtain ⟨hisLine, rfl⟩ := number?_eq_some_iff.mp hline
    obtain ⟨hisColumn, rfl⟩ := number?_eq_some_iff.mp hcolumn
    obtain ⟨-, gap, hgap, rfl⟩ := trimStart_eq_iff.mp (severity?_eq_some_iff.mp hseverity)
    obtain ⟨hmessage, gap', hgap', hbehind⟩ := trimStart_eq_iff.mp (rfl : trimStart behind = _)
    exact ⟨hisLine, hisColumn, hmessage, gap, gap', hgap, hgap',
      by rw [List.append_assoc, ← hbehind]⟩
  · rintro ⟨hline, hcolumn, hmessage, gap, gap', hgap, hgap', rfl⟩
    -- no severity begins with a blank, so that all blanks in front of it are trimmed
    obtain ⟨c, word, hwords, hc, -⟩ := exists_words_eq_cons t.severity
    have hseverity : trimStart (gap ++ (t.severity.words.toList ++ ':' :: (gap' ++ t.message))) =
        t.severity.words.toList ++ ':' :: (gap' ++ t.message) := by
      refine trimStart_eq_iff.mpr ⟨?_, gap, hgap, rfl⟩
      rw [hwords]
      rintro d ⟨⟩
      exact hc
    have hmessage' := trimStart_eq_iff.mpr ⟨hmessage, gap', hgap', rfl⟩
    simp only [tail?, number?_eq_some_iff.mpr ⟨hline, rfl⟩, number?_eq_some_iff.mpr ⟨hcolumn, rfl⟩,
      List.append_assoc, hseverity, severity?_eq_some_iff.mpr rfl, hmessage', Option.bind_eq_bind,
      Option.bind_some, Option.pure_def]

/-- A text is a way to write one tail at most. -/
lemma Tail.Spells.unique {t' : Tail} (h : t.Spells cs) (h' : t'.Spells cs) : t = t' :=
  Option.some.inj ((tail?_eq_some_iff.mpr h).symm.trans (tail?_eq_some_iff.mpr h'))

/-- No number stands where a severity is expected. -/
lemma not_isNumber_of_severity (hgap : ∀ c ∈ gap, isBlank c = true)
    (h : gap ++ s.words.toList ++ rest = cs ++ rest') : ¬IsNumber cs := by
  rintro ⟨hne, hdigits⟩
  obtain ⟨d, ds, rfl⟩ := List.exists_cons_of_ne_nil hne
  have hd := hdigits d List.mem_cons_self
  cases gap with
  | nil =>
      obtain ⟨c, word, hwords, -, hc⟩ := exists_words_eq_cons s
      rw [hwords] at h
      obtain ⟨rfl, -⟩ := List.cons.inj h
      exact absurd hd (by simp [hc])
  | cons c gap =>
      obtain ⟨rfl, -⟩ := List.cons.inj h
      have hc := Text.isDecimalDigit_of_isBlank (hgap c List.mem_cons_self)
      exact absurd hd (by simp [hc])

namespace Tail

/-- Behind the colon of a severity anything may follow. -/
lemma exists_spells {line column : List Char} (hline : IsNumber line) (hcolumn : IsNumber column)
    (hgap : ∀ c ∈ gap, isBlank c = true) (s : Severity) (rest : List Char) :
    ∃ t : Tail,
      t.Spells (line ++ ':' :: (column ++ ':' :: (gap ++ s.words.toList ++ ':' :: rest))) := by
  obtain ⟨hmessage, gap', hgap', hrest⟩ := trimStart_eq_iff.mp (rfl : trimStart rest = _)
  exact ⟨⟨line, column, s, trimStart rest⟩, hline, hcolumn, hmessage, gap, gap', hgap, hgap',
    by rw [← hrest]⟩

/-- A tail that begins in front of a colon behind which a position follows has its three colons up
to that one, whatever follows. -/
lemma exists_spells_of_straddles {line column : List Char} (hline : IsNumber line)
    (hcolumn : IsNumber column)
    (h : t.Spells (front ++ ':' :: (line ++ ':' :: (column ++ rest)))) (behind : List Char) :
    ∃ t' : Tail, t'.Spells (front ++ ':' :: behind) := by
  obtain ⟨htline, htcolumn, -, gap, gap', hgap, -, h⟩ := h
  -- the colon is one of the three, or stands behind them
  rcases append_colon_cases htline.colon_notMem h.symm with ⟨-, hbehind⟩ | ⟨front, rfl, hcolumns⟩
  · obtain ⟨-, hseverity⟩ :=
      append_colon_inj hline.colon_notMem htcolumn.colon_notMem hbehind
    exact absurd hcolumn (not_isNumber_of_severity hgap hseverity.symm)
  rcases append_colon_cases htcolumn.colon_notMem hcolumns with
    ⟨-, hbehind⟩ | ⟨front, rfl, hseverities⟩
  · exact absurd hline (not_isNumber_of_severity hgap hbehind.symm)
  have hcolon : ':' ∉ gap ++ t.severity.words.toList := by
    rw [List.mem_append, not_or]
    exact ⟨fun hmem => absurd (hgap ':' hmem) (by decide), colon_notMem_words _⟩
  rcases append_colon_cases hcolon hseverities with ⟨rfl, -⟩ | ⟨front, rfl, -⟩
  · simpa using exists_spells htline htcolumn hgap t.severity behind
  · simpa using exists_spells htline htcolumn hgap t.severity (front ++ ':' :: behind)

end Tail

/-! ### Cuts -/

/-- The pattern holds of the line with that file name. -/
def Cuts (cs file : List Char) (t : Tail) : Prop :=
  ∃ rest, cs = file ++ ':' :: rest ∧ t.Spells rest

/-- A line is cut at its first character or behind it. -/
lemma cuts_cons_iff {c : Char} :
    Cuts (c :: cs) file t ↔
      file = [] ∧ c = ':' ∧ t.Spells cs ∨ ∃ front, file = c :: front ∧ Cuts cs front t := by
  constructor
  · rintro ⟨rest, hcs, ht⟩
    cases file with
    | nil =>
        obtain ⟨rfl, rfl⟩ := List.cons.inj hcs
        exact Or.inl ⟨rfl, rfl, ht⟩
    | cons d front =>
        obtain ⟨rfl, rfl⟩ := List.cons.inj hcs
        exact Or.inr ⟨front, rfl, rest, rfl, ht⟩
  · rintro (⟨rfl, rfl, ht⟩ | ⟨front, rfl, rest, rfl, ht⟩)
    · exact ⟨cs, rfl, ht⟩
    · exact ⟨rest, rfl, ht⟩

/-- A line is cut in front of its first character if it can be, and else where the rest is. -/
lemma cut?_cons_eq_some_iff {c : Char} :
    cut? (c :: cs) = some (file, t) ↔
      file = [] ∧ c = ':' ∧ t.Spells cs ∨
        ∃ front, file = c :: front ∧ (∀ t' : Tail, ¬(c = ':' ∧ t'.Spells cs)) ∧
          cut? cs = some (front, t) := by
  have hhead (t' : Tail) :
      (if c = ':' then tail? cs else none) = some t' ↔ c = ':' ∧ t'.Spells cs := by
    split_ifs with hc <;> simp [hc, tail?_eq_some_iff]
  rw [cut?]
  cases hfound : if c = ':' then tail? cs else none with
  | some found =>
      obtain ⟨hc, hspells⟩ := (hhead found).mp hfound
      constructor
      · intro h
        obtain ⟨rfl, rfl⟩ := Prod.mk.inj (Option.some.inj h)
        exact Or.inl ⟨rfl, hc, hspells⟩
      · rintro (⟨rfl, -, ht⟩ | ⟨front, -, hnone, -⟩)
        · -- there is one tail at most behind the first character
          rw [ht.unique hspells]
        · exact absurd ⟨hc, hspells⟩ (hnone found)
  | none =>
      have hnone (t' : Tail) : ¬(c = ':' ∧ t'.Spells cs) := fun h =>
        absurd ((hhead t').mpr h) (by simp [hfound])
      rw [Option.map_eq_some_iff]
      constructor
      · rintro ⟨⟨front, t'⟩, hcut, h⟩
        obtain ⟨rfl, rfl⟩ := Prod.mk.inj h
        exact Or.inr ⟨front, rfl, hnone, hcut⟩
      · rintro (⟨-, h⟩ | ⟨front, rfl, -, hcut⟩)
        · exact absurd h (hnone t)
        · exact ⟨(front, t), hcut, rfl⟩

/-- **A line is cut the shortest way that there is.** -/
lemma cut?_eq_some_iff :
    cut? cs = some (file, t) ↔
      Cuts cs file t ∧ ∀ front t', Cuts cs front t' → file.length ≤ front.length := by
  induction cs generalizing file with
  | nil =>
      constructor
      · intro h
        exact absurd h (by simp [cut?])
      · rintro ⟨⟨rest, hnil, -⟩, -⟩
        exact absurd hnil (by simp)
  | cons c cs ih =>
      rw [cut?_cons_eq_some_iff, cuts_cons_iff]
      constructor
      · rintro (⟨rfl, hspells⟩ | ⟨front, rfl, hnone, hcut⟩)
        · exact ⟨Or.inl ⟨rfl, hspells⟩, fun _ _ _ => Nat.zero_le _⟩
        · -- not here, and behind this character the shortest way
          obtain ⟨hcuts, hmin⟩ := ih.mp hcut
          refine ⟨Or.inr ⟨front, rfl, hcuts⟩, fun other t' h => ?_⟩
          rcases cuts_cons_iff.mp h with ⟨-, hc⟩ | ⟨other, rfl, hother⟩
          · exact absurd hc (hnone t')
          · exact Nat.succ_le_succ (hmin other t' hother)
      · rintro ⟨⟨rfl, hspells⟩ | ⟨front, rfl, hcuts⟩, hmin⟩
        · exact Or.inl ⟨rfl, hspells⟩
        · refine Or.inr ⟨front, rfl, fun t' h => ?_, ih.mpr ⟨hcuts, fun other t' h => ?_⟩⟩
          · -- a cut in front of this character would have been shorter
            exact absurd (hmin [] t' (cuts_cons_iff.mpr (Or.inl ⟨rfl, h⟩))) (by simp)
          · exact Nat.le_of_succ_le_succ
              (hmin (c :: other) t' (cuts_cons_iff.mpr (Or.inr ⟨other, rfl, h⟩)))

/-! ### Printed diagnostics -/

/-- The characters of a printed diagnostic. -/
lemma toList_text (d : Diagnostic) :
    d.text.toList = (d.file.getD "<unknown>").toList ++ ':' ::
      (Nat.toDigits 10 d.line.toNat ++ ':' :: (Nat.toDigits 10 d.column.toNat ++ ':' ::
        ([' '] ++ d.severity.words.toList ++ ':' :: ([' '] ++ d.message.toList)))) := by
  simp [text, toString]

/-- A position that is printed is read back. -/
lemma position?_toDigits (n : UInt32) : position? (Nat.toDigits 10 n.toNat) = some n := by
  have hlimit : n.toNat < Text.limit32 := n.toNat_lt
  rw [position?, Text.numeral?_toDigits hlimit, Option.map_some, UInt32.ofNat_toNat]

/-- A diagnostic comes from the shortest cut, if its numbers are positions. -/
lemma ofLine?_none_eq_some_iff {d : Diagnostic} :
    ofLine? none cs = some d ↔
      ∃ file t, cut? cs = some (file, t) ∧
        (d.file = if file = [] then none else some (String.ofList file)) ∧
        position? t.line = some d.line ∧ position? t.column = some d.column ∧
        d.severity = t.severity ∧ d.message = String.ofList t.message := by
  constructor
  · intro h
    obtain ⟨⟨file, t⟩, hcut, h⟩ := Option.bind_eq_some_iff.mp h
    obtain ⟨line, hline, h⟩ := Option.bind_eq_some_iff.mp h
    obtain ⟨column, hcolumn, h⟩ := Option.bind_eq_some_iff.mp h
    obtain rfl := Option.some.inj h
    exact ⟨file, t, hcut, by simp, hline, hcolumn, rfl, rfl⟩
  · rintro ⟨file, t, hcut, hfile, hline, hcolumn, hseverity, hmessage⟩
    rw [ofLine?, hcut, Option.bind_eq_bind, Option.bind_some]
    cases d
    simp_all

/-- The printed form is not cut inside of the file name: the same cut would have been a shorter one
of the line. -/
lemma length_le_of_cuts_text {d : Diagnostic} (h : ofLine? none cs = some d)
    (hcuts : Cuts d.text.toList front t) :
    (d.file.getD "<unknown>").toList.length ≤ front.length := by
  obtain ⟨file, tail, hcut, hfile, -⟩ := ofLine?_none_eq_some_iff.mp h
  obtain ⟨⟨rest, rfl, -⟩, hmin⟩ := cut?_eq_some_iff.mp hcut
  obtain ⟨behind, htext, ht⟩ := hcuts
  rw [toList_text] at htext
  by_contra hlt
  -- a shorter cut ends inside of the file name, and leaves a tail that goes on behind it
  obtain ⟨gap, hname, rfl⟩ := exists_append_of_length_lt htext (by omega)
  obtain ⟨t', ht'⟩ := Tail.exists_spells_of_straddles (isNumber_toDigits _) (isNumber_toDigits _)
    ht rest
  -- no colon is in the name for a missing file, and a name from the line was cut the shortest way
  by_cases hnil : file = []
  · rw [hfile, if_pos hnil] at hname
    have hcolon : ':' ∈ "<unknown>".toList := by
      rw [show "<unknown>".toList = front ++ ':' :: gap from hname]
      exact List.mem_append_right _ List.mem_cons_self
    exact absurd hcolon (by decide)
  · rw [hfile, if_neg hnil, Option.getD_some, String.toList_ofList] at hname hlt
    refine hlt (hmin front t' ⟨gap ++ ':' :: rest, ?_, ht'⟩)
    rw [hname, List.append_assoc, List.cons_append]

/-- **A printed diagnostic is read back as it is**, but for a file that is not known, which comes
back under the name that stands for it. No shorter front of the printed form is a file name,
whatever colons, numbers and severities stand in the name and in the message. -/
theorem ofLine?_text {line : List Char} {d : Diagnostic} (h : ofLine? none line = some d) :
    ofLine? none d.text.toList = some { d with file := some (d.file.getD "<unknown>") } ∧
      ∀ front t, Cuts d.text.toList front t →
        (d.file.getD "<unknown>").toList.length ≤ front.length := by
  have hshort : ∀ front t, Cuts d.text.toList front t →
      (d.file.getD "<unknown>").toList.length ≤ front.length :=
    fun front t => length_le_of_cuts_text h
  obtain ⟨file, t, hcut, hfile, -, -, -, hmessage⟩ := ofLine?_none_eq_some_iff.mp h
  obtain ⟨⟨rest, -, -, -, hblank, -⟩, -⟩ := cut?_eq_some_iff.mp hcut
  have hname : (d.file.getD "<unknown>").toList ≠ [] := by
    rw [hfile]
    split_ifs with hnil
    · decide
    · simpa using hnil
  -- the printed form has single blanks, and the message begins with none
  have hgap : ∀ c ∈ [' '], isBlank c = true := List.forall_mem_singleton.mpr (by decide)
  have hspells : Tail.Spells ⟨Nat.toDigits 10 d.line.toNat, Nat.toDigits 10 d.column.toNat,
      d.severity, d.message.toList⟩ _ :=
    ⟨isNumber_toDigits _, isNumber_toDigits _, by simpa [hmessage] using hblank, [' '], [' '],
      hgap, hgap, rfl⟩
  refine ⟨ofLine?_none_eq_some_iff.mpr ⟨_, _, cut?_eq_some_iff.mpr ⟨⟨_, toList_text d, hspells⟩,
    hshort⟩, ?_, position?_toDigits _, position?_toDigits _, rfl, ?_⟩, hshort⟩
  · rw [if_neg hname, String.ofList_toList]
  · rw [String.ofList_toList]

/-- A position that no severity follows belongs to the file name, and one in the message stays
there. -/
theorem ofLine?_text_positions :
    ofLine? none "lib:1:2:x:007:3:  error:\tb.c:4:5: warning: c".toList =
        some ⟨some "lib:1:2:x", 7, 3, .error, "b.c:4:5: warning: c"⟩ ∧
      ofLine? none "lib:1:2:x:7:3: error: b.c:4:5: warning: c".toList =
        some ⟨some "lib:1:2:x", 7, 3, .error, "b.c:4:5: warning: c"⟩ := by
  have h : ofLine? none "lib:1:2:x:007:3:  error:\tb.c:4:5: warning: c".toList =
      some ⟨some "lib:1:2:x", 7, 3, .error, "b.c:4:5: warning: c"⟩ := by decide +kernel
  exact ⟨h, (ofLine?_text h).1⟩

end Diagnostic

end UnitIndex
