import Mathlib.Data.List.TakeWhile
import Mathlib.Tactic
import UnitIndex.Proofs.Text.Decimal
import UnitIndex.Text.Blank

/-!
Trimming.

A trimmed text has no blank at either end, and nothing but blanks was taken away; these two facts
say which text it is (`trimStart_eq_iff`, `trim_eq_iff`). So nothing is trimmed off a second time
(`trim_trim`), and trimming takes no notice of anything that maps blanks to blanks and all else to
characters that are none (`trim_map`).
-/

namespace UnitIndex.Text

variable {g cs ds : List Char}

/-! ### What is taken away -/

/-- How many characters are no blanks. -/
def ink (cs : List Char) : ℕ := cs.countP (!isBlank ·)

lemma ink_append (cs ds : List Char) : ink (cs ++ ds) = ink cs + ink ds := List.countP_append

/-- To drop blanks leaves all ink. -/
lemma ink_dropWhile (cs : List Char) : ink (cs.dropWhile isBlank) = ink cs := by
  induction cs with
  | nil => rfl
  | cons c cs ih =>
      by_cases hc : isBlank c
      · rw [List.dropWhile_cons_of_pos hc, ih]
        simp [ink, hc]
      · rw [List.dropWhile_cons_of_neg hc]

/-- Trimming takes nothing but blanks. -/
lemma ink_trim (cs : List Char) : ink (trim cs) = ink cs := by
  have hreverse (ds : List Char) : ink ds.reverse = ink ds := List.countP_reverse
  rw [trim, trimEnd, trimStart, hreverse, ink_dropWhile, hreverse, ink_dropWhile]

/-- Blanks in front make no difference. -/
lemma dropWhile_blanks_append (hg : ∀ c ∈ g, isBlank c = true) (cs : List Char) :
    (g ++ cs).dropWhile isBlank = cs.dropWhile isBlank := by
  rw [List.dropWhile_append, List.dropWhile_eq_nil_iff.mpr hg, List.isEmpty_nil, if_pos rfl]

lemma trim_blanks_append (hg : ∀ c ∈ g, isBlank c = true) (cs : List Char) :
    trim (g ++ cs) = trim cs := by
  rw [trim, trimStart, dropWhile_blanks_append hg, trim, trimStart]

lemma trim_append_blanks (hg : ∀ c ∈ g, isBlank c = true) (cs : List Char) :
    trim (cs ++ g) = trim cs := by
  rw [trim, trim, trimStart, trimStart, List.dropWhile_append]
  cases hcs : cs.dropWhile isBlank with
  | nil =>
      rw [List.isEmpty_nil, if_pos rfl, List.dropWhile_eq_nil_iff.mpr hg]
  | cons c rest =>
      rw [List.isEmpty_cons, if_neg Bool.false_ne_true, trimEnd, trimEnd, List.reverse_append,
        dropWhile_blanks_append fun c hc => hg c (List.mem_reverse.mp hc)]

/-! ### What is left -/

/-- What is left without the blanks in front begins with none of them. -/
lemma trimStart_eq_iff :
    trimStart cs = ds ↔
      (∀ c ∈ ds.head?, isBlank c = false) ∧
        ∃ gap, (∀ c ∈ gap, isBlank c = true) ∧ cs = gap ++ ds := by
  constructor
  · rintro rfl
    refine ⟨fun c hc => ?_, cs.takeWhile isBlank, fun c hc => List.mem_takeWhile_imp hc,
      List.takeWhile_append_dropWhile.symm⟩
    have hhead := List.head?_dropWhile_not isBlank cs
    rw [trimStart] at hc
    rw [hc] at hhead
    simpa using hhead
  · rintro ⟨hds, gap, hgap, rfl⟩
    exact dropWhile_append_stop hgap hds

/-- The end of a text is trimmed as the front of its reverse is. -/
lemma trimEnd_eq_iff :
    trimEnd cs = ds ↔
      (∀ c ∈ ds.getLast?, isBlank c = false) ∧
        ∃ gap, (∀ c ∈ gap, isBlank c = true) ∧ cs = ds ++ gap := by
  have hreverse : trimEnd cs = ds ↔ trimStart cs.reverse = ds.reverse := by
    rw [trimEnd, trimStart, List.reverse_eq_iff]
  rw [hreverse, trimStart_eq_iff, List.head?_reverse]
  constructor
  · rintro ⟨hds, gap, hgap, hcs⟩
    refine ⟨hds, gap.reverse, fun c hc => hgap c (List.mem_reverse.mp hc), ?_⟩
    rw [← List.reverse_reverse cs, hcs, List.reverse_append, List.reverse_reverse]
  · rintro ⟨hds, gap, hgap, rfl⟩
    exact ⟨hds, gap.reverse, fun c hc => hgap c (List.mem_reverse.mp hc), List.reverse_append⟩

/-- With anything but blanks in it a text keeps its first character. -/
lemma exists_trimEnd_eq_cons {c : Char} (hc : c ∈ cs.head?) (hink : ∃ d ∈ cs, isBlank d = false) :
    ∃ rest, trimEnd cs = c :: rest := by
  obtain ⟨d, hd, hd'⟩ := hink
  obtain ⟨-, gap, hgap, hcs⟩ := trimEnd_eq_iff.mp (rfl : trimEnd cs = _)
  cases htrim : trimEnd cs with
  | nil =>
      rw [htrim, List.nil_append] at hcs
      exact absurd (hgap d (hcs ▸ hd)) (by simp [hd'])
  | cons e rest =>
      rw [hcs, htrim] at hc
      obtain rfl := Option.some.inj hc
      exact ⟨rest, rfl⟩

/-- **A text is trimmed to what has no blank at either end and is all but blanks of it.** -/
lemma trim_eq_iff :
    trim cs = ds ↔
      (∀ c ∈ ds.head?, isBlank c = false) ∧ (∀ c ∈ ds.getLast?, isBlank c = false) ∧
        ∃ gap gap', (∀ c ∈ gap, isBlank c = true) ∧ (∀ c ∈ gap', isBlank c = true) ∧
          cs = gap ++ (ds ++ gap') := by
  constructor
  · intro h
    obtain ⟨hlast, gap', hgap', hstart⟩ := trimEnd_eq_iff.mp h
    obtain ⟨hfirst, gap, hgap, hcs⟩ := trimStart_eq_iff.mp hstart
    refine ⟨fun c hc => hfirst c ?_, hlast, gap, gap', hgap, hgap', hcs⟩
    exact List.mem_head?_append_of_mem_head? hc
  · rintro ⟨hfirst, hlast, gap, gap', hgap, hgap', rfl⟩
    have hstart : trimStart ds = ds := trimStart_eq_iff.mpr ⟨hfirst, [], by simp, rfl⟩
    rw [trim_blanks_append hgap, trim_append_blanks hgap', trim, hstart]
    exact trimEnd_eq_iff.mpr ⟨hlast, [], by simp, (List.append_nil ds).symm⟩

/-- Nothing is put into a text. -/
lemma trim_isInfix (cs : List Char) : trim cs <:+: cs := by
  obtain ⟨-, -, gap, gap', -, -, hcs⟩ := trim_eq_iff.mp (rfl : trim cs = _)
  exact ⟨gap, gap', by rw [List.append_assoc]; exact hcs.symm⟩

/-- Nothing is trimmed off a second time. -/
lemma trim_trim (cs : List Char) : trim (trim cs) = trim cs := by
  obtain ⟨hfirst, hlast, -⟩ := trim_eq_iff.mp (rfl : trim cs = _)
  exact trim_eq_iff.mpr ⟨hfirst, hlast, [], [], by simp, by simp, (List.append_nil _).symm⟩

lemma trimmed_trimmed (s : String) : trimmed (trimmed s) = trimmed s := by
  rw [trimmed, trimmed, String.toList_ofList, trim_trim]

/-- Trimming goes by nothing but which characters are blanks. -/
lemma trim_map {f : Char → Char} (hf : ∀ c, isBlank (f c) = isBlank c) (cs : List Char) :
    trim (cs.map f) = (trim cs).map f := by
  have hdrop (ds : List Char) : (ds.map f).dropWhile isBlank = (ds.dropWhile isBlank).map f := by
    rw [List.dropWhile_map]
    congr 2
    exact funext hf
  rw [trim, trimEnd, trimStart, hdrop, ← List.map_reverse, hdrop, ← List.map_reverse, trim, trimEnd,
    trimStart]

end UnitIndex.Text
