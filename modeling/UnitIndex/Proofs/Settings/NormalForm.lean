import Mathlib
import UnitIndex.CommandLine.Run
import UnitIndex.Proofs.Text.Trimming

/-!
Settings in normal form.

Texts are trimmed, numbers forced into bounds and lists cleaned; to do that a second time changes
nothing, with one exception. An extension is trimmed before the dots in front of it are dropped, so
a blank right behind them (`HidesBlank`) comes to stand in front, and is trimmed off only the next
time. The main statement is `normalized_twice`, for settings of any kind and for those of a run,
which are brought to normal form when the file is read and once more when the command line has been
laid over them.
-/

namespace UnitIndex

open UnitIndex.Text (isBlank trim trim_eq_iff)

/-! ### Small letters -/

namespace Text

/-- A capital letter is made small, and all else is left as it is. -/
lemma toLower_cases (c : Char) :
    c.toLower = c ∨ 65 ≤ c.toNat ∧ c.toNat ≤ 90 ∧ c.toLower.toNat = c.toNat + 32 := by
  rw [Char.toLower]
  split
  · next h =>
      simp only [ge_iff_le, UInt32.le_iff_toNat_le] at h
      have hA : 'A'.val.toNat = 65 := rfl
      have hZ : 'Z'.val.toNat = 90 := rfl
      have hstep : ('a'.val - 'A'.val).toNat = 32 := rfl
      have hc : c.val.toNat = c.toNat := rfl
      have hsum : (c.val + ('a'.val - 'A'.val)).toNat = c.val.toNat + 32 := by
        rw [UInt32.toNat_add]
        omega
      exact Or.inr ⟨by omega, by omega, hsum⟩
  · exact Or.inl rfl

/-- A small letter is no capital. -/
lemma toLower_toLower (c : Char) : c.toLower.toLower = c.toLower := by
  rcases toLower_cases c with h | h
  · rw [h, h]
  · rcases toLower_cases c.toLower with h' | h'
    · exact h'
    · omega

/-- Making letters small makes no blanks, and takes none away. -/
lemma isBlank_toLower (c : Char) : isBlank c.toLower = isBlank c := by
  rcases toLower_cases c with h | h
  · rw [h]
  · have hcapital : isBlank c = false := by
      simp only [isBlank, Bool.or_eq_false_iff, Bool.and_eq_false_iff, decide_eq_false_iff_not,
        beq_eq_false_iff_ne]
      omega
    have hsmall : isBlank c.toLower = false := by
      simp only [isBlank, Bool.or_eq_false_iff, Bool.and_eq_false_iff, decide_eq_false_iff_not,
        beq_eq_false_iff_ne]
      omega
    rw [hcapital, hsmall]

lemma toLower_beq_dot (c : Char) : (c.toLower == '.') = (c == '.') := by
  rcases toLower_cases c with h | ⟨hA, -, h⟩
  · rw [h]
  · have hdot : '.'.toNat = 46 := rfl
    have hcapital : c ≠ '.' := fun hc => by rw [hc] at hA; omega
    have hsmall : c.toLower ≠ '.' := fun hc => by rw [hc] at h; omega
    rw [beq_eq_false_iff_ne.mpr hcapital, beq_eq_false_iff_ne.mpr hsmall]

end Text

namespace IndexingSettings

/-! ### One extension -/

/-- What stands behind the dots of the trimmed text. -/
def undotted (cs : List Char) : List Char := (trim cs).dropWhile (· == '.')

/-- The text begins with dots, or with blanks and then dots. Right behind the dots stands a blank,
but not only blanks. -/
def HidesBlank (ext : String) : Prop :=
  ∃ gap dots behind, ext.toList = gap ++ (dots ++ behind) ∧ (∀ c ∈ gap, isBlank c = true) ∧
    dots ≠ [] ∧ (∀ c ∈ dots, c = '.') ∧ (∃ c ∈ behind.head?, isBlank c = true) ∧
    ∃ c ∈ behind, isBlank c = false

variable {cs : List Char} {ext : String} {exts seen : List String}

lemma toList_cleanExtension (ext : String) :
    (cleanExtension ext).toList = (undotted ext.toList).map Char.toLower := by
  rw [cleanExtension, Text.lowerAscii, String.toList_ofList, String.toList_ofList, undotted]

/-- So dots are dropped in the same way before and after. -/
lemma undotted_map_toLower (cs : List Char) :
    undotted (cs.map Char.toLower) = (undotted cs).map Char.toLower := by
  rw [undotted, Text.trim_map Text.isBlank_toLower, List.dropWhile_map, undotted]
  congr 2
  exact funext Text.toLower_beq_dot

/-- The trimmed text is some dots and what is behind them. -/
lemma exists_undotted (cs : List Char) :
    ∃ dots, (∀ c ∈ dots, c = '.') ∧ trim cs = dots ++ undotted cs :=
  ⟨(trim cs).takeWhile (· == '.'), fun _ hc => by simpa using List.mem_takeWhile_imp hc,
    List.takeWhile_append_dropWhile.symm⟩

/-- The text ends as the trimmed text does. -/
lemma getLast?_undotted (cs : List Char) : ∀ c ∈ (undotted cs).getLast?, isBlank c = false := by
  obtain ⟨dots, -, htrim⟩ := exists_undotted cs
  obtain ⟨-, hlast, -⟩ := trim_eq_iff.mp htrim
  exact fun c hc => hlast c (List.mem_getLast?_append_of_mem_getLast? hc)

/-- Nothing is put into a text. -/
lemma undotted_isInfix (cs : List Char) : undotted cs <:+: cs :=
  (List.dropWhile_suffix _).isInfix.trans (Text.trim_isInfix cs)

/-- The text is changed no more, if no blank stands in front of it. -/
lemma undotted_undotted_iff (cs : List Char) :
    undotted (undotted cs) = undotted cs ↔ ∀ c ∈ (undotted cs).head?, isBlank c = false := by
  constructor
  · intro h
    have hle := (List.dropWhile_suffix (l := trim (undotted cs)) (· == '.')).length_le
    rw [← undotted, h] at hle
    have hpart := Text.trim_isInfix (undotted cs)
    exact (trim_eq_iff.mp (hpart.eq_of_length (le_antisymm hpart.length_le hle))).1
  · intro h
    have htrim : trim (undotted cs) = undotted cs :=
      trim_eq_iff.mpr ⟨h, getLast?_undotted cs, [], [], by simp, by simp, by simp⟩
    rw [undotted, htrim, undotted, List.dropWhile_idempotent]

/-- With blanks in front and dots behind them, the rest is left, which is trimmed at its end. -/
lemma undotted_append {gap dots behind rest : List Char} {c : Char}
    (hgap : ∀ c ∈ gap, isBlank c = true) (hne : dots ≠ []) (hdots : ∀ c ∈ dots, c = '.')
    (hbehind : Text.trimEnd behind = c :: rest) (hc : c ≠ '.') :
    undotted (gap ++ (dots ++ behind)) = c :: rest := by
  obtain ⟨hlast, gap', hgap', htext⟩ := Text.trimEnd_eq_iff.mp hbehind
  have htrim : trim (gap ++ (dots ++ behind)) = dots ++ c :: rest := by
    refine trim_eq_iff.mpr ⟨?_, ?_, gap, gap', hgap, hgap', ?_⟩
    · obtain ⟨d, more, rfl⟩ := List.exists_cons_of_ne_nil hne
      rintro _ ⟨⟩
      rw [hdots d List.mem_cons_self]
      decide
    · rw [List.getLast?_append_of_ne_nil _ (List.cons_ne_nil c rest)]
      exact hlast
    · rw [htext, List.append_assoc]
  rw [undotted, htrim]
  refine Text.dropWhile_append_stop (fun d hd => by simp [hdots d hd]) ?_
  rintro _ ⟨⟩
  exact beq_eq_false_iff_ne.mpr hc

/-- Behind the dots of the trimmed text a blank stands in front. -/
lemma hidesBlank_iff (ext : String) :
    HidesBlank ext ↔ ∃ c ∈ (undotted ext.toList).head?, isBlank c = true := by
  constructor
  · rintro ⟨gap, dots, behind, htext, hgap, hne, hdots, ⟨c, hc, hblank⟩, hink⟩
    obtain ⟨rest, hbehind⟩ := Text.exists_trimEnd_eq_cons hc hink
    -- the dots end at the blank
    have hdot : c ≠ '.' := by
      rintro rfl
      exact absurd hblank (by decide)
    exact ⟨c, by rw [htext, undotted_append hgap hne hdots hbehind hdot]; rfl, hblank⟩
  · rintro ⟨c, hc, hblank⟩
    obtain ⟨dots, hdots, htrim⟩ := exists_undotted ext.toList
    obtain ⟨hfirst, -, gap, gap', hgap, -, htext⟩ := trim_eq_iff.mp htrim
    refine ⟨gap, dots, undotted ext.toList ++ gap', ?_, hgap, ?_, hdots, ⟨c, ?_, hblank⟩, ?_⟩
    · exact htext.trans (by rw [List.append_assoc])
    · rintro rfl
      exact absurd (hfirst c hc) (by simp [hblank])
    · exact List.mem_head?_append_of_mem_head? hc
    · have hne : undotted ext.toList ≠ [] := by
        rintro hnil
        rw [hnil] at hc
        exact absurd hc (by simp)
      have hlast := List.getLast?_eq_some_getLast hne
      exact ⟨_, List.mem_append_left _ (List.getLast_mem hne), getLast?_undotted _ _ hlast⟩

/-- **An extension is as it will stay, unless its dots hide a blank.** -/
lemma cleanExtension_cleanExtension_iff (ext : String) :
    cleanExtension (cleanExtension ext) = cleanExtension ext ↔ ¬HidesBlank ext := by
  have hsmall : Char.toLower ∘ Char.toLower = Char.toLower := funext Text.toLower_toLower
  have hsame : cleanExtension (cleanExtension ext) = cleanExtension ext ↔
      undotted (undotted ext.toList) = undotted ext.toList := by
    rw [← String.toList_inj, toList_cleanExtension, toList_cleanExtension, undotted_map_toLower,
      List.map_map, hsmall]
    refine ⟨fun h => (undotted_isInfix _).eq_of_length ?_, fun h => by rw [h]⟩
    simpa using congrArg List.length h
  rw [hsame, undotted_undotted_iff, hidesBlank_iff]
  simp

/-! ### Lists of extensions -/

/-- Repetitions are left out, and all else stays in its order. -/
lemma withoutRepeats_sublist (seen es : List String) : (withoutRepeats seen es).Sublist es := by
  induction es generalizing seen with
  | nil => exact List.Sublist.slnil
  | cons e es ih =>
      rw [withoutRepeats]
      split
      · exact (ih seen).cons e
      · exact (ih (e :: seen)).cons_cons e

/-- A text that has not been seen before stays, once. -/
lemma mem_withoutRepeats {e : String} {es : List String} :
    e ∈ withoutRepeats seen es ↔ e ∈ es ∧ e ∉ seen := by
  induction es generalizing seen with
  | nil => simp [withoutRepeats]
  | cons d es ih =>
      rw [withoutRepeats]
      -- the first text has been seen, or from now on it has
      by_cases hd : d ∈ seen
      · rw [if_pos hd, ih, List.mem_cons]
        constructor
        · rintro ⟨he, hseen⟩
          exact ⟨Or.inr he, hseen⟩
        · rintro ⟨rfl | he, hseen⟩
          · exact absurd hd hseen
          · exact ⟨he, hseen⟩
      · rw [if_neg hd, List.mem_cons, ih, List.mem_cons]
        by_cases he : e = d
        · simp [he, hd]
        · simp [he]

/-- No text is left twice. -/
lemma nodup_withoutRepeats (seen es : List String) : (withoutRepeats seen es).Nodup := by
  induction es generalizing seen with
  | nil => exact List.nodup_nil
  | cons e es ih =>
      rw [withoutRepeats]
      split
      · exact ih seen
      · exact List.nodup_cons.mpr ⟨fun he => (mem_withoutRepeats.mp he).2 List.mem_cons_self, ih _⟩

/-- Where there is no repetition nothing is left out. -/
lemma withoutRepeats_eq_self {es : List String} (hes : es.Nodup) (hseen : ∀ e ∈ es, e ∉ seen) :
    withoutRepeats seen es = es := by
  induction es generalizing seen with
  | nil => rfl
  | cons e es ih =>
      obtain ⟨he, hes⟩ := List.nodup_cons.mp hes
      obtain ⟨hnew, hseen⟩ := List.forall_mem_cons.mp hseen
      rw [withoutRepeats, if_neg hnew, ih hes]
      intro d hd
      rw [List.mem_cons, not_or]
      exact ⟨fun hde => he (hde ▸ hd), hseen d hd⟩

/-- The extensions as they are cleaned, before the defaults stand in for an empty list. -/
def cleanExtensions (exts : List String) : List String :=
  withoutRepeats [] ((exts.map cleanExtension).filter (· ≠ ""))

/-- An empty list of extensions gives way to the default. -/
lemma extensions_normalized (s : IndexingSettings) :
    s.normalized.extensions = if (cleanExtensions s.extensions).isEmpty then
      ({} : IndexingSettings).extensions else cleanExtensions s.extensions := rfl

/-- A cleaned list has the cleaned extensions that are not empty. -/
lemma mem_cleanExtensions :
    ext ∈ cleanExtensions exts ↔ ext ≠ "" ∧ ∃ e ∈ exts, cleanExtension e = ext := by
  simp only [cleanExtensions, mem_withoutRepeats, List.mem_filter, List.mem_map,
    List.not_mem_nil, not_false_eq_true, and_true, decide_eq_true_eq]
  exact and_comm

/-- A list of clean extensions without repetitions stays as it is. -/
lemma cleanExtensions_eq_self (hne : "" ∉ exts) (hnodup : exts.Nodup)
    (h : ∀ e ∈ exts, cleanExtension e = e) : cleanExtensions exts = exts := by
  have hmap : exts.map cleanExtension = exts := by
    rw [List.map_congr_left h, List.map_id']
  have hfilter : exts.filter (· ≠ "") = exts :=
    List.filter_eq_self.mpr fun e he => decide_eq_true fun hnil => hne (hnil ▸ he)
  rw [cleanExtensions, hmap, hfilter, withoutRepeats_eq_self hnodup fun e _ => List.not_mem_nil]

/-- Where the list stays as it is, nothing is dropped from it, so each extension stays. -/
lemma cleanExtension_of_cleanExtensions_eq_self (h : cleanExtensions exts = exts) :
    ∀ e ∈ exts, cleanExtension e = e := by
  have hsub : (cleanExtensions exts).Sublist (exts.map cleanExtension) :=
    (withoutRepeats_sublist _ _).trans List.filter_sublist
  have hmap : exts.map cleanExtension = exts.map id := by
    rw [List.map_id, ← hsub.eq_of_length (by rw [h, List.length_map]), h]
  exact List.map_inj_left.mp hmap

/-- Cleaning a cleaned list changes nothing just if no extension hides a blank. -/
lemma cleanExtensions_cleanExtensions_iff (exts : List String) :
    cleanExtensions (cleanExtensions exts) = cleanExtensions exts ↔
      ∀ e ∈ exts, ¬HidesBlank e := by
  constructor
  · intro h e he hhides
    -- a blank is left of an extension that hides one, so that the list keeps it
    have hne : cleanExtension e ≠ "" := by
      intro hnil
      obtain ⟨c, hc, -⟩ := (hidesBlank_iff e).mp hhides
      have hlist := toList_cleanExtension e
      rw [hnil, String.toList_empty, eq_comm, List.map_eq_nil_iff] at hlist
      rw [hlist] at hc
      exact absurd hc (by simp)
    refine (cleanExtension_cleanExtension_iff e).mp ?_ hhides
    exact cleanExtension_of_cleanExtensions_eq_self h _
      (mem_cleanExtensions.mpr ⟨hne, e, he, rfl⟩)
  · intro h
    refine cleanExtensions_eq_self (fun hnil => (mem_cleanExtensions.mp hnil).1 rfl)
      (nodup_withoutRepeats _ _) fun ext hext => ?_
    obtain ⟨-, e, he, rfl⟩ := mem_cleanExtensions.mp hext
    exact (cleanExtension_cleanExtension_iff e).mpr (h e he)

/-- The default is clean. -/
lemma cleanExtensions_default :
    cleanExtensions ({} : IndexingSettings).extensions = ({} : IndexingSettings).extensions := by
  decide +kernel

/-- The defaults, which stand in for an empty list, are clean. -/
lemma extensions_normalized_normalized_iff (s : IndexingSettings) :
    s.normalized.normalized.extensions = s.normalized.extensions ↔
      ∀ e ∈ s.extensions, ¬HidesBlank e := by
  rw [← cleanExtensions_cleanExtensions_iff, extensions_normalized, extensions_normalized]
  by_cases hnil : cleanExtensions s.extensions = []
  · rw [hnil, List.isEmpty_nil, if_pos rfl, cleanExtensions_default, ite_self]
    exact iff_of_true rfl rfl
  · rw [List.isEmpty_eq_false_iff.mpr hnil, if_neg Bool.false_ne_true]
    split_ifs with hempty
    · rw [List.isEmpty_iff] at hempty
      refine iff_of_false (fun hdefault => ?_) fun hsame => hnil (hsame.symm.trans hempty)
      rw [← hdefault, cleanExtensions_default] at hempty
      exact absurd hempty (by simp)
    · exact Iff.rfl

end IndexingSettings

/-! ### The other settings -/

attribute [ext] CompilerSettings IndexingSettings Settings

namespace CompilerSettings

/-- Trimmed texts that are not empty stay as they are. -/
lemma cleaned_cleaned (texts : List String) : cleaned (cleaned texts) = cleaned texts := by
  have htrimmed : ∀ t ∈ cleaned texts, Text.trimmed t = t := by
    intro t ht
    obtain ⟨s, -, rfl⟩ := List.mem_map.mp (List.mem_of_mem_filter ht)
    exact Text.trimmed_trimmed s
  have hmap : (cleaned texts).map Text.trimmed = cleaned texts := by
    rw [List.map_congr_left htrimmed, List.map_id']
  rw [cleaned, hmap, cleaned, List.filter_filter]
  simp only [Bool.and_self]

/-- The name of the front end settles at once. -/
lemma frontEnd_normalized_normalized (c : CompilerSettings) :
    c.normalized.normalized.frontEnd = c.normalized.frontEnd := by
  have hdefault : Text.trimmed ({} : CompilerSettings).frontEnd =
      ({} : CompilerSettings).frontEnd := by decide +kernel
  simp only [normalized]
  by_cases h : Text.trimmed c.frontEnd = ""
  · rw [if_pos h, hdefault, ite_self]
  · rw [if_neg h, Text.trimmed_trimmed, if_neg h]

lemma standard_normalized_normalized (c : CompilerSettings) :
    c.normalized.normalized.standard = c.normalized.standard := by
  simp only [normalized]
  cases c.standard with
  | none => rfl
  | some text =>
      rw [Option.map_some, Option.filter_some]
      by_cases h : Text.trimmed text = ""
      · simp [h]
      · simp [h, Text.trimmed_trimmed, Option.filter_some]

/-- All settings of the compiler settle at once. -/
lemma normalized_normalized (c : CompilerSettings) : c.normalized.normalized = c.normalized := by
  have hfrontEnd := frontEnd_normalized_normalized c
  have hstandard := standard_normalized_normalized c
  exact CompilerSettings.ext hfrontEnd hstandard (cleaned_cleaned _) (cleaned_cleaned _)
    (cleaned_cleaned _) (cleaned_cleaned _)

end CompilerSettings

namespace IndexingSettings

/-- Nothing but the extensions is changed the second time. -/
lemma normalized_normalized_iff (s : IndexingSettings) :
    s.normalized.normalized = s.normalized ↔
      s.normalized.normalized.extensions = s.normalized.extensions := by
  refine ⟨fun h => by rw [h], fun h => ?_⟩
  have hdepth : s.normalized.normalized.maxTypeDepth = s.normalized.maxTypeDepth := by
    simp only [normalized, leastTypeDepth, mostTypeDepth]
    omega
  have htimeout : s.normalized.normalized.timeoutSecs = s.normalized.timeoutSecs := by
    simp only [normalized, Option.filter_filter, Bool.and_self]
  exact IndexingSettings.ext rfl rfl hdepth h htimeout

end IndexingSettings

namespace Settings

/-- **Settings in normal form stay as they are, unless an extension hid a blank.** -/
lemma normalized_normalized_iff (s : Settings) :
    s.normalized.normalized = s.normalized ↔
      ∀ e ∈ s.indexing.extensions, ¬IndexingSettings.HidesBlank e := by
  rw [← IndexingSettings.extensions_normalized_normalized_iff,
    ← IndexingSettings.normalized_normalized_iff]
  refine ⟨fun h => congrArg Settings.indexing h, fun h => ?_⟩
  have hworkers : s.normalized.normalized.workers = s.normalized.workers := by
    simp [normalized]
  exact Settings.ext s.compiler.normalized_normalized h rfl hworkers

/-- The defaults are in normal form. -/
lemma normalized_default : ({} : Settings).normalized = {} := by decide +kernel

/-! ### The settings of a run -/

/-- The settings are those that a settings file writes, or the defaults where there is no file. -/
def WrittenIn (tree : FileTree) (raw : Settings) : Option Path → Prop
  | none => raw = {}
  | some file => ∃ text, tree.readText? file = some text ∧ written? text = some raw

variable {tree : FileTree} {file : Path} {s : Settings}

lemma exists_of_bind_eq_ok {ε α β : Type} {x : Except ε α} {f : α → Except ε β} {b : β}
    (h : x >>= f = .ok b) : ∃ a, x = .ok a ∧ f a = .ok b := by
  cases x with
  | error e => exact absurd h (by simp [bind, Except.bind])
  | ok a => exact ⟨a, rfl, h⟩

/-- Settings that are loaded are those that stand in the file, in normal form. -/
lemma exists_writtenIn_of_load (h : load tree file = .ok s) :
    ∃ raw, WrittenIn tree raw (some file) ∧ s = raw.normalized := by
  rw [load] at h
  cases htext : tree.readText? file with
  | none => simp [htext] at h
  | some text =>
      cases hraw : written? text with
      | none => simp [htext, ofText?, hraw] at h
      | some raw =>
          simp only [htext, ofText?, hraw, Option.map_some, Except.ok.injEq] at h
          exact ⟨raw, ⟨text, htext, hraw⟩, h.symm⟩

lemma exists_writtenIn_of_discover {start : Path} {found : Option Path}
    (h : discover tree start = .ok (s, found)) :
    ∃ raw, WrittenIn tree raw found ∧ s = raw.normalized := by
  rw [discover] at h
  cases hfile : findFile? tree start with
  | none =>
      simp only [hfile, Except.ok.injEq, Prod.mk.injEq] at h
      obtain ⟨rfl, rfl⟩ := h
      exact ⟨{}, rfl, normalized_default.symm⟩
  | some file =>
      rw [hfile] at h
      obtain ⟨loaded, hload, h⟩ := exists_of_bind_eq_ok h
      obtain ⟨rfl, rfl⟩ := Prod.mk.inj (Except.ok.inj h)
      exact exists_writtenIn_of_load hload

end Settings

namespace Arguments

/-- Nothing on the command line overrides a setting. -/
structure OverridesNothing (a : Arguments) : Prop where
  includePaths : a.includePaths = []
  preIncludes : a.preIncludes = []
  defines : a.defines = []
  frontEnd : a.frontEnd = none
  standard : a.standard = none
  workers : a.workers = none
  indexLocals : a.indexLocals = false
  typeUses : a.typeUses = false
  verbosity : a.verbosity = 0

variable {a : Arguments} {tree : FileTree} {s : Settings} {file : Option Path}

/-- A command line that says nothing changes nothing. -/
lemma OverridesNothing.overlay (h : a.OverridesNothing) (s : Settings) : a.overlay s = s := by
  have hlevel : s.level.raised 0 = s.level := by cases s.level <;> rfl
  rw [Arguments.overlay, h.includePaths, h.preIncludes, h.defines, h.frontEnd, h.standard,
    h.workers, h.indexLocals, h.typeUses, h.verbosity, hlevel]
  simp

/-- Without overrides the written settings are brought to normal form twice. -/
lemma OverridesNothing.exists_writtenIn (h : a.OverridesNothing)
    (hs : a.settings tree = .ok (s, file)) :
    ∃ raw, Settings.WrittenIn tree raw file ∧ s = raw.normalized.normalized := by
  rw [Arguments.settings] at hs
  cases hfile : a.settingsFile with
  | none =>
      rw [hfile] at hs
      obtain ⟨⟨found, place⟩, hfound, hs⟩ := Settings.exists_of_bind_eq_ok hs
      obtain ⟨rfl, rfl⟩ := Prod.mk.inj (Except.ok.inj hs)
      obtain ⟨raw, hwritten, rfl⟩ := Settings.exists_writtenIn_of_discover hfound
      exact ⟨raw, hwritten, by rw [h.overlay]⟩
  | some place =>
      rw [hfile] at hs
      obtain ⟨found, hfound, hs⟩ := Settings.exists_of_bind_eq_ok hs
      obtain ⟨rfl, rfl⟩ := Prod.mk.inj (Except.ok.inj hs)
      obtain ⟨raw, hwritten, rfl⟩ := Settings.exists_writtenIn_of_load hfound
      exact ⟨raw, hwritten, by rw [h.overlay]⟩

end Arguments

namespace Settings

open IndexingSettings (HidesBlank)

/-- **Settings that are brought to normal form twice are as after the first time just if no
extension hides a blank.** So it is with the settings of a run on which the command line has no
bearing. -/
theorem normalized_twice (s : Settings) :
    (s.normalized.normalized = s.normalized ↔ ∀ e ∈ s.indexing.extensions, ¬HidesBlank e) ∧
    ∀ (a : Arguments) (tree : FileTree) (settled : Settings) (file : Option Path),
      a.OverridesNothing → a.settings tree = .ok (settled, file) →
        ∃ raw, WrittenIn tree raw file ∧ settled = raw.normalized.normalized ∧
          (settled = raw.normalized ↔ ∀ e ∈ raw.indexing.extensions, ¬HidesBlank e) := by
  refine ⟨s.normalized_normalized_iff, fun a tree settled file ha hsettled => ?_⟩
  obtain ⟨raw, hwritten, rfl⟩ := ha.exists_writtenIn hsettled
  exact ⟨raw, hwritten, rfl, raw.normalized_normalized_iff⟩

namespace HiddenBlank

/-- A settings file with two extensions. A blank hides behind the dot of the first. -/
def document : String := "[indexing]\nextensions = [\". c\", \".H\"]\n"

/-- The settings that it writes. -/
def raw : Settings := { indexing := { extensions := [". c", ".H"] } }

/-- The tree of the file. -/
def files : FileTree := { entries := [(["settings"], .file ⟨document, false⟩)] }

/-- The path of the file. -/
def place : Path := ⟨"/settings"⟩

/-- What a run makes of the settings. -/
def settled : Settings := { indexing := { extensions := ["c", "h"] } }

lemma written?_document : written? document = some raw := by decide +kernel

/-- The settings of the file, read without anything on the command line. -/
lemma settings_files : ({ settingsFile := some place } : Arguments).settings files =
    .ok (settled, some place) := by
  have hread : files.readText? place = some document := by cbv
  have hload : load files place = .ok raw.normalized := by
    simp only [load, hread, ofText?, written?_document, Option.map_some]
  have hsettled : (({ settingsFile := some place } : Arguments).overlay raw.normalized).normalized =
      settled := by decide +kernel
  simp only [Arguments.settings, hload, bind, Except.bind, pure, Except.pure, hsettled]

end HiddenBlank

/-- The first time the blank comes to stand in front, and the second time it is trimmed off. -/
theorem normalized_hiddenBlank :
    HiddenBlank.raw.normalized.indexing.extensions = [" c", "h"] ∧
      HiddenBlank.raw.normalized.normalized.indexing.extensions = ["c", "h"] ∧
      HiddenBlank.raw.normalized.normalized ≠ HiddenBlank.raw.normalized := by
  decide +kernel

open HiddenBlank in
/-- A blank behind the dot of an extension is still there when the settings are loaded. -/
theorem normalized_twice_hiddenBlank :
    ({ settingsFile := some place } : Arguments).OverridesNothing ∧
      ({ settingsFile := some place } : Arguments).settings files = .ok (settled, some place) ∧
      ∃ raw, WrittenIn files raw (some place) ∧ settled = raw.normalized.normalized ∧
        (settled = raw.normalized ↔ ∀ e ∈ raw.indexing.extensions, ¬HidesBlank e) := by
  have hnothing : ({ settingsFile := some place } : Arguments).OverridesNothing :=
    ⟨rfl, rfl, rfl, rfl, rfl, rfl, rfl, rfl, rfl⟩
  exact ⟨hnothing, settings_files, (normalized_twice raw).2 _ _ _ _ hnothing settings_files⟩

end Settings

end UnitIndex
