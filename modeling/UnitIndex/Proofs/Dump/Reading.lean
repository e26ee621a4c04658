import Mathlib
import UnitIndex.Dump.Reader

/-!
What successful readings of a dump have in common.

Readings are looked at only where they succeed, which is where nothing depends on the places in the
text: `Scanned.said` is a value without them. `Keeps` says of one reading that it leaves the carried
position alone, and what it returns; `Coincide` says of two readings that start with the same
position that they return what belongs together and carry the same position on. Both are closed
under the ways in which readers are put together. Two values that say the same are read as the same
location or range (`coincide_location`, `coincide_range`), and a value that tells neither file nor
line leaves the carried position alone (`keeps_location`, `keeps_range`); of all other readers of
field values the latter is true in any case.
-/

namespace UnitIndex

/-! ### Values apart from their places -/

/-- The name of a field, as far as there is one. -/
def FieldName.said : FieldName → String
  | .plain name _ => name
  | _ => ""

namespace Json

mutual

/-- Whether a value gives a file or a line anywhere but behind `includedFrom`. -/
def tells : Json → Bool
  | .object fields => tellsAny fields
  | _ => false

/-- Whether fields give a file or a line anywhere but behind `includedFrom`. -/
def tellsAny : List (String × Json) → Bool
  | [] => false
  | (name, j) :: rest =>
    name == "file" || name == "line" || (name != "includedFrom" && tells j) || tellsAny rest

end

end Json

namespace Scanned

mutual

/-- What a text says; of what can only be passed over nothing is kept. -/
def said : Scanned → Json
  | .null _ => .null
  | .bool b _ => .bool b
  | .integer n _ => .integer n
  | .real text _ _ _ => .real text
  | .string s _ => .string s
  | .array items _ _ => .array (saidItems items)
  | .object fields _ _ => .object (saidFields fields)
  | .unreadable _ => .null
  | .broken _ _ => .null

/-- What the items of an array say. -/
def saidItems : List Scanned → List Json
  | [] => []
  | v :: vs => said v :: saidItems vs

/-- What the fields of an object say. -/
def saidFields : List (FieldName × Scanned) → List (String × Json)
  | [] => []
  | (key, v) :: rest => (key.said, said v) :: saidFields rest

end

/-- A value that says an object is one, and says the same fields. -/
lemma said_eq_object {v : Scanned} {said : List (String × Json)} (h : v.said = .object said) :
    ∃ fields ending start, v = .object fields ending start ∧ saidFields fields = said := by
  cases v with
  | object fields ending start => exact ⟨fields, ending, start, rfl, Json.object.inj h⟩
  | _ => exact nomatch h

/-- No fields say nothing. -/
lemma saidFields_nil_eq {fields : List (FieldName × Scanned)} (h : [] = saidFields fields) :
    fields = [] := by
  match fields with
  | [] => rfl
  | (key, v) :: rest => exact nomatch h

/-- The first field says the first of what is said. -/
lemma saidFields_cons_eq {name : String} {j : Json} {said : List (String × Json)}
    {fields : List (FieldName × Scanned)} (h : (name, j) :: said = saidFields fields) :
    ∃ key v rest, fields = (key, v) :: rest ∧ name = key.said ∧ j = v.said ∧
      said = saidFields rest := by
  match fields with
  | [] => exact nomatch h
  | (key, v) :: rest =>
    simp only [saidFields, List.cons.injEq, Prod.mk.injEq] at h
    exact ⟨key, v, rest, rfl, h.1.1, h.1.2, h.2⟩

end Scanned

namespace Dump

variable {α β γ δ : Type}

/-! ### Successful readings -/

/-- With the carried position `k`, `x` returns `a` and leaves the position `j`. -/
def Reads (x : Read α) (k : Carry) (a : α) (j : Carry) : Prop := x.run k = .ok (a, j)

section Reads

variable {x : Read α} {f : α → Read β} {k j : Carry} {a : α} {b : β}

@[simp] lemma reads_pure {a' : α} : Reads (pure a) k a' j ↔ a = a' ∧ k = j := by
  constructor
  · rintro ⟨⟩
    exact ⟨rfl, rfl⟩
  · rintro ⟨rfl, rfl⟩
    rfl

@[simp] lemma not_reads_throw {snag : Snag} : ¬Reads (throw snag) k a j := nofun

/-- What two readers return one after the other. -/
lemma reads_bind : Reads (x >>= f) k b j ↔ ∃ a i, Reads x k a i ∧ Reads (f a) i b j := by
  simp only [Reads, StateT.run_bind]
  cases hx : x.run k with
  | error snag => simp [bind, Except.bind]
  | ok r => simp [bind, Except.bind, Prod.ext_iff, eq_comm]

end Reads

/-- `x` leaves the carried position alone, and what it returns satisfies `P`. -/
def Keeps (P : α → Prop) (x : Read α) : Prop := ∀ ⦃k a j⦄, Reads x k a j → P a ∧ k = j

namespace Keeps

variable {P Q : α → Prop} {S : β → Prop} {x : Read α} {f : α → Read β}

/-- To return something reads nothing. -/
lemma pure {a : α} (h : P a) : Keeps P (pure a) := by
  intro k a' j hr
  obtain ⟨rfl, rfl⟩ := reads_pure.mp hr
  exact ⟨h, rfl⟩

/-- What fails returns nothing. -/
lemma throw (snag : Snag) : Keeps P (throw snag) := fun _ _ _ hr => absurd hr not_reads_throw

/-- One reader after the other keeps the carried position, if both do. -/
lemma bind (hx : Keeps P x) (hf : ∀ a, P a → Keeps S (f a)) : Keeps S (x >>= f) := by
  intro k b j hr
  obtain ⟨a, i, ha, hb⟩ := reads_bind.mp hr
  obtain ⟨hP, rfl⟩ := hx ha
  exact hf a hP hb

/-- What the first reader returns may not matter. -/
lemma bind_any (hx : Keeps (fun _ => True) x) (hf : ∀ a, Keeps S (f a)) : Keeps S (x >>= f) :=
  hx.bind fun a _ => hf a

/-- What a reader returns may be changed. -/
lemma map (hx : Keeps P x) (g : α → β) (hg : ∀ a, P a → S (g a)) : Keeps S (g <$> x) := by
  rw [map_eq_pure_bind]
  exact hx.bind fun a ha => .pure (hg a ha)

/-- Less may be said of what a reader returns. -/
lemma mono (hx : Keeps P x) (h : ∀ a, P a → Q a) : Keeps Q x :=
  fun _ _ _ hr => (hx hr).imp_left (h _)

lemma trivial (hx : Keeps P x) : Keeps (fun _ => True) x := hx.mono fun _ _ => True.intro

end Keeps

/-- From one carried position, `x` and `y` return what belongs together and leave one position. -/
def Coincide (R : α → β → Prop) (x : Read α) (y : Read β) : Prop :=
  ∀ ⦃k a b i j⦄, Reads x k a i → Reads y k b j → R a b ∧ i = j

namespace Coincide

variable {R : α → β → Prop} {S : γ → δ → Prop} {x : Read α} {y : Read β}

/-- A reader agrees with itself. -/
lemma refl (x : Read α) : Coincide Eq x x := by
  intro k a b i j ha hb
  rw [Reads, show x.run k = _ from ha] at hb
  simpa using hb

/-- To return two things is to agree on them. -/
lemma pure {a : α} {b : β} (h : R a b) : Coincide R (pure a) (pure b) := by
  intro k a' b' i j ha hb
  obtain ⟨rfl, rfl⟩ := reads_pure.mp ha
  obtain ⟨rfl, rfl⟩ := reads_pure.mp hb
  exact ⟨h, rfl⟩

/-- A reader that fails agrees with every other. -/
lemma throw_left (snag : Snag) : Coincide R (throw snag) y :=
  fun _ _ _ _ _ ha => absurd ha not_reads_throw

lemma throw_right (snag : Snag) : Coincide R x (throw snag) :=
  fun _ _ _ _ _ _ hb => absurd hb not_reads_throw

/-- One reader after the other returns what belongs together, if both do. -/
lemma bind {f : α → Read γ} {g : β → Read δ} (h : Coincide R x y)
    (hfg : ∀ a b, R a b → Coincide S (f a) (g b)) : Coincide S (x >>= f) (y >>= g) := by
  intro k c d i j hc hd
  obtain ⟨a, i₁, ha, hc⟩ := reads_bind.mp hc
  obtain ⟨b, j₁, hb, hd⟩ := reads_bind.mp hd
  obtain ⟨hab, rfl⟩ := h ha hb
  exact hfg a b hab hc hd

lemma bind_eq {f : α → Read γ} {g : α → Read δ} {x y : Read α} (h : Coincide Eq x y)
    (hfg : ∀ a, Coincide S (f a) (g a)) : Coincide S (x >>= f) (y >>= g) :=
  h.bind fun a _ hab => hab ▸ hfg a

/-- What two agreeing readers return may be changed in both. -/
lemma map {f : α → γ} {g : β → δ} (h : Coincide R x y) (hfg : ∀ a b, R a b → S (f a) (g b)) :
    Coincide S (f <$> x) (g <$> y) := by
  rw [map_eq_pure_bind, map_eq_pure_bind]
  exact h.bind fun a b hab => .pure (hfg a b hab)

/-- Two readers that keep the carried position need only return what belongs together. -/
lemma of_keeps {P : α → Prop} {Q : β → Prop} (hx : Keeps P x) (hy : Keeps Q y)
    (h : ∀ a b, P a → Q b → R a b) : Coincide R x y := by
  intro k a b i j ha hb
  obtain ⟨hP, rfl⟩ := hx ha
  obtain ⟨hQ, rfl⟩ := hy hb
  exact ⟨h a b hP hQ, rfl⟩

end Coincide

/-! ### Simple values -/

/-- The end of a value does not change the carried position. -/
lemma keeps_ended (ending : Ending) : Keeps (fun _ => True) (ended ending) := by
  cases ending with
  | closed after => exact .pure True.intro
  | stops read skip => exact .throw read

/-- A value that ends too early is refused. -/
lemma keeps_endedEarly {P : α → Prop} (cause : FaultCause) (ending : Ending) :
    Keeps P (endedEarly cause ending) :=
  (keeps_ended ending).bind fun _ _ => .throw _

lemma Coincide.endedEarly_left {R : α → β → Prop} {y : Read β} (cause : FaultCause)
    (ending : Ending) : Coincide R (endedEarly cause ending) y :=
  fun _ _ _ _ _ ha _ => (keeps_endedEarly (P := fun _ => False) cause ending ha).1.elim

/-- The name of a field is what it says. -/
lemma keeps_keyName (key : FieldName) : Keeps (fun r => key.said = r.1) (keyName key) := by
  cases key with
  | plain name place => exact .pure rfl
  | unreadable read => exact .throw read
  | broken read skip => exact .throw read

/-- Behind a name, a reader goes on with what it says. -/
lemma Keeps.bind_keyName {P : α → Prop} {f : String × Place → Read α} {key : FieldName}
    (hf : ∀ place, Keeps P (f (key.said, place))) : Keeps P (keyName key >>= f) := by
  refine (keeps_keyName key).bind fun ⟨name, place⟩ hname => ?_
  obtain rfl : key.said = name := hname
  exact hf place

/-- A string is read as it stands, and so are the other simple values. -/
lemma keeps_string (v : Scanned) : Keeps (fun s => v.said = .string s) (string v) := by
  cases v with
  | string s after => exact .pure rfl
  | _ => exact .throw _

lemma keeps_bool (v : Scanned) : Keeps (fun b => v.said = .bool b) (bool v) := by
  cases v with
  | bool b after => exact .pure rfl
  | _ => exact .throw _

lemma keeps_kindName (v : Scanned) : Keeps (fun s => v.said = .string s) (kindName v) := by
  cases v with
  | string s after => exact .pure rfl
  | _ => exact .throw _

/-- A number is read if it fits a word. -/
lemma keeps_word (v : Scanned) : Keeps (fun w => v.said = .integer w.toNat) (word v) := by
  cases v with
  | integer n after =>
      cases n with
      | ofNat n =>
          rw [word]
          split
          case isTrue hn =>
            refine .pure ?_
            rw [Scanned.said, UInt64.toNat_ofNat_of_lt' hn]
            rfl
          case isFalse => exact .throw _
      | negSucc n => exact .throw _
  | _ => exact .throw _

/-- An id is written as a string. -/
lemma keeps_id (v : Scanned) :
    Keeps (fun i => ∃ s, v.said = .string s ∧ idOfText? s = some i) (id v) := by
  cases v with
  | string s after =>
      rw [id]
      split
      case h_1 i hi => exact .pure ⟨s, rfl, hi⟩
      case h_2 => exact .throw _
  | _ => exact .throw _

/-- What is skipped leaves the carried position alone. -/
lemma keeps_skip (v : Scanned) : Keeps (fun _ => True) (skip v) := by
  rw [skip]
  split
  · exact .throw _
  · exact .pure True.intro

/-- What does not look at the state leaves the carried position alone. -/
lemma keeps_lift (x : Except Snag α) : Keeps (fun _ => True) (liftM x : Read α) := by
  cases x with
  | error snag => exact .throw snag
  | ok a => exact .pure True.intro

lemma keeps_optional {read : Scanned → Read α} {v : Scanned}
    (h : Keeps (fun _ => True) (read v)) : Keeps (fun _ => True) (optional read v) := by
  cases v with
  | null after => exact .pure True.intro
  | _ => exact h.map _ fun _ _ => True.intro

lemma keeps_optional_string (v : Scanned) : Keeps (fun _ => True) (optional string v) :=
  keeps_optional (keeps_string v).trivial

lemma keeps_optional_bool (v : Scanned) : Keeps (fun _ => True) (optional bool v) :=
  keeps_optional (keeps_bool v).trivial

lemma keeps_optional_id (v : Scanned) : Keeps (fun _ => True) (optional id v) :=
  keeps_optional (keeps_id v).trivial

/-! ### Records -/

/-- A record leaves the carried position alone, if each of its fields does. -/
lemma keeps_recordFields {set? : α → String → Option (Scanned → Read α)}
    (hset : ∀ record name read v, set? record name = some read → Keeps (fun _ => True) (read v))
    (fields : List Field) (ending : Ending) (seen : List String) (record : α) :
    Keeps (fun _ => True) (recordFields set? seen record fields ending) := by
  induction fields generalizing seen record with
  | nil => exact (keeps_ended ending).bind fun _ _ => .pure True.intro
  | cons field rest ih =>
      obtain ⟨key, v⟩ := field
      rw [recordFields]
      refine .bind_keyName fun place => ?_
      dsimp only
      split
      case h_1 => exact (keeps_skip v).bind fun _ _ => ih seen record
      case h_2 read hread =>
        split
        · exact .throw _
        · exact (hset _ _ _ v hread).bind fun record' _ => ih _ record'

/-- No type changes the carried position, written as an object or as an array. -/
lemma keeps_writtenType (v : Scanned) : Keeps (fun _ => True) (writtenType v) := by
  cases v with
  | object fields ending start =>
      refine keeps_recordFields (fun t name read v hread => ?_) fields ending []
        ({} : WrittenType)
      unfold setType? at hread
      split at hread
      case h_1 | h_2 =>
        obtain rfl := Option.some.inj hread
        exact (keeps_optional_string v).bind fun _ _ => .pure True.intro
      case h_3 =>
        obtain rfl := Option.some.inj hread
        exact (keeps_optional_id v).bind fun _ _ => .pure True.intro
      case h_4 => exact nomatch hread
  -- an array must have all three fields, which are read in order
  | array items ending start =>
      match items with
      | [] => exact keeps_endedEarly _ _
      | [a] => exact (keeps_optional_string a).bind fun _ _ => keeps_endedEarly _ _
      | [a, b] =>
        refine (keeps_optional_string a).bind fun _ _ => ?_
        exact (keeps_optional_string b).bind fun _ _ => keeps_endedEarly _ _
      | a :: b :: c :: _ =>
        refine (keeps_optional_string a).bind fun _ _ => ?_
        refine (keeps_optional_string b).bind fun _ _ => ?_
        refine (keeps_optional_id c).bind fun _ _ => ?_
        exact (keeps_lift c.arrayCloses).bind fun _ _ => .pure True.intro
  | _ => exact .throw _

lemma keeps_optional_type (v : Scanned) : Keeps (fun _ => True) (optional writtenType v) :=
  keeps_optional (keeps_writtenType v)

/-- No mention of a declaration changes the carried position. -/
lemma keeps_mention (v : Scanned) : Keeps (fun _ => True) (mention v) := by
  cases v with
  -- an object has its fields in any order, and the id must be among them
  | object fields ending start =>
      refine (keeps_recordFields (fun m name read v hread => ?_) fields ending []
        ({} : MentionDraft)).bind fun m _ => ?_
      · unfold setMention? at hread
        split at hread
        case h_1 =>
          obtain rfl := Option.some.inj hread
          exact (keeps_id v).bind fun _ _ => .pure True.intro
        case h_2 | h_3 =>
          obtain rfl := Option.some.inj hread
          exact (keeps_optional_string v).bind fun _ _ => .pure True.intro
        case h_4 =>
          obtain rfl := Option.some.inj hread
          exact (keeps_optional_type v).bind fun _ _ => .pure True.intro
        case h_5 => exact nomatch hread
      · cases m.id with
        | some i => exact .pure True.intro
        | none => exact keeps_endedEarly _ _
  -- an array has them in a fixed order, and none may be missing
  | array items ending start =>
      match items with
      | [] => exact keeps_endedEarly _ _
      | [a] => exact (keeps_id a).bind fun _ _ => keeps_endedEarly _ _
      | [a, b] =>
        refine (keeps_id a).bind fun _ _ => ?_
        exact (keeps_optional_string b).bind fun _ _ => keeps_endedEarly _ _
      | [a, b, c] =>
        refine (keeps_id a).bind fun _ _ => ?_
        refine (keeps_optional_string b).bind fun _ _ => ?_
        exact (keeps_optional_string c).bind fun _ _ => keeps_endedEarly _ _
      | a :: b :: c :: d :: _ =>
        refine (keeps_id a).bind fun _ _ => ?_
        refine (keeps_optional_string b).bind fun _ _ => ?_
        refine (keeps_optional_string c).bind fun _ _ => ?_
        refine (keeps_optional_type d).bind fun _ _ => ?_
        exact (keeps_lift d.arrayCloses).bind fun _ _ => .pure True.intro
  | _ => exact .throw _

/-! ### Values that say the same -/

section Said

variable {v v' : Scanned}

/-- A reader whose result is determined by what the value says. -/
lemma Coincide.of_said {P : Scanned → α → Prop} {read : Scanned → Read α}
    (hread : ∀ v, Keeps (P v) (read v))
    (hP : ∀ v v' a b, v.said = v'.said → P v a → P v' b → a = b) (hv : v.said = v'.said) :
    Coincide Eq (read v) (read v') :=
  .of_keeps (hread v) (hread v') fun a b => hP v v' a b hv

/-- Values that say the same are read as the same string, truth value, number or id. -/
lemma coincide_string (hv : v.said = v'.said) : Coincide Eq (string v) (string v') :=
  .of_said keeps_string (fun _ _ _ _ h ha hb => Json.string.inj (ha.symm.trans (h.trans hb))) hv

lemma coincide_bool (hv : v.said = v'.said) : Coincide Eq (bool v) (bool v') :=
  .of_said keeps_bool (fun _ _ _ _ h ha hb => Json.bool.inj (ha.symm.trans (h.trans hb))) hv

lemma coincide_word (hv : v.said = v'.said) : Coincide Eq (word v) (word v') := by
  refine .of_said keeps_word (fun _ _ a b h ha hb => ?_) hv
  have hab : (a.toNat : Int) = b.toNat := Json.integer.inj (ha.symm.trans (h.trans hb))
  exact UInt64.toNat_inj.mp (Int.ofNat_inj.mp hab)

lemma coincide_id (hv : v.said = v'.said) : Coincide Eq (id v) (id v') := by
  refine .of_said keeps_id (fun _ _ a b h ha hb => ?_) hv
  obtain ⟨s, hs, ha⟩ := ha
  obtain ⟨s', hs', hb⟩ := hb
  obtain rfl := Json.string.inj (hs.symm.trans (h.trans hs'))
  exact Option.some.inj (ha.symm.trans hb)

/-- From names that say the same, two readers go on with one name. -/
lemma Coincide.bind_keyName {R : α → β → Prop} {f : String × Place → Read α}
    {g : String × Place → Read β} {key key' : FieldName} (hkey : key.said = key'.said)
    (hfg : ∀ place place', Coincide R (f (key.said, place)) (g (key.said, place'))) :
    Coincide R (keyName key >>= f) (keyName key' >>= g) := by
  refine (Coincide.of_keeps (keeps_keyName key) (keeps_keyName key') fun _ _ hr hr' =>
    And.intro hr hr').bind fun ⟨name, place⟩ ⟨name', place'⟩ ⟨hname, hname'⟩ => ?_
  obtain rfl : key.said = name := hname
  obtain rfl : key.said = name' := hkey.trans hname'
  exact hfg place place'

/-- The ends of two values agree. -/
lemma coincide_ended (ending ending' : Ending) :
    Coincide (fun _ _ => True) (ended ending) (ended ending') :=
  .of_keeps (keeps_ended ending) (keeps_ended ending') fun _ _ _ _ => True.intro

lemma coincide_lift (x y : Except Snag α) :
    Coincide (fun _ _ => True) (liftM x : Read α) (liftM y : Read α) :=
  .of_keeps (keeps_lift x) (keeps_lift y) fun _ _ _ _ => True.intro

end Said

/-! ### Locations and ranges -/

/-- A location is put together without a look at its place in the text. -/
lemma coincide_finish (d : BareDraft) (place place' : Place) :
    Coincide Eq (d.finish place) (d.finish place') := by
  rw [BareDraft.finish, BareDraft.finish]
  cases d.col with
  | none => exact .throw_left _
  | some col =>
      cases d.tokLen with
      | none => exact .throw_left _
      | some tokLen => exact .refl _

/-- The file of an includer is the one that its fields say, which they do once. -/
lemma keeps_includerFields (fields : List Field) (ending : Ending) (file : Option String)
    (nested : Bool) :
    Keeps (fun f => (file.map Json.string).or ((Scanned.saidFields fields).lookup "file") =
        some (.string f))
      (includerFields file nested fields ending) := by
  induction fields generalizing file nested with
  | nil =>
      cases file with
      | none => exact keeps_endedEarly _ _
      | some f => exact (keeps_ended ending).bind fun _ _ => .pure rfl
  | cons field rest ih =>
      obtain ⟨key, v⟩ := field
      rw [includerFields]
      refine .bind_keyName fun place => ?_
      dsimp only
      split
      case h_1 hfile =>
        cases file with
        | some f => exact .throw _
        | none =>
            refine (keeps_string v).bind fun s hs => (ih (some s) nested).mono fun f hf => ?_
            simpa [Scanned.saidFields, hfile, hs] using hf
      -- what the includer itself is included from is skipped
      case h_2 hincluded =>
        split
        · exact .throw _
        · refine (keeps_skip v).bind fun _ _ => (ih file true).mono fun f hf => ?_
          simpa [Scanned.saidFields, hincluded, List.lookup_cons] using hf
      case h_3 => exact .throw _

/-- An includer says its file. -/
lemma keeps_includer (v : Scanned) :
    Keeps (fun f => ∃ said, v.said = .object said ∧ said.lookup "file" = some (.string f))
      (includer v) := by
  cases v with
  | object fields ending start =>
      exact (keeps_includerFields fields ending none false).mono fun f hf => ⟨_, rfl, hf⟩
  | _ => exact .throw _

/-- Two includers that say the same have the same file. -/
lemma coincide_includer {v v' : Scanned} (hv : v.said = v'.said) :
    Coincide Eq (includer v) (includer v') := by
  refine .of_said keeps_includer (fun _ _ a b h ha hb => ?_) hv
  obtain ⟨said, hsaid, ha⟩ := ha
  obtain ⟨said', hsaid', hb⟩ := hb
  obtain rfl := Json.object.inj (hsaid.symm.trans (h.trans hsaid'))
  exact Json.string.inj (Option.some.inj (ha.symm.trans hb))

/-- Fields that say the same make the same location. -/
lemma coincide_bareFields {fields fields' : List Field}
    (h : Scanned.saidFields fields = Scanned.saidFields fields') (ending ending' : Ending)
    (d : BareDraft) : Coincide Eq (bareFields d fields ending) (bareFields d fields' ending') := by
  induction fields generalizing fields' d with
  | nil =>
      obtain rfl := Scanned.saidFields_nil_eq h
      exact (coincide_ended ending ending').bind fun _ _ _ => coincide_finish d _ _
  | cons field rest ih =>
      obtain ⟨key, v⟩ := field
      obtain ⟨key', v', rest', rfl, hkey, hv, hrest⟩ := Scanned.saidFields_cons_eq h
      rw [bareFields, bareFields]
      refine .bind_keyName hkey fun place place' => ?_
      dsimp only
      -- whatever the field sets, the rest goes on from there
      have hmore (x : Read BareDraft) := (Coincide.refl x).bind_eq fun d => ih hrest d
      split
      case h_1 | h_3 => exact (coincide_string hv).bind_eq fun _ => hmore _
      case h_2 | h_4 | h_5 | h_6 => exact (coincide_word hv).bind_eq fun _ => hmore _
      case h_7 => exact (coincide_includer hv).bind_eq fun _ => hmore _
      case h_8 => exact (coincide_bool hv).bind_eq fun _ => hmore _
      case h_9 => exact .throw_left _

/-- Values that say the same are the same location. -/
lemma coincide_bareLocation {v v' : Scanned} (hv : v.said = v'.said) :
    Coincide Eq (bareLocation v) (bareLocation v') := by
  cases v with
  | object fields ending start =>
      obtain ⟨fields', ending', start', rfl, h⟩ := Scanned.said_eq_object hv.symm
      match fields with
      | [] => exact .endedEarly_left _ _
      | (key, v) :: rest =>
        obtain ⟨key', v', rest', rfl, hkey, hv, hrest⟩ := Scanned.saidFields_cons_eq h.symm
        rw [bareLocation, bareLocation]
        refine .bind_keyName hkey fun place place' => ?_
        dsimp only
        split
        · exact (coincide_word hv).bind_eq fun offset => coincide_bareFields hrest _ _ _
        · exact .throw_left _
  | _ => exact .throw_left _

/-- Values that say the same are the same location, inside or outside of a macro. -/
lemma coincide_location {v v' : Scanned} (hv : v.said = v'.said) :
    Coincide Eq (location v) (location v') := by
  cases v with
  | object fields ending start =>
      obtain ⟨fields', ending', start', rfl, h⟩ := Scanned.said_eq_object hv.symm
      match fields with
      | [] =>
        obtain rfl := Scanned.saidFields_nil_eq h.symm
        exact (coincide_ended ending ending').bind fun _ _ _ => .refl _
      | (key, v) :: rest =>
        obtain ⟨key', v', rest', rfl, hkey, hv, hrest⟩ := Scanned.saidFields_cons_eq h.symm
        rw [location, location]
        refine .bind_keyName hkey fun place place' => ?_
        dsimp only
        split
        case h_1 =>
          refine (coincide_word hv).bind_eq fun offset => ?_
          exact (coincide_bareFields hrest _ _ _).bind_eq fun _ => .refl _
        -- inside of a macro: where it is spelled, and then where it is expanded
        case h_2 =>
          refine (coincide_bareLocation hv).bind_eq fun spelling => ?_
          match rest with
          | [] => exact .endedEarly_left _ _
          | (key, v) :: more =>
            obtain ⟨key', v', more', rfl, hkey, hv, -⟩ := Scanned.saidFields_cons_eq hrest
            refine .bind_keyName hkey fun place place' => ?_
            dsimp only
            split
            · refine (coincide_bareLocation hv).bind_eq fun expansion => ?_
              exact (coincide_lift _ _).bind fun _ _ _ => .refl _
            · exact .throw_left _
        case h_3 => exact .throw_left _
  | _ => exact .throw_left _

/-- Two ranges begin and end at the same locations, field by field. -/
lemma coincide_rangeFields {fields fields' : List Field}
    (h : Scanned.saidFields fields = Scanned.saidFields fields') (ending ending' : Ending)
    (start stop : Option SourceLocation) :
    Coincide Eq (rangeFields start stop fields ending)
      (rangeFields start stop fields' ending') := by
  induction fields generalizing fields' start stop with
  | nil =>
      obtain rfl := Scanned.saidFields_nil_eq h
      match start, stop with
      | some start, some stop => exact (coincide_ended ending ending').bind fun _ _ _ => .refl _
      | none, _ => exact .endedEarly_left _ _
      | some start, none => exact .endedEarly_left _ _
  | cons field rest ih =>
      obtain ⟨key, v⟩ := field
      obtain ⟨key', v', rest', rfl, hkey, hv, hrest⟩ := Scanned.saidFields_cons_eq h
      rw [rangeFields, rangeFields]
      refine .bind_keyName hkey fun place place' => ?_
      dsimp only
      split
      case h_1 | h_2 =>
        split
        · exact .throw_left _
        · exact (coincide_location hv).bind_eq fun _ => ih hrest _ _
      case h_3 => exact .throw_left _

/-- Values that say the same are read as the same range. -/
lemma coincide_range {v v' : Scanned} (hv : v.said = v'.said) :
    Coincide Eq (range v) (range v') := by
  cases v with
  | object fields ending start =>
      obtain ⟨fields', ending', start', rfl, h⟩ := Scanned.said_eq_object hv.symm
      exact coincide_rangeFields h.symm ending ending' none none
  | _ => exact .throw_left _

/-- Readers that refuse null and agree on what says the same also agree where null may stand. -/
lemma Coincide.optional {read : Scanned → Read α} {v v' : Scanned}
    (hnull : ∀ v, v.said = .null → ∃ snag, read v = throw snag)
    (hread : Coincide Eq (read v) (read v')) (hv : v.said = v'.said) :
    Coincide Eq (optional read v) (optional read v') := by
  -- null is read without a look at the reader, and everything else by it
  have hnone {v : Scanned} (h : v.said = .null) : Keeps (· = none) (Dump.optional read v) := by
    obtain ⟨snag, hsnag⟩ := hnull v h
    cases v with
    | null after => exact .pure rfl
    | _ =>
        rw [Dump.optional, hsnag]
        exact .throw snag
        nofun
  have hsome {v : Scanned} (h : v.said ≠ .null) : Dump.optional read v = some <$> read v := by
    cases v with
    | null after => exact absurd rfl h
    | _ => rfl
  by_cases h : v.said = .null
  · exact .of_keeps (hnone h) (hnone (hv ▸ h)) fun _ _ ha hb => ha.trans hb.symm
  · rw [hsome h, hsome (hv ▸ h)]
    exact hread.map fun _ _ hab => congrArg some hab

lemma coincide_optional_location {v v' : Scanned} (hv : v.said = v'.said) :
    Coincide Eq (optional location v) (optional location v') := by
  refine .optional (fun v h => ?_) (coincide_location hv) hv
  cases v <;> first | exact ⟨_, rfl⟩ | exact nomatch h

lemma coincide_optional_range {v v' : Scanned} (hv : v.said = v'.said) :
    Coincide Eq (optional range v) (optional range v') := by
  refine .optional (fun v h => ?_) (coincide_range hv) hv
  cases v <;> first | exact ⟨_, rfl⟩ | exact nomatch h

/-! ### Locations that tell no position -/

/-- A location that says neither file nor line leaves the carried position alone. -/
lemma keeps_finish {d : BareDraft} (hfile : d.file = none) (hline : d.line = none)
    (place : Place) : Keeps (fun _ => True) (d.finish place) := by
  rw [BareDraft.finish, hfile, hline]
  cases d.col with
  | none => exact .throw _
  | some col =>
      cases d.tokLen with
      | none => exact .throw _
      | some tokLen =>
          rintro k b j ⟨⟩
          exact ⟨True.intro, rfl⟩

/-- The fields of a location leave it alone as well, as long as none tells a file or a line. -/
lemma keeps_bareFields {fields : List Field}
    (h : Json.tellsAny (Scanned.saidFields fields) = false) (ending : Ending) {d : BareDraft}
    (hfile : d.file = none) (hline : d.line = none) :
    Keeps (fun _ => True) (bareFields d fields ending) := by
  induction fields generalizing d with
  | nil => exact (keeps_ended ending).bind fun _ _ => keeps_finish hfile hline _
  | cons field rest ih =>
      obtain ⟨key, v⟩ := field
      rw [bareFields]
      refine .bind_keyName fun place => ?_
      simp only [Scanned.saidFields, Json.tellsAny, Bool.or_eq_false_iff] at h
      obtain ⟨⟨⟨hnofile, hnoline⟩, -⟩, hrest⟩ := h
      dsimp only
      split
      -- a file or a line would be told
      case h_1 heq => simp [heq] at hnofile
      case h_2 heq => simp [heq] at hnoline
      case h_3 => exact (keeps_string v).bind fun _ _ => ih hrest hfile hline
      case h_4 | h_5 | h_6 => exact (keeps_word v).bind fun _ _ => ih hrest hfile hline
      case h_7 => exact (keeps_includer v).bind fun _ _ => ih hrest hfile hline
      case h_8 => exact (keeps_bool v).bind fun _ _ => ih hrest hfile hline
      case h_9 => exact .throw _

/-- Where fields give no position, no field but the file of an includer does. -/
lemma tellsAny_cons {key : FieldName} {v : Scanned} {rest : List Field}
    (h : Json.tellsAny (Scanned.saidFields ((key, v) :: rest)) = false) :
    (key.said ≠ "includedFrom" → v.said.tells = false) ∧
      Json.tellsAny (Scanned.saidFields rest) = false := by
  simp only [Scanned.saidFields, Json.tellsAny, Bool.or_eq_false_iff] at h
  obtain ⟨⟨-, htells⟩, hrest⟩ := h
  exact ⟨fun hkey => by simpa [hkey] using htells, hrest⟩

/-- A value that tells no file and no line leaves the carried position alone. -/
lemma keeps_bareLocation {v : Scanned} (h : v.said.tells = false) :
    Keeps (fun _ => True) (bareLocation v) := by
  cases v with
  | object fields ending start =>
      match fields with
      | [] => exact keeps_endedEarly _ _
      | (key, v) :: rest =>
        rw [bareLocation]
        refine .bind_keyName fun place => ?_
        dsimp only
        split
        · exact (keeps_word v).bind fun _ _ => keeps_bareFields (tellsAny_cons h).2 ending rfl rfl
        · exact .throw _
  | _ => exact .throw _

/-- A location that tells no file and no line leaves the carried position alone, in a macro as well.
-/
lemma keeps_location {v : Scanned} (h : v.said.tells = false) :
    Keeps (fun _ => True) (location v) := by
  cases v with
  | object fields ending start =>
      match fields with
      | [] => exact (keeps_ended ending).bind fun _ _ => .pure True.intro
      | (key, v) :: rest =>
        rw [location]
        refine .bind_keyName fun place => ?_
        obtain ⟨hv, hrest⟩ := tellsAny_cons h
        dsimp only
        split
        case h_1 =>
          refine (keeps_word v).bind fun _ _ => ?_
          exact (keeps_bareFields hrest ending rfl rfl).bind fun _ _ => .pure True.intro
        case h_2 hkey =>
          refine (keeps_bareLocation (hv (by simp [hkey]))).bind fun _ _ => ?_
          match rest with
          | [] => exact keeps_endedEarly _ _
          | (key, v) :: more =>
            refine .bind_keyName fun place => ?_
            dsimp only
            split
            case h_1 hkey =>
              refine (keeps_bareLocation ((tellsAny_cons hrest).1 (by simp [hkey]))).bind
                fun _ _ => ?_
              exact (keeps_lift _).bind fun _ _ => .pure True.intro
            case h_2 => exact .throw _
        case h_3 => exact .throw _
  | _ => exact .throw _

/-- The fields of a range leave the carried position alone, if none tells a file or a line. -/
lemma keeps_rangeFields {fields : List Field}
    (h : Json.tellsAny (Scanned.saidFields fields) = false) (ending : Ending)
    (start stop : Option SourceLocation) :
    Keeps (fun _ => True) (rangeFields start stop fields ending) := by
  induction fields generalizing start stop with
  | nil =>
      match start, stop with
      | some start, some stop => exact (keeps_ended ending).bind fun _ _ => .pure True.intro
      | none, _ => exact keeps_endedEarly _ _
      | some start, none => exact keeps_endedEarly _ _
  | cons field rest ih =>
      obtain ⟨key, v⟩ := field
      rw [rangeFields]
      refine .bind_keyName fun place => ?_
      obtain ⟨hv, hrest⟩ := tellsAny_cons h
      dsimp only
      split
      case h_1 hkey | h_2 hkey =>
        split
        · exact .throw _
        · exact (keeps_location (hv (by simp [hkey]))).bind fun _ _ => ih hrest _ _
      case h_3 => exact .throw _

/-- A range that tells no file and no line leaves the carried position alone. -/
lemma keeps_range {v : Scanned} (h : v.said.tells = false) : Keeps (fun _ => True) (range v) := by
  cases v with
  | object fields ending start => exact keeps_rangeFields h ending none none
  | _ => exact .throw _

end Dump

end UnitIndex
