import Mathlib.Tactic
import UnitIndex.Fact.Lines
import UnitIndex.Proofs.Json.Compact
import UnitIndex.Text.Split

/-!
Facts written to lines and read back.

Reading undoes writing for each part of a fact and so for facts (`Fact.ofJson?_toJson`,
`Fact.read_compact`); fields that are left out come back as absent. There is no line break in a
compact form, so cutting what was written at the line breaks gives the lines again
(`splitOn_lines`). A sink whose writer takes everything keeps the lines of its facts
(`LineSink.emitAll_unlimited`), and `LineSink.emitAll_reads` puts this together.
-/

namespace UnitIndex

/-! ### Reading values back -/

/-- A word is read back from its numeral. -/
lemma word32?_integer (n : UInt32) : (Json.integer n.toNat).word32? = some n := by
  have hnat : (Json.integer n.toNat).nat? = some n.toNat := rfl
  rw [Json.word32?, hnat, Option.bind_some, if_pos n.toNat_lt, UInt32.ofNat_toNat]

/-- A field that holds an object is read as such. -/
lemma FieldSource.optional?_object {α : Type} {r : FieldSource} {read : Json → Option α}
    {name : String} {place : ℕ} {fields : List (String × Json)} {a : α}
    (hfield : r.field? name place = some (.object fields))
    (hread : read (.object fields) = some a) : r.optional? read name place = some (some a) := by
  rw [optional?, hfield]
  show (read (.object fields)).map some = _
  rw [hread]
  rfl

/-- A location is read back. -/
lemma FileLocation.ofJson?_toJson (l : FileLocation) : FileLocation.ofJson? l.toJson = some l := by
  simp [FileLocation.ofJson?, FileLocation.toJson, FieldSource.ofJson?, FieldSource.fits,
    FieldSource.namesOnce, FieldSource.field?, List.lookup_cons, Json.string?, word32?_integer]

/-- A target is read back. -/
lemma Target.ofJson?_toJson (t : Target) : Target.ofJson? t.toJson = some t := by
  simp [Target.ofJson?, Target.toJson, FieldSource.ofJson?, FieldSource.fits,
    FieldSource.namesOnce, FieldSource.field?, List.lookup_cons, Json.string?,
    FileLocation.ofJson?_toJson]

/-- The fields of a fact, as they are found in its object. -/
def Fact.source (sort : String) (fields : List (String × Json)) : FieldSource :=
  .named (("fact", .string sort) :: fields)

/-- A definition is found if there is one, and so is the type. -/
lemma Symbol.optional?_fields (s : Symbol) :
    (Fact.source "symbol" s.fields).optional? FileLocation.ofJson? "definition" 4 =
        some s.definition ∧
      (Fact.source "symbol" s.fields).optional? FileLocation.ofJson? "type_location" 5 =
        some s.typeLocation := by
  obtain ⟨name, kind, location, isDefinition, definition, typeLocation⟩ := s
  have hread (l : FileLocation) := FileLocation.ofJson?_toJson l
  cases definition with
  | none =>
      cases typeLocation with
      | none => exact ⟨rfl, rfl⟩
      | some t => exact ⟨rfl, FieldSource.optional?_object rfl (hread t)⟩
  | some d =>
      cases typeLocation with
      | none => exact ⟨FieldSource.optional?_object rfl (hread d), rfl⟩
      | some t =>
          exact ⟨FieldSource.optional?_object rfl (hread d),
            FieldSource.optional?_object rfl (hread t)⟩

/-- The fields of a symbol are among those that a reader of symbols knows. -/
lemma Symbol.fits_fields (s : Symbol) :
    (Fact.source "symbol" s.fields).fits
      ["qualified_name", "kind", "location", "is_definition", "definition", "type_location"] 4 := by
  obtain ⟨name, kind, location, isDefinition, definition, typeLocation⟩ := s
  cases definition <;> cases typeLocation <;> rfl

/-- A symbol is read back from its fields, absent ones included. -/
lemma Symbol.ofFields?_fields (s : Symbol) :
    Symbol.ofFields? (Fact.source "symbol" s.fields) = some s := by
  obtain ⟨hdefinition, htype⟩ := s.optional?_fields
  have hname : (Fact.source "symbol" s.fields).field? "qualified_name" 0 =
      some (.string s.qualifiedName) := rfl
  have hkind : (Fact.source "symbol" s.fields).field? "kind" 1 = some (.string s.kind.word) := rfl
  have hlocation : (Fact.source "symbol" s.fields).field? "location" 2 =
      some s.location.toJson := rfl
  have hdefines : (Fact.source "symbol" s.fields).field? "is_definition" 3 =
      some (.bool s.isDefinition) := rfl
  simp [Symbol.ofFields?, s.fits_fields, hname, hkind, hlocation, hdefines, hdefinition, htype,
    Json.string?, Json.word?, Json.bool?, SymbolKind.ofWord?_word, FileLocation.ofJson?_toJson]

lemma Reference.ofFields?_fields (r : Reference) :
    Reference.ofFields? (Fact.source "reference" r.fields) = some r := by
  obtain ⟨kind, site, target⟩ := r
  have htarget : (Fact.source "reference" (Reference.fields ⟨kind, site, target⟩)).optional?
      Target.ofJson? "target" 2 = some target := by
    cases target with
    | none => rfl
    | some t => exact FieldSource.optional?_object rfl t.ofJson?_toJson
  have hfits : (Fact.source "reference" (Reference.fields ⟨kind, site, target⟩)).fits
      ["kind", "site", "target"] 3 := rfl
  have hkind : (Fact.source "reference" (Reference.fields ⟨kind, site, target⟩)).field? "kind" 0 =
      some (.string kind.word) := rfl
  have hsite : (Fact.source "reference" (Reference.fields ⟨kind, site, target⟩)).field? "site" 1 =
      some site.toJson := rfl
  simp [Reference.ofFields?, hfits, hkind, hsite, htarget, Json.word?, ReferenceKind.ofWord?_word,
    FileLocation.ofJson?_toJson]

/-- **A fact is read back from its object.** -/
lemma Fact.ofJson?_toJson (f : Fact) : Fact.ofJson? f.toJson = some f := by
  cases f with
  | symbol s =>
      have honce : FieldSource.namesOnce (("fact", .string "symbol") :: s.fields) ["fact"] := by
        obtain ⟨name, kind, location, isDefinition, definition, typeLocation⟩ := s
        cases definition <;> cases typeLocation <;> rfl
      have hread := s.ofFields?_fields
      rw [Fact.source] at hread
      simp [Fact.ofJson?, Fact.toJson, Json.field?, honce, Fact.ofFields?, hread]
  | reference r =>
      have honce : FieldSource.namesOnce (("fact", .string "reference") :: r.fields) ["fact"] := rfl
      have hread := r.ofFields?_fields
      rw [Fact.source] at hread
      simp [Fact.ofJson?, Fact.toJson, Json.field?, honce, Fact.ofFields?, hread]

/-! ### Exact values -/

/-- All numbers of a location are integers of 32 bits. -/
lemma FileLocation.exact_toJson (l : FileLocation) : l.toJson.Exact := by
  have hword (n : UInt32) : (Json.integer n.toNat).Exact := by
    have hlt := n.toNat_lt
    exact ⟨by omega, by omega⟩
  exact ⟨trivial, hword l.line, hword l.column, hword l.offset, trivial⟩

/-- All numbers of a fact are integers of 32 bits. -/
lemma Fact.exact_toJson (f : Fact) : f.toJson.Exact := by
  cases f with
  | symbol s =>
      obtain ⟨name, kind, location, isDefinition, definition, typeLocation⟩ := s
      have hlocation (l : FileLocation) := l.exact_toJson
      cases definition with
      | none =>
          cases typeLocation with
          | none => exact ⟨trivial, trivial, trivial, hlocation _, trivial, trivial⟩
          | some t => exact ⟨trivial, trivial, trivial, hlocation _, trivial, hlocation t, trivial⟩
      | some d =>
          cases typeLocation with
          | none => exact ⟨trivial, trivial, trivial, hlocation _, trivial, hlocation d, trivial⟩
          | some t =>
              exact ⟨trivial, trivial, trivial, hlocation _, trivial, hlocation d, hlocation t,
                trivial⟩
  | reference r =>
      obtain ⟨kind, site, target⟩ := r
      cases target with
      | none => exact ⟨trivial, trivial, site.exact_toJson, trivial, trivial⟩
      | some t =>
          exact ⟨trivial, trivial, site.exact_toJson,
            ⟨trivial, trivial, t.location.exact_toJson, trivial⟩, trivial⟩

/-- A fact is read back from its compact form. -/
lemma Fact.read_compact (f : Fact) : Fact.read (String.ofList f.toJson.compact) = .ok f := by
  rw [Fact.read, Json.parse_compact f.exact_toJson]
  simp only [Except.mapError, bind, Except.bind, f.ofJson?_toJson]
  rfl

/-! ### Lines -/

/-- A text is cut at its first separator, if the piece in front has none. -/
lemma Text.splitOn_append {sep : Char} {piece : List Char} (h : sep ∉ piece) (rest : List Char) :
    splitOn sep (piece ++ sep :: rest) = piece :: splitOn sep rest := by
  induction piece with
  | nil => rw [List.nil_append, splitOn, if_pos rfl]
  | cons c piece ih =>
      rw [List.mem_cons, not_or] at h
      rw [List.cons_append, splitOn, if_neg (Ne.symm h.1), ih h.2]

/-- Text that is cut at its line breaks falls into its lines, with nothing behind the last. -/
lemma splitOn_lines (fs : List Fact) :
    Text.splitOn '\n' (fs.flatMap Fact.line) = fs.map (·.toJson.compact) ++ [[]] := by
  induction fs with
  | nil => rfl
  | cons f fs ih =>
      have hline : '\n' ∉ f.toJson.compact := fun hmem =>
        absurd (Json.visible_compact f.exact_toJson '\n' hmem) (by decide)
      rw [List.flatMap_cons, Fact.line, List.append_assoc, List.singleton_append,
        Text.splitOn_append hline, ih]
      rfl

namespace LineSink

variable {s : LineSink}

/-- A writer without limit takes the line of a fact as it is. -/
lemma emit_unlimited (hcapacity : s.capacity = none) (hfailed : s.failed = false) (f : Fact) :
    s.emit f = { s with bytes := s.bytes ++ f.lineBytes, written := s.written + 1 } := by
  have haccepts : s.accepts f.lineBytes = f.lineBytes := by rw [accepts, hcapacity]
  simp [emit, hfailed, haccepts]

/-- It takes the lines of all facts, one behind the other. -/
lemma emitAll_unlimited (hcapacity : s.capacity = none) (hfailed : s.failed = false)
    (fs : List Fact) :
    s.emitAll fs =
      { s with
        bytes := s.bytes ++ fs.flatMap Fact.lineBytes, written := s.written + fs.length } := by
  induction fs generalizing s with
  | nil => simp [emitAll]
  | cons f fs ih =>
      have hstep := emit_unlimited hcapacity hfailed f
      show (s.emit f).emitAll fs = _
      have hbytes : s.bytes ++ f.lineBytes ++ fs.flatMap Fact.lineBytes =
          s.bytes ++ (f :: fs).flatMap Fact.lineBytes := by
        refine Array.toList_inj.mp ?_
        simp
      rw [ih (by rw [hstep]; exact hcapacity) (by rw [hstep]; exact hfailed), hstep]
      dsimp only
      rw [hbytes, List.length_cons, Nat.add_assoc, Nat.add_comm 1]

/-- **What a sink has written reads back as its facts**: the bytes are a text that falls into one
line for each fact, every one ended by a line break, and each line is read as its fact. -/
theorem emitAll_reads (fs : List Fact) :
    ∃ (text : String) (lines : List (List Char)),
      (emitAll {} fs).finish? = some text.toUTF8.data ∧
        (emitAll {} fs).written = fs.length ∧
        Text.splitOn '\n' text.toList = lines ++ [[]] ∧
        lines.map (fun line => Fact.read (String.ofList line)) = fs.map .ok := by
  refine ⟨String.ofList (fs.flatMap Fact.line), fs.map (·.toJson.compact), ?_, ?_, ?_, ?_⟩
  · have hbytes : fs.flatMap Fact.lineBytes =
        (fs.flatMap Fact.line).flatMap String.utf8EncodeChar := List.flatMap_assoc.symm
    rw [emitAll_unlimited rfl rfl]
    simp [finish?, hbytes, List.utf8Encode]
  · rw [emitAll_unlimited rfl rfl]
    exact Nat.zero_add _
  · rw [String.toList_ofList, splitOn_lines]
  · rw [List.map_map]
    exact List.map_congr_left fun f _ => f.read_compact

end LineSink

end UnitIndex
