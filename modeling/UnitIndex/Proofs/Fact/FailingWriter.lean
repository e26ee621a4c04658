import Mathlib.Tactic
import UnitIndex.Fact.Lines

/-!
A writer that fails.

A line goes to the writer in pieces, and the writer may become full within any of them or between
two. Where it does makes no difference (`emitPieces_eq`): the pieces of a line are taken as far as
the line is taken when it is written at once. So what a sink has written is followed from fact to
fact (`Wrote`): lines in full, and a part of one more line as soon as the writer has failed.
`emitAll_cut` says what comes of a run, whatever the capacity of the writer and the pieces are.
-/

namespace UnitIndex.LineSink

variable {s : LineSink} {c : ℕ} {fs : List Fact}

/-! ### Lines in pieces -/

/-- The sink with a piece of a line written, as far as the writer takes it. -/
def writePiece (s : LineSink) (piece : List UInt8) : LineSink :=
  if s.failed then s
  else
    { s with
      bytes := s.bytes ++ s.accepts piece
      failed := (s.accepts piece).length ≠ piece.length }

/-- The sink with a fact written whose line comes in pieces. Behind a piece that is cut none is
written, and the fact does not count. -/
def emitPieces (s : LineSink) (pieces : List (List UInt8)) : LineSink :=
  if s.failed then s
  else
    let s := pieces.foldl writePiece s
    if s.failed then s else { s with written := s.written + 1 }

/-- A writer that has failed takes nothing more. -/
lemma writePiece_failed (h : s.failed) (piece : List UInt8) : s.writePiece piece = s := by
  rw [writePiece, if_pos h]

lemma size_append (bytes : Array UInt8) (l : List UInt8) :
    (bytes ++ l).size = bytes.size + l.length := by
  rw [← Array.length_toList]
  simp

/-- What is taken of a piece is its front. -/
lemma accepts_prefix (s : LineSink) (piece : List UInt8) : s.accepts piece <+: piece := by
  rw [accepts]
  split
  · exact List.prefix_refl piece
  · exact List.take_prefix _ piece

/-- Of two pieces in a row the second is taken behind the whole first one, or not at all. -/
lemma accepts_append (s : LineSink) (front back : List UInt8) :
    s.accepts (front ++ back) =
      if (s.accepts front).length = front.length then
        front ++ { s with bytes := s.bytes ++ front }.accepts back
      else s.accepts front := by
  cases hcapacity : s.capacity with
  | none => simp [accepts, hcapacity]
  | some c =>
      simp only [accepts, hcapacity, List.take_append, List.length_take, size_append]
      split
      · rw [List.take_of_length_le (by omega), Nat.sub_sub]
      · have hback : c - s.bytes.size - front.length = 0 := by omega
        rw [hback, List.take_zero, List.append_nil]

/-- Two pieces one after the other are as good as one. -/
lemma writePiece_append (s : LineSink) (front back : List UInt8) :
    (s.writePiece front).writePiece back = s.writePiece (front ++ back) := by
  by_cases hfailed : s.failed
  · rw [writePiece_failed hfailed, writePiece_failed hfailed, writePiece_failed hfailed]
  have haccepts := s.accepts_append front back
  -- the writer fails in the front piece or not
  by_cases hwhole : (s.accepts front).length = front.length
  · have hfront : s.writePiece front = { s with bytes := s.bytes ++ front } := by
      simp [writePiece, hfailed, (s.accepts_prefix front).eq_of_length hwhole]
    have hbytes (l : List UInt8) : s.bytes ++ front ++ l = s.bytes ++ (front ++ l) :=
      Array.toList_inj.mp (by simp)
    rw [if_pos hwhole] at haccepts
    rw [hfront]
    simp [writePiece, hfailed, haccepts, hbytes]
  · have hcut : (s.writePiece front).failed := by simp [writePiece, hfailed, hwhole]
    have hle := (s.accepts_prefix front).length_le
    have hcut' : ¬(s.accepts front).length = front.length + back.length := by omega
    rw [if_neg hwhole] at haccepts
    rw [writePiece_failed hcut]
    simp [writePiece, hfailed, haccepts, hwhole, hcut']

/-- **It does not matter how a line is cut into pieces.** -/
lemma foldl_writePiece (s : LineSink) (pieces : List (List UInt8)) :
    pieces.foldl writePiece s = s.writePiece pieces.flatten := by
  induction pieces generalizing s with
  | nil =>
      have hnone : s.accepts [] = [] := List.prefix_nil.mp (s.accepts_prefix [])
      obtain ⟨capacity, bytes, written, failed⟩ := s
      cases failed with
      | true => rfl
      | false => simp [writePiece, hnone]
  | cons piece pieces ih => rw [List.foldl_cons, ih, writePiece_append, List.flatten_cons]

/-- It makes no difference in which pieces a line is written. -/
lemma emitPieces_eq {f : Fact} {pieces : List (List UInt8)} (h : pieces.flatten = f.lineBytes) :
    s.emitPieces pieces = s.emit f := by
  rw [emitPieces, emit, foldl_writePiece, h]
  by_cases hfailed : s.failed
  · rw [if_pos hfailed, if_pos hfailed]
  · by_cases hwhole : (s.accepts f.lineBytes).length = f.lineBytes.length <;>
      simp [writePiece, hfailed, hwhole]

/-! ### What has been written -/

/-- What a sink has written of some facts, to a writer that takes `c` bytes in all. -/
inductive Wrote (c : ℕ) (fs : List Fact) (s : LineSink) : Prop
  /-- All lines. -/
  | all : s.failed = false → s.written = fs.length →
      s.bytes.toList = fs.flatMap Fact.lineBytes → s.bytes.size ≤ c → Wrote c fs s
  /-- The lines of the facts in front of `next`, and a part of its own. -/
  | part {front : List Fact} {next : Fact} {behind : List Fact} {cut : List UInt8} :
      fs = front ++ next :: behind → s.failed → s.written = front.length →
      s.bytes.toList = front.flatMap Fact.lineBytes ++ cut → s.bytes.size = c →
      cut <+: next.lineBytes → cut ≠ next.lineBytes → Wrote c fs s

/-- Writing leaves the capacity as it is. -/
lemma capacity_emit (s : LineSink) (f : Fact) : (s.emit f).capacity = s.capacity := by
  rw [emit]
  split
  · rfl
  · dsimp only
    split <;> rfl

/-- One more fact: its line is written in full, or in part, or, once the writer has failed, not at
all. -/
lemma Wrote.emit (h : Wrote c fs s) (hcapacity : s.capacity = some c) (f : Fact) :
    Wrote c (fs ++ [f]) (s.emit f) := by
  cases h with
  | all hok hwritten hbytes hsize =>
      have haccepts : s.accepts f.lineBytes = f.lineBytes.take (c - s.bytes.size) := by
        rw [accepts, hcapacity]
      have hnew : (s.bytes ++ s.accepts f.lineBytes).size =
          s.bytes.size + (s.accepts f.lineBytes).length := size_append _ _
      have hlength : (s.accepts f.lineBytes).length =
          min (c - s.bytes.size) f.lineBytes.length := by rw [haccepts, List.length_take]
      rw [LineSink.emit, if_neg (by simp [hok])]
      dsimp only
      -- all of the new line is taken, or the writer fails within it
      by_cases hwhole : (s.accepts f.lineBytes).length = f.lineBytes.length
      · rw [if_pos hwhole]
        have hline := (s.accepts_prefix f.lineBytes).eq_of_length hwhole
        exact .all hok (by simp [hwritten]) (by simp [hbytes, hline]) (by rw [hnew]; omega)
      · rw [if_neg hwhole]
        exact .part rfl rfl hwritten (by simp [hbytes]) (by rw [hnew]; omega)
          (s.accepts_prefix f.lineBytes) fun hline => hwhole (by rw [hline])
  | @part front next behind cut hfs hfailed hwritten hbytes hsize hcut hne =>
      -- the writer has failed before: this fact is behind the line that was cut
      rw [LineSink.emit, if_pos hfailed]
      have hfs' : fs ++ [f] = front ++ next :: (behind ++ [f]) := by
        rw [hfs, List.append_assoc, List.cons_append]
      exact .part hfs' hfailed hwritten hbytes hsize hcut hne

/-- A run writes its facts in order. -/
lemma wrote_emitAll (c : ℕ) (fs : List Fact) :
    (emitAll { capacity := some c } fs).capacity = some c ∧
      Wrote c fs (emitAll { capacity := some c } fs) := by
  induction fs using List.reverseRecOn with
  | nil => exact ⟨rfl, .all rfl rfl rfl (Nat.zero_le c)⟩
  | append_singleton fs f ih =>
      obtain ⟨hcapacity, hwrote⟩ := ih
      have hstep : emitAll { capacity := some c } (fs ++ [f]) =
          (emitAll { capacity := some c } fs).emit f := List.foldl_concat _ _ _ _
      rw [hstep, capacity_emit]
      exact ⟨hcapacity, hwrote.emit hcapacity f⟩

/-- What is cut off is behind the bytes written, so that these are the front of all lines. -/
lemma Wrote.exists_lines (h : Wrote c fs s) : ∃ lost,
    fs.flatMap Fact.lineBytes = s.bytes.toList ++ lost ∧ (s.failed ↔ lost ≠ []) ∧
      s.bytes.size ≤ c ∧ (s.failed → s.bytes.size = c) := by
  cases h with
  | all hok hwritten hbytes hsize =>
      exact ⟨[], by simp [hbytes], by simp [hok], hsize, by simp [hok]⟩
  | @part front next behind cut hfs hfailed hwritten hbytes hsize hcut hne =>
      obtain ⟨more, hmore⟩ := hcut
      refine ⟨more ++ behind.flatMap Fact.lineBytes, ?_, iff_of_true hfailed fun hnil => ?_,
        hsize.le, fun _ => hsize⟩
      · simp [hfs, hbytes, ← hmore]
      · rw [List.append_eq_nil_iff] at hnil
        exact hne (by rw [← hmore, hnil.1, List.append_nil])

/-- Once the writer has failed, no fact changes anything. -/
lemma emitAll_failed (h : s.failed) (fs : List Fact) : s.emitAll fs = s :=
  List.foldl_fixed' (fun f => by rw [emit, if_pos h]) fs

/-- **A failing writer loses only a suffix.** Facts are written to a writer that takes `c` bytes in
all, their lines at once or in any pieces. Then the bytes written are the lines of the facts that
count as written, complete and in order, and behind them a part of the next line, which is there
only if the writer has failed. From then on nothing changes any more. The sink ends with an error
exactly if the lines of all facts are more than `c` bytes. -/
theorem emitAll_cut (c : ℕ) (pieces : Fact → List (List UInt8))
    (hpieces : ∀ f, (pieces f).flatten = f.lineBytes) (fs : List Fact) :
    let s : LineSink := fs.foldl (fun s f => s.emitPieces (pieces f)) { capacity := some c }
    s = emitAll { capacity := some c } fs ∧
    (∃ cut, s.bytes.toList = (fs.take s.written).flatMap Fact.lineBytes ++ cut ∧
      (s.failed = false → s.written = fs.length ∧ cut = []) ∧
      (s.failed → ∃ next, fs[s.written]? = some next ∧ cut <+: next.lineBytes ∧
        cut ≠ next.lineBytes)) ∧
    s.bytes.toList = (fs.flatMap Fact.lineBytes).take c ∧
    (s.failed → ∀ more : List Fact, more.foldl (fun s f => s.emitPieces (pieces f)) s = s) ∧
    (s.finish? = none ↔ c < (fs.flatMap Fact.lineBytes).length) := by
  -- all lines may be written at once
  have hemit : (fun (s : LineSink) f => s.emitPieces (pieces f)) = emit := by
    funext s f
    exact emitPieces_eq (hpieces f)
  rw [hemit]
  intro s
  have hwrote : Wrote c fs s := (wrote_emitAll c fs).2
  obtain ⟨lost, hlines, hlost, hsize, hfull⟩ := hwrote.exists_lines
  refine ⟨rfl, ?_, ?_, fun hfailed more => emitAll_failed hfailed more, ?_⟩
  · -- the bytes: the lines that count, and a part of the next one
    cases hwrote with
    | all hok hwritten hbytes hsize =>
        refine ⟨[], ?_, fun _ => ⟨hwritten, rfl⟩, fun hfailed => ?_⟩
        · rw [hwritten, List.take_length, List.append_nil, hbytes]
        · simp [hok] at hfailed
    | @part front next behind cut hfs hfailed hwritten hbytes hsize hcut hne =>
        refine ⟨cut, ?_, fun hok => ?_, fun _ => ⟨next, ?_, hcut, hne⟩⟩
        · rw [hfs, hwritten, List.take_left, hbytes]
        · simp [hfailed] at hok
        · simp [hfs, hwritten]
  · -- the capacity is used up when the writer has failed, and suffices otherwise
    cases hfailed : s.failed with
    | true => rw [hlines, List.take_left' (hfull hfailed)]
    | false =>
        obtain rfl : lost = [] := by simpa [hfailed] using hlost
        rw [hlines, List.append_nil, List.take_of_length_le hsize]
  · -- some bytes are lost just if there were too many
    have hfinish : s.finish? = none ↔ s.failed := by
      rw [finish?]
      split <;> simp_all
    have hlength := congrArg List.length hlines
    have hbytes : s.bytes.toList.length = s.bytes.size := Array.length_toList
    rw [List.length_append, hbytes] at hlength
    rw [hfinish, hlost, ← List.length_pos_iff]
    constructor
    · intro hpos
      have := hfull (hlost.mpr (List.length_pos_iff.mp hpos))
      omega
    · omega

/-- The line of a fact, character by character. -/
def spelledOut (f : Fact) : List (List UInt8) := f.line.map String.utf8EncodeChar

/-- A line that is spelled out byte by byte is that line. -/
lemma flatten_spelledOut (f : Fact) : (spelledOut f).flatten = f.lineBytes :=
  List.flatMap_def.symm

/-- A call in a file whose name takes more bytes than characters. -/
def unresolvedCall : Fact := .reference ⟨.call, ⟨"é", 1, 2, 3⟩, none⟩

/-- Where the writer has room for two lines but for the last line break, only one fact counts. -/
theorem emitAll_cut_lineBreak :
    let s : LineSink := [unresolvedCall, unresolvedCall].foldl
      (fun s f => s.emitPieces (spelledOut f)) { capacity := some 201 }
    (∀ f, (spelledOut f).flatten = f.lineBytes) ∧ s.written = 1 ∧
      s.bytes.toList = unresolvedCall.lineBytes ++ unresolvedCall.lineBytes.dropLast ∧
      s.finish? = none := by
  have hlength : unresolvedCall.lineBytes.length = 101 := by cbv
  have hwritten : ([unresolvedCall, unresolvedCall].foldl
      (fun s f => emitPieces s (spelledOut f)) { capacity := some 201 }).written = 1 := by cbv
  have hcut := emitAll_cut 201 spelledOut flatten_spelledOut [unresolvedCall, unresolvedCall]
  dsimp only at hcut ⊢
  generalize [unresolvedCall, unresolvedCall].foldl (fun s f => emitPieces s (spelledOut f))
    { capacity := some 201 } = s at hwritten hcut ⊢
  obtain ⟨-, -, hbytes, -, hfinish⟩ := hcut
  refine ⟨flatten_spelledOut, hwritten, ?_, hfinish.mpr ?_⟩
  · rw [hbytes]
    simp [List.take_append, hlength, List.dropLast_eq_take, List.take_of_length_le]
  · simp [hlength]

end UnitIndex.LineSink
