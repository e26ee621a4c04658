import Mathlib.Tactic
import UnitIndex.Spelling.Checked

/-!
What the steps of a checked reading do.

The cursor stands in front of the tokens that are left (`place`). Bytes are those of a text that has
been passed, so that a slice between two of them is what lies between the texts
(`slice?_eq_some_iff`). A run of steps is compared with a reader that is handed the tokens left
(`Ends`, `Answers`): one rule for two steps in a row (`Ends.bind`) and one for loops
(`answers_loop`).
-/

namespace UnitIndex.TypeExpr.Checked

open UnitIndex.Token (bytes)

variable {α β γ σ : Type}

/-! ### Bytes -/

lemma bytes_cons (c : Char) (cs : List Char) : bytes (c :: cs) = c.utf8Size + bytes cs := rfl

/-- The bytes of two texts one after the other. -/
@[simp]
lemma bytes_append (cs ds : List Char) : bytes (cs ++ ds) = bytes cs + bytes ds := by
  induction cs with
  | nil => exact (Nat.zero_add _).symm
  | cons c cs ih => rw [List.cons_append, bytes_cons, bytes_cons, ih, Nat.add_assoc]

/-- A text is split at a byte just if the byte stands between two of its characters. -/
lemma splitBytes?_eq_some_iff {n : ℕ} {cs front back : List Char} :
    splitBytes? n cs = some (front, back) ↔ cs = front ++ back ∧ n = bytes front := by
  fun_induction splitBytes? n cs generalizing front with
  | case1 cs =>
      constructor
      · rintro ⟨⟩
        exact ⟨rfl, rfl⟩
      · rintro ⟨rfl, hn⟩
        cases front with
        | nil => rfl
        | cons c front =>
            -- a front that is not empty takes a byte at least
            have := c.utf8Size_pos
            rw [bytes_cons] at hn
            omega
  | case2 n =>
      simp only [reduceCtorEq, List.nil_eq, List.append_eq_nil_iff, false_iff]
      rintro ⟨⟨rfl, -⟩, hn⟩
      exact absurd hn (Nat.succ_ne_zero n)
  | case3 n c cs hle ih =>
      simp only [Option.map_eq_some_iff, Prod.exists, Prod.mk.injEq]
      constructor
      · rintro ⟨front, back, h, rfl, rfl⟩
        obtain ⟨rfl, hn⟩ := ih.mp h
        exact ⟨rfl, by rw [bytes_cons]; omega⟩
      · rintro ⟨hcs, hn⟩
        cases front with
        | nil => exact absurd hn (Nat.succ_ne_zero n)
        | cons d front =>
            obtain ⟨rfl, rfl⟩ := List.cons.inj hcs
            rw [bytes_cons] at hn
            exact ⟨front, back, ih.mpr ⟨rfl, by omega⟩, rfl, rfl⟩
  | case4 n c cs hle =>
      simp only [reduceCtorEq, false_iff]
      rintro ⟨hcs, hn⟩
      cases front with
      | nil => exact absurd hn (Nat.succ_ne_zero n)
      | cons d front =>
          obtain ⟨rfl, rfl⟩ := List.cons.inj hcs
          rw [bytes_cons] at hn
          omega

/-- **A text is cut out between two bytes** just if it is what lies between two of its places. -/
lemma slice?_eq_some_iff {text cs : List Char} {start stop : ℕ} :
    slice? text start stop = some cs ↔
      ∃ front back, text = front ++ cs ++ back ∧ start = bytes front ∧
        stop = bytes (front ++ cs) := by
  rw [slice?]
  constructor
  · intro h
    split at h
    · next hle =>
      simp only [Option.bind_eq_bind, Option.bind_eq_some_iff, Prod.exists, Option.some.injEq,
        splitBytes?_eq_some_iff] at h
      obtain ⟨front, back, ⟨rfl, rfl⟩, middle, back, ⟨rfl, hstop⟩, rfl⟩ := h
      exact ⟨front, back, by simp, rfl, by rw [bytes_append]; omega⟩
    · cases h
  · rintro ⟨front, back, rfl, rfl, rfl⟩
    -- first the front is split off, and then the slice
    have hfront : splitBytes? (bytes front) (front ++ cs ++ back) = some (front, cs ++ back) :=
      splitBytes?_eq_some_iff.mpr ⟨by simp, rfl⟩
    have hcs : splitBytes? (bytes cs) (cs ++ back) = some (cs, back) :=
      splitBytes?_eq_some_iff.mpr ⟨rfl, rfl⟩
    rw [if_pos (by simp), hfront]
    simp [hcs]

/-- The first character takes two bytes, so that no text begins between them. -/
example : slice? "éa".toList 2 3 = some ['a'] ∧ slice? "éa".toList 1 3 = none := by decide

/-! ### The place of the cursor -/

/-- How many tokens are passed when these are left. -/
def place (toks ts : List Token) : ℕ := toks.length - ts.length

/-- The text of the tokens that are passed when these are left. -/
def passed (toks ts : List Token) : List Char := Token.source (toks.take (place toks ts))

/-- The blanks in front of the next token, or behind the last one. -/
def gapOf (tail : List Char) : List Token → List Char
  | [] => tail
  | t :: _ => t.gap

/-- The text of these tokens with blanks behind it, read by so many nested calls. -/
def contextAt (toks : List Token) (tail : List Char) (calls : ℕ) : Context :=
  { text := Token.source toks ++ tail, tokens := Token.spans 0 toks, calls := calls }

/-- The place behind some tokens is their number. -/
@[simp]
lemma place_append (front ts : List Token) : place (front ++ ts) ts = front.length := by
  simp [place]

/-- What has been passed is the text of these tokens. -/
@[simp]
lemma passed_append (front ts : List Token) :
    passed (front ++ ts) ts = Token.source front := by
  simp [passed]

lemma source_append (ts us : List Token) :
    Token.source (ts ++ us) = Token.source ts ++ Token.source us := List.flatMap_append

/-- What is passed when some more tokens are. -/
lemma passed_of_append {toks ts us : List Token} (h : ts ++ us <:+ toks) :
    passed toks us = passed toks (ts ++ us) ++ Token.source ts := by
  obtain ⟨front, rfl⟩ := h
  rw [passed_append, ← List.append_assoc, passed_append, source_append]

/-- What is passed and what is left are the text of all tokens. -/
lemma passed_append_source {toks ts : List Token} (h : ts <:+ toks) :
    passed toks ts ++ Token.source ts = Token.source toks := by
  obtain ⟨front, rfl⟩ := h
  rw [passed_append, source_append]

/-- Behind some tokens the spans are moved by the bytes of their text. -/
lemma spans_append (n : ℕ) (ts us : List Token) :
    Token.spans n (ts ++ us) =
      Token.spans n ts ++ Token.spans (n + bytes (Token.source ts)) us := by
  induction ts generalizing n with
  | nil => rfl
  | cons t ts ih =>
      simp only [List.cons_append, Token.spans, ih, Token.source_cons, bytes_append, Nat.add_assoc]

/-- Every token has one span. -/
lemma length_spans (n : ℕ) (ts : List Token) : (Token.spans n ts).length = ts.length := by
  induction ts generalizing n with
  | nil => rfl
  | cons t ts ih => simp [Token.spans, ih]

/-- Spans keep their tokens. -/
lemma map_spans (n : ℕ) (ts : List Token) : (Token.spans n ts).map (·.1) = ts := by
  induction ts generalizing n with
  | nil => rfl
  | cons t ts ih => simp [Token.spans, ih]

variable {toks ts us : List Token} {t : Token} {tail : List Char} {calls n : ℕ}

/-- With fewer tokens left the cursor stands further on, and never behind the end. -/
lemma place_lt (h : ts <:+ toks) (hlt : us.length < ts.length) :
    place toks ts < place toks us ∧ place toks us ≤ (contextAt toks tail calls).tokens.length := by
  have hle := h.length_le
  rw [contextAt, length_spans, place, place]
  omega

/-- The token at the cursor with the bytes where it starts and stops. -/
lemma tokens_getElem? (h : t :: ts <:+ toks) :
    (contextAt toks tail calls).tokens[place toks (t :: ts)]? =
      some (t, bytes (passed toks (t :: ts) ++ t.gap),
        bytes (passed toks (t :: ts) ++ t.gap ++ t.text)) := by
  obtain ⟨front, rfl⟩ := h
  simp only [contextAt, place_append, passed_append, spans_append]
  rw [List.getElem?_append_right (length_spans 0 front).le, length_spans, Nat.sub_self]
  simp [Token.spans, Nat.add_assoc]

/-! ### Single steps -/

section steps

variable {ctx : Context} {p : ℕ}

@[simp]
lemma run_pure (a : α) : (pure a : Scan α) ctx p = .ok (a, p) := rfl

lemma run_read : (read : Scan Context) ctx p = .ok (ctx, p) := rfl

lemma run_get : (get : Scan ℕ) ctx p = .ok (p, p) := rfl

/-- Two steps in a row. -/
lemma run_bind (x : Scan α) (f : α → Scan β) :
    (x >>= f) ctx p = (x ctx p).bind fun q => f q.1 ctx q.2 := rfl

/-- A step that succeeds hands on what it returns. -/
lemma run_bind_ok {x : Scan α} {a : α} {q : ℕ} (h : x ctx p = .ok (a, q)) (f : α → Scan β) :
    (x >>= f) ctx p = f a ctx q := by
  rw [run_bind, h]
  rfl

/-- A counter that is not zero can be lowered. -/
lemma run_decrement : decrement (n + 1) ctx p = .ok (n, p) := rfl

/-- A call that is not nested too deep. -/
lemma run_call (h : calls < maxCalls) (x : Scan α) :
    call x (contextAt toks tail calls) p = x (contextAt toks tail (calls + 1)) p := by
  show (if calls < maxCalls then _ else _ : Scan α) (contextAt toks tail calls) p = _
  rw [if_pos h]
  rfl

end steps

/-- To look ahead is to look at the tokens left. -/
lemma run_ahead? (h : ts <:+ toks) :
    ahead? n (contextAt toks tail calls) (place toks ts) = .ok (ts[n]?, place toks ts) := by
  obtain ⟨front, rfl⟩ := h
  have hget : (Token.spans 0 (front ++ ts))[front.length + n]?.map (·.1) = ts[n]? := by
    rw [← List.getElem?_map, map_spans, List.getElem?_append_right (Nat.le_add_right ..),
      Nat.add_sub_cancel_left]
  rw [place_append, ← hget]
  rfl

lemma run_kindAhead? (h : ts <:+ toks) :
    kindAhead? n (contextAt toks tail calls) (place toks ts) =
      .ok (ts[n]?.map (·.kind), place toks ts) :=
  run_bind_ok (run_ahead? h) _

/-- To advance drops one token. -/
lemma run_advance (h : t :: ts <:+ toks) :
    advance (contextAt toks tail calls) (place toks (t :: ts)) = .ok ((), place toks ts) := by
  have hle := h.length_le
  have hlen : (contextAt toks tail calls).tokens.length = toks.length := length_spans 0 toks
  have hlt : place toks (t :: ts) < (contextAt toks tail calls).tokens.length := by
    rw [hlen, place]
    simp only [List.length_cons] at hle ⊢
    omega
  have hplace : place toks (t :: ts) + 1 = place toks ts := by
    rw [place, place]
    simp only [List.length_cons] at hle ⊢
    omega
  show (if place toks (t :: ts) < (contextAt toks tail calls).tokens.length then
    (modify (· + 1) : Scan Unit) else fail .pastEnd) _ _ = _
  rw [if_pos hlt, ← hplace]
  rfl

lemma run_take?_nil :
    take? (contextAt toks tail calls) (place toks []) = .ok (none, place toks []) :=
  run_bind_ok (run_ahead? List.nil_suffix) _

/-- To take a token returns it and drops it. -/
lemma run_take? (h : t :: ts <:+ toks) :
    take? (contextAt toks tail calls) (place toks (t :: ts)) = .ok (some t, place toks ts) := by
  rw [take?, run_bind_ok (run_ahead? h), List.getElem?_cons_zero]
  exact run_bind_ok (run_advance h) _

/-- Where no token is left none can be taken. -/
lemma run_take_nil : take (contextAt toks tail calls) (place toks []) = .error .refused := by
  rw [take, run_bind_ok run_take?_nil]
  rfl

lemma run_take (h : t :: ts <:+ toks) :
    take (contextAt toks tail calls) (place toks (t :: ts)) = .ok (t, place toks ts) := by
  rw [take, run_bind_ok (run_take? h)]
  rfl

section eating

variable {kind : TokenKind}

lemma run_eat_nil :
    eat kind (contextAt toks tail calls) (place toks []) = .ok (false, place toks []) := by
  rw [eat, run_bind_ok (run_kindAhead? List.nil_suffix), if_neg (by simp)]
  rfl

/-- A token of the kind asked for is taken. -/
lemma run_eat_of_eq (h : t :: ts <:+ toks) (hkind : t.kind = kind) :
    eat kind (contextAt toks tail calls) (place toks (t :: ts)) = .ok (true, place toks ts) := by
  rw [eat, run_bind_ok (run_kindAhead? h), if_pos (by simp [hkind])]
  exact run_bind_ok (run_advance h) _

/-- Any other one stays. -/
lemma run_eat_of_ne (h : t :: ts <:+ toks) (hkind : t.kind ≠ kind) :
    eat kind (contextAt toks tail calls) (place toks (t :: ts)) =
      .ok (false, place toks (t :: ts)) := by
  rw [eat, run_bind_ok (run_kindAhead? h), if_neg (by simp [hkind])]
  rfl

end eating

/-! ### Cutting out texts -/

/-- The next token starts behind what has been passed and the blanks in front of it. -/
lemma run_nextStart (h : ts <:+ toks) :
    nextStart (contextAt toks tail calls) (place toks ts) =
      .ok (bytes (passed toks ts ++ gapOf tail ts), place toks ts) := by
  rw [nextStart, run_bind_ok run_read, run_bind_ok run_get]
  cases ts with
  | nil =>
      have hnone : (contextAt toks tail calls).tokens[place toks []]? = none :=
        List.getElem?_eq_none (length_spans 0 toks).le
      have htext := passed_append_source (List.nil_suffix (l := toks))
      rw [Token.source_nil, List.append_nil] at htext
      rw [hnone, htext]
      rfl
  | cons t ts =>
      rw [tokens_getElem? h]
      rfl

/-- The last token taken stops where the text passed ends. -/
lemma run_lastStop (h : ts <:+ toks) :
    lastStop (contextAt toks tail calls) (place toks ts) =
      .ok (bytes (passed toks ts), place toks ts) := by
  obtain ⟨front, rfl⟩ := h
  rw [lastStop, run_bind_ok run_get, place_append, passed_append]
  -- the token in front of the cursor is the last one passed
  induction front using List.reverseRecOn with
  | nil => rfl
  | append_singleton front t _ =>
      have hlast : (contextAt _ tail calls).tokens[place _ (t :: ts)]? = _ :=
        tokens_getElem? (List.suffix_append front (t :: ts))
      rw [place_append, passed_append] at hlast
      rw [List.append_assoc, List.singleton_append, List.length_append, List.length_singleton]
      dsimp only
      rw [run_bind_ok run_read, hlast, source_append]
      simp [Token.source]

/-- A text is cut out from behind what stands in front of it. -/
lemma run_cut {front cs back : List Char} {p : ℕ}
    (h : Token.source toks ++ tail = front ++ cs ++ back) :
    cut (bytes front) (bytes (front ++ cs)) (contextAt toks tail calls) p = .ok (cs, p) := by
  have hslice : slice? (contextAt toks tail calls).text (bytes front) (bytes (front ++ cs)) =
      some cs := slice?_eq_some_iff.mpr ⟨front, back, h, rfl, rfl⟩
  rw [cut, run_bind_ok run_read, hslice]
  rfl

/-! ### Runs and readings -/

/-- How a run ends that goes as a reading does: it is refused where that refuses the spelling, or it
reaches a place and a value, from which `Q` leads to what is read. -/
inductive Ends (toks : List Token) (Q : α → List Token → Option γ → Prop) :
    Option γ → Except Stop (α × ℕ) → Prop
  | refused : Ends toks Q none (.error .refused)
  | reaches {a : α} {rest : List Token} {ans : Option γ} (h : rest <:+ toks) (hQ : Q a rest ans) :
    Ends toks Q ans (.ok (a, place toks rest))

/-- A run that reads what the reading does and leaves the same tokens, at most so many. -/
def Answers (toks : List Token) (n : ℕ) : Option (α × List Token) → Except Stop (α × ℕ) → Prop :=
  Ends toks fun a rest ans => rest.length ≤ n ∧ ans = some (a, rest)

/-- A round of a loop at `ts` that goes as the reading does that `E` says is done there: it is the
last one, leaving at most `n` tokens, or fewer tokens are left for the rounds behind it. -/
def Turns (toks : List Token) (E : σ → List Token → Option (α × List Token) → Prop)
    (ts : List Token) (n : ℕ) : Option (α × List Token) → Except Stop (Round σ α × ℕ) → Prop :=
  Ends toks fun
    | .last a, rest, ans => rest.length ≤ n ∧ ans = some (a, rest)
    | .again s, rest, ans => rest.length < ts.length ∧ E s rest ans

section rules

variable {x : Scan α} {f : α → Scan β} {ctx : Context} {p m : ℕ} {a : α}
  {Q : β → List Token → Option γ → Prop}

lemma Answers.read (h : ts <:+ toks) (hn : ts.length ≤ n) :
    Answers toks n (some (a, ts)) (.ok (a, place toks ts)) :=
  .reaches h ⟨hn, rfl⟩

/-- An answer within some tokens is one within more. -/
lemma Answers.mono {ans : Option (α × List Token)} {r : Except Stop (α × ℕ)}
    (h : Answers toks n ans r) (hle : n ≤ m) : Answers toks m ans r := by
  cases h with
  | refused => exact .refused
  | reaches h hQ => exact .reaches h ⟨hQ.1.trans hle, hQ.2⟩

/-- **Two steps in a row**: what is done behind the first goes on from what it reads. -/
lemma Ends.bind {ans : Option (α × List Token)} {k : α × List Token → Option γ}
    (hx : Answers toks n ans (x ctx p))
    (hf : ∀ a rest, rest <:+ toks → rest.length ≤ n →
      Ends toks Q (k (a, rest)) (f a ctx (place toks rest))) :
    Ends toks Q (ans.bind k) ((x >>= f) ctx p) := by
  rw [run_bind]
  generalize x ctx p = r at hx
  cases hx with
  | refused => exact .refused
  | reaches h hQ =>
      obtain ⟨hle, rfl⟩ := hQ
      exact hf _ _ h hle

/-- The same where it is known what the first step reads. -/
lemma Ends.bind_some {ans : Option γ} (hx : Answers toks n (some (a, ts)) (x ctx p))
    (hf : ts <:+ toks → ts.length ≤ n → Ends toks Q ans (f a ctx (place toks ts))) :
    Ends toks Q ans ((x >>= f) ctx p) := by
  rw [run_bind]
  generalize x ctx p = r at hx
  cases hx with
  | reaches h hQ =>
      obtain ⟨hle, heq⟩ := hQ
      obtain ⟨rfl, rfl⟩ := Prod.mk.inj (Option.some.inj heq)
      exact hf h hle

/-- Nothing is done behind a refusal. -/
lemma Ends.bind_refused (hx : Answers toks n none (x ctx p)) :
    Ends toks Q none ((x >>= f) ctx p) := by
  rw [run_bind]
  generalize x ctx p = r at hx
  cases hx with
  | refused => exact .refused
  | reaches h hQ => cases hQ.2

/-- A step that only turns what is read into something else. -/
lemma Ends.map {ans : Option (α × List Token)} {k : α × List Token → γ}
    (hx : Answers toks n ans (x ctx p))
    (hf : ∀ a rest, rest <:+ toks → rest.length ≤ n →
      Ends toks Q (some (k (a, rest))) (f a ctx (place toks rest))) :
    Ends toks Q (ans.map k) ((x >>= f) ctx p) := by
  rw [Option.map_eq_bind]
  exact Ends.bind hx hf

/-- A turn may be the last one. -/
lemma Turns.last {E : σ → List Token → Option (α × List Token) → Prop} (h : us <:+ toks)
    (hn : us.length ≤ n) :
    Turns toks E ts n (some (a, us)) (.ok (.last a, place toks us)) :=
  .reaches h ⟨hn, rfl⟩

/-- Or there is another one, with fewer tokens left. -/
lemma Turns.again {E : σ → List Token → Option (α × List Token) → Prop} {s : σ}
    {ans : Option (α × List Token)} (h : us <:+ toks) (hlt : us.length < ts.length)
    (hE : E s us ans) : Turns toks E ts n ans (.ok (.again s, place toks us)) :=
  .reaches h ⟨hlt, hE⟩

/-- **Loops go on and end as the reading does** whose rounds theirs are, and never stall. A reading
that takes `k` tokens at least in its last round takes so many altogether. -/
lemma answers_loop {E : σ → List Token → Option (α × List Token) → Prop}
    {round : σ → Scan (Round σ α)} (k : ℕ)
    (hround : ∀ s ts ans, ts <:+ toks → E s ts ans →
      Turns toks E ts (ts.length - k) ans (round s (contextAt toks tail calls) (place toks ts)))
    {s : σ} {ans : Option (α × List Token)} (h : ts <:+ toks) (hE : E s ts ans) :
    Answers toks (ts.length - k) ans
      (loop round s (contextAt toks tail calls) (place toks ts)) := by
  -- on the tokens left, of which each round but the last takes one
  induction hlen : ts.length using Nat.strong_induction_on generalizing s ts with
  | _ len ih =>
      subst hlen
      have hturn := hround s ts ans h hE
      rw [loop]
      generalize round s (contextAt toks tail calls) (place toks ts) = r at hturn
      cases hturn with
      | refused => exact .refused
      | @reaches a rest _ hrest hQ =>
          cases a with
          | last a => exact .reaches hrest hQ
          | again s =>
              dsimp only
              rw [if_pos (place_lt h hQ.1)]
              exact (ih _ hQ.1 hrest hQ.2 rfl).mono (by have := hQ.1; omega)

/-- Where a token is left, there is a round for it and enough for those behind it. -/
lemma exists_rounds_eq {rounds : ℕ} (h : (t :: ts).length ≤ rounds) :
    ∃ n, rounds = n + 1 ∧ ts.length ≤ n :=
  ⟨rounds - 1, by rw [List.length_cons] at h; omega, Nat.le_sub_one_of_lt h⟩

end rules

end UnitIndex.TypeExpr.Checked
