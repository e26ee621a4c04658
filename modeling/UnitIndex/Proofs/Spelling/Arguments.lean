import Mathlib
import UnitIndex.Proofs.Spelling.RoundTrip
import UnitIndex.Proofs.Text.Trimming

/-!
Template arguments, read back.

Two counters tell where an argument ends: how many angle brackets are open, and how many parentheses
and square brackets. The first counts inside of parentheses and square brackets too, where `<` and
`>` may be operators. So arguments are read back just if this count is back at zero behind each of
them and keeps together what belongs together (`Counted`); that is no matter of what stands outside
of parentheses and square brackets (`parse?_templateId`, `not_forall_parse?_templateId`). It is
always so where brackets of all kinds nest in each other (`counted_of_nests`).
-/

namespace UnitIndex

open Token (lexFrom cutters isGap)

/-! ### Brackets -/

/-- Kinds of brackets, each with the token that opens it and the one that closes it. -/
abbrev Brackets := List (TokenKind × TokenKind)

/-- Parentheses and square brackets. -/
def groupPairs : Brackets := [(.lparen, .rparen), (.lbracket, .rbracket)]

def anglePairs : Brackets := [(.less, .greater)]

namespace Brackets

variable {pairs : Brackets} {k : TokenKind} {ks : List TokenKind}

/-- How many brackets are open behind a token when `n` are in front of it. -/
def step (pairs : Brackets) (n : ℕ) (k : TokenKind) : ℕ :=
  if k ∈ pairs.map (·.1) then n + 1 else if k ∈ pairs.map (·.2) then n - 1 else n

/-- How many brackets are open behind some tokens when `n` are in front of them. -/
def depth (pairs : Brackets) (n : ℕ) (ks : List TokenKind) : ℕ := ks.foldl pairs.step n

/-- Whether each bracket closes the one that was opened last. The tokens that are to close those
opened so far are `awaited`, the next one first. -/
def nests (pairs : Brackets) (awaited : List TokenKind) : List TokenKind → Bool
  | [] => awaited.isEmpty
  | k :: ks =>
    match pairs.lookup k with
    | some close => pairs.nests (close :: awaited) ks
    | none =>
      if k ∈ pairs.map (·.2) then awaited.head? = some k && pairs.nests awaited.tail ks
      else pairs.nests awaited ks

/-- The tokens that stand outside of all brackets. -/
def bare (pairs : Brackets) (n : ℕ) : List TokenKind → List TokenKind
  | [] => []
  | k :: ks =>
    if n = 0 ∧ k ∉ pairs.map (·.1) ++ pairs.map (·.2) then k :: pairs.bare 0 ks
    else pairs.bare (pairs.step n k) ks

end Brackets

/-- The kinds of the tokens of a text. -/
def kinds (a : String) : List TokenKind := (Token.lex a).map (·.kind)

/-- Whether the text may stand as a template argument: something is written there, parentheses and
square brackets nest, so do the angle brackets outside of these, and no comma stands outside of all
brackets. -/
structure IsArgument (a : String) : Prop where
  not_blank : Text.isAllBlank a = false
  groups : groupPairs.nests [] (kinds a) = true
  angles : anglePairs.nests [] (groupPairs.bare 0 (kinds a)) = true
  no_comma : .comma ∉ anglePairs.bare 0 (groupPairs.bare 0 (kinds a))

/-! ### Counting -/

/-- What ends an argument where nothing is open. -/
def endKinds : List TokenKind := [.greater, .comma]

lemma greater_mem_endKinds : TokenKind.greater ∈ endKinds := by decide

lemma comma_mem_endKinds : TokenKind.comma ∈ endKinds := by decide

variable {n m : ℕ} {k : TokenKind} {ks : List TokenKind}

/-- Whether nothing ends the argument: with `n` angle brackets and `m` groups open in front, there
is always an angle bracket open in front of a `>` or a comma that stands in no group. -/
def Shielded (n m : ℕ) (ks : List TokenKind) : Prop :=
  ∀ front k back, ks = front ++ k :: back → k ∈ endKinds → groupPairs.depth m front = 0 →
    0 < anglePairs.depth n front

/-- Whether the count of all angle brackets, those in groups among them, keeps the tokens together
and comes back to zero. -/
structure Counted (ks : List TokenKind) : Prop where
  shielded : Shielded 0 0 ks
  closed : anglePairs.depth 0 ks = 0

/-- Where there are no tokens, none ends the argument. -/
lemma shielded_nil (n m : ℕ) : Shielded n m [] := by
  intro front k back heq
  simp at heq

/-- The first token may end an argument only if an angle bracket is open, and so for the rest. -/
lemma shielded_cons :
    Shielded n m (k :: ks) ↔ (k ∈ endKinds → m = 0 → 0 < n) ∧
      Shielded (anglePairs.step n k) (groupPairs.step m k) ks := by
  constructor
  · intro h
    exact ⟨h [] k ks rfl, fun front k' back heq => h (k :: front) k' back (by rw [heq]; rfl)⟩
  · rintro ⟨hk, hks⟩ front k' back heq
    cases front with
    | nil =>
        obtain ⟨rfl, rfl⟩ := List.cons.inj heq
        exact hk
    | cons first front =>
        obtain ⟨rfl, rfl⟩ := List.cons.inj heq
        exact hks front k' back rfl

/-- What a token does where brackets nest: it opens a bracket, it closes the one opened last, or it
is no bracket. -/
lemma nests_cons {pairs : Brackets} {awaited : List TokenKind}
    (h : pairs.nests awaited (k :: ks) = true) :
    (∃ close, (k, close) ∈ pairs ∧ pairs.nests (close :: awaited) ks = true) ∨
      k ∉ pairs.map (·.1) ∧
        ((∃ front, awaited = k :: front ∧ k ∈ pairs.map (·.2) ∧ pairs.nests front ks = true) ∨
          k ∉ pairs.map (·.2) ∧ pairs.nests awaited ks = true) := by
  rw [Brackets.nests] at h
  -- what opens a bracket is never taken as closing one
  cases hlookup : pairs.lookup k with
  | some close =>
      rw [hlookup] at h
      obtain ⟨front, back, heq, -⟩ := List.lookup_eq_some_iff.mp hlookup
      exact .inl ⟨close, by rw [heq]; simp, h⟩
  | none =>
      rw [hlookup] at h
      dsimp only at h
      rw [List.lookup_eq_none_iff] at hlookup
      refine .inr ⟨fun hk => ?_, ?_⟩
      · obtain ⟨p, hp, rfl⟩ := List.mem_map.mp hk
        simpa using hlookup p hp
      · split at h
        · next hclose =>
          rw [Bool.and_eq_true, decide_eq_true_eq] at h
          obtain ⟨front, rfl⟩ : ∃ front, awaited = k :: front := List.head?_eq_some_iff.mp h.1
          exact .inl ⟨front, rfl, hclose, h.2⟩
        · next hclose => exact .inr ⟨hclose, h⟩

/-- Where brackets nest, all of them are closed at the end. -/
lemma depth_of_nests {pairs : Brackets} {awaited : List TokenKind}
    (h : pairs.nests awaited ks = true) : pairs.depth awaited.length ks = 0 := by
  induction ks generalizing awaited with
  | nil =>
      obtain rfl : awaited = [] := by simpa [Brackets.nests] using h
      rfl
  | cons k ks ih =>
      show pairs.depth (pairs.step awaited.length k) ks = 0
      rw [Brackets.step]
      rcases nests_cons h with ⟨close, hopen, h⟩ | ⟨hopen, ⟨front, rfl, hclose, h⟩ | ⟨hclose, h⟩⟩
      · rw [if_pos (List.mem_map_of_mem hopen)]
        exact ih h
      · rw [if_neg hopen, if_pos hclose]
        exact ih h
      · rw [if_neg hopen, if_neg hclose]
        exact ih h

/-! ### Reading arguments -/

namespace TypeExpr

variable {ts more rest : List Token} {t sep : Token} {arg : List Token} {args : List String}

/-- A token that does not end the argument. -/
lemma templateArgs_cons (h : t.kind ∈ endKinds → m = 0 → 0 < n) :
    templateArgs n m arg (t :: ts) =
      templateArgs (anglePairs.step n t.kind) (groupPairs.step m t.kind) (t :: arg) ts := by
  rw [templateArgs]
  cases hkind : t.kind <;> simp_all [Brackets.step, anglePairs, groupPairs, endKinds] <;> omega

/-- Tokens that do not end the argument. -/
lemma templateArgs_append (h : Shielded n m (ts.map (·.kind))) :
    templateArgs n m arg (ts ++ rest) =
      templateArgs (anglePairs.depth n (ts.map (·.kind))) (groupPairs.depth m (ts.map (·.kind)))
        (ts.reverse ++ arg) rest := by
  induction ts generalizing n m arg with
  | nil => rfl
  | cons t ts ih =>
      obtain ⟨ht, hts⟩ := shielded_cons.mp h
      rw [List.cons_append, templateArgs_cons ht, ih hts, List.reverse_cons, List.append_assoc]
      rfl

/-- The first token that ends the argument, if there is one. -/
lemma exists_end_of_not_shielded (h : ¬Shielded n m (ts.map (·.kind))) :
    ∃ front t back, ts = front ++ t :: back ∧ t.kind ∈ endKinds ∧
      Shielded n m (front.map (·.kind)) ∧ anglePairs.depth n (front.map (·.kind)) = 0 ∧
      groupPairs.depth m (front.map (·.kind)) = 0 := by
  induction ts generalizing n m with
  | nil => exact absurd (shielded_nil n m) h
  | cons t ts ih =>
      by_cases ht : t.kind ∈ endKinds → m = 0 → 0 < n
      · obtain ⟨front, t', back, rfl, hend, hfront, hangles, hgroups⟩ :=
          ih fun hts => h (shielded_cons.mpr ⟨ht, hts⟩)
        exact ⟨t :: front, t', back, rfl, hend, shielded_cons.mpr ⟨ht, hfront⟩, hangles, hgroups⟩
      · push Not at ht
        obtain ⟨hend, rfl, hn⟩ := ht
        exact ⟨[], t, ts, rfl, hend, shielded_nil n 0, Nat.le_zero.mp hn, rfl⟩

/-- What ends an argument where nothing is open. -/
lemma templateArgs_end (hend : t.kind ∈ endKinds) :
    templateArgs 0 0 arg (t :: ts) =
      if t.kind = .comma then
        (templateArgs 0 0 [] ts).map fun (args, rest) => (textOf arg.reverse :: args, rest)
      else some (if (textOf arg.reverse).isEmpty then [] else [textOf arg.reverse], ts) := by
  rw [templateArgs]
  simp only [endKinds, List.mem_cons, List.not_mem_nil, or_false] at hend
  rcases hend with hend | hend <;> simp [hend]

/-- Then the first argument is what has been read of it. -/
lemma headD_of_templateArgs_end (hend : t.kind ∈ endKinds)
    (h : templateArgs 0 0 arg (t :: ts) = some (args, rest)) :
    args.headD "" = textOf arg.reverse := by
  rw [templateArgs_end hend] at h
  split at h
  · obtain ⟨_, -, hout⟩ := Option.map_eq_some_iff.mp h
    obtain ⟨rfl, -⟩ := Prod.mk.inj hout
    rfl
  · obtain ⟨rfl, -⟩ := Prod.mk.inj (Option.some.inj h)
    split
    · next hempty => exact (String.isEmpty_iff.mp hempty).symm
    · rfl

/-- The first argument begins with what has been read of it. -/
lemma exists_head_of_templateArgs (h : templateArgs n m arg ts = some (args, rest)) :
    ∃ taken, args.headD "" = textOf (arg.reverse ++ taken) := by
  induction ts generalizing n m arg with
  | nil => simp [templateArgs] at h
  | cons t ts ih =>
      by_cases ht : t.kind ∈ endKinds → m = 0 → 0 < n
      · rw [templateArgs_cons ht] at h
        obtain ⟨taken, htaken⟩ := ih h
        exact ⟨t :: taken, by simpa using htaken⟩
      · push Not at ht
        obtain ⟨hend, rfl, hn⟩ := ht
        obtain rfl := Nat.le_zero.mp hn
        exact ⟨[], by rw [headD_of_templateArgs_end hend h, List.append_nil]⟩

/-- To join tokens changes nothing but blanks. -/
lemma ink_textOf (ts : List Token) : Text.ink (textOf ts).toList = Text.ink (Token.source ts) := by
  rw [textOf, String.toList_ofList, Text.ink_trim]

/-- Two runs of tokens with the same text have the same ink, so that none is missing at the end. -/
lemma textOf_ne_of_ink (ts : List Token) (t : Token) (more : List Token)
    (ht : 0 < Text.ink t.text) : textOf ts ≠ textOf (ts ++ t :: more) := by
  intro h
  have hink := congrArg (fun s => Text.ink s.toList) h
  simp only [ink_textOf, Token.source, List.flatMap_append, List.flatMap_cons, Text.ink_append]
    at hink
  omega

/-- If the first argument is the text in front of a token that may end it, the count is right
there. -/
lemma counted_of_headD (hgroups : groupPairs.depth 0 (ts.map (·.kind)) = 0)
    (hsep : sep.kind ∈ endKinds)
    (hink : ∀ t ∈ ts ++ [sep], t.kind ∈ endKinds → 0 < Text.ink t.text)
    (h : templateArgs 0 0 [] (ts ++ sep :: more) = some (args, rest))
    (hhead : args.headD "" = textOf ts) : Counted (ts.map (·.kind)) := by
  by_cases hshielded : Shielded 0 0 (ts.map (·.kind))
  · refine ⟨hshielded, ?_⟩
    by_contra hopen
    rw [templateArgs_append hshielded, hgroups,
      templateArgs_cons fun _ _ => Nat.pos_of_ne_zero hopen] at h
    obtain ⟨taken, htaken⟩ := exists_head_of_templateArgs h
    refine textOf_ne_of_ink ts sep taken (hink sep (by simp) hsep) ?_
    rw [← hhead, htaken]
    simp
  · obtain ⟨front, t, back, rfl, hend, hfront, hangles, hgroups'⟩ :=
      exists_end_of_not_shielded hshielded
    rw [List.append_assoc, templateArgs_append hfront, hangles, hgroups', List.cons_append] at h
    have hcut := headD_of_templateArgs_end hend h
    rw [List.append_nil, List.reverse_reverse] at hcut
    exact absurd (hcut.symm.trans hhead) (textOf_ne_of_ink front t back (hink t (by simp) hend))

/-- What is counted right is one argument. -/
lemma templateArgs_of_counted (hcounted : Counted (ts.map (·.kind)))
    (hgroups : groupPairs.depth 0 (ts.map (·.kind)) = 0) (hsep : sep.kind ∈ endKinds) :
    templateArgs 0 0 [] (ts ++ sep :: more) =
      if sep.kind = .comma then
        (templateArgs 0 0 [] more).map fun (args, rest) => (textOf ts :: args, rest)
      else some (if (textOf ts).isEmpty then [] else [textOf ts], more) := by
  rw [templateArgs_append hcounted.shielded, hcounted.closed, hgroups, templateArgs_end hsep,
    List.append_nil, List.reverse_reverse]

/-! ### Arguments of a text -/

lemma isBlank_of_isGap {c : Char} (h : isGap c = true) : Text.isBlank c = true := by
  simp only [isGap, Bool.or_eq_true, beq_iff_eq] at h
  rcases h with (((rfl | rfl) | rfl) | rfl) | rfl <;> decide

/-- What stands in front of a text does not change its tokens. -/
lemma map_kind_lexFrom (g cs : List Char) :
    (lexFrom g cs).map (·.kind) = (lexFrom [] cs).map (·.kind) := by
  induction cs generalizing g with
  | nil => simp
  | cons c cs ih =>
      by_cases hc : isGap c = true
      · rw [Token.lexFrom_gap hc, Token.lexFrom_gap hc, ih, ih (_ ++ _)]
      · have hc : isGap c = false := by simpa using hc
        rw [Token.lexFrom_cons hc rfl, Token.lexFrom_cons hc rfl]
        rfl

/-- A token that may end an argument is not blank. -/
lemma ink_pos_of_mem_lexFrom {g cs : List Char} (ht : t ∈ lexFrom g cs) (hend : t.kind ∈ endKinds) :
    0 < Text.ink t.text := by
  have hcutter : ∀ k ∈ endKinds, k ∈ cutters.map (·.2) := by decide
  have hblank : ∀ b ∈ cutters.map (·.1), Text.isBlank b = false :=
    Token.forall_mem_of_all (by decide)
  obtain ⟨b, -, htext, hb⟩ := Token.exists_cutter_of_mem_lexFrom ht (hcutter _ hend)
  rw [htext]
  simp [Text.ink, hblank b (List.mem_map_of_mem (f := Prod.fst) hb)]

/-- The text of tokens is the trimmed text that they were cut from. -/
lemma textOf_lexFrom {g : List Char} (hg : ∀ c ∈ g, isGap c = true) (cs : List Char) :
    textOf (lexFrom g cs) = String.ofList (Text.trim cs) := by
  have hblanks {g : List Char} (hg : ∀ c ∈ g, isGap c = true) : ∀ c ∈ g, Text.isBlank c = true :=
    fun c hc => isBlank_of_isGap (hg c hc)
  obtain ⟨tail, htail, hsource⟩ := Token.source_lexFrom g cs (List.all_eq_true.mpr hg)
  rw [textOf, ← Text.trim_append_blanks (hblanks (List.all_eq_true.mp htail)), hsource,
    Text.trim_blanks_append (hblanks hg)]

/-- The text of arguments behind the opening angle bracket. -/
def argumentText (args : List String) (rest : List Char) : List Char :=
  (", ".intercalate args).toList ++ '>' :: rest

/-- Behind the last argument the bracket is closed. -/
lemma argumentText_singleton (a : String) (rest : List Char) :
    argumentText [a] rest = a.toList ++ '>' :: rest := by
  rw [argumentText, String.intercalate_singleton]

/-- Behind each other one there is a comma. -/
lemma argumentText_cons_cons (a a' : String) (args : List String) (rest : List Char) :
    argumentText (a :: a' :: args) rest =
      a.toList ++ ',' :: ' ' :: argumentText (a' :: args) rest := by
  rw [argumentText, argumentText, String.intercalate_cons_cons, String.toList_append,
    String.toList_append, List.append_assoc, List.append_assoc]
  rfl

/-- An argument that is not blank has a text. -/
lemma trimmed_isEmpty {a : String} (h : Text.isAllBlank a = false) :
    (Text.trimmed a).isEmpty = false := by
  by_contra hempty
  rw [Bool.not_eq_false, String.isEmpty_iff] at hempty
  have hink := congrArg (fun s => Text.ink s.toList) hempty
  simp only [Text.trimmed, String.toList_ofList, Text.ink_trim] at hink
  have hall : a.toList.all Text.isBlank = true := by
    simpa [Text.ink, List.countP_eq_zero] using hink
  rw [Text.isAllBlank, hall] at h
  exact Bool.noConfusion h

variable {g cs : List Char}

/-- **Arguments that are counted right are read as they were written.** -/
lemma templateArgs_argumentText (hne : args ≠ [])
    (hargs : ∀ a ∈ args, Text.isAllBlank a = false ∧ groupPairs.depth 0 (kinds a) = 0)
    (hcounted : ∀ a ∈ args, Counted (kinds a)) (hg : ∀ c ∈ g, isGap c = true) :
    templateArgs 0 0 [] (lexFrom g (argumentText args cs)) =
      some (args.map Text.trimmed, lexFrom [] cs) := by
  induction args generalizing g with
  | nil => exact absurd rfl hne
  | cons a args ih =>
      obtain ⟨⟨hblank, hgroups⟩, hargs⟩ := List.forall_mem_cons.mp hargs
      obtain ⟨ha, hcounted⟩ := List.forall_mem_cons.mp hcounted
      have htext : textOf (lexFrom g a.toList) = Text.trimmed a := textOf_lexFrom hg a.toList
      -- the kinds of the tokens do not depend on the blanks in front
      rw [kinds, Token.lex, ← map_kind_lexFrom g] at hgroups ha
      cases args with
      | nil =>
          obtain ⟨gap, hcut⟩ := Token.exists_lexFrom_append
            (show ('>', .greater) ∈ Token.cutters by decide) g a.toList cs
          rw [argumentText_singleton, hcut,
            templateArgs_of_counted ha hgroups greater_mem_endKinds, htext, if_neg (by simp),
            if_neg (by simp [trimmed_isEmpty hblank])]
          rfl
      | cons a' args =>
          obtain ⟨gap, hcut⟩ := Token.exists_lexFrom_append
            (show (',', .comma) ∈ Token.cutters by decide) g a.toList
            (' ' :: argumentText (a' :: args) cs)
          rw [argumentText_cons_cons, hcut,
            templateArgs_of_counted ha hgroups comma_mem_endKinds, htext, if_pos rfl,
            Token.lexFrom_space, ih (List.cons_ne_nil a' args) hargs hcounted (by simp [isGap])]
          rfl

/-- Only such arguments are. -/
lemma counted_of_templateArgs_argumentText (hne : args ≠ [])
    (hgroups : ∀ a ∈ args, groupPairs.depth 0 (kinds a) = 0) (hg : ∀ c ∈ g, isGap c = true)
    (h : templateArgs 0 0 [] (lexFrom g (argumentText args cs)) =
      some (args.map Text.trimmed, rest)) :
    ∀ a ∈ args, Counted (kinds a) := by
  induction args generalizing g with
  | nil => exact absurd rfl hne
  | cons a args ih =>
      obtain ⟨hgroup, hgroups⟩ := List.forall_mem_cons.mp hgroups
      have htext : textOf (lexFrom g a.toList) = Text.trimmed a := textOf_lexFrom hg a.toList
      rw [kinds, Token.lex, ← map_kind_lexFrom g] at hgroup
      have hkinds : kinds a = (lexFrom g a.toList).map (·.kind) := by
        rw [map_kind_lexFrom, kinds, Token.lex]
      -- an argument that is read too short lacks ink, which the whole text has
      have hink {b : Char} {kind : TokenKind} {gap : List Char} (hb : 0 < Text.ink [b]) :
          ∀ t ∈ lexFrom g a.toList ++ [⟨gap, kind, [b]⟩], t.kind ∈ endKinds →
            0 < Text.ink t.text := by
        intro t ht hend
        rcases List.mem_append.mp ht with ht | ht
        · exact ink_pos_of_mem_lexFrom ht hend
        · obtain rfl := List.mem_singleton.mp ht
          exact hb
      cases args with
      | nil =>
          obtain ⟨gap, hcut⟩ := Token.exists_lexFrom_append
            (show ('>', .greater) ∈ Token.cutters by decide) g a.toList cs
          rw [argumentText_singleton, hcut] at h
          rw [List.forall_mem_singleton, hkinds]
          exact counted_of_headD hgroup greater_mem_endKinds (hink (by decide)) h htext.symm
      | cons a' args =>
          obtain ⟨gap, hcut⟩ := Token.exists_lexFrom_append
            (show (',', .comma) ∈ Token.cutters by decide) g a.toList
            (' ' :: argumentText (a' :: args) cs)
          rw [argumentText_cons_cons, hcut] at h
          have ha := counted_of_headD hgroup comma_mem_endKinds (hink (by decide)) h htext.symm
          rw [templateArgs_of_counted ha hgroup comma_mem_endKinds, if_pos rfl, Token.lexFrom_space]
            at h
          obtain ⟨⟨args', rest'⟩, hread, hout⟩ := Option.map_eq_some_iff.mp h
          obtain ⟨hargs, rfl⟩ := Prod.mk.inj hout
          rw [(List.cons.inj hargs).2] at hread
          refine List.forall_mem_cons.mpr ⟨hkinds ▸ ha, ?_⟩
          exact ih (List.cons_ne_nil a' args) hgroups (by simp [isGap]) hread

/-! ### Names with arguments -/

variable {x : String} {inside : List Token} {b : Bool} {s s' : Specifiers}

/-- A name with arguments is read as such, and what follows may continue it. -/
lemma path_args (hx : isKeyword x = false) (rounds : ℕ) (g g' c : List Char) :
    path true (rounds + 1) (⟨g, .ident, x.toList⟩ :: ⟨g', .less, c⟩ :: inside) =
      (templateArgs 0 0 [] inside).bind fun (args, ts) =>
        match ts with
        | sep :: next :: rest =>
          if sep.kind = .colonColon ∧ next.kind = .ident then
            (path true rounds (next :: rest)).map fun (more, rest) => (⟨x, some args⟩ :: more, rest)
          else some ([⟨x, some args⟩], ts)
        | _ => some ([⟨x, some args⟩], ts) := by
  have hword : ¬(x = "typename" ∨ x = "template") := by
    rintro (rfl | rfl) <;> exact absurd hx (by decide)
  rw [path]
  simp only [Token.word, String.ofList_toList, guard_true, hword, if_false, if_true,
    Option.bind_eq_bind, Option.bind_some, Option.pure_def]
  cases templateArgs 0 0 [] inside with
  | none => rfl
  | some read =>
      obtain ⟨args, ts⟩ := read
      rcases ts with _ | ⟨sep, _ | ⟨next, rest⟩⟩
      · rfl
      · rfl
      · simp only [Option.map_some, Option.bind_some]
        split
        · exact Option.map_eq_bind.symm
        · rfl

/-- Then the name that is read begins with this word and its arguments. -/
lemma exists_args_of_path (hx : isKeyword x = false) {rounds : ℕ} {g g' c : List Char}
    {names : List PathSegment}
    (h : path true (rounds + 1) (⟨g, .ident, x.toList⟩ :: ⟨g', .less, c⟩ :: inside) =
      some (names, rest)) :
    ∃ args ts more, templateArgs 0 0 [] inside = some (args, ts) ∧
      names = ⟨x, some args⟩ :: more := by
  rw [path_args hx] at h
  obtain ⟨⟨args, ts⟩, hread, h⟩ := Option.bind_eq_some_iff.mp h
  dsimp only at h
  split at h
  · split at h
    · obtain ⟨_, -, hout⟩ := Option.map_eq_some_iff.mp h
      exact ⟨args, _, _, hread, (Prod.mk.inj hout).1.symm⟩
    · exact ⟨args, _, [], hread, (Prod.mk.inj (Option.some.inj h)).1.symm⟩
  · exact ⟨args, _, [], hread, (Prod.mk.inj (Option.some.inj h)).1.symm⟩

/-- A word behind a base leaves it, or puts another text in its place. -/
lemma base_of_specifierWord (hbase : s.base.isSome)
    (h : specifierWord b s t ts = some (some (s', rest))) :
    s'.base = s.base ∨ ∃ text, s'.base = some (.verbatim text) := by
  have hnone : s.base.isNone = false := by simpa using hbase
  have hopen : s.isOpen = false := by simp [Specifiers.isOpen, hnone]
  unfold specifierWord at h
  split at h
  · cases h
    exact .inl rfl
  split at h
  · cases h
    exact .inl rfl
  split at h
  · obtain ⟨_, -, h⟩ := Option.bind_eq_some_iff.mp h
    cases h
    exact .inr ⟨_, rfl⟩
  split at h
  · obtain ⟨_, -, h⟩ := Option.bind_eq_some_iff.mp h
    cases h
    exact .inl rfl
  -- names and builtin words are only taken while nothing is named
  simp [hnone, hopen] at h

/-- A mark behind a base does not belong to the specifiers. -/
lemma specifierMark_of_base (hbase : s.base.isSome) : specifierMark b s t ts = some none := by
  have hnone : s.base.isNone = false := by simpa using hbase
  have hopen : s.isOpen = false := by simp [Specifiers.isOpen, hnone]
  rw [specifierMark]
  split <;> simp [hopen, hnone]

/-- Once they name something, the specifiers name it to the end, or a text in its place. -/
lemma base_of_specifiersFrom {rounds : ℕ} (hbase : s.base.isSome)
    (h : specifiersFrom b rounds s ts = some (s', rest)) :
    s'.base = s.base ∨ ∃ text, s'.base = some (.verbatim text) := by
  induction rounds generalizing s ts with
  | zero =>
      cases h
      exact .inl rfl
  | succ rounds ih =>
      cases ts with
      | nil =>
          cases h
          exact .inl rfl
      | cons t ts =>
          rw [specifiersFrom_cons] at h
          obtain ⟨next, hnext, h⟩ := Option.bind_eq_some_iff.mp h
          rcases next with _ | ⟨s₁, ts₁⟩
          · cases h
            exact .inl rfl
          · split at hnext
            · have hbase₁ := base_of_specifierWord hbase hnext
              have hsome : s₁.base.isSome := by
                rcases hbase₁ with heq | ⟨text, heq⟩ <;> rw [heq]
                · exact hbase
                · rfl
              rcases ih hsome h with heq | htext
              · rw [heq]
                exact hbase₁
              · exact .inr htext
            · -- behind a base no mark is a specifier
              rw [specifierMark_of_base hbase] at hnext
              cases hnext

/-- The tokens of a name with arguments. -/
lemma lex_templateId (hx : (PathSegment.mk x none).Plain) (args : List String) :
    Token.lex (String.ofList (PathSegment.spelling ⟨x, some args⟩)) =
      ⟨[], .ident, x.toList⟩ :: ⟨[], .less, ['<']⟩ :: lexFrom [] (argumentText args []) := by
  have htext : PathSegment.spelling ⟨x, some args⟩ = x.toList ++ '<' :: argumentText args [] := by
    rw [PathSegment.spelling, argumentText]
    rfl
  have hless : Token.LeavesWord ('<' :: argumentText args []) :=
    Token.LeavesWord.cons (by decide) (by decide) _
  rw [Token.lex, String.toList_ofList, htext, Token.lexFrom_word hx.isWord hless,
    Token.lexFrom_cutter (show ('<', .less) ∈ Token.cutters by decide)]

/-- What is named at such a name has the arguments that were read. -/
lemma templateArgs_of_specifiers {p : List PathSegment} {args' : List String} {quals : Qualifiers}
    (hx : (PathSegment.mk x none).Plain) {g g' c : List Char}
    (h : specifiers true (⟨g, .ident, x.toList⟩ :: ⟨g', .less, c⟩ :: inside) =
      some ((.named none (⟨x, some args'⟩ :: p), quals), rest)) :
    ∃ rest', templateArgs 0 0 [] inside = some (args', rest') := by
  obtain ⟨⟨s', ts'⟩, hspecifiers, h⟩ := Option.bind_eq_some_iff.mp h
  rw [List.length_cons, specifiersFrom_cons, if_pos rfl, specifierWord_name hx.not_keyword rfl]
    at hspecifiers
  obtain ⟨next, hnext, hspecifiers⟩ := Option.bind_eq_some_iff.mp hspecifiers
  obtain ⟨⟨s₁, ts₁⟩, hpath, rfl⟩ := Option.map_eq_some_iff.mp hnext
  obtain ⟨⟨names, ts₂⟩, hpath, hout⟩ := Option.bind_eq_some_iff.mp hpath
  cases hout
  rw [qualifiedPath, List.length_cons] at hpath
  obtain ⟨args, ts₃, more, hread, rfl⟩ := exists_args_of_path hx.not_keyword hpath
  obtain ⟨⟨base, quals'⟩, hresult, hout⟩ := Option.bind_eq_some_iff.mp h
  cases hout
  -- the base that comes out is the one in the specifiers
  have hbase : s'.base = some (.named none (⟨x, some args'⟩ :: p)) := by
    rw [Specifiers.result?] at hresult
    split at hresult
    · next base hbase => rw [hbase, (Prod.mk.inj (Option.some.inj hresult)).1]
    · split at hresult <;> cases hresult
  rcases base_of_specifiersFrom rfl hspecifiers with heq | ⟨text, heq⟩ <;> rw [hbase] at heq
  · cases heq
    exact ⟨ts₃, hread⟩
  · cases heq

/-- A name with arguments, up to the end. -/
lemma specifiers_of_templateArgs (hx : (PathSegment.mk x none).Plain) {g g' c : List Char}
    (h : templateArgs 0 0 [] inside = some (args, [])) :
    specifiers true (⟨g, .ident, x.toList⟩ :: ⟨g', .less, c⟩ :: inside) =
      some ((.named none [⟨x, some args⟩], {}), []) := by
  have hpath (rounds : ℕ) : path true (rounds + 1)
      (⟨g, .ident, x.toList⟩ :: ⟨g', .less, c⟩ :: inside) = some ([⟨x, some args⟩], []) := by
    rw [path_args hx.not_keyword, h]
    rfl
  rw [specifiers, List.length_cons, specifiersFrom_cons, if_pos rfl,
    specifierWord_name hx.not_keyword rfl, withPath, qualifiedPath, List.length_cons, hpath]
  rfl

/-! ### Brackets of all kinds -/

/-- All brackets. -/
def bracketPairs : Brackets := anglePairs ++ groupPairs

variable {awaited : List TokenKind}

/-- How many parentheses and square brackets are to be closed. -/
def awaitedGroups (awaited : List TokenKind) : ℕ := awaited.countP (· ≠ .greater)

/-- How many angle brackets are to be closed that stand in no group. -/
def awaitedOutside : List TokenKind → ℕ
  | [] => 0
  | k :: awaited =>
    if k = .greater ∧ awaitedGroups awaited = 0 then awaitedOutside awaited + 1
    else awaitedOutside awaited

/-- An angle bracket is no group. -/
@[simp]
lemma awaitedGroups_greater (awaited : List TokenKind) :
    awaitedGroups (.greater :: awaited) = awaitedGroups awaited :=
  List.countP_cons_of_neg (by simp)

/-- Every other bracket is. -/
lemma awaitedGroups_cons (h : k ≠ .greater) (awaited : List TokenKind) :
    awaitedGroups (k :: awaited) = awaitedGroups awaited + 1 :=
  List.countP_cons_of_pos (by simpa using h)

/-- Inside of a group no angle bracket counts as outside. -/
lemma awaitedOutside_cons (h : k ≠ .greater) (awaited : List TokenKind) :
    awaitedOutside (k :: awaited) = awaitedOutside awaited :=
  if_neg fun hk => h hk.1

/-- Outside of groups all angle brackets count. -/
lemma awaitedOutside_eq_count (h : awaitedGroups awaited = 0) :
    awaitedOutside awaited = awaited.count .greater := by
  induction awaited with
  | nil => rfl
  | cons k awaited ih =>
      by_cases hk : k = .greater
      · subst hk
        rw [awaitedGroups_greater] at h
        rw [awaitedOutside, if_pos ⟨rfl, h⟩, ih h, List.count_cons_self]
      · rw [awaitedGroups_cons hk] at h
        exact absurd h (Nat.succ_ne_zero _)

/-- The tokens outside of all brackets, with the brackets open in front of them that are to be
closed. -/
def outside (awaited ks : List TokenKind) : List TokenKind :=
  anglePairs.bare (awaitedOutside awaited) (groupPairs.bare (awaitedGroups awaited) ks)

/-- Inside of an opened bracket nothing is outside that was not before. -/
lemma outside_open {close : TokenKind} (h : (k, close) ∈ bracketPairs)
    (awaited ks : List TokenKind) : outside awaited (k :: ks) = outside (close :: awaited) ks := by
  simp only [bracketPairs, anglePairs, groupPairs, List.cons_append, List.nil_append,
    List.mem_cons, Prod.mk.injEq, List.not_mem_nil, or_false] at h
  rw [outside, outside]
  rcases h with ⟨rfl, rfl⟩ | ⟨rfl, rfl⟩ | ⟨rfl, rfl⟩
  · rw [awaitedGroups_greater, awaitedOutside]
    cases awaitedGroups awaited <;> simp [Brackets.bare, Brackets.step, groupPairs, anglePairs]
  all_goals
    rw [awaitedGroups_cons (by decide), awaitedOutside_cons (by decide)]
    simp [Brackets.bare, Brackets.step, groupPairs]

/-- Behind a closing bracket things are as they were in front of the opening one. -/
lemma outside_close (h : k ∈ bracketPairs.map (·.2)) (awaited ks : List TokenKind) :
    outside (k :: awaited) (k :: ks) = outside awaited ks := by
  simp only [bracketPairs, anglePairs, groupPairs, List.cons_append, List.nil_append,
    List.map_cons, List.map_nil, List.mem_cons, List.not_mem_nil, or_false] at h
  rw [outside, outside]
  rcases h with rfl | rfl | rfl
  · rw [awaitedGroups_greater, awaitedOutside]
    cases awaitedGroups awaited <;> simp [Brackets.bare, Brackets.step, groupPairs, anglePairs]
  all_goals
    rw [awaitedGroups_cons (by decide), awaitedOutside_cons (by decide)]
    simp [Brackets.bare, Brackets.step, groupPairs]

/-- What is no bracket stands outside of all of them if none is open. -/
lemma outside_other (hopen : k ∉ bracketPairs.map (·.1)) (hclose : k ∉ bracketPairs.map (·.2))
    (awaited ks : List TokenKind) :
    outside awaited (k :: ks) =
      if awaitedGroups awaited = 0 ∧ awaitedOutside awaited = 0 then k :: outside awaited ks
      else outside awaited ks := by
  simp only [bracketPairs, anglePairs, groupPairs, List.map_append, List.map_cons, List.map_nil,
    List.mem_append, List.mem_cons, List.not_mem_nil, or_false, not_or] at hopen hclose
  rw [outside, outside]
  cases awaitedGroups awaited <;> cases awaitedOutside awaited <;>
    simp [Brackets.bare, Brackets.step, anglePairs, groupPairs, hopen, hclose]

/-- Whether both counts go behind a token as the brackets do that are to be closed: these are
`awaited'` then. -/
structure Tallies (awaited : List TokenKind) (k : TokenKind) (awaited' : List TokenKind) :
    Prop where
  angles : anglePairs.step (awaited.count .greater) k = awaited'.count .greater
  groups : groupPairs.step (awaitedGroups awaited) k = awaitedGroups awaited'

/-- An opening bracket is counted by the counter of its kind. -/
lemma tallies_open {close : TokenKind} (h : (k, close) ∈ bracketPairs)
    (awaited : List TokenKind) : Tallies awaited k (close :: awaited) := by
  simp only [bracketPairs, anglePairs, groupPairs, List.cons_append, List.nil_append,
    List.mem_cons, Prod.mk.injEq, List.not_mem_nil, or_false] at h
  rcases h with ⟨rfl, rfl⟩ | ⟨rfl, rfl⟩ | ⟨rfl, rfl⟩ <;> constructor <;>
    simp [Brackets.step, anglePairs, groupPairs, awaitedGroups_cons]

lemma tallies_close (h : k ∈ bracketPairs.map (·.2)) (awaited : List TokenKind) :
    Tallies (k :: awaited) k awaited := by
  simp only [bracketPairs, anglePairs, groupPairs, List.cons_append, List.nil_append,
    List.map_cons, List.map_nil, List.mem_cons, List.not_mem_nil, or_false] at h
  rcases h with rfl | rfl | rfl <;> constructor <;>
    simp [Brackets.step, anglePairs, groupPairs, awaitedGroups_cons]

/-- What is no bracket is not counted. -/
lemma tallies_other (hopen : k ∉ bracketPairs.map (·.1)) (hclose : k ∉ bracketPairs.map (·.2))
    (awaited : List TokenKind) : Tallies awaited k awaited := by
  simp only [bracketPairs, List.map_append, List.mem_append, not_or] at hopen hclose
  constructor
  · rw [Brackets.step, if_neg hopen.1, if_neg hclose.1]
  · rw [Brackets.step, if_neg hopen.2, if_neg hclose.2]

/-- Where brackets of all kinds nest and commas stand in some of them, the count keeps the tokens
together. -/
lemma shielded_of_nests (hnests : bracketPairs.nests awaited ks = true)
    (hcomma : .comma ∉ outside awaited ks) :
    Shielded (awaited.count .greater) (awaitedGroups awaited) ks ∧
      anglePairs.depth (awaited.count .greater) ks = 0 := by
  induction ks generalizing awaited with
  | nil =>
      obtain rfl : awaited = [] := by simpa [Brackets.nests] using hnests
      exact ⟨shielded_nil _ _, rfl⟩
  | cons k ks ih =>
      have hstep {awaited' : List TokenKind} (htallies : Tallies awaited k awaited')
          (hnests : bracketPairs.nests awaited' ks = true) (hcomma : .comma ∉ outside awaited' ks)
          (hend : k ∈ endKinds → awaitedGroups awaited = 0 → 0 < awaited.count .greater) :
          Shielded (awaited.count .greater) (awaitedGroups awaited) (k :: ks) ∧
            anglePairs.depth (awaited.count .greater) (k :: ks) = 0 := by
        obtain ⟨hshielded, hdepth⟩ := ih hnests hcomma
        rw [← htallies.angles] at hshielded hdepth
        rw [← htallies.groups] at hshielded
        exact ⟨shielded_cons.mpr ⟨hend, hshielded⟩, hdepth⟩
      rcases nests_cons hnests with
        ⟨close, hopen, hnests⟩ | ⟨hopen, ⟨front, rfl, hclose, hnests⟩ | ⟨hclose, hnests⟩⟩
      · have hnoend : ∀ p ∈ bracketPairs, p.1 ∉ endKinds := by decide
        rw [outside_open hopen] at hcomma
        exact hstep (tallies_open hopen awaited) hnests hcomma fun hend =>
          absurd hend (hnoend _ hopen)
      · have hgreater : ∀ k ∈ bracketPairs.map (·.2), k ∈ endKinds → k = .greater := by decide
        rw [outside_close hclose] at hcomma
        refine hstep (tallies_close hclose front) hnests hcomma fun hend _ => ?_
        rw [hgreater k hclose hend, List.count_cons_self]
        exact Nat.succ_pos _
      · rw [outside_other hopen hclose] at hcomma
        refine hstep (tallies_other hopen hclose awaited) hnests ?_ fun hend hgroups => ?_
        · split at hcomma
          · exact fun h => hcomma (List.mem_cons_of_mem k h)
          · exact hcomma
        · -- the token is a comma, which stands in some bracket and in no group
          have hcommaOnly : ∀ k ∈ endKinds, k ∉ bracketPairs.map (·.2) → k = .comma := by decide
          obtain rfl := hcommaOnly k hend hclose
          rw [← awaitedOutside_eq_count hgroups]
          by_contra hzero
          rw [if_pos ⟨hgroups, by omega⟩] at hcomma
          exact hcomma List.mem_cons_self

/-- **Where the brackets of an argument nest, those of all kinds in each other, the count is
right.** -/
lemma counted_of_nests (hnests : bracketPairs.nests [] ks = true)
    (hcomma : .comma ∉ anglePairs.bare 0 (groupPairs.bare 0 ks)) : Counted ks := by
  obtain ⟨hshielded, hclosed⟩ := shielded_of_nests hnests hcomma
  exact ⟨hshielded, hclosed⟩

/-! ### Names with arguments, read back -/

/-- A name with arguments is read back just if all of them are counted right. -/
lemma parse?_templateId_iff (hx : (PathSegment.mk x none).Plain) (hne : args ≠ [])
    (hargs : ∀ a ∈ args, IsArgument a) :
    parse? (String.ofList (PathSegment.spelling ⟨x, some args⟩)) =
        some ⟨.named none [⟨x, some (args.map Text.trimmed)⟩], {}, []⟩ ↔
      ∀ a ∈ args, Counted (kinds a) := by
  have hgroups : ∀ a ∈ args, groupPairs.depth 0 (kinds a) = 0 := fun a ha =>
    depth_of_nests (hargs a ha).groups
  constructor
  · intro h
    obtain ⟨ts, hspecifiers⟩ := exists_specifiers_of_parse? h
    rw [lex_templateId hx] at hspecifiers
    obtain ⟨rest', hread⟩ := templateArgs_of_specifiers hx hspecifiers
    exact counted_of_templateArgs_argumentText hne hgroups (by simp) hread
  · intro hcounted
    have hread : templateArgs 0 0 [] (lexFrom [] (argumentText args [])) =
        some (args.map Text.trimmed, []) := by
      rw [templateArgs_argumentText hne (fun a ha => ⟨(hargs a ha).not_blank, hgroups a ha⟩)
        hcounted (by simp), Token.lexFrom_nil]
    have hspecifiers : specifiers true
        (Token.lex (String.ofList (PathSegment.spelling ⟨x, some args⟩))) =
          some ((.named none [⟨x, some (args.map Text.trimmed)⟩], {}), []) := by
      rw [lex_templateId hx]
      exact specifiers_of_templateArgs hx hread
    rw [parse?_of_specifiers hspecifiers (by simp), if_pos rfl]

/-- **Template arguments, read back.** A name with arguments is read as this name with the trimmed
texts of its arguments just if the count of angle brackets is right in each of these, where it
includes the angle brackets that stand in parentheses or square brackets. It is right if angle
brackets nest there as well. -/
theorem parse?_templateId (hx : (PathSegment.mk x none).Plain) (hne : args ≠ [])
    (hargs : ∀ a ∈ args, IsArgument a) :
    (parse? (String.ofList (PathSegment.spelling ⟨x, some args⟩)) =
        some ⟨.named none [⟨x, some (args.map Text.trimmed)⟩], {}, []⟩ ↔
      ∀ a ∈ args, Counted (kinds a)) ∧
      ((∀ a ∈ args, bracketPairs.nests [] (kinds a) = true) →
        parse? (String.ofList (PathSegment.spelling ⟨x, some args⟩)) =
          some ⟨.named none [⟨x, some (args.map Text.trimmed)⟩], {}, []⟩) := by
  have hiff := parse?_templateId_iff hx hne hargs
  refine ⟨hiff, fun hnests => hiff.mpr fun a ha => ?_⟩
  exact counted_of_nests (hnests a ha) (hargs a ha).no_comma

/-- `map< pair<K, V> , decltype(p->q)>`, where the arrow closes nothing. -/
theorem parse?_templateId_map :
    parse? "map< pair<K, V> , decltype(p->q)>" =
      some ⟨.named none [⟨"map", some ["pair<K, V>", "decltype(p->q)"]⟩], {}, []⟩ := by
  -- the arrow is an unknown token and a closing angle bracket, which parentheses shield
  have hkinds : kinds " pair<K, V> " = [.ident, .less, .ident, .comma, .ident, .greater] := by cbv
  have hkinds' : kinds "decltype(p->q)" =
      [.ident, .lparen, .ident, .unknown, .greater, .ident, .rparen] := by cbv
  have hmap : (PathSegment.mk "map" none).Plain := ⟨by decide, by decide, rfl⟩
  have hpair : IsArgument " pair<K, V> " := by
    refine ⟨by decide, ?_, ?_, ?_⟩ <;> rw [hkinds] <;> decide
  have hmember : IsArgument "decltype(p->q)" := by
    refine ⟨by decide, ?_, ?_, ?_⟩ <;> rw [hkinds'] <;> decide
  have hcounted : Counted (kinds "decltype(p->q)") := by
    rw [hkinds']
    refine ⟨?_, by decide⟩
    simp [shielded_cons, shielded_nil, endKinds, Brackets.step, groupPairs]
  have hcounted' : Counted (kinds " pair<K, V> ") :=
    counted_of_nests (by rw [hkinds]; decide) hpair.no_comma
  obtain ⟨hiff, -⟩ := parse?_templateId hmap (List.cons_ne_nil " pair<K, V> " ["decltype(p->q)"])
    (by simp [hpair, hmember])
  exact hiff.mpr (by simp [hcounted, hcounted'])

/-- **Angle brackets in parentheses are counted.** `X<(a<b)>` is not read as `X` with one
argument. -/
theorem not_forall_parse?_templateId :
    ¬∀ (x : String) (args : List String), (PathSegment.mk x none).Plain → args ≠ [] →
      (∀ a ∈ args, IsArgument a) →
      parse? (String.ofList (PathSegment.spelling ⟨x, some args⟩)) =
        some ⟨.named none [⟨x, some (args.map Text.trimmed)⟩], {}, []⟩ := by
  intro h
  have hkinds : kinds "(a<b)" = [.lparen, .ident, .less, .ident, .rparen] := by cbv
  have hx : (PathSegment.mk "X" none).Plain := ⟨by decide, by decide, rfl⟩
  have hargs : ∀ a ∈ ["(a<b)"], IsArgument a := by
    rw [List.forall_mem_singleton]
    refine ⟨by decide, ?_, ?_, ?_⟩ <;> rw [hkinds] <;> decide
  have hcounted := (parse?_templateId_iff hx (List.cons_ne_nil _ _) hargs).mp
    (h "X" ["(a<b)"] hx (List.cons_ne_nil _ _) hargs) "(a<b)" List.mem_cons_self
  have hclosed := hcounted.closed
  rw [hkinds] at hclosed
  exact absurd hclosed (by decide)

end TypeExpr

end UnitIndex
