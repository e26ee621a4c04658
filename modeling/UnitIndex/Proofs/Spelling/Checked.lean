import UnitIndex.Proofs.Spelling.Arguments
import UnitIndex.Proofs.Spelling.Cursor
import UnitIndex.Proofs.Spelling.Unnamed

/-!
Reading specifiers with a cursor.

Each checked step is compared with the reader that is handed the tokens left: bracketed text and
template arguments (`answers_untilClose`, `answers_templateArgs`), qualified names (`answers_path`)
and the declaration specifiers (`answers_specifiers`). What a loop has gathered stands in front of
what the reader has yet to read. The texts cut out of the spelling begin and end where tokens do,
and so they are the texts of tokens but for blanks that are trimmed (`run_cut_inside`,
`exists_run_cut_argument`, `run_cut_token`).
-/

namespace UnitIndex.TypeExpr.Checked

open UnitIndex.Text (trim)
open UnitIndex.Token (bytes)

/-- Whether nothing but blanks stands between tokens and behind them. -/
def Spaced (toks : List Token) (tail : List Char) : Prop :=
  ∀ ts, ts <:+ toks → ∀ c ∈ gapOf tail ts, Text.isBlank c = true

variable {toks ts inside rest : List Token} {t : Token} {tail : List Char} {calls depth : ℕ}

/-- What is left behind a token is left of all. -/
lemma suffix_of_cons (h : t :: ts <:+ toks) : ts <:+ toks := (List.suffix_cons t ts).trans h

/-! ### Texts between tokens -/

/-- What is behind the cursor, and the blanks in front of it, begin the text. -/
lemma exists_text_eq (h : ts <:+ toks) (tail : List Char) :
    ∃ back, Token.source toks ++ tail = passed toks ts ++ gapOf tail ts ++ back := by
  rw [← passed_append_source h]
  cases ts with
  | nil => exact ⟨[], by simp [gapOf, Token.source_nil]⟩
  | cons t ts => exact ⟨t.text ++ Token.source ts ++ tail, by simp [gapOf, Token.source_cons]⟩

/-- A slice from a token's end to the start of another. -/
lemma run_cut_inside {p : ℕ} (h : inside ++ ts <:+ toks) :
    cut (bytes (passed toks (inside ++ ts))) (bytes (passed toks ts ++ gapOf tail ts))
        (contextAt toks tail calls) p =
      .ok (Token.source inside ++ gapOf tail ts, p) := by
  obtain ⟨back, hback⟩ := exists_text_eq ((List.suffix_append inside ts).trans h) tail
  rw [passed_of_append h, List.append_assoc (passed toks (inside ++ ts))] at hback ⊢
  exact run_cut hback

/-- A slice from a token's start to the start of another. -/
lemma exists_run_cut_argument (tail : List Char) (calls : ℕ) (h : inside ++ ts <:+ toks) :
    ∃ cs, gapOf tail (inside ++ ts) ++ cs = Token.source inside ++ gapOf tail ts ∧ ∀ p,
      cut (bytes (passed toks (inside ++ ts) ++ gapOf tail (inside ++ ts)))
          (bytes (passed toks ts ++ gapOf tail ts)) (contextAt toks tail calls) p =
        .ok (cs, p) := by
  have hcs : ∃ cs, gapOf tail (inside ++ ts) ++ cs = Token.source inside ++ gapOf tail ts := by
    cases inside with
    | nil => exact ⟨[], by simp [Token.source_nil]⟩
    | cons u us =>
        exact ⟨u.text ++ Token.source us ++ gapOf tail ts, by simp [gapOf, Token.source_cons]⟩
  obtain ⟨cs, hcs⟩ := hcs
  obtain ⟨back, hback⟩ := exists_text_eq ((List.suffix_append inside ts).trans h) tail
  have hstop : passed toks ts ++ gapOf tail ts =
      passed toks (inside ++ ts) ++ gapOf tail (inside ++ ts) ++ cs := by
    rw [passed_of_append h, List.append_assoc, ← hcs, List.append_assoc]
  rw [hstop] at hback ⊢
  exact ⟨cs, hcs, fun p => run_cut hback⟩

/-- A slice from a token's start to the end of another. -/
lemma run_cut_token {p : ℕ} (h : t :: ts <:+ toks) (hts : ts = inside ++ rest) :
    cut (bytes (passed toks (t :: ts) ++ t.gap)) (bytes (passed toks rest))
        (contextAt toks tail calls) p =
      .ok (t.text ++ Token.source inside, p) := by
  subst hts
  have hpassed : passed toks rest =
      passed toks (t :: inside ++ rest) ++ Token.source (t :: inside) := passed_of_append h
  obtain ⟨back, hback⟩ := exists_text_eq ((List.suffix_append (t :: inside) rest).trans h) tail
  rw [hpassed, Token.source_cons, List.append_assoc t.gap, ← List.append_assoc] at hback ⊢
  rw [List.append_assoc _ (gapOf tail rest)] at hback
  exact run_cut hback

/-- Blanks behind a text do not show when it is trimmed. -/
lemma trim_source_append (hs : Spaced toks tail) (h : ts <:+ toks) (cs : List Char) :
    trim (cs ++ gapOf tail ts) = trim cs :=
  Text.trim_append_blanks (hs ts h) cs

/-! ### Bracketed text -/

/-- **The text up to a closing parenthesis.** -/
lemma answers_untilClose (hs : Spaced toks tail) (hcalls : calls < maxCalls) (h : ts <:+ toks) :
    Answers toks ts.length (TypeExpr.untilClose ts)
      (untilClose (contextAt toks tail calls) (place toks ts)) := by
  rw [untilClose, run_call hcalls, run_bind_ok (run_lastStop h)]
  refine answers_loop (E := fun level ts' ans => ∃ inside, ts = inside ++ ts' ∧
    ans = (splitClose level ts').map fun more => (textOf (inside ++ more.1), more.2))
    0 ?_ h ⟨[], rfl, rfl⟩
  rintro level ts' ans h' ⟨inside, rfl, hans⟩
  rw [run_bind_ok (run_nextStart h')]
  cases ts' with
  | nil =>
      obtain rfl : ans = none := hans
      rw [run_bind, run_take_nil]
      exact .refused
  | cons t rest =>
      have hrest : rest <:+ toks := suffix_of_cons h'
      have hlt : rest.length < (t :: rest).length := Nat.lt_succ_self _
      rw [run_bind_ok (run_take h')]
      cases hkind : t.kind
      case lparen =>
        refine Turns.again hrest hlt ⟨inside ++ [t], by simp, ?_⟩
        rw [hans, splitClose_lparen hkind, Option.map_map]
        simp [Function.comp_def]
      case rparen =>
        rw [splitClose_rparen hkind] at hans
        cases level with
        | zero =>
            rw [if_pos rfl, Option.map_some] at hans
            dsimp only
            rw [if_pos rfl, hans, run_bind_ok (run_cut_inside h)]
            -- the text cut out is that of the tokens gathered, but for blanks at its ends
            rw [trim_source_append hs h']
            dsimp only
            rw [List.append_nil]
            exact Turns.last hrest (by simp)
        | succ level =>
            rw [if_neg (Nat.succ_ne_zero level), Option.map_map] at hans
            dsimp only
            rw [if_neg (Nat.succ_ne_zero level), run_bind_ok run_decrement]
            exact Turns.again hrest hlt ⟨inside ++ [t], by simp, by simp [hans, Function.comp_def]⟩
      all_goals
        refine Turns.again hrest hlt ⟨inside ++ [t], by simp, ?_⟩
        have hpassed : splitClose level ([t] ++ rest) = _ :=
          splitClose_append (by simp [hkind, parenKinds]) level rest
        rw [hans, ← List.singleton_append, hpassed, Option.map_map]
        simp [Function.comp_def]

/-- The text between two parentheses. -/
lemma answers_parenthesized (hs : Spaced toks tail) (hcalls : calls + 1 < maxCalls)
    (h : ts <:+ toks) :
    Answers toks ts.length (TypeExpr.parenthesized ts)
      (parenthesized (contextAt toks tail calls) (place toks ts)) := by
  rw [parenthesized, run_call (by omega)]
  cases ts with
  | nil =>
      rw [run_bind_ok run_eat_nil]
      exact .refused
  | cons t ts =>
      rw [TypeExpr.parenthesized]
      by_cases hkind : t.kind = .lparen
      · rw [run_bind_ok (run_eat_of_eq h hkind), if_pos hkind]
        exact (answers_untilClose hs hcalls (suffix_of_cons h)).mono (Nat.le_succ _)
      · rw [run_bind_ok (run_eat_of_ne h hkind), if_neg hkind]
        exact .refused

/-- Where the reading of template arguments is when these tokens of an argument have been read, last
first, and what it reads from there. -/
def Arguing (toks : List Token) (tail : List Char) (s : Arguments) (ts : List Token)
    (ans : Option (List String × List Token)) : Prop :=
  ∃ arg : List Token, arg.reverse ++ ts <:+ toks ∧
    s.start = bytes (passed toks (arg.reverse ++ ts) ++ gapOf tail (arg.reverse ++ ts)) ∧
    ans = (TypeExpr.templateArgs s.angles s.parens arg ts).map
      fun more => (s.args ++ more.1, more.2)

/-- **Template arguments.** -/
lemma answers_templateArgs (hs : Spaced toks tail) (hcalls : calls < maxCalls) (h : ts <:+ toks) :
    Answers toks ts.length
      (if depth ≤ maxNesting then TypeExpr.templateArgs 0 0 [] ts else none)
      (templateArgs depth (contextAt toks tail calls) (place toks ts)) := by
  rw [templateArgs, run_call hcalls]
  by_cases hdepth : depth ≤ maxNesting
  swap
  · rw [if_neg hdepth, if_pos (by omega)]
    exact .refused
  rw [if_pos hdepth, if_neg (by omega), run_bind_ok (run_nextStart h)]
  refine answers_loop (E := Arguing toks tail) 0 ?_ h ⟨[], h, rfl, by simp⟩
  rintro s ts ans h ⟨arg, harg, hstart, hans⟩
  rw [run_bind_ok (run_nextStart h)]
  cases ts with
  | nil =>
      obtain rfl : ans = none := hans
      rw [run_bind, run_take_nil]
      exact .refused
  | cons t rest =>
      have hrest : rest <:+ toks := suffix_of_cons h
      have hlt : rest.length < (t :: rest).length := Nat.lt_succ_self _
      have hmore : (t :: arg).reverse ++ rest = arg.reverse ++ t :: rest := by simp
      -- the argument goes on
      have again {s' : Arguments} (hs' : s'.args = s.args ∧ s'.start = s.start)
          (hcons : TypeExpr.templateArgs s.angles s.parens arg (t :: rest) =
            TypeExpr.templateArgs s'.angles s'.parens (t :: arg) rest) :
          Turns toks (Arguing toks tail) (t :: rest) (t :: rest).length ans
            (.ok (.again s', place toks rest)) := by
        refine Turns.again hrest hlt ⟨t :: arg, ?_, ?_, ?_⟩
        · rwa [hmore]
        · rw [hmore, hs'.2, hstart]
        · rw [hans, hcons, hs'.1]
      -- the argument ends
      obtain ⟨cs, hcs, hcut⟩ := exists_run_cut_argument tail (calls + 1) harg
      have htext : trim cs = trim (Token.source arg.reverse) := by
        rw [← Text.trim_blanks_append (hs _ harg), hcs, trim_source_append hs h]
      rw [← hstart] at hcut
      rw [run_bind_ok (run_take h)]
      cases hkind : t.kind
      case greater =>
        dsimp only
        by_cases hend : s.angles = 0 ∧ s.parens = 0
        · have hlast : (if (trim (Token.source arg.reverse)).isEmpty then s.args
              else s.args ++ [String.ofList (trim (Token.source arg.reverse))]) =
              s.args ++ if (textOf arg.reverse).isEmpty then [] else [textOf arg.reverse] := by
            by_cases hempty : trim (Token.source arg.reverse) = [] <;>
              simp [textOf, hempty, String.isEmpty_iff]
          rw [if_pos hend, run_bind_ok (hcut _), htext, hlast]
          rw [hend.1, hend.2, templateArgs_end (hkind ▸ greater_mem_endKinds),
            if_neg (by simp [hkind])] at hans
          rw [hans]
          exact Turns.last hrest hlt.le
        · rw [if_neg hend]
          refine again ⟨rfl, rfl⟩ ?_
          rw [templateArgs_cons fun _ => by omega, hkind]
          rfl
      case comma =>
        dsimp only
        by_cases hend : s.angles = 0 ∧ s.parens = 0
        · rw [if_pos hend, run_bind_ok (hcut _), htext, run_bind_ok (run_nextStart hrest)]
          rw [hend.1, hend.2, templateArgs_end (hkind ▸ comma_mem_endKinds), if_pos hkind,
            Option.map_map] at hans
          refine Turns.again hrest hlt ⟨[], hrest, rfl, ?_⟩
          simp [hans, hend, Function.comp_def, textOf]
        · rw [if_neg hend]
          refine again ⟨rfl, rfl⟩ ?_
          rw [templateArgs_cons fun _ => by omega, hkind]
          rfl
      all_goals
        refine again ⟨rfl, rfl⟩ ?_
        rw [templateArgs_cons (by simp [hkind, endKinds]), hkind]
        rfl

/-! ### Qualified names -/

/-- Template arguments at the front, if a `<` is there. -/
def readTemplateArgs? (nestable : Bool) : Reader (Option (List String))
  | open_ :: inside =>
    if open_.kind = .less then
      if nestable then (TypeExpr.templateArgs 0 0 [] inside).map fun read => (some read.1, read.2)
      else none
    else some (none, open_ :: inside)
  | [] => some (none, [])

/-- A component of that name with the template arguments read, and those that follow it. -/
def readSegments (nestable : Bool) (rounds : ℕ) (name : String)
    (read : Option (List String) × List Token) : Option (List PathSegment × List Token) :=
  if read.2[0]?.map (·.kind) = some .colonColon ∧ read.2[1]?.map (·.kind) = some .ident then
    (TypeExpr.path nestable rounds read.2.tail).map
      fun more => (⟨name, read.1⟩ :: more.1, more.2)
  else some ([⟨name, read.1⟩], read.2)

/-- A component is followed by another one or by something else. -/
lemma readSegments_eq (nestable : Bool) (rounds : ℕ) (name : String)
    (args : Option (List String)) (ts : List Token) :
    (match ts with
      | sep :: next :: rest =>
        if sep.kind = .colonColon ∧ next.kind = .ident then
          (TypeExpr.path nestable rounds (next :: rest)).bind
            fun read => some (⟨name, args⟩ :: read.1, read.2)
        else some ([⟨name, args⟩], ts)
      | _ => some ([⟨name, args⟩], ts)) = readSegments nestable rounds name (args, ts) := by
  rw [readSegments]
  rcases ts with _ | ⟨sep, _ | ⟨next, rest⟩⟩
  · simp
  · simp
  · simp [Option.map_eq_bind]

/-- A component of a qualified name, or a keyword in it. -/
lemma path_succ (nestable : Bool) (rounds : ℕ) (t : Token) (ts : List Token) :
    TypeExpr.path nestable (rounds + 1) (t :: ts) =
      if t.kind ≠ .ident then none
      else if t.word = "typename" ∨ t.word = "template" then TypeExpr.path nestable rounds ts
      else (readTemplateArgs? nestable ts).bind (readSegments nestable rounds t.word) := by
  rw [TypeExpr.path]
  by_cases hident : t.kind = .ident
  swap
  · simp [hident, guard]
  by_cases hword : t.word = "typename" ∨ t.word = "template"
  · simp [hident, hword, guard]
  rw [if_neg (not_not.mpr hident), if_neg hword]
  simp only [hident, hword, guard, if_true, if_false, Option.pure_def, Option.bind_eq_bind,
    Option.bind_some]
  cases ts with
  | nil => exact readSegments_eq nestable rounds t.word none []
  | cons u us =>
      rw [readTemplateArgs?]
      dsimp only
      -- only behind an opening angle bracket are there arguments
      by_cases hless : u.kind = .less
      · rw [if_pos hless, if_pos hless]
        cases nestable
        · rfl
        · rw [if_pos rfl, if_pos rfl, Option.bind_map, Option.bind_map]
          exact Option.bind_congr fun read _ =>
            readSegments_eq true rounds t.word (some read.1) read.2
      · rw [if_neg hless, if_neg hless]
        exact readSegments_eq nestable rounds t.word none (u :: us)

/-- Template arguments, if a name has any. -/
lemma answers_templateArgs? (hs : Spaced toks tail) (hcalls : calls < maxCalls) (h : ts <:+ toks) :
    Answers toks ts.length (readTemplateArgs? (depth < maxNesting) ts)
      (templateArgs? depth (contextAt toks tail calls) (place toks ts)) := by
  rw [templateArgs?]
  cases ts with
  | nil =>
      rw [run_bind_ok run_eat_nil]
      exact .read h le_rfl
  | cons t ts =>
      by_cases hkind : t.kind = .less
      · rw [run_bind_ok (run_eat_of_eq h hkind), readTemplateArgs?, if_pos hkind]
        have hargs : Answers toks ts.length _
            (templateArgs (depth + 1) (contextAt toks tail calls) (place toks ts)) :=
          answers_templateArgs hs hcalls (suffix_of_cons h)
        -- too deep down the arguments are refused by either reader
        by_cases hdepth : depth < maxNesting
        · rw [if_pos (Nat.succ_le_of_lt hdepth)] at hargs
          rw [if_pos (decide_eq_true hdepth)]
          exact Ends.map hargs fun args rest hrest hle =>
            Answers.read hrest (Nat.le_succ_of_le hle)
        · rw [if_neg (by omega)] at hargs
          rw [if_neg (by simp [hdepth])]
          exact Ends.bind_refused hargs
      · rw [run_bind_ok (run_eat_of_ne h hkind), readTemplateArgs?, if_neg hkind]
        exact .read h le_rfl

/-- **Qualified names**, which take a token at least. -/
lemma answers_path (hs : Spaced toks tail) (hcalls : calls + 1 < maxCalls) (h : ts <:+ toks) :
    Answers toks (ts.length - 1) (qualifiedPath (depth < maxNesting) ts)
      (path depth (contextAt toks tail calls) (place toks ts)) := by
  rw [path, run_call (by omega)]
  refine answers_loop (E := fun segments ts ans => ∃ rounds, ts.length ≤ rounds ∧
    ans = (TypeExpr.path (depth < maxNesting) rounds ts).map
      fun more => (segments ++ more.1, more.2)) 1 ?_ h ⟨ts.length, le_rfl, by simp [qualifiedPath]⟩
  rintro segments ts ans h ⟨rounds, hrounds, hans⟩
  cases ts with
  | nil =>
      have hnone : TypeExpr.path (depth < maxNesting) rounds [] = none := by cases rounds <;> rfl
      rw [hans, hnone, run_bind, run_take_nil]
      exact .refused
  | cons t ts =>
      obtain ⟨rounds, rfl, hfits⟩ := exists_rounds_eq hrounds
      have hts : ts <:+ toks := suffix_of_cons h
      have hlt : ts.length < (t :: ts).length := Nat.lt_succ_self _
      rw [path_succ] at hans
      rw [hans, run_bind_ok (run_take h)]
      by_cases hident : t.kind = .ident
      swap
      · rw [if_pos hident, if_pos hident]
        exact .refused
      rw [if_neg (not_not.mpr hident), if_neg (not_not.mpr hident)]
      by_cases hword : t.word = "typename" ∨ t.word = "template"
      · rw [if_pos hword, if_pos hword]
        exact Turns.again hts hlt ⟨rounds, hfits, rfl⟩
      rw [if_neg hword, if_neg hword, Option.map_bind]
      refine Ends.bind (answers_templateArgs? hs hcalls hts) fun args rest hrest hle => ?_
      rw [run_bind_ok (run_kindAhead? hrest), run_bind_ok (run_kindAhead? hrest)]
      dsimp only [Function.comp]
      rw [readSegments]
      -- another component only where a word follows the separator
      by_cases hmore : rest[0]?.map (·.kind) = some .colonColon ∧
          rest[1]?.map (·.kind) = some .ident
      · rw [if_pos hmore, if_pos hmore]
        cases rest with
        | nil => simp at hmore
        | cons sep rest =>
            rw [run_bind_ok (run_advance hrest)]
            rw [List.length_cons] at hle
            refine Turns.again (suffix_of_cons hrest) ?_ ⟨rounds, ?_, ?_⟩
            · rw [List.length_cons]
              omega
            · omega
            · simp [Function.comp_def]
      · rw [if_neg hmore, if_neg hmore]
        exact Turns.last hrest hle

/-! ### Declaration specifiers -/

/-- What is read as specifiers when these have said so much. -/
def Specifying (depth : ℕ) (s : Specifiers) (ts : List Token)
    (ans : Option (Specifiers × List Token)) : Prop :=
  ∃ rounds, ts.length ≤ rounds ∧ ans = specifiersFrom (depth < maxNesting) rounds s ts

section specifiers

variable {s : Specifiers} {rounds : ℕ}

/-- What is read as specifiers behind one, or in front of a token that is none. -/
def readOn (depth rounds : ℕ) (s : Specifiers) (ts : List Token) :
    Option (Specifiers × List Token) → Option (Specifiers × List Token)
  | none => some (s, ts)
  | some (s, rest) => specifiersFrom (depth < maxNesting) rounds s rest

/-- One round takes a specifier, if there is one, and goes on behind it. -/
lemma specifiersFrom_succ :
    specifiersFrom (depth < maxNesting) (rounds + 1) s (t :: ts) =
      (if t.kind = .ident then specifierWord (depth < maxNesting) s t ts
        else specifierMark (depth < maxNesting) s t ts).bind
        (readOn depth rounds s (t :: ts)) := by
  rw [specifiersFrom_cons]
  refine Option.bind_congr fun next _ => ?_
  cases next <;> rfl

/-- A round that has taken a specifier goes on. -/
lemma turns_again (h : rest <:+ toks) (hle : rest.length ≤ ts.length)
    (hrounds : ts.length ≤ rounds) :
    Turns toks (Specifying depth) (t :: ts) (t :: ts).length
      (readOn depth rounds s (t :: ts) (some (s, rest))) (.ok (.again s, place toks rest)) :=
  Turns.again h (Nat.lt_succ_of_le hle) ⟨rounds, hle.trans hrounds, rfl⟩

/-- A qualified name among the specifiers. -/
lemma turns_withPath {us : List Token} (hs : Spaced toks tail) (hcalls : calls + 1 < maxCalls)
    (h : us <:+ toks) (hle : us.length ≤ ts.length + 1) (hrounds : ts.length ≤ rounds) :
    Turns toks (Specifying depth) (t :: ts) (t :: ts).length
      ((TypeExpr.withPath (depth < maxNesting) s us).bind fun read =>
        readOn depth rounds s (t :: ts) (some read))
      (withPath depth s (contextAt toks tail calls) (place toks us)) := by
  rw [TypeExpr.withPath, Option.bind_eq_bind, Option.bind_assoc]
  refine Ends.bind (answers_path hs hcalls h) fun path rest hrest hle' => ?_
  exact turns_again hrest (by omega) hrounds

/-- To look ahead for an unnamed entity moves nothing. -/
lemma run_anonymousAhead (h : t :: ts <:+ toks) :
    anonymousAhead (contextAt toks tail calls) (place toks (t :: ts)) =
      .ok (announcesAnonymous ts, place toks (t :: ts)) := by
  rw [anonymousAhead, run_bind_ok (run_ahead? h)]
  cases ts <;> rfl

/-- A word among the specifiers. -/
lemma turns_wordRound (hs : Spaced toks tail) (hcalls : calls + 1 < maxCalls) (h : t :: ts <:+ toks)
    (hrounds : ts.length ≤ rounds) :
    Turns toks (Specifying depth) (t :: ts) (t :: ts).length
      ((specifierWord (depth < maxNesting) s t ts).bind (readOn depth rounds s (t :: ts)))
      (wordRound depth s t.word (contextAt toks tail calls) (place toks (t :: ts))) := by
  have hts : ts <:+ toks := suffix_of_cons h
  rw [specifierWord, wordRound]
  cases s.quals.absorb? t.word with
  | some quals =>
      dsimp only
      rw [run_bind_ok (run_advance h), Option.bind_some]
      exact turns_again hts le_rfl hrounds
  | none =>
  cases Tag.ofKeyword? t.word with
  | some tag =>
      dsimp only
      rw [run_bind_ok (run_advance h), Option.bind_some]
      exact turns_again hts le_rfl hrounds
  | none =>
  dsimp only
  -- the words in the order in which both readers ask for them
  by_cases hoperand : t.word ∈ operandWords
  · rw [if_pos hoperand, if_pos hoperand, run_bind_ok (run_advance h), Option.bind_eq_bind,
      Option.bind_assoc]
    refine Ends.bind (answers_parenthesized hs (by omega) hts) fun inner rest hrest hle => ?_
    exact turns_again hrest hle hrounds
  rw [if_neg hoperand, if_neg hoperand]
  by_cases hattribute : t.word = "__attribute__"
  · rw [if_pos hattribute, if_pos hattribute, run_bind_ok (run_advance h), Option.bind_eq_bind,
      Option.bind_assoc]
    refine Ends.bind (answers_parenthesized hs (by omega) hts) fun inner rest hrest hle => ?_
    exact turns_again hrest hle hrounds
  rw [if_neg hattribute, if_neg hattribute]
  by_cases hbuiltin : t.word ∈ builtinWords ∧ s.base.isNone
  · rw [if_pos hbuiltin, if_pos hbuiltin, run_bind_ok (run_advance h), Option.bind_some]
    exact turns_again hts le_rfl hrounds
  rw [if_neg hbuiltin, if_neg hbuiltin]
  by_cases hopen : s.isOpen
  · rw [if_pos hopen, if_pos hopen, Option.bind_eq_bind, Option.bind_assoc]
    exact turns_withPath hs (by omega) h le_rfl hrounds
  · rw [if_neg hopen, if_neg hopen]
    exact Turns.last h le_rfl

/-- An unnamed entity among the specifiers. -/
lemma turns_anonymousRound (hs : Spaced toks tail) (hcalls : calls + 1 < maxCalls)
    (h : t :: ts <:+ toks) (hrounds : ts.length ≤ rounds) (hkind : t.kind = .lparen)
    (hahead : s.isOpen ∧ announcesAnonymous ts) :
    Turns toks (Specifying depth) (t :: ts) (t :: ts).length
      ((specifierMark (depth < maxNesting) s t ts).bind (readOn depth rounds s (t :: ts)))
      (anonymousRound depth s (contextAt toks tail calls) (place toks (t :: ts))) := by
  rw [specifierMark, anonymousRound, hkind, run_bind_ok (run_advance h)]
  dsimp only
  rw [if_pos hahead, Option.bind_eq_bind, Option.bind_assoc]
  refine Ends.bind (answers_untilClose hs (by omega) (suffix_of_cons h))
    fun inner rest hrest hle => ?_
  cases rest with
  | nil =>
      rw [run_bind_ok run_eat_nil]
      exact turns_again hrest hle hrounds
  | cons sep rest =>
      dsimp only
      -- what the unnamed entity encloses may follow, as a qualified name
      by_cases hsep : sep.kind = .colonColon
      · rw [if_pos hsep, run_bind_ok (run_eat_of_eq hrest hsep), Option.bind_eq_bind,
          Option.bind_assoc]
        rw [List.length_cons] at hle
        refine Ends.bind (answers_path hs hcalls (suffix_of_cons hrest))
          fun path rest hrest hle' => ?_
        have hle : rest.length ≤ ts.length := by omega
        exact turns_again hrest hle hrounds
      · rw [if_neg hsep, run_bind_ok (run_eat_of_ne hrest hsep)]
        exact turns_again hrest hle hrounds

/-- Nothing gets lost at an angle bracket. -/
lemma untilAngle_append (ts : List Token) : (untilAngle ts).1 ++ (untilAngle ts).2 = ts := by
  induction ts with
  | nil => rfl
  | cons t ts ih =>
      rw [untilAngle]
      split
      · rfl
      · exact congrArg (t :: ·) ih

/-- What is left behind it is no more than there was. -/
lemma length_untilAngle_le (ts : List Token) : (untilAngle ts).2.length ≤ ts.length := by
  have h := congrArg List.length (untilAngle_append ts)
  rw [List.length_append] at h
  omega

/-- Passing an angle bracket, or all tokens where there is none. -/
lemma answers_passAngle (h : ts <:+ toks) :
    Answers toks ts.length (some ((), (untilAngle ts).2))
      (passAngle (contextAt toks tail calls) (place toks ts)) := by
  refine answers_loop (E := fun _ ts ans => ans = some ((), (untilAngle ts).2)) 0 ?_ h rfl
  rintro _ ts _ h rfl
  cases ts with
  | nil =>
      rw [run_bind_ok run_take?_nil]
      exact Turns.last h le_rfl
  | cons t ts =>
      rw [run_bind_ok (run_take? h), untilAngle]
      dsimp only
      by_cases hkind : t.kind = .greater
      · rw [if_pos hkind, if_pos hkind]
        exact Turns.last (suffix_of_cons h) (Nat.le_succ _)
      · rw [if_neg hkind, if_neg hkind]
        exact Turns.again (suffix_of_cons h) (Nat.lt_succ_self _) rfl

/-- Text in angle brackets among the specifiers. -/
lemma turns_angleRound (h : t :: ts <:+ toks) (hrounds : ts.length ≤ rounds)
    (hkind : t.kind = .less) (hopen : s.isOpen) :
    Turns toks (Specifying depth) (t :: ts) (t :: ts).length
      ((specifierMark (depth < maxNesting) s t ts).bind (readOn depth rounds s (t :: ts)))
      (angleRound s (contextAt toks tail calls) (place toks (t :: ts))) := by
  have hcut : untilAngle (t :: ts) = (t :: (untilAngle ts).1, (untilAngle ts).2) := by
    rw [untilAngle, if_neg (by simp [hkind])]
  rw [specifierMark, angleRound, hkind, run_bind_ok (run_nextStart h)]
  dsimp only
  rw [if_pos hopen, Option.bind_some]
  refine Ends.bind_some (answers_passAngle h) fun hrest _ => ?_
  rw [hcut] at hrest ⊢
  rw [run_bind_ok (run_lastStop hrest), gapOf,
    run_bind_ok (run_cut_token h (untilAngle_append ts).symm)]
  exact turns_again hrest (length_untilAngle_le ts) hrounds

/-- One specifier. -/
lemma turns_specifierRound (hs : Spaced toks tail) (hcalls : calls + 1 < maxCalls)
    (h : t :: ts <:+ toks) (hrounds : ts.length ≤ rounds) :
    Turns toks (Specifying depth) (t :: ts) (t :: ts).length
      (specifiersFrom (depth < maxNesting) (rounds + 1) s (t :: ts))
      (specifierRound depth s (contextAt toks tail calls) (place toks (t :: ts))) := by
  have hts : ts <:+ toks := suffix_of_cons h
  have last : Turns toks (Specifying depth) (t :: ts) (t :: ts).length
      (readOn depth rounds s (t :: ts) none) (.ok (.last s, place toks (t :: ts))) :=
    Turns.last h le_rfl
  rw [specifiersFrom_succ, specifierRound, run_bind_ok (run_ahead? h)]
  dsimp only [List.getElem?_cons_zero]
  cases hkind : t.kind
  case ident => exact turns_wordRound hs hcalls h hrounds
  -- not a word: only a few marks can be specifiers
  all_goals rw [if_neg (by decide)]
  case colonColon =>
    rw [specifierMark, hkind]
    dsimp only
    by_cases hopen : s.isOpen
    · rw [if_pos hopen, if_pos hopen, run_bind_ok (run_advance h), Option.bind_eq_bind,
        Option.bind_assoc]
      exact turns_withPath hs (by omega) hts (Nat.le_succ _) hrounds
    · rw [if_neg hopen, if_neg hopen]
      exact last
  case templateParm =>
    rw [specifierMark, hkind]
    dsimp only
    by_cases hbase : s.base.isNone
    · rw [if_pos hbase, if_pos hbase, run_bind_ok (run_advance h)]
      exact turns_again hts le_rfl hrounds
    · rw [if_neg hbase, if_neg hbase]
      exact last
  case lparen =>
    dsimp only
    rw [run_bind_ok (run_anonymousAhead h)]
    by_cases hahead : s.isOpen ∧ announcesAnonymous ts
    · rw [if_pos hahead]
      exact turns_anonymousRound hs (by omega) h hrounds hkind hahead
    · rw [if_neg hahead, specifierMark, hkind]
      dsimp only
      rw [if_neg hahead]
      exact last
  case less =>
    by_cases hopen : s.isOpen
    · dsimp only
      rw [if_pos hopen]
      exact turns_angleRound h hrounds hkind hopen
    · rw [specifierMark, hkind]
      dsimp only
      rw [if_neg hopen, if_neg hopen]
      exact last
  all_goals
    rw [specifierMark, hkind]
    exact last

end specifiers

/-- **Declaration specifiers.** -/
lemma answers_specifiers (hs : Spaced toks tail) (hcalls : calls + 2 < maxCalls) (h : ts <:+ toks) :
    Answers toks ts.length (TypeExpr.specifiers (depth < maxNesting) ts)
      (specifiers depth (contextAt toks tail calls) (place toks ts)) := by
  rw [specifiers, run_call (by omega), TypeExpr.specifiers, Option.bind_eq_bind]
  have hloop : Answers toks ts.length (specifiersFrom (depth < maxNesting) ts.length {} ts)
      (loop (specifierRound depth) {} (contextAt toks tail (calls + 1)) (place toks ts)) := by
    refine answers_loop (E := Specifying depth) 0 ?_ h ⟨ts.length, le_rfl, rfl⟩
    rintro s ts ans h ⟨rounds, hrounds, rfl⟩
    cases ts with
    | nil =>
        have hnil : specifiersFrom (depth < maxNesting) rounds s [] = some (s, []) := by
          cases rounds <;> rfl
        rw [hnil, specifierRound, run_bind_ok (run_ahead? h)]
        exact Turns.last h le_rfl
    | cons t ts =>
        obtain ⟨rounds, rfl, hfits⟩ := exists_rounds_eq hrounds
        exact turns_specifierRound hs (by omega) h hfits
  refine Ends.bind hloop fun s rest hrest hle => ?_
  dsimp only
  cases s.result? with
  | none => exact .refused
  | some result => exact Answers.read hrest hle

end UnitIndex.TypeExpr.Checked
