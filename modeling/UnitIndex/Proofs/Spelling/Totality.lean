import UnitIndex.Proofs.Spelling.Checked

/-!
Every text is read to the end.

The steps that read declarators and parameter lists are compared with their readers as those of the
specifiers are. Types and declarators contain each other, one level deeper each time; at every depth
that is left they are read as the readers do with the levels that are left
(`mirrors_typeAt_declaratorAt`). There are no more calls than levels but for a few, so that reading
a spelling with every step checked is reading it (`parse?_eq`, `parse?_total`).
-/

namespace UnitIndex.TypeExpr.Checked

variable {α : Type} {toks ts rest : List Token} {t : Token} {tail : List Char} {calls depth : ℕ}

/-! ### Declarators -/

/-- **The qualifiers of a pointer**, as long as there are any. -/
lemma answers_qualifierWords (h : ts <:+ toks) :
    Answers toks ts.length (some (TypeExpr.qualifierWords {} ts))
      (qualifierWords (contextAt toks tail calls) (place toks ts)) := by
  refine answers_loop (E := fun quals ts ans => ans = some (TypeExpr.qualifierWords quals ts))
    0 ?_ h rfl
  rintro quals ts _ h rfl
  rw [run_bind_ok (run_ahead? h)]
  cases ts with
  | nil => exact Turns.last h le_rfl
  | cons t ts =>
      rw [List.getElem?_cons_zero, TypeExpr.qualifierWords]
      dsimp only
      by_cases hkind : t.kind = .ident
      · rw [if_pos hkind, if_pos hkind]
        -- a word that is no qualifier belongs to what follows
        cases quals.absorb? t.word with
        | none => exact Turns.last h le_rfl
        | some quals =>
            dsimp only
            rw [run_bind_ok (run_advance h)]
            exact Turns.again (suffix_of_cons h) (Nat.lt_succ_self _) rfl
      · rw [if_neg hkind, if_neg hkind]
        exact Turns.last h le_rfl

/-- What is read as pointer and reference operations behind some. -/
def Pointing (ops : List TypeOp) (ts : List Token) (ans : Option (List TypeOp × List Token)) :
    Prop :=
  ∃ rounds, ts.length ≤ rounds ∧
    ans = some (ops ++ (TypeExpr.pointers rounds ts).1, (TypeExpr.pointers rounds ts).2)

/-- **The marks of a declarator.** Each takes a token, so that there are enough rounds. -/
lemma answers_pointers (h : ts <:+ toks) :
    Answers toks ts.length (some (TypeExpr.pointers ts.length ts))
      (pointers (contextAt toks tail calls) (place toks ts)) := by
  refine answers_loop (E := Pointing) 0 ?_ h ⟨ts.length, le_rfl, rfl⟩
  rintro ops ts ans h ⟨rounds, hrounds, rfl⟩
  rw [run_bind_ok (run_kindAhead? h)]
  cases ts with
  | nil =>
      have hnil : TypeExpr.pointers rounds [] = ([], []) := by cases rounds <;> rfl
      rw [hnil, List.append_nil]
      exact Turns.last h le_rfl
  | cons t ts =>
      obtain ⟨rounds, rfl, hfits⟩ := exists_rounds_eq hrounds
      have hts : ts <:+ toks := suffix_of_cons h
      rw [List.getElem?_cons_zero, Option.map_some, TypeExpr.pointers]
      -- a mark, whatever has been read of it, is followed by the other marks
      have pointing {op : TypeOp} {rest : List Token} (hrest : rest <:+ toks)
          (hle : rest.length ≤ ts.length) :
          Turns toks Pointing (t :: ts) (t :: ts).length
            (some (ops ++ op :: (TypeExpr.pointers rounds rest).1,
              (TypeExpr.pointers rounds rest).2))
            (.ok (.again (ops ++ [op]), place toks rest)) :=
        Turns.again hrest (Nat.lt_succ_of_le hle) ⟨rounds, hle.trans hfits, by simp⟩
      cases t.kind
      case star | caret =>
        dsimp only
        rw [run_bind_ok (run_advance h)]
        exact Ends.bind_some (answers_qualifierWords hts) pointing
      case amp | ampAmp =>
        dsimp only
        rw [run_bind_ok (run_advance h)]
        exact pointing hts le_rfl
      all_goals
        dsimp only
        rw [List.append_nil]
        exact Turns.last h le_rfl

/-- Whether parentheses group a declarator there. -/
def groups : List Token → Bool
  | t :: ts => t.kind = .lparen ∧ startsPointer ts
  | [] => false

/-- To look ahead for a group moves nothing. -/
lemma run_groupAhead (h : ts <:+ toks) :
    groupAhead (contextAt toks tail calls) (place toks ts) = .ok (groups ts, place toks ts) := by
  rw [groupAhead, run_bind_ok (run_kindAhead? h)]
  rcases ts with _ | ⟨t, ts⟩
  · rfl
  by_cases hkind : t.kind = .lparen
  · rw [if_pos (by simp [hkind]), run_bind_ok (run_kindAhead? h)]
    rcases ts with _ | ⟨u, ts⟩
    · simp [groups, startsPointer]
    · simp only [groups, startsPointer, List.getElem?_cons_zero, List.getElem?_cons_succ,
        Option.map_some, hkind]
      cases u.kind <;> rfl
  · rw [if_neg (by simp [hkind])]
    simp [groups, hkind]

/-- Passing the tokens up to the bracket that closes a bound. -/
lemma answers_passBracket (h : ts <:+ toks) :
    Answers toks ts.length ((afterBracket ts).map ((), ·))
      (passBracket (contextAt toks tail calls) (place toks ts)) := by
  refine answers_loop (E := fun _ ts ans => ans = (afterBracket ts).map ((), ·)) 0 ?_ h rfl
  rintro _ ts _ h rfl
  cases ts with
  | nil =>
      rw [run_bind_ok run_eat_nil, if_neg Bool.false_ne_true, run_bind, run_take_nil]
      exact .refused
  | cons t ts =>
      rw [afterBracket]
      by_cases hkind : t.kind = .rbracket
      · rw [run_bind_ok (run_eat_of_eq h hkind), if_pos hkind]
        exact Turns.last (suffix_of_cons h) (Nat.le_succ _)
      · rw [run_bind_ok (run_eat_of_ne h hkind), if_neg hkind, if_neg Bool.false_ne_true,
          run_bind_ok (run_take h)]
        exact Turns.again (suffix_of_cons h) (Nat.lt_succ_self _) rfl

/-- The number at the front, if a number is there that fits 64 bits. -/
def readSize : List Token → Option ℕ
  | t :: _ => if t.kind = .number then Text.numeral? 10 Text.limit64 t.text else none
  | [] => none

/-- The bracket behind a number is the one in front of which the number stands. -/
lemma exists_run_arraySize (calls : ℕ) (tail : List Char) (h : ts <:+ toks) :
    ∃ us, us <:+ toks ∧ us.length ≤ ts.length ∧ afterBracket us = afterBracket ts ∧
      arraySize (contextAt toks tail calls) (place toks ts) =
        .ok (readSize ts, place toks us) := by
  rw [arraySize, run_bind_ok (run_ahead? h)]
  rcases ts with _ | ⟨t, ts⟩
  · exact ⟨[], h, le_rfl, rfl, rfl⟩
  rw [List.getElem?_cons_zero]
  dsimp only
  by_cases hkind : t.kind = .number
  · refine ⟨ts, suffix_of_cons h, Nat.le_succ _, ?_, ?_⟩
    · rw [afterBracket, if_neg (by simp [hkind])]
    · rw [if_pos hkind, run_bind_ok (run_advance h), readSize, if_pos hkind]
      rfl
  · refine ⟨t :: ts, h, le_rfl, rfl, ?_⟩
    rw [if_neg hkind, readSize, if_neg hkind]
    rfl

/-- **A bound**, which is a numeral or is passed over. -/
lemma answers_arraySuffix (h : ts <:+ toks) :
    Answers toks ts.length (TypeExpr.arraySuffix ts)
      (arraySuffix (contextAt toks tail calls) (place toks ts)) := by
  have hread : TypeExpr.arraySuffix ts =
      ((afterBracket ts).map (((), ·) : List Token → Unit × List Token)).bind
        fun read => some (.array (readSize ts), read.2) := by
    rw [Option.bind_map]
    cases ts <;> rfl
  obtain ⟨us, hus, hle, hafter, hrun⟩ := exists_run_arraySize calls tail h
  rw [hread, ← hafter, arraySuffix, run_bind_ok hrun]
  refine Ends.bind (answers_passBracket hus) fun _ rest hrest hle' => ?_
  exact Answers.read hrest (hle'.trans hle)

/-- What is read behind a parameter list. -/
def Trailing (_ : Unit) (ts : List Token) (ans : Option (Unit × List Token)) : Prop :=
  ∃ rounds, ts.length ≤ rounds ∧ ans = (TypeExpr.functionTail rounds ts).map ((), ·)

/-- **What may stand behind a parameter list**: qualifiers, references and attributes. -/
lemma answers_functionTail (hs : Spaced toks tail) (hcalls : calls + 1 < maxCalls)
    (h : ts <:+ toks) :
    Answers toks ts.length ((TypeExpr.functionTail ts.length ts).map ((), ·))
      (functionTail (contextAt toks tail calls) (place toks ts)) := by
  refine answers_loop (E := Trailing) 0 ?_ h ⟨ts.length, le_rfl, rfl⟩
  rintro _ ts _ h ⟨rounds, hrounds, rfl⟩
  rw [run_bind_ok (run_ahead? h)]
  cases ts with
  | nil =>
      have hnil : TypeExpr.functionTail rounds [] = some [] := by cases rounds <;> rfl
      rw [hnil]
      exact Turns.last h le_rfl
  | cons t ts =>
      obtain ⟨rounds, rfl, hfits⟩ := exists_rounds_eq hrounds
      have hts : ts <:+ toks := suffix_of_cons h
      -- a loop without a result, which only has to get on
      have again {rest : List Token} (hrest : rest <:+ toks) (hle : rest.length ≤ ts.length) :
          Turns toks Trailing (t :: ts) (t :: ts).length
            ((TypeExpr.functionTail rounds rest).map ((), ·)) (.ok (.again (), place toks rest)) :=
        Turns.again hrest (Nat.lt_succ_of_le hle) ⟨rounds, hle.trans hfits, rfl⟩
      rw [List.getElem?_cons_zero, TypeExpr.functionTail.eq_def]
      dsimp only
      by_cases hqual : t.word = "const" ∨ t.word = "volatile" ∨ t.word = "&" ∨ t.word = "&&"
      · rw [if_pos hqual, if_pos hqual, run_bind_ok (run_advance h)]
        exact again hts le_rfl
      rw [if_neg hqual, if_neg hqual]
      -- these two may have parentheses behind them
      by_cases hspec : t.word = "noexcept" ∨ t.word = "__attribute__"
      swap
      · rw [if_neg hspec, if_neg hspec]
        exact Turns.last h le_rfl
      rw [if_pos hspec, if_pos hspec, run_bind_ok (run_advance h), run_bind_ok (run_kindAhead? hts)]
      rcases ts with _ | ⟨u, ts⟩
      · have hnil : TypeExpr.functionTail rounds [] = some [] := by cases rounds <;> rfl
        rw [if_neg (by simp)]
        rw [← hnil]
        exact again hts le_rfl
      dsimp only
      -- the text in the parentheses is passed over
      by_cases hopen : u.kind = .lparen
      · rw [if_pos hopen, if_pos (by simp [hopen]), Option.bind_eq_bind, Option.map_bind]
        have hparens : TypeExpr.parenthesized (u :: ts) = TypeExpr.untilClose ts := if_pos hopen
        rw [← hparens]
        exact Ends.bind (answers_parenthesized hs hcalls hts) fun _ rest hrest hle =>
          again hrest hle
      · rw [if_neg hopen, if_neg (by simp [hopen])]
        exact again hts le_rfl

/-! ### Parameter lists -/

section parameters

variable {read : Reader TypeExpr} {one : Scan TypeExpr} {rounds : ℕ}

/-- Parameters in front of those that are read. -/
def prepend (list : List TypeExpr × Bool) (more : (List TypeExpr × Bool) × List Token) :
    (List TypeExpr × Bool) × List Token :=
  ((list.1 ++ more.1.1, list.2 || more.1.2), more.2)

/-- One parameter or an ellipsis. -/
def readParameter (read : Reader TypeExpr) : Reader (List TypeExpr × Bool)
  | t :: ts =>
    if t.kind = .ellipsis then some (([], true), ts)
    else (read (t :: ts)).map fun (p, rest) => (([p], false), rest)
  | [] => none

/-- What stands behind a parameter. -/
def readParameters (read : Reader TypeExpr) (rounds : ℕ) :
    (List TypeExpr × Bool) × List Token → Option ((List TypeExpr × Bool) × List Token)
  | (list, t :: ts) =>
    if t.kind = .comma then (TypeExpr.parametersFrom read rounds ts).map (prepend list)
    else if t.kind = .rparen then some (list, ts)
    else none
  | (_, []) => none

/-- Behind a parameter the list goes on at a comma and ends at the parenthesis. -/
lemma readParameters_eq (read : Reader TypeExpr) (rounds : ℕ) (params : List TypeExpr)
    (variadic : Bool) (ts : List Token) :
    (match ts with
      | t :: rest =>
        match t.kind with
        | .comma =>
          (TypeExpr.parametersFrom read rounds rest).bind
            fun more => some ((params ++ more.1.1, variadic || more.1.2), more.2)
        | .rparen => some ((params, variadic), rest)
        | _ => none
      | [] => none) = readParameters read rounds ((params, variadic), ts) := by
  rcases ts with _ | ⟨t, ts⟩
  · rfl
  · rw [readParameters]
    dsimp only
    cases hkind : t.kind <;> simp [prepend, Option.map_eq_bind, Function.comp_def]

/-- A list is its first parameter and what is behind that. -/
lemma parametersFrom_succ (read : Reader TypeExpr) (rounds : ℕ) (ts : List Token) :
    TypeExpr.parametersFrom read (rounds + 1) ts =
      (readParameter read ts).bind (readParameters read rounds) := by
  rw [TypeExpr.parametersFrom.eq_def]
  rcases ts with _ | ⟨t, ts⟩
  · rfl
  · rw [readParameter]
    dsimp only
    by_cases hkind : t.kind = .ellipsis
    · rw [if_pos hkind, if_pos hkind]
      exact readParameters_eq read rounds [] true ts
    · rw [if_neg hkind, if_neg hkind, Option.bind_map, Option.bind_eq_bind, Option.bind_map]
      exact Option.bind_congr fun first _ => readParameters_eq read rounds [first.1] false first.2

/-- With enough rounds, one at least is left for the first parameter. -/
lemma exists_parametersFrom_eq (read : Reader TypeExpr) (h : ts.length ≤ rounds) :
    ∃ n, TypeExpr.parametersFrom read rounds ts =
        (readParameter read ts).bind (readParameters read n) ∧ ts.length ≤ n + 1 := by
  cases rounds with
  | zero =>
      obtain rfl := List.length_eq_zero_iff.mp (Nat.le_zero.mp h)
      exact ⟨0, rfl, Nat.zero_le _⟩
  | succ rounds => exact ⟨rounds, parametersFrom_succ read rounds ts, h⟩

/-- What has been read stands in front of what is read next. -/
lemma map_readParameters (list : List TypeExpr × Bool)
    (more : (List TypeExpr × Bool) × List Token) :
    (readParameters read rounds more).map (prepend list) =
      readParameters read rounds (prepend list more) := by
  obtain ⟨list', _ | ⟨t, ts⟩⟩ := more
  · rfl
  · simp only [readParameters, prepend]
    by_cases hcomma : t.kind = .comma
    · rw [if_pos hcomma, if_pos hcomma, Option.map_map]
      congr 1
      funext more
      simp [prepend, Bool.or_assoc]
    · rw [if_neg hcomma, if_neg hcomma]
      split <;> rfl

/-- What is read up to the parenthesis that closes a parameter list. -/
def readParameterList (read : Reader TypeExpr) : Reader (List TypeExpr × Bool)
  | t :: ts =>
    if t.kind = .rparen then some (([], false), ts)
    else TypeExpr.parametersFrom read (ts.length + 1) (t :: ts)
  | [] => none

/-- Whether the steps read what the reader reads, wherever the cursor is. -/
def Mirrors (toks : List Token) (tail : List Char) (calls : ℕ) (read : Reader α) (x : Scan α) :
    Prop :=
  ∀ ts, ts <:+ toks →
    Answers toks ts.length (read ts) (x (contextAt toks tail calls) (place toks ts))

/-- A parameter, or the ellipsis, is added to the list. -/
lemma answers_withParameter (hone : Mirrors toks tail calls read one) (hnil : read [] = none)
    (h : ts <:+ toks) (list : List TypeExpr × Bool) :
    Answers toks ts.length ((readParameter read ts).map (prepend list))
      (withParameter one list (contextAt toks tail calls) (place toks ts)) := by
  rw [withParameter]
  cases ts with
  | nil =>
      -- the reader is called at the end as well, and refuses
      have hrefused := hone [] h
      rw [hnil] at hrefused
      rw [run_bind_ok run_eat_nil, if_neg Bool.false_ne_true]
      exact Ends.bind_refused hrefused
  | cons t ts =>
      rw [readParameter]
      by_cases hkind : t.kind = .ellipsis
      · rw [if_pos hkind, run_bind_ok (run_eat_of_eq h hkind), if_pos rfl,
          Option.map_some, prepend, List.append_nil, Bool.or_true]
        exact Answers.read (suffix_of_cons h) (Nat.le_succ _)
      · rw [if_neg hkind, run_bind_ok (run_eat_of_ne h hkind), if_neg Bool.false_ne_true,
          Option.map_map]
        refine Ends.map (hone _ h) fun p rest hrest hle => ?_
        have hp : prepend list (([p], false), rest) = ((list.1 ++ [p], list.2), rest) := by
          simp [prepend]
        dsimp only [Function.comp]
        rw [hp]
        exact Answers.read hrest hle

/-- What is read as parameters behind a comma. -/
def Listing (read : Reader TypeExpr) (list : List TypeExpr × Bool) (ts : List Token)
    (ans : Option ((List TypeExpr × Bool) × List Token)) : Prop :=
  ∃ rounds, ts.length ≤ rounds ∧
    ans = (TypeExpr.parametersFrom read rounds ts).map (prepend list)

/-- Behind a parameter the loop goes on, ends or refuses the list. -/
lemma turns_behindParameter (h : rest <:+ toks) (hle : rest.length ≤ ts.length)
    (hrounds : ts.length ≤ rounds + 1) (list : List TypeExpr × Bool) :
    Turns toks (Listing read) ts ts.length (readParameters read rounds (list, rest))
      (behindParameter list (contextAt toks tail calls) (place toks rest)) := by
  rw [behindParameter]
  cases rest with
  | nil =>
      rw [run_bind_ok run_eat_nil, if_neg Bool.false_ne_true, run_bind_ok run_eat_nil]
      exact .refused
  | cons t rest =>
      rw [List.length_cons] at hle
      rw [readParameters]
      -- a comma first: only then is there a round more
      by_cases hcomma : t.kind = .comma
      · rw [run_bind_ok (run_eat_of_eq h hcomma), if_pos hcomma, if_pos rfl]
        exact Turns.again (suffix_of_cons h) (by omega) ⟨rounds, by omega, rfl⟩
      rw [run_bind_ok (run_eat_of_ne h hcomma), if_neg hcomma, if_neg Bool.false_ne_true]
      by_cases hclose : t.kind = .rparen
      · rw [run_bind_ok (run_eat_of_eq h hclose), if_pos hclose, if_pos rfl]
        exact Turns.last (suffix_of_cons h) (by omega)
      · rw [run_bind_ok (run_eat_of_ne h hclose), if_neg hclose, if_neg Bool.false_ne_true]
        exact .refused

/-- **Parameters and ellipses** up to the closing parenthesis. -/
lemma answers_parametersFrom (hone : Mirrors toks tail calls read one) (hnil : read [] = none)
    (h : ts <:+ toks) :
    Answers toks ts.length (TypeExpr.parametersFrom read ts.length ts)
      (parametersFrom one (contextAt toks tail calls) (place toks ts)) := by
  have hid : prepend ([], false) = id := funext fun more => by simp [prepend]
  refine answers_loop (E := Listing read) 0 ?_ h ⟨ts.length, le_rfl, by rw [hid, Option.map_id, id]⟩
  rintro list ts _ h ⟨rounds, hrounds, rfl⟩
  obtain ⟨rounds, hread, hfits⟩ := exists_parametersFrom_eq read hrounds
  have hcomp : (fun more => (readParameters read rounds more).map (prepend list)) =
      readParameters read rounds ∘ prepend list := funext (map_readParameters list)
  rw [hread, Option.map_bind, Function.comp_def, hcomp, ← Option.bind_map]
  exact Ends.bind (answers_withParameter hone hnil h list) fun list rest hrest hle =>
    turns_behindParameter hrest hle hfits list

/-- **The parameters** up to the parenthesis. -/
lemma answers_parametersUntilClose (hone : Mirrors toks tail calls read one) (hnil : read [] = none)
    (h : ts <:+ toks) :
    Answers toks ts.length (readParameterList read ts)
      (parametersUntilClose one (contextAt toks tail calls) (place toks ts)) := by
  rw [parametersUntilClose]
  cases ts with
  | nil =>
      rw [run_bind_ok run_eat_nil, if_neg Bool.false_ne_true]
      exact answers_parametersFrom hone hnil h
  | cons t ts =>
      rw [readParameterList]
      by_cases hclose : t.kind = .rparen
      · rw [run_bind_ok (run_eat_of_eq h hclose), if_pos hclose, if_pos rfl]
        exact Answers.read (suffix_of_cons h) (Nat.le_succ _)
      · rw [run_bind_ok (run_eat_of_ne h hclose), if_neg hclose, if_neg Bool.false_ne_true]
        exact answers_parametersFrom hone hnil h

/-- A parameter list is its parameters, the parenthesis and its tail. -/
lemma parameters_eq (read : Reader TypeExpr) (ts : List Token) :
    TypeExpr.parameters read ts = (readParameterList read ts).bind
      fun ((params, variadic), ts) => ((TypeExpr.functionTail ts.length ts).map
        (((), ·) : List Token → Unit × List Token)).bind
          fun (_, ts) =>
            some (.function (if isVoidList params then [] else params) variadic, ts) := by
  simp only [Option.bind_map]
  rw [TypeExpr.parameters.eq_def]
  rcases ts with _ | ⟨t, ts⟩
  · rfl
  · rw [readParameterList]
    dsimp only
    split <;> rfl

/-- **Parameter lists**, two calls further down. -/
lemma mirrors_parameters (hs : Spaced toks tail) (hcalls : calls + 2 < maxCalls)
    (hone : Mirrors toks tail (calls + 1) read one) (hnil : read [] = none) :
    Mirrors toks tail calls (TypeExpr.parameters read) (parameters one) := by
  intro ts h
  rw [parameters_eq, parameters, run_call (by omega)]
  refine Ends.bind (answers_parametersUntilClose hone hnil h)
    fun params rest hrest hle => ?_
  refine Ends.bind (answers_functionTail hs (by omega) hrest) fun _ rest' hrest' hle' => ?_
  exact Answers.read hrest' (hle'.trans hle)

/-! ### Suffixes -/

/-- Suffixes in front of one more and of those behind it. -/
lemma map_suffixes (ops : List TypeOp) (ans : Option (TypeOp × List Token)) :
    (ans.bind fun first => (TypeExpr.suffixes read rounds first.2).bind
      fun more => some (first.1 :: more.1, more.2)).map (fun more => (ops ++ more.1, more.2)) =
    ans.bind fun first => (TypeExpr.suffixes read rounds first.2).map
      fun more => (ops ++ [first.1] ++ more.1, more.2) := by
  rw [Option.map_bind]
  refine Option.bind_congr fun first _ => ?_
  dsimp only [Function.comp]
  generalize TypeExpr.suffixes read rounds first.2 = more
  cases more <;> simp

/-- **Array bounds and parameter lists.** -/
lemma answers_suffixes {list : Scan TypeOp}
    (hlist : Mirrors toks tail calls (TypeExpr.parameters read) list) (h : ts <:+ toks) :
    Answers toks ts.length (TypeExpr.suffixes read ts.length ts)
      (suffixes list (contextAt toks tail calls) (place toks ts)) := by
  refine answers_loop (E := fun ops ts ans => ∃ rounds, ts.length ≤ rounds ∧
    ans = (TypeExpr.suffixes read rounds ts).map fun more => (ops ++ more.1, more.2)) 0 ?_ h
    ⟨ts.length, le_rfl, by simp⟩
  rintro ops ts _ h ⟨rounds, hrounds, rfl⟩
  rw [run_bind_ok (run_kindAhead? h)]
  cases ts with
  -- at the end of the tokens, as at every other token, the operations are over
  | nil =>
      have hnil : TypeExpr.suffixes read rounds [] = some ([], []) := by cases rounds <;> rfl
      rw [hnil, Option.map_some]
      dsimp only
      rw [List.append_nil]
      exact Turns.last h le_rfl
  | cons t ts =>
      obtain ⟨rounds, rfl, hfits⟩ := exists_rounds_eq hrounds
      have hts : ts <:+ toks := suffix_of_cons h
      rw [List.getElem?_cons_zero, Option.map_some, TypeExpr.suffixes]
      dsimp only
      cases t.kind
      case lbracket =>
        dsimp only
        simp only [Option.bind_eq_bind]
        rw [map_suffixes, run_bind_ok (run_advance h)]
        refine Ends.bind (answers_arraySuffix hts) fun op rest hrest hle => ?_
        exact Turns.again hrest (Nat.lt_succ_of_le hle) ⟨rounds, hle.trans hfits, rfl⟩
      case lparen =>
        dsimp only
        simp only [Option.bind_eq_bind]
        rw [map_suffixes, run_bind_ok (run_advance h)]
        refine Ends.bind (hlist ts hts) fun op rest hrest hle => ?_
        exact Turns.again hrest (Nat.lt_succ_of_le hle) ⟨rounds, hle.trans hfits, rfl⟩
      all_goals
        dsimp only
        rw [Option.map_some]
        dsimp only
        rw [List.append_nil]
        exact Turns.last h le_rfl

end parameters

/-! ### Types -/

/-- **Groups**, whose declarator is one level further down. -/
lemma mirrors_grouped {levels : ℕ} {inner : Scan (List TypeOp)}
    (hinner : Mirrors toks tail calls (declaratorWithin levels) inner) :
    Mirrors toks tail calls (groupWithin levels) (grouped inner) := by
  intro ts h
  rw [grouped, run_bind_ok (run_groupAhead h)]
  rcases ts with _ | ⟨t, ts⟩
  · exact Answers.read h le_rfl
  rw [groupWithin]
  -- a parenthesis that opens no group is that of a parameter list, and is left
  by_cases hgroups : t.kind = .lparen ∧ startsPointer ts
  swap
  · rw [if_neg hgroups, groups, decide_eq_false hgroups]
    exact Answers.read h le_rfl
  rw [if_pos hgroups, groups, decide_eq_true hgroups, if_pos rfl, run_bind_ok (run_advance h)]
  refine Ends.bind (hinner ts (suffix_of_cons h)) fun nested rest hrest hle => ?_
  -- the group has to be closed
  rcases rest with _ | ⟨u, rest⟩
  · rw [run_bind_ok run_eat_nil]
    exact .refused
  rw [List.length_cons] at hle
  dsimp only
  by_cases hclose : u.kind = .rparen
  · rw [run_bind_ok (run_eat_of_eq hrest hclose), guard, if_pos hclose]
    exact Answers.read (suffix_of_cons hrest) (by rw [List.length_cons]; omega)
  · rw [run_bind_ok (run_eat_of_ne hrest hclose), guard, if_neg hclose]
    exact .refused

/-- No further level of nesting is allowed. -/
lemma mirrors_typeAt_of_lt (hdepth : maxNesting < depth) (hcalls : calls < maxCalls) :
    Mirrors toks tail calls (typeWithin 0) (typeAt depth) := by
  intro ts h
  rw [typeAt, run_call hcalls, dif_pos hdepth]
  exact .refused

/-- Too deep down every declarator is refused. -/
lemma mirrors_declaratorAt_of_lt (hdepth : maxNesting < depth) (hcalls : calls < maxCalls) :
    Mirrors toks tail calls (declaratorWithin 0) (declaratorAt depth) := by
  intro ts h
  rw [declaratorAt, run_call hcalls, dif_pos hdepth]
  exact .refused

/-- Where nothing is left there is no parameter. -/
lemma parameterReader_nil (levels : ℕ) : parameterReader levels [] = none := by
  rcases levels with _ | _ | levels <;> rfl

/-- A type, from what is read one level below it. -/
lemma mirrors_typeAt_of_declaratorAt {levels : ℕ} (hs : Spaced toks tail)
    (hlevels : depth + levels = maxNesting)
    (hdeclarator : Mirrors toks tail (depth + 1) (declaratorWithin levels)
      (declaratorAt (depth + 1))) :
    Mirrors toks tail depth (typeWithin (levels + 1)) (typeAt depth) := by
  intro ts h
  have hcalls : maxCalls = depth + levels + 4 := by rw [hlevels, maxCalls]
  have hnestable : decide (levels ≠ 0) = decide (depth < maxNesting) :=
    decide_eq_decide.mpr (by omega)
  rw [typeAt, run_call (by omega), dif_neg (by omega), typeWithin_succ, hnestable]
  refine Ends.bind (answers_specifiers hs (by omega) h) fun named rest hrest hle => ?_
  refine Ends.map (hdeclarator rest hrest) fun ops rest' hrest' hle' => ?_
  exact Answers.read hrest' (hle'.trans hle)

/-- A declarator, from what is read below it. -/
lemma mirrors_declaratorAt_of_typeAt {levels : ℕ} (hs : Spaced toks tail)
    (hlevels : depth + levels = maxNesting)
    (hdeclarator : Mirrors toks tail (depth + 1) (declaratorWithin levels)
      (declaratorAt (depth + 1)))
    (htype : Mirrors toks tail (depth + 2) (parameterReader levels) (typeAt (depth + 2))) :
    Mirrors toks tail depth (declaratorWithin (levels + 1)) (declaratorAt depth) := by
  intro ts h
  have hcalls : maxCalls = depth + levels + 4 := by rw [hlevels, maxCalls]
  rw [declaratorAt, run_call (by omega), dif_neg (by omega), declaratorWithin_succ]
  refine Ends.bind_some (answers_pointers h) fun hus hle => ?_
  refine Ends.bind (mirrors_grouped hdeclarator _ hus) fun nested rest hrest hle' => ?_
  have hlist : Mirrors toks tail (depth + 1) (TypeExpr.parameters (parameterReader levels))
      (parametersAt (depth + 1)) := by
    rw [parametersAt]
    exact mirrors_parameters hs (by omega) htype (parameterReader_nil levels)
  refine Ends.map (answers_suffixes hlist hrest) fun suffixes rest' hrest' hle'' => ?_
  exact Answers.read hrest' (hle''.trans (hle'.trans hle))

/-- **Types and declarators at every depth.** -/
lemma mirrors_typeAt_declaratorAt (hs : Spaced toks tail) (levels : ℕ) :
    (∀ depth, depth + levels = maxNesting + 1 →
      Mirrors toks tail depth (typeWithin levels) (typeAt depth)) ∧
    ∀ depth, depth + levels = maxNesting + 1 →
      Mirrors toks tail depth (declaratorWithin levels) (declaratorAt depth) := by
  -- a declarator stands one level below its type, a parameter two levels below its declarator
  induction levels using Nat.strong_induction_on with
  | _ levels ih =>
      cases levels with
      | zero =>
          have hcalls : maxCalls = maxNesting + 4 := rfl
          exact ⟨fun depth hdepth => mirrors_typeAt_of_lt (by omega) (by omega),
            fun depth hdepth => mirrors_declaratorAt_of_lt (by omega) (by omega)⟩
      | succ levels =>
          have hdeclarator (depth : ℕ) (hdepth : depth + levels = maxNesting) :
              Mirrors toks tail (depth + 1) (declaratorWithin levels) (declaratorAt (depth + 1)) :=
            (ih levels (Nat.lt_succ_self _)).2 (depth + 1) (by omega)
          have htype (depth : ℕ) (hdepth : depth + levels = maxNesting) :
              Mirrors toks tail (depth + 2) (parameterReader levels) (typeAt (depth + 2)) := by
            cases levels with
            | zero =>
                have hcalls : maxCalls = maxNesting + 4 := rfl
                exact mirrors_typeAt_of_lt (by omega) (by omega)
            | succ levels => exact (ih levels (by omega)).1 (depth + 2) (by omega)
          refine ⟨fun depth hdepth => ?_, fun depth hdepth => ?_⟩
          · exact mirrors_typeAt_of_declaratorAt hs (by omega) (hdeclarator depth (by omega))
          · exact mirrors_declaratorAt_of_typeAt hs (by omega) (hdeclarator depth (by omega))
              (htype depth (by omega))

/-! ### Spellings -/

/-- Only blanks stand between the tokens of a text. -/
lemma gap_of_mem_lexFrom {g cs : List Char} (hg : g.all Token.isGap = true) :
    ∀ t ∈ Token.lexFrom g cs, t.gap.all Token.isGap = true := by
  fun_induction Token.lexFrom g cs with
  | case1 g => simp
  | case2 g c rest hc ih => exact ih (by simp_all)
  | case3 g c rest hc kind n hm ih => exact List.forall_mem_cons.mpr ⟨hg, ih rfl⟩

/-- Between the tokens of a text there are blanks only. -/
lemma spaced_lex (spelling : String) (htail : tail.all Token.isGap = true) :
    Spaced (Token.lex spelling) tail := by
  intro ts h c hc
  refine isBlank_of_isGap ?_
  cases ts with
  | nil => exact List.all_eq_true.mp htail c hc
  | cons t ts =>
      have hgap : t.gap.all Token.isGap = true :=
        gap_of_mem_lexFrom rfl t (h.subset List.mem_cons_self)
      exact List.all_eq_true.mp hgap c hc

/-- **Every text is read to the end**, and what is read is the type that it names. -/
lemma parse?_eq (spelling : String) : parse? spelling = .ok (TypeExpr.parse? spelling) := by
  obtain ⟨tail, htail, hsource⟩ := Token.source_lex spelling
  have hs := spaced_lex spelling htail
  have hcontext : contextOf spelling = contextAt (Token.lex spelling) tail 0 := by
    rw [contextOf, contextAt, hsource]
  have hplace : place (Token.lex spelling) (Token.lex spelling) = 0 := Nat.sub_self _
  -- at depth zero all levels are left, and no call has been made
  have hread := (mirrors_typeAt_declaratorAt hs (maxNesting + 1)).1 0 (Nat.zero_add _) _
    (List.suffix_refl _)
  rw [hplace] at hread
  rw [parse?, TypeExpr.parse?, hcontext]
  generalize typeAt 0 (contextAt (Token.lex spelling) tail 0) 0 = r at hread
  generalize typeWithin (maxNesting + 1) (Token.lex spelling) = ans at hread
  cases hread with
  | refused => rfl
  | @reaches type rest _ hrest hQ =>
      obtain ⟨-, rfl⟩ := hQ
      have hle := hrest.length_le
      -- the cursor is at the end just if no token is left
      have hend : (contextAt (Token.lex spelling) tail 0).tokens.length ≤
          place (Token.lex spelling) rest ↔ rest.isEmpty := by
        rw [contextAt, length_spans, place, List.isEmpty_iff_length_eq_zero]
        omega
      simp only [verdict, hend, Option.bind_eq_bind, Option.bind_some, guard]
      split <;> rfl

end UnitIndex.TypeExpr.Checked

namespace UnitIndex

/-! ### How deep parameter lists nest -/

mutual

/-- How many parameter lists are nested in each other. -/
def TypeExpr.listDepth : TypeExpr → ℕ
  | ⟨_, _, ops⟩ => opsListDepth ops

def opsListDepth : List TypeOp → ℕ
  | [] => 0
  | op :: ops => max op.listDepth (opsListDepth ops)

def TypeOp.listDepth : TypeOp → ℕ
  | .function params _ => paramsListDepth params + 1
  | _ => 0

def paramsListDepth : List TypeExpr → ℕ
  | [] => 0
  | p :: ps => max p.listDepth (paramsListDepth ps)

end

/-- Operations nest as deep as the deepest of them, and so do parameters. -/
lemma opsListDepth_le_iff {ops : List TypeOp} {n : ℕ} :
    opsListDepth ops ≤ n ↔ ∀ op ∈ ops, op.listDepth ≤ n := by
  induction ops with
  | nil => simp [opsListDepth]
  | cons op ops ih => simp [opsListDepth, ih]

lemma paramsListDepth_le_iff {params : List TypeExpr} {n : ℕ} :
    paramsListDepth params ≤ n ↔ ∀ p ∈ params, p.listDepth ≤ n := by
  induction params with
  | nil => simp [paramsListDepth]
  | cons p ps ih => simp [paramsListDepth, ih]

namespace TypeExpr.Checked

variable {ts rest : List Token} {read : Reader TypeExpr} {op : TypeOp} {levels n rounds : ℕ}

/-- Whether nothing that is read nests parameter lists deeper than that. -/
def Bounded (n : ℕ) (read : Reader TypeExpr) : Prop :=
  ∀ ts e rest, read ts = some (e, rest) → e.listDepth ≤ n

/-- Marks have no parameters. -/
lemma listDepth_of_mem_pointers (h : op ∈ (TypeExpr.pointers rounds ts).1) :
    op.listDepth = 0 := by
  induction rounds generalizing ts with
  | zero => simp [TypeExpr.pointers] at h
  | succ rounds ih =>
      rcases ts with _ | ⟨t, ts⟩
      · simp [TypeExpr.pointers] at h
      · rw [TypeExpr.pointers] at h
        cases hkind : t.kind <;> rw [hkind] at h
        case star | caret | amp | ampAmp =>
          rcases List.mem_cons.mp h with rfl | h
          · rfl
          · exact ih h
        all_goals cases h

lemma listDepth_of_arraySuffix (h : TypeExpr.arraySuffix ts = some (op, rest)) :
    op.listDepth = 0 := by
  simp only [TypeExpr.arraySuffix, Option.bind_eq_bind, Option.bind_eq_some_iff] at h
  obtain ⟨_, -, hop⟩ := h
  obtain ⟨rfl, -⟩ := Prod.mk.inj (Option.some.inj hop)
  rfl

/-- A parameter nests no deeper than its reader says. -/
lemma listDepth_le_of_mem_readParameter (hread : Bounded n read)
    {params : List TypeExpr} {variadic : Bool}
    (h : readParameter read ts = some ((params, variadic), rest)) :
    ∀ p ∈ params, p.listDepth ≤ n := by
  rcases ts with _ | ⟨t, ts⟩
  · cases h
  · rw [readParameter] at h
    split at h
    · cases h
      simp
    · obtain ⟨⟨p, us⟩, hp, heq⟩ := Option.map_eq_some_iff.mp h
      cases heq
      simpa using hread _ _ _ hp

lemma listDepth_le_of_mem_parametersFrom (hread : Bounded n read)
    {params : List TypeExpr} {variadic : Bool}
    (h : TypeExpr.parametersFrom read rounds ts = some ((params, variadic), rest)) :
    ∀ p ∈ params, p.listDepth ≤ n := by
  induction rounds generalizing ts params variadic rest with
  | zero => cases h
  | succ rounds ih =>
      rw [parametersFrom_succ, Option.bind_eq_some_iff] at h
      obtain ⟨⟨⟨first, dots⟩, us⟩, hfirst, hmore⟩ := h
      have hle := listDepth_le_of_mem_readParameter hread hfirst
      rcases us with _ | ⟨t, us⟩
      · cases hmore
      rw [readParameters] at hmore
      split at hmore
      · obtain ⟨⟨⟨more, dots'⟩, rest'⟩, hrest, heq⟩ := Option.map_eq_some_iff.mp hmore
        cases heq
        exact List.forall_mem_append.mpr ⟨hle, ih hrest⟩
      · split at hmore <;> cases hmore
        exact hle

/-- A parameter list nests one level deeper than its parameters. -/
lemma listDepth_le_of_parameters (hread : Bounded n read)
    (h : TypeExpr.parameters read ts = some (op, rest)) : op.listDepth ≤ n + 1 := by
  rw [parameters_eq, Option.bind_eq_some_iff] at h
  obtain ⟨⟨⟨params, variadic⟩, us⟩, hparams, h⟩ := h
  obtain ⟨_, -, hop⟩ := Option.bind_eq_some_iff.mp h
  obtain ⟨rfl, -⟩ := Prod.mk.inj (Option.some.inj hop)
  -- an empty list has no parameters, and any other one those that were read
  have hle : ∀ p ∈ params, p.listDepth ≤ n := by
    rcases ts with _ | ⟨t, ts⟩
    · cases hparams
    rw [readParameterList] at hparams
    split at hparams
    · cases hparams
      simp
    · exact listDepth_le_of_mem_parametersFrom hread hparams
  rw [TypeOp.listDepth, Nat.add_le_add_iff_right, paramsListDepth_le_iff]
  split
  · simp
  · exact hle

/-- What stands behind a declarator nests one level deeper than parameters at most. -/
lemma listDepth_le_of_mem_suffixes (hread : Bounded n read) {ops : List TypeOp}
    (h : TypeExpr.suffixes read rounds ts = some (ops, rest)) :
    ∀ op ∈ ops, op.listDepth ≤ n + 1 := by
  induction rounds generalizing ts ops rest with
  | zero =>
      cases h
      simp
  | succ rounds ih =>
      rcases ts with _ | ⟨t, ts⟩
      · cases h
        simp
      rw [TypeExpr.suffixes] at h
      dsimp only at h
      cases hkind : t.kind <;> rw [hkind] at h
      -- a bound or a parameter list, and then the others
      case lbracket | lparen =>
        simp only [Option.bind_eq_bind, Option.bind_eq_some_iff] at h
        obtain ⟨⟨op, us⟩, hop, ⟨more, us'⟩, hmore, heq⟩ := h
        cases heq
        refine List.forall_mem_cons.mpr ⟨?_, ih hmore⟩
        first
        | exact (listDepth_of_arraySuffix hop).trans_le (Nat.zero_le _)
        | exact listDepth_le_of_parameters hread hop
      all_goals
        cases h
        simp

/-- A group nests no deeper than the declarator in it. -/
lemma opsListDepth_le_of_groupWithin {ops : List TypeOp}
    (hread : ∀ ts ops rest, declaratorWithin levels ts = some (ops, rest) → opsListDepth ops ≤ n)
    (h : groupWithin levels ts = some (ops, rest)) : opsListDepth ops ≤ n := by
  rcases ts with _ | ⟨t, ts⟩
  · cases h
    exact Nat.zero_le n
  rw [groupWithin] at h
  split at h
  · simp only [Option.bind_eq_bind, Option.bind_eq_some_iff] at h
    obtain ⟨⟨nested, us⟩, hnested, h⟩ := h
    rcases us with _ | ⟨u, us⟩
    · cases h
    · obtain ⟨_, -, h⟩ := Option.bind_eq_some_iff.mp h
      cases h
      exact hread _ _ _ hnested
  · cases h
    exact Nat.zero_le n

/-- **Parameter lists nest as deep as a third of the levels allows**: each takes a level for its
parameters, one for their types and one for their declarators. -/
lemma bounded_within (levels : ℕ) :
    Bounded ((levels + 1) / 3) (typeWithin levels) ∧
    ∀ ts ops rest, declaratorWithin levels ts = some (ops, rest) →
      opsListDepth ops ≤ (levels + 2) / 3 := by
  induction levels using Nat.strong_induction_on with
  | _ levels ih =>
      rcases levels with _ | levels
      · exact ⟨fun ts e rest h => by simp [typeWithin] at h,
          fun ts ops rest h => by simp [declaratorWithin] at h⟩
      have hdeclarator := (ih levels (Nat.lt_succ_self _)).2
      -- the parameters of a declarator are types one level further down
      have hparameter : Bounded (levels / 3) (parameterReader levels) := by
        rcases levels with _ | levels
        · intro ts e rest h
          cases h
        · exact (ih levels (by omega)).1
      refine ⟨fun ts e rest h => ?_, fun ts ops rest h => ?_⟩
      · rw [typeWithin_succ, Option.bind_eq_some_iff] at h
        obtain ⟨named, -, h⟩ := h
        obtain ⟨⟨ops, us⟩, hops, heq⟩ := Option.map_eq_some_iff.mp h
        cases heq
        exact hdeclarator _ _ _ hops
      · rw [declaratorWithin_succ, Option.bind_eq_some_iff] at h
        obtain ⟨⟨nested, us⟩, hnested, h⟩ := h
        obtain ⟨⟨behind, us'⟩, hbehind, heq⟩ := Option.map_eq_some_iff.mp h
        cases heq
        have hnested := opsListDepth_le_of_groupWithin hdeclarator hnested
        have hbehind := listDepth_le_of_mem_suffixes hparameter hbehind
        rw [opsListDepth_le_iff] at hnested ⊢
        intro op hop
        -- an operation in front, behind, or inside of the group
        rcases List.mem_append.mp hop with hop | hop
        · rcases List.mem_append.mp hop with hop | hop
          · exact (listDepth_of_mem_pointers hop).trans_le (Nat.zero_le _)
          · have hle := hbehind op (List.mem_reverse.mp hop)
            omega
        · have hle := hnested op hop
          omega

/-! ### Every text is read -/

/-- **Reading is total.** Whatever the text, the parser comes to an end and nothing goes wrong on
the way: no slice that it takes lies outside of the text or cuts a character, its counter never
falls below zero, its cursor never passes the last token, each round of a loop that is not the last
takes a token, and its calls are never nested deeper than `maxCalls`. So it answers with the type
that the text names, if it names one, and no more parameter lists are nested in each other there
than a third of the levels that are allowed. -/
theorem parse?_total (spelling : String) :
    parse? spelling = .ok (TypeExpr.parse? spelling) ∧
      ∀ e ∈ TypeExpr.parse? spelling, e.listDepth ≤ (maxNesting + 2) / 3 := by
  refine ⟨parse?_eq spelling, fun e he => ?_⟩
  rw [Option.mem_def, TypeExpr.parse?] at he
  obtain ⟨⟨type, rest⟩, hread, he⟩ := Option.bind_eq_some_iff.mp he
  obtain ⟨_, -, htype⟩ := Option.bind_eq_some_iff.mp he
  obtain rfl : type = e := Option.some.inj htype
  exact (bounded_within (maxNesting + 1)).1 _ _ _ hread

end TypeExpr.Checked

end UnitIndex
