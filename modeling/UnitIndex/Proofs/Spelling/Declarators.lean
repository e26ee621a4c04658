import Mathlib.Tactic
import UnitIndex.Proofs.Spelling.Specifiers

/-!
The operations of a written declarator, read back.

The operations in front of a group come out in their order (`pointers_declarator`), those behind it
in reverse, which is how they are written (`declarator_append`, `suffixes_flatMap_symbol`). What
reads the parameters is taken as given here: it has to read the types that leave room for a number
of levels and to refuse the others (`Reads`). A list of parameters is then read back if all of them
leave room (`parametersFrom_parameterText`).
-/

namespace UnitIndex

open Token (lexFrom isWord LeavesWord brackets bracketKinds marks markKinds)

variable {op : TypeOp} {ops front behind inner : List TypeOp} {cs d g : List Char}

/-! ### The front of a declarator -/

/-- An operation in front begins with a mark, one behind with a parenthesis or a bracket. -/
lemma exists_symbol_eq_cons (op : TypeOp) :
    ∃ c cs, op.symbol = c :: cs ∧ if op.isMark then c = '*' ∨ c = '&' else c = '(' ∨ c = '[' := by
  cases op with
  | pointer quals => exact ⟨'*', _, by rw [TypeOp.symbol], .inl rfl⟩
  | lvalueRef => exact ⟨'&', _, by rw [TypeOp.symbol], .inr rfl⟩
  | rvalueRef => exact ⟨'&', _, by rw [TypeOp.symbol], .inr rfl⟩
  | array size =>
      cases size with
      | none => exact ⟨'[', _, by rw [TypeOp.symbol], .inr rfl⟩
      | some n => exact ⟨'[', _, by rw [TypeOp.symbol]; rfl, .inr rfl⟩
  | function params variadic => exact ⟨'(', _, by rw [TypeOp.symbol]; rfl, .inl rfl⟩

/-- What is grouped begins with no mark. -/
lemma head?_grouped {c : Char} (hd : ∀ c ∈ d.head?, c ∈ ['*', '&', '(', '['])
    (h : c ∈ (grouped d).head?) : c = '(' ∨ c = '[' := by
  by_cases hmark : startsMark d
  · rw [grouped, if_pos hmark] at h
    exact .inl (by simpa using h.symm)
  · rw [grouped, if_neg hmark] at h
    have hc := hd c h
    rw [startsMark, h] at hmark
    simp at hc hmark
    tauto

/-- A declarator begins with a mark or an opening bracket. -/
lemma head?_declarator {c : Char} (h : c ∈ (declarator ops).head?) : c ∈ ['*', '&', '(', '['] := by
  induction ops generalizing c with
  | nil => simp [declarator] at h
  | cons op ops ih =>
      obtain ⟨c', cs', hsymbol, hc'⟩ := exists_symbol_eq_cons op
      cases hop : op.isMark with
      | true =>
          rw [declarator_of_isMark hop, hsymbol] at h
          obtain rfl : c' = c := by simpa using h
          rw [hop, if_pos rfl] at hc'
          simp
          tauto
      | false =>
          rw [declarator_of_not_isMark hop, hsymbol] at h
          rw [hop] at hc'
          -- an array or a function may have a group in front of it, which begins with a parenthesis
          cases hgrouped : grouped (declarator ops) with
          | nil =>
              obtain rfl : c' = c := by simpa [hgrouped] using h
              simp at hc' ⊢
              tauto
          | cons e es =>
              obtain rfl : e = c := by simpa [hgrouped] using h
              have := head?_grouped (fun c => ih) (c := e) (by rw [hgrouped]; rfl)
              simp
              tauto

/-- It begins with a mark just if its first operation is one. -/
lemma startsMark_declarator (op : TypeOp) (ops : List TypeOp) :
    startsMark (declarator (op :: ops)) = op.isMark := by
  obtain ⟨c, cs, hsymbol, hc⟩ := exists_symbol_eq_cons op
  cases hop : op.isMark with
  | true =>
      rw [hop, if_pos rfl] at hc
      rw [declarator_of_isMark hop, hsymbol]
      rcases hc with rfl | rfl <;> rfl
  | false =>
      rw [hop] at hc
      rw [declarator_of_not_isMark hop, hsymbol]
      cases hgrouped : grouped (declarator ops) with
      | nil => rcases hc with rfl | rfl <;> rfl
      | cons e es =>
          rcases head?_grouped (fun c => head?_declarator) (c := e) (by rw [hgrouped]; rfl) with
            rfl | rfl <;> rfl

/-- A declarator whose first operation is written behind begins with a bracket or a parenthesis. -/
lemma mem_brackets_of_head?_declarator (hops : ∀ op ∈ ops.head?, op.isMark = false) :
    ∀ c ∈ (declarator ops).head?, c ∈ brackets := by
  intro c h
  cases ops with
  | nil => simp [declarator] at h
  | cons op ops =>
      have hmark := startsMark_declarator op ops
      rw [hops op rfl, startsMark, h] at hmark
      have hc := head?_declarator h
      simp [brackets] at hmark hc ⊢
      tauto

/-- Operations that are written behind stand in reverse behind what is grouped. -/
lemma declarator_append (hbehind : ∀ op ∈ behind, op.isMark = false)
    (hempty : behind = [] → inner = []) :
    declarator (behind ++ inner) =
      grouped (declarator inner) ++ behind.reverse.flatMap TypeOp.symbol := by
  induction behind with
  | nil =>
      rw [hempty rfl]
      rfl
  | cons op behind ih =>
      obtain ⟨hop, hbehind⟩ := List.forall_mem_cons.mp hbehind
      rw [List.cons_append, declarator_of_not_isMark hop, List.reverse_cons, List.flatMap_append,
        List.flatMap_singleton, ← List.append_assoc]
      congr 1
      cases behind with
      | nil => simp
      | cons op' behind =>
          have hmark := startsMark_declarator op' (behind ++ inner)
          rw [hbehind op' List.mem_cons_self] at hmark
          rw [← ih hbehind (by simp), grouped, List.cons_append, if_neg (by simp [hmark])]

/-! ### What follows a type -/

/-- What may follow a written type: a comma, a closing parenthesis, or nothing. -/
def EndsType (cs : List Char) : Prop := ∀ c ∈ cs.head?, c = ',' ∨ c = ')'

/-- What ends a type begins with a bracket, if with anything. -/
lemma EndsType.mem_brackets (h : EndsType cs) : ∀ c ∈ cs.head?, c ∈ brackets := by
  intro c hc
  rcases h c hc with rfl | rfl <;> decide

/-- What holds of the beginnings of two texts holds of the beginning of both. -/
lemma head?_append_mem {p : Char → Prop} (hd : ∀ c ∈ d.head?, p c) (hcs : ∀ c ∈ cs.head?, p c) :
    ∀ c ∈ (d ++ cs).head?, p c := by
  cases d with
  | nil => exact hcs
  | cons e d => exact hd

/-- A declarator in front of what ends a type ends the base. -/
lemma EndsType.endsBase (h : EndsType cs) (ops : List TypeOp) :
    TypeExpr.EndsBase (apart (declarator ops) ++ cs) := by
  -- both begin with marks, and these continue no word
  have hmarks : ∀ c ∈ (declarator ops ++ cs).head?, c ∈ marks := by
    refine head?_append_mem (fun c hc => ?_) fun c hc => ?_
    · have hall : ∀ c ∈ ['*', '&', '(', '['], c ∈ marks := Token.forall_mem_of_all (by decide)
      exact hall c (head?_declarator hc)
    · have hall : ∀ c ∈ brackets, c ∈ marks := Token.forall_mem_of_all (by decide)
      exact hall c (h.mem_brackets c hc)
  cases hd : declarator ops with
  | nil =>
      rw [hd] at hmarks
      exact ⟨Token.leavesWord_of_marks hmarks, Token.kind_mem_markKinds hmarks _⟩
  | cons c d =>
      rw [hd] at hmarks
      refine ⟨Token.leavesWord_space _, ?_⟩
      show ∀ t ∈ (lexFrom [] (' ' :: (c :: d ++ cs))).head?, _
      rw [Token.lexFrom_space]
      exact Token.kind_mem_markKinds hmarks _

/-- Behind a declarator no mark goes on. -/
lemma EndsType.ne_amp (h : EndsType cs) (d : List Char) :
    ∀ c ∈ (apart d ++ cs).head?, c ≠ '&' := by
  cases d with
  | nil =>
      intro c hc
      rcases h c hc with rfl | rfl <;> decide
  | cons e d =>
      intro c hc
      obtain rfl : ' ' = c := by simpa [apart] using hc
      decide

/-- Behind a base and behind a mark, the space is a blank in front of the next token. -/
lemma lexFrom_apart (d cs : List Char) :
    ∃ g, (d = [] → g = []) ∧ lexFrom [] (apart d ++ cs) = lexFrom g (d ++ cs) := by
  cases d with
  | nil => exact ⟨[], fun _ => rfl, rfl⟩
  | cons c d => exact ⟨[' '], by simp, Token.lexFrom_space [] (c :: d ++ cs)⟩

/-! ### Operations in front -/

namespace TypeExpr

variable {rounds : ℕ}

/-- Qualifiers that are written are read back. -/
lemma qualifierWords_intercalate {words : List String} {q q' : Qualifiers}
    (hwords : ∀ w ∈ words, isWord w.toList = true)
    (hq : words.foldlM Qualifiers.absorb? q = some q') (hcs : EndsBase cs)
    (hg : words = [] → g = []) :
    qualifierWords q (lexFrom g ((" ".intercalate words).toList ++ cs)) = (q', lexFrom [] cs) := by
  -- what ends a base is no word, and so no qualifier
  have hstop (q : Qualifiers) : qualifierWords q (lexFrom [] cs) = (q, lexFrom [] cs) := by
    cases hts : lexFrom [] cs with
    | nil => rfl
    | cons t ts =>
        have hkind := hcs.kind_mem t (by rw [hts]; rfl)
        have hident : t.kind ≠ .ident := by
          rintro h
          rw [h] at hkind
          exact absurd hkind (by decide)
        rw [qualifierWords, if_neg hident]
  induction words generalizing q g with
  | nil =>
      obtain rfl : q = q' := by simpa using hq
      rw [hg rfl, String.intercalate_nil]
      exact hstop q
  | cons w words ih =>
      obtain ⟨hw, hwords⟩ := List.forall_mem_cons.mp hwords
      obtain ⟨q₁, hq₁, hq⟩ := Option.bind_eq_some_iff.mp hq
      have hfirst (ts : List Token) :
          qualifierWords q (⟨g, .ident, w.toList⟩ :: ts) = qualifierWords q₁ ts := by
        simp [qualifierWords, Token.word, hq₁]
      cases words with
      | nil =>
          obtain rfl : q₁ = q' := by simpa using hq
          rw [String.intercalate_singleton, Token.lexFrom_word hw hcs.leavesWord, hfirst, hstop]
      | cons w' words =>
          rw [Token.intercalate_append, Token.lexFrom_word hw (Token.leavesWord_space _), hfirst,
            Token.lexFrom_space]
          exact ih hwords hq (by simp)

/-- Nothing else begins an operation in front. -/
lemma pointers_stop (hcs : ∀ c ∈ cs.head?, c ∈ brackets) (g : List Char) (rounds : ℕ) :
    pointers rounds (lexFrom g cs) = ([], lexFrom g cs) := by
  cases rounds with
  | zero => rfl
  | succ rounds =>
      cases cs with
      | nil => simp [pointers]
      | cons c cs =>
          obtain ⟨kind, hkind, hcut⟩ := Token.lexFrom_bracket (hcs c rfl) g cs
          simp only [bracketKinds, List.mem_cons, List.not_mem_nil, or_false] at hkind
          rw [hcut]
          rcases hkind with rfl | rfl | rfl | rfl <;> rfl

/-- Reading qualifiers leaves no more tokens than there are. -/
lemma length_qualifierWords (q : Qualifiers) (ts : List Token) :
    (qualifierWords q ts).2.length ≤ ts.length := by
  fun_induction qualifierWords q ts with
  | case1 => rfl
  | case2 q t ts hkind q' hq ih => exact Nat.le_succ_of_le ih
  | case3 => rfl
  | case4 => rfl

/-- One operation in front of what is not a part of it. -/
lemma pointers_symbol (hop : op.isMark = true) (hcs : EndsBase cs)
    (hamp : ∀ c ∈ cs.head?, c ≠ '&') (g : List Char)
    (hrounds : (lexFrom g (op.symbol ++ cs)).length ≤ rounds) :
    ∃ fewer, (lexFrom [] cs).length ≤ fewer ∧
      pointers rounds (lexFrom g (op.symbol ++ cs)) =
        (op :: (pointers fewer (lexFrom [] cs)).1, (pointers fewer (lexFrom [] cs)).2) := by
  cases op with
  | pointer quals =>
      -- behind a star there are the qualifiers of the pointer
      have hread := qualifierWords_intercalate (g := [])
        (fun w => Qualifiers.isWord_of_mem_words (q := quals)) quals.absorb_words hcs fun _ => rfl
      have hlength := length_qualifierWords {} (lexFrom [] (quals.text.toList ++ cs))
      rw [Qualifiers.text, hread] at hlength
      dsimp only at hlength
      rw [TypeOp.symbol, List.cons_append, Token.lexFrom_star, Qualifiers.text] at hrounds ⊢
      obtain ⟨fewer, rfl⟩ : ∃ fewer, rounds = fewer + 1 :=
        ⟨rounds - 1, by rw [List.length_cons] at hrounds; omega⟩
      refine ⟨fewer, by rw [List.length_cons] at hrounds; omega, ?_⟩
      rw [pointers]
      simp only [hread]
  | lvalueRef =>
      rw [TypeOp.symbol, List.singleton_append, Token.lexFrom_amp hamp] at hrounds ⊢
      obtain ⟨fewer, rfl⟩ : ∃ fewer, rounds = fewer + 1 :=
        ⟨rounds - 1, by rw [List.length_cons] at hrounds; omega⟩
      exact ⟨fewer, Nat.le_of_succ_le_succ hrounds, rfl⟩
  | rvalueRef =>
      rw [TypeOp.symbol, List.cons_append, List.singleton_append, Token.lexFrom_ampAmp]
        at hrounds ⊢
      obtain ⟨fewer, rfl⟩ : ∃ fewer, rounds = fewer + 1 :=
        ⟨rounds - 1, by rw [List.length_cons] at hrounds; omega⟩
      exact ⟨fewer, Nat.le_of_succ_le_succ hrounds, rfl⟩
  | array size => exact absurd hop (by simp [TypeOp.isMark])
  | function params variadic => exact absurd hop (by simp [TypeOp.isMark])

/-- **The operations in front are read back**, up to one that is written behind. -/
lemma pointers_declarator (hfront : ∀ op ∈ front, op.isMark = true)
    (hops : ∀ op ∈ ops.head?, op.isMark = false) (hcs : EndsType cs)
    (hg : declarator (front ++ ops) = [] → g = [])
    (hrounds : (lexFrom g (declarator (front ++ ops) ++ cs)).length ≤ rounds) :
    ∃ g', (declarator ops = [] → g' = []) ∧
      pointers rounds (lexFrom g (declarator (front ++ ops) ++ cs)) =
        (front, lexFrom g' (declarator ops ++ cs)) := by
  induction front generalizing g rounds with
  | nil =>
      refine ⟨g, hg, pointers_stop ?_ g rounds⟩
      exact head?_append_mem (mem_brackets_of_head?_declarator hops) hcs.mem_brackets
  | cons op front ih =>
      obtain ⟨hop, hfront⟩ := List.forall_mem_cons.mp hfront
      obtain ⟨g₁, hg₁, hcut⟩ := lexFrom_apart (declarator (front ++ ops)) cs
      rw [List.cons_append, declarator_of_isMark hop, List.append_assoc] at hrounds ⊢
      obtain ⟨fewer, hfewer, hread⟩ := pointers_symbol hop (hcs.endsBase (front ++ ops))
        (hcs.ne_amp (declarator (front ++ ops))) g hrounds
      rw [hcut] at hfewer hread
      obtain ⟨g', hg', hrest⟩ := ih hfront hg₁ hfewer
      exact ⟨g', hg', by rw [hread, hrest]⟩

/-! ### Parameters -/

/-- A list that is not taken for the empty one. -/
def NotVoid (params : List TypeExpr) : Prop := isVoidList params = false

/-- Whether `one` reads the types that leave room for `n` levels of nesting below a declarator, and
refuses all others. -/
def Reads (one : Reader TypeExpr) (n : ℕ) : Prop :=
  ∀ t : TypeExpr, t.Plain NotVoid → ∀ g cs, EndsType cs →
    one (lexFrom g (t.spelling ++ cs)) =
      if t.nesting + 2 ≤ n then some (t, lexFrom [] cs) else none

variable {one : Reader TypeExpr} {n : ℕ} {t : TypeExpr} {params : List TypeExpr} {variadic : Bool}
  {allowed : List TypeExpr → Prop}

/-- A type begins with a word. -/
lemma exists_lexFrom_spelling (ht : t.Plain allowed) (hcs : EndsType cs) (g : List Char) :
    ∃ w tail, lexFrom g (t.spelling ++ cs) = ⟨g, .ident, w⟩ :: lexFrom [] (tail ++ cs) := by
  obtain @⟨base, quals, ops, hbase, -⟩ := ht
  obtain ⟨w, tail, hw, htail, htext⟩ := exists_specifiers_eq hbase quals
  refine ⟨w, tail ++ apart (declarator ops), ?_⟩
  rw [spelling, htext, List.append_assoc, List.append_assoc, List.append_assoc]
  exact Token.lexFrom_word hw (htail.append (hcs.endsBase ops).leavesWord) g

/-- The text of a list, without the parentheses. -/
def parameterText (params : List TypeExpr) (variadic : Bool) : List Char :=
  [',', ' '].intercalate (spellings params ++ if variadic then [['.', '.', '.']] else [])

/-- Commas and closing parentheses end a type. -/
lemma endsType_comma (cs : List Char) : EndsType (',' :: cs) := by
  intro c hc
  exact .inl (by simpa using hc.symm)

lemma endsType_rparen (cs : List Char) : EndsType (')' :: cs) := by
  intro c hc
  exact .inr (by simpa using hc.symm)

lemma parameterText_singleton (p : TypeExpr) : parameterText [p] false = p.spelling :=
  List.intercalate_singleton

/-- Behind a parameter there is a comma, if anything follows. -/
lemma parameterText_cons (p : TypeExpr) (h : params = [] → variadic = true) :
    parameterText (p :: params) variadic =
      p.spelling ++ ',' :: ' ' :: parameterText params variadic := by
  have hne : (spellings params ++ if variadic then [['.', '.', '.']] else []) ≠ [] := by
    cases params with
    | nil => simp [h rfl]
    | cons p params => simp [spellings]
  rw [parameterText, spellings, List.cons_append, List.intercalate_cons_of_ne_nil hne,
    List.append_assoc]
  rfl

section

variable {first mark : Token} {p : TypeExpr} {ts rest : List Token}

/-- A parameter that is refused makes the list be refused. -/
lemma parametersFrom_none (hfirst : first.kind ≠ .ellipsis) (h : one (first :: ts) = none) :
    parametersFrom one rounds (first :: ts) = none := by
  cases rounds with
  | zero => rfl
  | succ rounds => simp [parametersFrom, hfirst, h]

/-- A parameter in front of others. -/
lemma parametersFrom_comma (hfirst : first.kind ≠ .ellipsis)
    (h : one (first :: ts) = some (p, mark :: rest)) (hmark : mark.kind = .comma) :
    parametersFrom one (rounds + 1) (first :: ts) =
      (parametersFrom one rounds rest).map fun ((more, dots), rest) =>
        ((p :: more, dots), rest) := by
  cases hmore : parametersFrom one rounds rest <;> simp [parametersFrom, hfirst, h, hmark, hmore]

/-- The last parameter. -/
lemma parametersFrom_rparen (hfirst : first.kind ≠ .ellipsis)
    (h : one (first :: ts) = some (p, mark :: rest)) (hmark : mark.kind = .rparen) :
    parametersFrom one (rounds + 1) (first :: ts) = some (([p], false), rest) := by
  simp [parametersFrom, hfirst, h, hmark]

end

/-- The last parameter of a list is read up to the parenthesis. -/
lemma parametersFrom_parameterText_singleton {p : TypeExpr} (hone : Reads one n)
    (hp : p.Plain NotVoid) (g cs : List Char)
    (hrounds : (lexFrom g (parameterText [p] false ++ ')' :: cs)).length ≤ rounds) :
    parametersFrom one rounds (lexFrom g (parameterText [p] false ++ ')' :: cs)) =
      if p.nesting + 2 ≤ n then some (([p], false), lexFrom [] cs) else none := by
  have hread := hone p hp g _ (endsType_rparen cs)
  obtain ⟨w, tail, hcut⟩ := exists_lexFrom_spelling hp (endsType_rparen cs) g
  rw [parameterText_singleton] at hrounds ⊢
  rw [hcut] at hrounds hread ⊢
  rw [Token.lexFrom_rparen] at hread
  obtain ⟨fewer, rfl⟩ : ∃ fewer, rounds = fewer + 1 :=
    ⟨rounds - 1, by rw [List.length_cons] at hrounds; omega⟩
  by_cases hfits : p.nesting + 2 ≤ n
  · rw [if_pos hfits] at hread ⊢
    rw [parametersFrom_rparen (by simp) hread rfl]
  · rw [if_neg hfits] at hread ⊢
    rw [parametersFrom_none (by simp) hread]

/-- **The parameters of a list are read back**, if they all fit. -/
lemma parametersFrom_parameterText (hone : Reads one n)
    (hparams : ∀ p ∈ params, p.Plain NotVoid) (hne : params = [] → variadic = true)
    (g cs : List Char)
    (hrounds : (lexFrom g (parameterText params variadic ++ ')' :: cs)).length ≤ rounds) :
    parametersFrom one rounds (lexFrom g (parameterText params variadic ++ ')' :: cs)) =
      if parametersNesting params ≤ n then some ((params, variadic), lexFrom [] cs) else none := by
  induction params generalizing g rounds with
  | nil =>
      obtain rfl := hne rfl
      have htext : parameterText [] true = ['.', '.', '.'] := rfl
      rw [htext, List.cons_append, List.cons_append, List.singleton_append, Token.lexFrom_ellipsis,
        Token.lexFrom_rparen] at hrounds ⊢
      cases rounds with
      | zero => simp at hrounds
      | succ rounds => simp [parametersFrom, parametersNesting]
  | cons p params ih =>
      obtain ⟨hp, hparams⟩ := List.forall_mem_cons.mp hparams
      have hnesting : parametersNesting (p :: params) ≤ n ↔
          p.nesting + 2 ≤ n ∧ parametersNesting params ≤ n := by
        rw [parametersNesting, max_le_iff]
      by_cases hlast : params = [] → variadic = true
      · -- the comma is followed by the rest of the list
        rw [parameterText_cons p hlast, List.append_assoc, List.cons_append, List.cons_append]
          at hrounds ⊢
        set more := parameterText params variadic ++ ')' :: cs
        have hcomma := endsType_comma (' ' :: more)
        have hread := hone p hp g _ hcomma
        obtain ⟨w, tail, hcut⟩ := exists_lexFrom_spelling hp hcomma g
        have hlength := Token.length_lexFrom_le hcomma.mem_brackets [] tail
        rw [hcut] at hrounds hread ⊢
        rw [Token.lexFrom_comma, Token.lexFrom_space] at hread hlength
        obtain ⟨fewer, rfl⟩ : ∃ fewer, rounds = fewer + 1 :=
          ⟨rounds - 1, by rw [List.length_cons] at hrounds; omega⟩
        have hfewer : (lexFrom ([] ++ [' ']) more).length ≤ fewer := by
          rw [List.length_cons] at hrounds hlength
          omega
        have hmore := ih hparams hlast _ hfewer
        by_cases hfits : p.nesting + 2 ≤ n
        · rw [if_pos hfits] at hread
          rw [parametersFrom_comma (by simp) hread rfl, hmore, apply_ite (Option.map _)]
          exact if_congr (by simp [hnesting, hfits]) rfl rfl
        · rw [if_neg hfits] at hread
          rw [parametersFrom_none (by simp) hread, if_neg fun h => hfits (hnesting.mp h).1]
      · -- the parenthesis is closed
        obtain ⟨rfl, rfl⟩ : params = [] ∧ variadic = false := by simpa using hlast
        rw [parametersFrom_parameterText_singleton hone hp g cs hrounds]
        exact if_congr (by simp [parametersNesting]) rfl rfl

/-! ### Operations behind -/

/-- What follows a parameter list is no part of its function type. -/
lemma functionTail_stop (hcs : ∀ c ∈ cs.head?, c ∈ brackets) (g : List Char) (rounds : ℕ) :
    functionTail rounds (lexFrom g cs) = some (lexFrom g cs) := by
  cases rounds with
  | zero => rfl
  | succ rounds =>
      cases cs with
      | nil => simp [functionTail]
      | cons c cs =>
          have hc : c ∈ brackets := hcs c rfl
          obtain ⟨kind, -, hcut⟩ := Token.lexFrom_bracket hc g cs
          have hquals : ∀ c ∈ brackets, ¬(String.ofList [c] = "const" ∨
              String.ofList [c] = "volatile" ∨ String.ofList [c] = "&" ∨
              String.ofList [c] = "&&") := Token.forall_mem_of_all (by decide)
          have hothers : ∀ c ∈ brackets, ¬(String.ofList [c] = "noexcept" ∨
              String.ofList [c] = "__attribute__") := Token.forall_mem_of_all (by decide)
          rw [hcut]
          exact (if_neg (hquals c hc)).trans (if_neg (hothers c hc))

/-- A list that is not empty begins with a word or with an ellipsis. -/
lemma exists_lexFrom_parameterText (hparams : ∀ p ∈ params, p.Plain NotVoid)
    (hne : params = [] → variadic = true) (g cs : List Char) :
    ∃ first ts, lexFrom g (parameterText params variadic ++ ')' :: cs) = first :: ts ∧
      (first.kind = .ident ∨ first.kind = .ellipsis) := by
  cases params with
  | nil =>
      obtain rfl := hne rfl
      have htext : parameterText [] true = ['.', '.', '.'] := rfl
      rw [htext, List.cons_append, List.cons_append, List.singleton_append, Token.lexFrom_ellipsis]
      exact ⟨_, _, rfl, .inr rfl⟩
  | cons p params =>
      -- behind the first parameter there is a comma or the parenthesis
      obtain ⟨more, hmore, htext⟩ : ∃ more, EndsType more ∧
          parameterText (p :: params) variadic ++ ')' :: cs = p.spelling ++ more := by
        by_cases hlast : params = [] → variadic = true
        · rw [parameterText_cons p hlast, List.append_assoc]
          exact ⟨_, endsType_comma _, rfl⟩
        · obtain ⟨rfl, rfl⟩ : params = [] ∧ variadic = false := by simpa using hlast
          rw [parameterText_singleton]
          exact ⟨_, endsType_rparen cs, rfl⟩
      obtain ⟨w, tail, hcut⟩ := exists_lexFrom_spelling (hparams p List.mem_cons_self) hmore g
      exact ⟨_, _, htext ▸ hcut, .inl rfl⟩

/-- A parameter list is read back, if all of it fits. -/
lemma parameters_parameterText (variadic : Bool) (hone : Reads one n) (hlist : NotVoid params)
    (hparams : ∀ p ∈ params, p.Plain NotVoid) (hcs : ∀ c ∈ cs.head?, c ∈ brackets) :
    parameters one (lexFrom [] (parameterText params variadic ++ ')' :: cs)) =
      if parametersNesting params ≤ n then some (.function params variadic, lexFrom [] cs)
      else none := by
  have htail := functionTail_stop hcs [] (lexFrom [] cs).length
  by_cases hne : params = [] → variadic = true
  · have hread := parametersFrom_parameterText hone hparams hne [] cs le_rfl
    obtain ⟨first, ts, hcut, hkind⟩ := exists_lexFrom_parameterText hparams hne [] cs
    have hclose : first.kind ≠ .rparen := by rcases hkind with h | h <;> simp [h]
    -- the list is not the one that stands for no parameters
    have hvoid : isVoidList params = false := hlist
    rw [hcut] at hread ⊢
    by_cases hfits : parametersNesting params ≤ n
    · rw [if_pos hfits] at hread ⊢
      simp only [parameters, hclose, if_false, hread, Option.bind_eq_bind, Option.bind_some, htail,
        hvoid, Bool.false_eq_true]
    · rw [if_neg hfits] at hread ⊢
      simp only [parameters, hclose, if_false, hread, Option.bind_eq_bind, Option.bind_none]
  · obtain ⟨rfl, rfl⟩ : params = [] ∧ variadic = false := by simpa using hne
    have htext : parameterText [] false = [] := rfl
    rw [htext, List.nil_append, Token.lexFrom_rparen]
    simp [parameters, htail, isVoidList, parametersNesting]

/-- A bound is read back, if it is within the limit. -/
lemma arraySuffix_symbol {size : Option ℕ} (h : ∀ k ∈ size, k < Text.limit64) (cs : List Char) :
    ∃ bound, (TypeOp.array size).symbol = '[' :: bound ∧
      arraySuffix (lexFrom [] (bound ++ cs)) = some (.array size, lexFrom [] cs) := by
  cases size with
  | none =>
      refine ⟨[']'], by rw [TypeOp.symbol], ?_⟩
      rw [List.singleton_append, Token.lexFrom_rbracket]
      rfl
  | some k =>
      refine ⟨Nat.toDigits 10 k ++ [']'], by rw [TypeOp.symbol]; rfl, ?_⟩
      rw [List.append_assoc, List.singleton_append, Token.lexFrom_digits, Token.lexFrom_rbracket]
      have hsize : Text.numeral? 10 Text.limit64 (Nat.toDigits 10 k) = some k :=
        Text.numeral?_toDigits (h k rfl)
      simp [arraySuffix, afterBracket, hsize]

/-- The operations behind begin with brackets. -/
lemma head?_flatMap_symbol (hbehind : ∀ op ∈ behind, op.isMark = false) :
    ∀ c ∈ (behind.flatMap TypeOp.symbol).head?, c ∈ brackets := by
  cases behind with
  | nil => simp
  | cons op behind =>
      obtain ⟨c, cs, hsymbol, hc⟩ := exists_symbol_eq_cons op
      rw [hbehind op List.mem_cons_self] at hc
      rw [List.flatMap_cons, hsymbol]
      rintro _ ⟨⟩
      rcases hc with rfl | rfl <;> decide

/-- One operation behind in front of what is not a part of it. -/
lemma exists_suffixes_symbol (hone : Reads one n) (hop : op.isMark = false)
    (hplain : op.Plain NotVoid) (hcs : ∀ c ∈ cs.head?, c ∈ brackets) (g : List Char) :
    ∃ first ts, lexFrom g (op.symbol ++ cs) = first :: ts ∧ (lexFrom [] cs).length ≤ ts.length ∧
      ∀ rounds, suffixes one (rounds + 1) (first :: ts) =
        if op.nesting ≤ n then
          (suffixes one rounds (lexFrom [] cs)).map fun (ops, rest) => (op :: ops, rest)
        else none := by
  cases hplain with
  | pointer quals => simp [TypeOp.isMark] at hop
  | lvalueRef => simp [TypeOp.isMark] at hop
  | rvalueRef => simp [TypeOp.isMark] at hop
  | @array size h =>
      obtain ⟨bound, hsymbol, hread⟩ := arraySuffix_symbol h cs
      rw [hsymbol, List.cons_append, Token.lexFrom_lbracket]
      refine ⟨_, _, rfl, Token.length_lexFrom_le hcs [] bound, fun rounds => ?_⟩
      rw [if_pos (by simp [TypeOp.nesting])]
      cases hmore : suffixes one rounds (lexFrom [] cs) <;> simp [suffixes, hread, hmore]
  | @function params variadic hlist hparams =>
      have hsymbol : (TypeOp.function params variadic).symbol ++ cs =
          '(' :: (parameterText params variadic ++ ')' :: cs) := by
        simp [TypeOp.symbol, parameterText]
      have hread := parameters_parameterText variadic hone hlist hparams hcs
      -- the parameters are tokens too, so that fewer are left behind them
      have hlength := Token.length_lexFrom_le hcs [] (parameterText params variadic ++ [')'])
      rw [List.append_assoc, List.singleton_append] at hlength
      rw [hsymbol, Token.lexFrom_lparen]
      refine ⟨_, _, rfl, hlength, fun rounds => ?_⟩
      rw [TypeOp.nesting]
      by_cases hfits : parametersNesting params ≤ n
      · rw [if_pos hfits] at hread ⊢
        cases hmore : suffixes one rounds (lexFrom [] cs) <;> simp [suffixes, hread, hmore]
      · rw [if_neg hfits] at hread ⊢
        simp [suffixes, hread]

/-- Where a type ends no operation follows. -/
lemma suffixes_stop (hcs : EndsType cs) (g : List Char) (rounds : ℕ) :
    suffixes one rounds (lexFrom g cs) = some ([], lexFrom g cs) := by
  cases rounds with
  | zero => rfl
  | succ rounds =>
      cases cs with
      | nil => simp [suffixes]
      | cons c cs => rcases hcs c rfl with rfl | rfl <;> simp [suffixes]

/-- **The operations behind are read back**, if all their parameters fit. -/
lemma suffixes_flatMap_symbol (hone : Reads one n) (hbehind : ∀ op ∈ behind, op.isMark = false)
    (hplain : ∀ op ∈ behind, op.Plain NotVoid) (hcs : EndsType cs) (hg : behind = [] → g = [])
    (hrounds : (lexFrom g (behind.flatMap TypeOp.symbol ++ cs)).length ≤ rounds) :
    suffixes one rounds (lexFrom g (behind.flatMap TypeOp.symbol ++ cs)) =
      if ∀ op ∈ behind, op.nesting ≤ n then some (behind, lexFrom [] cs) else none := by
  induction behind generalizing g rounds with
  | nil =>
      rw [hg rfl, if_pos (by simp)]
      exact suffixes_stop hcs [] rounds
  | cons op behind ih =>
      obtain ⟨hop, hbehind⟩ := List.forall_mem_cons.mp hbehind
      obtain ⟨hopPlain, hplain⟩ := List.forall_mem_cons.mp hplain
      have hmore := head?_append_mem (head?_flatMap_symbol hbehind) hcs.mem_brackets
      obtain ⟨first, ts, hcut, hlength, hread⟩ := exists_suffixes_symbol hone hop hopPlain hmore g
      rw [List.flatMap_cons, List.append_assoc, hcut] at hrounds ⊢
      obtain ⟨fewer, rfl⟩ : ∃ fewer, rounds = fewer + 1 :=
        ⟨rounds - 1, by rw [List.length_cons] at hrounds; omega⟩
      have hfewer : (lexFrom [] (behind.flatMap TypeOp.symbol ++ cs)).length ≤ fewer := by
        rw [List.length_cons] at hrounds
        omega
      -- each operation takes a round, and there are as many rounds as tokens
      have hrest := ih hbehind hplain (fun _ => rfl) hfewer
      rw [hread, hrest, apply_ite (Option.map _), Option.map_some, Option.map_none, ← ite_and]
      exact if_congr (List.forall_mem_cons (p := fun op => TypeOp.nesting op ≤ n)).symm rfl rfl

end TypeExpr

end UnitIndex
