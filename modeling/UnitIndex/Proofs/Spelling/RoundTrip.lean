import Mathlib.Tactic
import UnitIndex.Proofs.Spelling.Declarators

/-!
Written types, read back.

A declarator is a layer of operations in front, a layer of operations behind, and a declarator
grouped between the two (`exists_layers`), one level further down. Reading and nesting both follow
these layers, so by induction on the levels that are left every type is read as it was written if
its notation nests no further than that (`readsTypes_and_readsDeclarators`). The result for whole
spellings is `parse?_spelling`. It leaves out the lists that the grammar takes for the empty one,
and these are more than the list of one unqualified `void` (`not_forall_parse?_spelling`).

Behind specifiers that no declarator follows, the spelling has to end (`parse?_of_specifiers`).
-/

namespace UnitIndex

open Token (lexFrom)

variable {ops front behind inner : List TypeOp} {cs g : List Char} {n : ℕ}

/-! ### Layers of a declarator -/

/-- A declarator is what is written in front, what is written behind, and what is grouped between
them; this is empty or begins with an operation in front. -/
lemma exists_layers (ops : List TypeOp) :
    ∃ front behind inner, ops = front ++ (behind ++ inner) ∧
      (∀ op ∈ front, op.isMark = true) ∧ (∀ op ∈ behind, op.isMark = false) ∧
      (∀ op ∈ inner.head?, op.isMark = true) ∧ (behind = [] → inner = []) := by
  induction ops with
  | nil => exact ⟨[], [], [], by simp⟩
  | cons op ops ih =>
      obtain ⟨front, behind, inner, rfl, hfront, hbehind, hinner, hempty⟩ := ih
      cases hop : op.isMark with
      | true =>
          exact ⟨op :: front, behind, inner, rfl, List.forall_mem_cons.mpr ⟨hop, hfront⟩, hbehind,
            hinner, hempty⟩
      | false =>
          -- an operation behind joins the others behind, unless some in front come between them
          cases front with
          | nil =>
              exact ⟨[], op :: behind, inner, rfl, hfront, List.forall_mem_cons.mpr ⟨hop, hbehind⟩,
                hinner, fun h => absurd h (List.cons_ne_nil op behind)⟩
          | cons first front =>
              refine ⟨[], [op], first :: front ++ (behind ++ inner), rfl, by simp, by simp [hop],
                ?_, fun h => absurd h (List.cons_ne_nil op [])⟩
              rintro _ ⟨⟩
              exact hfront first List.mem_cons_self

/-- Operations in front do not nest. -/
lemma declaratorNesting_front (hfront : ∀ op ∈ front, op.isMark = true) (ops : List TypeOp) :
    declaratorNesting (front ++ ops) = declaratorNesting ops := by
  induction front with
  | nil => rfl
  | cons op front ih =>
      obtain ⟨hop, hfront⟩ := List.forall_mem_cons.mp hfront
      have hnesting : op.nesting = 0 := by
        cases op with
        | function params variadic => simp [TypeOp.isMark] at hop
        | _ => rw [TypeOp.nesting]; simp
      rw [List.cons_append, declaratorNesting, hnesting, hop, ih hfront]
      simp

/-- The nesting of a declarator by its layers. -/
lemma declaratorNesting_layers_le (hbehind : ∀ op ∈ behind, op.isMark = false)
    (hinner : ∀ op ∈ inner.head?, op.isMark = true) (hempty : behind = [] → inner = []) :
    declaratorNesting (behind ++ inner) ≤ n ↔
      (∀ op ∈ behind, op.nesting ≤ n) ∧ (inner ≠ [] → declaratorNesting inner + 1 ≤ n) := by
  induction behind with
  | nil => simp [hempty rfl, declaratorNesting]
  | cons op behind ih =>
      obtain ⟨hop, hbehind⟩ := List.forall_mem_cons.mp hbehind
      rw [List.cons_append, declaratorNesting, max_le_iff, hop, List.forall_mem_cons, and_assoc]
      refine and_congr_right fun _ => ?_
      cases behind with
      | nil =>
          cases inner with
          | nil => simp [declarator, startsMark, declaratorNesting]
          | cons first inner =>
              -- what is grouped begins with a mark, which is what costs a level
              have hmark : startsMark (declarator (first :: inner)) = true := by
                rw [startsMark_declarator, hinner first rfl]
              simp [hmark]
      | cons op' behind =>
          have hmark : startsMark (declarator (op' :: behind ++ inner)) = false := by
            rw [List.cons_append, startsMark_declarator, hbehind op' List.mem_cons_self]
          rw [hmark]
          exact ih hbehind (by simp)

namespace TypeExpr

/-! ### Levels -/

/-- What reads a type with `n` levels of nesting below its own reads the types that nest no further,
and refuses the others. -/
def ReadsTypes (n : ℕ) : Prop :=
  ∀ t : TypeExpr, t.Plain NotVoid → ∀ g cs, EndsType cs →
    typeWithin (n + 1) (lexFrom g (t.spelling ++ cs)) =
      if t.nesting ≤ n then some (t, lexFrom [] cs) else none

/-- The same for a declarator. -/
def ReadsDeclarators (n : ℕ) : Prop :=
  ∀ ops : List TypeOp, (∀ op ∈ ops, op.Plain NotVoid) → ∀ g cs, EndsType cs →
    (declarator ops = [] → g = []) →
    declaratorWithin (n + 1) (lexFrom g (declarator ops ++ cs)) =
      if declaratorNesting ops ≤ n then some (ops, lexFrom [] cs) else none

/-- A type is its specifiers and a declarator. -/
lemma typeWithin_succ (n : ℕ) (ts : List Token) :
    typeWithin (n + 1) ts =
      (specifiers (decide (n ≠ 0)) ts).bind fun named =>
        (declaratorWithin n named.2).map fun ops => (⟨named.1.1, named.1.2, ops.1⟩, ops.2) := by
  rw [typeWithin]
  simp only [Option.map_eq_bind]
  rfl

/-- A type is read with one level less for its declarator. -/
lemma readsTypes_of (h : ∀ m < n, ReadsDeclarators m) : ReadsTypes n := by
  rintro _ @⟨base, quals, ops, hbase, hops⟩ g cs hcs
  have hspec := specifiers_spelling (b := decide (n ≠ 0)) hbase quals (hcs.endsBase ops) g
  obtain ⟨g', hg', hcut⟩ := lexFrom_apart (declarator ops) cs
  rw [spelling, List.append_assoc, typeWithin_succ, hspec, nesting, hcut, Option.bind_some]
  cases n with
  | zero => rfl
  | succ m =>
      rw [h m (Nat.lt_succ_self m) ops hops g' cs hcs hg']
      by_cases hfits : declaratorNesting ops ≤ m
      · rw [if_pos hfits, if_pos (Nat.succ_le_succ hfits)]
        rfl
      · rw [if_neg hfits, if_neg fun h => hfits (Nat.le_of_succ_le_succ h)]
        rfl

/-- The reader of the parameters of a declarator. -/
def parameterReader : ℕ → Reader TypeExpr
  | 0 => fun _ => none
  | deeper + 1 => typeWithin deeper

/-- Parameters are types with one level less. -/
lemma reads_parameterReader (h : ∀ m < n, ReadsTypes m) : Reads (parameterReader n) n := by
  intro t ht g cs hcs
  match n with
  | 0 => rfl
  | 1 => rfl
  | m + 2 =>
      show typeWithin (m + 1) _ = _
      rw [h m (by omega) t ht g cs hcs]
      exact if_congr (by omega) rfl rfl

/-- What is grouped at the front, if a group begins there. -/
def groupWithin (n : ℕ) : Reader (List TypeOp)
  | [] => some ([], [])
  | first :: inside =>
    if first.kind = .lparen ∧ startsPointer inside then do
      let (nested, rest) ← declaratorWithin n inside
      let close :: rest := rest | none
      guard (close.kind = .rparen)
      some (nested, rest)
    else some ([], first :: inside)

/-- A declarator is what is in front, a group or none, and what is behind. -/
lemma declaratorWithin_succ (n : ℕ) (ts : List Token) :
    declaratorWithin (n + 1) ts =
      (groupWithin n (pointers ts.length ts).2).bind fun inner =>
        (suffixes (parameterReader n) inner.2.length inner.2).map fun behind =>
          ((pointers ts.length ts).1 ++ behind.1.reverse ++ inner.1, behind.2) := by
  rw [declaratorWithin.eq_def]
  dsimp only
  generalize pointers ts.length ts = read
  rcases read with ⟨front, _ | ⟨first, inside⟩⟩
  · simp only [groupWithin, Option.bind_eq_bind, Option.bind_some, List.length_nil,
      List.append_assoc, List.append_nil]
    rfl
  · by_cases hgroup : first.kind = .lparen ∧ startsPointer inside = true
    · rcases hinner : declaratorWithin n inside with _ | ⟨inner, _ | ⟨close, rest⟩⟩
      · simp [groupWithin, hgroup, hinner]
      · simp [groupWithin, hgroup, hinner]
      · by_cases hclose : close.kind = .rparen
        · simp only [groupWithin, hgroup, hinner, hclose, and_self, ↓reduceIte, guard_true,
            List.append_assoc, Option.pure_def, Option.bind_eq_bind, Option.bind_some,
            Option.bind_none]
          cases n <;> exact Option.map_eq_bind.symm
        · simp [groupWithin, hgroup, hinner, hclose]
    · simp only [groupWithin, hgroup, ↓reduceIte, List.length_cons, List.append_assoc,
        List.append_nil, Option.bind_eq_bind, Option.bind_some]
      cases n <;> exact Option.map_eq_bind.symm

/-! ### Types without a declarator -/

/-- The kinds of the tokens that a declarator may begin with. -/
def declaratorKinds : List TokenKind := [.star, .caret, .amp, .ampAmp, .lparen, .lbracket]

/-- Nothing is read as a declarator where none begins. -/
lemma declaratorWithin_of_not_mem {ts : List Token}
    (hts : ∀ t ∈ ts.head?, t.kind ∉ declaratorKinds) (n : ℕ) :
    declaratorWithin (n + 1) ts = some ([], ts) := by
  cases ts with
  | nil => simp [declaratorWithin_succ, pointers, groupWithin, suffixes]
  | cons t ts =>
      have hkind : t.kind ∉ declaratorKinds := hts t rfl
      simp only [declaratorKinds, List.mem_cons, List.not_mem_nil, or_false, not_or] at hkind
      obtain ⟨hstar, hcaret, hamp, hampAmp, hparen, hbracket⟩ := hkind
      -- neither a mark nor a group nor a suffix begins there
      have hpointers (rounds : ℕ) : pointers rounds (t :: ts) = ([], t :: ts) := by
        cases rounds with
        | zero => rfl
        | succ rounds => rw [pointers]; split <;> simp_all
      have hsuffixes (rounds : ℕ) : suffixes (parameterReader n) rounds (t :: ts) =
          some ([], t :: ts) := by
        cases rounds with
        | zero => rfl
        | succ rounds => rw [suffixes]; dsimp only; split <;> simp_all
      simp [declaratorWithin_succ, hpointers, groupWithin, hparen, hsuffixes]

/-- A spelling whose specifiers end where no declarator begins is a type if they end with it. -/
lemma parse?_of_specifiers {spelling : String} {base : TypeBase} {quals : Qualifiers}
    {ts : List Token} (h : specifiers true (Token.lex spelling) = some ((base, quals), ts))
    (hts : ∀ t ∈ ts.head?, t.kind ∉ declaratorKinds) :
    parse? spelling = if ts = [] then some ⟨base, quals, []⟩ else none := by
  have hlevels : decide (maxNesting ≠ 0) = true := by decide
  have hread : typeWithin (maxNesting + 1) (Token.lex spelling) = some (⟨base, quals, []⟩, ts) := by
    rw [typeWithin_succ, hlevels, h, Option.bind_some]
    show (declaratorWithin (63 + 1) ts).map _ = _
    rw [declaratorWithin_of_not_mem hts]
    rfl
  rw [parse?, hread]
  cases ts <;> rfl

/-- What has no specifiers at the front is refused. -/
lemma parse?_eq_none_of_specifiers {spelling : String}
    (h : specifiers true (Token.lex spelling) = none) : parse? spelling = none := by
  have hlevels : decide (maxNesting ≠ 0) = true := by decide
  rw [parse?, typeWithin_succ, hlevels, h]
  rfl

/-- What is read has the specifiers that stand at the front. -/
lemma exists_specifiers_of_parse? {spelling : String} {t : TypeExpr}
    (h : parse? spelling = some t) :
    ∃ ts, specifiers true (Token.lex spelling) = some ((t.base, t.quals), ts) := by
  have hlevels : decide (maxNesting ≠ 0) = true := by decide
  rw [parse?, Option.bind_eq_bind, Option.bind_eq_some_iff] at h
  obtain ⟨⟨type, rest⟩, hread, h⟩ := h
  rw [typeWithin_succ, hlevels, Option.bind_eq_some_iff] at hread
  obtain ⟨⟨named, ts⟩, hspecifiers, hread⟩ := hread
  obtain ⟨ops, -, hout⟩ := Option.map_eq_some_iff.mp hread
  obtain ⟨rfl, -⟩ := Prod.mk.inj hout
  cases hrest : rest.isEmpty <;> simp [hrest] at h
  subst h
  exact ⟨ts, hspecifiers⟩

/-! ### Groups -/

/-- A declarator that begins with a mark is not taken for a parameter list. -/
lemma startsPointer_declarator {op : TypeOp} (hop : op.isMark = true) (ops : List TypeOp)
    (cs : List Char) : startsPointer (lexFrom [] (declarator (op :: ops) ++ cs)) = true := by
  obtain ⟨c, ds, hsymbol, hc⟩ := exists_symbol_eq_cons op
  rw [hop, if_pos rfl] at hc
  rw [declarator_of_isMark hop, hsymbol]
  rcases hc with rfl | rfl
  · simp [startsPointer]
  · set rest := ds ++ apart (declarator ops) ++ cs with hrest
    show startsPointer (lexFrom [] ('&' :: rest)) = true
    by_cases hamp : rest.head? = some '&'
    · obtain ⟨more, hmore⟩ : ∃ more, rest = '&' :: more := List.head?_eq_some_iff.mp hamp
      simp [hmore, startsPointer]
    · rw [Token.lexFrom_amp fun c hc h => hamp (h ▸ hc)]
      simp [startsPointer]

/-- What is grouped is read back. -/
lemma groupWithin_grouped (h : ∀ m < n, ReadsDeclarators m) {op : TypeOp} (hop : op.isMark = true)
    (hplain : ∀ op' ∈ op :: ops, op'.Plain NotVoid) (g cs : List Char) :
    groupWithin n (lexFrom g (grouped (declarator (op :: ops)) ++ cs)) =
      if declaratorNesting (op :: ops) + 1 ≤ n then some (op :: ops, lexFrom [] cs) else none := by
  have hmark : startsMark (declarator (op :: ops)) = true := by rw [startsMark_declarator, hop]
  have hstart := startsPointer_declarator hop ops (')' :: cs)
  rw [grouped, if_pos hmark, List.append_assoc, List.singleton_append, List.cons_append,
    Token.lexFrom_lparen]
  cases n with
  | zero => simp [groupWithin, hstart, declaratorWithin]
  | succ m =>
      have hread := h m (Nat.lt_succ_self m) (op :: ops) hplain [] (')' :: cs) (endsType_rparen cs)
        fun _ => rfl
      rw [Token.lexFrom_rparen] at hread
      by_cases hfits : declaratorNesting (op :: ops) ≤ m
      · rw [if_pos hfits] at hread
        simp [groupWithin, hstart, hread, hfits]
      · rw [if_neg hfits] at hread
        simp [groupWithin, hstart, hread, hfits]

/-- A bound or a parameter list is not taken for a group. -/
lemma groupWithin_behind (hbehind : ∀ op ∈ behind, op.isMark = false)
    (hplain : ∀ op ∈ behind, op.Plain NotVoid) (hcs : EndsType cs) (g : List Char) :
    groupWithin n (lexFrom g (behind.flatMap TypeOp.symbol ++ cs)) =
      some ([], lexFrom g (behind.flatMap TypeOp.symbol ++ cs)) := by
  cases behind with
  | nil =>
      cases cs with
      | nil => simp [groupWithin]
      | cons c cs => rcases hcs c rfl with rfl | rfl <;> simp [groupWithin]
  | cons op behind =>
      have hop := hbehind op List.mem_cons_self
      cases hplain op List.mem_cons_self with
      | pointer quals => simp [TypeOp.isMark] at hop
      | lvalueRef => simp [TypeOp.isMark] at hop
      | rvalueRef => simp [TypeOp.isMark] at hop
      | @array size h =>
          obtain ⟨bound, hsymbol, -⟩ := arraySuffix_symbol h cs
          rw [List.flatMap_cons, hsymbol]
          simp [groupWithin]
      | @function params variadic hlist hparams =>
          have htext : (TypeOp.function params variadic :: behind).flatMap TypeOp.symbol ++ cs =
              '(' :: (parameterText params variadic ++
                ')' :: (behind.flatMap TypeOp.symbol ++ cs)) := by
            simp [TypeOp.symbol, parameterText]
          rw [htext, Token.lexFrom_lparen]
          generalize behind.flatMap TypeOp.symbol ++ cs = rest
          -- a list of parameters begins with a word or an ellipsis, or is closed at once
          have hstart : startsPointer (lexFrom [] (parameterText params variadic ++ ')' :: rest)) =
              false := by
            by_cases hne : params = [] → variadic = true
            · obtain ⟨first, ts, hcut, hkind⟩ := exists_lexFrom_parameterText hparams hne [] rest
              rw [hcut]
              rcases hkind with h | h <;> simp [startsPointer, h]
            · obtain ⟨rfl, rfl⟩ : params = [] ∧ variadic = false := by simpa using hne
              have htext : parameterText [] false = [] := rfl
              simp [htext, startsPointer]
          simp [groupWithin, hstart]

/-- The operations behind a group stand in reverse. -/
lemma map_suffixes_reverse {one : Reader TypeExpr} (hone : Reads one n)
    (hbehind : ∀ op ∈ behind, op.isMark = false) (hplain : ∀ op ∈ behind, op.Plain NotVoid)
    (hcs : EndsType cs) (hg : behind = [] → g = []) (front inner : List TypeOp) {ts : List Token}
    (hts : lexFrom g (behind.reverse.flatMap TypeOp.symbol ++ cs) = ts) :
    ((suffixes one ts.length ts).map fun read => (front ++ read.1.reverse ++ inner, read.2)) =
      if ∀ op ∈ behind, op.nesting ≤ n then some (front ++ (behind ++ inner), lexFrom [] cs)
      else none := by
  have hreverse {p : TypeOp → Prop} (h : ∀ op ∈ behind, p op) : ∀ op ∈ behind.reverse, p op :=
    fun op hop => h op (List.mem_reverse.mp hop)
  rw [← hts, suffixes_flatMap_symbol hone (hreverse hbehind) (hreverse hplain) hcs
    (fun h => hg (List.reverse_eq_nil_iff.mp h)) le_rfl, apply_ite (Option.map _)]
  exact if_congr (by simp) (by simp) rfl

/-- A declarator is read with one level less for what is grouped, and with two less for
parameters. -/
lemma readsDeclarators_of (hdeclarators : ∀ m < n, ReadsDeclarators m)
    (htypes : ∀ m < n, ReadsTypes m) : ReadsDeclarators n := by
  intro ops hops g cs hcs hg
  obtain ⟨front, behind, inner, rfl, hfront, hbehind, hinner, hempty⟩ := exists_layers ops
  simp only [List.forall_mem_append] at hops
  obtain ⟨-, hbehindPlain, hinnerPlain⟩ := hops
  have hone := reads_parameterReader htypes
  have hhead : ∀ op ∈ (behind ++ inner).head?, op.isMark = false := by
    cases behind with
    | nil => simp [hempty rfl]
    | cons op behind =>
        rintro _ ⟨⟩
        exact hbehind op List.mem_cons_self
  obtain ⟨g', hg', hpointers⟩ := pointers_declarator hfront hhead hcs hg le_rfl
  have hreverse {p : TypeOp → Prop} (h : ∀ op ∈ behind, p op) : ∀ op ∈ behind.reverse, p op :=
    fun op hop => h op (List.mem_reverse.mp hop)
  rw [declaratorWithin_succ, hpointers, declaratorNesting_front hfront,
    declarator_append hbehind hempty]
  have hnesting := declaratorNesting_layers_le (n := n) hbehind hinner hempty
  cases inner with
  | nil =>
      have hnone : declarator [] = [] := by rw [declarator]
      have hgrouped : grouped [] = [] := rfl
      have hg' : behind = [] → g' = [] := fun h => hg' (by rw [h]; exact hnone)
      rw [hnone, hgrouped, List.nil_append,
        groupWithin_behind (hreverse hbehind) (hreverse hbehindPlain) hcs, Option.bind_some,
        map_suffixes_reverse hone hbehind hbehindPlain hcs hg' front [] rfl]
      exact if_congr (by rw [hnesting]; simp) rfl rfl
  | cons op inner =>
      rw [List.append_assoc, groupWithin_grouped hdeclarators (hinner op rfl) hinnerPlain]
      -- a group that nests too far is refused, whatever is behind it
      by_cases hgroup : declaratorNesting (op :: inner) + 1 ≤ n
      · rw [if_pos hgroup, Option.bind_some,
          map_suffixes_reverse hone hbehind hbehindPlain hcs (fun _ => rfl) front (op :: inner) rfl]
        exact if_congr (by rw [hnesting]; simp [hgroup]) rfl rfl
      · rw [if_neg hgroup, if_neg fun h => hgroup ((hnesting.mp h).2 (List.cons_ne_nil op inner))]
        rfl

/-- By induction on the levels, whole types and whole declarators are read back. -/
lemma readsTypes_and_readsDeclarators (n : ℕ) : ReadsTypes n ∧ ReadsDeclarators n := by
  induction n using Nat.strong_induction_on with
  | _ n ih =>
      have hdeclarators : ∀ m < n, ReadsDeclarators m := fun m hm => (ih m hm).2
      exact ⟨readsTypes_of hdeclarators,
        readsDeclarators_of hdeclarators fun m hm => (ih m hm).1⟩

/-- **A plain type is read back as it was written**, if its notation nests no further than is
allowed; it is refused otherwise. -/
theorem parse?_spelling (t : TypeExpr) (ht : t.Plain NotVoid) :
    parse? (String.ofList t.spelling) = if t.nesting ≤ maxNesting then some t else none := by
  have hread := (readsTypes_and_readsDeclarators maxNesting).1 t ht [] [] (by simp [EndsType])
  rw [List.append_nil, Token.lexFrom_nil] at hread
  rw [parse?, Token.lex, String.toList_ofList, hread]
  by_cases hfits : t.nesting ≤ maxNesting
  · rw [if_pos hfits, if_pos hfits]
    rfl
  · rw [if_neg hfits, if_neg hfits]
    rfl

/-- A pointer to a function that returns an array of pointers. -/
def callback : TypeExpr :=
  ⟨.builtin "unsigned long", { isConst := true },
    [.pointer { isConst := true }, .array (some 3),
      .function [⟨.named (some .struct) [⟨"ns", none⟩, ⟨"Node", none⟩], {}, [.lvalueRef]⟩,
        ⟨.builtin "void", {}, [.pointer {}]⟩] true,
      .pointer {}]⟩

/-- A pointer to a function that returns an array, among others. -/
theorem parse?_spelling_callback :
    callback.Plain NotVoid ∧
      parse? "const unsigned long *const (*)(struct ns::Node &, void *, ...)[3]" =
        some callback := by
  have hplain : callback.Plain NotVoid := by
    refine .intro (.builtin ["unsigned", "long"] (by decide) (by decide)) ?_
    simp only [List.forall_mem_cons, List.not_mem_nil, false_implies, implies_true, and_true]
    refine ⟨.pointer _, .array (by decide), .function rfl ?_, .pointer _⟩
    simp only [List.forall_mem_cons, List.not_mem_nil, false_implies, implies_true, and_true]
    refine ⟨.intro (.named (by decide) ?_) ?_, .intro (.builtin ["void"] ?_ ?_) ?_⟩
    · simp only [List.forall_mem_cons, List.not_mem_nil, false_implies, implies_true, and_true]
      exact ⟨⟨by decide, by decide, rfl⟩, ⟨by decide, by decide, rfl⟩⟩
    · simpa using TypeOp.Plain.lvalueRef
    · decide
    · decide
    · simpa using TypeOp.Plain.pointer {}
  have htext : String.ofList callback.spelling =
      "const unsigned long *const (*)(struct ns::Node &, void *, ...)[3]" := by decide
  have hfits : callback.nesting ≤ maxNesting := by decide
  refine ⟨hplain, ?_⟩
  rw [← htext, parse?_spelling callback hplain, if_pos hfits]

/-- `int (const void)`. -/
def constVoid : TypeExpr :=
  ⟨.builtin "int", {}, [.function [⟨.builtin "void", { isConst := true }, []⟩] false]⟩

/-- **Leaving out the unqualified `void` is not enough.** A list of one qualified `void` is taken
for the empty list as well. -/
theorem not_forall_parse?_spelling :
    ¬∀ t : TypeExpr, t.Plain (· ≠ [⟨.builtin "void", {}, []⟩]) → t.nesting ≤ maxNesting →
      parse? (String.ofList t.spelling) = some t := by
  intro h
  have htext : constVoid.spelling =
      "int".toList ++ ' ' :: '(' :: ("const".toList ++ ' ' :: ("void".toList ++ [')'])) := by decide
  have hlex : lexFrom [] constVoid.spelling =
      [⟨[], .ident, "int".toList⟩, ⟨[' '], .lparen, ['(']⟩, ⟨[], .ident, "const".toList⟩,
        ⟨[' '], .ident, "void".toList⟩, ⟨[], .rparen, [')']⟩] := by
    have hrparen : Token.LeavesWord [')'] := Token.LeavesWord.cons (by decide) (by decide) []
    rw [htext, Token.lexFrom_word (by decide) (Token.leavesWord_space _), Token.lexFrom_space,
      Token.lexFrom_lparen, Token.lexFrom_word (by decide) (Token.leavesWord_space _),
      Token.lexFrom_space, Token.lexFrom_word (by decide) hrparen, Token.lexFrom_rparen,
      Token.lexFrom_nil]
    rfl
  have hparse : parse? (String.ofList constVoid.spelling) =
      some ⟨.builtin "int", {}, [.function [] false]⟩ := by
    rw [parse?, Token.lex, String.toList_ofList, hlex]
    rfl
  -- the qualified void is not the one that was left out
  have hplain : constVoid.Plain (· ≠ [⟨.builtin "void", {}, []⟩]) := by
    refine .intro (.builtin ["int"] (by decide) (by decide)) ?_
    simp only [List.forall_mem_cons, List.not_mem_nil, false_implies, implies_true, and_true]
    refine .function (by simp) ?_
    simp only [List.forall_mem_cons, List.not_mem_nil, false_implies, implies_true, and_true]
    exact .intro (.builtin ["void"] (by decide) (by decide)) (by simp)
  have hread := h constVoid hplain (by decide)
  rw [hparse, constVoid] at hread
  simp at hread

end TypeExpr

end UnitIndex
