import Mathlib.Tactic
import UnitIndex.Text.Numeral

/-!
Decimal numerals as they are written.

A number is written with the digits of `Nat.toDigits 10`. Characters of one class are found again in
front of a text that does not go on with another of them (`takeWhile_append_stop`,
`dropWhile_append_stop`), and the digits are read as the number that was written, if that is below
the limit (`numeral?_toDigits`).
-/

namespace UnitIndex.Text

/-- Whether the text does not begin with a digit. -/
def LeavesDigits (cs : List Char) : Prop := ∀ c ∈ cs.head?, c.isDigit = false

variable {n limit acc : ℕ} {ds rest : List Char}

/-- A number is written with digits. -/
lemma isDigit_of_mem_toDigits {c : Char} (h : c ∈ Nat.toDigits 10 n) : c.isDigit = true :=
  Nat.isDigit_of_mem_toDigits (by omega) le_rfl h

/-- A numeral begins with a digit. -/
lemma exists_toDigits_eq_cons (n : ℕ) :
    ∃ d ds, Nat.toDigits 10 n = d :: ds ∧ d.isDigit = true := by
  obtain ⟨d, ds, hn⟩ := List.exists_cons_of_ne_nil (Nat.toDigits_ne_nil (n := n) (b := 10))
  exact ⟨d, ds, hn, isDigit_of_mem_toDigits (n := n) (hn ▸ List.mem_cons_self)⟩

/-- No number but zero is written with a zero in front. -/
lemma toDigits_eq_zero_cons (h : Nat.toDigits 10 n = '0' :: ds) : ds = [] := by
  induction n using Nat.strong_induction_on generalizing ds with
  | _ n ih =>
      by_cases hn : n < 10
      · rw [Nat.toDigits_of_lt_base hn] at h
        exact (List.cons.inj h).2.symm
      · rw [Nat.toDigits_of_base_le (by omega) (by omega)] at h
        cases hq : Nat.toDigits 10 (n / 10) with
        | nil => exact absurd hq Nat.toDigits_ne_nil
        | cons d ds' =>
            rw [hq] at h
            obtain ⟨rfl, -⟩ := List.cons.inj h
            obtain rfl := ih (n / 10) (by omega) hq
            -- the digits in front of the last one are a zero alone, so they are the number zero
            have hvalue := Nat.ofDigitChars_ten_toDigits (n := n / 10)
            rw [hq] at hvalue
            have hzero : n / 10 = 0 := hvalue.symm
            omega

/-! ### A class of characters in front of a text -/

section

variable {p : Char → Bool} {cs : List Char}

/-- Characters of a class end where something else follows. -/
lemma takeWhile_append_stop (hcs : ∀ c ∈ cs, p c = true) (hrest : ∀ c ∈ rest.head?, p c = false) :
    (cs ++ rest).takeWhile p = cs := by
  rw [List.takeWhile_append_of_pos hcs]
  cases rest with
  | nil => rw [List.takeWhile_nil, List.append_nil]
  | cons c cs =>
      have hc : ¬p c = true := by simp [hrest c rfl]
      rw [List.takeWhile_cons_of_neg hc, List.append_nil]

lemma dropWhile_append_stop (hcs : ∀ c ∈ cs, p c = true) (hrest : ∀ c ∈ rest.head?, p c = false) :
    (cs ++ rest).dropWhile p = rest := by
  rw [List.dropWhile_append_of_pos hcs]
  cases rest with
  | nil => rfl
  | cons c cs =>
      have hc : ¬p c = true := by simp [hrest c rfl]
      rw [List.dropWhile_cons_of_neg hc]

end

/-! ### Their value -/

/-- The value of a decimal digit. -/
lemma digitValue?_of_isDigit {c : Char} (h : c.isDigit = true) :
    digitValue? 10 c = some (c.toNat - '0'.toNat) := by
  have hlt : c.toNat - 48 < 10 := by
    have h9 : c.val ≤ '9'.val := by
      simp only [Char.isDigit, Bool.and_eq_true, decide_eq_true_eq] at h
      exact h.2
    have hle : c.toNat ≤ 57 := UInt32.le_iff_toNat_le.mp h9
    omega
  simp [digitValue?, h, hlt]

/-- The value of some decimal digits. -/
lemma digitsValue?_of_isDigit (hds : ∀ c ∈ ds, c.isDigit = true) (acc : ℕ) :
    digitsValue? 10 acc ds = some (Nat.ofDigitChars 10 ds acc) := by
  induction ds generalizing acc with
  | nil => rfl
  | cons c ds ih =>
      obtain ⟨hc, hds⟩ := List.forall_mem_cons.mp hds
      rw [digitsValue?, digitValue?_of_isDigit hc, Nat.ofDigitChars_cons, Nat.mul_comm 10 acc]
      exact ih hds _

/-- Digits that go on from a number never make it smaller. -/
lemma le_ofDigitChars (acc : ℕ) (ds : List Char) : acc ≤ Nat.ofDigitChars 10 ds acc := by
  rw [Nat.ofDigitChars_eq_ofDigitChars_zero]
  have hone : 1 ≤ 10 ^ ds.length := Nat.one_le_pow _ _ (by omega)
  calc acc = 1 * acc := (one_mul acc).symm
    _ ≤ 10 ^ ds.length * acc := Nat.mul_le_mul_right acc hone
    _ ≤ 10 ^ ds.length * acc + Nat.ofDigitChars 10 ds 0 := Nat.le_add_right _ _

/-- A number below the limit is read back from its digits. -/
lemma digits?_toDigits (h : n < limit) : digits? 10 limit (Nat.toDigits 10 n) = some n := by
  have hne : (Nat.toDigits 10 n).isEmpty = false := by simp [Nat.toDigits_ne_nil]
  rw [digits?, hne, digitsValue?_of_isDigit fun c => isDigit_of_mem_toDigits,
    Nat.ofDigitChars_ten_toDigits]
  simp [h]

/-- **A number is read as it was written.** -/
lemma numeral?_toDigits (h : n < limit) : numeral? 10 limit (Nat.toDigits 10 n) = some n := by
  rw [numeral?]
  · exact digits?_toDigits h
  · intro rest heq
    obtain ⟨d, ds, hn, hd⟩ := exists_toDigits_eq_cons n
    rw [hn] at heq
    obtain ⟨rfl, -⟩ := List.cons.inj heq
    exact absurd hd (by decide)

end UnitIndex.Text
