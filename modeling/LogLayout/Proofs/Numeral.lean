import Mathlib.Algebra.Group.Int.Defs
import Mathlib.Algebra.Group.Nat.Defs
import LogLayout.Numeral

/-!
# The digits of a number

The numeral of a number is a row of decimal digits, and it begins with a zero only if it is zero. It
is as long as the power of ten that bounds the number says, so the numbers that are too long to be
written are those from a power of ten on.
-/

namespace LogLayout.Numeral

/-- An integer whose numeral is short enough to be written. -/
def Writable (n : Int) : Prop := n.natAbs < 10 ^ digitLimit

/-- The least number that has one digit too many. -/
theorem not_writable_limit : ¬ Writable (10 ^ digitLimit) := by
  have power (k : Nat) : ((10 : Int) ^ k).natAbs = 10 ^ k := Int.natAbs_pow 10 k
  rw [Writable, power]
  exact Nat.lt_irrefl _

theorem isDigit_digit (n : Nat) : (digit n).isDigit = true := by
  have below : ∀ d, d < 10 → (Char.ofNat (48 + d)).isDigit = true := by decide
  exact below _ (Nat.mod_lt _ (by omega))

theorem isDigit_of_mem_digits {n : Nat} {c : Char} (h : c ∈ digits n) : c.isDigit = true := by
  fun_induction digits n with
  | case1 n =>
      obtain rfl := List.mem_singleton.mp h
      exact isDigit_digit n
  | case2 n _ ih =>
      rcases List.mem_append.mp h with h | h
      · exact ih h
      · obtain rfl := List.mem_singleton.mp h
        exact isDigit_digit n

/-- A row of digits begins with one. -/
theorem exists_digits_eq_cons (n : Nat) : ∃ d ds, digits n = d :: ds ∧ d.isDigit = true := by
  obtain ⟨d, ds, hd⟩ := List.exists_cons_of_ne_nil (digits_ne_nil n)
  exact ⟨d, ds, hd, isDigit_of_mem_digits (hd ▸ List.mem_cons_self)⟩

theorem head?_digits_ne_zero {n : Nat} (h : n ≠ 0) : (digits n).head? ≠ some '0' := by
  fun_induction digits n with
  | case1 n small =>
      have nonzero : ∀ d, d < 10 → d ≠ 0 → digit d ≠ '0' := by decide
      simpa using nonzero n small h
  | case2 n large ih =>
      obtain ⟨d, ds, hd⟩ := List.exists_cons_of_ne_nil (digits_ne_nil (n / 10))
      rw [hd] at ih ⊢
      exact ih (by omega)

/-- A number of a certain count of digits at most lies below that power of ten. -/
theorem length_digits_le_iff {n k : Nat} (pos : 0 < k) :
    (digits n).length ≤ k ↔ n < 10 ^ k := by
  fun_induction digits n generalizing k with
  | case1 n small =>
      have ten : 10 ^ 1 ≤ 10 ^ k := Nat.pow_le_pow_right (by omega) pos
      simp only [List.length_singleton]
      omega
  | case2 n large ih =>
      rw [List.length_append, List.length_singleton]
      obtain ⟨k, rfl⟩ : ∃ j, k = j + 1 := ⟨k - 1, by omega⟩
      by_cases one : k = 0
      · subst one
        have some := List.length_pos_iff.mpr (digits_ne_nil (n / 10))
        omega
      · rw [Nat.add_le_add_iff_right, ih (by omega), Nat.div_lt_iff_lt_mul (by omega), Nat.pow_succ]

/-- Zeros in front of a row of digits do not count. -/
theorem ofDigits_replicate_zero_append (k : Nat) (ds : List Char) :
    ofDigits (List.replicate k '0' ++ ds) = ofDigits ds := by
  induction k with
  | zero => rfl
  | succ k ih => exact ih

/-- An integer is written exactly when its numeral is short enough. -/
theorem exists_write_eq_ok_iff {n : Int} : (∃ s, write n = .ok s) ↔ Writable n := by
  rw [Writable, ← length_digits_le_iff (by decide), write]
  split
  · next long => simpa using long
  · next short => simpa using Nat.not_lt.mp short

end LogLayout.Numeral
