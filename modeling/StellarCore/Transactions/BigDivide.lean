import Mathlib.Algebra.Order.Floor.Semifield
import Mathlib.Data.Rat.Floor
import StellarCore.Transactions.Exchange

/-!
# Division of wide products

The three versions of `bigDivide` on every argument of their types.  The
product of two 64-bit integers leaves room for the divisor that is added to
round up, so no addition of the wide integers overflows.
-/

namespace StellarCore.Transactions

open StellarCore.Lib

/-- The quotient that the rounding asks for, of the product of `a` and `b`
as it is in the rational numbers. -/
def Rounding.quotient (rounding : Rounding) (a b c : ℕ) : ℕ :=
  match rounding with
  | .roundDown => ⌊(a * b : ℚ) / c⌋₊
  | .roundUp => ⌈(a * b : ℚ) / c⌉₊

theorem ceil_div_eq {x c : ℕ} (positive : 0 < c) :
    ⌈(x : ℚ) / c⌉₊ = (x + c - 1) / c := by
  have divisor : (0 : ℚ) < c := by exact_mod_cast positive
  apply eq_of_forall_ge_iff
  intro k
  calc
    ⌈(x : ℚ) / c⌉₊ ≤ k ↔ x ≤ k * c := by
      rw [Nat.ceil_le, div_le_iff₀ divisor]
      exact_mod_cast Iff.rfl
    _ ↔ x + c - 1 < (k + 1) * c := by
      rw [add_mul, one_mul]
      omega
    _ ↔ (x + c - 1) / c ≤ k := by
      rw [← Nat.div_lt_iff_lt_mul positive, Nat.lt_succ_iff]

theorem product_fits {a b c : ℕ} (left : a < 2 ^ 64) (right : b < 2 ^ 64)
    (divisor : c < 2 ^ 64) : a * b + c ≤ 2 ^ 128 := by
  have product : a * b ≤ (2 ^ 64 - 1) * (2 ^ 64 - 1) := by
    apply Nat.mul_le_mul
    · omega
    · omega
  omega

theorem divide128_quotient {a b c : ℕ} (rounding : Rounding)
    (positive : 0 < c) (small : a * b + c ≤ 2 ^ 128) :
    rounding.divide128 a b c = rounding.quotient a b c := by
  unfold Rounding.divide128 Rounding.quotient
  cases rounding with
  | roundDown =>
      have fits : a * b < 2 ^ 128 := by omega
      simp only [Nat.mod_eq_of_lt fits]
      rw [← Nat.cast_mul, Nat.floor_div_eq_div]
  | roundUp =>
      have fits : a * b + c - 1 < 2 ^ 128 := by omega
      simp only [Nat.mod_eq_of_lt fits]
      rw [← Nat.cast_mul, ceil_div_eq positive]

theorem bigDivideUnsigned_eq {a b c : ℕ} (rounding : Rounding)
    (positive : 0 < c) (small : a * b + c ≤ 2 ^ 128) :
    bigDivideUnsigned a b c rounding =
      (rounding.quotient a b c % 2 ^ 64,
        decide (rounding.quotient a b c < 2 ^ 64)) := by
  have bound (x : ℕ) : x ≤ 2 ^ 64 - 1 ↔ x < 2 ^ 64 := by omega
  unfold bigDivideUnsigned
  simp only [divide128_quotient rounding positive small, bound]

theorem bigDivide?_quotient {a b c : ℕ} (rounding : Rounding)
    (positive : 0 < c) (small : a * b + c ≤ 2 ^ 128) :
    bigDivide? a b c rounding =
      .ok (if (rounding.quotient a b c : ℤ) ≤ int64Max then
        some (rounding.quotient a b c : ℤ)
      else none) := by
  have checked : 0 ≤ (a : ℤ) ∧ 0 ≤ (b : ℤ) ∧ 0 < (c : ℤ) := by omega
  rw [← divide128_quotient rounding positive small]
  unfold bigDivide? bigDivideUnsigned
  rw [if_pos checked]
  simp only [Int.toNat_natCast]
  exact congrArg Except.ok (signed_quotient _)

/-- All three versions: the unsigned one computes the exact quotient and
says whether it is a 64-bit integer, the signed ones succeed if and only if
it is a signed one. -/
theorem bigDivide_exact (rounding : Rounding) (a b c : ℕ)
    (left : a < 2 ^ 64) (right : b < 2 ^ 64)
    (divisor : 0 < c ∧ c < 2 ^ 64) :
    a * b + c - 1 < 2 ^ 128 ∧
    ((bigDivideUnsigned a b c rounding).2 = true ↔
      rounding.quotient a b c < 2 ^ 64) ∧
    ((bigDivideUnsigned a b c rounding).2 = true →
      (bigDivideUnsigned a b c rounding).1 = rounding.quotient a b c) ∧
    ((a : ℤ) ≤ int64Max → (b : ℤ) ≤ int64Max → (c : ℤ) ≤ int64Max →
      bigDivide? a b c rounding =
        .ok (if (rounding.quotient a b c : ℤ) ≤ int64Max then
          some (rounding.quotient a b c : ℤ)
        else none) ∧
      bigDivide a b c rounding =
        if (rounding.quotient a b c : ℤ) ≤ int64Max then
          .ok (rounding.quotient a b c : ℤ)
        else
          .error (.runtimeError "overflow while performing bigDivide")) := by
  have small := product_fits left right divisor.2
  have computed := bigDivideUnsigned_eq rounding divisor.1 small
  refine ⟨by omega, ?_, ?_, ?_⟩
  · simp only [computed, decide_eq_true_eq]
  · intro fits
    simp only [computed, decide_eq_true_eq] at fits ⊢
    exact Nat.mod_eq_of_lt fits
  · intro _ _ _
    have signed := bigDivide?_quotient rounding divisor.1 small
    refine ⟨signed, ?_⟩
    unfold bigDivide
    rw [signed]
    split
    · rfl
    · rfl

theorem bigDivide_exact_largest :
    (2 ^ 64 - 1) * (2 ^ 64 - 1) + (2 ^ 64 - 1) - 1 < 2 ^ 128 ∧
      bigDivide ((2 ^ 63 - 1 : ℕ) : ℤ) ((2 ^ 63 - 1 : ℕ) : ℤ)
          ((2 ^ 63 - 1 : ℕ) : ℤ) .roundUp =
        .ok ((2 ^ 63 - 1 : ℕ) : ℤ) := by
  have signed := bigDivide_exact .roundUp (2 ^ 63 - 1) (2 ^ 63 - 1)
    (2 ^ 63 - 1) (by omega) (by omega) (by omega)
  have unsigned := bigDivide_exact .roundDown (2 ^ 64 - 1) (2 ^ 64 - 1)
    (2 ^ 64 - 1) (by omega) (by omega) (by omega)
  have quotient : Rounding.roundUp.quotient (2 ^ 63 - 1) (2 ^ 63 - 1)
      (2 ^ 63 - 1) = 2 ^ 63 - 1 := by
    unfold Rounding.quotient
    norm_num
  have most : ((2 ^ 63 - 1 : ℕ) : ℤ) ≤ int64Max := by decide
  refine ⟨unsigned.1, ?_⟩
  rw [(signed.2.2.2 most most most).2, quotient, if_pos most]

end StellarCore.Transactions
