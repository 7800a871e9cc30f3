import Mathlib.Tactic

/-!
# Growth

An amount that grows again and again by a fixed share of itself, rounded down,
does not exceed what compound interest makes of it.
-/

namespace StellarCore.Lib

/-- The share `num / den` of an amount is added to it. -/
def grow (num den amount : ℤ) : ℤ :=
  amount + amount * num / den

variable {num den : ℤ}

theorem grow_mono (share : 0 ≤ num) (positive : 0 < den) :
    Monotone (grow num den) := by
  intro less more ordered
  have product : less * num ≤ more * num :=
    mul_le_mul_of_nonneg_right ordered share
  exact add_le_add ordered (Int.ediv_le_ediv positive product)

theorem le_grow (share : 0 ≤ num) (positive : 0 < den) {amount : ℤ}
    (nonneg : 0 ≤ amount) : amount ≤ grow num den amount := by
  have added : 0 ≤ amount * num / den :=
    Int.ediv_nonneg (mul_nonneg nonneg share) positive.le
  unfold grow
  omega

theorem iterate_grow_nonneg (share : 0 ≤ num) (positive : 0 < den)
    {amount : ℤ} (nonneg : 0 ≤ amount) (k : ℕ) :
    0 ≤ (grow num den)^[k] amount := by
  induction k with
  | zero => exact nonneg
  | succ k ih =>
      rw [Function.iterate_succ_apply']
      exact ih.trans (le_grow share positive ih)

theorem iterate_grow_mono (share : 0 ≤ num) (positive : 0 < den)
    {amount : ℤ} (nonneg : 0 ≤ amount) :
    Monotone (fun k => (grow num den)^[k] amount) := by
  apply monotone_nat_of_le_succ
  intro k
  rw [Function.iterate_succ_apply']
  exact le_grow share positive
    (iterate_grow_nonneg share positive nonneg k)

/-- Rounding down only makes the amount smaller. -/
theorem iterate_grow_mul_le (share : 0 ≤ num) (positive : 0 < den)
    (amount : ℤ) (k : ℕ) :
    (grow num den)^[k] amount * den ^ k ≤ amount * (den + num) ^ k := by
  induction k with
  | zero => simp
  | succ k ih =>
      rw [Function.iterate_succ_apply']
      generalize (grow num den)^[k] amount = grown at ih ⊢
      have rounded : grown * num / den * den ≤ grown * num :=
        Int.ediv_mul_le _ positive.ne'
      have step : grow num den grown * den ≤ grown * (den + num) := by
        unfold grow
        linarith
      calc
        grow num den grown * den ^ (k + 1) =
            grow num den grown * den * den ^ k := by ring
        _ ≤ grown * (den + num) * den ^ k :=
          mul_le_mul_of_nonneg_right step (by positivity)
        _ = grown * den ^ k * (den + num) := by ring
        _ ≤ amount * (den + num) ^ k * (den + num) :=
          mul_le_mul_of_nonneg_right ih (by omega)
        _ = amount * (den + num) ^ (k + 1) := by ring

theorem iterate_grow_le (share : 0 ≤ num) (positive : 0 < den)
    {amount limit : ℤ} {k : ℕ}
    (interest : amount * (den + num) ^ k ≤ limit * den ^ k) :
    (grow num den)^[k] amount ≤ limit := by
  have product :=
    (iterate_grow_mul_le share positive amount k).trans interest
  exact le_of_mul_le_mul_right product (by positivity)

end StellarCore.Lib
