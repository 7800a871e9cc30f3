import Mathlib.Tactic
import Mathlib.Data.Int.Log

/-!
# Quotients in double precision

The quotient of two natural numbers below `2 ^ 53`, rounded to 53 bits with
ties to even.  It is not a number if both are zero, and then compares as
false with everything; the other quotients are in a linear order.
-/

namespace StellarCore.Lib

inductive Double where
  | nan
  | finite (value : ℚ)
  | inf
  deriving DecidableEq

namespace Double

def roundHalfEven (x : ℚ) : ℤ :=
  let below := ⌊x⌋
  let rest := x - below
  if rest < 1 / 2 then below
  else if 1 / 2 < rest then below + 1
  else if below % 2 = 0 then below
  else below + 1

/-- The nearest number with 53 binary digits. -/
def round (x : ℚ) : ℚ :=
  let unit := (2 : ℚ) ^ (Int.log 2 x - 52)
  roundHalfEven (x / unit) * unit

def div (n d : ℕ) : Double :=
  if d = 0 then
    if n = 0 then nan else inf
  else
    finite (round (n / d))

/-- `operator==`. -/
def eq : Double → Double → Bool
  | nan, _ => false
  | _, nan => false
  | x, y => x = y

/-- `operator<`. -/
def lt : Double → Double → Bool
  | finite x, finite y => x < y
  | finite _, inf => true
  | _, _ => false

/-- The place in the order, for numbers. -/
def rank : Double → WithTop ℚ
  | nan => 0
  | finite x => x
  | inf => ⊤

theorem eq_iff {x y : Double} (number : x ≠ nan) (number' : y ≠ nan) :
    eq x y = decide (rank x = rank y) := by
  cases x with
  | nan => exact absurd rfl number
  | finite p =>
      cases y with
      | nan => exact absurd rfl number'
      | finite q => simp [eq, rank, WithTop.coe_inj]
      | inf => simp [eq, rank]
  | inf =>
      cases y with
      | nan => exact absurd rfl number'
      | finite q => simp [eq, rank]
      | inf => simp [eq, rank]

theorem lt_iff {x y : Double} (number : x ≠ nan) (number' : y ≠ nan) :
    lt x y = decide (rank x < rank y) := by
  cases x with
  | nan => exact absurd rfl number
  | finite p =>
      cases y with
      | nan => exact absurd rfl number'
      | finite q => simp [lt, rank, WithTop.coe_lt_coe]
      | inf => simp [lt, rank]
  | inf =>
      cases y with
      | nan => exact absurd rfl number'
      | finite q => simp [lt, rank]
      | inf => simp [lt, rank]

theorem div_eq_nan_iff {n d : ℕ} : div n d = nan ↔ n = 0 ∧ d = 0 := by
  unfold div
  split
  · split
    · simp [*]
    · simp [*]
  · simp [*]

end Double

end StellarCore.Lib
