import Mathlib.Tactic

/-!
# Words of 32 bits

What some operations on machine words are for the numbers that they hold.
-/

namespace StellarCore.Lib

theorem toNat_max (first second : UInt32) :
    (max first second).toNat = max first.toNat second.toNat := by
  rw [UInt32.max_def, Nat.max_def]
  split
  case isTrue le =>
      rw [if_pos (UInt32.le_iff_toNat_le.mp le)]
  case isFalse notLe =>
      rw [if_neg (fun le => notLe (UInt32.le_iff_toNat_le.mpr le))]

/-- Rounding up and going one back, as long as the sum does not wrap. -/
theorem toNat_roundUp {unit value : UInt32} (positive : 0 < unit.toNat)
    (fits : value.toNat + unit.toNat < 2 ^ 32) :
    ((if value + 1 = 0 then unit
      else (value + 1 + unit - 1) / unit * unit) - 1).toNat + 1 =
      (value.toNat / unit.toNat + 1) * unit.toNat := by
  have nonzero : value + 1 ≠ 0 := by
    intro zero
    have wrapped := congrArg UInt32.toNat zero
    rw [UInt32.toNat_add, UInt32.toNat_one, UInt32.toNat_zero] at wrapped
    omega
  have sum : (value + 1 + unit - 1).toNat = value.toNat + unit.toNat := by
    rw [UInt32.toNat_sub, UInt32.toNat_add, UInt32.toNat_add,
      UInt32.toNat_one]
    omega
  have quotient : (value.toNat + unit.toNat) / unit.toNat =
      value.toNat / unit.toNat + 1 := Nat.add_div_right _ positive
  have small : (value.toNat / unit.toNat + 1) * unit.toNat ≤
      value.toNat + unit.toNat := by
    rw [Nat.add_mul, Nat.one_mul]
    exact Nat.add_le_add_right (Nat.div_mul_le_self _ _) _
  have large : unit.toNat ≤
      (value.toNat / unit.toNat + 1) * unit.toNat :=
    Nat.le_mul_of_pos_left _ (Nat.succ_pos _)
  rw [if_neg nonzero, UInt32.toNat_sub, UInt32.toNat_mul, UInt32.toNat_div,
    sum, quotient, UInt32.toNat_one]
  rw [Nat.mod_eq_of_lt (by omega : (value.toNat / unit.toNat + 1) *
    unit.toNat < 2 ^ 32)]
  omega

/-- Clearing the lowest bits of a word. -/
theorem toNat_and_not_low (value : UInt32) {k : ℕ} (small : k < 32) :
    (value &&& ~~~(UInt32.ofNat (2 ^ k) - 1)).toNat =
      value.toNat / 2 ^ k * 2 ^ k := by
  have lt : 2 ^ k < 2 ^ 32 := Nat.pow_lt_pow_right (by omega) small
  have power : (UInt32.ofNat (2 ^ k)).toNat = 2 ^ k := by
    rw [UInt32.toNat_ofNat', Nat.mod_eq_of_lt lt]
  have below : (UInt32.ofNat (2 ^ k) - 1).toNat = 2 ^ k - 1 := by
    rw [UInt32.toNat_sub_of_le, power]
    · rfl
    · rw [UInt32.le_iff_toNat_le, power]
      exact Nat.one_le_two_pow
  apply Nat.eq_of_testBit_eq
  intro i
  have left : (value &&& ~~~(UInt32.ofNat (2 ^ k) - 1)).toNat.testBit i =
      (value.toNat.testBit i &&
        (decide (i < 32) && !(2 ^ k - 1).testBit i)) := by
    rw [← below, ← UInt32.toNat_toBitVec, UInt32.toBitVec_and,
      UInt32.toBitVec_not, BitVec.testBit_toNat, BitVec.getLsbD_and,
      BitVec.getLsbD_not]
    rfl
  have word : ¬ i < 32 → value.toNat.testBit i = false := by
    intro large
    apply Nat.testBit_lt_two_pow
    exact value.toNat_lt.trans_le (Nat.pow_le_pow_right (by omega)
      (by omega))
  rw [left, Nat.testBit_two_pow_sub_one, Nat.testBit_mul_two_pow]
  by_cases cleared : i < k
  · simp [cleared, Nat.not_le.mpr cleared]
  · have kept : k ≤ i := Nat.le_of_not_lt cleared
    rw [Nat.testBit_div_two_pow, Nat.sub_add_cancel kept]
    by_cases inside : i < 32
    · simp [cleared, kept, inside]
    · simp [word inside]

/-! ## Bytes of a word -/

/-- One byte of a word, shifted down and masked. -/
theorem toNat_byte (value : UInt32) {shift : UInt32}
    (small : shift.toNat < 32) :
    ((value >>> shift) &&& 0xFF).toUInt8.toNat =
      value.toNat / 2 ^ shift.toNat % 256 := by
  have mask : (0xFF : UInt32).toNat = 2 ^ 8 - 1 := rfl
  rw [UInt32.toNat_toUInt8, UInt32.toNat_and, UInt32.toNat_shiftRight, mask,
    Nat.and_two_pow_sub_one_eq_mod, Nat.mod_eq_of_lt small,
    Nat.shiftRight_eq_div_pow]
  omega

/-- A byte that goes in at the low end of a word. -/
theorem toNat_shift_or {high : UInt32} (low : UInt8)
    (fits : high.toNat < 2 ^ 24) :
    (high <<< 8 ||| low.toUInt32).toNat = high.toNat * 256 + low.toNat := by
  have eight : (8 : UInt32).toNat % 32 = 8 := rfl
  have byte : low.toNat < 2 ^ 8 := low.toNat_lt
  rw [UInt32.toNat_or, UInt32.toNat_shiftLeft, eight, UInt8.toNat_toUInt32,
    Nat.shiftLeft_eq, Nat.mod_eq_of_lt (by omega), Nat.mul_comm,
    ← Nat.two_pow_add_eq_or_of_lt byte, Nat.mul_comm]

end StellarCore.Lib
