import Mathlib.Tactic
import StellarCore.Lib.Combinations
import StellarCore.Quorum.BitsetEnumerator

/-!
# The permutations of bits

The step of `PermutationEnumerator` goes to the next number with as many
bits, and past the last one it never comes back below the total.
-/

namespace StellarCore.Quorum

open StellarCore.Lib

/-! ## The lowest bit -/

private theorem and_complement {q width : ℕ} (bound : q < 2 ^ width) :
    q &&& (2 ^ width - (q + 1)) = 0 := by
  apply Nat.eq_of_testBit_eq
  intro i
  rw [Nat.testBit_and, Nat.testBit_two_pow_sub_succ bound,
    Nat.zero_testBit]
  cases q.testBit i with
  | true => simp
  | false => rfl

/-- A number and its negative share the lowest bit only. -/
private theorem and_sub_lowest {lower q : ℕ}
    (bound : 2 ^ (lower + 1) * q + 2 ^ lower < 2 ^ 64) :
    (2 ^ (lower + 1) * q + 2 ^ lower) &&&
        (2 ^ 64 - (2 ^ (lower + 1) * q + 2 ^ lower)) = 2 ^ lower := by
  have positive := Nat.two_pow_pos lower
  have below : lower < 64 := by
    apply (Nat.pow_lt_pow_iff_right (a := 2) (by norm_num)).mp
    omega
  have double : 2 ^ (lower + 1) = 2 ^ lower + 2 ^ lower := by
    rw [Nat.pow_succ]
    omega
  have width : 2 ^ (lower + 1) * 2 ^ (63 - lower) = 2 ^ 64 := by
    rw [← Nat.pow_add]
    congr 1
    omega
  have fits : q < 2 ^ (63 - lower) := by
    apply Nat.lt_of_mul_lt_mul_left (a := 2 ^ (lower + 1))
    rw [width]
    omega
  have negative : 2 ^ 64 - (2 ^ (lower + 1) * q + 2 ^ lower) =
      2 ^ (lower + 1) * (2 ^ (63 - lower) - (q + 1)) + 2 ^ lower := by
    have room := Nat.mul_le_mul_left (2 ^ (lower + 1)) fits
    rw [Nat.mul_sub, width]
    rw [Nat.succ_eq_add_one, width] at room
    rw [Nat.mul_add, Nat.mul_one] at room ⊢
    omega
  have small : 2 ^ lower < 2 ^ (lower + 1) := by
    omega
  rw [negative]
  apply Nat.eq_of_testBit_eq
  intro i
  rw [Nat.testBit_and, Nat.testBit_two_pow_mul_add _ small,
    Nat.testBit_two_pow_mul_add _ small]
  split
  · rw [Bool.and_self]
  · rename_i high
    rw [← Nat.testBit_and, and_complement fits, Nat.zero_testBit,
      Nat.testBit_two_pow]
    symm
    apply decide_eq_false
    omega

private theorem uneg_toNat {x : UInt64} (positive : 0 < x.toNat) :
    (uneg x).toNat = 2 ^ 64 - x.toNat := by
  have bound := x.toNat_lt
  unfold uneg
  rw [UInt64.toNat_add, UInt64.toNat_not]
  simp only [UInt64.toNat_one, UInt64.size]
  omega

private theorem lowestBit_toNat {x : UInt64} {lower q : ℕ}
    (shape : x.toNat = 2 ^ (lower + 1) * q + 2 ^ lower) :
    (x &&& uneg x).toNat = 2 ^ lower := by
  have positive : 0 < x.toNat := by
    have lowest := Nat.two_pow_pos lower
    omega
  have bound := x.toNat_lt
  rw [UInt64.toNat_and, uneg_toNat positive, shape]
  apply and_sub_lowest
  omega

/-- Filling the places below the lowest bit and adding one carries it up. -/
private theorem or_pred {lower q : ℕ} :
    (2 ^ (lower + 1) * q + 2 ^ lower) |||
        (2 ^ (lower + 1) * q + 2 ^ lower - 1) =
      2 ^ (lower + 1) * q + (2 ^ (lower + 1) - 1) := by
  have positive := Nat.two_pow_pos lower
  have double : 2 ^ (lower + 1) = 2 ^ lower + 2 ^ lower := by
    rw [Nat.pow_succ]
    omega
  have pred : 2 ^ (lower + 1) * q + 2 ^ lower - 1 =
      2 ^ (lower + 1) * q + (2 ^ lower - 1) := by
    omega
  have fill : 2 ^ lower ||| (2 ^ lower - 1) = 2 ^ (lower + 1) - 1 := by
    rw [Nat.or_comm, Nat.or_two_pow_eq_add_of_lt (by omega)]
    omega
  rw [pred]
  apply Nat.eq_of_testBit_eq
  intro i
  rw [Nat.testBit_or, Nat.testBit_two_pow_mul_add _ (by omega),
    Nat.testBit_two_pow_mul_add _ (by omega),
    Nat.testBit_two_pow_mul_add _ (by omega), ← fill]
  split
  · rw [Nat.testBit_or]
  · rw [Bool.or_self]

/-! ## The step -/

/-- The value the step starts from: the lowest run carried up. -/
private theorem carried_toNat {x : UInt64} {lower q : ℕ}
    (shape : x.toNat = 2 ^ (lower + 1) * q + 2 ^ lower)
    (bound : 2 ^ (lower + 1) * (q + 1) < 2 ^ 64) :
    ((x ||| (x - 1)) + 1).toNat = 2 ^ (lower + 1) * (q + 1) := by
  have lowest := Nat.two_pow_pos lower
  have positive := Nat.two_pow_pos (lower + 1)
  have pred : (x - 1).toNat = x.toNat - 1 := by
    rw [UInt64.toNat_sub_of_le]
    · rfl
    · rw [UInt64.le_iff_toNat_le]
      show 1 ≤ x.toNat
      omega
  rw [UInt64.toNat_add, UInt64.toNat_or, pred, shape, or_pred]
  rw [Nat.mul_add] at bound ⊢
  have value : 2 ^ (lower + 1) * q + (2 ^ (lower + 1) - 1) +
      (1 : UInt64).toNat = 2 ^ (lower + 1) * q + 2 ^ (lower + 1) * 1 := by
    show 2 ^ (lower + 1) * q + (2 ^ (lower + 1) - 1) + 1 = _
    omega
  rw [value]
  exact Nat.mod_eq_of_lt bound

/-- The lowest bit of a run of bits. -/
private theorem run_eq (lower run above : ℕ) :
    2 ^ (lower + run + 2) * above + 2 ^ lower * (2 ^ (run + 1) - 1) =
      2 ^ (lower + 1) * (2 ^ (run + 1) * above + (2 ^ run - 1)) +
        2 ^ lower := by
  obtain ⟨rest, equality⟩ :=
    Nat.exists_eq_add_of_lt (Nat.two_pow_pos run)
  have twice : 2 ^ (run + 1) - 1 = 2 * rest + 1 := by
    rw [Nat.pow_succ]
    omega
  have once : 2 ^ run - 1 = rest := by
    omega
  rw [twice, once]
  ring

/-- The lowest bit of the run carried up. -/
private theorem carried_eq (lower run above : ℕ) :
    2 ^ (lower + 1) * (2 ^ (run + 1) * above + (2 ^ run - 1) + 1) =
      2 ^ (lower + run + 1 + 1) * above + 2 ^ (lower + run + 1) := by
  have once : 2 ^ (run + 1) * above + (2 ^ run - 1) + 1 =
      2 ^ (run + 1) * above + 2 ^ run := by
    have positive := Nat.two_pow_pos run
    omega
  rw [once]
  ring

private theorem carried_of_run {x : UInt64} {lower run above : ℕ}
    (shape : x.toNat =
      2 ^ (lower + 1) * (2 ^ (run + 1) * above + (2 ^ run - 1)) + 2 ^ lower)
    (bound : 2 ^ (lower + run + 2) * above + 2 ^ (lower + run + 1) +
      (2 ^ run - 1) < 2 ^ 64) :
    ((x ||| (x - 1)) + 1).toNat =
      2 ^ (lower + run + 1 + 1) * above + 2 ^ (lower + run + 1) := by
  rw [carried_toNat shape]
  · exact carried_eq lower run above
  · rw [carried_eq]
    show 2 ^ (lower + run + 2) * above + 2 ^ (lower + run + 1) < 2 ^ 64
    omega

/-- The rest of the run, moved down to zero, is one less than this. -/
private theorem quotient_of_run {x t : UInt64} {lower run above rest : ℕ}
    (shape : x.toNat = 2 ^ (lower + 1) * rest + 2 ^ lower)
    (carried : t.toNat =
      2 ^ (lower + run + 1 + 1) * above + 2 ^ (lower + run + 1)) :
    (((t &&& uneg t) / (x &&& uneg x)) >>> 1).toNat = 2 ^ run := by
  have shifted : ∀ z : UInt64, (z >>> 1).toNat = z.toNat / 2 := by
    intro z
    rw [UInt64.toNat_shiftRight]
    rfl
  rw [shifted, UInt64.toNat_div, lowestBit_toNat carried,
    lowestBit_toNat shape, Nat.div_div_eq_div_mul, ← Nat.pow_succ,
    Nat.pow_div (by omega) (by norm_num)]
  congr 1
  omega

theorem nextPermutation_toNat {x : UInt64} {y : ℕ}
    (next : NextCombination x.toNat y) (bound : y < 2 ^ 64) :
    (nextPermutation x).toNat = y := by
  obtain ⟨lower, run, above, shape, rfl⟩ := next
  have positive := Nat.two_pow_pos run
  rw [run_eq] at shape
  have carried := carried_of_run shape bound
  have small : 2 ^ run - 1 < 2 ^ (lower + run + 1) := by
    have grows := Nat.pow_le_pow_right (n := 2) (by norm_num)
      (show run ≤ lower + run + 1 by omega)
    omega
  have filler : ∀ z : UInt64, z.toNat = 2 ^ run →
      (z - 1).toNat = 2 ^ run - 1 := by
    intro z value
    rw [UInt64.toNat_sub_of_le, value]
    · rfl
    · rw [UInt64.le_iff_toNat_le, value]
      exact positive
  unfold nextPermutation
  simp only
  rw [UInt64.toNat_or, carried, filler]
  · have split : 2 ^ (lower + run + 1 + 1) * above + 2 ^ (lower + run + 1) =
        2 ^ (lower + run + 1) * (2 * above + 1) := by
      ring
    rw [split, ← Nat.two_pow_add_eq_or_of_lt small, ← split]
  · exact quotient_of_run shape carried

/-- The step stays inside the word: the sum does not wrap around, nothing is
taken from zero, and the divisor is not zero. -/
structure StepFits (mCur : UInt64) : Prop where
  current : 0 < mCur.toNat
  carry : (mCur ||| (mCur - 1)).toNat + 1 < 2 ^ 64
  divisor : 0 < (mCur &&& uneg mCur).toNat
  quotient :
    let t := (mCur ||| (mCur - 1)) + 1
    0 < (((t &&& uneg t) / (mCur &&& uneg mCur)) >>> 1).toNat

theorem stepFits_of_next {x : UInt64} {y : ℕ}
    (next : NextCombination x.toNat y) (bound : y < 2 ^ 64) :
    StepFits x := by
  have some := next.pos
  obtain ⟨lower, run, above, shape, rfl⟩ := next
  rw [run_eq] at shape
  have carried := carried_of_run shape bound
  refine ⟨some, ?_, ?_, ?_⟩
  · -- a sum that wraps around is zero
    have word := (x ||| (x - 1)).toNat_lt
    have positive := Nat.two_pow_pos (lower + run + 1)
    rw [UInt64.toNat_add] at carried
    by_contra wide
    have full : (x ||| (x - 1)).toNat + (1 : UInt64).toNat = 2 ^ 64 := by
      show (x ||| (x - 1)).toNat + 1 = 2 ^ 64
      omega
    rw [full, Nat.mod_self] at carried
    omega
  · rw [lowestBit_toNat shape]
    exact Nat.two_pow_pos lower
  · simp only [quotient_of_run shape carried]
    exact Nat.two_pow_pos run

/-- A permutation that has left the lowest `t` bits does not come back. -/
theorem nextPermutation_finished {x : UInt64} {t : ℕ} (below : t < 64)
    (finished : 2 ^ t ≤ x.toNat) :
    2 ^ t ≤ (nextPermutation x).toNat := by
  have power : 2 ^ t ≤ 2 ^ 63 :=
    Nat.pow_le_pow_right (by norm_num) (by omega)
  have bound := (x ||| (x - 1)).toNat_lt
  rcases Nat.lt_or_ge ((x ||| (x - 1)).toNat + 1) (2 ^ 64)
    with room | full
  · have sum : ((x ||| (x - 1)) + 1).toNat =
        (x ||| (x - 1)).toNat + 1 := by
      rw [UInt64.toNat_add]
      exact Nat.mod_eq_of_lt room
    have above : x.toNat ≤ (x ||| (x - 1)).toNat := by
      rw [UInt64.toNat_or]
      exact Nat.left_le_or
    unfold nextPermutation
    simp only
    rw [UInt64.toNat_or, sum]
    exact finished.trans (above.trans
      ((Nat.le_succ _).trans Nat.left_le_or))
  · have wrapped : (x ||| (x - 1)) + 1 = 0 := by
      apply UInt64.toNat_inj.mp
      rw [UInt64.toNat_add]
      show ((x ||| (x - 1)).toNat + 1) % 2 ^ 64 = 0
      have all : (x ||| (x - 1)).toNat + 1 = 2 ^ 64 := by omega
      rw [all, Nat.mod_self]
    have ones : nextPermutation x = 0 - 1 := by
      unfold nextPermutation
      simp only
      rw [wrapped, UInt64.zero_and, UInt64.zero_div, UInt64.zero_or,
        UInt64.zero_shiftRight]
    rw [ones]
    exact power.trans (by decide)

/-! ## The bounds of the enumeration -/

private theorem lowestBits_toNat (nSet : ℕ) (x : UInt64)
    (room : (x.toNat + 1) * 2 ^ nSet ≤ 2 ^ 64) :
    (lowestBits nSet x).toNat = (x.toNat + 1) * 2 ^ nSet - 1 := by
  induction nSet generalizing x with
  | zero => simp [lowestBits]
  | succ nSet ih =>
      have positive := Nat.two_pow_pos nSet
      have regroup : (x.toNat + 1) * 2 ^ (nSet + 1) =
          (2 * x.toNat + 1 + 1) * 2 ^ nSet := by
        rw [Nat.pow_succ]
        ring
      have double : 2 * x.toNat + 1 + 1 ≤ 2 ^ 64 := by
        rw [regroup] at room
        exact (Nat.le_mul_of_pos_right _ positive).trans room
      have shifted : ((x <<< 1) ||| 1).toNat = 2 * x.toNat + 1 := by
        have value : (x <<< 1).toNat = 2 * x.toNat := by
          rw [UInt64.toNat_shiftLeft]
          show x.toNat <<< 1 % 2 ^ 64 = 2 * x.toNat
          rw [Nat.shiftLeft_eq, Nat.pow_one, Nat.mul_comm]
          exact Nat.mod_eq_of_lt (by omega)
        rw [UInt64.toNat_or, value]
        exact (Nat.two_pow_add_eq_or_of_lt (i := 1) (by decide)
          x.toNat).symm
      rw [lowestBits, ih _ (by rw [shifted, ← regroup]; exact room),
        shifted, ← regroup]

theorem lowestBits_zero_toNat {nSet : ℕ} (bound : nSet ≤ 64) :
    (lowestBits nSet 0).toNat = 2 ^ nSet - 1 := by
  rw [lowestBits_toNat]
  · show (0 + 1) * 2 ^ nSet - 1 = 2 ^ nSet - 1
    rw [Nat.zero_add, Nat.one_mul]
  · show (0 + 1) * 2 ^ nSet ≤ 2 ^ 64
    rw [Nat.zero_add, Nat.one_mul]
    exact Nat.pow_le_pow_right (by norm_num) bound

private theorem and_high_eq_zero {x t : ℕ} (small : x < 2 ^ 64)
    (below : t < 64) :
    x &&& (2 ^ 64 - (2 ^ t - 1 + 1)) = 0 ↔ x < 2 ^ t := by
  have fits : 2 ^ t - 1 < 2 ^ 64 := by
    have power : 2 ^ t ≤ 2 ^ 64 :=
      Nat.pow_le_pow_right (by norm_num) below.le
    omega
  constructor
  · intro none
    apply Nat.lt_pow_two_of_testBit
    intro i high
    by_cases inside : i < 64
    · have bit := congrArg (fun n => n.testBit i) none
      simp only [Nat.testBit_and, Nat.testBit_two_pow_sub_succ fits,
        Nat.testBit_two_pow_sub_one, Nat.zero_testBit] at bit
      have outside : ¬ i < t := by omega
      simpa only [inside, outside, decide_true, decide_false,
        Bool.not_false, Bool.and_true] using bit
    · apply Nat.testBit_lt_two_pow
      exact small.trans_le (Nat.pow_le_pow_right (by norm_num) (by omega))
  · intro low
    apply Nat.eq_of_testBit_eq
    intro i
    rw [Nat.testBit_and, Nat.testBit_two_pow_sub_succ fits,
      Nat.testBit_two_pow_sub_one, Nat.zero_testBit]
    by_cases inside : i < t
    · simp [inside]
    · have zero : x.testBit i = false := by
        apply Nat.testBit_lt_two_pow
        exact low.trans_le (Nat.pow_le_pow_right (by norm_num) (by omega))
      rw [zero, Bool.false_and]

theorem one_shiftLeft_toNat {t : ℕ} (below : t < 64) :
    ((1 : UInt64) <<< UInt64.ofNat t).toNat = 2 ^ t := by
  have places : (UInt64.ofNat t).toNat = t := by
    rw [UInt64.toNat_ofNat']
    exact Nat.mod_eq_of_lt (by omega)
  rw [UInt64.toNat_shiftLeft, places, Nat.mod_eq_of_lt below]
  show (1 : ℕ) <<< t % 2 ^ 64 = 2 ^ t
  rw [Nat.one_shiftLeft]
  exact Nat.mod_eq_of_lt (Nat.pow_lt_pow_right (by norm_num) below)

theorem permutation_isLive_iff {mCur : UInt64} {mSet mTot : ℕ}
    (below : mTot < 64) :
    (Enumerator.permutation mCur mSet mTot).isLive = true ↔
      mCur.toNat < 2 ^ mTot := by
  have positive := Nat.two_pow_pos mTot
  have mask : ((1 : UInt64) <<< UInt64.ofNat mTot - 1).toNat =
      2 ^ mTot - 1 := by
    rw [UInt64.toNat_sub_of_le, one_shiftLeft_toNat below]
    · rfl
    · rw [UInt64.le_iff_toNat_le, one_shiftLeft_toNat below]
      exact positive
  rw [Enumerator.isLive, beq_iff_eq, ← UInt64.toNat_inj,
    UInt64.toNat_and, UInt64.toNat_not, mask,
    ← and_high_eq_zero mCur.toNat_lt below]
  show mCur.toNat &&& (2 ^ 64 - 1 - (2 ^ mTot - 1)) = 0 ↔ _
  rw [Nat.sub_sub, Nat.add_comm 1]

end StellarCore.Quorum
