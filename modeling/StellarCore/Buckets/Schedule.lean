import Mathlib.Tactic
import StellarCore.Buckets.BucketList

/-!
# When levels spill

A level spills at the multiples of half its size, and the last level never
does.  Half the size of a level divides half the size of the next one, so at
any ledger the levels that spill are the first few.
-/

namespace StellarCore.Buckets

/-- Half the size of a level, in ledgers. -/
def half (level : ℕ) : ℕ := 2 ^ (2 * level + 1)

/-- `levelShouldSpill`, on ledger numbers without a bound. -/
def Spills (ledger level : ℕ) : Prop :=
  level < kNumLevels - 1 ∧ half level ∣ ledger

instance (ledger level : ℕ) : Decidable (Spills ledger level) :=
  inferInstanceAs (Decidable (_ ∧ _))

theorem half_pos (level : ℕ) : 0 < half level :=
  Nat.two_pow_pos _

theorem half_dvd {level deeper : ℕ} (le : level ≤ deeper) :
    half level ∣ half deeper :=
  pow_dvd_pow 2 (by omega)

theorem Spills.above {ledger level shallower : ℕ}
    (spills : Spills ledger level) (le : shallower ≤ level) :
    Spills ledger shallower :=
  ⟨by have := spills.1; omega, (half_dvd le).trans spills.2⟩

section Mask

/-- Nothing is masked off when nothing is below the mask. -/
theorem and_not_eq_self_iff (v m : BitVec 32) :
    v &&& ~~~m = v ↔ v &&& m = 0#32 := by
  constructor
  · intro same
    ext i lt
    have bit := congrArg (fun b => b[i]) same
    simp only [BitVec.getElem_and, BitVec.getElem_not] at bit
    rw [BitVec.getElem_and, ← bit, Bool.and_assoc, Bool.not_and_self]
    simp
  · intro zero
    ext i lt
    have bit := congrArg (fun b => b[i]) zero
    simp only [BitVec.getElem_and, BitVec.getElem_zero] at bit
    rw [BitVec.getElem_and, BitVec.getElem_not]
    cases inMask : m[i] with
    | false => simp
    | true =>
        rw [inMask, Bool.and_true] at bit
        rw [bit]
        rfl

theorem mask_eq_self_iff (v : UInt32) {k : ℕ} (small : k < 32) :
    v = mask v (UInt32.ofNat (2 ^ k)) ↔ 2 ^ k ∣ v.toNat := by
  have lt : 2 ^ k < 2 ^ 32 := Nat.pow_lt_pow_right (by omega) small
  have value : (UInt32.ofNat (2 ^ k)).toNat = 2 ^ k := by
    rw [UInt32.toNat_ofNat', Nat.mod_eq_of_lt lt]
  have below : (UInt32.ofNat (2 ^ k) - 1).toBitVec.toNat = 2 ^ k - 1 := by
    rw [UInt32.toNat_toBitVec, UInt32.toNat_sub_of_le, value]
    · rfl
    · rw [UInt32.le_iff_toNat_le, value]
      exact Nat.one_le_two_pow
  unfold mask
  rw [eq_comm, ← UInt32.toBitVec_inj, UInt32.toBitVec_and,
    UInt32.toBitVec_not, and_not_eq_self_iff, ← BitVec.toNat_inj,
    BitVec.toNat_and, below, Nat.and_two_pow_sub_one_eq_mod,
    UInt32.toNat_toBitVec, Nat.dvd_iff_mod_eq_zero]
  rfl

end Mask

theorem levelHalf_eq {level : ℕ} (valid : level < kNumLevels) :
    levelHalf level = UInt32.ofNat (half level) := by
  have all : ∀ level < 11,
      levelHalf level = UInt32.ofNat (2 ^ (2 * level + 1)) := by decide
  exact all level valid

theorem levelSize_eq {level : ℕ} (valid : level < kNumLevels) :
    levelSize level = UInt32.ofNat (2 ^ (2 * level + 2)) := by
  have all : ∀ level < 11,
      levelSize level = UInt32.ofNat (2 ^ (2 * level + 2)) := by decide
  exact all level valid

theorem levelShouldSpill_iff (ledger : ℕ) {level : ℕ}
    (valid : level < kNumLevels) :
    levelShouldSpill (UInt32.ofNat ledger) level = true ↔
      Spills ledger level := by
  have valid' : level < 11 := valid
  -- 2 ^ 32 is a multiple of every size, so wrapping keeps the remainders
  have divides : ∀ k < 32, (2 ^ k ∣ (UInt32.ofNat ledger).toNat ↔
      2 ^ k ∣ ledger) := by
    intro k small
    rw [UInt32.toNat_ofNat']
    exact (Nat.dvd_mod_iff (pow_dvd_pow 2 (by omega))).trans Iff.rfl
  unfold levelShouldSpill Spills
  by_cases last : level = kNumLevels - 1
  · simp [last]
  · have inner : level < kNumLevels - 1 := by
      unfold kNumLevels at last ⊢
      omega
    rw [if_neg last, levelHalf_eq valid, levelSize_eq valid, half,
      Bool.or_eq_true, beq_iff_eq, beq_iff_eq,
      mask_eq_self_iff _ (by omega), mask_eq_self_iff _ (by omega),
      divides _ (by omega), divides _ (by omega)]
    simp only [inner, true_and]
    constructor
    · rintro (byHalf | bySize)
      · exact byHalf
      · exact (pow_dvd_pow 2 (by omega)).trans bySize
    · exact Or.inl

/-- The ledger at which a level next commits. -/
def nextChange (ledger level : ℕ) : ℕ :=
  (ledger / half (level - 1) + 1) * half (level - 1)

theorem nextChange_of_dvd {ledger level : ℕ}
    (divides : half (level - 1) ∣ ledger) :
    nextChange ledger level = ledger + half (level - 1) := by
  unfold nextChange
  rw [Nat.add_mul, Nat.div_mul_cancel divides, Nat.one_mul]

/-- The ledger is the one that was awaited, or the wait goes on. -/
theorem nextChange_succ_of_dvd {ledger level : ℕ}
    (divides : half (level - 1) ∣ ledger + 1) :
    nextChange ledger level = ledger + 1 := by
  have step := Nat.succ_div_of_dvd divides
  unfold nextChange
  rw [← step]
  exact Nat.div_mul_cancel divides

theorem nextChange_succ_of_not_dvd {ledger level : ℕ}
    (divides : ¬ half (level - 1) ∣ ledger + 1) :
    nextChange (ledger + 1) level = nextChange ledger level := by
  unfold nextChange
  rw [Nat.succ_div_of_not_dvd divides]

theorem add_levelHalf (ledger : ℕ) {level : ℕ} (valid : level < kNumLevels) :
    UInt32.ofNat ledger + levelHalf level =
      UInt32.ofNat (ledger + half level) := by
  rw [levelHalf_eq valid, UInt32.ofNat_add]

end StellarCore.Buckets
