import StellarCore.Quorum.CompleteProducts

/-!
# The course of a permutation enumerator

From its constructor or a reset a `PermutationEnumerator` goes through all
the sets of so many of the lowest bits in increasing order, and stops.  As
long as it has not stopped its step stays inside a word.
-/

namespace StellarCore.Quorum

open StellarCore.Lib

/-- `std::bitset<64>::count`. -/
def bitCount (bits : Bitset) : ℕ :=
  (List.range 64).countP bits.getLsbD

/-- Only some of the `t` lowest bits are set. -/
def Within (t : ℕ) (bits : Bitset) : Prop :=
  ∀ i, bits.getLsbD i = true → i < t

theorem within_iff {t : ℕ} {bits : Bitset} :
    Within t bits ↔ bits.toNat < 2 ^ t := by
  constructor
  · intro inside
    apply Nat.lt_pow_two_of_testBit
    intro i above
    cases bit : bits.toNat.testBit i with
    | false => rfl
    | true => exact absurd (inside i bit) (not_lt.mpr above)
  · intro small i bit
    by_contra above
    have power := Nat.pow_le_pow_right (n := 2) (by norm_num)
      (not_lt.mp above)
    have none := Nat.testBit_lt_two_pow (small.trans_le power)
    have some : bits.toNat.testBit i = true := bit
    rw [none] at some
    cases some

theorem bitCount_within {t : ℕ} {bits : Bitset} (few : t ≤ 64)
    (inside : Within t bits) :
    bitCount bits = (List.range t).countP bits.toNat.testBit := by
  have split : List.range 64 =
      List.range t ++ (List.range (64 - t)).map (t + ·) := by
    rw [← List.range_add]
    congr 1
    omega
  have none : ((List.range (64 - t)).map (t + ·)).countP bits.getLsbD =
      0 := by
    rw [List.countP_eq_zero]
    intro i member bit
    obtain ⟨place, _, rfl⟩ := List.mem_map.mp member
    exact absurd (inside _ bit) (not_lt.mpr (Nat.le_add_right t place))
  rw [bitCount, split, List.countP_append, none]
  rfl

namespace Enumerator

section Permutation

variable {mSet mTot : ℕ}

theorem mem_combinations_ofNat (few : mTot < 64) {bits : Bitset} :
    bits ∈ (combinations mSet mTot).map (BitVec.ofNat 64) ↔
      Within mTot bits ∧ bitCount bits = mSet := by
  have power : 2 ^ mTot < 2 ^ 64 :=
    Nat.pow_lt_pow_right (by norm_num) few
  rw [List.mem_map]
  constructor
  · rintro ⟨x, member, rfl⟩
    obtain ⟨low, counted⟩ := mem_combinations.mp member
    have same : (BitVec.ofNat 64 x).toNat = x := by
      rw [BitVec.toNat_ofNat]
      exact Nat.mod_eq_of_lt (low.trans power)
    have inside : Within mTot (BitVec.ofNat 64 x) := by
      rw [within_iff, same]
      exact low
    refine ⟨inside, ?_⟩
    rw [bitCount_within few.le inside, same]
    exact counted
  · rintro ⟨inside, counted⟩
    rw [bitCount_within few.le inside] at counted
    exact ⟨bits.toNat,
      mem_combinations.mpr ⟨within_iff.mp inside, counted⟩,
      BitVec.ofNat_toNat 64 bits⟩

theorem combinations_ofNat_sorted (few : mTot < 64) :
    ((combinations mSet mTot).map (BitVec.ofNat 64)).Pairwise
      (fun v w => v.toNat < w.toNat) := by
  have power : 2 ^ mTot < 2 ^ 64 :=
    Nat.pow_lt_pow_right (by norm_num) few
  have word : ∀ x ∈ combinations mSet mTot,
      (BitVec.ofNat 64 x).toNat = x := by
    intro x member
    rw [BitVec.toNat_ofNat]
    exact Nat.mod_eq_of_lt ((combinations_lt member).trans power)
  rw [List.pairwise_map]
  refine (combinations_sorted mSet mTot).imp_of_mem ?_
  intro x y first second less
  rw [word x first, word y second]
  exact less

/-- Every number that is shown has a next one, in the list or past the
total. -/
private theorem combinations_next {k steps : ℕ} (enough : k + 1 ≤ mTot)
    (few : mTot < 64)
    (inside : steps < (combinations (k + 1) mTot).length) :
    ∃ y, NextCombination (combinations (k + 1) mTot)[steps] y ∧
      y < 2 ^ 64 ∧
      ∀ further : steps + 1 < (combinations (k + 1) mTot).length,
        y = (combinations (k + 1) mTot)[steps + 1] := by
  have power : 2 ^ mTot ≤ 2 ^ 63 :=
    Nat.pow_le_pow_right (by norm_num) (by omega)
  by_cases further : steps + 1 < (combinations (k + 1) mTot).length
  · refine ⟨_, List.isChain_iff_getElem.mp (combinations_chain k mTot) steps
      further, ?_, fun _ => rfl⟩
    have low := combinations_lt (List.getElem_mem further)
    omega
  · have smaller : 2 ^ k ≤ 2 ^ mTot :=
      Nat.pow_le_pow_right (by norm_num) (by omega)
    have lastOne := combinations_getLast enough
    have place : (combinations (k + 1) mTot).length - 1 = steps := by omega
    rw [List.getLast?_eq_getElem?, place, List.getElem?_eq_getElem inside,
      Option.some.injEq] at lastOne
    refine ⟨2 ^ mTot + (2 ^ k - 1), ?_, by omega,
      fun more => absurd more further⟩
    rw [lastOne]
    exact nextCombination_top enough

/-- Before the end the step is taken from the numbers in their order. -/
private theorem permutation_states {k : ℕ} (enough : k + 1 ≤ mTot)
    (few : mTot < 64) {steps : ℕ}
    (inside : steps < (combinations (k + 1) mTot).length) :
    ∃ mCur, next^[steps]
        (permutation (lowestBits (k + 1) 0) (k + 1) mTot) =
          permutation mCur (k + 1) mTot ∧
      mCur.toNat = (combinations (k + 1) mTot)[steps] := by
  induction steps with
  | zero =>
      refine ⟨_, rfl, ?_⟩
      have head := combinations_head enough
      rw [List.head?_eq_getElem?, List.getElem?_eq_getElem inside,
        Option.some.injEq] at head
      rw [head, lowestBits_zero_toNat (by omega)]
  | succ steps ih =>
      have before : steps < (combinations (k + 1) mTot).length := by omega
      obtain ⟨mCur, state, same⟩ := ih before
      obtain ⟨y, step, bound, follows⟩ :=
        combinations_next enough few before
      rw [← same] at step
      refine ⟨nextPermutation mCur, ?_, ?_⟩
      · rw [Function.iterate_succ_apply', state, next]
      · rw [nextPermutation_toNat step bound, follows inside]

theorem permutation_step_fits {k : ℕ} (enough : k + 1 ≤ mTot)
    (few : mTot < 64) {steps : ℕ}
    (inside : steps < (combinations (k + 1) mTot).length) :
    ∃ mCur, next^[steps]
        (permutation (lowestBits (k + 1) 0) (k + 1) mTot) =
          permutation mCur (k + 1) mTot ∧ StepFits mCur := by
  obtain ⟨mCur, state, same⟩ := permutation_states enough few inside
  obtain ⟨y, step, bound, _⟩ := combinations_next enough few inside
  rw [← same] at step
  exact ⟨mCur, state, stepFits_of_next step bound⟩

theorem reset_iterate (e : Enumerator) (steps : ℕ) :
    reset (next^[steps] e) = reset e := by
  induction steps with
  | zero => rfl
  | succ steps ih => rw [Function.iterate_succ_apply', reset_next, ih]

/-- The values until the enumerator stops are the sets of `mSet` of the
`mTot` lowest bits, in increasing order; a reset starts over, and the step
never leaves the word before that. -/
theorem permutationEnumerator_exact (mSet mTot : ℕ) (some : 1 ≤ mSet)
    (enough : mSet ≤ mTot) (few : mTot ≤ 63) :
    ∃ start values, newPermutation mSet mTot = Option.some start ∧
      (∀ steps, reset (next^[steps] start) = start) ∧
      Enumerates start values ∧
      values.Pairwise (fun v w => v.toNat < w.toNat) ∧
      (∀ bits, bits ∈ values ↔
        (∀ i, bits.getLsbD i = true → i < mTot) ∧
          bitCount bits = mSet) ∧
      ∀ steps < values.length, ∃ mCur,
        next^[steps] start = permutation mCur mSet mTot ∧
          StepFits mCur := by
  have below : mTot < 64 := by omega
  have visits := permutation_visits some enough below
  obtain ⟨k, rfl⟩ := Nat.exists_eq_succ_of_ne_zero
    (Nat.one_le_iff_ne_zero.mp some)
  refine ⟨permutation (lowestBits (k + 1) 0) (k + 1) mTot,
    (combinations (k + 1) mTot).map (BitVec.ofNat 64), ?_, ?_,
    visits.enumerates (fun _ _ ended => ended 0),
    combinations_ofNat_sorted below, fun bits =>
      mem_combinations_ofNat below, ?_⟩
  · have total : 0 < mTot ∧ mTot ≤ 64 := by omega
    have set : 0 < k + 1 ∧ k + 1 ≤ 64 := by omega
    simp only [newPermutation, enough, total, set, and_self, guard_true,
      Option.pure_def, Option.bind_eq_bind, Option.bind_some]
  · intro steps
    rw [reset_iterate, reset]
  · intro steps inside
    rw [List.length_map] at inside
    exact permutation_step_fits enough below inside

theorem permutationEnumerator_exact_pairs :
    ∃ start values, newPermutation 2 3 = Option.some start ∧
      Enumerates start values ∧ 5 ∈ values ∧ 7 ∉ values := by
  obtain ⟨start, values, built, _, enumerates, _, exactly, _⟩ :=
    permutationEnumerator_exact 2 3 (by decide) (by decide) (by decide)
  refine ⟨start, values, built, enumerates, ?_, ?_⟩
  · have inside : Within 3 5 := within_iff.mpr (by decide)
    exact (exactly 5).mpr ⟨inside, by decide⟩
  · intro seven
    have three : bitCount 7 ≠ 2 := by decide
    exact three ((exactly 7).mp seven).2

end Permutation

end Enumerator

end StellarCore.Quorum
