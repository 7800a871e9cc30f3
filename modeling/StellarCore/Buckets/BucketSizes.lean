import StellarCore.Buckets.LevelRanges
import StellarCore.Lib.Words

/-!
# How many ledgers a bucket covers

`sizeOfCurr` and `sizeOfSnap` of `BucketList.cpp` compute the sizes from the
number of the ledger, without a bucket list.  A failed assertion is `none`.
-/

namespace StellarCore.Buckets

open StellarCore.Lib

/-- The last ledger before this one that changed `curr` of the level. -/
def previousRelevantLedger (ledger : UInt32) (level : ℕ) : UInt32 :=
  max (max (mask (ledger - 1) (levelHalf (level - 1)))
      (mask (ledger - 1) (levelSize (level - 1))))
    (max (mask (ledger - 1) (levelHalf level))
      (mask (ledger - 1) (levelSize level)))

theorem toNat_mask_le (value m : UInt32) :
    (mask value m).toNat ≤ value.toNat := by
  unfold mask
  rw [UInt32.toNat_and]
  exact Nat.and_le_left

theorem toNat_pred {ledger : UInt32} (nonzero : ledger ≠ 0) :
    (ledger - 1).toNat + 1 = ledger.toNat := by
  have positive : 1 ≤ ledger.toNat := by
    rw [Nat.one_le_iff_ne_zero]
    exact fun zero => nonzero (UInt32.toNat_inj.mp zero)
  have one : (1 : UInt32) ≤ ledger := UInt32.le_iff_toNat_le.mpr positive
  rw [UInt32.toNat_sub_of_le _ _ one]
  exact Nat.sub_add_cancel positive

theorem previousRelevantLedger_lt {ledger : UInt32} (level : ℕ)
    (nonzero : ledger ≠ 0) :
    (previousRelevantLedger ledger level).toNat < ledger.toNat := by
  have masked := toNat_mask_le (ledger - 1)
  have pred := toNat_pred nonzero
  unfold previousRelevantLedger
  rw [toNat_max, toNat_max, toNat_max]
  have first := masked (levelHalf (level - 1))
  have second := masked (levelSize (level - 1))
  have third := masked (levelHalf level)
  have fourth := masked (levelSize level)
  omega

mutual

def sizeOfCurr (ledger : UInt32) (level : ℕ) : Option UInt32 :=
  if _ : ledger ≠ 0 ∧ level < kNumLevels then
    if level = 0 then
      some (if ledger = 1 then 1 else 1 + ledger % 2)
    else if level ≠ kNumLevels - 1 ∧ mask ledger (levelHalf level) ≠ 0 then
      let sizeDelta := UInt32.ofNat (1 <<< (2 * level - 1))
      if mask ledger (levelHalf level) = ledger ∨
          mask ledger (levelSize level) = ledger then
        some sizeDelta
      else if mask ledger (levelHalf (level - 1)) = ledger ∨
          mask ledger (levelSize (level - 1)) = ledger then
        (sizeOfCurr (previousRelevantLedger ledger level) level).map
          (fun previous => previous + sizeDelta)
      else sizeOfCurr (previousRelevantLedger ledger level) level
    else (sizeBelow ledger level).map (fun blsize => ledger - blsize)
  else none
termination_by (level, 1, ledger.toNat)
decreasing_by
  · exact .right _ (.right _ (previousRelevantLedger_lt level
      (‹ledger ≠ 0 ∧ level < kNumLevels›).1))
  · exact .right _ (.right _ (previousRelevantLedger_lt level
      (‹ledger ≠ 0 ∧ level < kNumLevels›).1))
  · exact .right _ (.left _ _ Nat.zero_lt_one)

def sizeOfSnap (ledger : UInt32) (level : ℕ) : Option UInt32 :=
  if ledger ≠ 0 ∧ level < kNumLevels then
    if level = kNumLevels - 1 then some 0
    else if mask ledger (levelSize level) ≠ 0 then some (levelHalf level)
    else do
      let size ← sizeBelow ledger level
      let curr ← sizeOfCurr ledger level
      return ledger - (size + curr)
  else none
termination_by (level, 2, 0)
decreasing_by
  · exact .right _ (.left _ _ Nat.zero_lt_two)
  · exact .right _ (.left _ _ Nat.one_lt_two)

/-- The sum over the levels before, as both functions compute it. -/
def sizeBelow (ledger : UInt32) : ℕ → Option UInt32
  | 0 => some 0
  | level + 1 => do
      let blsize ← sizeBelow ledger level
      let curr ← sizeOfCurr ledger level
      let snap ← sizeOfSnap ledger level
      return blsize + curr + snap
termination_by level => (level, 0, 0)
decreasing_by
  · exact .left _ _ (Nat.lt_succ_self level)
  · exact .left _ _ (Nat.lt_succ_self level)
  · exact .left _ _ (Nat.lt_succ_self level)

end

/-- The sizes of the levels before are taken off one by one. -/
def countAbove (ledger : UInt32) : ℕ → Option UInt32
  | 0 => some ledger
  | level + 1 => do
      let count ← countAbove ledger level
      let curr ← sizeOfCurr ledger level
      let snap ← sizeOfSnap ledger level
      return count - curr - snap

def oldestLedgerInCurr (ledger : UInt32) (level : ℕ) : Option UInt32 := do
  let size ← sizeOfCurr ledger level
  if size = 0 then
    return UInt32.ofNat (2 ^ 32 - 1)
  else
    let count ← countAbove ledger level
    let curr ← sizeOfCurr ledger level
    return count - curr + 1

def oldestLedgerInSnap (ledger : UInt32) (level : ℕ) : Option UInt32 := do
  let size ← sizeOfSnap ledger level
  if size = 0 then
    return UInt32.ofNat (2 ^ 32 - 1)
  else
    let count ← countAbove ledger (level + 1)
    return count + 1

/-! ## Where the intervals end -/

/-- The number of ledgers after which new ones reach the level. -/
def unit : ℕ → ℕ
  | 0 => 1
  | level + 1 => half level

/-- How far the level stays behind. -/
def lag : ℕ → ℕ
  | 0 => 0
  | level + 1 => half level + unit level + lag level

theorem unit_dvd_half (level : ℕ) : unit level ∣ half level := by
  cases level with
  | zero => exact Nat.one_dvd _
  | succ level => exact half_dvd (Nat.le_succ level)

theorem half_eq (level : ℕ) : half level = 2 * 4 ^ level := by
  unfold half
  rw [pow_succ, pow_mul, Nat.mul_comm]
  rfl

/-- The greatest multiple that is not above a number. -/
def floorTo (unit n : ℕ) : ℕ :=
  n / unit * unit

theorem floorTo_le (unit n : ℕ) : floorTo unit n ≤ n :=
  Nat.div_mul_le_self n unit

theorem dvd_floorTo (unit n : ℕ) : unit ∣ floorTo unit n :=
  ⟨n / unit, Nat.mul_comm _ _⟩

theorem floorTo_of_dvd {unit n : ℕ} (multiple : unit ∣ n) :
    floorTo unit n = n :=
  Nat.div_mul_cancel multiple

theorem floorTo_succ_of_not_dvd {unit n : ℕ} (between : ¬ unit ∣ n + 1) :
    floorTo unit (n + 1) = floorTo unit n := by
  unfold floorTo
  rw [Nat.succ_div_of_not_dvd between]

theorem floorTo_of_dvd_succ {unit n : ℕ} (multiple : unit ∣ n + 1) :
    floorTo unit n + unit = n + 1 := by
  have same := Nat.div_mul_cancel multiple
  rw [Nat.succ_div_of_dvd multiple, Nat.add_mul, Nat.one_mul] at same
  exact same

theorem le_floorTo {unit n m : ℕ} (multiple : unit ∣ m) (le : m ≤ n) :
    m ≤ floorTo unit n := by
  rw [← floorTo_of_dvd multiple]
  exact Nat.mul_le_mul_right unit (Nat.div_le_div_right le)

/-- A level takes over the boundary that is before it when it last
spilled. -/
theorem boundary_succ {p level : ℕ} (place : p / 2 = level)
    (inner : level < kNumLevels - 1) (now : ℕ) :
    boundary now (p + 1) = if floorTo (half level) now = 0 then 0
      else boundary (floorTo (half level) now - 1) p := by
  induction now with
  | zero =>
      have zero : floorTo (half level) 0 = 0 :=
        Nat.le_zero.mp (floorTo_le _ 0)
      rw [if_pos zero]
      rfl
  | succ now ih =>
      by_cases multiple : half level ∣ now + 1
      · rw [boundary_of_spills place ⟨inner, multiple⟩,
          floorTo_of_dvd multiple, if_neg (Nat.succ_ne_zero now),
          Nat.add_sub_cancel]
      · rw [boundary_of_not_spills place (fun spills => multiple spills.2),
          floorTo_succ_of_not_dvd multiple]
        exact ih

/-- The first boundary of a level, from the size of the level before on. -/
structure FirstBoundary (now level : ℕ) : Prop where
  early : now < 4 ^ level → boundary now (2 * level) = 0
  late : 4 ^ level ≤ now →
    boundary now (2 * level) + lag level = floorTo (unit level) now

/-- The boundary between `curr` and `snap` of a level. -/
structure SecondBoundary (now level : ℕ) : Prop where
  early : now < half level → boundary now (2 * level + 1) = 0
  late : half level ≤ now →
    boundary now (2 * level + 1) + lag level + unit level =
      floorTo (half level) now

theorem SecondBoundary.of_first {level : ℕ}
    (inner : level < kNumLevels - 1)
    (first : ∀ now, FirstBoundary now level) (now : ℕ) :
    SecondBoundary now level := by
  have place : 2 * level / 2 = level := Nat.mul_div_cancel_left level two_pos
  have moved := boundary_succ place inner now
  constructor
  · intro early
    have none : floorTo (half level) now = 0 := by
      unfold floorTo
      rw [Nat.div_eq_of_lt early, Nat.zero_mul]
    rw [moved, if_pos none]
  · intro late
    have last := le_floorTo (dvd_refl (half level)) late
    have positive := half_pos level
    have enough : 4 ^ level ≤ floorTo (half level) now - 1 := by
      have large := half_eq level
      have one : 1 ≤ 4 ^ level := Nat.one_le_pow _ _ (by omega)
      omega
    have multiple : unit level ∣ floorTo (half level) now - 1 + 1 := by
      rw [Nat.sub_add_cancel (positive.trans_le last)]
      exact (unit_dvd_half level).trans (dvd_floorTo _ now)
    have before := (first (floorTo (half level) now - 1)).late enough
    have step := floorTo_of_dvd_succ multiple
    rw [moved, if_neg (by omega)]
    omega

theorem FirstBoundary.of_second {level : ℕ}
    (inner : level < kNumLevels - 1)
    (second : ∀ now, SecondBoundary now level) (now : ℕ) :
    FirstBoundary now (level + 1) := by
  have place : (2 * level + 1) / 2 = level := by omega
  have moved := boundary_succ place inner now
  have positive := half_pos level
  have size : 4 ^ (level + 1) = 2 * half level := by
    rw [pow_succ, half_eq]
    omega
  constructor
  · intro early
    have below := floorTo_le (half level) now
    obtain ⟨times, product⟩ := dvd_floorTo (half level) now
    have once : times < 2 := by
      by_contra more
      have large := Nat.mul_le_mul_left (half level) (not_lt.mp more)
      omega
    rw [Nat.mul_add_one, moved]
    split
    · rfl
    · refine (second _).early ?_
      have atMost := Nat.mul_le_mul_left (half level)
        (Nat.le_of_lt_succ once)
      omega
  · intro late
    rw [size] at late
    have last := le_floorTo (Dvd.intro_left 2 rfl) late
    have multiple : half level ∣ floorTo (half level) now - 1 + 1 := by
      rw [Nat.sub_add_cancel (by omega)]
      exact dvd_floorTo _ now
    have before := (second (floorTo (half level) now - 1)).late (by omega)
    have step := floorTo_of_dvd_succ multiple
    rw [Nat.mul_add_one, moved, if_neg (by omega)]
    have sameUnit : unit (level + 1) = half level := rfl
    rw [lag, sameUnit]
    omega

theorem firstBoundary {level : ℕ} (valid : level < kNumLevels) (now : ℕ) :
    FirstBoundary now level := by
  induction level generalizing now with
  | zero =>
      constructor
      · intro none
        have zero : now = 0 := Nat.lt_one_iff.mp none
        rw [zero]
        rfl
      · intro _
        exact (boundary_zero now).trans
          (floorTo_of_dvd (Nat.one_dvd now)).symm
  | succ level ih =>
      have inner : level < kNumLevels - 1 := by omega
      exact .of_second inner
        (.of_first inner (ih (by omega))) now

theorem secondBoundary {level : ℕ} (inner : level < kNumLevels - 1)
    (now : ℕ) : SecondBoundary now level :=
  .of_first inner (firstBoundary (by omega)) now

/-! ## The sizes -/

theorem toNat_levelHalf {level : ℕ} (valid : level < kNumLevels) :
    (levelHalf level).toNat = half level := by
  have small : half level < 2 ^ 32 :=
    Nat.pow_lt_pow_right (by omega) (by unfold kNumLevels at valid; omega)
  rw [levelHalf_eq valid, UInt32.toNat_ofNat', Nat.mod_eq_of_lt small]

theorem toNat_mask_half (ledger : UInt32) {level : ℕ}
    (valid : level < kNumLevels) :
    (mask ledger (levelHalf level)).toNat =
      floorTo (half level) ledger.toNat := by
  rw [levelHalf_eq valid]
  exact toNat_and_not_low ledger (by unfold kNumLevels at valid; omega)

theorem toNat_mask_size (ledger : UInt32) {level : ℕ}
    (valid : level < kNumLevels) :
    (mask ledger (levelSize level)).toNat =
      floorTo (2 * half level) ledger.toNat := by
  have size : 2 * half level = 2 ^ (2 * level + 2) := by
    unfold half
    rw [pow_succ 2 (2 * level + 1), Nat.mul_comm]
  rw [levelSize_eq valid, size]
  exact toNat_and_not_low ledger (by unfold kNumLevels at valid; omega)

theorem floorTo_eq_self_iff {unit n : ℕ} : floorTo unit n = n ↔ unit ∣ n :=
  ⟨fun same => same ▸ dvd_floorTo unit n, floorTo_of_dvd⟩

theorem mask_eq_self {ledger : UInt32} {level : ℕ}
    (valid : level < kNumLevels) :
    (mask ledger (levelHalf level) = ledger ∨
        mask ledger (levelSize level) = ledger) ↔
      half level ∣ ledger.toNat := by
  rw [← UInt32.toNat_inj, ← UInt32.toNat_inj, toNat_mask_half ledger valid,
    toNat_mask_size ledger valid, floorTo_eq_self_iff, floorTo_eq_self_iff]
  constructor
  · rintro (byHalf | bySize)
    · exact byHalf
    · exact (Dvd.intro_left 2 rfl).trans bySize
  · exact Or.inl

theorem floorTo_mono_of_dvd {unit larger : ℕ} (multiple : unit ∣ larger)
    (n : ℕ) : floorTo larger n ≤ floorTo unit n :=
  le_floorTo (multiple.trans (dvd_floorTo larger n)) (floorTo_le larger n)

theorem toNat_previousRelevantLedger (ledger : UInt32) {level : ℕ}
    (valid : level + 1 < kNumLevels) :
    (previousRelevantLedger ledger (level + 1)).toNat =
      floorTo (half level) (ledger - 1).toNat := by
  have above : level < kNumLevels := by omega
  have deeper : half level ∣ half (level + 1) := half_dvd (Nat.le_succ _)
  have double : ∀ m, m ∣ 2 * m := fun m => Dvd.intro_left 2 rfl
  have first := floorTo_mono_of_dvd (double (half level)) (ledger - 1).toNat
  have second := floorTo_mono_of_dvd deeper (ledger - 1).toNat
  have third := floorTo_mono_of_dvd (deeper.trans (double _))
    (ledger - 1).toNat
  unfold previousRelevantLedger
  rw [Nat.add_sub_cancel, toNat_max, toNat_max, toNat_max,
    toNat_mask_half _ above, toNat_mask_size _ above,
    toNat_mask_half _ valid, toNat_mask_size _ valid]
  omega

/-- The result is the number of ledgers between two boundaries. -/
def HasSize (found : Option UInt32) (lo hi : ℕ) : Prop :=
  ∃ size, found = some size ∧ size.toNat + lo = hi

theorem sizeOfCurr_late {level : ℕ} (inner : level + 1 < kNumLevels - 1)
    {ledger : UInt32} (late : half (level + 1) ≤ ledger.toNat) :
    sizeOfCurr ledger (level + 1) =
      if half (level + 1) ∣ ledger.toNat then
        some (UInt32.ofNat (half level))
      else if half level ∣ ledger.toNat then
        (sizeOfCurr (previousRelevantLedger ledger (level + 1))
          (level + 1)).map
            (fun previous => previous + UInt32.ofNat (half level))
      else sizeOfCurr (previousRelevantLedger ledger (level + 1))
        (level + 1) := by
  have valid : level + 1 < kNumLevels := by omega
  have above : level < kNumLevels := by omega
  have positive := half_pos (level + 1)
  have nonzero : ledger ≠ 0 := by
    intro zero
    rw [zero, UInt32.toNat_zero] at late
    omega
  have passed : mask ledger (levelHalf (level + 1)) ≠ 0 := by
    intro zero
    have none := congrArg UInt32.toNat zero
    rw [toNat_mask_half ledger valid, UInt32.toNat_zero] at none
    have some := le_floorTo dvd_rfl late
    omega
  have delta : 1 <<< (2 * (level + 1) - 1) = half level := by
    rw [Nat.one_shiftLeft]
    rfl
  rw [sizeOfCurr, dif_pos ⟨nonzero, valid⟩, if_neg (Nat.succ_ne_zero level),
    if_pos ⟨inner.ne, passed⟩]
  simp only [mask_eq_self valid, mask_eq_self above, delta,
    Nat.add_sub_cancel]

/-- `curr` has the ledgers since the last spill, and those that the level
before still had at that time. -/
theorem sizeOfCurr_closed {level : ℕ} (inner : level + 1 < kNumLevels - 1)
    (ledger : UInt32) (late : half (level + 1) ≤ ledger.toNat) :
    HasSize (sizeOfCurr ledger (level + 1))
      (floorTo (half (level + 1)) ledger.toNat)
      (floorTo (half level) ledger.toNat + half level) := by
  have deeper : half level ∣ half (level + 1) := half_dvd (Nat.le_succ _)
  have small : half (level + 1) < 2 ^ 30 :=
    Nat.pow_lt_pow_right (by omega) (by unfold kNumLevels at inner; omega)
  have smaller := Nat.le_of_dvd (half_pos (level + 1)) deeper
  have delta : (UInt32.ofNat (half level)).toNat = half level := by
    rw [UInt32.toNat_ofNat', Nat.mod_eq_of_lt (by omega)]
  induction order : ledger.toNat using Nat.strong_induction_on
    generalizing ledger with
  | _ n ih =>
      subst order
      rw [sizeOfCurr_late inner late]
      by_cases spills : half (level + 1) ∣ ledger.toNat
      · rw [if_pos spills, floorTo_of_dvd spills,
          floorTo_of_dvd (deeper.trans spills)]
        exact ⟨_, rfl, by omega⟩
      rw [if_neg spills]
      have nonzero : ledger ≠ 0 := by
        intro zero
        rw [zero, UInt32.toNat_zero] at spills
        exact spills (Nat.dvd_zero _)
      have pred := toNat_pred nonzero
      have less := previousRelevantLedger_lt (level + 1) nonzero
      have previous := toNat_previousRelevantLedger ledger
        (by omega : level + 1 < kNumLevels)
      have multiple := dvd_floorTo (half level) (ledger - 1).toNat
      -- the ledger of the last spill is not after the previous one
      have sameSpill : floorTo (half (level + 1)) ledger.toNat =
          floorTo (half (level + 1)) (ledger - 1).toNat := by
        rw [← pred] at spills ⊢
        exact floorTo_succ_of_not_dvd spills
      have sameFloor : floorTo (half (level + 1))
          (floorTo (half level) (ledger - 1).toNat) =
            floorTo (half (level + 1)) (ledger - 1).toNat := by
        apply le_antisymm
        · exact Nat.mul_le_mul_right _
            (Nat.div_le_div_right (floorTo_le _ _))
        · exact le_floorTo (dvd_floorTo _ _) (floorTo_mono_of_dvd deeper _)
      have stillLate : half (level + 1) ≤
          (previousRelevantLedger ledger (level + 1)).toNat := by
        have last := le_floorTo dvd_rfl late
        rw [previous]
        rw [sameSpill] at last
        exact last.trans (floorTo_mono_of_dvd deeper _)
      obtain ⟨size, found, value⟩ := ih _ less _ stillLate rfl
      rw [previous, sameFloor, ← sameSpill, floorTo_of_dvd multiple] at value
      by_cases changes : half level ∣ ledger.toNat
      · rw [if_pos changes, found, floorTo_of_dvd changes]
        have step : floorTo (half level) (ledger - 1).toNat + half level =
            ledger.toNat := by
          rw [← pred] at changes ⊢
          exact floorTo_of_dvd_succ changes
        have close : ledger.toNat <
            floorTo (half (level + 1)) ledger.toNat + half (level + 1) :=
          Nat.lt_div_mul_add (half_pos (level + 1))
        refine ⟨_, rfl, ?_⟩
        rw [UInt32.toNat_add, delta, Nat.mod_eq_of_lt (by omega)]
        omega
      · rw [if_neg changes, found]
        have step : floorTo (half level) ledger.toNat =
            floorTo (half level) (ledger - 1).toNat := by
          rw [← pred] at changes ⊢
          exact floorTo_succ_of_not_dvd changes
        exact ⟨size, rfl, by omega⟩

/-- What a level has, given what the levels before have. -/
theorem hasSize_curr {level : ℕ} (valid : level < kNumLevels)
    {ledger : UInt32} (nonzero : ledger ≠ 0)
    (below : HasSize (sizeBelow ledger level)
      (boundary ledger.toNat (2 * level)) ledger.toNat) :
    HasSize (sizeOfCurr ledger level)
      (boundary ledger.toNat (2 * level + 1))
      (boundary ledger.toNat (2 * level)) := by
  have pred := toNat_pred nonzero
  have first := firstBoundary valid ledger.toNat
  cases level with
  | zero =>
      have second := secondBoundary (by decide : 0 < kNumLevels - 1)
        ledger.toNat
      rw [sizeOfCurr, dif_pos ⟨nonzero, valid⟩, if_pos rfl]
      refine ⟨_, rfl, ?_⟩
      have two : half 0 = 2 := rfl
      have one : unit 0 = 1 := rfl
      have none : lag 0 = 0 := rfl
      rw [Nat.mul_zero, boundary_zero]
      by_cases genesis : ledger = 1
      · have number : ledger.toNat = 1 := congrArg UInt32.toNat genesis
        rw [if_pos genesis, second.early (by omega), number]
        rfl
      · have number : ledger.toNat ≠ 1 :=
          fun same => genesis (UInt32.toNat_inj.mp same)
        have later := second.late (by omega)
        have parts := Nat.mod_add_div ledger.toNat 2
        have parity : (1 + ledger % 2).toNat = 1 + ledger.toNat % 2 := by
          have word : (2 : UInt32).toNat = 2 := rfl
          rw [UInt32.toNat_add, UInt32.toNat_mod, UInt32.toNat_one, word]
          exact Nat.mod_eq_of_lt (by omega)
        rw [Nat.mul_zero] at later
        rw [two, one, none, floorTo, Nat.mul_comm _ 2] at later
        rw [if_neg genesis, parity]
        omega
  | succ level =>
      by_cases late : level + 1 < kNumLevels - 1 ∧
          half (level + 1) ≤ ledger.toNat
      · obtain ⟨size, found, value⟩ := sizeOfCurr_closed late.1 ledger late.2
        have second := (secondBoundary late.1 ledger.toNat).late late.2
        have enough : 4 ^ (level + 1) ≤ ledger.toNat := by
          have large := half_eq (level + 1)
          omega
        have before := first.late enough
        have sameUnit : unit (level + 1) = half level := rfl
        rw [sameUnit] at before second
        exact ⟨size, found, by omega⟩
      · obtain ⟨size, found, value⟩ := below
        have bottom : boundary ledger.toNat (2 * (level + 1) + 1) = 0 := by
          by_cases inner : level + 1 < kNumLevels - 1
          · exact (secondBoundary inner ledger.toNat).early
              (Nat.lt_of_not_le fun le => late ⟨inner, le⟩)
          · exact boundary_bottom _ (by omega)
        have notLate : ¬ (level + 1 ≠ kNumLevels - 1 ∧
            mask ledger (levelHalf (level + 1)) ≠ 0) := by
          rintro ⟨notLast, passed⟩
          apply passed
          have early : ledger.toNat < half (level + 1) :=
            Nat.lt_of_not_le fun le => late ⟨by omega, le⟩
          apply UInt32.toNat_inj.mp
          rw [toNat_mask_half ledger valid, floorTo,
            Nat.div_eq_of_lt early, Nat.zero_mul]
          rfl
        rw [sizeOfCurr, dif_pos ⟨nonzero, valid⟩,
          if_neg (Nat.succ_ne_zero level), if_neg notLate, found, bottom]
        refine ⟨_, rfl, ?_⟩
        have le : size ≤ ledger := UInt32.le_iff_toNat_le.mpr (by omega)
        rw [UInt32.toNat_sub_of_le _ _ le]
        omega

theorem hasSize_snap {level : ℕ} (valid : level < kNumLevels)
    {ledger : UInt32} (nonzero : ledger ≠ 0)
    (below : HasSize (sizeBelow ledger level)
      (boundary ledger.toNat (2 * level)) ledger.toNat)
    (curr : HasSize (sizeOfCurr ledger level)
      (boundary ledger.toNat (2 * level + 1))
      (boundary ledger.toNat (2 * level))) :
    HasSize (sizeOfSnap ledger level)
      (boundary ledger.toNat (2 * level + 2))
      (boundary ledger.toNat (2 * level + 1)) := by
  rw [sizeOfSnap, if_pos ⟨nonzero, valid⟩]
  by_cases last : level = kNumLevels - 1
  · rw [if_pos last, boundary_bottom _ (by omega),
      boundary_bottom _ (by omega)]
    exact ⟨0, rfl, rfl⟩
  have inner : level < kNumLevels - 1 := by omega
  have size : 4 ^ (level + 1) = 2 * half level := by
    rw [pow_succ, half_eq]
    omega
  have next := firstBoundary (by omega : level + 1 < kNumLevels)
    ledger.toNat
  have sameUnit : unit (level + 1) = half level := rfl
  have moreLag : lag (level + 1) = half level + unit level + lag level :=
    rfl
  rw [if_neg last]
  by_cases late : 2 * half level ≤ ledger.toNat
  · have passed : mask ledger (levelSize level) ≠ 0 := by
      intro zero
      have none := congrArg UInt32.toNat zero
      rw [toNat_mask_size ledger valid, UInt32.toNat_zero] at none
      have some := le_floorTo dvd_rfl late
      have positive := half_pos level
      omega
    have before := next.late (by omega)
    have second := (secondBoundary inner ledger.toNat).late (by omega)
    rw [if_pos passed]
    refine ⟨_, rfl, ?_⟩
    rw [toNat_levelHalf valid]
    rw [sameUnit, moreLag, Nat.mul_add_one] at before
    omega
  · have none : ¬ mask ledger (levelSize level) ≠ 0 := by
      rw [not_not]
      apply UInt32.toNat_inj.mp
      rw [toNat_mask_size ledger valid, floorTo,
        Nat.div_eq_of_lt (Nat.lt_of_not_le late), Nat.zero_mul]
      rfl
    have zero := next.early (by omega)
    rw [Nat.mul_add_one] at zero
    obtain ⟨before, foundBefore, sumBefore⟩ := below
    obtain ⟨here, foundHere, sumHere⟩ := curr
    have bound := ledger.toNat_lt
    have sum : (before + here).toNat = before.toNat + here.toNat := by
      rw [UInt32.toNat_add, Nat.mod_eq_of_lt (by omega)]
    have le : before + here ≤ ledger :=
      UInt32.le_iff_toNat_le.mpr (by omega)
    rw [if_neg none, foundBefore, foundHere, zero]
    refine ⟨ledger - (before + here), rfl, ?_⟩
    rw [UInt32.toNat_sub_of_le _ _ le]
    omega

/-- No sum is greater than the number of the ledger. -/
theorem hasSize_below {level : ℕ} (valid : level ≤ kNumLevels)
    {ledger : UInt32} (nonzero : ledger ≠ 0) :
    HasSize (sizeBelow ledger level) (boundary ledger.toNat (2 * level))
      ledger.toNat := by
  induction level with
  | zero =>
      rw [sizeBelow]
      exact ⟨0, rfl, by rw [boundary_zero]; exact Nat.zero_add _⟩
  | succ level ih =>
      have inside : level < kNumLevels := valid
      have below := ih inside.le
      have curr := hasSize_curr inside nonzero below
      obtain ⟨snap, foundSnap, sumSnap⟩ :=
        hasSize_snap inside nonzero below curr
      obtain ⟨before, foundBefore, sumBefore⟩ := below
      obtain ⟨here, foundHere, sumHere⟩ := curr
      have bound := ledger.toNat_lt
      rw [sizeBelow, foundBefore, foundHere, foundSnap]
      refine ⟨before + here + snap, rfl, ?_⟩
      rw [Nat.mul_add_one, UInt32.toNat_add, UInt32.toNat_add]
      omega

end StellarCore.Buckets
