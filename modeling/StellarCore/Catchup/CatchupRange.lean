import StellarCore.Catchup.VerifiedChain

/-!
# The range of a catchup

`CatchupWork::makeCatchupRange` and its helpers: where replaying ledgers has
to start, so that enough of them are replayed, and whether the buckets of a
checkpoint are applied before.
-/

namespace StellarCore.Catchup

open StellarCore.Lib

structure CatchupConfiguration where
  toLedger : UInt32
  count : UInt32

/-- Whether buckets are applied is the second part of the pair. -/
structure CatchupRange where
  first : UInt32
  last : UInt32
  applyBuckets : Bool
  deriving DecidableEq

def GENESIS_LEDGER_SEQ : UInt32 := 1

section Functions

variable (freq : UInt32)

/-- `HistoryManagerImpl::nextCheckpointLedger`. -/
def roundUpToCheckpoint (ledger : UInt32) : UInt32 :=
  if ledger = 0 then freq else (ledger + freq - 1) / freq * freq

/-- `HistoryManagerImpl::checkpointContainingLedger`. -/
def checkpointContaining (ledger : UInt32) : UInt32 :=
  roundUpToCheckpoint freq (ledger + 1) - 1

def firstNotFinishedCheckpoint (lastClosedLedger : UInt32) : UInt32 :=
  let result := checkpointContaining freq lastClosedLedger
  if lastClosedLedger < result then result else result + freq

def firstNeededLedger (configuration : CatchupConfiguration) : UInt32 :=
  let neededCount := max configuration.count 1
  if configuration.toLedger > neededCount then
    configuration.toLedger - neededCount + 1
  else
    GENESIS_LEDGER_SEQ

def computeCatchupStart
    (smallestLedgerToApply smallestBucketApplyCheckpoint : UInt32) :
    Bool × UInt32 :=
  let smallestCheckpointToApply :=
    checkpointContaining freq smallestLedgerToApply
  if smallestLedgerToApply = smallestCheckpointToApply then
    (true, smallestCheckpointToApply)
  else if smallestLedgerToApply < freq - 1 then
    (false, smallestLedgerToApply)
  else
    let smallestCheckpointToApply := smallestCheckpointToApply - freq
    if smallestCheckpointToApply ≥ smallestBucketApplyCheckpoint then
      (true, smallestCheckpointToApply)
    else
      (false, smallestLedgerToApply)

def smallestLedgerToApply (lastClosedLedger : UInt32)
    (configuration : CatchupConfiguration) : UInt32 :=
  max (firstNeededLedger configuration) lastClosedLedger

/-- `none` where an assertion fails. -/
def makeCatchupRange (lastClosedLedger : UInt32)
    (configuration : CatchupConfiguration) : Option CatchupRange :=
  if lastClosedLedger > 0 ∧ configuration.toLedger ≥ lastClosedLedger ∧
      configuration.toLedger ≠ 0 then
    let catchupStart := computeCatchupStart freq
      (smallestLedgerToApply lastClosedLedger configuration)
      (firstNotFinishedCheckpoint freq lastClosedLedger)
    if catchupStart.1 && catchupStart.2 ≤ lastClosedLedger + 1 then
      some ⟨catchupStart.2, configuration.toLedger, false⟩
    else
      some ⟨catchupStart.2, configuration.toLedger, catchupStart.1⟩
  else
    none

end Functions

variable {freq ledger lcl smallest : UInt32}
  {configuration : CatchupConfiguration}

/-! ## Checkpoints -/

/-- None of the sums for a ledger overflows. -/
def Fits (freq ledger : UInt32) : Prop :=
  ledger.toNat + 1 + freq.toNat < 2 ^ 32

/-- The checkpoint ends the block of `freq` ledgers the ledger is in. -/
structure IsCheckpoint (freq ledger checkpoint : ℕ) : Prop where
  multiple : freq ∣ checkpoint + 1
  notBefore : ledger ≤ checkpoint
  near : checkpoint < ledger + freq

theorem checkpointContaining_isCheckpoint (positive : 0 < freq.toNat)
    (fits : Fits freq ledger) :
    IsCheckpoint freq.toNat ledger.toNat
      (checkpointContaining freq ledger).toNat := by
  unfold Fits at fits
  have value : (checkpointContaining freq ledger).toNat + 1 =
      (ledger.toNat / freq.toNat + 1) * freq.toNat :=
    toNat_roundUp positive (by omega)
  have lower := Nat.lt_div_mul_add positive (a := ledger.toNat)
  have upper := Nat.div_mul_le_self ledger.toNat freq.toNat
  refine ⟨⟨_, value.trans (Nat.mul_comm _ _)⟩, ?_, ?_⟩
  · rw [Nat.add_mul, Nat.one_mul] at value
    omega
  · rw [Nat.add_mul, Nat.one_mul] at value
    omega

/-- Two checkpoints are the same or a block apart. -/
theorem add_le_of_lt {freq first second : ℕ} (isFirst : freq ∣ first + 1)
    (isSecond : freq ∣ second + 1) (before : first < second) :
    first + freq ≤ second := by
  have distance : freq ∣ second + 1 - (first + 1) :=
    Nat.dvd_sub isSecond isFirst
  have large := Nat.le_of_dvd (by omega) distance
  omega

theorem firstNotFinishedCheckpoint_spec (positive : 0 < freq.toNat)
    (fits : Fits freq lcl) :
    freq.toNat ∣ (firstNotFinishedCheckpoint freq lcl).toNat + 1 ∧
      lcl.toNat < (firstNotFinishedCheckpoint freq lcl).toNat ∧
      (firstNotFinishedCheckpoint freq lcl).toNat ≤
        lcl.toNat + freq.toNat := by
  obtain ⟨multiple, notBefore, near⟩ :=
    checkpointContaining_isCheckpoint positive fits
  unfold Fits at fits
  unfold firstNotFinishedCheckpoint
  by_cases unfinished : lcl < checkpointContaining freq lcl
  · rw [if_pos unfinished]
    rw [UInt32.lt_iff_toNat_lt] at unfinished
    exact ⟨multiple, unfinished, near.le⟩
  · rw [if_neg unfinished]
    rw [UInt32.lt_iff_toNat_lt] at unfinished
    have last : (checkpointContaining freq lcl).toNat = lcl.toNat := by
      omega
    have sum : (checkpointContaining freq lcl + freq).toNat =
        lcl.toNat + freq.toNat := by
      rw [UInt32.toNat_add, last]
      exact Nat.mod_eq_of_lt (by omega)
    rw [sum]
    rw [last] at multiple
    refine ⟨?_, by omega, le_rfl⟩
    rw [Nat.add_right_comm]
    exact Nat.dvd_add_self_right.mpr multiple

/-! ## The start -/

/-- The first ledger of the last `count` ledgers, none of which is before the
genesis ledger. -/
theorem toNat_firstNeededLedger (configuration : CatchupConfiguration) :
    (firstNeededLedger configuration).toNat =
      configuration.toLedger.toNat - max configuration.count.toNat 1 + 1 := by
  have count : (max configuration.count 1).toNat =
      max configuration.count.toNat 1 := toNat_max _ _
  have bound := configuration.toLedger.toNat_lt
  unfold firstNeededLedger
  dsimp only
  split
  case isTrue more =>
      rw [gt_iff_lt, UInt32.lt_iff_toNat_lt, count] at more
      rw [UInt32.toNat_add, UInt32.toNat_sub_of_le, count, UInt32.toNat_one]
      · exact Nat.mod_eq_of_lt (by omega)
      · rw [UInt32.le_iff_toNat_le, count]
        exact more.le
  case isFalse notMore =>
      rw [gt_iff_lt, UInt32.lt_iff_toNat_lt, count, Nat.not_lt] at notMore
      rw [Nat.sub_eq_zero_of_le notMore]
      rfl

/-- The three ways to start. -/
inductive Start (freq smallest smallestBucket : UInt32) :
    Bool × UInt32 → Prop
  | atBoundary (boundary : freq.toNat ∣ smallest.toNat + 1) :
      Start freq smallest smallestBucket (true, smallest)
  | within (near : (checkpointContaining freq smallest).toNat <
      smallestBucket.toNat + freq.toNat) :
      Start freq smallest smallestBucket (false, smallest)
  | previous {start : UInt32} (boundary : freq.toNat ∣ start.toNat + 1)
      (notBefore : smallestBucket.toNat ≤ start.toNat)
      (less : start.toNat < smallest.toNat)
      (near : smallest.toNat < start.toNat + freq.toNat) :
      Start freq smallest smallestBucket (true, start)

theorem computeCatchupStart_start {smallestBucket : UInt32}
    (positive : 0 < freq.toNat) (fits : Fits freq smallest) :
    Start freq smallest smallestBucket
      (computeCatchupStart freq smallest smallestBucket) := by
  obtain ⟨multiple, notBefore, near⟩ :=
    checkpointContaining_isCheckpoint positive fits
  have predecessor : (freq - 1).toNat = freq.toNat - 1 :=
    UInt32.toNat_sub_of_le _ _ (UInt32.le_iff_toNat_le.mpr positive)
  unfold computeCatchupStart
  by_cases boundary : smallest = checkpointContaining freq smallest
  · rw [if_pos boundary, ← boundary]
    rw [← boundary] at multiple
    exact .atBoundary multiple
  rw [if_neg boundary]
  by_cases early : smallest < freq - 1
  · rw [if_pos early]
    rw [UInt32.lt_iff_toNat_lt, predecessor] at early
    refine .within ?_
    by_contra later
    have first : freq.toNat ∣ freq.toNat - 1 + 1 := by
      rw [Nat.sub_add_cancel positive]
    have farther := add_le_of_lt first multiple (by omega)
    omega
  rw [if_neg early]
  rw [UInt32.lt_iff_toNat_lt, predecessor] at early
  have different : smallest.toNat ≠
      (checkpointContaining freq smallest).toNat :=
    fun same => boundary (UInt32.toNat_inj.mp same)
  have difference : (checkpointContaining freq smallest - freq).toNat =
      (checkpointContaining freq smallest).toNat - freq.toNat := by
    refine UInt32.toNat_sub_of_le _ _ (UInt32.le_iff_toNat_le.mpr ?_)
    omega
  by_cases applicable :
      checkpointContaining freq smallest - freq ≥ smallestBucket
  · rw [if_pos applicable]
    rw [ge_iff_le, UInt32.le_iff_toNat_le, difference] at applicable
    refine .previous ?_ ?_ ?_ ?_
    · rw [difference]
      have shifted := Nat.dvd_sub multiple (Nat.dvd_refl freq.toNat)
      rwa [Nat.sub_add_comm (by omega)] at shifted
    · rwa [difference]
    · omega
    · omega
  · rw [if_neg applicable]
    rw [ge_iff_le, UInt32.le_iff_toNat_le, difference] at applicable
    exact .within (by omega)

/-! ## The range -/

/-- The range replays the last `count` ledgers, and not many more. -/
def CatchupRange.Covers (freq lcl : UInt32)
    (configuration : CatchupConfiguration) (range : CatchupRange) : Prop :=
  if range.applyBuckets then
    freq.toNat ∣ range.first.toNat + 1 ∧
      lcl.toNat + 1 < range.first.toNat ∧
      configuration.count.toNat ≤
        range.last.toNat - range.first.toNat + 1 ∧
      range.last.toNat - range.first.toNat + 1 ≤
        configuration.count.toNat + freq.toNat
  else
    (checkpointContaining freq range.first).toNat ≤
        lcl.toNat + freq.toNat ∧
      range.last.toNat - lcl.toNat ≤
        configuration.count.toNat + freq.toNat

theorem lcl_le_smallestLedgerToApply (lcl : UInt32)
    (configuration : CatchupConfiguration) :
    lcl.toNat ≤ (smallestLedgerToApply lcl configuration).toNat := by
  unfold smallestLedgerToApply
  rw [toNat_max]
  exact Nat.le_max_right _ _

/-- Not more than `count` ledgers are left from there on, and that many unless
it is the last closed one. -/
theorem smallestLedgerToApply_spec (closed : 1 ≤ lcl.toNat)
    (notBefore : lcl.toNat ≤ configuration.toLedger.toNat) :
    (smallestLedgerToApply lcl configuration).toNat ≤
        configuration.toLedger.toNat ∧
      configuration.toLedger.toNat <
        (smallestLedgerToApply lcl configuration).toNat +
          max configuration.count.toNat 1 ∧
      (lcl.toNat < (smallestLedgerToApply lcl configuration).toNat →
        (smallestLedgerToApply lcl configuration).toNat +
          max configuration.count.toNat 1 =
            configuration.toLedger.toNat + 1) := by
  unfold smallestLedgerToApply
  rw [toNat_max, toNat_firstNeededLedger]
  refine ⟨by omega, by omega, ?_⟩
  intro later
  omega

theorem covers_of_buckets {first : UInt32}
    (boundary : freq.toNat ∣ first.toNat + 1)
    (later : lcl.toNat + 1 < first.toNat)
    (enough : configuration.count.toNat ≤
      configuration.toLedger.toNat - first.toNat + 1)
    (few : configuration.toLedger.toNat - first.toNat + 1 ≤
      configuration.count.toNat + freq.toNat) :
    CatchupRange.Covers freq lcl configuration
      ⟨first, configuration.toLedger, true⟩ := by
  unfold CatchupRange.Covers
  rw [if_pos rfl]
  exact ⟨boundary, later, enough, few⟩

theorem covers_of_ledgers {first : UInt32}
    (checkpoint : (checkpointContaining freq first).toNat ≤
      lcl.toNat + freq.toNat)
    (few : configuration.toLedger.toNat - lcl.toNat ≤
      configuration.count.toNat + freq.toNat) :
    CatchupRange.Covers freq lcl configuration
      ⟨first, configuration.toLedger, false⟩ := by
  unfold CatchupRange.Covers
  rw [if_neg Bool.false_ne_true]
  exact ⟨checkpoint, few⟩

/-- The first checkpoint of a range that starts at `lcl + 1` at the latest. -/
theorem checkpointContaining_le {first : UInt32} (positive : 0 < freq.toNat)
    (fits : Fits freq first) (early : first.toNat ≤ lcl.toNat + 1) :
    (checkpointContaining freq first).toNat ≤ lcl.toNat + freq.toNat := by
  have near := (checkpointContaining_isCheckpoint positive fits).near
  omega

theorem makeCatchupRange_eq (fits : Fits freq lcl) (closed : 1 ≤ lcl.toNat)
    (notBefore : lcl.toNat ≤ configuration.toLedger.toNat)
    {start : Bool × UInt32}
    (starts : computeCatchupStart freq
      (smallestLedgerToApply lcl configuration)
      (firstNotFinishedCheckpoint freq lcl) = start) :
    makeCatchupRange freq lcl configuration = some ⟨start.2,
      configuration.toLedger,
      start.1 && decide (lcl.toNat + 1 < start.2.toNat)⟩ := by
  have positive : lcl > 0 := UInt32.lt_iff_toNat_lt.mpr closed
  have target : configuration.toLedger ≥ lcl :=
    UInt32.le_iff_toNat_le.mpr notBefore
  have known : configuration.toLedger ≠ 0 := by
    intro zero
    rw [zero, UInt32.toNat_zero] at notBefore
    omega
  have next : (lcl + 1).toNat = lcl.toNat + 1 := by
    unfold Fits at fits
    rw [UInt32.toNat_add, UInt32.toNat_one]
    exact Nat.mod_eq_of_lt (by omega)
  unfold makeCatchupRange
  rw [if_pos ⟨positive, target, known⟩, starts]
  dsimp only
  obtain ⟨buckets, first⟩ := start
  by_cases early : first ≤ lcl + 1
  · have notLater : ¬ lcl.toNat + 1 < first.toNat := by
      rw [UInt32.le_iff_toNat_le, next] at early
      omega
    cases buckets with
    | false => simp
    | true => simp [early, notLater]
  · have later : lcl.toNat + 1 < first.toNat := by
      rw [UInt32.le_iff_toNat_le, next] at early
      omega
    cases buckets with
    | false => simp
    | true => simp [early, later]

/-- The range ends at the target, starts at the last closed ledger at the
earliest, and covers what is asked for. -/
theorem makeCatchupRange_covers (positive : 0 < freq.toNat)
    (closed : 1 ≤ lcl.toNat)
    (notBefore : lcl.toNat ≤ configuration.toLedger.toNat)
    (fits : Fits freq (smallestLedgerToApply lcl configuration)) :
    ∃ range, makeCatchupRange freq lcl configuration = some range ∧
      range.last = configuration.toLedger ∧
      lcl.toNat ≤ range.first.toNat ∧
      range.first.toNat ≤ range.last.toNat ∧
      range.Covers freq lcl configuration := by
  have fromLcl := lcl_le_smallestLedgerToApply lcl configuration
  obtain ⟨toTarget, few, enough⟩ :=
    smallestLedgerToApply_spec closed notBefore
  have fitsLcl : Fits freq lcl := by
    unfold Fits at fits ⊢
    omega
  obtain ⟨bucketMultiple, _, bucketNear⟩ :=
    firstNotFinishedCheckpoint_spec positive fitsLcl
  have start : Start freq (smallestLedgerToApply lcl configuration)
      (firstNotFinishedCheckpoint freq lcl) _ :=
    computeCatchupStart_start positive fits
  generalize starts : computeCatchupStart freq
    (smallestLedgerToApply lcl configuration)
    (firstNotFinishedCheckpoint freq lcl) = computed at start
  refine ⟨_, makeCatchupRange_eq fitsLcl closed notBefore starts, rfl, ?_⟩
  generalize smallestLedgerToApply lcl configuration = first at *
  have asked := Nat.le_max_left configuration.count.toNat 1
  have atMost : max configuration.count.toNat 1 ≤
      configuration.count.toNat + 1 := by
    omega
  generalize max configuration.count.toNat 1 = count at *
  cases start with
  | atBoundary boundary =>
      dsimp only
      refine ⟨fromLcl, toTarget, ?_⟩
      by_cases later : lcl.toNat + 1 < first.toNat
      · have left := enough (by omega)
        rw [decide_eq_true later]
        exact covers_of_buckets boundary later (by omega) (by omega)
      · rw [decide_eq_false later]
        exact covers_of_ledgers
          (checkpointContaining_le positive fits (by omega)) (by omega)
  | within near =>
      obtain ⟨multiple, soon, _⟩ :=
        checkpointContaining_isCheckpoint positive fits
      have atBucket : (checkpointContaining freq first).toNat ≤
          (firstNotFinishedCheckpoint freq lcl).toNat := by
        by_contra farther
        have apart := add_le_of_lt bucketMultiple multiple (by omega)
        omega
      refine ⟨fromLcl, toTarget, ?_⟩
      dsimp only
      rw [Bool.false_and]
      exact covers_of_ledgers (by omega) (by omega)
  | @previous start boundary notBefore less near =>
      have left := enough (by omega)
      dsimp only
      refine ⟨by omega, by omega, ?_⟩
      by_cases later : lcl.toNat + 1 < start.toNat
      · rw [decide_eq_true later]
        exact covers_of_buckets boundary later (by omega) (by omega)
      · have fitsStart : Fits freq start := by
          unfold Fits at fits ⊢
          omega
        rw [decide_eq_false later]
        exact covers_of_ledgers
          (checkpointContaining_le positive fitsStart (by omega)) (by omega)

theorem makeCatchupRange_covers_twenty :
    ∃ range, makeCatchupRange 64 65 ⟨200, 20⟩ = some range ∧
      range.last = 200 ∧ 65 ≤ range.first.toNat ∧
      range.first.toNat ≤ range.last.toNat ∧ range.Covers 64 65 ⟨200, 20⟩ :=
  makeCatchupRange_covers (by decide) (by decide) (by decide)
    (by unfold Fits; decide)

/-- The buckets of the checkpoint before the one of ledger 181. -/
example : makeCatchupRange 64 65 ⟨200, 20⟩ = some ⟨127, 200, true⟩ := by
  decide

end StellarCore.Catchup
