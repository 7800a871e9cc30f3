import Mathlib.Order.Interval.Set.Nat
import StellarCore.Buckets.BucketSizes
import StellarCore.Buckets.NewestRecord

/-!
# The ledgers in the buckets of a run

The sizes and the oldest ledgers that are computed from the number of the
last ledger are those of the buckets, whatever batches were added.  A key that
one ledger alone has written tells in which bucket the batch of the ledger is.
-/

namespace StellarCore.Buckets

open StellarCore.Lib

/-! ## Ranges -/

/-- The ledgers from the oldest on. -/
def InRange (oldest size : UInt32) (m : ℕ) : Prop :=
  oldest.toNat ≤ m ∧ m < oldest.toNat + size.toNat

section Ranges

variable {ledger : UInt32} {level : ℕ}

/-- What is left of the count has not been passed on. -/
theorem countAbove_eq (valid : level ≤ kNumLevels) (nonzero : ledger ≠ 0) :
    ∃ count, countAbove ledger level = some count ∧
      count.toNat = boundary ledger.toNat (2 * level) := by
  induction level with
  | zero => exact ⟨ledger, rfl, (boundary_zero _).symm⟩
  | succ level ih =>
      have inside : level < kNumLevels := valid
      obtain ⟨count, counted, value⟩ := ih inside.le
      have below := hasSize_below inside.le nonzero
      have curr := hasSize_curr inside nonzero below
      obtain ⟨snap, foundSnap, sumSnap⟩ :=
        hasSize_snap inside nonzero below curr
      obtain ⟨here, foundHere, sumHere⟩ := curr
      have leHere : here ≤ count := UInt32.le_iff_toNat_le.mpr (by omega)
      have difference := UInt32.toNat_sub_of_le _ _ leHere
      have leSnap : snap ≤ count - here :=
        UInt32.le_iff_toNat_le.mpr (by omega)
      rw [countAbove, counted, foundHere, foundSnap]
      refine ⟨count - here - snap, rfl, ?_⟩
      rw [UInt32.toNat_sub_of_le _ _ leSnap, Nat.mul_add_one]
      omega

/-- The oldest ledger is the first one after the lower boundary, or too large
if the size is zero. -/
theorem inRange_iff {size oldest : UInt32} {lo hi : ℕ}
    (sum : size.toNat + lo = hi)
    (first : size ≠ 0 → oldest.toNat = lo + 1) (m : ℕ) :
    InRange oldest size m ↔ lo < m ∧ m ≤ hi := by
  unfold InRange
  by_cases none : size = 0
  · rw [none, UInt32.toNat_zero] at sum ⊢
    omega
  · rw [first none]
    omega

theorem oldestLedgerInCurr_spec (valid : level < kNumLevels)
    (nonzero : ledger ≠ 0) :
    ∃ size oldest, sizeOfCurr ledger level = some size ∧
      oldestLedgerInCurr ledger level = some oldest ∧
      ∀ m, InRange oldest size m ↔
        boundary ledger.toNat (2 * level + 1) < m ∧
          m ≤ boundary ledger.toNat (2 * level) := by
  have below := hasSize_below valid.le nonzero
  obtain ⟨size, found, sum⟩ := hasSize_curr valid nonzero below
  obtain ⟨count, counted, value⟩ := countAbove_eq valid.le nonzero
  have small := (boundary_antitone ledger.toNat) (Nat.zero_le (2 * level))
  have bound := ledger.toNat_lt
  rw [boundary_zero] at small
  unfold oldestLedgerInCurr
  rw [found, counted]
  by_cases none : size = 0
  · refine ⟨size, _, rfl, if_pos none, inRange_iff sum ?_⟩
    exact fun some => absurd none some
  · refine ⟨size, _, rfl, if_neg none, inRange_iff sum ?_⟩
    intro _
    have le : size ≤ count := UInt32.le_iff_toNat_le.mpr (by omega)
    rw [UInt32.toNat_add, UInt32.toNat_sub_of_le _ _ le, UInt32.toNat_one]
    have positive : size.toNat ≠ 0 :=
      fun zero => none (UInt32.toNat_inj.mp zero)
    exact (Nat.mod_eq_of_lt (by omega)).trans (by omega)

theorem oldestLedgerInSnap_spec (valid : level < kNumLevels)
    (nonzero : ledger ≠ 0) :
    ∃ size oldest, sizeOfSnap ledger level = some size ∧
      oldestLedgerInSnap ledger level = some oldest ∧
      ∀ m, InRange oldest size m ↔
        boundary ledger.toNat (2 * level + 2) < m ∧
          m ≤ boundary ledger.toNat (2 * level + 1) := by
  have below := hasSize_below valid.le nonzero
  obtain ⟨size, found, sum⟩ := hasSize_snap valid nonzero below
    (hasSize_curr valid nonzero below)
  obtain ⟨count, counted, value⟩ := countAbove_eq
    (by omega : level + 1 ≤ kNumLevels) nonzero
  have small := (boundary_antitone ledger.toNat)
    (Nat.zero_le (2 * level + 1))
  have bound := ledger.toNat_lt
  rw [boundary_zero] at small
  rw [Nat.mul_add_one] at value
  unfold oldestLedgerInSnap
  rw [found, counted]
  by_cases none : size = 0
  · refine ⟨size, _, rfl, if_pos none, inRange_iff sum ?_⟩
    exact fun some => absurd none some
  · refine ⟨size, _, rfl, if_neg none, inRange_iff sum ?_⟩
    intro _
    have positive : size.toNat ≠ 0 :=
      fun zero => none (UInt32.toNat_inj.mp zero)
    rw [UInt32.toNat_add, UInt32.toNat_one, Nat.mod_eq_of_lt (by omega)]
    omega

end Ranges

/-! ## Buckets of a run -/

def sizeOfBucket (ledger : UInt32) (level : ℕ) (isCurr : Bool) :
    Option UInt32 :=
  if isCurr then sizeOfCurr ledger level else sizeOfSnap ledger level

def oldestLedgerInBucket (ledger : UInt32) (level : ℕ) (isCurr : Bool) :
    Option UInt32 :=
  if isCurr then oldestLedgerInCurr ledger level
  else oldestLedgerInSnap ledger level

/-- The subtractions for a ledger do not underflow. -/
def NoUnderflow (ledger : UInt32) : Prop :=
  ∀ level < kNumLevels, ∃ blsize curr snap,
    sizeBelow ledger level = some blsize ∧
      sizeOfCurr ledger level = some curr ∧
      sizeOfSnap ledger level = some snap ∧
      blsize.toNat + curr.toNat + snap.toNat ≤ ledger.toNat

variable {κ ε η : Type} [LinearOrder κ]

def BucketLevel.bucket (level : BucketLevel κ ε η) (isCurr : Bool) :
    Bucket κ ε :=
  if isCurr then level.mCurr else level.mSnap

/-- Only one ledger has written the key, and with a live entry. -/
def OnlyWrites (keyOf : ε → κ) (written : List (List ε × List κ)) (m : ℕ)
    (key : κ) : Prop :=
  (∃ entry, writesOf keyOf written m key = some (.liveEntry entry)) ∧
    ∀ other, other ≠ m → writesOf keyOf written other key = none

/-- The bucket has a record of what only this ledger has written. -/
def Represents (keyOf : ε → κ) (written : List (List ε × List κ))
    (bucket : Bucket κ ε) (m : ℕ) : Prop :=
  ∃ key, OnlyWrites keyOf written m key ∧ key ∈ keys keyOf bucket

/-- The bucket has the batches of the ledgers of the range, and of no other
ledger. -/
structure HasRange (keyOf : ε → κ) (written : List (List ε × List κ))
    (bucket : Bucket κ ε) (oldest size : UInt32) : Prop where
  exactly : ∀ m key, OnlyWrites keyOf written m key →
    (key ∈ keys keyOf bucket ↔ InRange oldest size m)
  count : (∀ m, InRange oldest size m → ∃ key,
      OnlyWrites keyOf written m key) →
    {m | Represents keyOf written bucket m}.ncard = size.toNat

variable {keyOf : ε → κ} {written : List (List ε × List κ)}

theorem HasRange.of_holds {bucket : Bucket κ ε} {oldest size : UInt32}
    {now lo hi : ℕ} {keepDeadEntries : Bool}
    (holds : Holds keyOf (writesOf keyOf written) now lo hi keepDeadEntries
      bucket)
    (range : ∀ m, InRange oldest size m ↔ lo < m ∧ m ≤ hi) :
    HasRange keyOf written bucket oldest size := by
  have exactly : ∀ m key, OnlyWrites keyOf written m key →
      (key ∈ keys keyOf bucket ↔ InRange oldest size m) := by
    rintro m key ⟨⟨entry, wrote⟩, only⟩
    have isKept : kept keepDeadEntries (.liveEntry entry :
        BucketEntry κ ε) = true := by
      cases keepDeadEntries with
      | false => rfl
      | true => rfl
    have found := holds.covers.of_only wrote isKept only
    rw [range, ← not_iff_not, ← lookup_eq_none_iff, found]
    simp
  refine ⟨exactly, ?_⟩
  intro each
  have same : {m | Represents keyOf written bucket m} =
      Set.Ico oldest.toNat (oldest.toNat + size.toNat) := by
    ext m
    constructor
    · rintro ⟨key, only, inside⟩
      exact (exactly m key only).mp inside
    · intro inRange
      obtain ⟨key, only⟩ := each m inRange
      exact ⟨key, only, (exactly m key only).mpr inRange⟩
  rw [same, Set.ncard_Ico_nat, Nat.add_sub_cancel_left]

theorem noUnderflow {ledger : UInt32} (nonzero : ledger ≠ 0) :
    NoUnderflow ledger := by
  intro level valid
  have below := hasSize_below valid.le nonzero
  have curr := hasSize_curr valid nonzero below
  obtain ⟨snap, foundSnap, sumSnap⟩ := hasSize_snap valid nonzero below curr
  obtain ⟨blsize, foundBelow, sumBelow⟩ := below
  obtain ⟨here, foundHere, sumHere⟩ := curr
  exact ⟨blsize, here, snap, foundBelow, foundHere, foundSnap, by omega⟩

/-- Where the bucket stands in the list. -/
def placeOf (level : ℕ) (isCurr : Bool) : ℕ :=
  2 * level + if isCurr then 0 else 1

theorem bucketRange {ledger : UInt32} (nonzero : ledger ≠ 0) (level : ℕ)
    (isCurr : Bool) :
    ∃ size oldest, level < kNumLevels →
      sizeOfBucket ledger level isCurr = some size ∧
        oldestLedgerInBucket ledger level isCurr = some oldest ∧
        ∀ m, InRange oldest size m ↔
          boundary ledger.toNat (placeOf level isCurr + 1) < m ∧
            m ≤ boundary ledger.toNat (placeOf level isCurr) := by
  by_cases valid : level < kNumLevels
  · cases isCurr with
    | true =>
        obtain ⟨size, oldest, spec⟩ := oldestLedgerInCurr_spec valid nonzero
        exact ⟨size, oldest, fun _ => spec⟩
    | false =>
        obtain ⟨size, oldest, spec⟩ := oldestLedgerInSnap_spec valid nonzero
        exact ⟨size, oldest, fun _ => spec⟩
  · exact ⟨0, 0, fun inside => absurd inside valid⟩

/-- Every ledger up to the last one lies between two boundaries. -/
theorem exists_place {now m : ℕ} (positive : 0 < m) (le : m ≤ now) :
    ∃ level isCurr, level < kNumLevels ∧
      boundary now (placeOf level isCurr + 1) < m ∧
        m ≤ boundary now (placeOf level isCurr) := by
  have bottom : boundary now (21 + 1) < m := by
    rw [boundary_bottom now (by decide)]
    exact positive
  have some : ∃ p, boundary now (p + 1) < m := ⟨21, bottom⟩
  have least := Nat.find_min' some bottom
  have above : m ≤ boundary now (Nat.find some) := by
    cases found : Nat.find some with
    | zero => rwa [boundary_zero]
    | succ p =>
        exact not_lt.mp (Nat.find_min some (by omega))
  have holds := Nat.find_spec some
  refine ⟨Nat.find some / 2, decide (Nat.find some % 2 = 0), ?_, ?_⟩
  · unfold kNumLevels
    omega
  · have same : placeOf (Nat.find some / 2)
        (decide (Nat.find some % 2 = 0)) = Nat.find some := by
      unfold placeOf
      by_cases even : Nat.find some % 2 = 0
      · simp only [even, decide_true, if_true]
        omega
      · simp only [even, decide_false, Bool.false_eq_true, if_false]
        omega
    rw [same]
    exact ⟨holds, above⟩

theorem place_unique {now m first second : ℕ}
    (inFirst : boundary now (first + 1) < m ∧ m ≤ boundary now first)
    (inSecond : boundary now (second + 1) < m ∧ m ≤ boundary now second) :
    first = second := by
  rcases lt_trichotomy first second with less | same | greater
  · have below := boundary_antitone now (show first + 1 ≤ second from less)
    omega
  · exact same
  · have below := boundary_antitone now (show second + 1 ≤ first from greater)
    omega

theorem placeOf_injective {first second : ℕ} {isCurr other : Bool}
    (same : placeOf first isCurr = placeOf second other) :
    first = second ∧ isCurr = other := by
  unfold placeOf at same
  cases isCurr with
  | true =>
      cases other with
      | true => exact ⟨by simpa using same, rfl⟩
      | false => simp at same; omega
  | false =>
      cases other with
      | true => simp at same; omega
      | false => exact ⟨by simpa using same, rfl⟩

/-- The ranges computed for the last ledger are those of the buckets, and
together they are the ledgers up to the last one. -/
structure RangesOfRun (keyOf : ε → κ) (written : List (List ε × List κ))
    (bl : BucketList κ ε η) (size oldest : ℕ → Bool → UInt32) : Prop where
  buckets : ∀ level < kNumLevels, ∃ bucketLevel,
    bl.mLevels[level]? = some bucketLevel ∧
      ∀ isCurr,
        sizeOfBucket (UInt32.ofNat written.length) level isCurr =
          some (size level isCurr) ∧
        oldestLedgerInBucket (UInt32.ofNat written.length) level isCurr =
          some (oldest level isCurr) ∧
        HasRange keyOf written (bucketLevel.bucket isCurr)
          (oldest level isCurr) (size level isCurr)
  inside : ∀ level < kNumLevels, ∀ isCurr m,
    InRange (oldest level isCurr) (size level isCurr) m →
      1 ≤ m ∧ m ≤ written.length
  partition : ∀ m, 1 ≤ m → m ≤ written.length →
    ∃! place : ℕ × Bool, place.1 < kNumLevels ∧
      InRange (oldest place.1 place.2) (size place.1 place.2) m
  noUnderflow : ∀ ledger : UInt32, ledger ≠ 0 → NoUnderflow ledger

theorem run_ranges [DecidableEq η] (bucketHash : Bucket κ ε → η)
    (keyOf : ε → κ) (uninitialized : ℕ → Bool)
    (events : List (BucketListEvent κ ε))
    (onePerKey : OneRecordPerKey keyOf events)
    (closed : 1 ≤ (batches events).length)
    (bounded : (batches events).length < 2 ^ 32) :
    ∃ (final : BucketListRun κ ε η) (size oldest : ℕ → Bool → UInt32),
      BucketListRun.run bucketHash keyOf
          { bucketList := BucketList.new uninitialized } events =
        some final ∧
      RangesOfRun keyOf (batches events) final.bucketList size oldest := by
  obtain ⟨final, runs, count, levels, same, holds⟩ :=
    run_new_holds bucketHash keyOf uninitialized onePerKey bounded
  have number : (UInt32.ofNat (batches events).length).toNat =
      (batches events).length := by
    rw [UInt32.toNat_ofNat', Nat.mod_eq_of_lt bounded]
  have nonzero : UInt32.ofNat (batches events).length ≠ 0 := by
    intro zero
    rw [zero, UInt32.toNat_zero] at number
    omega
  choose size oldest ranges using bucketRange nonzero
  rw [number] at ranges
  refine ⟨final, size, oldest, runs, ?_, ?_, ?_, fun other => noUnderflow⟩
  · intro level valid
    have held := holds level valid
    rw [count] at held
    refine ⟨levels level, ?_, ?_⟩
    · rw [same]
      exact map_range_getElem levels valid
    · intro isCurr
      obtain ⟨found, foundOldest, range⟩ := ranges level isCurr valid
      refine ⟨found, foundOldest, ?_⟩
      cases isCurr with
      | true => exact .of_holds held.curr range
      | false => exact .of_holds held.snap range
  · intro level valid isCurr m inRange
    obtain ⟨_, _, range⟩ := ranges level isCurr valid
    obtain ⟨later, notLater⟩ := (range m).mp inRange
    have top := boundary_antitone (batches events).length
      (Nat.zero_le (placeOf level isCurr))
    rw [boundary_zero] at top
    omega
  · intro m positive le
    obtain ⟨level, isCurr, valid, inside⟩ := exists_place positive le
    obtain ⟨_, _, range⟩ := ranges level isCurr valid
    refine ⟨(level, isCurr), ⟨valid, (range m).mpr inside⟩, ?_⟩
    rintro ⟨other, otherCurr⟩ ⟨otherValid, otherInside⟩
    obtain ⟨_, _, otherRange⟩ := ranges other otherCurr otherValid
    obtain ⟨sameLevel, sameCurr⟩ := placeOf_injective
      (place_unique ((otherRange m).mp otherInside) inside)
    rw [sameLevel, sameCurr]

/-- Each ledger writes a key of its own. -/
def threeBatches : List (BucketListEvent ℕ (ℕ × ℕ)) :=
  [.addBatch [(1, 7)] [], .addBatch [(2, 8)] [],
    .resolveNext ⟨1, one_lt_kNumLevels⟩, .addBatch [(3, 9)] [1]]

theorem run_ranges_three :
    ∃ (final : BucketListRun ℕ (ℕ × ℕ) (Bucket ℕ (ℕ × ℕ)))
      (size oldest : ℕ → Bool → UInt32),
      BucketListRun.run id Prod.fst
          { bucketList := BucketList.new (fun _ => false) } threeBatches =
        some final ∧
      RangesOfRun Prod.fst (batches threeBatches) final.bucketList size
        oldest :=
  run_ranges id Prod.fst (fun _ => false) threeBatches
    (by unfold OneRecordPerKey; decide) (by decide) (by decide)

end StellarCore.Buckets
