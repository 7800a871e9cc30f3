import StellarCore.Buckets.LevelSteps
import StellarCore.Buckets.Schedule
import StellarCore.Lib.Layers

/-!
# The ledgers that a level covers

The buckets of the list cover adjacent intervals of ledgers.  The merge of a
level covers the snap of the level above, together with the level's own
`curr` unless that is snapped when the merge is committed.
-/

namespace StellarCore.Buckets

open StellarCore.Lib

/-- After `now` ledgers, the bucket at place `p` of the list covers the
ledgers after `boundary now (p + 1)` up to `boundary now p`: `curr` of a
level stands at an even place and `snap` at the next one. -/
def boundary : ℕ → ℕ → ℕ
  | 0, _ => 0
  | now + 1, 0 => now + 1
  | now + 1, p + 1 =>
      if Spills (now + 1) (p / 2) then boundary now p
      else boundary now (p + 1)

@[simp] theorem boundary_zero (now : ℕ) : boundary now 0 = now := by
  cases now with
  | zero => rfl
  | succ now => rfl

theorem boundary_of_spills {now p level : ℕ} (place : p / 2 = level)
    (spills : Spills (now + 1) level) :
    boundary (now + 1) (p + 1) = boundary now p := by
  rw [boundary, place, if_pos spills]

theorem boundary_of_not_spills {now p level : ℕ} (place : p / 2 = level)
    (quiet : ¬ Spills (now + 1) level) :
    boundary (now + 1) (p + 1) = boundary now (p + 1) := by
  rw [boundary, place, if_neg quiet]

theorem boundary_antitone (now : ℕ) : Antitone (boundary now) := by
  apply antitone_nat_of_succ_le
  induction now with
  | zero => exact fun _ => le_rfl
  | succ now ih =>
      have below : ∀ p, boundary (now + 1) (p + 1) ≤ boundary now p := by
        intro p
        rw [boundary]
        split
        · exact le_rfl
        · exact ih p
      intro p
      cases p with
      | zero =>
          have first := below 0
          rw [boundary_zero] at first ⊢
          omega
      | succ p =>
          refine (below (p + 1)).trans ?_
          rw [boundary]
          split
          · exact ih p
          · exact le_rfl

/-- The last level does not spill, so it reaches back to the start. -/
theorem boundary_bottom (now : ℕ) {p : ℕ} (last : 2 * kNumLevels - 1 ≤ p) :
    boundary now p = 0 := by
  induction now with
  | zero => rfl
  | succ now ih =>
      obtain ⟨q, rfl⟩ : ∃ q, p = q + 1 := by
        refine ⟨p - 1, ?_⟩
        unfold kNumLevels at last
        omega
      have quiet : ¬ Spills (now + 1) (q / 2) := by
        rintro ⟨inner, _⟩
        unfold kNumLevels at last inner
        omega
      rw [boundary_of_not_spills rfl quiet, ih]

/-- Whether the merges of a level keep dead records. -/
def keepsDead (level : ℕ) : Bool :=
  decide (level < kNumLevels - 1)

theorem Spills.keepsDead {ledger level : ℕ}
    (spills : Spills ledger level) : keepsDead level = true :=
  decide_eq_true spills.1

variable {κ ε η : Type} [LinearOrder κ]

/-- The bucket is sorted and covers the writes of the interval. -/
structure Holds (keyOf : ε → κ)
    (writes : ℕ → κ → Option (BucketEntry κ ε)) (now lo hi : ℕ)
    (keepDeadEntries : Bool) (bucket : Bucket κ ε) : Prop where
  sorted : Sorted keyOf bucket
  covers : Covers writes now lo hi (kept keepDeadEntries)
    (lookup keyOf bucket)

namespace Holds

variable {keyOf : ε → κ} {writes : ℕ → κ → Option (BucketEntry κ ε)}
  {now lo mid hi : ℕ} {keepDeadEntries : Bool}

theorem empty (le : lo ≤ now) :
    Holds keyOf writes now lo lo keepDeadEntries [] :=
  ⟨List.Pairwise.nil, Covers.empty le⟩

theorem later {bucket : Bucket κ ε} {next : ℕ}
    (holds : Holds keyOf writes now lo hi keepDeadEntries bucket)
    (le : now ≤ next) :
    Holds keyOf writes next lo hi keepDeadEntries bucket :=
  ⟨holds.sorted, holds.covers.later le⟩

/-- Shadows are newer than what is merged, and so only hide records that
were written again. -/
theorem merge {old new : Bucket κ ε} {shadows : List (Bucket κ ε)}
    (oldHolds : Holds keyOf writes now lo mid keepDeadEntries old)
    (newHolds : Holds keyOf writes now mid hi true new)
    (shadowsHold : ∀ shadow ∈ shadows, ∃ low high,
      hi ≤ low ∧ Holds keyOf writes now low high true shadow) :
    ∃ merged,
      Buckets.merge keyOf old new shadows keepDeadEntries = some merged ∧
        Holds keyOf writes now lo hi keepDeadEntries merged := by
  obtain ⟨merged, merges, sorted, found⟩ := merge_spec oldHolds.sorted
    newHolds.sorted
    (fun shadow member => by
      obtain ⟨_, _, _, holds⟩ := shadowsHold shadow member
      exact holds.sorted)
    keepDeadEntries
  refine ⟨merged, merges, sorted, ?_⟩
  apply Covers.merge oldHolds.covers newHolds.covers _ found
  rintro key ⟨shadow, member, inside⟩
  obtain ⟨low, high, newer, holds⟩ := shadowsHold shadow member
  apply holds.covers.ne_none_of_layer newer
  rw [Ne, lookup_eq_none_iff, not_not]
  exact inside

end Holds

variable (bucketHash : Bucket κ ε → η) (keyOf : ε → κ)
  (writes : ℕ → κ → Option (BucketEntry κ ε))

/-- The merge of a level either has not started, and then there is no snap
to merge, or it covers what `commit` replaces. -/
def NextHolds (now i : ℕ) (level : BucketLevel κ ε η) : Prop :=
  (level.mNextCurr.IsClear ∧
      boundary now (2 * i) = boundary now (2 * i - 1)) ∨
    i ≠ 0 ∧ ∃ output,
      FutureBucket.Delivers bucketHash keyOf (keepsDead i) level.mNextCurr
          output ∧
        Holds keyOf writes now
          (if Spills (nextChange now i) i then boundary now (2 * i)
            else boundary now (2 * i + 1))
          (boundary now (2 * i - 1)) (keepsDead i) output

structure LevelHolds (now i : ℕ) (level : BucketLevel κ ε η) : Prop where
  index : level.mLevel = i
  curr : Holds keyOf writes now (boundary now (2 * i + 1))
    (boundary now (2 * i)) (keepsDead i) level.mCurr
  snap : Holds keyOf writes now (boundary now (2 * i + 2))
    (boundary now (2 * i + 1)) true level.mSnap
  next : NextHolds bucketHash keyOf writes now i level

/-- A level in the middle of `addBatch`, snapped if it spills and not yet
committed. -/
def halfway (ledger i : ℕ) (level : BucketLevel κ ε η) :
    BucketLevel κ ε η :=
  if Spills ledger i then level.snap else level

variable {bucketHash keyOf writes}

section Halfway

variable {now i : ℕ} {level : BucketLevel κ ε η}

omit [LinearOrder κ] in
@[simp] theorem halfway_mLevel :
    (halfway now i level).mLevel = level.mLevel := by
  unfold halfway
  split
  · rfl
  · rfl

omit [LinearOrder κ] in
@[simp] theorem halfway_mNextCurr :
    (halfway now i level).mNextCurr = level.mNextCurr := by
  unfold halfway
  split
  · rfl
  · rfl

theorem LevelHolds.halfway_snap
    (holds : LevelHolds bucketHash keyOf writes now i level) :
    Holds keyOf writes (now + 1) (boundary (now + 1) (2 * i + 2))
      (boundary (now + 1) (2 * i + 1)) true
      (halfway (now + 1) i level).mSnap := by
  have place₁ : (2 * i) / 2 = i := by omega
  have place₂ : (2 * i + 1) / 2 = i := by omega
  unfold halfway
  by_cases spills : Spills (now + 1) i
  · rw [if_pos spills, boundary_of_spills place₁ spills,
      boundary_of_spills place₂ spills, ← spills.keepsDead]
    exact holds.curr.later (Nat.le_succ now)
  · rw [if_neg spills, boundary_of_not_spills place₁ spills,
      boundary_of_not_spills place₂ spills]
    exact holds.snap.later (Nat.le_succ now)

/-- What is left in `curr` before the commit. -/
theorem LevelHolds.halfway_curr
    (holds : LevelHolds bucketHash keyOf writes now i level) :
    Holds keyOf writes (now + 1) (boundary (now + 1) (2 * i + 1))
      (boundary now (2 * i)) (keepsDead i)
      (halfway (now + 1) i level).mCurr := by
  have place : (2 * i) / 2 = i := by omega
  unfold halfway
  by_cases spills : Spills (now + 1) i
  · rw [if_pos spills, boundary_of_spills place spills]
    apply Holds.empty
    have le := boundary_antitone now (Nat.zero_le (2 * i))
    rw [boundary_zero] at le
    omega
  · rw [if_neg spills, boundary_of_not_spills place spills]
    exact holds.curr.later (Nat.le_succ now)

end Halfway

section Spill

variable [DecidableEq η] {now i : ℕ} {level : BucketLevel κ ε η}

/-- `commit` brings the level's `curr` up to the snap of the level above. -/
theorem LevelHolds.commit_spec
    (holds : LevelHolds bucketHash keyOf writes now (i + 1) level)
    (spills : Spills (now + 1) i) :
    ∃ committed,
      (halfway (now + 1) (i + 1) level).commit bucketHash =
          some committed ∧
        committed.mLevel = i + 1 ∧
        committed.mSnap = (halfway (now + 1) (i + 1) level).mSnap ∧
        committed.mNextCurr.IsClear ∧
        Holds keyOf writes (now + 1) (boundary (now + 1) (2 * (i + 1) + 1))
          (boundary (now + 1) (2 * (i + 1))) (keepsDead (i + 1))
          committed.mCurr := by
  have place : (2 * i + 1) / 2 = i := by omega
  have top : boundary (now + 1) (2 * (i + 1)) =
      boundary now (2 * (i + 1) - 1) := boundary_of_spills place spills
  have curr := holds.halfway_curr
  rcases holds.next with ⟨clear, same⟩ | ⟨-, output, delivers, covered⟩
  · refine ⟨_, BucketLevel.commit_of_clear (by simpa using clear.mState),
      by simpa using holds.index, rfl, by simpa using clear, ?_⟩
    rw [top, ← same]
    exact curr
  · have commits := BucketLevel.commit_of_resolve
      (halfway (now + 1) (i + 1) level) (by simpa using delivers.isLive)
      (by simpa using delivers.resolve_eq)
    refine ⟨_, commits,
      by simpa using holds.index, rfl, ⟨_, rfl⟩, ?_⟩
    rw [top]
    have due : nextChange now (i + 1) = now + 1 :=
      nextChange_succ_of_dvd spills.2
    have bottom : boundary (now + 1) (2 * (i + 1) + 1) =
        if Spills (nextChange now (i + 1)) (i + 1)
          then boundary now (2 * (i + 1))
          else boundary now (2 * (i + 1) + 1) := by
      have place : (2 * (i + 1)) / 2 = i + 1 := by omega
      rw [due, boundary, place]
    rw [bottom]
    exact covered.later (Nat.le_succ now)

omit [DecidableEq η] in
/-- What the level merges the snap into, and from which ledger on. -/
theorem currToMerge_spec {committed : BucketLevel κ ε η}
    (valid : i + 1 < kNumLevels) (index : committed.mLevel = i + 1)
    (spills : Spills (now + 1) i)
    (curr : Holds keyOf writes (now + 1)
      (boundary (now + 1) (2 * (i + 1) + 1))
      (boundary (now + 1) (2 * (i + 1))) (keepsDead (i + 1))
      committed.mCurr) :
    Holds keyOf writes (now + 1)
      (if Spills (nextChange (now + 1) (i + 1)) (i + 1)
        then boundary (now + 1) (2 * (i + 1))
        else boundary (now + 1) (2 * (i + 1) + 1))
      (boundary (now + 1) (2 * (i + 1))) (keepsDead (i + 1))
      (committed.currToMerge (UInt32.ofNat (now + 1))) := by
  have decides : committed.mLevel ≠ 0 ∧
      levelShouldSpill (UInt32.ofNat (now + 1) +
          levelHalf (committed.mLevel - 1)) committed.mLevel = true ↔
        Spills (nextChange (now + 1) (i + 1)) (i + 1) := by
    have above : i < kNumLevels := by omega
    rw [index, Nat.add_sub_cancel, add_levelHalf (now + 1) above,
      levelShouldSpill_iff _ valid, nextChange_of_dvd spills.2]
    simp
  unfold BucketLevel.currToMerge
  simp only [decides]
  split
  · apply Holds.empty
    have le := boundary_antitone (now + 1) (Nat.zero_le (2 * (i + 1)))
    rwa [boundary_zero] at le
  · exact curr

/-- Level `i` spills into level `i + 1`. -/
theorem LevelHolds.spill_spec {above : BucketLevel κ ε η}
    {shadows : List (Bucket κ ε)} (valid : i + 1 < kNumLevels)
    (holds : LevelHolds bucketHash keyOf writes now (i + 1) level)
    (aboveHolds : LevelHolds bucketHash keyOf writes now i above)
    (spills : Spills (now + 1) i)
    (shadowsHold : ∀ shadow ∈ shadows, ∃ low high,
      boundary now (2 * i) ≤ low ∧
        Holds keyOf writes now low high true shadow) :
    ∃ committed prepared,
      (halfway (now + 1) (i + 1) level).commit bucketHash =
          some committed ∧
        committed.prepare bucketHash keyOf (UInt32.ofNat (now + 1))
            above.mCurr shadows = some prepared ∧
        LevelHolds bucketHash keyOf writes (now + 1) (i + 1) prepared := by
  obtain ⟨committed, commits, index, sameSnap, clear, curr⟩ :=
    holds.commit_spec spills
  have later := Nat.le_succ now
  have top : boundary (now + 1) (2 * i + 1) = boundary now (2 * i) :=
    boundary_of_spills (by omega) spills
  have bottom : boundary (now + 1) (2 * i + 2) = boundary now (2 * i + 1) :=
    boundary_of_spills (by omega) spills
  have snapHolds : Holds keyOf writes (now + 1)
      (boundary (now + 1) (2 * (i + 1)))
      (boundary (now + 1) (2 * (i + 1) - 1)) true above.mCurr := by
    have places : 2 * (i + 1) - 1 = 2 * i + 1 := by omega
    rw [Nat.mul_add_one, bottom, ← Nat.mul_add_one, places, top,
      ← spills.keepsDead]
    exact aboveHolds.curr.later later
  have shadowsLater : ∀ shadow ∈ shadows, ∃ low high,
      boundary (now + 1) (2 * (i + 1) - 1) ≤ low ∧
        Holds keyOf writes (now + 1) low high true shadow := by
    intro shadow member
    obtain ⟨low, high, newer, shadowHolds⟩ := shadowsHold shadow member
    refine ⟨low, high, ?_, shadowHolds.later later⟩
    have places : 2 * (i + 1) - 1 = 2 * i + 1 := by omega
    rw [places, top]
    exact newer
  have toMerge := currToMerge_spec valid index spills curr
  obtain ⟨output, merges, outputHolds⟩ :=
    toMerge.merge snapHolds shadowsLater
  have flag : decide (committed.mLevel < kNumLevels - 1) =
      keepsDead (i + 1) := by
    rw [index]
    rfl
  have prepares : committed.prepare bucketHash keyOf
      (UInt32.ofNat (now + 1)) above.mCurr shadows =
      some (committed.setNext (FutureBucket.merging bucketHash
        (committed.currToMerge (UInt32.ofNat (now + 1))) above.mCurr
        shadows (keepsDead (i + 1)) output)) := by
    rw [BucketLevel.prepare_eq_map clear.mState, flag, merges]
    rfl
  refine ⟨committed, _, commits, prepares, ?_⟩
  refine ⟨index, curr, ?_, Or.inr ⟨Nat.succ_ne_zero i, output, ?_,
    outputHolds⟩⟩
  · rw [BucketLevel.setNext, sameSnap]
    exact holds.halfway_snap
  · exact FutureBucket.Delivers.merging
      ⟨toMerge.sorted, snapHolds.sorted,
        fun shadow member => by
          obtain ⟨_, _, _, shadowHolds⟩ := shadowsHold shadow member
          exact shadowHolds.sorted⟩
      merges

omit [DecidableEq η] in
/-- A level is left alone when the level above does not spill. -/
theorem LevelHolds.quiet (valid : i + 1 < kNumLevels)
    (holds : LevelHolds bucketHash keyOf writes now (i + 1) level)
    (quiet : ¬ Spills (now + 1) i) :
    LevelHolds bucketHash keyOf writes (now + 1) (i + 1)
      (halfway (now + 1) (i + 1) level) := by
  have quietHere : ¬ Spills (now + 1) (i + 1) :=
    fun spills => quiet (spills.above (Nat.le_succ i))
  have inner : i < kNumLevels - 1 := by omega
  have notDue : ¬ half (i + 1 - 1) ∣ now + 1 := fun divides =>
    quiet ⟨inner, divides⟩
  have later := Nat.le_succ now
  have bound₁ : boundary (now + 1) (2 * (i + 1) - 1) =
      boundary now (2 * (i + 1) - 1) :=
    boundary_of_not_spills (Nat.mul_div_cancel_left i two_pos) quiet
  have place : (2 * i + 1) / 2 = i := by omega
  have bound₂ : boundary (now + 1) (2 * (i + 1)) =
      boundary now (2 * (i + 1)) :=
    boundary_of_not_spills place quiet
  have bound₃ : boundary (now + 1) (2 * (i + 1) + 1) =
      boundary now (2 * (i + 1) + 1) :=
    boundary_of_not_spills (by omega) quietHere
  have bound₄ : boundary (now + 1) (2 * (i + 1) + 2) =
      boundary now (2 * (i + 1) + 2) :=
    boundary_of_not_spills (by omega) quietHere
  unfold halfway
  rw [if_neg quietHere]
  constructor
  · exact holds.index
  · rw [bound₂, bound₃]
    exact holds.curr.later later
  · rw [bound₃, bound₄]
    exact holds.snap.later later
  · unfold NextHolds
    rw [bound₁, bound₂, bound₃, nextChange_succ_of_not_dvd notDue]
    rcases holds.next with idle | ⟨notTop, output, delivers, covered⟩
    · exact Or.inl idle
    · exact Or.inr ⟨notTop, output, delivers, covered.later later⟩

/-- Level 0 takes the batch in at once. -/
theorem LevelHolds.batch_spec {bucket : Bucket κ ε}
    (holds : LevelHolds bucketHash keyOf writes now 0 level)
    (sorted : Sorted keyOf bucket)
    (written : ∀ key, lookup keyOf bucket key = writes (now + 1) key) :
    ∃ prepared committed,
      (halfway (now + 1) 0 level).prepare bucketHash keyOf
          (UInt32.ofNat (now + 1)) bucket [] = some prepared ∧
        prepared.commit bucketHash = some committed ∧
        LevelHolds bucketHash keyOf writes (now + 1) 0 committed := by
  have index : (halfway (now + 1) 0 level).mLevel = 0 := by
    simpa using holds.index
  have clear : (halfway (now + 1) 0 level).mNextCurr.mState = .clear := by
    rcases holds.next with ⟨clear, -⟩ | ⟨notTop, -⟩
    · simpa using clear.mState
    · exact absurd rfl notTop
  have same : (halfway (now + 1) 0 level).currToMerge
      (UInt32.ofNat (now + 1)) = (halfway (now + 1) 0 level).mCurr := by
    simp [BucketLevel.currToMerge, holds.index]
  have flag : decide ((halfway (now + 1) 0 level).mLevel <
      kNumLevels - 1) = keepsDead 0 := by
    rw [index]
    rfl
  have curr := holds.halfway_curr
  rw [Nat.mul_zero, boundary_zero] at curr
  have fresh : Holds keyOf writes (now + 1) now (now + 1) true bucket :=
    ⟨sorted, Covers.single written⟩
  obtain ⟨output, merges, outputHolds⟩ :=
    curr.merge fresh (List.forall_mem_nil _)
  have delivers : FutureBucket.Delivers bucketHash keyOf (keepsDead 0)
      (FutureBucket.merging bucketHash (halfway (now + 1) 0 level).mCurr
        bucket [] (keepsDead 0) output) output :=
    FutureBucket.Delivers.merging ⟨curr.sorted, sorted, by simp⟩ merges
  have prepares : (halfway (now + 1) 0 level).prepare bucketHash keyOf
      (UInt32.ofNat (now + 1)) bucket [] =
      some ((halfway (now + 1) 0 level).setNext
        (FutureBucket.merging bucketHash (halfway (now + 1) 0 level).mCurr
          bucket [] (keepsDead 0) output)) := by
    rw [BucketLevel.prepare_eq_map clear, same, flag, merges]
    rfl
  have commits := BucketLevel.commit_of_resolve
    ((halfway (now + 1) 0 level).setNext _) delivers.isLive
    delivers.resolve_eq
  refine ⟨_, _, prepares, commits, ?_⟩
  refine ⟨index, ?_, ?_, Or.inl ⟨⟨_, rfl⟩, rfl⟩⟩
  · rw [Nat.mul_zero, boundary_zero]
    exact outputHolds
  · exact holds.halfway_snap

end Spill

end StellarCore.Buckets
