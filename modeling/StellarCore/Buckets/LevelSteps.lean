import StellarCore.Buckets.BucketList
import StellarCore.Buckets.Merge

/-!
# Steps of a level

In a bucket list that only receives batches, the merge of a level is either
not there, or it will deliver a bucket that its inputs determine.  It does
not matter whether it is resolved before it is committed.
-/

namespace StellarCore.Buckets

variable {κ ε η : Type} [DecidableEq η] [LinearOrder κ]

namespace FutureBucket

/-- Nothing but the flag is left. -/
def IsClear (fb : FutureBucket κ ε η) : Prop :=
  ∃ flag, fb = FutureBucket.new flag

omit [DecidableEq η] [LinearOrder κ] in
theorem IsClear.mState {fb : FutureBucket κ ε η} (clear : fb.IsClear) :
    fb.mState = .clear := by
  obtain ⟨flag, rfl⟩ := clear
  rfl

/-- A merge of the inputs, running. -/
def merging (bucketHash : Bucket κ ε → η) (curr snap : Bucket κ ε)
    (shadows : List (Bucket κ ε)) (keepDeadEntries : Bool)
    (output : Bucket κ ε) : FutureBucket κ ε η :=
  { mState := .liveInputs
    mInputCurrBucket := some curr
    mInputSnapBucket := some snap
    mInputShadowBuckets := shadows
    mOutputBucket := some output
    mInputCurrBucketHash := some (bucketHash curr)
    mInputSnapBucketHash := some (bucketHash snap)
    mInputShadowBucketHashes := shadows.map bucketHash
    mKeepDeadEntries := keepDeadEntries }

/-- A merge whose output is known. -/
def resolved (bucketHash : Bucket κ ε → η) (keepDeadEntries : Bool)
    (output : Bucket κ ε) : FutureBucket κ ε η :=
  { mState := .liveOutput
    mOutputBucket := some output
    mOutputBucketHash := some (bucketHash output)
    mKeepDeadEntries := keepDeadEntries }

/-- The inputs of a merge, as levels hand them over. -/
structure Inputs (keyOf : ε → κ) (curr snap : Bucket κ ε)
    (shadows : List (Bucket κ ε)) : Prop where
  curr : Sorted keyOf curr
  snap : Sorted keyOf snap
  shadows : ∀ shadow ∈ shadows, Sorted keyOf shadow

/-- The merge is live and will deliver the bucket. -/
inductive Delivers (bucketHash : Bucket κ ε → η) (keyOf : ε → κ)
    (keepDeadEntries : Bool) : FutureBucket κ ε η → Bucket κ ε → Prop
  | merging {curr snap : Bucket κ ε} {shadows : List (Bucket κ ε)}
      {output : Bucket κ ε} (inputs : Inputs keyOf curr snap shadows)
      (merges : merge keyOf curr snap shadows keepDeadEntries =
        some output) :
      Delivers bucketHash keyOf keepDeadEntries
        (merging bucketHash curr snap shadows keepDeadEntries output) output
  | resolved (output : Bucket κ ε) :
      Delivers bucketHash keyOf keepDeadEntries
        (resolved bucketHash keepDeadEntries output) output

variable {bucketHash : Bucket κ ε → η} {keyOf : ε → κ}

omit [LinearOrder κ] in
theorem checkState_merging (bucketHash : Bucket κ ε → η)
    (curr snap : Bucket κ ε)
    (shadows : List (Bucket κ ε)) (keepDeadEntries : Bool)
    (output : Bucket κ ε) :
    (merging bucketHash curr snap shadows keepDeadEntries
      output).checkState bucketHash = true := by
  simp [merging, checkState, checkHashesMatch, hashMatches]

omit [LinearOrder κ] in
theorem checkState_resolved (bucketHash : Bucket κ ε → η)
    (keepDeadEntries : Bool) (output : Bucket κ ε) :
    (resolved bucketHash keepDeadEntries output).checkState bucketHash =
      true := by
  simp [resolved, checkState, checkHashesMatch, hashMatches]

omit [LinearOrder κ] in
theorem resolve_merging (curr snap : Bucket κ ε)
    (shadows : List (Bucket κ ε)) (keepDeadEntries : Bool)
    (output : Bucket κ ε) :
    (merging bucketHash curr snap shadows keepDeadEntries
      output).resolve bucketHash =
      some (resolved bucketHash keepDeadEntries output, output) := by
  have begins := checkState_merging bucketHash curr snap shadows
    keepDeadEntries output
  have passes := checkState_resolved bucketHash keepDeadEntries output
  unfold merging at begins
  unfold resolved at passes
  simp [resolve, checked, guard, clearInputs, isLive, merging, begins,
    passes, resolved]

omit [LinearOrder κ] in
theorem resolve_resolved (keepDeadEntries : Bool) (output : Bucket κ ε) :
    (resolved bucketHash keepDeadEntries output).resolve bucketHash =
      some (resolved bucketHash keepDeadEntries output, output) := by
  have passes := checkState_resolved bucketHash keepDeadEntries output
  unfold resolved at passes
  simp [resolve, checked, guard, clearInputs, isLive, passes, resolved]

theorem ofInputs_eq_map (curr snap : Bucket κ ε)
    (shadows : List (Bucket κ ε)) (keepDeadEntries : Bool) :
    ofInputs bucketHash keyOf curr snap shadows keepDeadEntries =
      (merge keyOf curr snap shadows keepDeadEntries).map
        (merging bucketHash curr snap shadows keepDeadEntries) := by
  cases merges : merge keyOf curr snap shadows keepDeadEntries with
  | none => simp [ofInputs, startMerge, guard, merges]
  | some output =>
      have passes := checkState_merging bucketHash curr snap shadows
        keepDeadEntries output
      unfold merging at passes
      simp [ofInputs, startMerge, guard, merges, checked, passes, merging]

omit [DecidableEq η] in
theorem Delivers.isLive {keepDeadEntries : Bool}
    {fb : FutureBucket κ ε η} {output : Bucket κ ε}
    (delivers : Delivers bucketHash keyOf keepDeadEntries fb output) :
    fb.isLive = true := by
  cases delivers with
  | merging inputs merges => rfl
  | resolved output => rfl

theorem Delivers.resolve_eq {keepDeadEntries : Bool}
    {fb : FutureBucket κ ε η} {output : Bucket κ ε}
    (delivers : Delivers bucketHash keyOf keepDeadEntries fb output) :
    fb.resolve bucketHash =
      some (FutureBucket.resolved bucketHash keepDeadEntries output,
        output) := by
  cases delivers with
  | merging inputs merges => exact resolve_merging _ _ _ _ _
  | resolved output => exact resolve_resolved _ _

end FutureBucket

namespace BucketLevel

variable {bucketHash : Bucket κ ε → η} {keyOf : ε → κ}

omit [LinearOrder κ] in
theorem commit_of_clear {level : BucketLevel κ ε η}
    (clear : level.mNextCurr.mState = .clear) :
    level.commit bucketHash = some level := by
  have notLive : level.mNextCurr.isLive = false := by
    simp [FutureBucket.isLive, clear]
  simp [commit, notLive, FutureBucket.isMerging, clear, guard]

omit [LinearOrder κ] in
theorem commit_of_resolve (level : BucketLevel κ ε η)
    {keepDeadEntries : Bool} {output : Bucket κ ε}
    (live : level.mNextCurr.isLive = true)
    (resolves : level.mNextCurr.resolve bucketHash =
      some (FutureBucket.resolved bucketHash keepDeadEntries output,
        output)) :
    level.commit bucketHash =
      some { level with
        mCurr := output
        mNextCurr := FutureBucket.new keepDeadEntries } := by
  simp [commit, live, resolves, setNext, setCurr, FutureBucket.isMerging,
    FutureBucket.clear, FutureBucket.clearOutput,
    FutureBucket.clearInputs, FutureBucket.resolved, guard,
    FutureBucket.new]

/-- In a level without a merge, `prepare` starts one. -/
theorem prepare_eq_map {level : BucketLevel κ ε η} {currLedger : UInt32}
    {snap : Bucket κ ε} {shadows : List (Bucket κ ε)}
    (clear : level.mNextCurr.mState = .clear) :
    level.prepare bucketHash keyOf currLedger snap shadows =
      (merge keyOf (level.currToMerge currLedger) snap shadows
        (decide (level.mLevel < kNumLevels - 1))).map (fun output =>
          level.setNext (FutureBucket.merging bucketHash
            (level.currToMerge currLedger) snap shadows
            (decide (level.mLevel < kNumLevels - 1)) output)) := by
  unfold prepare
  simp only [FutureBucket.ofInputs_eq_map]
  cases merge keyOf (level.currToMerge currLedger) snap shadows
      (decide (level.mLevel < kNumLevels - 1)) with
  | none => simp
  | some output =>
      simp [FutureBucket.isMerging, clear, guard, FutureBucket.merging]

end BucketLevel

end StellarCore.Buckets
