import StellarCore.Buckets.BucketList

/-!
# Saved states of the bucket list

`HistoryArchiveState` of `HistoryArchive.cpp`, as far as it stores a bucket
list, and the functions of `BucketManagerImpl.cpp` and `BucketList.cpp` that
bring a saved state back.  The bucket directory, with what is loaded from
it, is a function from hashes to buckets.
-/

namespace StellarCore.Buckets

variable {κ ε η : Type}

structure HistoryStateBucket (κ ε η : Type) where
  curr : η
  next : FutureBucket κ ε η
  snap : η

structure HistoryArchiveState (κ ε η : Type) where
  currentBuckets : List (HistoryStateBucket κ ε η)

/-- What `serialize` writes for a level. -/
structure SavedLevel (η : Type) where
  curr : η
  next : SavedFuture η
  snap : η
  deriving DecidableEq, Repr

def FutureBucket.getHashes (fb : FutureBucket κ ε η) : List η :=
  fb.mInputCurrBucketHash.toList ++ fb.mInputSnapBucketHash.toList ++
    fb.mInputShadowBucketHashes ++ fb.mOutputBucketHash.toList

namespace HistoryArchiveState

section Save

variable (bucketHash : Bucket κ ε → η)

/-- `HistoryArchiveState(ledgerSeq, buckets)`. -/
def ofBucketList (bl : BucketList κ ε η) : HistoryArchiveState κ ε η :=
  { currentBuckets := bl.mLevels.map (fun level =>
      { curr := bucketHash level.mCurr
        next := level.mNextCurr
        snap := bucketHash level.mSnap }) }

variable [DecidableEq η]

/-- `ready` tells which merges are complete at this moment. -/
def resolveAnyReadyFutures (ready : ℕ → Bool)
    (has : HistoryArchiveState κ ε η) :
    Option (HistoryArchiveState κ ε η) := do
  let levels ← (List.range has.currentBuckets.length).mapM (fun i => do
    let level ← has.currentBuckets[i]?
    if level.next.isMerging && ready i then
      let (next, _) ← level.next.resolve bucketHash
      return { level with next := next }
    else return level)
  return { currentBuckets := levels }

def toString (has : HistoryArchiveState κ ε η) :
    Option (List (SavedLevel η)) :=
  has.currentBuckets.mapM (fun level => do
    let next ← level.next.save bucketHash
    return { curr := level.curr, next := next, snap := level.snap })

/-- `fromString` into a state made by the default constructor, whose levels
are copies of one with an uninitialised flag. -/
def fromString (uninitialized : ℕ → Bool)
    (saved : List (SavedLevel η)) :
    Option (HistoryArchiveState κ ε η) := do
  let levels ← (List.range saved.length).mapM (fun i => do
    let level ← saved[i]?
    let next ← (FutureBucket.new (uninitialized i)).load bucketHash
      level.next
    return { curr := level.curr, next := next, snap := level.snap })
  guard (levels.all (fun level => !level.next.isMerging))
  return { currentBuckets := levels }

end Save

def allBuckets (has : HistoryArchiveState κ ε η) : List η :=
  has.currentBuckets.flatMap (fun level =>
    level.curr :: level.snap :: level.next.getHashes)

end HistoryArchiveState

section Restart

variable [DecidableEq η] (zero : η) (files : η → Option (Bucket κ ε))

def getBucketByHash (hash : η) : Option (Bucket κ ε) :=
  if hash = zero then some [] else files hash

def checkForMissingBucketsFiles (has : HistoryArchiveState κ ε η) :
    List η :=
  has.allBuckets.filter (fun hash =>
    decide (hash ≠ zero) && (files hash).isNone)

variable (bucketHash : Bucket κ ε → η) [LinearOrder κ] (keyOf : ε → κ)

def BucketList.restartMerges (bl : BucketList κ ε η) :
    Option (BucketList κ ε η) := do
  let levels ← bl.mLevels.mapM (fun level =>
    if level.mNextCurr.hasHashes && !level.mNextCurr.isLive then do
      let next ← level.mNextCurr.makeLive bucketHash keyOf
        (getBucketByHash zero files)
      return level.setNext next
    else some level)
  return { mLevels := levels }

def assumeState (bl : BucketList κ ε η)
    (has : HistoryArchiveState κ ε η) : Option (BucketList κ ε η) := do
  let levels ← (List.range kNumLevels).mapM (fun i => do
    let saved ← has.currentBuckets[i]?
    let level ← bl.mLevels[i]?
    let curr ← getBucketByHash zero files saved.curr
    let snap ← getBucketByHash zero files saved.snap
    return ((level.setCurr curr).setSnap snap).setNext saved.next)
  BucketList.restartMerges zero files bucketHash keyOf
    { mLevels := levels }

/-- `storeCurrentLedger` saves the list and `loadLastKnownLedger` assumes
the saved state in the list of a new process. -/
def restart (ready uninitialized : ℕ → Bool) (fresh bl : BucketList κ ε η) :
    Option (BucketList κ ε η) := do
  let has ← (HistoryArchiveState.ofBucketList bucketHash
    bl).resolveAnyReadyFutures bucketHash ready
  let saved ← has.toString bucketHash
  let loaded ← HistoryArchiveState.fromString bucketHash uninitialized saved
  assumeState zero files bucketHash keyOf fresh loaded

end Restart

end StellarCore.Buckets
