import StellarCore.Buckets.FutureBucket

/-!
# The bucket list

`BucketList.cpp`.  Ledger numbers are 32-bit; levels are the indices below
`kNumLevels` that the callers use, which is what `levelSize` asserts.
-/

namespace StellarCore.Buckets

def kNumLevels : ℕ := 11

theorem one_lt_kNumLevels : 1 < kNumLevels := by decide

def levelSize (level : ℕ) : UInt32 :=
  UInt32.ofNat (1 <<< (2 * (level + 1)))

def levelHalf (level : ℕ) : UInt32 :=
  levelSize level >>> 1

def mask (v m : UInt32) : UInt32 :=
  v &&& ~~~(m - 1)

def levelShouldSpill (ledger : UInt32) (level : ℕ) : Bool :=
  if level = kNumLevels - 1 then false
  else
    ledger == mask ledger (levelHalf level) ||
      ledger == mask ledger (levelSize level)

structure BucketLevel (κ ε η : Type) where
  mLevel : ℕ
  mNextCurr : FutureBucket κ ε η
  mCurr : Bucket κ ε := []
  mSnap : Bucket κ ε := []

structure BucketList (κ ε η : Type) where
  mLevels : List (BucketLevel κ ε η)

variable {κ ε η : Type}

namespace BucketLevel

def setNext (level : BucketLevel κ ε η) (fb : FutureBucket κ ε η) :
    BucketLevel κ ε η :=
  { level with mNextCurr := fb }

def setCurr (level : BucketLevel κ ε η) (b : Bucket κ ε) :
    BucketLevel κ ε η :=
  { level with
    mNextCurr := level.mNextCurr.clear
    mCurr := b }

def setSnap (level : BucketLevel κ ε η) (b : Bucket κ ε) :
    BucketLevel κ ε η :=
  { level with mSnap := b }

/-- The new snap is `mSnap` of the result. -/
def snap (level : BucketLevel κ ε η) : BucketLevel κ ε η :=
  { level with
    mSnap := level.mCurr
    mCurr := [] }

section Merge

variable [DecidableEq η] (bucketHash : Bucket κ ε → η)

def commit (level : BucketLevel κ ε η) : Option (BucketLevel κ ε η) :=
  if level.mNextCurr.isLive then do
    let (next, bucket) ← level.mNextCurr.resolve bucketHash
    let committed := (level.setNext next).setCurr bucket
    guard (!committed.mNextCurr.isMerging)
    return committed
  else do
    guard (!level.mNextCurr.isMerging)
    return level

variable [LinearOrder κ] (keyOf : ε → κ)

/-- What `prepare` merges the snap into: nothing if `mCurr` is snapped
before the merge is committed. -/
def currToMerge (level : BucketLevel κ ε η) (currLedger : UInt32) :
    Bucket κ ε :=
  if level.mLevel ≠ 0 ∧
      levelShouldSpill (currLedger + levelHalf (level.mLevel - 1))
        level.mLevel then []
  else level.mCurr

def prepare (level : BucketLevel κ ε η) (currLedger : UInt32)
    (snap : Bucket κ ε) (shadows : List (Bucket κ ε)) :
    Option (BucketLevel κ ε η) := do
  guard (!level.mNextCurr.isMerging)
  let keepDeadEntries := decide (level.mLevel < kNumLevels - 1)
  let next ← FutureBucket.ofInputs bucketHash keyOf
    (level.currToMerge currLedger) snap shadows keepDeadEntries
  guard next.isMerging
  return level.setNext next

end Merge

end BucketLevel

namespace BucketList

/-- `BucketList()`; the flags of the empty merges are not initialised. -/
def new (uninitialized : ℕ → Bool) : BucketList κ ε η :=
  { mLevels := (List.range kNumLevels).map (fun i =>
      { mLevel := i
        mNextCurr := FutureBucket.new (uninitialized i) }) }

/-- `curr` and `snap` of every level, the newest first. -/
def buckets (bl : BucketList κ ε η) : List (Bucket κ ε) :=
  bl.mLevels.flatMap (fun level => [level.mCurr, level.mSnap])

section AddBatch

variable [DecidableEq η] (bucketHash : Bucket κ ε → η)
  [LinearOrder κ] (keyOf : ε → κ)

/-- Level `i - 1` snaps, and level `i` commits what it has and starts to
merge the snap. -/
def spillInto (bl : BucketList κ ε η) (currLedger : UInt32)
    (shadows : List (Bucket κ ε)) (i : ℕ) :
    Option (BucketList κ ε η) := do
  let above ← bl.mLevels[i - 1]?
  let level ← bl.mLevels[i]?
  let snapped := above.snap
  let committed ← level.commit bucketHash
  let prepared ← committed.prepare bucketHash keyOf currLedger snapped.mSnap
    shadows
  return { mLevels := (bl.mLevels.set (i - 1) snapped).set i prepared }

/-- The loop of `addBatch`, from level `i` down to level 1. -/
def spillLoop (currLedger : UInt32) :
    ℕ → List (Bucket κ ε) → BucketList κ ε η → Option (BucketList κ ε η)
  | 0, _, bl => some bl
  | i + 1, shadows, bl =>
      let shadows := shadows.dropLast.dropLast
      if levelShouldSpill currLedger i then do
        let spilled ← bl.spillInto bucketHash keyOf currLedger shadows (i + 1)
        spillLoop currLedger i shadows spilled
      else spillLoop currLedger i shadows bl

/-- No shadows are left when the loop ends. -/
def addBatch (bl : BucketList κ ε η) (currLedger : UInt32)
    (liveEntries : List ε) (deadEntries : List κ) :
    Option (BucketList κ ε η) := do
  guard (currLedger > 0)
  let shadows := bl.buckets.dropLast.dropLast
  let spilled ← spillLoop bucketHash keyOf currLedger (bl.mLevels.length - 1)
    shadows bl
  let level ← spilled.mLevels[0]?
  let bucket ← fresh keyOf liveEntries deadEntries
  let prepared ← level.prepare bucketHash keyOf currLedger bucket []
  let committed ← prepared.commit bucketHash
  return { mLevels := spilled.mLevels.set 0 committed }

/-- A merge of the list resolved while it is pending, as
`checkDBAgainstBuckets` does. -/
def resolveNext (bl : BucketList κ ε η) (i : ℕ) :
    Option (BucketList κ ε η) := do
  let level ← bl.mLevels[i]?
  if level.mNextCurr.isLive then
    let (next, _) ← level.mNextCurr.resolve bucketHash
    return { mLevels := bl.mLevels.set i (level.setNext next) }
  else return bl

end AddBatch

section Hash

variable (bucketHash : Bucket κ ε → η) (sha256 : List η → η)

/-- `hash` of the level's two buckets, and of all levels. -/
def getHash (bl : BucketList κ ε η) : η :=
  sha256 (bl.mLevels.map (fun level =>
    sha256 [bucketHash level.mCurr, bucketHash level.mSnap]))

end Hash

end BucketList

end StellarCore.Buckets
