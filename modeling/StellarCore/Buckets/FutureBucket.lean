import StellarCore.Buckets.Bucket

/-!
# Merges in progress

`FutureBucket.cpp`.  Buckets do not change once they are written, so the
future of a merge is the bucket it will deliver, whenever a worker gets to
it.  An empty hash string is `none`.  The retain flags decide which files
are removed and are not kept here.
-/

namespace StellarCore.Buckets

inductive FutureBucketState where
  | clear
  | hashOutput
  | hashInputs
  | liveOutput
  | liveInputs
  deriving DecidableEq, Repr

/-- The field `mKeepDeadEntries` has no initial value of its own. -/
structure FutureBucket (κ ε η : Type) where
  mState : FutureBucketState := .clear
  mInputCurrBucket : Option (Bucket κ ε) := none
  mInputSnapBucket : Option (Bucket κ ε) := none
  mInputShadowBuckets : List (Bucket κ ε) := []
  mOutputBucket : Option (Bucket κ ε) := none
  mInputCurrBucketHash : Option η := none
  mInputSnapBucketHash : Option η := none
  mInputShadowBucketHashes : List η := []
  mOutputBucketHash : Option η := none
  mKeepDeadEntries : Bool

/-- What `save` writes. -/
inductive SavedFuture (η : Type) where
  | clear
  | hashOutput (output : Option η)
  | hashInputs (curr snap : Option η) (shadow : List η)
  deriving DecidableEq, Repr

namespace FutureBucket

variable {κ ε η : Type}

/-- `FutureBucket() = default`: the flag holds whatever was there. -/
def new (uninitialized : Bool) : FutureBucket κ ε η :=
  { mKeepDeadEntries := uninitialized }

def isLive (fb : FutureBucket κ ε η) : Bool :=
  fb.mState == .liveInputs || fb.mState == .liveOutput

def isMerging (fb : FutureBucket κ ε η) : Bool :=
  fb.mState == .liveInputs

def hasHashes (fb : FutureBucket κ ε η) : Bool :=
  fb.mState == .hashInputs || fb.mState == .hashOutput

def hasOutputHash (fb : FutureBucket κ ε η) : Bool :=
  fb.mState == .liveOutput || fb.mState == .hashOutput

def clearInputs (fb : FutureBucket κ ε η) : FutureBucket κ ε η :=
  { fb with
    mInputShadowBuckets := []
    mInputSnapBucket := none
    mInputCurrBucket := none
    mInputShadowBucketHashes := []
    mInputSnapBucketHash := none
    mInputCurrBucketHash := none }

def clearOutput (fb : FutureBucket κ ε η) : FutureBucket κ ε η :=
  { fb with
    mOutputBucket := none
    mOutputBucketHash := none }

def clear (fb : FutureBucket κ ε η) : FutureBucket κ ε η :=
  { (fb.clearInputs).clearOutput with mState := .clear }

section Hashes

variable [DecidableEq η] (bucketHash : Bucket κ ε → η)

def hashMatches (bucket : Option (Bucket κ ε)) (hash : Option η) : Bool :=
  match bucket with
  | some b => hash == some (bucketHash b)
  | none => true

/-- The output has a hash only after the merge is complete. -/
def checkHashesMatch (fb : FutureBucket κ ε η) : Bool :=
  (fb.mInputShadowBuckets.isEmpty ||
      fb.mInputShadowBucketHashes ==
        fb.mInputShadowBuckets.map bucketHash) &&
    hashMatches bucketHash fb.mInputSnapBucket fb.mInputSnapBucketHash &&
    hashMatches bucketHash fb.mInputCurrBucket fb.mInputCurrBucketHash &&
    (fb.mOutputBucketHash.isNone ||
      hashMatches bucketHash fb.mOutputBucket fb.mOutputBucketHash)

def checkState (fb : FutureBucket κ ε η) : Bool :=
  match fb.mState with
  | .clear =>
      fb.mInputShadowBuckets.isEmpty && fb.mInputSnapBucket.isNone &&
        fb.mInputCurrBucket.isNone && fb.mOutputBucket.isNone &&
        fb.mInputShadowBucketHashes.isEmpty &&
        fb.mInputSnapBucketHash.isNone &&
        fb.mInputCurrBucketHash.isNone && fb.mOutputBucketHash.isNone
  | .liveInputs =>
      fb.mInputSnapBucket.isSome && fb.mInputCurrBucket.isSome &&
        fb.mOutputBucket.isSome && fb.mOutputBucketHash.isNone &&
        fb.checkHashesMatch bucketHash
  | .liveOutput =>
      fb.mOutputBucket.isSome && fb.mOutputBucketHash.isSome &&
        fb.checkHashesMatch bucketHash
  | .hashInputs =>
      fb.mInputSnapBucket.isNone && fb.mInputCurrBucket.isNone &&
        fb.mOutputBucket.isNone && fb.mInputSnapBucketHash.isSome &&
        fb.mInputCurrBucketHash.isSome && fb.mOutputBucketHash.isNone
  | .hashOutput =>
      fb.mInputSnapBucket.isNone && fb.mInputCurrBucket.isNone &&
        fb.mOutputBucket.isNone && fb.mInputSnapBucketHash.isNone &&
        fb.mInputCurrBucketHash.isNone && fb.mOutputBucketHash.isSome

/-- An object whose `checkState` passes. -/
def checked (fb : FutureBucket κ ε η) : Option (FutureBucket κ ε η) :=
  if fb.checkState bucketHash then some fb else none

def setLiveOutput (fb : FutureBucket κ ε η) (output : Bucket κ ε) :
    Option (FutureBucket κ ε η) :=
  { fb with
    mState := .liveOutput
    mOutputBucketHash := some (bucketHash output)
    mOutputBucket := some output }.checked bucketHash

/-- The object after the call, and the merged bucket. -/
def resolve (fb : FutureBucket κ ε η) :
    Option (FutureBucket κ ε η × Bucket κ ε) := do
  let fb ← fb.checked bucketHash
  guard fb.isLive
  let fb := fb.clearInputs
  let bucket ← fb.mOutputBucket
  guard (fb.mOutputBucketHash.isNone ||
    fb.mOutputBucketHash == some (bucketHash bucket))
  let fb ← { fb with
    mOutputBucketHash := some (bucketHash bucket)
    mState := .liveOutput }.checked bucketHash
  return (fb, bucket)

section Merge

variable [LinearOrder κ] (keyOf : ε → κ)

def startMerge (fb : FutureBucket κ ε η) :
    Option (FutureBucket κ ε η) := do
  guard (fb.mState = .liveInputs)
  let curr ← fb.mInputCurrBucket
  let snap ← fb.mInputSnapBucket
  guard fb.mOutputBucket.isNone
  let output ← merge keyOf curr snap fb.mInputShadowBuckets
    fb.mKeepDeadEntries
  { fb with mOutputBucket := some output }.checked bucketHash

/-- The constructor with inputs, which starts to merge them at once. -/
def ofInputs (curr snap : Bucket κ ε) (shadows : List (Bucket κ ε))
    (keepDeadEntries : Bool) : Option (FutureBucket κ ε η) :=
  startMerge bucketHash keyOf
    { mState := .liveInputs
      mInputCurrBucket := some curr
      mInputSnapBucket := some snap
      mInputShadowBuckets := shadows
      mInputCurrBucketHash := some (bucketHash curr)
      mInputSnapBucketHash := some (bucketHash snap)
      mInputShadowBucketHashes := shadows.map bucketHash
      mKeepDeadEntries := keepDeadEntries }

def makeLive (getBucketByHash : η → Option (Bucket κ ε))
    (fb : FutureBucket κ ε η) : Option (FutureBucket κ ε η) := do
  let fb ← fb.checked bucketHash
  guard (!fb.isLive && fb.hasHashes)
  if fb.hasOutputHash then
    let hash ← fb.mOutputBucketHash
    let output ← getBucketByHash hash
    fb.setLiveOutput bucketHash output
  else
    let currHash ← fb.mInputCurrBucketHash
    let snapHash ← fb.mInputSnapBucketHash
    guard fb.mInputShadowBuckets.isEmpty
    let shadows ← fb.mInputShadowBucketHashes.mapM getBucketByHash
    startMerge bucketHash keyOf
      { fb with
        mInputCurrBucket := getBucketByHash currHash
        mInputSnapBucket := getBucketByHash snapHash
        mInputShadowBuckets := shadows
        mState := .liveInputs }

end Merge

def save (fb : FutureBucket κ ε η) : Option (SavedFuture η) := do
  let fb ← fb.checked bucketHash
  match fb.mState with
  | .liveInputs | .hashInputs =>
      return .hashInputs fb.mInputCurrBucketHash fb.mInputSnapBucketHash
        fb.mInputShadowBucketHashes
  | .liveOutput | .hashOutput => return .hashOutput fb.mOutputBucketHash
  | .clear => return .clear

/-- `load` into an object that exists already. -/
def load (fb : FutureBucket κ ε η) (saved : SavedFuture η) :
    Option (FutureBucket κ ε η) :=
  match saved with
  | .hashInputs curr snap shadow =>
      { fb.clear with
        mState := .hashInputs
        mInputCurrBucketHash := curr
        mInputSnapBucketHash := snap
        mInputShadowBucketHashes := shadow }.checked bucketHash
  | .hashOutput output =>
      { fb.clear with
        mState := .hashOutput
        mOutputBucketHash := output }.checked bucketHash
  | .clear => fb.clear.checked bucketHash

end Hashes

end FutureBucket

end StellarCore.Buckets
