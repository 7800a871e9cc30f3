import Mathlib.Data.List.Sort
import Mathlib.Order.Defs.LinearOrder

/-!
# Buckets

`Bucket.cpp`, for any type of ledger entries with their keys.  A bucket is
the list of records in its file, and an input iterator is the rest of that
list.  A failed `assert` ends the operation with `none`.

`BucketEntryIdCmp` compares the keys of two records and nothing else, so the
keys are any linearly ordered type.
-/

namespace StellarCore.Buckets

/-- `LIVEENTRY` and `DEADENTRY`. -/
inductive BucketEntry (κ ε : Type) where
  | liveEntry (entry : ε)
  | deadEntry (key : κ)
  deriving DecidableEq, Repr

abbrev Bucket (κ ε : Type) := List (BucketEntry κ ε)

namespace BucketEntry

variable {κ ε : Type}

def isDead : BucketEntry κ ε → Bool
  | .liveEntry _ => false
  | .deadEntry _ => true

def key (keyOf : ε → κ) : BucketEntry κ ε → κ
  | .liveEntry entry => keyOf entry
  | .deadEntry key => key

end BucketEntry

section Merge

variable {κ ε : Type} [LinearOrder κ] (keyOf : ε → κ)

/-- `BucketEntryIdCmp`. -/
def cmp (a b : BucketEntry κ ε) : Bool :=
  decide (a.key keyOf < b.key keyOf)

/-- `mOut` is what has been written to the file. -/
structure OutputIterator (κ ε : Type) where
  mKeepDeadEntries : Bool
  mBuf : Option (BucketEntry κ ε) := none
  mOut : Bucket κ ε := []

namespace OutputIterator

def put (out : OutputIterator κ ε) (e : BucketEntry κ ε) :
    Option (OutputIterator κ ε) :=
  if !out.mKeepDeadEntries && e.isDead then some out
  else
    match out.mBuf with
    | none => some { out with mBuf := some e }
    | some buf =>
        if cmp keyOf e buf then none
        else if cmp keyOf buf e then
          some { out with mOut := out.mOut ++ [buf], mBuf := some e }
        else some { out with mBuf := some e }

def getBucket (out : OutputIterator κ ε) : Bucket κ ε :=
  out.mOut ++ out.mBuf.toList

end OutputIterator

/-- The iterators after the call are returned with the output: one that was
not reached before the early return has not moved. -/
def maybePut (out : OutputIterator κ ε) (entry : BucketEntry κ ε) :
    List (Bucket κ ε) →
      Option (OutputIterator κ ε × List (Bucket κ ε))
  | [] => (out.put keyOf entry).map (fun put => (put, []))
  | si :: shadowIterators =>
      match si.dropWhile (fun shadow => cmp keyOf shadow entry) with
      | shadow :: rest =>
          if !cmp keyOf entry shadow then
            some (out, (shadow :: rest) :: shadowIterators)
          else
            (maybePut out entry shadowIterators).map
              (fun done => (done.1, (shadow :: rest) :: done.2))
      | [] =>
          (maybePut out entry shadowIterators).map
            (fun done => (done.1, [] :: done.2))

def mergeLoop (oi ni : Bucket κ ε) (shadowIterators : List (Bucket κ ε))
    (out : OutputIterator κ ε) : Option (OutputIterator κ ε) :=
  match oi, ni with
  | [], [] => some out
  | old :: oi, [] => do
      let (out, shadowIterators) ← maybePut keyOf out old shadowIterators
      mergeLoop oi [] shadowIterators out
  | [], new :: ni => do
      let (out, shadowIterators) ← maybePut keyOf out new shadowIterators
      mergeLoop [] ni shadowIterators out
  | old :: oi, new :: ni =>
      if cmp keyOf old new then do
        let (out, shadowIterators) ← maybePut keyOf out old shadowIterators
        mergeLoop oi (new :: ni) shadowIterators out
      else if cmp keyOf new old then do
        let (out, shadowIterators) ← maybePut keyOf out new shadowIterators
        mergeLoop (old :: oi) ni shadowIterators out
      else do
        -- both are for the same key
        let (out, shadowIterators) ← maybePut keyOf out new shadowIterators
        mergeLoop oi ni shadowIterators out
termination_by oi.length + ni.length

def merge (oldBucket newBucket : Bucket κ ε) (shadows : List (Bucket κ ε))
    (keepDeadEntries : Bool) : Option (Bucket κ ε) := do
  let out ← mergeLoop keyOf oldBucket newBucket shadows
    { mKeepDeadEntries := keepDeadEntries }
  return out.getBucket

/-- `std::sort` by identity, written out through an output iterator. -/
def writeSorted (entries : List (BucketEntry κ ε)) :
    Option (Bucket κ ε) := do
  let sorted := entries.insertionSort
    (fun a b => a.key keyOf ≤ b.key keyOf)
  let out ← sorted.foldlM (OutputIterator.put keyOf)
    { mKeepDeadEntries := true }
  return out.getBucket

def fresh (liveEntries : List ε) (deadEntries : List κ) :
    Option (Bucket κ ε) := do
  let liveBucket ← writeSorted keyOf (liveEntries.map .liveEntry)
  let deadBucket ← writeSorted keyOf (deadEntries.map .deadEntry)
  merge keyOf liveBucket deadBucket [] true

end Merge

end StellarCore.Buckets
