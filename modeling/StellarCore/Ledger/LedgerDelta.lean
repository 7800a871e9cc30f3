import Mathlib.Data.Finmap
import Mathlib.Data.Finset.Sort
import StellarCore.Lib.Program

/-!
# Changes to a ledger

`LedgerDelta.cpp`, for any type of entries with their keys and any type of
headers.  The maps of a delta are finite maps, iterated in the order of their
keys.  A failed `assert` and an exception end the operation with a failure.
-/

namespace StellarCore.Ledger

/-- `std::map<LedgerKey, EntryFrame::pointer, LedgerEntryIdCmp>`. -/
abbrev EntryMap (κ ε : Type) := Finmap (fun _ : κ => ε)

/-- The pointers to the outer delta and its header are not kept: a delta is
opened from its outer delta and committed to it. -/
structure LedgerDelta (κ ε η : Type) where
  mCurrentHeader : η
  mPreviousHeaderValue : η
  mNew : EntryMap κ ε := ∅
  mMod : EntryMap κ ε := ∅
  mDelete : Finset κ := ∅
  mPrevious : EntryMap κ ε := ∅

inductive DeltaFailure where
  | doubleNew
  | modAndNew
  | doubleDelete
  | deleteAndMod
  | unexpectedHeaderState
  | alreadyCommitted
  deriving DecidableEq, Repr

namespace LedgerDelta

variable {κ ε η : Type} [LinearOrder κ]

/-- A delta over the header it is given. -/
def start (header : η) : LedgerDelta κ ε η :=
  { mCurrentHeader := header
    mPreviousHeaderValue := header }

/-- `LedgerDelta(LedgerDelta& outerDelta)`. -/
def nested (outer : LedgerDelta κ ε η) : LedgerDelta κ ε η :=
  start outer.mCurrentHeader

section Entries

variable (keyOf : ε → κ)

def addEntry (delta : LedgerDelta κ ε η) (entry : ε) :
    Except DeltaFailure (LedgerDelta κ ε η) :=
  let k := keyOf entry
  if k ∈ delta.mDelete then
    -- delete + new is an update
    .ok { delta with
      mDelete := delta.mDelete.erase k
      mMod := delta.mMod.insert k entry }
  else if k ∈ delta.mNew then .error .doubleNew
  else if k ∈ delta.mMod then .error .modAndNew
  else .ok { delta with mNew := delta.mNew.insert k entry }

def deleteEntry (delta : LedgerDelta κ ε η) (k : κ) :
    Except DeltaFailure (LedgerDelta κ ε η) :=
  if k ∈ delta.mNew then
    -- new + delete: it was not there in the first place
    .ok { delta with mNew := delta.mNew.erase k }
  else if k ∈ delta.mDelete then .error .doubleDelete
  else
    .ok { delta with
      mMod := delta.mMod.erase k
      mDelete := insert k delta.mDelete }

def modEntry (delta : LedgerDelta κ ε η) (entry : ε) :
    Except DeltaFailure (LedgerDelta κ ε η) :=
  let k := keyOf entry
  if k ∈ delta.mMod then
    .ok { delta with mMod := delta.mMod.insert k entry }
  else if k ∈ delta.mNew then
    .ok { delta with mNew := delta.mNew.insert k entry }
  else if k ∈ delta.mDelete then .error .deleteAndMod
  else .ok { delta with mMod := delta.mMod.insert k entry }

/-- `insert` of a map keeps the old entry. -/
def recordEntry (delta : LedgerDelta κ ε η) (entry : ε) :
    LedgerDelta κ ε η :=
  if keyOf entry ∈ delta.mPrevious then delta
  else
    { delta with
      mPrevious := delta.mPrevious.insert (keyOf entry) entry }

/-- The previous value of a key, passed on to the outer delta. -/
def recordPrevious (delta other : LedgerDelta κ ε η) (k : κ) :
    LedgerDelta κ ε η :=
  match other.mPrevious.lookup k with
  | some entry => delta.recordEntry keyOf entry
  | none => delta

scoped instance le_isTrans : IsTrans κ (· ≤ ·) := inferInstance

scoped instance le_antisymm :
    Std.Antisymm (fun first second : κ => first ≤ second) :=
  inferInstance

scoped instance le_total :
    Std.Total (fun first second : κ => first ≤ second) :=
  inferInstance

/-- The entries of a map in the order of their keys. -/
def inOrder (map : EntryMap κ ε) : List ε :=
  (map.keys.sort (· ≤ ·)).filterMap map.lookup

def mergeDeleted (other delta : LedgerDelta κ ε η) (d : κ) :
    Except DeltaFailure (LedgerDelta κ ε η) := do
  let deleted ← delta.deleteEntry d
  return deleted.recordPrevious keyOf other d

def mergeModified (other delta : LedgerDelta κ ε η) (m : ε) :
    Except DeltaFailure (LedgerDelta κ ε η) := do
  let modified ← delta.modEntry keyOf m
  return modified.recordPrevious keyOf other (keyOf m)

def mergeEntries (delta other : LedgerDelta κ ε η) :
    Except DeltaFailure (LedgerDelta κ ε η) := do
  let deleted ← (other.mDelete.sort (· ≤ ·)).foldlM
    (mergeDeleted keyOf other) delta
  let added ← (inOrder other.mNew).foldlM (addEntry keyOf) deleted
  (inOrder other.mMod).foldlM (mergeModified keyOf other) added

/-- `commit` of a nested delta: the outer delta after it. -/
def commit [DecidableEq η] (outer delta : LedgerDelta κ ε η) :
    Except DeltaFailure (LedgerDelta κ ε η) :=
  if delta.mPreviousHeaderValue ≠ outer.mCurrentHeader then
    .error .unexpectedHeaderState
  else do
    let merged ← outer.mergeEntries keyOf delta
    return { merged with mCurrentHeader := delta.mCurrentHeader }

end Entries

def getLiveEntries (delta : LedgerDelta κ ε η) : List ε :=
  inOrder delta.mNew ++ inOrder delta.mMod

def getDeadEntries (delta : LedgerDelta κ ε η) : List κ :=
  delta.mDelete.sort (· ≤ ·)

end LedgerDelta

end StellarCore.Ledger
