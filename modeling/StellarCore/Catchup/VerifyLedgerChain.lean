import Mathlib.Tactic

/-!
# Verification of the downloaded ledger headers

`VerifyLedgerChainWork.cpp`, with `verifyCatchupCandidate` of
`LedgerManagerImpl.cpp` and the checkpoint arithmetic of
`HistoryManagerImpl.cpp`.  A file is the list of its records; one that cannot
be decoded makes `readOne` throw.  Exceptions and failed assertions give
`none`.
-/

namespace StellarCore.Catchup

/-- Of a header only what the verification reads has a name. -/
structure LedgerHeader (η ρ : Type) where
  previousLedgerHash : η
  ledgerSeq : UInt32
  rest : ρ
  deriving DecidableEq, Repr, Inhabited

structure LedgerHeaderHistoryEntry (η ρ : Type) where
  header : LedgerHeader η ρ
  hash : η
  deriving DecidableEq, Repr, Inhabited

structure LedgerRange where
  first : UInt32
  last : UInt32
  first_pos : 0 < first
  first_le_last : first ≤ last

inductive VerifyHashStatus where
  | ok
  | bad
  deriving DecidableEq, Repr

inductive WorkState where
  | success
  | running
  | failureFatal
  deriving DecidableEq, Repr

abbrev LedgerFile (η ρ : Type) :=
  List (Option (LedgerHeaderHistoryEntry η ρ))

/-- What the work reads.  `mSyncingLedgers` is the front of the buffered
ledgers: its number and the hash its transaction set builds on. -/
structure VerifyLedgerChainConfig (η ρ : Type) where
  getHash : LedgerHeader η ρ → η
  artificiallyAccelerateTime : Bool
  mRange : LedgerRange
  mManualCatchup : Bool
  mSyncingLedgers : Option (UInt32 × η)
  lastClosedLedger : LedgerHeaderHistoryEntry η ρ
  files : UInt32 → Option (LedgerFile η ρ)

structure VerifyLedgerChainWork (η ρ : Type) where
  mCurrCheckpoint : UInt32
  mFirstVerified : LedgerHeaderHistoryEntry η ρ
  mLastVerified : LedgerHeaderHistoryEntry η ρ
  deriving DecidableEq

namespace VerifyLedgerChainConfig

variable {η ρ : Type} [DecidableEq η] (config : VerifyLedgerChainConfig η ρ)

def getCheckpointFrequency : UInt32 :=
  if config.artificiallyAccelerateTime then 8 else 64

def nextCheckpointLedger (ledger : UInt32) : UInt32 :=
  let freq := config.getCheckpointFrequency
  if ledger = 0 then freq else (ledger + freq - 1) / freq * freq

def checkpointContainingLedger (ledger : UInt32) : UInt32 :=
  config.nextCheckpointLedger (ledger + 1) - 1

def verifyLedgerHistoryEntry (hhe : LedgerHeaderHistoryEntry η ρ) :
    VerifyHashStatus :=
  if config.getHash hhe.header ≠ hhe.hash then .bad else .ok

def verifyLedgerHistoryLink (prev : η)
    (curr : LedgerHeaderHistoryEntry η ρ) : VerifyHashStatus :=
  if config.verifyLedgerHistoryEntry curr ≠ .ok then .bad
  else if prev ≠ curr.header.previousLedgerHash then .bad
  else .ok

def verifyCatchupCandidate (candidate : LedgerHeaderHistoryEntry η ρ) :
    Option VerifyHashStatus :=
  if config.mManualCatchup then
    match config.mSyncingLedgers with
    | none => some .ok
    | some _ => none
  else
    match config.mSyncingLedgers with
    | none => none
    | some (ledgerSeq, previousLedgerHash) =>
        if ledgerSeq = candidate.header.ledgerSeq + 1 then
          if previousLedgerHash = candidate.hash then some .ok
          else some .bad
        else none

/-- The loop over the records of a file: how it ends, with `prev` and
`curr`. -/
def verifyHeaders :
    LedgerHeaderHistoryEntry η ρ → LedgerHeaderHistoryEntry η ρ →
      LedgerFile η ρ → Option (VerifyHashStatus ×
        LedgerHeaderHistoryEntry η ρ × LedgerHeaderHistoryEntry η ρ)
  | prev, curr, [] => some (.ok, prev, curr)
  | _, _, none :: _ => none
  | prev, _, some curr :: records =>
      -- no previous state to connect up with: the first entry is accepted
      if prev.header.ledgerSeq = 0 then verifyHeaders curr curr records
      else
        let expectedSeq := prev.header.ledgerSeq + 1
        -- harmless prehistory
        if curr.header.ledgerSeq < expectedSeq then
          verifyHeaders prev curr records
        else if curr.header.ledgerSeq > expectedSeq then
          some (.bad, prev, curr)
        else if config.verifyLedgerHistoryLink prev.hash curr ≠ .ok then
          some (.bad, prev, curr)
        else if curr.header.ledgerSeq = config.mRange.last then
          some (.ok, curr, curr)
        else verifyHeaders curr curr records

variable [Inhabited η] [Inhabited ρ]

def verifyHistoryOfSingleCheckpoint (work : VerifyLedgerChainWork η ρ) :
    Option (VerifyHashStatus × VerifyLedgerChainWork η ρ) :=
  (config.files work.mCurrCheckpoint).bind fun records =>
    (config.verifyHeaders work.mLastVerified default records).bind
      fun (status, _, curr) =>
        if status ≠ .ok then some (.bad, work)
        else if curr.header.ledgerSeq ≠ work.mCurrCheckpoint ∧
            curr.header.ledgerSeq ≠ config.mRange.last then
          some (.bad, work)
        else
          (if curr.header.ledgerSeq = config.mRange.last then
            config.verifyCatchupCandidate curr
          else some .ok).map fun status =>
            match status with
            | .ok =>
                (.ok,
                  { work with
                    mFirstVerified :=
                      if work.mCurrCheckpoint =
                          config.checkpointContainingLedger
                            config.mRange.first then curr
                      else work.mFirstVerified
                    mLastVerified := curr })
            | .bad => (.bad, work)

def onReset (work : VerifyLedgerChainWork η ρ) :
    VerifyLedgerChainWork η ρ :=
  let setLedger :=
    if config.lastClosedLedger.header.ledgerSeq < 2 then default
    else config.lastClosedLedger
  { mCurrCheckpoint :=
      config.checkpointContainingLedger config.mRange.first
    mFirstVerified :=
      if work.mFirstVerified.header.ledgerSeq ≠ 0 then setLedger
      else work.mFirstVerified
    mLastVerified :=
      if work.mLastVerified.header.ledgerSeq ≠ 0 then setLedger
      else work.mLastVerified }

def onSuccess (work : VerifyLedgerChainWork η ρ) :
    Option (WorkState × VerifyLedgerChainWork η ρ) :=
  if work.mCurrCheckpoint >
      config.checkpointContainingLedger config.mRange.last then none
  else
    (config.verifyHistoryOfSingleCheckpoint work).map
      fun (status, work) =>
        match status with
        | .ok =>
            if work.mLastVerified.header.ledgerSeq =
                config.mRange.last then (.success, work)
            else
              (.running,
                { work with
                  mCurrCheckpoint :=
                    work.mCurrCheckpoint + config.getCheckpointFrequency })
        | .bad => (.failureFatal, work)

/-- The states of the work between two checkpoints. -/
inductive Reaches (initial : VerifyLedgerChainWork η ρ) :
    VerifyLedgerChainWork η ρ → Prop where
  | onReset : Reaches initial (config.onReset initial)
  | onSuccess {work after : VerifyLedgerChainWork η ρ} :
      Reaches initial work →
      config.onSuccess work = some (.running, after) →
      Reaches initial after

end VerifyLedgerChainConfig

end StellarCore.Catchup
