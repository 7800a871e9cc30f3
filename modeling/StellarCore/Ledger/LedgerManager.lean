import StellarCore.Catchup.VerifyLedgerChain
import StellarCore.Lib.Program

/-!
# The ledger manager and its catchup

`valueExternalized`, `startCatchUp`, `verifyCatchupCandidate`, `closeLedger`
and `historyCaughtup` of `LedgerManagerImpl.cpp`, with `SyncingLedgerChain.cpp`
and the steps of `CatchupWork.cpp` and `ApplyLedgerChainWork.cpp` that call
back into them.  What closing a ledger does to the entries of the ledger lies
outside; it gives the header that is closed or an exception.  An exception
that nothing catches ends the process.
-/

namespace StellarCore.Ledger

open StellarCore.Catchup

/-- The parts of a header that are named nowhere else: `scpValue` and the
fields that only closing a ledger writes. -/
structure HeaderRest (ν ρ : Type) where
  scpValue : ν
  fields : ρ
  deriving DecidableEq

abbrev Header (η ν ρ : Type) := LedgerHeader η (HeaderRest ν ρ)

abbrev HistoryEntry (η ν ρ : Type) :=
  LedgerHeaderHistoryEntry η (HeaderRest ν ρ)

structure TxSet (η τ : Type) where
  previousLedgerHash : η
  contentsHash : η
  transactions : τ

structure LedgerCloseData (η ν τ : Type) where
  ledgerSeq : UInt32
  txSet : TxSet η τ
  value : ν

structure CatchupConfiguration where
  toLedger : UInt32
  count : UInt32
  deriving DecidableEq

/-- `CatchupConfiguration::CURRENT`. -/
def current : UInt32 := 0

/-- `getHash` is the hash of an encoded header, `isValid` the check before it
is stored and `txSetHash` a field of the value; `apply` is what closing a
ledger with some transactions does to the fields of the current header. -/
structure Closing (η ν τ ρ : Type) where
  getHash : Header η ν ρ → η
  isValid : Header η ν ρ → Bool
  txSetHash : ν → η
  apply : Header η ν ρ → τ → Except String ρ
  catchupCount : UInt32

inductive ManagerState where
  | booting
  | synced
  | catchingUp
  deriving DecidableEq

inductive ProgressState where
  | appliedBuckets
  | appliedTransactions
  | finished
  deriving DecidableEq

/-- How far a `CatchupWork` is; `last` is the end of its range, and
`mLastApplied` the last ledger of the replay. -/
inductive CatchupStage (η ν ρ : Type) where
  | started
  | downloading (last : UInt32)
  | verified (last : UInt32)
  | bucketsApplied (last : UInt32)
  | replaying (last : UInt32) (mLastApplied : HistoryEntry η ν ρ)
  | replayFailed (last : UInt32)

structure CatchupWork (η ν ρ : Type) where
  mCatchupConfiguration : CatchupConfiguration
  mManualCatchup : Bool
  stage : CatchupStage η ν ρ

/-- A change of the last closed ledger: the ledger before and after it, and
what was closed; nothing was when buckets were applied. -/
structure LedgerChange (η ν τ ρ : Type) where
  before : HistoryEntry η ν ρ
  closed : Option (LedgerCloseData η ν τ)
  after : HistoryEntry η ν ρ

/-- `mCatchupWork` is the one of the catchup manager; `changes` are those of
the last closed ledger so far. -/
structure LedgerManager (η ν τ ρ : Type) where
  mLastClosedLedger : HistoryEntry η ν ρ
  mCurrentLedger : Header η ν ρ
  mSyncingLedgers : List (LedgerCloseData η ν τ)
  mState : ManagerState
  mCatchupWork : Option (CatchupWork η ν ρ)
  changes : List (LedgerChange η ν τ ρ)

inductive ManagerFailure where
  | assertion
  | exception (what : String)
  deriving DecidableEq

abbrev Manager (η ν τ ρ : Type) :=
  EStateM ManagerFailure (LedgerManager η ν τ ρ)

/-- The current ledger that follows a closed one. -/
def nextHeader {η ν ρ : Type} (lastClosed : HistoryEntry η ν ρ) :
    Header η ν ρ :=
  { lastClosed.header with
    ledgerSeq := lastClosed.header.ledgerSeq + 1
    previousLedgerHash := lastClosed.hash }

section Source

variable {η ν τ ρ : Type} [DecidableEq η] [DecidableEq ν] [DecidableEq ρ]

def assertThat (condition : Bool) : Manager η ν τ ρ Unit :=
  if condition then pure () else throw .assertion

def setState (state : ManagerState) : Manager η ν τ ρ Unit :=
  modify (fun lm => { lm with mState := state })

def setStage (stage : CatchupStage η ν ρ) : Manager η ν τ ρ Unit :=
  modify (fun lm =>
    { lm with
      mCatchupWork := lm.mCatchupWork.map
        (fun work => { work with stage }) })

/-- `CatchupManagerImpl::historyCaughtup`. -/
def resetCatchupWork : Manager η ν τ ρ Unit :=
  modify (fun lm => { lm with mCatchupWork := none })

inductive SyncingLedgerChainAddResult where
  | contiguous
  | tooOld
  | tooNew
  deriving DecidableEq

/-- `SyncingLedgerChain::add`. -/
def addToChain (chain : List (LedgerCloseData η ν τ))
    (lcd : LedgerCloseData η ν τ) :
    SyncingLedgerChainAddResult × List (LedgerCloseData η ν τ) :=
  match chain.getLast? with
  | none => (.contiguous, chain ++ [lcd])
  | some back =>
      if back.ledgerSeq + 1 = lcd.ledgerSeq then
        (.contiguous, chain ++ [lcd])
      else if lcd.ledgerSeq ≤ back.ledgerSeq then
        (.tooOld, chain)
      else
        (.tooNew, chain)

/-- `CatchupManagerImpl::catchupHistory`. -/
def catchupHistory (configuration : CatchupConfiguration)
    (manualCatchup : Bool) : Manager η ν τ ρ Unit := do
  if (← get).mCatchupWork.isSome then
    throw (.exception "Catchup already in progress")
  else
    modify (fun lm =>
      { lm with
        mCatchupWork := some
          { mCatchupConfiguration := configuration
            mManualCatchup := manualCatchup
            stage := .started } })

def startCatchUp (configuration : CatchupConfiguration)
    (manualCatchup : Bool) : Manager η ν τ ρ Unit := do
  let lastClosedLedger := (← get).mLastClosedLedger.header.ledgerSeq
  if configuration.toLedger ≠ current ∧
      configuration.toLedger ≤ lastClosedLedger then
    throw (.exception "Target ledger is not newer than LCL")
  else
    setState .catchingUp
    catchupHistory configuration manualCatchup

variable (closing : Closing η ν τ ρ)

/-- The last step of closing a ledger: the header becomes the last closed one
and a new current one is started. -/
def advanceLedgerPointers (lcd : LedgerCloseData η ν τ)
    (header : Header η ν ρ) : Manager η ν τ ρ Unit :=
  modify (fun lm =>
    let lastClosed : HistoryEntry η ν ρ :=
      { header, hash := closing.getHash header }
    { lm with
      mLastClosedLedger := lastClosed
      mCurrentLedger := nextHeader lastClosed
      changes := lm.changes ++
        [{ before := lm.mLastClosedLedger
           closed := some lcd
           after := lastClosed }] })

def closeLedger (lcd : LedgerCloseData η ν τ) : Manager η ν τ ρ Unit := do
  let lm ← get
  if lcd.txSet.previousLedgerHash ≠ lm.mLastClosedLedger.hash then
    throw (.exception "txset mismatch")
  else if lcd.txSet.contentsHash ≠ closing.txSetHash lcd.value then
    throw (.exception "corrupt transaction set")
  else
    let header : Header η ν ρ :=
      { lm.mCurrentLedger with
        rest := { lm.mCurrentLedger.rest with scpValue := lcd.value } }
    set { lm with mCurrentLedger := header }
    match closing.apply header lcd.txSet.transactions with
    | .error what => throw (.exception what)
    | .ok fields =>
        let header := { header with rest := { header.rest with fields } }
        if closing.isValid header then
          advanceLedgerPointers closing lcd header
        else
          throw (.exception "invalid ledger header (insert)")

/-- A value that is externalized while no catchup is running. -/
def followValue (ledgerData : LedgerCloseData η ν τ) :
    Manager η ν τ ρ Unit := do
  let lm ← get
  if lm.mLastClosedLedger.header.ledgerSeq + 1 = ledgerData.ledgerSeq then
    if lm.mLastClosedLedger.hash = ledgerData.txSet.previousLedgerHash then
      setState .synced
      closeLedger closing ledgerData
    else
      throw (.exception "Network consensus inconsistency")
  else if ledgerData.ledgerSeq ≤ lm.mLastClosedLedger.header.ledgerSeq then
    return ()
  else
    assertThat lm.mSyncingLedgers.isEmpty
    let (addResult, chain) := addToChain lm.mSyncingLedgers ledgerData
    modify (fun lm => { lm with mSyncingLedgers := chain })
    assertThat (addResult = .contiguous)
    startCatchUp
      { toLedger := ledgerData.ledgerSeq - 1
        count := closing.catchupCount } false

def valueExternalized (ledgerData : LedgerCloseData η ν τ) :
    Manager η ν τ ρ Unit := do
  match (← get).mState with
  | .booting => followValue closing ledgerData
  | .synced => followValue closing ledgerData
  | .catchingUp =>
      modify (fun lm =>
        { lm with
          mSyncingLedgers :=
            (addToChain lm.mSyncingLedgers ledgerData).2 })

def verifyCatchupCandidate (candidate : HistoryEntry η ν ρ)
    (manualCatchup : Bool) : Manager η ν τ ρ VerifyHashStatus := do
  let lm ← get
  if manualCatchup then
    assertThat lm.mSyncingLedgers.isEmpty
    return .ok
  else
    match lm.mSyncingLedgers.head? with
    | none => throw .assertion
    | some front =>
        assertThat (front.ledgerSeq = candidate.header.ledgerSeq + 1)
        if front.txSet.previousLedgerHash = candidate.hash then
          return .ok
        else
          return .bad

/-- The loop over the buffered ledgers; whether it ends early because one
overshoots the last closed ledger. -/
def replayBuffered :
    List (LedgerCloseData η ν τ) → Manager η ν τ ρ Bool
  | [] => return false
  | lcd :: rest => do
      let lastClosed := (← get).mLastClosedLedger
      if lcd.ledgerSeq < lastClosed.header.ledgerSeq + 1 then
        if lcd.ledgerSeq = lastClosed.header.ledgerSeq then
          assertThat (lcd.txSet.contentsHash = closing.txSetHash lcd.value)
          assertThat (lcd.value = lastClosed.header.rest.scpValue)
          replayBuffered rest
        else
          replayBuffered rest
      else if lcd.ledgerSeq = lastClosed.header.ledgerSeq + 1 then
        closeLedger closing lcd
        replayBuffered rest
      else
        assertThat (lastClosed.header.ledgerSeq + 1 < lcd.ledgerSeq)
        return true

/-- The ledger whose buckets were applied becomes the last closed one. -/
def assumeLedger (lastClosed : HistoryEntry η ν ρ) :
    Manager η ν τ ρ Unit := do
  if !closing.isValid lastClosed.header then
    throw (.exception "invalid ledger header (insert)")
  else
    modify (fun lm =>
      { lm with
        mLastClosedLedger := lastClosed
        mCurrentLedger := lastClosed.header
        changes := lm.changes ++
          [{ before := lm.mLastClosedLedger
             closed := none
             after := lastClosed }] })
    if closing.getHash lastClosed.header ≠ lastClosed.hash then
      throw (.exception "provided ledger header is invalid")
    else
      modify (fun lm => { lm with mCurrentLedger := nextHeader lastClosed })

/-- The end of the buffered ledgers, whichever way they were replayed. -/
def clearSyncingLedgers : Manager η ν τ ρ Unit :=
  modify (fun lm => { lm with mSyncingLedgers := [] })

/-- `historyCaughtup` with an error code. -/
def historyCaughtupError : Manager η ν τ ρ Unit := do
  setState .booting
  resetCatchupWork
  clearSyncingLedgers

/-- `historyCaughtup` without an error code. -/
def historyCaughtup (progressState : ProgressState)
    (lastClosed : HistoryEntry η ν ρ) : Manager η ν τ ρ Unit := do
  match progressState with
  | .appliedBuckets => assumeLedger closing lastClosed
  | .appliedTransactions =>
      let lm ← get
      assertThat (lastClosed.hash = lm.mLastClosedLedger.hash)
      assertThat (lastClosed.header = lm.mLastClosedLedger.header)
  | .finished =>
      resetCatchupWork
      let overshot ← replayBuffered closing (← get).mSyncingLedgers
      if overshot then
        clearSyncingLedgers
        setState .booting
      else
        setState .synced
        clearSyncingLedgers

/-! ## The work of a catchup -/

/-- `CatchupWork::onFailureRaise`. -/
def onFailureRaise : Manager η ν τ ρ Unit := do
  resetCatchupWork
  historyCaughtupError

/-- The range of the catchup, once the state of the archive is known. -/
def resolveRange (remoteCheckpoint : UInt32) : Manager η ν τ ρ Unit := do
  match (← get).mCatchupWork with
  | some ⟨configuration, _, .started⟩ =>
      setStage (.downloading
        (if configuration.toLedger = current then remoteCheckpoint
        else configuration.toLedger))
  | _ => return ()

/-- The verification of the downloaded headers comes to the end of the
range. -/
def verifyEndOfRange (candidate : HistoryEntry η ν ρ) :
    Manager η ν τ ρ Unit := do
  match (← get).mCatchupWork with
  | some ⟨_, mManualCatchup, .downloading last⟩ =>
      if candidate.header.ledgerSeq = last then
        match ← verifyCatchupCandidate candidate mManualCatchup with
        | .ok => setStage (.verified last)
        | .bad => onFailureRaise
      else
        return ()
  | _ => return ()

def applyBuckets (mFirstVerified : HistoryEntry η ν ρ) :
    Manager η ν τ ρ Unit := do
  let lm ← get
  match lm.mCatchupWork with
  | some ⟨_, _, .verified last⟩ =>
      if mFirstVerified.header.ledgerSeq <
          lm.mLastClosedLedger.header.ledgerSeq then
        throw (.exception
          "Catchup MINIMAL applying ledger earlier than local LCL")
      else
        historyCaughtup closing .appliedBuckets mFirstVerified
        setStage (.bucketsApplied last)
  | _ => return ()

/-- `ApplyLedgerChainWork::onReset`, at the first and at every further
attempt. -/
def startReplay : Manager η ν τ ρ Unit := do
  let lm ← get
  match lm.mCatchupWork with
  | some ⟨_, _, .verified last⟩ =>
      setStage (.replaying last lm.mLastClosedLedger)
  | some ⟨_, _, .bucketsApplied last⟩ =>
      setStage (.replaying last lm.mLastClosedLedger)
  | some ⟨_, _, .replayFailed last⟩ =>
      setStage (.replaying last lm.mLastClosedLedger)
  | _ => return ()

/-- `applyHistoryOfSingleLedger`: whether a ledger was closed. -/
def applyHistoryOfSingleLedger (hHeader : HistoryEntry η ν ρ)
    (txset : TxSet η τ) : Manager η ν τ ρ Bool := do
  let lm ← get
  let header := hHeader.header
  let lclHeader := lm.mLastClosedLedger
  if header.ledgerSeq + 1 < lclHeader.header.ledgerSeq then
    return false
  else if header.ledgerSeq + 1 = lclHeader.header.ledgerSeq then
    if hHeader.hash ≠ lclHeader.header.previousLedgerHash then
      throw (.exception "replay failed to connect on hash of LCL predecessor")
    else
      return false
  else if header.ledgerSeq = lclHeader.header.ledgerSeq then
    if hHeader.hash ≠ lclHeader.hash then
      throw (.exception "replay at LCL disagreed on hash")
    else
      return false
  else if header.ledgerSeq ≠ lm.mCurrentLedger.ledgerSeq then
    throw (.exception "replay overshot current ledger")
  else if header.previousLedgerHash ≠ lclHeader.hash then
    throw (.exception "replay at current ledger disagreed on LCL hash")
  else if closing.txSetHash header.rest.scpValue ≠ txset.contentsHash then
    throw (.exception
      "replay txset hash differs from txset hash in replay ledger")
  else
    closeLedger closing
      { ledgerSeq := header.ledgerSeq
        txSet := txset
        value := header.rest.scpValue }
    if (← get).mLastClosedLedger.hash ≠ hHeader.hash then
      throw (.exception "replay produced mismatched ledger hash")
    else
      return true

/-- `ApplyLedgerChainWork::onRun`: an exception makes the attempt fail. -/
def replayLedger (hHeader : HistoryEntry η ν ρ) (txset : TxSet η τ) :
    Manager η ν τ ρ Unit := do
  match (← get).mCatchupWork with
  | some ⟨_, _, .replaying last _⟩ =>
      tryCatch
        (do
          if ← applyHistoryOfSingleLedger closing hHeader txset then
            setStage (.replaying last hHeader)
          else
            return ())
        (fun failure =>
          match failure with
          | .assertion => throw .assertion
          | .exception _ => setStage (.replayFailed last))
  | _ => return ()

/-- An attempt fails before it has read a ledger. -/
def failReplay : Manager η ν τ ρ Unit := do
  match (← get).mCatchupWork with
  | some ⟨_, _, .replaying last _⟩ => setStage (.replayFailed last)
  | _ => return ()

/-- The end of `CatchupWork::onSuccess`, once the replay has come to the end
of the range. -/
def finishCatchup : Manager η ν τ ρ Unit := do
  let lm ← get
  match lm.mCatchupWork with
  | some ⟨_, _, .replaying last mLastApplied⟩ =>
      if lm.mLastClosedLedger.header.ledgerSeq = last then
        historyCaughtup closing .appliedTransactions mLastApplied
        historyCaughtup closing .finished mLastApplied
        resetCatchupWork
      else
        return ()
  | _ => return ()

def failCatchup : Manager η ν τ ρ Unit := do
  if (← get).mCatchupWork.isSome then
    onFailureRaise
  else
    return ()

/-- A catchup that is asked for by a command; what it throws is answered to
the command. -/
def commandCatchup (configuration : CatchupConfiguration) :
    Manager η ν τ ρ Unit :=
  tryCatch (startCatchUp configuration true)
    (fun failure =>
      match failure with
      | .assertion => throw .assertion
      | .exception _ => return ())

inductive ManagerInput (η ν τ ρ : Type) where
  | valueExternalized (ledgerData : LedgerCloseData η ν τ)
  | commandCatchup (configuration : CatchupConfiguration)
  | resolveRange (remoteCheckpoint : UInt32)
  | verifyEndOfRange (candidate : HistoryEntry η ν ρ)
  | applyBuckets (mFirstVerified : HistoryEntry η ν ρ)
  | startReplay
  | replayLedger (hHeader : HistoryEntry η ν ρ) (txset : TxSet η τ)
  | failReplay
  | finishCatchup
  | failCatchup

def handleInput : ManagerInput η ν τ ρ → Manager η ν τ ρ Unit
  | .valueExternalized ledgerData => valueExternalized closing ledgerData
  | .commandCatchup configuration => commandCatchup configuration
  | .resolveRange remoteCheckpoint => resolveRange remoteCheckpoint
  | .verifyEndOfRange candidate => verifyEndOfRange candidate
  | .applyBuckets mFirstVerified => applyBuckets closing mFirstVerified
  | .startReplay => startReplay
  | .replayLedger hHeader txset => replayLedger closing hHeader txset
  | .failReplay => failReplay
  | .finishCatchup => finishCatchup closing
  | .failCatchup => failCatchup

def handleInputs : List (ManagerInput η ν τ ρ) → Manager η ν τ ρ Unit
  | [] => return ()
  | input :: inputs => do
      handleInput closing input
      handleInputs inputs

end Source

end StellarCore.Ledger
