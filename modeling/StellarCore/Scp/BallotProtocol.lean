import StellarCore.Scp.Slot

/-!
# The ballot protocol

The methods of `BallotProtocol.cpp`, in the order in which they call one
another.  A method that emits a statement makes the node process its own
statement, which calls `advanceSlot` again; these methods take that call as
their parameter `advanceSlot`, and the knot is tied at the end, where the
nesting level bounds the recursion.
-/

namespace StellarCore.Scp

inductive EnvelopeState where
  | invalid
  | valid
  deriving DecidableEq, Repr

/-- `SCPDriver::computeTimeout`, in seconds. -/
def computeTimeout (roundNumber : Uint32) : Nat :=
  if roundNumber.val > 30 * 60 then 30 * 60 else roundNumber.val

/-- The part of `isStatementSane` that looks at the pledges. -/
def arePledgesSane (pledges : Pledges) (self : Bool) : Bool :=
  match pledges with
  | .prepare p =>
      (self || decide (p.ballot.counter > 0)) &&
        (match p.preparedPrime, p.prepared with
          | some preparedPrime, some prepared =>
              areBallotsLessAndIncompatible preparedPrime prepared
          | _, _ => true) &&
        (decide (p.nH = 0) ||
          p.prepared.any (fun prepared => decide (p.nH ≤ prepared.counter))) &&
        (decide (p.nC = 0) || (decide (p.nH ≠ 0) &&
          decide (p.ballot.counter ≥ p.nH) && decide (p.nH ≥ p.nC)))
  | .confirm c =>
      decide (c.ballot.counter > 0) && decide (c.nH ≤ c.ballot.counter) &&
        decide (c.nCommit ≤ c.nH)
  | .externalize e =>
      decide (e.commit.counter > 0) && decide (e.nH ≥ e.commit.counter)

/-- The set of values that `validateValues` hands to the driver. -/
def statementValues (st : SCPStatement) : List Value :=
  toSet (match st.pledges with
    | .prepare prep =>
        (if prep.ballot.counter ≠ 0 then [prep.ballot.value] else []) ++
          (prep.prepared.map SCPBallot.value).toList
    | .confirm c => [c.ballot.value]
    | .externalize e => [e.commit.value])

def validateValues (config : SlotConfig) (st : SCPStatement) :
    ValidationLevel :=
  (statementValues st).foldl
    (fun res v =>
      match config.driver.validateValue config.mSlotIndex v with
      | .kFullyValidatedValue => res
      | .kInvalidValue => .kInvalidValue
      | .kMaybeValidValue => .kMaybeValidValue)
    .kFullyValidatedValue

/-- The ballots of the hint from which the search for candidates starts. -/
def hintBallots (hint : SCPStatement) : List SCPBallot :=
  toSet (match hint.pledges with
    | .prepare prep =>
        prep.ballot :: (prep.prepared.toList ++ prep.preparedPrime.toList)
    | .confirm con =>
        [⟨con.nPrepared, con.ballot.value⟩, ⟨uint32Max, con.ballot.value⟩]
    | .externalize ext => [⟨uint32Max, ext.commit.value⟩])

/-- The candidates that one statement contributes below `topVote`. -/
def candidatesFrom (topVote : SCPBallot) (st : SCPStatement) :
    List SCPBallot :=
  match st.pledges with
  | .prepare prep =>
      (prep.ballot ::
        (prep.prepared.toList ++ prep.preparedPrime.toList)).filter
        (fun ballot => areBallotsLessAndCompatible ballot topVote)
  | .confirm con =>
      if areBallotsCompatible topVote con.ballot then
        topVote ::
          (if con.nPrepared < topVote.counter then
            [⟨con.nPrepared, topVote.value⟩]
          else [])
      else []
  | .externalize ext =>
      if areBallotsCompatible topVote ext.commit then [topVote] else []

def getPrepareCandidates (bp : BallotProtocol) (hint : SCPStatement) :
    List SCPBallot :=
  toSet ((hintBallots hint).reverse.flatMap fun topVote =>
    bp.mLatestEnvelopes.entries.flatMap fun entry =>
      candidatesFrom topVote entry.2.statement)

def findExtendedInterval (pred : Interval → Bool) :
    Interval → List Uint32 → Interval
  | candidate, [] => candidate
  | candidate, b :: boundaries =>
      if candidate.first ≠ 0 ∧ b > candidate.second then
        findExtendedInterval pred candidate boundaries
      else
        let cur : Interval :=
          if candidate.first = 0 then ⟨b, b⟩ else ⟨b, candidate.second⟩
        if pred cur then findExtendedInterval pred cur boundaries
        else if candidate.first ≠ 0 then candidate
        else findExtendedInterval pred candidate boundaries

def getCommitBoundariesFromStatements (bp : BallotProtocol)
    (ballot : SCPBallot) : List Uint32 :=
  toSet (bp.mLatestEnvelopes.entries.flatMap fun entry =>
    match entry.2.statement.pledges with
    | .prepare p =>
        if areBallotsCompatible ballot p.ballot && decide (p.nC ≠ 0) then
          [p.nC, p.nH]
        else []
    | .confirm c =>
        if areBallotsCompatible ballot c.ballot then [c.nCommit, c.nH]
        else []
    | .externalize e =>
        if areBallotsCompatible ballot e.commit then
          [e.commit.counter, e.nH, uint32Max]
        else [])

/-- `setPrepared`: the new members `p` and `p'`, and whether they changed. -/
def setPrepared (bp : BallotProtocol) (ballot : SCPBallot) :
    Bool × BallotProtocol :=
  match bp.mPrepared with
  | none => (true, { bp with mPrepared := some ballot })
  | some prepared =>
      if compareBallots prepared ballot < 0 then
        (true,
          { bp with
            mPreparedPrime :=
              if areBallotsCompatible prepared ballot then bp.mPreparedPrime
              else some prepared
            mPrepared := some ballot })
      else if compareBallots prepared ballot > 0 then
        if bp.mPreparedPrime.all
            (fun prime => decide (compareBallots prime ballot < 0)) then
          (true, { bp with mPreparedPrime := some ballot })
        else (false, bp)
      else (false, bp)

def recordEnvelope (env : SCPEnvelope) : BallotM Unit :=
  modify fun slot =>
    { slot with
      mBallotProtocol :=
        { slot.mBallotProtocol with
          mLatestEnvelopes :=
            slot.mBallotProtocol.mLatestEnvelopes.insert
              env.statement.nodeID env }
      mStatementsHistory :=
        slot.mStatementsHistory ++ [(env.statement, slot.mFullyValidated)] }

def setFullyValidated (fullyValidated : Bool) : BallotM Unit :=
  modify fun slot => { slot with mFullyValidated := fullyValidated }

/-- `isNewerStatement` against the recorded statement of the node. -/
def isNewerForNode (bp : BallotProtocol) (nodeID : NodeID)
    (st : SCPStatement) : Bool :=
  match bp.mLatestEnvelopes.lookup nodeID with
  | none => true
  | some old => isNewerStatement old.statement st

def sendLatestEnvelope : BallotM Unit := do
  let slot ← get
  let bp := slot.mBallotProtocol
  match bp.mLastEnvelope with
  | none => pure ()
  | some last =>
      if bp.mCurrentMessageLevel = 0 ∧ slot.mFullyValidated = true ∧
          bp.mLastEnvelopeEmit.map Shared.address ≠ some last.address then
        modifyBallotProtocol fun bp =>
          { bp with mLastEnvelopeEmit := some last }
        callDriver (.emitEnvelope last.value slot.mFullyValidated)
      else pure ()

/-- `mLastEnvelope = std::make_shared<SCPEnvelope>(envelope)`. -/
def makeLastEnvelope (envelope : SCPEnvelope) : BallotM Unit :=
  modify fun slot =>
    { slot with
      mBallotProtocol :=
        { slot.mBallotProtocol with
          mLastEnvelope := some ⟨slot.allocations, envelope⟩ }
      allocations := slot.allocations + 1 }

/-- The assertions of `checkInvariants` under `if (mCurrentBallot)`. -/
def checkCurrentBallot (bp : BallotProtocol) : BallotM Unit :=
  match bp.mCurrentBallot with
  | some current => dbgAssert .checkInvariants (current.counter ≠ 0)
  | none => pure ()

/-- Those under `if (mPrepared && mPreparedPrime)`. -/
def checkPrepared (bp : BallotProtocol) : BallotM Unit :=
  match bp.mPrepared, bp.mPreparedPrime with
  | some prepared, some preparedPrime =>
      dbgAssert .checkInvariants
        (areBallotsLessAndIncompatible preparedPrime prepared)
  | _, _ => pure ()

/-- Those under `if (mCommit)`. -/
def checkCommit (bp : BallotProtocol) : BallotM Unit :=
  match bp.mCommit with
  | none => pure ()
  | some commit => do
      dbgAssert .checkInvariants bp.mCurrentBallot.isSome
      let high ← dereference .checkInvariants bp.mHighBallot
      let current ← dereference .checkInvariants bp.mCurrentBallot
      dbgAssert .checkInvariants (areBallotsLessAndCompatible commit high)
      dbgAssert .checkInvariants (areBallotsLessAndCompatible high current)

/-- Those of the `switch (mPhase)`. -/
def checkPhase (bp : BallotProtocol) : BallotM Unit :=
  match bp.mPhase with
  | .prepare => pure ()
  | .confirm => dbgAssert .checkInvariants bp.mCommit.isSome
  | .externalize => do
      dbgAssert .checkInvariants bp.mCommit.isSome
      dbgAssert .checkInvariants bp.mHighBallot.isSome

def checkInvariants : BallotM Unit := do
  let bp ← getBallotProtocol
  checkCurrentBallot bp
  checkPrepared bp
  checkCommit bp
  checkPhase bp

/-- `createStatement` for the statement type of the phase. -/
def createStatement (config : SlotConfig) (phase : SCPPhase) :
    BallotM Pledges := do
  checkInvariants
  let bp ← getBallotProtocol
  match phase with
  | .prepare =>
      return .prepare
        { quorumSetHash := config.localNode.mQSetHash
          ballot := bp.mCurrentBallot.getD .zero
          prepared := bp.mPrepared
          preparedPrime := bp.mPreparedPrime
          nC := (bp.mCommit.map SCPBallot.counter).getD 0
          nH := (bp.mHighBallot.map SCPBallot.counter).getD 0 }
  | .confirm => do
      let commit ← dereference .createStatement bp.mCommit
      let high ← dereference .createStatement bp.mHighBallot
      dbgAssert .createStatement (areBallotsLessAndCompatible commit high)
      let current ← dereference .createStatement bp.mCurrentBallot
      let prepared ← dereference .createStatement bp.mPrepared
      return .confirm
        { ballot := current
          nPrepared := prepared.counter
          nCommit := commit.counter
          nH := high.counter
          quorumSetHash := config.localNode.mQSetHash }
  | .externalize => do
      let commit ← dereference .createStatement bp.mCommit
      let high ← dereference .createStatement bp.mHighBallot
      dbgAssert .createStatement (areBallotsLessAndCompatible commit high)
      return .externalize
        { commit := commit
          nH := high.counter
          commitQuorumSetHash := config.localNode.mQSetHash }

def startBallotProtocolTimer : BallotM Unit := do
  let bp ← getBallotProtocol
  let current ← dereference .startBallotProtocolTimer bp.mCurrentBallot
  callDriver (.setupTimer (computeTimeout current.counter))

def bumpToBallot (ballot : SCPBallot) (check : Bool) : BallotM Unit := do
  let bp ← getBallotProtocol
  dbgAssert .bumpToBallot (bp.mPhase ≠ .externalize)
  if check then
    dbgAssert .bumpToBallot (bp.mCurrentBallot.all
      (fun current => decide (compareBallots ballot current ≥ 0)))
  let gotBumped := bp.mCurrentBallot ≠ some ballot
  modifyBallotProtocol fun bp =>
    { bp with mCurrentBallot := some ballot, mHeardFromQuorum := false }
  if gotBumped then startBallotProtocolTimer

def updateCurrentIfNeeded : BallotM Unit := do
  let bp ← getBallotProtocol
  let high ← dereference .updateCurrentIfNeeded bp.mHighBallot
  if bp.mCurrentBallot.all
      (fun current => decide (compareBallots current high < 0)) then
    bumpToBallot high true

section Recursive

variable (config : SlotConfig) (advanceSlot : SCPStatement → BallotM Unit)

def isStatementSane (st : SCPStatement) (self : Bool) : BallotM Bool := do
  let qSet ← dereference .isStatementSane
    (config.getQuorumSetFromStatement st)
  if isQuorumSetSane qSet false then return arePledgesSane st.pledges self
  else return false

def processEnvelope (envelope : SCPEnvelope) (self : Bool) :
    BallotM EnvelopeState := do
  dbgAssert .processEnvelope
    (envelope.statement.slotIndex = config.mSlotIndex)
  let sane ← isStatementSane config envelope.statement self
  if !sane then return .invalid
  let bp ← getBallotProtocol
  if !isNewerForNode bp envelope.statement.nodeID envelope.statement then
    return .invalid
  let validationRes := validateValues config envelope.statement
  if validationRes = .kInvalidValue then return .invalid
  if bp.mPhase ≠ .externalize then
    if validationRes = .kMaybeValidValue then setFullyValidated false
    recordEnvelope envelope
    advanceSlot envelope.statement
    return .valid
  else
    let commit ← dereference .processEnvelope bp.mCommit
    if commit.value = (getWorkingBallot envelope.statement).value then
      recordEnvelope envelope
      return .valid
    else return .invalid

def emitCurrentStateStatement : BallotM Unit := do
  let phase := (← getBallotProtocol).mPhase
  let statement ← createStatement config phase
  let envelope := config.createEnvelope statement
  let bp ← getBallotProtocol
  let canEmit := bp.mCurrentBallot.isSome
  if bp.mLatestEnvelopes.lookup config.getLocalNodeID = some envelope then
    return ()
  let res ← processEnvelope config advanceSlot envelope true
  if res = .valid then
    let bp ← getBallotProtocol
    if canEmit && bp.mLastEnvelope.all (fun last =>
        isNewerStatement last.value.statement envelope.statement) then
      makeLastEnvelope envelope
      sendLatestEnvelope
  else throw .movedToBadState

def updateCurrentValue (ballot : SCPBallot) : BallotM Bool := do
  let bp ← getBallotProtocol
  if bp.mPhase ≠ .prepare ∧ bp.mPhase ≠ .confirm then return false
  match bp.mCurrentBallot with
  | none => do
      bumpToBallot ballot true
      checkInvariants
      return true
  | some current => do
      dbgAssert .updateCurrentValue (compareBallots current ballot ≤ 0)
      if bp.mCommit.any
          (fun commit => !areBallotsCompatible commit ballot) then
        return false
      let comp := compareBallots current ballot
      if comp < 0 then
        bumpToBallot ballot true
        checkInvariants
        return true
      else if comp > 0 then return false
      else
        checkInvariants
        return false

/-- `bumpState(Value const& value, uint32 n)`. -/
def bumpStateTo (value : Value) (n : Uint32) : BallotM Bool := do
  let bp ← getBallotProtocol
  if bp.mPhase ≠ .prepare ∧ bp.mPhase ≠ .confirm then return false
  let newb : SCPBallot :=
    { counter := n
      value := (bp.mHighBallot.map SCPBallot.value).getD value }
  let updated ← updateCurrentValue newb
  if updated then
    callDriver (.startedBallotProtocol newb)
    emitCurrentStateStatement config advanceSlot
  return updated

/-- `bumpState(Value const& value, bool force)`. -/
def bumpState (value : Value) (force : Bool) : BallotM Bool := do
  let bp ← getBallotProtocol
  if !force && bp.mCurrentBallot.isSome then return false
  let n := (bp.mCurrentBallot.map
    (fun current => current.counter + 1)).getD 1
  bumpStateTo config advanceSlot value n

def abandonBallot (n : Uint32) : BallotM Bool := do
  let slot ← get
  let v :=
    if slot.mLatestCompositeCandidate = [] then
      (slot.mBallotProtocol.mCurrentBallot.map SCPBallot.value).getD []
    else slot.mLatestCompositeCandidate
  if v = [] then return false
  if n = 0 then bumpState config advanceSlot v true
  else bumpStateTo config advanceSlot v n

def ballotProtocolTimerExpired : BallotM Unit := do
  let bp ← getBallotProtocol
  if bp.mHeardFromQuorum then
    let _ ← abandonBallot config advanceSlot 0
  else startBallotProtocolTimer

/-- The test in `setPreparedAccept` for an aborted commit vote. -/
def abortsCommit (bp : BallotProtocol) : Bool :=
  match bp.mCommit, bp.mHighBallot with
  | some _, some high =>
      bp.mPrepared.any (areBallotsLessAndIncompatible high) ||
        bp.mPreparedPrime.any (areBallotsLessAndIncompatible high)
  | _, _ => false

def setPreparedAccept (ballot : SCPBallot) : BallotM Bool := do
  let bp ← getBallotProtocol
  let (didWork, prepared) := setPrepared bp ballot
  modifyBallotProtocol fun _ => prepared
  let clears := abortsCommit prepared
  if clears then
    dbgAssert .setPreparedAccept (bp.mPhase = .prepare)
    modifyBallotProtocol fun bp => { bp with mCommit := none }
  if didWork || clears then
    callDriver (.acceptedBallotPrepared ballot)
    emitCurrentStateStatement config advanceSlot
  return didWork || clears

/-- The `continue`s of the loop of `attemptPreparedAccept`, with the
dereferences and the assertion in front of them. -/
def skipsPreparedAccept (bp : BallotProtocol) (ballot : SCPBallot) :
    BallotM Bool := do
  if bp.mPhase = .confirm then
    let prepared ← dereference .attemptPreparedAccept bp.mPrepared
    if !areBallotsLessAndCompatible prepared ballot then return true
    let commit ← dereference .attemptPreparedAccept bp.mCommit
    dbgAssert .attemptPreparedAccept (areBallotsCompatible commit ballot)
  return bp.mPreparedPrime.any
      (fun prime => decide (compareBallots ballot prime ≤ 0)) ||
    bp.mPrepared.any (areBallotsLessAndCompatible ballot)

def acceptsPrepared (bp : BallotProtocol) (ballot : SCPBallot) : Bool :=
  config.federatedAccept (votesPrepared ballot) (hasPreparedBallot ballot)
    bp.mLatestEnvelopes

def attemptPreparedAcceptFrom (bp : BallotProtocol) :
    List SCPBallot → BallotM Bool
  | [] => return false
  | ballot :: candidates => do
      let skips ← skipsPreparedAccept bp ballot
      if skips then attemptPreparedAcceptFrom bp candidates
      else if acceptsPrepared config bp ballot then
        setPreparedAccept config advanceSlot ballot
      else attemptPreparedAcceptFrom bp candidates

def attemptPreparedAccept (hint : SCPStatement) : BallotM Bool := do
  visit (.preparedAccept hint)
  let bp ← getBallotProtocol
  if bp.mPhase ≠ .prepare ∧ bp.mPhase ≠ .confirm then return false
  attemptPreparedAcceptFrom config advanceSlot bp
    (getPrepareCandidates bp hint).reverse

def ratifiesPrepared (bp : BallotProtocol) (ballot : SCPBallot) : Bool :=
  config.federatedRatify (hasPreparedBallot ballot) bp.mLatestEnvelopes

/-- The search for `newH`: the ballot found and the candidates from it on. -/
def findNewH (bp : BallotProtocol) :
    List SCPBallot → Option (SCPBallot × List SCPBallot)
  | [] => none
  | ballot :: candidates =>
      if bp.mHighBallot.any
          (fun high => decide (compareBallots high ballot ≥ 0)) then none
      else if ratifiesPrepared config bp ballot then
        some (ballot, ballot :: candidates)
      else findNewH bp candidates

/-- The search for `newC` above `b`, which continues where `newH` is. -/
def findNewC (bp : BallotProtocol) (b : SCPBallot) :
    SCPBallot → List SCPBallot → SCPBallot
  | newC, [] => newC
  | newC, ballot :: candidates =>
      if compareBallots ballot b < 0 then newC
      else if ratifiesPrepared config bp ballot then
        findNewC bp b ballot candidates
      else newC

/-- May a vote to commit `newH` be added? -/
def mayVoteCommit (bp : BallotProtocol) (newH : SCPBallot) : Bool :=
  bp.mCommit.isNone &&
    !bp.mPrepared.any (areBallotsLessAndIncompatible newH) &&
    !bp.mPreparedPrime.any (areBallotsLessAndIncompatible newH)

def setPreparedConfirmed (newC newH : SCPBallot) : BallotM Bool := do
  let bp ← getBallotProtocol
  let raises := bp.mHighBallot.all
    (fun high => decide (compareBallots newH high > 0))
  if raises then
    modifyBallotProtocol fun bp => { bp with mHighBallot := some newH }
  if newC.counter ≠ 0 then
    dbgAssert .setPreparedConfirmed bp.mCommit.isNone
    modifyBallotProtocol fun bp => { bp with mCommit := some newC }
  if raises || decide (newC.counter ≠ 0) then
    updateCurrentIfNeeded
    callDriver (.confirmedBallotPrepared newH)
    emitCurrentStateStatement config advanceSlot
  return raises || decide (newC.counter ≠ 0)

/-- The `newC` that goes with a `newH`; its counter is 0 if there is none. -/
def searchNewC (bp : BallotProtocol) (newH : SCPBallot)
    (candidates : List SCPBallot) : SCPBallot :=
  if mayVoteCommit bp newH then
    findNewC config bp (bp.mCurrentBallot.getD .zero) .zero candidates
  else .zero

def attemptPreparedConfirmed (hint : SCPStatement) : BallotM Bool := do
  visit (.preparedConfirmed hint)
  let bp ← getBallotProtocol
  if bp.mPhase ≠ .prepare then return false
  if bp.mPrepared.isNone then return false
  match findNewH config bp (getPrepareCandidates bp hint).reverse with
  | none => return false
  | some (newH, candidates) =>
      setPreparedConfirmed config advanceSlot
        (searchNewC config bp newH candidates) newH

/-- The ballot whose value a hint can help to commit. -/
def commitHint (hint : SCPStatement) : Option SCPBallot :=
  match hint.pledges with
  | .prepare prep =>
      if prep.nC ≠ 0 then some ⟨prep.nH, prep.ballot.value⟩ else none
  | .confirm con => some ⟨con.nH, con.ballot.value⟩
  | .externalize ext => some ⟨ext.nH, ext.commit.value⟩

def acceptsCommit (bp : BallotProtocol) (ballot : SCPBallot)
    (cur : Interval) : Bool :=
  config.federatedAccept (votesCommit ballot cur)
    (commitPredicate ballot cur) bp.mLatestEnvelopes

/-- The interval `attemptAcceptCommit` finds; its `first` is 0 if none. -/
def acceptedInterval (bp : BallotProtocol) (ballot : SCPBallot) : Interval :=
  findExtendedInterval (acceptsCommit config bp ballot) ⟨0, 0⟩
    (getCommitBoundariesFromStatements bp ballot).reverse

/-- The block of `setAcceptCommit` that leaves PREPARE. -/
def enterConfirm (h : SCPBallot) : BallotM Unit := do
  modifyBallotProtocol fun bp => { bp with mPhase := .confirm }
  let bp ← getBallotProtocol
  if bp.mCurrentBallot.any
      (fun current => !areBallotsLessAndCompatible h current) then
    bumpToBallot h false
  modifyBallotProtocol fun bp => { bp with mPreparedPrime := none }

def setAcceptCommit (c h : SCPBallot) : BallotM Bool := do
  let bp ← getBallotProtocol
  let changes := decide (bp.mHighBallot ≠ some h ∨ bp.mCommit ≠ some c)
  modifyBallotProtocol fun bp =>
    if changes then { bp with mCommit := some c, mHighBallot := some h }
    else bp
  let enters := decide (bp.mPhase = .prepare)
  if enters then enterConfirm h
  if changes || enters then
    updateCurrentIfNeeded
    callDriver (.acceptedCommit h)
    emitCurrentStateStatement config advanceSlot
  return changes || enters

def attemptAcceptCommit (hint : SCPStatement) : BallotM Bool := do
  visit (.acceptCommit hint)
  let bp ← getBallotProtocol
  if bp.mPhase ≠ .prepare ∧ bp.mPhase ≠ .confirm then return false
  match commitHint hint with
  | none => return false
  | some ballot => do
      if bp.mPhase = .confirm then
        let high ← dereference .attemptAcceptCommit bp.mHighBallot
        if !areBallotsCompatible ballot high then return false
      let candidate := acceptedInterval config bp ballot
      if candidate.first = 0 then return false
      if bp.mPhase = .confirm ∧ ¬ bp.mHighBallot.any
          (fun high => decide (candidate.second > high.counter)) then
        return false
      setAcceptCommit config advanceSlot ⟨candidate.first, ballot.value⟩
        ⟨candidate.second, ballot.value⟩

def setConfirmCommit (c h : SCPBallot) : BallotM Bool := do
  modifyBallotProtocol fun bp =>
    { bp with mCommit := some c, mHighBallot := some h }
  updateCurrentIfNeeded
  modifyBallotProtocol fun bp => { bp with mPhase := .externalize }
  emitCurrentStateStatement config advanceSlot
  let bp ← getBallotProtocol
  let commit ← dereference .setConfirmCommit bp.mCommit
  callDriver (.valueExternalized commit.value)
  return true

def ratifiesCommit (bp : BallotProtocol) (ballot : SCPBallot)
    (cur : Interval) : Bool :=
  config.federatedRatify (commitPredicate ballot cur) bp.mLatestEnvelopes

/-- The interval `attemptConfirmCommit` finds; its `first` is 0 if none. -/
def confirmedInterval (bp : BallotProtocol) (ballot : SCPBallot) :
    Interval :=
  findExtendedInterval (ratifiesCommit config bp ballot) ⟨0, 0⟩
    (getCommitBoundariesFromStatements bp ballot).reverse

def attemptConfirmCommit (hint : SCPStatement) : BallotM Bool := do
  visit (.confirmCommit hint)
  let bp ← getBallotProtocol
  if bp.mPhase ≠ .confirm then return false
  match bp.mHighBallot, bp.mCommit with
  | some _, some commit =>
      match hint.pledges, commitHint hint with
      | .prepare _, _ => return false
      | _, none => return false
      | _, some ballot =>
          if !areBallotsCompatible ballot commit then return false
          let candidate := confirmedInterval config bp ballot
          if candidate.first = 0 then return false
          setConfirmCommit config advanceSlot
            ⟨candidate.first, ballot.value⟩ ⟨candidate.second, ballot.value⟩
  | _, _ => return false

/-- The counter of the ballot a node works on; EXTERNALIZE is infinite. -/
def bumpCounter (st : SCPStatement) : Uint32 :=
  match st.pledges with
  | .prepare p => p.ballot.counter
  | .confirm c => c.ballot.counter
  | .externalize _ => uint32Max

/-- Is the node of the statement ahead of counter `n`? -/
def isAheadOf (n : Uint32) (st : SCPStatement) : Bool :=
  match st.pledges with
  | .prepare p => decide (n < p.ballot.counter)
  | .confirm c => decide (n < c.ballot.counter)
  | .externalize _ => decide (n ≠ uint32Max)

/-- The loop of `attemptBump` over the counters. -/
def findBumpCounter (bp : BallotProtocol) (targetCounter : Uint32) :
    List Uint32 → Option Uint32
  | [] => none
  | n :: counters =>
      if n < targetCounter then none
      else if isVBlocking config.localNode.mQSet bp.mLatestEnvelopes
          (isAheadOf n) then
        findBumpCounter bp targetCounter counters
      else if n = targetCounter then none
      else some n

def attemptBump : BallotM Bool := do
  visit .bump
  let bp ← getBallotProtocol
  if bp.mPhase ≠ .prepare ∧ bp.mPhase ≠ .confirm then return false
  let targetCounter := (bp.mCurrentBallot.map SCPBallot.counter).getD 0
  let allCounters := toSet (targetCounter ::
    bp.mLatestEnvelopes.entries.map
      (fun entry => bumpCounter entry.2.statement))
  match findBumpCounter config bp targetCounter allCounters with
  | none => return false
  | some n => abandonBallot config advanceSlot n

/-- The loop `do { didBump = attemptBump(); } while (didBump)`.  The current
counter grows in every turn, so a loop with a turn for each counter ends. -/
def bumpLoop : Nat → Bool → BallotM Bool
  | 0, _ => throw .bumpLoopExhausted
  | turns + 1, didWork => do
      let didBump ← attemptBump config advanceSlot
      if didBump then bumpLoop turns true else return didWork

def maxAdvanceSlotRecursion : Nat := 50

/-- Has every node of a quorum reached the counter of the current ballot? -/
def hearsFromQuorum (bp : BallotProtocol) (current : SCPBallot) : Bool :=
  isQuorum config.localNode.mQSet bp.mLatestEnvelopes
    config.getQuorumSetFromStatement
    (fun st => match st.pledges with
      | .prepare p => decide (current.counter ≤ p.ballot.counter)
      | _ => true)

/-- The block of `advanceSlot` under `if (!mHeardFromQuorum && ..)`. -/
def checkHeardFromQuorum : BallotM Unit := do
  let bp ← getBallotProtocol
  match bp.mHeardFromQuorum, bp.mCurrentBallot with
  | false, some current =>
      if hearsFromQuorum config bp current then
        modifyBallotProtocol fun bp => { bp with mHeardFromQuorum := true }
        callDriver (.ballotDidHearFromQuorum current)
  | _, _ => pure ()

/-- The four attempts of `advanceSlot`; the result is `didWork`. -/
def attemptSteps (hint : SCPStatement) : BallotM Bool := do
  let preparedAccept ← attemptPreparedAccept config advanceSlot hint
  let preparedConfirmed ← attemptPreparedConfirmed config advanceSlot hint
  let acceptCommit ← attemptAcceptCommit config advanceSlot hint
  let confirmCommit ← attemptConfirmCommit config advanceSlot hint
  return preparedAccept || preparedConfirmed || acceptCommit ||
    confirmCommit

/-- Only the outermost call of `advanceSlot` bumps. -/
def bumpAtFirstLevel (didWork : Bool) : BallotM Bool := do
  let bp ← getBallotProtocol
  if bp.mCurrentMessageLevel = 1 then
    bumpLoop config advanceSlot (2 ^ 32) didWork
  else return didWork

/-- The body of `advanceSlot`, with its recursive calls as a parameter. -/
def advanceSlotWith (hint : SCPStatement) : BallotM Unit := do
  modifyBallotProtocol fun bp =>
    { bp with mCurrentMessageLevel := bp.mCurrentMessageLevel + 1 }
  let bp ← getBallotProtocol
  if bp.mCurrentMessageLevel ≥ maxAdvanceSlotRecursion then
    throw .maximumNumberOfTransitions
  checkHeardFromQuorum config
  let didWork ← attemptSteps config advanceSlot hint
  let didWork ← bumpAtFirstLevel config advanceSlot didWork
  modifyBallotProtocol fun bp =>
    { bp with mCurrentMessageLevel := bp.mCurrentMessageLevel - 1 }
  if didWork then sendLatestEnvelope

end Recursive

/-- `advanceSlot` at a nesting level that leaves `levels` further levels.
The level test of the body throws before the last of them is used up. -/
def advanceSlotAt (config : SlotConfig) : Nat → SCPStatement → BallotM Unit
  | 0, _ => throw .maximumNumberOfTransitions
  | levels + 1, hint =>
      advanceSlotWith config (advanceSlotAt config levels) hint

def advanceSlot (config : SlotConfig) : SCPStatement → BallotM Unit :=
  advanceSlotAt config maxAdvanceSlotRecursion

def setStateFromEnvelope (e : SCPEnvelope) : BallotM Unit := do
  let bp ← getBallotProtocol
  if bp.mCurrentBallot.isSome then throw .cannotSetState
  recordEnvelope e
  makeLastEnvelope e
  modifyBallotProtocol fun bp =>
    { bp with mLastEnvelopeEmit := bp.mLastEnvelope }
  match e.statement.pledges with
  | .prepare prep => do
      let b := prep.ballot
      bumpToBallot b true
      modifyBallotProtocol fun bp =>
        { bp with
          mPrepared := prep.prepared.or bp.mPrepared
          mPreparedPrime := prep.preparedPrime.or bp.mPreparedPrime
          mHighBallot :=
            if prep.nH ≠ 0 then some ⟨prep.nH, b.value⟩ else bp.mHighBallot
          mCommit :=
            if prep.nC ≠ 0 then some ⟨prep.nC, b.value⟩ else bp.mCommit
          mPhase := .prepare }
  | .confirm c => do
      let v := c.ballot.value
      bumpToBallot c.ballot true
      modifyBallotProtocol fun bp =>
        { bp with
          mPrepared := some ⟨c.nPrepared, v⟩
          mHighBallot := some ⟨c.nH, v⟩
          mCommit := some ⟨c.nCommit, v⟩
          mPhase := .confirm }
  | .externalize ext => do
      let v := ext.commit.value
      bumpToBallot ⟨uint32Max, v⟩ true
      modifyBallotProtocol fun bp =>
        { bp with
          mPrepared := some ⟨uint32Max, v⟩
          mHighBallot := some ⟨ext.nH, v⟩
          mCommit := some ext.commit
          mPhase := .externalize }

end StellarCore.Scp
