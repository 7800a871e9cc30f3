import Mathlib.Data.Finset.Sort
import StellarCore.Scp.BallotRun

/-!
# The nomination protocol

`NominationProtocol.cpp` beside the ballot protocol of the same slot.  A
`std::set` is a `Finset`, iterated in its order.  `emitNomination` processes
the own statement inside the processing of another one; the depth of this
recursion is not bounded for an arbitrary driver, so it runs on fuel, and
running out of it is a failure of its own.
-/

namespace StellarCore.Scp

open StellarCore.Lib

structure SCPNomination where
  quorumSetHash : Hash
  votes : List Value
  accepted : List Value
  deriving DecidableEq, Repr

structure NominationStatement where
  nodeID : NodeID
  slotIndex : Uint64
  nominate : SCPNomination
  deriving DecidableEq, Repr

structure NominationEnvelope where
  statement : NominationStatement
  signature : Signature
  deriving DecidableEq, Repr

abbrev NominationMap := AList (fun _ : NodeID => NominationEnvelope)

/-- The queries of `SCPDriver` that the nomination protocol makes.  Their
answers may differ from one input to the next. -/
structure NominationDriver where
  validateValue : Uint64 → Value → ValidationLevel
  extractValidValue : Uint64 → Value → Value
  combineCandidates : Uint64 → Finset Value → Value
  computeHashNode : Uint64 → Value → Bool → Nat → NodeID → Uint64
  computeValueHash : Uint64 → Value → Nat → Value → Uint64
  computeTimeout : Nat → Nat
  signNomination : NominationStatement → Signature
  verifyNomination : NominationEnvelope → Bool

inductive NominationCall where
  | nominatingValue (value : Value)
  | setupTimer (timeout : Nat) (value previousValue : Value)
  | emitEnvelope (envelope : NominationEnvelope)
  | updatedCandidateValue (value : Value)
  deriving DecidableEq, Repr

structure NominationProtocol where
  mRoundNumber : Nat := 0
  mVotes : Finset Value := ∅
  mAccepted : Finset Value := ∅
  mCandidates : Finset Value := ∅
  mLatestNominations : NominationMap := ∅
  mLastEnvelope : Option NominationEnvelope := none
  mRoundLeaders : Finset NodeID := ∅
  mNominationStarted : Bool := false
  mPreviousValue : Value := []

/-- A statement the node built for itself, and the one it had recorded
before. -/
structure BuiltNomination where
  recorded : Option SCPNomination
  built : SCPNomination

/-- A slot with both protocols.  Its history has the nomination statements
apart from the ballot statements; `visits` and `built` are history
variables. -/
structure NominationSlot where
  ballot : Slot
  nomination : NominationProtocol := {}
  nominationHistory : List (NominationStatement × Bool) := []
  driverCalls : List NominationCall := []
  visits : List NominationProtocol := []
  built : List BuiltNomination := []

/-- The slot with one more visit. -/
def NominationSlot.visiting (slot : NominationSlot) : NominationSlot :=
  { slot with visits := slot.visits ++ [slot.nomination] }

/-- The slot with an envelope recorded as the latest one of its node. -/
def NominationSlot.recording (slot : NominationSlot)
    (envelope : NominationEnvelope) : NominationSlot :=
  { slot with
    nomination :=
      { slot.nomination with
        mLatestNominations := slot.nomination.mLatestNominations.insert
          envelope.statement.nodeID envelope }
    nominationHistory := slot.nominationHistory ++
      [(envelope.statement, slot.ballot.mFullyValidated)] }

inductive NominationFailure where
  | ballot (failure : Failure)
  | notValidator
  | emptyPreviousValue
  | movedToBadState
  | recursionExhausted
  deriving DecidableEq, Repr

abbrev NominationM := EStateM NominationFailure NominationSlot

/-! ## Statements -/

/-- `std::includes` on sorted ranges. -/
def includes : List Value → List Value → Bool
  | _, [] => true
  | [], _ :: _ => false
  | v :: vs, p :: ps =>
      if p < v then false
      else if v < p then includes vs (p :: ps)
      else includes vs ps

/-- `isSubsetHelper`: whether `p` is a subset of `v`, and whether they
differ. -/
def isSubsetHelper (p v : List Value) : Bool × Bool :=
  if p.length ≤ v.length then
    if includes v p then (true, p.length ≠ v.length) else (false, true)
  else
    (false, true)

namespace SCPNomination

def isNewerStatement (oldst st : SCPNomination) : Bool :=
  let (votesKept, votesGrow) := isSubsetHelper oldst.votes st.votes
  if votesKept then
    let (acceptedKept, acceptedGrow) :=
      isSubsetHelper oldst.accepted st.accepted
    acceptedKept && (votesGrow || acceptedGrow)
  else
    false

def isSane (nom : SCPNomination) : Bool :=
  nom.votes.length + nom.accepted.length ≠ 0 &&
    nom.votes.IsChain (· < ·) && nom.accepted.IsChain (· < ·)

end SCPNomination

/-! ## Federated voting on nominations -/

def nominationQuorumSet (config : SlotConfig) (map : NominationMap)
    (nodeID : NodeID) : Option SCPQuorumSet :=
  (map.lookup nodeID).bind
    (fun envelope =>
      config.driver.getQSet envelope.statement.nominate.quorumSetHash)

/-- `LocalNode::isQuorum` for the nodes that pass its filter. -/
def isQuorumAmong (qSet : SCPQuorumSet)
    (qSetOf : NodeID → Option SCPQuorumSet) (pNodes : List NodeID) : Bool :=
  isQuorumSlice qSet
    (stabilize
      (fun left nodeID => (qSetOf nodeID).any (fun q => isQuorumSlice q left))
      pNodes.length pNodes)

def nominationNodes (map : NominationMap) (filter : SCPNomination → Bool) :
    List NodeID :=
  (map.entries.filter (fun entry => filter entry.2.statement.nominate)).map
    Sigma.fst

def federatedAcceptNomination (config : SlotConfig)
    (voted accepted : SCPNomination → Bool) (map : NominationMap) : Bool :=
  isVBlockingInternal (nominationNodes map accepted) config.localNode.mQSet ||
    isQuorumAmong config.localNode.mQSet (nominationQuorumSet config map)
      (nominationNodes map (fun nom => accepted nom || voted nom))

def federatedRatifyNomination (config : SlotConfig)
    (voted : SCPNomination → Bool) (map : NominationMap) : Bool :=
  isQuorumAmong config.localNode.mQSet (nominationQuorumSet config map)
    (nominationNodes map voted)

/-! ## Leaders and new votes -/

mutual

/-- The quotients of `bigDivide` are truncated to 64 bits. -/
def getNodeWeight (nodeID : NodeID) : SCPQuorumSet → Nat
  | ⟨threshold, validators, innerSets⟩ =>
      let d := innerSets.length + validators.length
      if nodeID ∈ validators then
        (2 ^ 64 - 1) * threshold.val / d % 2 ^ 64
      else
        innerWeight nodeID threshold.val d innerSets

/-- The first inner set that gives the node a weight decides. -/
def innerWeight (nodeID : NodeID) (n d : Nat) : List SCPQuorumSet → Nat
  | [] => 0
  | inner :: innerSets =>
      let leafW := getNodeWeight nodeID inner
      if leafW ≠ 0 then leafW * n / d % 2 ^ 64
      else innerWeight nodeID n d innerSets

end

section Protocol

variable (config : SlotConfig) (driver : NominationDriver)

namespace NominationProtocol

variable (np : NominationProtocol)

/-- `isNewerStatement(NodeID const& nodeID, SCPNomination const& st)`. -/
def isNewerFor (nodeID : NodeID) (st : SCPNomination) : Bool :=
  match np.mLatestNominations.lookup nodeID with
  | none => true
  | some old => old.statement.nominate.isNewerStatement st

/-- Without a result the assertion on `mPreviousValue` has failed. -/
def hashNode (isPriority : Bool) (nodeID : NodeID) : Option Uint64 :=
  if np.mPreviousValue = [] then none
  else
    some (driver.computeHashNode config.mSlotIndex np.mPreviousValue
      isPriority np.mRoundNumber nodeID)

def hashValue (value : Value) : Option Uint64 :=
  if np.mPreviousValue = [] then none
  else
    some (driver.computeValueHash config.mSlotIndex np.mPreviousValue
      np.mRoundNumber value)

def getNodePriority (nodeID : NodeID) (qSet : SCPQuorumSet) :
    Option Uint64 := do
  let hash ← np.hashNode config driver false nodeID
  if hash.val < getNodeWeight nodeID qSet then
    np.hashNode config driver true nodeID
  else
    return 0

/-- One node of `updateRoundLeaders`: the top priority so far and its
leaders. -/
def considerLeader (found : Uint64 × Finset NodeID) (cur : NodeID) :
    Option (Uint64 × Finset NodeID) := do
  let w ← np.getNodePriority config driver cur config.localNode.mQSet
  let (topPriority, leaders) := if w > found.1 then (w, ∅) else found
  if w = topPriority ∧ w > 0 then
    return (topPriority, insert cur leaders)
  else
    return (topPriority, leaders)

def roundLeaders : Option (Finset NodeID) := do
  let nodes := config.localNode.mQSet.allNodes.eraseDups
  let (_, leaders) ←
    nodes.foldlM (np.considerLeader config driver) (0, ∅)
  return leaders

/-- The value to vote for in place of one a leader nominates. -/
def valueToNominate (value : Value) : Value :=
  if driver.validateValue config.mSlotIndex value = .kFullyValidatedValue
  then value
  else driver.extractValidValue config.mSlotIndex value

/-- One value of `getNewValueFromNomination`: the best vote so far with its
hash. -/
def considerVote (found : Value × Uint64) (value : Value) :
    Option (Value × Uint64) :=
  let candidate := valueToNominate config driver value
  if candidate = [] ∨ candidate ∈ np.mVotes then
    some found
  else do
    let curHash ← np.hashValue config driver candidate
    if curHash ≥ found.2 then
      return (candidate, curHash)
    else
      return found

def getNewValueFromNomination (nom : SCPNomination) :
    Option Value := do
  let (newVote, _) ← (nom.votes ++ nom.accepted).foldlM
    (np.considerVote config driver) ([], 0)
  return newVote

/-! ## Promotion of values -/

/-- A vote of a statement is accepted, or a valid variation of it is voted
for.  The flag says whether the own statement changes. -/
def acceptVote (state : NominationProtocol × Bool) (v : Value) :
    NominationProtocol × Bool :=
  let (np, modified) := state
  if v ∈ np.mAccepted then
    (np, modified)
  else if federatedAcceptNomination config
      (fun nom => decide (v ∈ nom.votes))
      (fun nom => decide (v ∈ nom.accepted)) np.mLatestNominations then
    if driver.validateValue config.mSlotIndex v = .kFullyValidatedValue then
      ({ np with
          mAccepted := insert v np.mAccepted
          mVotes := insert v np.mVotes },
        true)
    else
      let toVote := driver.extractValidValue config.mSlotIndex v
      if toVote = [] ∨ toVote ∈ np.mVotes then
        (np, modified)
      else
        ({ np with mVotes := insert toVote np.mVotes }, true)
  else
    (np, modified)

def acceptVotes (votes : List Value) : NominationProtocol × Bool :=
  votes.foldl (acceptVote config driver) (np, false)

/-- The accepted values that become candidates. -/
def ratifiedValues : Finset Value :=
  np.mAccepted.filter (fun a => a ∉ np.mCandidates ∧
    federatedRatifyNomination config (fun nom => decide (a ∈ nom.accepted))
      np.mLatestNominations)

end NominationProtocol

def getNomination : NominationM NominationProtocol := do
  return (← get).nomination

def modifyNomination (change : NominationProtocol → NominationProtocol) :
    NominationM Unit :=
  modify (fun slot => { slot with nomination := change slot.nomination })

def callNominationDriver (call : NominationCall) : NominationM Unit :=
  modify (fun slot => { slot with driverCalls := slot.driverCalls ++ [call] })

def visitNomination : NominationM Unit :=
  modify NominationSlot.visiting

/-- A query that may fail an assertion. -/
def queryNomination {α : Type} (result : Option α) : NominationM α :=
  match result with
  | some value => pure value
  | none => throw .emptyPreviousValue

def whenTrue (condition : Bool) (program : NominationM Unit) :
    NominationM Unit :=
  if condition then program else pure ()

/-- An operation of the ballot protocol.  Entering the EXTERNALIZE phase
stops the nomination. -/
def runBallot {α : Type} (program : BallotM α) : NominationM Unit :=
  fun slot =>
    match program slot.ballot with
    | .ok _ ballot =>
        let externalized :=
          decide (slot.ballot.mBallotProtocol.mPhase ≠ .externalize) &&
            decide (ballot.mBallotProtocol.mPhase = .externalize)
        .ok ()
          { slot with
            ballot
            nomination :=
              { slot.nomination with
                mNominationStarted :=
                  slot.nomination.mNominationStarted && !externalized } }
    | .error failure ballot =>
        .error (.ballot failure) { slot with ballot }

def recordNomination (envelope : NominationEnvelope) : NominationM Unit :=
  modify (fun slot => slot.recording envelope)

/-- What the node has recorded as its own statement. -/
def NominationProtocol.recorded (np : NominationProtocol) :
    Option SCPNomination :=
  (np.mLatestNominations.lookup config.getLocalNodeID).map
    (fun envelope => envelope.statement.nominate)

def NominationProtocol.ownNomination (np : NominationProtocol) :
    SCPNomination :=
  { quorumSetHash := config.localNode.mQSetHash
    votes := np.mVotes.sort (· ≤ ·)
    accepted := np.mAccepted.sort (· ≤ ·) }

def createNomination (nom : SCPNomination) : NominationEnvelope :=
  let statement : NominationStatement :=
    { nodeID := config.getLocalNodeID
      slotIndex := config.mSlotIndex
      nominate := nom }
  { statement, signature := driver.signNomination statement }

/-- The last envelope of the node is kept and sent if it is newer. -/
def publishNomination (envelope : NominationEnvelope) : NominationM Unit := do
  let slot ← get
  let newer := slot.nomination.mLastEnvelope.all
    (fun last => last.statement.nominate.isNewerStatement
      envelope.statement.nominate)
  whenTrue newer do
    modifyNomination (fun np => { np with mLastEnvelope := some envelope })
    whenTrue slot.ballot.mFullyValidated
      (callNominationDriver (.emitEnvelope envelope))

/-- The slot with the statement it builds noted. -/
def NominationSlot.noting (slot : NominationSlot) : NominationSlot :=
  { slot with
    built := slot.built ++
      [{ recorded := slot.nomination.recorded config
         built := slot.nomination.ownNomination config }] }

/-- `process` is `Slot::processEnvelope` on the own envelope. -/
def emitNomination (process : NominationEnvelope → NominationM Bool) :
    NominationM Unit := do
  visitNomination
  modify (NominationSlot.noting config)
  let np ← getNomination
  let envelope :=
    createNomination config driver (np.ownNomination config)
  let valid ← process envelope
  if valid then
    publishNomination envelope
  else
    throw .movedToBadState

/-- The vote taken over from a round leader while there is no candidate. -/
def takeLeaderVote (st : NominationStatement) : NominationM Bool := do
  let np ← getNomination
  if np.mCandidates = ∅ ∧ st.nodeID ∈ np.mRoundLeaders then
    let newVote ← queryNomination
      (np.getNewValueFromNomination config driver st.nominate)
    if newVote = [] then
      return false
    else
      modifyNomination (fun np => { np with mVotes := insert newVote np.mVotes })
      callNominationDriver (.nominatingValue newVote)
      return true
  else
    return false

def offerCandidates : NominationM Unit := do
  let np ← getNomination
  let composite := driver.combineCandidates config.mSlotIndex np.mCandidates
  callNominationDriver (.updatedCandidateValue composite)
  runBallot (updatedCandidateValue config composite)

/-- What a recorded statement changes once the nomination has started. -/
def promoteValues (emit : NominationM Unit) (st : NominationStatement) :
    NominationM Unit := do
  let np ← getNomination
  let (accepting, modified) :=
    np.acceptVotes config driver st.nominate.votes
  let ratified := accepting.ratifiedValues config
  modifyNomination (fun _ =>
    { accepting with mCandidates := accepting.mCandidates ∪ ratified })
  let voted ← takeLeaderVote config driver st
  whenTrue (modified || voted) emit
  whenTrue (decide (ratified ≠ ∅)) (offerCandidates config driver)

def processNomination (emit : NominationM Unit)
    (envelope : NominationEnvelope) : NominationM Bool := do
  visitNomination
  let np ← getNomination
  let st := envelope.statement
  if np.isNewerFor st.nodeID st.nominate && st.nominate.isSane then
    recordNomination envelope
    whenTrue np.mNominationStarted (promoteValues config driver emit st)
    return true
  else
    return false

def processNominationAt : Nat → NominationEnvelope → NominationM Bool
  | 0, _ => throw .recursionExhausted
  | fuel + 1, envelope =>
      processNomination config driver
        (emitNomination config driver (processNominationAt fuel)) envelope

/-- One leader of `nominate`: the value taken from its statement. -/
def takeFromLeader (state : NominationProtocol × Value × Bool)
    (leader : NodeID) :
    Option (NominationProtocol × Value × Bool) :=
  let (np, nominating, updated) := state
  match np.mLatestNominations.lookup leader with
  | none => some (np, nominating, updated)
  | some envelope => do
      let value ← np.getNewValueFromNomination config driver
        envelope.statement.nominate
      if value = [] then
        return (np, value, updated)
      else
        return ({ np with mVotes := insert value np.mVotes }, value, true)

/-- The votes of a new round: the state, the value nominated and whether the
votes changed. -/
def newRoundVotes (np : NominationProtocol) (value : Value) :
    Option (NominationProtocol × Value × Bool) :=
  if config.getLocalNodeID ∈ np.mRoundLeaders then
    some ({ np with mVotes := insert value np.mVotes }, value,
      decide (value ∉ np.mVotes))
  else
    (np.mRoundLeaders.sort (· ≤ ·)).foldlM (takeFromLeader config driver)
      (np, [], false)

def nominate (emit : NominationM Unit) (value previousValue : Value)
    (timedout : Bool) : NominationM Bool := do
  let np ← getNomination
  if timedout && !np.mNominationStarted then
    return false
  else
    modifyNomination (fun np =>
      { np with
        mNominationStarted := true
        mPreviousValue := previousValue
        mRoundNumber := np.mRoundNumber + 1
        mRoundLeaders := ∅ })
    let np ← getNomination
    let leaders ← queryNomination (np.roundLeaders config driver)
    modifyNomination (fun np => { np with mRoundLeaders := leaders })
    let np ← getNomination
    let (voting, nominatingValue, updated) ←
      queryNomination (newRoundVotes config driver np value)
    modifyNomination (fun _ => voting)
    callNominationDriver (.nominatingValue nominatingValue)
    callNominationDriver
      (.setupTimer (driver.computeTimeout np.mRoundNumber) value
        previousValue)
    whenTrue updated emit
    return updated

end Protocol

end StellarCore.Scp
