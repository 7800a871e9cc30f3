import StellarCore.Lib.Program
import StellarCore.Scp.BallotStatement
import StellarCore.Scp.LocalNode

/-!
# The state of a slot

What a slot of `Slot.h` owns: the members of `BallotProtocol`, the recorded
statements, the validation flag and the latest composite candidate of the
nomination protocol.  The driver and the local node do not change while a
slot runs and form its `SlotConfig`.

Methods are programs over this state.  A failed `dbgAssert` aborts the
process (no build of the repository defines `NDEBUG`), a null dereference and
an uncaught exception end it as well, so each of them is a failure and keeps
the state reached so far.  The calls to the driver are collected in order.
-/

namespace StellarCore.Scp

inductive ValidationLevel where
  | kInvalidValue
  | kFullyValidatedValue
  | kMaybeValidValue
  deriving DecidableEq, Repr

/-- The queries of `SCPDriver` that the ballot protocol makes. -/
structure SCPDriver where
  getQSet : Hash → Option SCPQuorumSet
  validateValue : Uint64 → Value → ValidationLevel
  signEnvelope : SCPStatement → Signature
  verifyEnvelope : SCPEnvelope → Bool

structure LocalNode where
  mNodeID : NodeID
  mIsValidator : Bool
  mQSet : SCPQuorumSet
  mQSetHash : Hash

structure SlotConfig where
  driver : SCPDriver
  localNode : LocalNode
  mSlotIndex : Uint64

/-- A call of the driver that reports or requests something. -/
inductive DriverCall where
  | emitEnvelope (envelope : SCPEnvelope) (fullyValidated : Bool)
  | setupTimer (seconds : Nat)
  | valueExternalized (value : Value)
  | startedBallotProtocol (ballot : SCPBallot)
  | acceptedBallotPrepared (ballot : SCPBallot)
  | confirmedBallotPrepared (ballot : SCPBallot)
  | acceptedCommit (ballot : SCPBallot)
  | ballotDidHearFromQuorum (ballot : SCPBallot)
  deriving DecidableEq, Repr

inductive SCPPhase where
  | prepare
  | confirm
  | externalize
  deriving DecidableEq, Repr

/-- A `shared_ptr`: two of them are equal when their addresses are. -/
structure Shared (α : Type) where
  address : Nat
  value : α
  deriving DecidableEq, Repr

structure BallotProtocol where
  mHeardFromQuorum : Bool := true
  mPhase : SCPPhase := .prepare
  mCurrentBallot : Option SCPBallot := none
  mPrepared : Option SCPBallot := none
  mPreparedPrime : Option SCPBallot := none
  mHighBallot : Option SCPBallot := none
  mCommit : Option SCPBallot := none
  mLatestEnvelopes : EnvelopeMap := ∅
  mCurrentMessageLevel : Nat := 0
  mLastEnvelope : Option (Shared SCPEnvelope) := none
  mLastEnvelopeEmit : Option (Shared SCPEnvelope) := none

/-- The steps `advanceSlot` attempts, with the hint they are given, and the
wait for the next input. -/
inductive Attempt where
  | preparedAccept (hint : SCPStatement)
  | preparedConfirmed (hint : SCPStatement)
  | acceptCommit (hint : SCPStatement)
  | confirmCommit (hint : SCPStatement)
  | bump
  | idle

/-- An attempt and the state it was made in.  Runs keep the list of their
visits so that properties can speak about every intermediate state. -/
structure Visit where
  attempt : Attempt
  ballotProtocol : BallotProtocol

structure Slot where
  mBallotProtocol : BallotProtocol := {}
  mFullyValidated : Bool
  mStatementsHistory : List (SCPStatement × Bool) := []
  mLatestCompositeCandidate : Value := []
  allocations : Nat := 0
  driverCalls : List DriverCall := []
  visits : List Visit := []

/-- `Slot::Slot`. -/
def Slot.fresh (config : SlotConfig) : Slot :=
  { mFullyValidated := config.localNode.mIsValidator }

/-- The slot with one more visit. -/
def Slot.visiting (slot : Slot) (attempt : Attempt) : Slot :=
  { slot with
    visits := slot.visits ++ [⟨attempt, slot.mBallotProtocol⟩] }

/-- The function an assertion or a dereference stands in. -/
inductive Site where
  | processEnvelope
  | isStatementSane
  | updateCurrentValue
  | bumpToBallot
  | startBallotProtocolTimer
  | createStatement
  | checkInvariants
  | updateCurrentIfNeeded
  | attemptPreparedAccept
  | setPreparedAccept
  | setPreparedConfirmed
  | attemptAcceptCommit
  | setConfirmCommit
  deriving DecidableEq, Repr

inductive Failure where
  | dbgAbort (site : Site)
  | nullDereference (site : Site)
  | movedToBadState
  | maximumNumberOfTransitions
  | cannotSetState
  | bumpLoopExhausted
  deriving DecidableEq, Repr

abbrev BallotM := EStateM Failure Slot

def dbgAssert (site : Site) (expression : Bool) : BallotM Unit :=
  if expression then pure () else throw (.dbgAbort site)

def dereference {α : Type} (site : Site) : Option α → BallotM α
  | some value => pure value
  | none => throw (.nullDereference site)

def getBallotProtocol : BallotM BallotProtocol := do
  return (← get).mBallotProtocol

def modifyBallotProtocol (change : BallotProtocol → BallotProtocol) :
    BallotM Unit :=
  modify fun slot =>
    { slot with mBallotProtocol := change slot.mBallotProtocol }

def callDriver (call : DriverCall) : BallotM Unit :=
  modify fun slot => { slot with driverCalls := slot.driverCalls ++ [call] }

def visit (attempt : Attempt) : BallotM Unit :=
  modify fun slot => slot.visiting attempt

/-! ## Rules for the operations on a slot -/

section Rules

open StellarCore.Lib

variable {slot : Slot} {failed : Failure → Slot → Prop}

@[simp] theorem dbgAssert_ends {site : Site} {expression : Bool}
    {done : Unit → Slot → Prop} :
    Ends (dbgAssert site expression) slot done failed ↔
      (expression = true → done () slot) ∧
        (expression = false → failed (.dbgAbort site) slot) := by
  simp [dbgAssert]

@[simp] theorem dereference_ends {α : Type} {site : Site}
    {pointer : Option α} {done : α → Slot → Prop} :
    Ends (dereference site pointer) slot done failed ↔
      (∀ value, pointer = some value → done value slot) ∧
        (pointer = none → failed (.nullDereference site) slot) := by
  cases pointer with
  | none => simp [dereference]
  | some value => simp [dereference]

@[simp] theorem getBallotProtocol_ends
    {done : BallotProtocol → Slot → Prop} :
    Ends getBallotProtocol slot done failed ↔
      done slot.mBallotProtocol slot := by
  simp [getBallotProtocol]

@[simp] theorem modifyBallotProtocol_ends
    {change : BallotProtocol → BallotProtocol}
    {done : Unit → Slot → Prop} :
    Ends (modifyBallotProtocol change) slot done failed ↔
      done () { slot with
        mBallotProtocol := change slot.mBallotProtocol } := by
  simp [modifyBallotProtocol]

@[simp] theorem callDriver_ends {call : DriverCall}
    {done : Unit → Slot → Prop} :
    Ends (callDriver call) slot done failed ↔
      done () { slot with driverCalls := slot.driverCalls ++ [call] } := by
  simp [callDriver]

@[simp] theorem visit_ends {attempt : Attempt}
    {done : Unit → Slot → Prop} :
    Ends (visit attempt) slot done failed ↔
      done () (slot.visiting attempt) := by
  simp [visit]

/-- The beginning of every attempt. -/
theorem visiting_ends {α : Type} {attempt : Attempt}
    {next : BallotProtocol → BallotM α} {done : α → Slot → Prop} :
    Ends (do visit attempt; let bp ← getBallotProtocol; next bp) slot done
        failed ↔
      Ends (next slot.mBallotProtocol) (slot.visiting attempt) done
        failed := by
  simp only [Ends.bind_iff, visit_ends, getBallotProtocol_ends]
  exact Iff.rfl

end Rules

/-! ## Federated voting -/

namespace SlotConfig

variable (config : SlotConfig)

def getLocalNodeID : NodeID := config.localNode.mNodeID

def getQuorumSetFromStatement (st : SCPStatement) : Option SCPQuorumSet :=
  match st.pledges with
  | .externalize _ => some (buildSingletonQSet st.nodeID)
  | .prepare p => config.driver.getQSet p.quorumSetHash
  | .confirm c => config.driver.getQSet c.quorumSetHash

def federatedAccept (voted accepted : SCPStatement → Bool)
    (envs : EnvelopeMap) : Bool :=
  isVBlocking config.localNode.mQSet envs accepted ||
    isQuorum config.localNode.mQSet envs config.getQuorumSetFromStatement
      (fun st => accepted st || voted st)

def federatedRatify (voted : SCPStatement → Bool)
    (envs : EnvelopeMap) : Bool :=
  isQuorum config.localNode.mQSet envs config.getQuorumSetFromStatement
    voted

def createEnvelope (pledges : Pledges) : SCPEnvelope :=
  let statement : SCPStatement :=
    { nodeID := config.getLocalNodeID
      slotIndex := config.mSlotIndex
      pledges := pledges }
  { statement := statement
    signature := config.driver.signEnvelope statement }

@[simp] theorem createEnvelope_nodeID (pledges : Pledges) :
    (config.createEnvelope pledges).statement.nodeID =
      config.getLocalNodeID :=
  rfl

@[simp] theorem createEnvelope_pledges (pledges : Pledges) :
    (config.createEnvelope pledges).statement.pledges = pledges :=
  rfl

end SlotConfig

/-! ## What federated voting decides -/

section Federated

variable {config : SlotConfig} {envs : EnvelopeMap}

theorem isQuorum_of_imp {qSet : SCPQuorumSet}
    {qfun : SCPStatement → Option SCPQuorumSet}
    {few many : SCPStatement → Bool}
    (more : ∀ st, few st = true → many st = true)
    (quorum : isQuorum qSet envs qfun few = true) :
    isQuorum qSet envs qfun many = true := by
  obtain ⟨nodes, ⟨passes, slices⟩, slice⟩ := isQuorum_iff.mp quorum
  refine isQuorum_iff.mpr ⟨nodes, ⟨?_, slices⟩, slice⟩
  intro node member
  obtain ⟨envelope, found, passed⟩ := passes node member
  exact ⟨envelope, found, more _ passed⟩

/-- What is ratified is also acceptable. -/
theorem federatedAccept_of_federatedRatify
    {voted accepted : SCPStatement → Bool}
    (ratified : config.federatedRatify accepted envs = true) :
    config.federatedAccept voted accepted envs = true := by
  unfold SlotConfig.federatedAccept
  rw [Bool.or_eq_true]
  right
  exact isQuorum_of_imp (fun st holds => by simp [holds]) ratified

end Federated

end StellarCore.Scp
