import StellarCore.Scp.BallotProtocol

/-!
# Runs of a slot

A slot starts fresh and is then driven by its environment: envelopes arrive
from the network, the nomination protocol produces composite candidates, the
application bumps or abandons the ballot, and the ballot timer fires.  A
failure ends the process; what it did before stays visible.
-/

namespace StellarCore.Scp

inductive Input where
  | receiveEnvelope (envelope : SCPEnvelope)
  | bumpState (value : Value) (force : Bool)
  | abandonBallot
  | ballotProtocolTimerExpired
  | updatedCandidateValue (value : Value)

/-- `HerderImpl::recvSCPEnvelope` drops the node's own messages and
`SCP::receiveEnvelope` those with a bad signature; an envelope of another
index goes to another slot. -/
def receiveEnvelope (config : SlotConfig) (envelope : SCPEnvelope) :
    BallotM Unit := do
  if envelope.statement.nodeID = config.getLocalNodeID then return ()
  if !config.driver.verifyEnvelope envelope then return ()
  if envelope.statement.slotIndex ≠ config.mSlotIndex then return ()
  let _ ← processEnvelope config (advanceSlot config) envelope false

/-- New candidates of `NominationProtocol::processEnvelope`. -/
def updatedCandidateValue (config : SlotConfig) (value : Value) :
    BallotM Unit := do
  modify fun slot => { slot with mLatestCompositeCandidate := value }
  let _ ← bumpState config (advanceSlot config) value false

def perform (config : SlotConfig) : Input → BallotM Unit
  | .receiveEnvelope envelope => receiveEnvelope config envelope
  | .bumpState value force => do
      let _ ← bumpState config (advanceSlot config) value force
  | .abandonBallot => do
      let _ ← abandonBallot config (advanceSlot config) 0
  | .ballotProtocolTimerExpired =>
      ballotProtocolTimerExpired config (advanceSlot config)
  | .updatedCandidateValue value => updatedCandidateValue config value

/-- A process that works on the slot, and how it ended if it did. -/
structure Process where
  slot : Slot
  failure : Option Failure := none

def Process.start (config : SlotConfig) : Process :=
  { slot := (Slot.fresh config).visiting .idle }

/-- Run a program in the process, unless it has ended. -/
def Process.run (process : Process) (program : BallotM Unit) : Process :=
  match process.failure with
  | some _ => process
  | none =>
      match program process.slot with
      | .ok _ slot => { slot := slot.visiting .idle }
      | .error failure slot => { slot := slot, failure := some failure }

def Process.handle (config : SlotConfig) (process : Process)
    (input : Input) : Process :=
  process.run (perform config input)

/-- The process after a sequence of inputs. -/
def runInputs (config : SlotConfig) (inputs : List Input) : Process :=
  inputs.foldl (Process.handle config) (Process.start config)

/-- The states of the ballot protocol in a run, in order: those in which an
attempt was made or an input awaited. -/
def Process.states (process : Process) : List BallotProtocol :=
  process.slot.visits.map Visit.ballotProtocol

/-- The values given to `valueExternalized`, in order. -/
def Slot.externalizedValues (slot : Slot) : List Value :=
  slot.driverCalls.filterMap fun call =>
    match call with
    | .valueExternalized value => some value
    | _ => none

/-- The envelopes given to `emitEnvelope`, in order. -/
def Slot.emittedEnvelopes (slot : Slot) : List SCPEnvelope :=
  slot.driverCalls.filterMap fun call =>
    match call with
    | .emitEnvelope envelope _ => some envelope
    | _ => none

/-- The statements the node recorded for itself, in order. -/
def Slot.ownStatements (config : SlotConfig) (slot : Slot) :
    List SCPStatement :=
  (slot.mStatementsHistory.map Prod.fst).filter
    (fun st => st.nodeID = config.getLocalNodeID)

end StellarCore.Scp
