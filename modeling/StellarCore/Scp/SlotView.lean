import Mathlib.Logic.Relation
import StellarCore.Scp.Ballots

/-!
# The slot as a transition system

A `SlotView` is what the properties of a slot speak about: the ballots, the
recorded statements, what was handed to the driver, and the visits.  The
steps between views are the protocol's own: a node moves its ballots by one
`Transition` and publishes the new statement, or records a statement it
received, or hands something to the driver.  The programs are shown to take
only such steps, so an invariant needs to be checked once for every step.
-/

namespace StellarCore.Scp

structure SlotView where
  ballots : Ballots
  envelopes : EnvelopeMap
  history : List SCPStatement
  candidate : Value
  fullyValidated : Bool
  accepted : List SCPBallot
  externalized : List Value
  emitted : List (SCPEnvelope × Bool)
  last : Option (Shared SCPEnvelope)
  lastEmit : Option (Shared SCPEnvelope)
  allocations : Nat
  visits : List Visit

/-- The ballots given to `acceptedBallotPrepared`, in order. -/
def Slot.acceptedBallots (slot : Slot) : List SCPBallot :=
  slot.driverCalls.filterMap fun call =>
    match call with
    | .acceptedBallotPrepared ballot => some ballot
    | _ => none

/-- The envelopes given to `emitEnvelope`, each with the validation flag the
slot had at that moment. -/
def Slot.emissions (slot : Slot) : List (SCPEnvelope × Bool) :=
  slot.driverCalls.filterMap fun call =>
    match call with
    | .emitEnvelope envelope fullyValidated =>
        some (envelope, fullyValidated)
    | _ => none

theorem Slot.emittedEnvelopes_eq (slot : Slot) :
    slot.emittedEnvelopes = slot.emissions.map Prod.fst := by
  unfold Slot.emittedEnvelopes Slot.emissions
  rw [List.map_filterMap]
  congr 1
  funext call
  cases call with
  | emitEnvelope envelope fullyValidated => rfl
  | setupTimer seconds => rfl
  | valueExternalized value => rfl
  | startedBallotProtocol ballot => rfl
  | acceptedBallotPrepared ballot => rfl
  | confirmedBallotPrepared ballot => rfl
  | acceptedCommit ballot => rfl
  | ballotDidHearFromQuorum ballot => rfl

def Slot.view (slot : Slot) : SlotView :=
  { ballots := slot.mBallotProtocol.ballots
    envelopes := slot.mBallotProtocol.mLatestEnvelopes
    history := slot.mStatementsHistory.map Prod.fst
    candidate := slot.mLatestCompositeCandidate
    fullyValidated := slot.mFullyValidated
    accepted := slot.acceptedBallots
    externalized := slot.externalizedValues
    emitted := slot.emissions
    last := slot.mBallotProtocol.mLastEnvelope
    lastEmit := slot.mBallotProtocol.mLastEnvelopeEmit
    allocations := slot.allocations
    visits := slot.visits }

/-- What the environment of a slot may do: the values it offers for ballots
and the envelopes it delivers. -/
structure Environment where
  offers : Value → Prop
  sends : SCPEnvelope → Prop

/-- The same environment while the slot works on an input. -/
def Environment.silent (environment : Environment) : Environment :=
  { environment with sends := fun _ => False }

/-- Is the node a slice of its quorum set by itself? -/
def SlotConfig.selfSlice (config : SlotConfig) : Bool :=
  isQuorumSlice config.localNode.mQSet [config.getLocalNodeID] &&
    (config.driver.getQSet config.localNode.mQSetHash).any
      (fun qSet => isQuorumSlice qSet [config.getLocalNodeID])

namespace SlotView

/-- The attempt was visited in the present ballots and statements. -/
structure Visited (view : SlotView) (attempt : Attempt)
    (bp : BallotProtocol) : Prop where
  member : ⟨attempt, bp⟩ ∈ view.visits
  ballots : bp.ballots = view.ballots
  envelopes : bp.mLatestEnvelopes = view.envelopes

/-- A value that a bump may use: offered for ballots by the environment, or
there already. -/
def Available (environment : Environment) (view : SlotView)
    (value : Value) : Prop :=
  environment.offers value ∨ (value ≠ [] ∧ value = view.candidate) ∨
    ∃ b, view.ballots.current = some b ∧ value = b.value

/-- The hint is the statement recorded for the node itself. -/
def OwnLatest (config : SlotConfig) (view : SlotView)
    (hint : SCPStatement) : Prop :=
  ∃ envelope,
    view.envelopes.lookup config.getLocalNodeID = some envelope ∧
      envelope.statement = hint

end SlotView

/-- The changes of the ballots, with what the node has checked before it
makes them; the last index lists the ballots accepted as prepared. -/
inductive Transition (config : SlotConfig) (environment : Environment)
    (view : SlotView) : Ballots → List SCPBallot → Prop where
  | acceptPrepared (hint : SCPStatement) (bp : BallotProtocol)
      (ballot : SCPBallot)
      (visited : view.Visited (.preparedAccept hint) bp)
      (recorded : hint ∈ view.history)
      (running : view.ballots.phase ≠ .externalize)
      (candidate : ballot ∈ getPrepareCandidates bp hint)
      (raises : view.ballots.Raises ballot)
      (compatible : view.ballots.phase = .confirm →
        ∃ p c, view.ballots.prepared = some p ∧
          view.ballots.commit = some c ∧ p ≤ ballot ∧
          p.value = ballot.value ∧ c.value = ballot.value)
      (accepts : acceptsPrepared config bp ballot = true)
      (highest : view.ballots.phase = .prepare →
        ∀ other ∈ getPrepareCandidates bp hint, ballot < other →
          acceptsPrepared config bp other = true →
            ¬ view.ballots.Raises other) :
      Transition config environment view
        (view.ballots.acceptPrepared ballot) (view.accepted ++ [ballot])
  | confirmPrepared (hint : SCPStatement) (bp : BallotProtocol)
      (newH : SCPBallot) (candidates : List SCPBallot)
      (visited : view.Visited (.preparedConfirmed hint) bp)
      (recorded : hint ∈ view.history)
      (prepare : view.ballots.phase = .prepare)
      (found : findNewH config bp (getPrepareCandidates bp hint).reverse =
        some (newH, candidates))
      (bounded : ∃ p, view.ballots.prepared = some p ∧ newH ≤ p)
      (settled : config.selfSlice = true →
        hint.nodeID = config.getLocalNodeID → view.ballots.high = none →
        view.OwnLatest config hint) :
      Transition config environment view
        (view.ballots.confirmPrepared
          (searchNewC config bp newH candidates) newH) view.accepted
  | acceptCommit (hint : SCPStatement) (bp : BallotProtocol)
      (ballot : SCPBallot)
      (visited : view.Visited (.acceptCommit hint) bp)
      (recorded : hint ∈ view.history)
      (running : view.ballots.phase ≠ .externalize)
      (prepared : view.ballots.prepared ≠ none)
      (hinted : commitHint hint = some ballot)
      (found : (acceptedInterval config bp ballot).first ≠ 0)
      (compatible : view.ballots.phase = .confirm →
        ∃ high, view.ballots.high = some high ∧
          ballot.value = high.value ∧
          high.counter < (acceptedInterval config bp ballot).second) :
      Transition config environment view
        (view.ballots.acceptCommit
          ⟨(acceptedInterval config bp ballot).first, ballot.value⟩
          ⟨(acceptedInterval config bp ballot).second, ballot.value⟩)
        view.accepted
  | confirmCommit (hint : SCPStatement) (bp : BallotProtocol)
      (ballot commit : SCPBallot)
      (visited : view.Visited (.confirmCommit hint) bp)
      (recorded : hint ∈ view.history)
      (confirm : view.ballots.phase = .confirm)
      (committed : view.ballots.commit = some commit)
      (hinted : commitHint hint = some ballot)
      (compatible : ballot.value = commit.value)
      (found : (confirmedInterval config bp ballot).first ≠ 0) :
      Transition config environment view
        (view.ballots.confirmCommit
          ⟨(confirmedInterval config bp ballot).first, ballot.value⟩
          ⟨(confirmedInterval config bp ballot).second, ballot.value⟩)
        view.accepted
  | bump (value : Value) (newb : SCPBallot)
      (running : view.ballots.phase ≠ .externalize)
      (available : view.Available environment value)
      (override : newb.value =
        (view.ballots.high.map SCPBallot.value).getD value)
      (counter : newb.counter ≠ 0)
      (above : ∀ b, view.ballots.current = some b → b < newb)
      (compatible : ∀ b c, view.ballots.current = some b →
        view.ballots.commit = some c → c.value = newb.value) :
      Transition config environment view (view.ballots.bump newb)
        view.accepted

namespace SlotView

/-- What `processEnvelope` requires of a statement before it records it. -/
structure Admits (config : SlotConfig) (view : SlotView)
    (st : SCPStatement) (self : Bool) : Prop where
  known : ∃ qSet, config.getQuorumSetFromStatement st = some qSet ∧
    isQuorumSetSane qSet false = true
  sane : arePledgesSane st.pledges self = true
  newer : ∀ old, view.envelopes.lookup st.nodeID = some old →
    isNewerStatement old.statement st = true
  valid : validateValues config st ≠ .kInvalidValue

def record (view : SlotView) (envelope : SCPEnvelope) : SlotView :=
  { view with
    envelopes := view.envelopes.insert envelope.statement.nodeID envelope
    history := view.history ++ [envelope.statement] }

/-- The envelope is recorded and was built from ballots the node has had. -/
def Vouches (config : SlotConfig) (view : SlotView)
    (envelope : SCPEnvelope) : Prop :=
  envelope.statement ∈ view.history ∧
  ∃ (ballots : Ballots) (pledges : Pledges), ballots.Sound ∧
    ballots.current ≠ none ∧ ballots.pledges config = some pledges ∧
    envelope = config.createEnvelope pledges ∧ ballots.Later view.ballots

end SlotView

inductive Step (config : SlotConfig) (environment : Environment) :
    SlotView → SlotView → Prop where
  | visit {view : SlotView} (attempt : Attempt) (bp : BallotProtocol)
      (ballots : bp.ballots = view.ballots)
      (envelopes : bp.mLatestEnvelopes = view.envelopes) :
      Step config environment view
        { view with visits := view.visits ++ [⟨attempt, bp⟩] }
  | keep {view : SlotView} {next : Ballots} {accepted : List SCPBallot}
      {pledges : Pledges}
      (transition : Transition config environment view next accepted)
      (consistent : next.Consistent)
      (built : next.pledges config = some pledges)
      (same : view.envelopes.lookup config.getLocalNodeID =
        some (config.createEnvelope pledges)) :
      Step config environment view
        { view with ballots := next, accepted := accepted }
  | publish {view : SlotView} {next : Ballots} {accepted : List SCPBallot}
      {pledges : Pledges} (flag : Bool)
      (transition : Transition config environment view next accepted)
      (consistent : next.Consistent)
      (built : next.pledges config = some pledges)
      (admitted : view.Admits config
        (config.createEnvelope pledges).statement true) :
      Step config environment view
        (SlotView.record
          { view with
            ballots := next
            accepted := accepted
            fullyValidated := flag }
          (config.createEnvelope pledges))
  | receive {view : SlotView} {envelope : SCPEnvelope} (flag : Bool)
      (sent : environment.sends envelope)
      (foreign : envelope.statement.nodeID ≠ config.getLocalNodeID)
      (verified : config.driver.verifyEnvelope envelope = true)
      (indexed : envelope.statement.slotIndex = config.mSlotIndex)
      (admitted : view.Admits config envelope.statement false)
      (final : view.ballots.phase = .externalize →
        ∃ commit, view.ballots.commit = some commit ∧
          commit.value = (getWorkingBallot envelope.statement).value) :
      Step config environment view
        (SlotView.record { view with fullyValidated := flag } envelope)
  | makeLast {view : SlotView} (envelope : SCPEnvelope)
      (vouched : view.Vouches config envelope)
      (newer : ∀ last, view.last = some last →
        isNewerStatement last.value.statement envelope.statement = true) :
      Step config environment view
        { view with
          last := some ⟨view.allocations, envelope⟩
          allocations := view.allocations + 1 }
  | send {view : SlotView} (last : Shared SCPEnvelope)
      (set : view.last = some last)
      (fresh : view.lastEmit.map Shared.address ≠ some last.address)
      (validated : view.fullyValidated = true) :
      Step config environment view
        { view with
          lastEmit := some last
          emitted := view.emitted ++ [(last.value, true)] }
  | externalize {view : SlotView} (commit : SCPBallot)
      (ended : view.ballots.phase = .externalize)
      (committed : view.ballots.commit = some commit)
      (first : view.externalized = []) :
      Step config environment view
        { view with externalized := view.externalized ++ [commit.value] }
  | offer {view : SlotView} (value : Value)
      (offered : environment.offers value) :
      Step config environment view { view with candidate := value }

abbrev Path (config : SlotConfig) (environment : Environment) :
    SlotView → SlotView → Prop :=
  Relation.ReflTransGen (Step config environment)

end StellarCore.Scp
