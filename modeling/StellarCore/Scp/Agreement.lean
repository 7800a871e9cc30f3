import StellarCore.Lib.Federation
import StellarCore.Scp.Commitments

/-!
# Agreement

The well-behaved nodes of a network run one slot each, in any interleaving of
deliveries and local inputs.  Envelopes may be lost, repeated and reordered,
and the other nodes may send whatever they like, except in the name of a
well-behaved node.

A node that has accepted a value as committed never accepts another one, and
a node externalizes a value after a quorum of nodes that have accepted it.  A
member of that quorum that is in EXTERNALIZE itself counts with a slice of
its own; the quorum it has externalized with stands in for the slices of its
quorum set.  So a network whose quorums intersect externalizes one value.
-/

namespace StellarCore.Scp

open StellarCore.Lib

/-- The well-behaved nodes of a network, with what each of them runs the slot
with.  A quorum set is looked up by its hash, so whoever finds one for the
hash of a well-behaved node finds the quorum set of that node. -/
structure Network where
  wellBehaved : Finset NodeID
  config : NodeID → SlotConfig
  mSlotIndex : Uint64
  named : ∀ node ∈ wellBehaved, (config node).getLocalNodeID = node
  indexed : ∀ node ∈ wellBehaved, (config node).mSlotIndex = mSlotIndex
  hashed : ∀ node ∈ wellBehaved, ∀ other ∈ wellBehaved, ∀ qSet,
    (config node).driver.getQSet (config other).localNode.mQSetHash =
      some qSet → qSet = (config other).localNode.mQSet

/-- A well-behaved node handles an input. -/
structure Event where
  node : NodeID
  input : Input

/-- The inputs of a node in a sequence of events. -/
def inputsOf (events : List Event) (node : NodeID) : List Input :=
  (events.filter (fun event => event.node = node)).map Event.input

namespace Network

variable (network : Network)

/-- The process of a well-behaved node after the events. -/
def process (events : List Event) (node : NodeID) : Process :=
  runInputs (network.config node) (inputsOf events node)

/-- Nobody signs for a well-behaved node: an envelope of the slot that
verifies as its envelope was emitted by it. -/
def Authentic (events : List Event) (event : Event) : Prop :=
  match event.input with
  | .receiveEnvelope envelope =>
      envelope.statement.nodeID ∈ network.wellBehaved →
      envelope.statement.slotIndex = network.mSlotIndex →
      (network.config event.node).driver.verifyEnvelope envelope = true →
      envelope ∈ (network.process events
        envelope.statement.nodeID).slot.emittedEnvelopes
  | _ => True

inductive Run : List Event → Prop where
  | start : Run []
  | handle {events : List Event} (event : Event) (run : Run events)
      (behaved : event.node ∈ network.wellBehaved)
      (authentic : network.Authentic events event) :
      Run (events ++ [event])

/-- The network as a federation: the slices of a node are the node lists that
satisfy its quorum set. -/
def federation : Federation NodeID :=
  { wellBehaved := { node | node ∈ network.wellBehaved }
    slices := fun node =>
      { slice | ∃ nodes : List NodeID, slice = { member | member ∈ nodes } ∧
          isQuorumSlice (network.config node).localNode.mQSet nodes =
            true } }

/-- The statements a well-behaved node has recorded for itself. -/
def own (events : List Event) (node : NodeID) : List SCPStatement :=
  (network.process events node).slot.view.own (network.config node)

/-- The node has accepted the value as committed. -/
def Accepts (events : List Event) (node : NodeID) (value : Value) : Prop :=
  ∃ st ∈ network.own events node, st.Commits value

theorem commitments (events : List Event) (node : NodeID) :
    (network.process events node).Commitments (network.config node)
      (inputsOf events node) :=
  runInputs_commitments _ _

end Network

section Agreement

variable {network : Network} {events : List Event} {event : Event}
  {node : NodeID} {value : Value}

theorem inputsOf_other (other : event.node ≠ node) :
    inputsOf (events ++ [event]) node = inputsOf events node := by
  simp [inputsOf, other]

theorem inputsOf_self :
    inputsOf (events ++ [event]) event.node =
      inputsOf events event.node ++ [event.input] := by
  simp [inputsOf]

theorem Network.process_other (other : event.node ≠ node) :
    network.process (events ++ [event]) node =
      network.process events node := by
  unfold Network.process
  rw [inputsOf_other other]

/-- The statements of a node stay whatever happens next. -/
theorem Network.own_subset (network : Network) (events : List Event)
    (event : Event) (node : NodeID) :
    network.own events node ⊆ network.own (events ++ [event]) node := by
  intro st member
  unfold Network.own Network.process at member ⊢
  by_cases here : event.node = node
  · subst here
    rw [inputsOf_self]
    rw [SlotView.mem_own] at member ⊢
    exact ⟨runInputs_history_subset _ _ _ member.1, member.2⟩
  · rw [inputsOf_other here]
    exact member

theorem Network.Accepts.append (accepts : network.Accepts events node value) :
    network.Accepts (events ++ [event]) node value := by
  obtain ⟨st, member, commits⟩ := accepts
  exact ⟨st, network.own_subset events event node member, commits⟩

/-- What a well-behaved node has received in the name of another one, that
node has said. -/
theorem Network.Run.delivered (run : network.Run events)
    {envelope : SCPEnvelope}
    (received : .receiveEnvelope envelope ∈ inputsOf events node)
    (sender : envelope.statement.nodeID ∈ network.wellBehaved)
    (index : envelope.statement.slotIndex = network.mSlotIndex)
    (verified : (network.config node).driver.verifyEnvelope envelope =
      true) :
    envelope.statement ∈
      network.own events envelope.statement.nodeID := by
  induction run with
  | start => exact absurd received List.not_mem_nil
  | @handle events event run behaved authentic ih =>
      have earlier : .receiveEnvelope envelope ∈ inputsOf events node →
          envelope.statement ∈ network.own (events ++ [event])
            envelope.statement.nodeID :=
        fun before => network.own_subset events event _ (ih before)
      by_cases here : event.node = node
      · subst here
        rw [inputsOf_self] at received
        rcases List.mem_append.mp received with before | now
        · exact earlier before
        · have input := List.mem_singleton.mp now
          unfold Network.Authentic at authentic
          rw [← input] at authentic
          exact network.own_subset events event _
            ((network.commitments events _).emitted envelope
              (authentic sender index verified))
      · rw [inputsOf_other here] at received
        exact earlier received

/-- What a well-behaved node has recorded for another one or itself, that
node has said. -/
theorem Network.Run.recorded (run : network.Run events)
    (behaved : node ∈ network.wellBehaved) {st : SCPStatement}
    (recorded : st ∈ (network.process events node).slot.view.history)
    (sender : st.nodeID ∈ network.wellBehaved) :
    st ∈ network.own events st.nodeID := by
  by_cases self : st.nodeID = node
  · rw [self]
    refine SlotView.mem_own.mpr ⟨recorded, ?_⟩
    rw [self, network.named node behaved]
  · have foreign : st.nodeID ≠ (network.config node).getLocalNodeID := by
      rw [network.named node behaved]
      exact self
    obtain ⟨envelope, received, verified, index, same⟩ :=
      (network.commitments events node).received st recorded foreign
    rw [network.indexed node behaved] at index
    rw [← same] at sender ⊢
    exact run.delivered received sender index verified

/-- A statement in CONFIRM is judged by the quorum set of its node. -/
theorem Network.quorumSet_of_confirm {other : NodeID} {st : SCPStatement}
    {con : Confirm} {qSet : SCPQuorumSet}
    (behaved : node ∈ network.wellBehaved)
    (otherBehaved : other ∈ network.wellBehaved)
    (member : st ∈ network.own events other)
    (pledged : st.pledges = .confirm con)
    (known : (network.config node).getQuorumSetFromStatement st =
      some qSet) :
    qSet = (network.config other).localNode.mQSet := by
  have hash := (network.commitments events other).hashed st member con
    pledged
  simp only [SlotConfig.getQuorumSetFromStatement, pledged, hash] at known
  exact network.hashed node behaved other otherBehaved qSet known

/-- A node joins the backed nodes with a ratified value, when the other nodes
in EXTERNALIZE belong to them. -/
theorem Network.Run.backed_of_ratified (run : network.Run events)
    (behaved : node ∈ network.wellBehaved)
    (accepts : network.Accepts events node value)
    (ratified : Ratified (network.config node)
      (network.process events node).slot.view.history value)
    (others : ∀ other ∈ network.wellBehaved, other ≠ node →
      ∀ st ∈ network.own events other, ∀ ext,
        st.pledges = .externalize ext → ext.commit.value = value →
          other ∈ network.federation.Backed
            (network.Accepts events · value)) :
    node ∈ network.federation.Backed (network.Accepts events · value) := by
  obtain ⟨nodes, slice, all⟩ := ratified
  have sliceOf : ∀ {member qSet},
      isQuorumSlice qSet nodes = true →
      qSet = (network.config member).localNode.mQSet →
      ∃ slice ∈ network.federation.slices member,
        slice ⊆ { other | other = node ∨ other ∈ nodes } ∪
          network.federation.Backed (network.Accepts events · value) := by
    intro member qSet inside same
    rw [same] at inside
    exact ⟨_, ⟨nodes, rfl, inside⟩, fun _ found => .inl (.inr found)⟩
  suffices closed : { other | other = node ∨ other ∈ nodes } ⊆
      network.federation.Backed (network.Accepts events · value) from
    closed (.inl rfl)
  apply Federation.subset_backed
  intro member inside memberBehaved
  by_cases self : member = node
  · rw [self]
    exact ⟨accepts, sliceOf slice rfl⟩
  · obtain ⟨st, recorded, sender, commits, qSet, known, supports⟩ :=
      all member (inside.resolve_left self)
    rw [← sender] at memberBehaved
    have own := run.recorded behaved recorded memberBehaved
    rw [sender] at memberBehaved own
    refine ⟨⟨st, own, commits⟩, ?_⟩
    cases pledged : st.pledges with
    | prepare prep => simp [SCPStatement.Commits, pledged] at commits
    | confirm con =>
        exact sliceOf supports (network.quorumSet_of_confirm behaved
          memberBehaved own pledged known)
    | externalize ext =>
        simp only [SCPStatement.Commits, pledged] at commits
        obtain ⟨slice, chosen, within⟩ := Federation.backed_supported _
          member (others member memberBehaved self st own ext pledged
            commits) memberBehaved
        exact ⟨slice, chosen, fun _ found => .inr (within found)⟩

/-- What a well-behaved node externalizes is backed by a quorum that has
accepted it. -/
theorem Network.Run.backed (run : network.Run events)
    (behaved : node ∈ network.wellBehaved) {st : SCPStatement}
    {ext : Externalize} (member : st ∈ network.own events node)
    (pledged : st.pledges = .externalize ext) :
    node ∈ network.federation.Backed
      (network.Accepts events · ext.commit.value) := by
  induction run generalizing node st ext with
  | start => exact absurd member List.not_mem_nil
  | @handle events event run eventBehaved authentic ih =>
      have stays : ∀ {other : NodeID} {st : SCPStatement}
          {ext : Externalize}, other ∈ network.wellBehaved →
          event.node ≠ other →
          st ∈ network.own (events ++ [event]) other →
          st.pledges = .externalize ext →
          other ∈ network.federation.Backed
            (network.Accepts (events ++ [event]) · ext.commit.value) := by
        intro other st ext behaved apart member pledged
        unfold Network.own at member
        rw [Network.process_other apart] at member
        exact Federation.backed_mono (fun _ accepts => accepts.append)
          (ih behaved member pledged)
      by_cases here : event.node = node
      · have now : network.Run (events ++ [event]) :=
          .handle event run eventBehaved authentic
        refine now.backed_of_ratified behaved ⟨st, member, ?_⟩
          ((network.commitments _ node).ratified st member ext pledged) ?_
        · simp [SCPStatement.Commits, pledged]
        · intro other otherBehaved apart st' member' ext' pledged' same
          rw [← same]
          refine stays otherBehaved ?_ member' pledged'
          rw [here]
          exact fun equal => apart equal.symm
      · exact stays behaved here member pledged

theorem Network.accepts_unique {other : Value}
    (first : network.Accepts events node value)
    (second : network.Accepts events node other) : value = other := by
  obtain ⟨st, member, commits⟩ := first
  obtain ⟨st', member', commits'⟩ := second
  exact (network.commitments events node).unique st member st' member' value
    other commits commits'

theorem Network.Run.externalized_backed (run : network.Run events)
    (behaved : node ∈ network.wellBehaved)
    (externalized : value ∈
      (network.process events node).slot.externalizedValues) :
    node ∈ network.federation.Backed (network.Accepts events · value) := by
  obtain ⟨st, member, ext, pledged, same⟩ :=
    (network.commitments events node).externalized value externalized
  rw [← same]
  exact run.backed behaved member pledged

end Agreement

/-- Well-behaved nodes of a network whose quorums intersect externalize one
value. -/
theorem Network.run_agreement {network : Network} {events : List Event}
    {left right : NodeID} {value other : Value}
    (intersects : network.federation.Intersects)
    (run : network.Run events)
    (leftBehaved : left ∈ network.wellBehaved)
    (rightBehaved : right ∈ network.wellBehaved)
    (leftExternalized : value ∈
      (network.process events left).slot.externalizedValues)
    (rightExternalized : other ∈
      (network.process events right).slot.externalizedValues) :
    value = other := by
  have leftBacked := run.externalized_backed leftBehaved leftExternalized
  have rightBacked :=
    run.externalized_backed rightBehaved rightExternalized
  have unique : ∀ node ∈ network.federation.wellBehaved,
      ∀ first second, network.Accepts events node first →
        network.Accepts events node second → first = second :=
    fun _ _ _ _ => Network.accepts_unique
  exact Federation.agreement intersects unique leftBehaved leftBacked
    rightBehaved rightBacked

/-! ## A small network -/

/-- The last envelope of a node is delivered to another one. -/
def Network.relay (network : Network) (events : List Event)
    (sender receiver : NodeID) : List Event :=
  match (network.process events sender).slot.emittedEnvelopes.getLast? with
  | none => events
  | some envelope => events ++ [⟨receiver, .receiveEnvelope envelope⟩]

theorem Network.Run.relay {network : Network} {events : List Event}
    {sender receiver : NodeID} (run : network.Run events)
    (senderBehaved : sender ∈ network.wellBehaved)
    (receiverBehaved : receiver ∈ network.wellBehaved) :
    network.Run (network.relay events sender receiver) := by
  unfold Network.relay
  split
  · exact run
  · rename_i envelope last
    have emitted := List.mem_of_getLast? last
    have own := (network.commitments events sender).emitted envelope emitted
    have signed : envelope.statement.nodeID = sender := by
      rw [(SlotView.mem_own.mp own).2, network.named sender senderBehaved]
    refine .handle _ run receiverBehaved ?_
    intro _ _ _
    rw [signed]
    exact emitted

/-- Four nodes with the same quorum set, three of them well-behaved. -/
def smallNetwork : Network :=
  { wellBehaved := {0, 1, 2}
    config := fun node =>
      { smallSlot ⟨3, [0, 1, 2, 3], []⟩ with
        localNode :=
          { mNodeID := node
            mIsValidator := true
            mQSet := ⟨3, [0, 1, 2, 3], []⟩
            mQSetHash := 0 } }
    mSlotIndex := 1
    named := fun _ _ => rfl
    indexed := fun _ _ => rfl
    hashed := fun _ _ _ _ _ found => (Option.some.inj found).symm }

/-- Three hits of four leave two among the first three. -/
private theorem two_of_three : ∀ zero one two three : Bool,
    3 ≤ [zero, one, two, three].count true →
      (zero = true ∧ one = true) ∨ (zero = true ∧ two = true) ∨
        (one = true ∧ two = true) := by
  decide

private theorem smallNetwork_quorum {nodes : Set NodeID}
    (quorum : smallNetwork.federation.IsQuorum nodes) :
    (0 ∈ nodes ∧ 1 ∈ nodes) ∨ (0 ∈ nodes ∧ 2 ∈ nodes) ∨
      (1 ∈ nodes ∧ 2 ∈ nodes) := by
  obtain ⟨node, member, behaved⟩ := quorum.inhabited
  obtain ⟨_, ⟨slice, rfl, satisfied⟩, inside⟩ :=
    quorum.supported node member behaved
  have hits : 3 ≤ sliceHits slice ⟨3, [0, 1, 2, 3], []⟩ :=
    (isQuorumSlice_iff _ _).mp satisfied
  rcases two_of_three _ _ _ _ hits with
    ⟨first, second⟩ | ⟨first, second⟩ | ⟨first, second⟩
  · exact .inl ⟨inside (of_decide_eq_true first),
      inside (of_decide_eq_true second)⟩
  · exact .inr (.inl ⟨inside (of_decide_eq_true first),
      inside (of_decide_eq_true second)⟩)
  · exact .inr (.inr ⟨inside (of_decide_eq_true first),
      inside (of_decide_eq_true second)⟩)

theorem smallNetwork_intersects : smallNetwork.federation.Intersects := by
  intro left right leftQuorum rightQuorum
  have behaved : ∀ node, node = 0 ∨ node = 1 ∨ node = 2 →
      node ∈ smallNetwork.federation.wellBehaved := by
    intro node named
    simpa [Network.federation, smallNetwork] using named
  have zero := behaved 0 (.inl rfl)
  have one := behaved 1 (.inr (.inl rfl))
  have two := behaved 2 (.inr (.inr rfl))
  rcases smallNetwork_quorum leftQuorum with
    ⟨first, second⟩ | ⟨first, second⟩ | ⟨first, second⟩
  · rcases smallNetwork_quorum rightQuorum with
      ⟨third, _⟩ | ⟨third, _⟩ | ⟨third, _⟩
    · exact ⟨0, zero, first, third⟩
    · exact ⟨0, zero, first, third⟩
    · exact ⟨1, one, second, third⟩
  · rcases smallNetwork_quorum rightQuorum with
      ⟨third, _⟩ | ⟨third, _⟩ | ⟨_, third⟩
    · exact ⟨0, zero, first, third⟩
    · exact ⟨0, zero, first, third⟩
    · exact ⟨2, two, second, third⟩
  · rcases smallNetwork_quorum rightQuorum with
      ⟨_, third⟩ | ⟨_, third⟩ | ⟨third, _⟩
    · exact ⟨1, one, first, third⟩
    · exact ⟨2, two, second, third⟩
    · exact ⟨1, one, first, third⟩

/-- Node 3 says that it has externalized a value. -/
def smallClaim : Input :=
  receiveFrom 3 (.externalize ⟨⟨1, [1]⟩, 1, 0⟩)

/-- Nodes 0 and 1 vote for the value and hear the claim of node 3. -/
def smallStart : List Event :=
  [] ++ [⟨0, .bumpState [1] true⟩] ++ [⟨1, .bumpState [1] true⟩] ++
    [⟨0, smallClaim⟩] ++ [⟨1, smallClaim⟩]

/-- Then they exchange envelopes until both have externalized it. -/
def smallExchange : List Event :=
  let events := smallNetwork.relay smallStart 0 1
  let events := smallNetwork.relay events 1 0
  let events := smallNetwork.relay events 0 1
  let events := smallNetwork.relay events 1 0
  smallNetwork.relay events 0 1

private theorem smallExchange_run : smallNetwork.Run smallExchange := by
  have zero : (0 : NodeID) ∈ smallNetwork.wellBehaved := by decide
  have one : (1 : NodeID) ∈ smallNetwork.wellBehaved := by decide
  have claims : ∀ events node,
      smallNetwork.Authentic events ⟨node, smallClaim⟩ := by
    intro events node behaved
    exact absurd behaved (by decide)
  have votes : ∀ events node,
      smallNetwork.Authentic events ⟨node, .bumpState [1] true⟩ :=
    fun _ _ => trivial
  have begun : smallNetwork.Run smallStart := by
    unfold smallStart
    apply Network.Run.handle _ _ one (claims _ _)
    apply Network.Run.handle _ _ zero (claims _ _)
    apply Network.Run.handle _ _ one (votes _ _)
    exact Network.Run.handle _ .start zero (votes _ _)
  unfold smallExchange
  apply Network.Run.relay _ zero one
  apply Network.Run.relay _ one zero
  apply Network.Run.relay _ zero one
  apply Network.Run.relay _ one zero
  exact begun.relay zero one

theorem run_agreement_small :
    ∃ value ∈
        (smallNetwork.process smallExchange 0).slot.externalizedValues,
      ∃ other ∈
          (smallNetwork.process smallExchange 1).slot.externalizedValues,
        value = other := by
  have left : [1] ∈
      (smallNetwork.process smallExchange 0).slot.externalizedValues := by
    decide +kernel
  have right : [1] ∈
      (smallNetwork.process smallExchange 1).slot.externalizedValues := by
    decide +kernel
  exact ⟨_, left, _, right, Network.run_agreement smallNetwork_intersects
    smallExchange_run (by decide) (by decide) left right⟩

end StellarCore.Scp
