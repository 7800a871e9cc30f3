import StellarCore.Lib.Register
import StellarCore.Scp.SlotRuns

/-!
# The records of the nodes

For each node a slot keeps the newest ballot statement it has admitted.  The
record of a node is a register that moves to newer statements only, whatever
else the slot does in between; a statement is refused when one of the other
checks fails, in particular when the slot has externalized another value.
-/

namespace StellarCore.Scp

open StellarCore.Lib

/-! ## Records of the ballot protocol -/

theorem isNewerStatement_order :
    NewerOn isNewerStatement (fun _ => True) where
  irreflexive := by
    intro st
    rw [← Bool.not_eq_true, isNewerStatement_iff]
    exact lt_irrefl _
  transitive := by
    intro first second third _ _ _ newer newest
    exact isNewerStatement_trans newer newest

/-- The latest statement recorded for a node. -/
def latestStatement (envelopes : EnvelopeMap) (node : NodeID) :
    Option SCPStatement :=
  (envelopes.lookup node).map SCPEnvelope.statement

section Ballots

variable {config : SlotConfig} {environment : Environment}
  {view view' : SlotView} {node : NodeID}

theorem latestStatement_insert {envelopes : EnvelopeMap}
    {envelope : SCPEnvelope}
    (newer : ∀ old,
      envelopes.lookup envelope.statement.nodeID = some old →
        isNewerStatement old.statement envelope.statement = true) :
    Forward isNewerStatement (latestStatement envelopes node)
      (latestStatement
        (envelopes.insert envelope.statement.nodeID envelope) node) := by
  by_cases here : node = envelope.statement.nodeID
  · subst here
    intro old held
    obtain ⟨recorded, found, equal⟩ := Option.map_eq_some_iff.mp held
    refine ⟨envelope.statement, ?_, .inr (equal ▸ newer recorded found)⟩
    simp [latestStatement]
  · rw [latestStatement, latestStatement, AList.lookup_insert_ne here]
    exact .refl _

theorem Step.forward (step : Step config environment view view') :
    Forward isNewerStatement (latestStatement view.envelopes node)
      (latestStatement view'.envelopes node) := by
  cases step with
  | publish flag transition consistent built admitted =>
      obtain ⟨_, _, newer, _⟩ := admitted
      exact latestStatement_insert newer
  | receive flag sent foreign verified indexed admitted final =>
      obtain ⟨_, _, newer, _⟩ := admitted
      exact latestStatement_insert newer
  | visit attempt bp ballots envelopes => exact .refl _
  | keep transition consistent built same => exact .refl _
  | makeLast envelope vouched newer => exact .refl _
  | send last set fresh validated => exact .refl _
  | externalize commit ended committed first => exact .refl _
  | offer value offered => exact .refl _

theorem Path.forward (path : Path config environment view view') :
    Forward isNewerStatement (latestStatement view.envelopes node)
      (latestStatement view'.envelopes node) := by
  induction path with
  | refl => exact .refl _
  | tail _ step ih =>
      exact ih.trans isNewerStatement_order (fun _ _ => trivial)
        (fun _ _ => trivial) (fun _ _ => trivial) step.forward

/-- The record of another node is an envelope that was sent. -/
def SlotView.Delivered (config : SlotConfig) (environment : Environment)
    (view : SlotView) : Prop :=
  ∀ node envelope, node ≠ config.getLocalNodeID →
    view.envelopes.lookup node = some envelope →
      envelope.statement.nodeID = node ∧ environment.sends envelope

theorem Step.delivered (step : Step config environment view view')
    (delivered : view.Delivered config environment) :
    view'.Delivered config environment := by
  cases step with
  | publish flag transition consistent built admitted =>
      intro node envelope foreign found
      simp only [SlotView.record, SlotConfig.createEnvelope_nodeID,
        AList.lookup_insert_ne foreign] at found
      exact delivered node envelope foreign found
  | @receive received flag sent foreign verified indexed admitted final =>
      intro node envelope other found
      by_cases here : node = received.statement.nodeID
      · subst here
        simp only [SlotView.record, AList.lookup_insert] at found
        cases found
        exact ⟨rfl, sent⟩
      · simp only [SlotView.record, AList.lookup_insert_ne here] at found
        exact delivered node envelope other found
  | visit attempt bp ballots envelopes => exact delivered
  | keep transition consistent built same => exact delivered
  | makeLast envelope vouched newer => exact delivered
  | send last set fresh validated => exact delivered
  | externalize commit ended committed first => exact delivered
  | offer value offered => exact delivered

/-- What `processEnvelope` checks of an envelope of another node besides its
being newer. -/
structure PassesOtherChecks (config : SlotConfig) (slot : Slot)
    (envelope : SCPEnvelope) : Prop where
  foreign : envelope.statement.nodeID ≠ config.getLocalNodeID
  verified : config.driver.verifyEnvelope envelope = true
  indexed : envelope.statement.slotIndex = config.mSlotIndex
  known : ∃ qSet,
    config.getQuorumSetFromStatement envelope.statement = some qSet ∧
      isQuorumSetSane qSet false = true
  sane : arePledgesSane envelope.statement.pledges false = true
  valid : validateValues config envelope.statement ≠ .kInvalidValue
  final : slot.mBallotProtocol.mPhase = .externalize →
    ∃ commit, slot.mBallotProtocol.mCommit = some commit ∧
      commit.value = (getWorkingBallot envelope.statement).value

/-- A statement that is newer and passes the other checks is recorded. -/
theorem receiveEnvelope_records {slot : Slot} {envelope : SCPEnvelope}
    (stable : slot.view.Stable config)
    (passes : PassesOtherChecks config slot envelope)
    (newer : ∀ old, slot.view.envelopes.lookup
      envelope.statement.nodeID = some old →
        isNewerStatement old.statement envelope.statement = true) :
    Ends (receiveEnvelope config envelope) slot
      (fun _ finish => Forward isNewerStatement (some envelope.statement)
        (latestStatement finish.view.envelopes envelope.statement.nodeID))
      (fun _ _ => True) := by
  have admits : slot.view.Admits config envelope.statement false :=
    ⟨passes.known, passes.sane, newer, passes.valid⟩
  have held : ∀ flag, latestStatement
      (slot.recorded flag envelope).view.envelopes
        envelope.statement.nodeID = some envelope.statement := by
    intro flag
    rw [Slot.recorded_view]
    simp [latestStatement, SlotView.record]
  unfold receiveEnvelope
  rw [if_neg passes.foreign, if_neg (by simp [passes.verified]),
    if_neg (not_not.mpr passes.indexed), Ends.bind_iff]
  refine processEnvelope_ends passes.indexed trivial
    (fun refused => absurd admits refused) ?_ (fun _ _ => trivial) ?_
  · intro _ running flag
    have step : Step config ⟨fun _ => False, fun _ => True⟩ slot.view
        (slot.recorded flag envelope).view := by
      rw [Slot.recorded_view]
      exact .receive flag trivial passes.foreign passes.verified
        passes.indexed admits (fun ended => absurd ended running)
    refine (advanceSlot_ends config ⟨fun _ => False, fun _ => True⟩ _ _
      (step.stable stable) ?_).mono ?_ (fun _ _ _ => trivial)
    · refine ⟨envelope.statement.nodeID, envelope, ?_, rfl⟩
      rw [Slot.recorded_view]
      simp [SlotView.record]
    · intro _ finish advanced
      have forward : Forward isNewerStatement
          (latestStatement (slot.recorded flag envelope).view.envelopes
            envelope.statement.nodeID) _ := advanced.path.forward
      rwa [held flag] at forward
  · intro _ ended commit set
    obtain ⟨commit', set', agrees⟩ := passes.final ended
    have same : commit = commit' := Option.some.inj (set.symm.trans set')
    rw [if_pos (same ▸ agrees)]
    show Forward isNewerStatement _ (latestStatement _ _)
    rw [held]
    exact .refl _

end Ballots

/-! ## Runs of the ballot protocol -/

section BallotRuns

variable {config : SlotConfig} {earlier later : List Input}

theorem Process.handle_failed {process : Process} {reason : Failure}
    (failed : process.failure = some reason) (inputs : List Input) :
    inputs.foldl (Process.handle config) process = process := by
  induction inputs with
  | nil => rfl
  | cons input inputs ih =>
      have stays : process.handle config input = process := by
        unfold Process.handle Process.run
        rw [failed]
      rw [List.foldl_cons, stays, ih]

/-- A process that is alive has been alive before. -/
theorem runInputs_alive
    (alive : (runInputs config (earlier ++ later)).failure = none) :
    (runInputs config earlier).failure = none := by
  by_contra failed
  obtain ⟨reason, failure⟩ := Option.ne_none_iff_exists'.mp failed
  unfold runInputs at alive failure
  rw [List.foldl_append, Process.handle_failed failure, failure] at alive
  cases alive

theorem runInputs_stable
    (alive : (runInputs config earlier).failure = none) :
    (runInputs config earlier).slot.view.Stable config := by
  obtain ⟨view, reaches⟩ := runInputs_reaches config earlier
  rw [reaches.alive alive]
  exact reaches.path.stable (Slot.fresh_stable config)

/-- A run goes on along a path. -/
theorem runInputs_append
    (alive : (runInputs config (earlier ++ later)).failure = none) :
    Path config (environmentOf (earlier ++ later))
      (runInputs config earlier).slot.view
      (runInputs config (earlier ++ later)).slot.view := by
  have aliveEarlier := runInputs_alive alive
  have begins : (runInputs config earlier).Reaches config
      (environmentOf (earlier ++ later))
      (runInputs config earlier).slot.view
      (runInputs config earlier).slot.view :=
    ⟨.refl, fun _ => rfl, .refl _, fun reason failed => by
      rw [aliveEarlier] at failed
      cases failed⟩
  obtain ⟨view, reaches⟩ := Process.handle_reaches
    (runInputs_stable aliveEarlier)
    (List.subset_append_right earlier later) begins
  have split : runInputs config (earlier ++ later) =
      later.foldl (Process.handle config) (runInputs config earlier) := by
    unfold runInputs
    rw [List.foldl_append]
  rw [split] at alive ⊢
  rw [reaches.alive alive]
  exact reaches.path

theorem runInputs_delivered {inputs : List Input}
    (alive : (runInputs config inputs).failure = none) :
    (runInputs config inputs).slot.view.Delivered config
      (environmentOf inputs) := by
  obtain ⟨view, reaches⟩ := runInputs_reaches config inputs
  rw [reaches.alive alive]
  refine (reaches.path.invariant
    (fun view => view.Delivered config (environmentOf inputs))
    (fun _ _ _ delivered step => step.delivered delivered)
    (Slot.fresh_stable config) ?_).2
  intro node envelope _ found
  simp [Slot.view, Slot.fresh] at found

theorem runInputs_concat (input : Input) :
    runInputs config (earlier ++ [input]) =
      (runInputs config earlier).handle config input := by
  unfold runInputs
  rw [List.foldl_concat]

/-- A program that ends normally leaves its state to the process. -/
theorem Process.run_of_ends {process : Process} {program : BallotM Unit}
    {done : Slot → Prop} (alive : (process.run program).failure = none)
    (ends : process.failure = none →
      Ends program process.slot (fun _ finish => done finish)
        (fun _ _ => True)) :
    ∃ finish, (process.run program).slot = finish.visiting .idle ∧
      done finish := by
  unfold Process.run at alive ⊢
  cases failure : process.failure with
  | some reason => simp [failure] at alive
  | none =>
      simp only [failure] at alive ⊢
      cases outcome : program process.slot with
      | ok result finish =>
          exact ⟨finish, rfl, (ends failure).of_ok outcome⟩
      | error reason finish => simp [outcome] at alive

/-- The statements of a node that arrive in a run. -/
def Delivers (inputs : List Input) (node : NodeID)
    (issued : List SCPStatement) : Prop :=
  ∀ envelope, .receiveEnvelope envelope ∈ inputs →
    envelope.statement.nodeID = node → envelope.statement ∈ issued

/-- What the process has recorded for a node. -/
def Process.latest (process : Process) (node : NodeID) :
    Option SCPStatement :=
  latestStatement process.slot.mBallotProtocol.mLatestEnvelopes node

/-- The record of a node holds one of the statements that arrived. -/
theorem Process.latest_mem {inputs : List Input} {node : NodeID}
    {issued : List SCPStatement}
    (foreign : node ≠ config.getLocalNodeID)
    (delivers : Delivers inputs node issued)
    (alive : (runInputs config inputs).failure = none) :
    ∀ st ∈ (runInputs config inputs).latest node, st ∈ issued := by
  intro st held
  obtain ⟨envelope, found, equal⟩ := Option.map_eq_some_iff.mp held
  obtain ⟨sender, sent⟩ :=
    runInputs_delivered alive node envelope foreign found
  rw [← equal]
  exact delivers envelope sent sender

/-- After the arrival of the last statement of a node, which passes the other
checks, its record is that statement. -/
theorem runInputs_latest_eq {envelope : SCPEnvelope}
    {issued : List SCPStatement}
    (increasing : (issued ++ [envelope.statement]).Pairwise
      (fun st st' => isNewerStatement st st' = true))
    (delivers : Delivers (earlier ++ .receiveEnvelope envelope :: later)
      envelope.statement.nodeID (issued ++ [envelope.statement]))
    (alive : (runInputs config
      (earlier ++ .receiveEnvelope envelope :: later)).failure = none)
    (passes : PassesOtherChecks config (runInputs config earlier).slot
      envelope) :
    (runInputs config (earlier ++ .receiveEnvelope envelope :: later)).latest
      envelope.statement.nodeID = some envelope.statement := by
  have split : earlier ++ .receiveEnvelope envelope :: later =
      (earlier ++ [.receiveEnvelope envelope]) ++ later := by simp
  have aliveEarlier := runInputs_alive alive
  have fromIssued := Process.latest_mem passes.foreign delivers alive
  have deliversEarlier : Delivers earlier envelope.statement.nodeID
      (issued ++ [envelope.statement]) := fun other member =>
    delivers other (List.mem_append_left _ member)
  have forward : Forward isNewerStatement (some envelope.statement)
      ((runInputs config
        (earlier ++ .receiveEnvelope envelope :: later)).latest
          envelope.statement.nodeID) := by
    by_cases already : (runInputs config earlier).latest
        envelope.statement.nodeID = some envelope.statement
    · rw [← already]
      exact (runInputs_append alive).forward
    · -- the record, if there is one, is older than the last statement
      rw [split] at alive ⊢
      have newer : ∀ old,
          (runInputs config earlier).slot.view.envelopes.lookup
            envelope.statement.nodeID = some old →
          isNewerStatement old.statement envelope.statement = true := by
        intro old found
        have held : (runInputs config earlier).latest
            envelope.statement.nodeID = some old.statement :=
          congrArg (Option.map SCPEnvelope.statement) found
        refine newer_of_ne_last increasing
          (Process.latest_mem passes.foreign deliversEarlier aliveEarlier
            _ held) ?_
        intro same
        exact already (held.trans (congrArg some same))
      have aliveMiddle := runInputs_alive alive
      rw [runInputs_concat] at aliveMiddle
      obtain ⟨finish, reached, recorded⟩ := Process.run_of_ends aliveMiddle
        (fun _ => receiveEnvelope_records
          (runInputs_stable aliveEarlier) passes newer)
      have arrived : Forward isNewerStatement (some envelope.statement)
          ((runInputs config
            (earlier ++ [.receiveEnvelope envelope])).latest
              envelope.statement.nodeID) := by
        have handled : ((runInputs config earlier).handle config
            (.receiveEnvelope envelope)).slot = finish.visiting .idle :=
          reached
        rw [runInputs_concat, Process.latest, handled]
        exact recorded
      exact arrived.trans isNewerStatement_order (fun _ _ => trivial)
        (fun _ _ => trivial) (fun _ _ => trivial)
        (runInputs_append alive).forward
  exact forward.eq_last isNewerStatement_order (fun _ _ => trivial)
    increasing fromIssued

end BallotRuns

end StellarCore.Scp
