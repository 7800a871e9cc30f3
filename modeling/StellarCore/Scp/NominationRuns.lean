import StellarCore.Scp.NominationSteps

/-!
# Runs of the nomination protocol

A slot is driven by its environment as in `BallotRun`, with the nomination
protocol beside the ballot protocol.
-/

namespace StellarCore.Scp

open StellarCore.Lib

/-- What drives a slot: envelopes of other nodes, calls of `nominate` and its
timer, and everything that drives the ballot protocol. -/
inductive NominationInput where
  | receiveEnvelope (envelope : NominationEnvelope)
  | nominate (value previousValue : Value)
  | nominationTimerExpired (value previousValue : Value)
  | stopNomination
  | ballot (input : Input)

section Runs

variable (config : SlotConfig) (fuel : Nat)

/-- Own messages, bad signatures and other slots are dropped before the slot
sees an envelope. -/
def receiveNomination (driver : NominationDriver)
    (envelope : NominationEnvelope) : NominationM Unit :=
  if envelope.statement.nodeID = config.getLocalNodeID ∨
      driver.verifyNomination envelope = false ∨
      envelope.statement.slotIndex ≠ config.mSlotIndex then
    pure ()
  else do
    let _ ← processNominationAt config driver (fuel + 1) envelope

def performNomination (driver : NominationDriver)
    (input : NominationInput) : NominationM Unit :=
  let emit := emitNomination config driver
    (processNominationAt config driver fuel)
  match input with
  | .receiveEnvelope envelope => receiveNomination config fuel driver envelope
  | .nominate value previousValue =>
      if config.localNode.mIsValidator then do
        let _ ← nominate config driver emit value previousValue false
      else throw .notValidator
  | .nominationTimerExpired value previousValue => do
      let _ ← nominate config driver emit value previousValue true
  | .stopNomination =>
      modifyNomination (fun np => { np with mNominationStarted := false })
  | .ballot input => runBallot (perform config input)

structure NominationProcess where
  slot : NominationSlot
  failure : Option NominationFailure := none

def NominationProcess.start : NominationProcess :=
  { slot := { ballot := Slot.fresh config } }

/-- Handle an input unless the process has ended; the driver may answer each
input differently. -/
def NominationProcess.handle (process : NominationProcess)
    (input : NominationDriver × NominationInput) : NominationProcess :=
  match process.failure with
  | some _ => process
  | none =>
      match performNomination config fuel input.1 input.2 process.slot with
      | .ok _ slot => { slot := slot.visiting }
      | .error failure slot => { slot := slot.visiting, failure := some failure }

def runNomination (inputs : List (NominationDriver × NominationInput)) :
    NominationProcess :=
  inputs.foldl (NominationProcess.handle config fuel)
    (NominationProcess.start config)

end Runs

namespace NominationSlot

variable {config : SlotConfig} {slot : NominationSlot}

theorem performNomination_settles (fuel : Nat)
    (driver : NominationDriver) (input : NominationInput)
    (steady : slot.Steady config) :
    Ends (performNomination config fuel driver input) slot
      (fun _ finish => finish.Steady config) Halted := by
  have emits : Emits config (emitNomination config driver
      (processNominationAt config driver fuel)) :=
    emitNominationAt_emits fuel
  unfold performNomination
  cases input with
  | receiveEnvelope envelope =>
      unfold receiveNomination
      apply Ends.ite_iff.mpr
      constructor
      · intro _
        exact steady
      · intro passed
        rw [not_or] at passed
        simp only [Ends.bind_iff, Ends.pure_iff]
        exact (processNomination_settles emits passed.1 steady).mono
          (fun _ _ settled => settled.1) (fun _ _ halted => halted)
  | nominate value previousValue =>
      apply Ends.ite_iff.mpr
      constructor
      · intro _
        simp only [Ends.bind_iff, Ends.pure_iff]
        exact (nominate_settles emits steady).mono
          (fun _ _ settled => settled.1) (fun _ _ halted => halted)
      · intro _
        exact ⟨by simp, steady.logged, steady.nested⟩
  | nominationTimerExpired value previousValue =>
      simp only [Ends.bind_iff, Ends.pure_iff]
      exact (nominate_settles emits steady).mono
        (fun _ _ settled => settled.1) (fun _ _ halted => halted)
  | stopNomination =>
      have moves : slot.Moves
          { slot with nomination :=
            { slot.nomination with mNominationStarted := false } } false :=
        .of_same rfl rfl rfl rfl rfl rfl
      exact moves.steady steady
  | ballot input =>
      refine (runBallot_quiet _ slot).mono ?_ ?_
      · intro _ finish moves
        exact moves.steady steady
      · rintro failure finish ⟨ordinary, changed, moves⟩
        exact .of_moves ordinary moves steady.logged steady.nested

end NominationSlot

namespace NominationProcess

variable {config : SlotConfig} {fuel : Nat} {process : NominationProcess}

/-- A process that goes on is steady, and one that has ended did not move to
a bad state. -/
structure Sound (config : SlotConfig) (process : NominationProcess) :
    Prop where
  logged : process.slot.Logged
  running : process.failure = none → process.slot.Steady config
  ended : process.failure ≠ some .movedToBadState

theorem start_sound (config : SlotConfig) : (start config).Sound config := by
  have steady : (start config).slot.Steady config := by
    refine ⟨⟨?_, List.Pairwise.nil, ?_, ?_⟩, ⟨?_, ?_⟩, ?_, ?_⟩
    · exact fun _ never => absurd never List.not_mem_nil
    · exact fun _ never => absurd never List.not_mem_nil
    · exact fun _ never => absurd never List.not_mem_nil
    · exact Finset.Subset.refl _
    · exact Finset.Subset.refl _
    · exact fun _ => ⟨rfl, rfl⟩
    · exact fun _ never => absurd never (by simp [start,
        NominationProtocol.recorded])
  exact ⟨steady.logged, fun _ => steady, by simp [start]⟩

theorem Sound.handle (sound : process.Sound config)
    (input : NominationDriver × NominationInput) :
    (process.handle config fuel input).Sound config := by
  unfold NominationProcess.handle
  cases failed : process.failure with
  | some failure => exact sound
  | none =>
      have ends := NominationSlot.performNomination_settles fuel input.1
        input.2 (sound.running failed)
      unfold Ends at ends
      cases result : performNomination config fuel input.1 input.2
          process.slot with
      | ok value slot =>
          rw [result] at ends
          exact ⟨ends.visit.logged, fun _ => ends.visit, by simp⟩
      | error failure slot =>
          rw [result] at ends
          obtain ⟨ordinary, logged, nested⟩ := ends
          exact ⟨logged.visit nested, fun never => by simp at never,
            by simpa using ordinary⟩

end NominationProcess

theorem runNomination_sound (config : SlotConfig) (fuel : Nat)
    (inputs : List (NominationDriver × NominationInput)) :
    (runNomination config fuel inputs).Sound config := by
  unfold runNomination
  induction inputs using List.reverseRecOn with
  | nil => exact NominationProcess.start_sound config
  | append_singleton inputs input ih =>
      rw [List.foldl_append]
      exact ih.handle input

/-- In every run the candidates are among the accepted values and these among
the votes, the three sets only grow, and every own statement is sane and newer
than the one recorded before, so that it is never rejected. -/
theorem runNomination_invariant (config : SlotConfig) (fuel : Nat)
    (inputs : List (NominationDriver × NominationInput)) :
    let process := runNomination config fuel inputs
    (∀ np ∈ process.slot.visits,
      np.mCandidates ⊆ np.mAccepted ∧ np.mAccepted ⊆ np.mVotes) ∧
    process.slot.visits.Pairwise (fun before after =>
      before.mVotes ⊆ after.mVotes ∧ before.mAccepted ⊆ after.mAccepted ∧
        before.mCandidates ⊆ after.mCandidates) ∧
    process.failure ≠ some .movedToBadState ∧
    ∀ entry ∈ process.slot.built, entry.built.isSane = true ∧
      ∀ old ∈ entry.recorded, old.isNewerStatement entry.built = true := by
  have sound := runNomination_sound config fuel inputs
  refine ⟨?_, ?_, sound.ended, sound.logged.built⟩
  · intro np visited
    have nested := sound.logged.nested np visited
    exact ⟨nested.candidates, nested.accepted⟩
  · exact sound.logged.growing.imp
      (fun grows => ⟨grows.votes, grows.accepted, grows.candidates⟩)

end StellarCore.Scp
