import StellarCore.Scp.NominationRuns
import StellarCore.Scp.StatementOrder

/-!
# The order of nominations and their records

A nomination is newer when its sorted lists of votes and of accepted values
include the older ones and one of them has grown.  The record of another
node changes in one place only, the arrival of an envelope, and then to a
newer and sane nomination.
-/

namespace StellarCore.Scp

open StellarCore.Lib

/-! ## The order of nominations -/

theorem subset_of_includes {v p : List Value}
    (included : includes v p = true) : p ⊆ v := by
  induction v generalizing p with
  | nil =>
      cases p with
      | nil => exact List.Subset.refl _
      | cons part parts => simp [includes] at included
  | cons first rest ih =>
      cases p with
      | nil => exact List.nil_subset _
      | cons part parts =>
          rw [includes] at included
          split at included
          · cases included
          · rename_i notBelow
            split at included
            · exact List.Subset.trans (ih included)
                (List.subset_cons_self _ _)
            · rename_i notAbove
              have same : part = first :=
                le_antisymm (not_lt.mp notAbove) (not_lt.mp notBelow)
              rw [same]
              exact List.cons_subset_cons _ (ih included)

/-- On sorted lists the helper decides inclusion, and it sees a difference in
the lengths. -/
theorem isSubsetHelper_kept_iff {p v : List Value}
    (sortedPart : p.Pairwise (· < ·)) (sorted : v.Pairwise (· < ·)) :
    (isSubsetHelper p v).1 = true ↔ p ⊆ v := by
  unfold isSubsetHelper
  constructor
  · intro kept
    split at kept
    · split at kept
      · rename_i included
        exact subset_of_includes included
      · cases kept
    · cases kept
  · intro subset
    have shorter : p.length ≤ v.length :=
      (List.subperm_of_subset (sortedPart.imp ne_of_lt) subset).length_le
    rw [if_pos shorter, if_pos (includes_of_subset sorted sortedPart subset)]

theorem isSubsetHelper_grows {p v : List Value}
    (kept : (isSubsetHelper p v).1 = true) :
    (isSubsetHelper p v).2 = decide (p.length ≠ v.length) := by
  unfold isSubsetHelper at kept ⊢
  split at kept
  · rename_i shorter
    split at kept
    · rename_i included
      rw [if_pos shorter, if_pos included]
    · cases kept
  · cases kept

namespace SCPNomination

theorem isNewerStatement_iff {oldst st : SCPNomination} :
    oldst.isNewerStatement st = true ↔
      (isSubsetHelper oldst.votes st.votes).1 = true ∧
        (isSubsetHelper oldst.accepted st.accepted).1 = true ∧
        (oldst.votes.length ≠ st.votes.length ∨
          oldst.accepted.length ≠ st.accepted.length) := by
  unfold isNewerStatement
  by_cases votesKept : (isSubsetHelper oldst.votes st.votes).1 = true
  · by_cases acceptedKept :
        (isSubsetHelper oldst.accepted st.accepted).1 = true
    · simp [votesKept, acceptedKept, isSubsetHelper_grows votesKept,
        isSubsetHelper_grows acceptedKept]
    · simp [acceptedKept]
  · simp [votesKept]

theorem isSane_sorted {nom : SCPNomination} (sane : nom.isSane = true) :
    nom.votes.Pairwise (· < ·) ∧ nom.accepted.Pairwise (· < ·) := by
  unfold isSane at sane
  simp only [Bool.and_eq_true, decide_eq_true_eq] at sane
  exact ⟨List.isChain_iff_pairwise.mp sane.1.2,
    List.isChain_iff_pairwise.mp sane.2⟩

theorem isNewerStatement_order :
    NewerOn SCPNomination.isNewerStatement
      (fun nom => nom.isSane = true) where
  irreflexive := by
    intro nom
    rw [← Bool.not_eq_true, isNewerStatement_iff]
    rintro ⟨_, _, differ | differ⟩
    · exact differ rfl
    · exact differ rfl
  transitive := by
    intro first second third saneFirst saneSecond saneThird newer newest
    obtain ⟨firstVotes, firstAccepted⟩ := isSane_sorted saneFirst
    obtain ⟨secondVotes, secondAccepted⟩ := isSane_sorted saneSecond
    obtain ⟨thirdVotes, thirdAccepted⟩ := isSane_sorted saneThird
    rw [isNewerStatement_iff] at newer newest ⊢
    rw [isSubsetHelper_kept_iff firstVotes secondVotes,
      isSubsetHelper_kept_iff firstAccepted secondAccepted] at newer
    rw [isSubsetHelper_kept_iff secondVotes thirdVotes,
      isSubsetHelper_kept_iff secondAccepted thirdAccepted] at newest
    rw [isSubsetHelper_kept_iff firstVotes thirdVotes,
      isSubsetHelper_kept_iff firstAccepted thirdAccepted]
    obtain ⟨votes, accepted, differ⟩ := newer
    obtain ⟨votes', accepted', _⟩ := newest
    have shorter : ∀ {p v : List Value}, p.Pairwise (· < ·) → p ⊆ v →
        p.length ≤ v.length := fun sorted subset =>
      (List.subperm_of_subset (sorted.imp ne_of_lt) subset).length_le
    have votesOne := shorter firstVotes votes
    have votesTwo := shorter secondVotes votes'
    have acceptedOne := shorter firstAccepted accepted
    have acceptedTwo := shorter secondAccepted accepted'
    refine ⟨List.Subset.trans votes votes',
      List.Subset.trans accepted accepted', ?_⟩
    rcases differ with differ | differ
    · left
      omega
    · right
      omega

end SCPNomination

/-! ## Records of other nodes -/

namespace NominationSlot

/-- The nominations recorded for other nodes are the same. -/
def KeepsForeign (config : SlotConfig) (slot finish : NominationSlot) :
    Prop :=
  ∀ node, node ≠ config.getLocalNodeID →
    finish.nomination.mLatestNominations.lookup node =
      slot.nomination.mLatestNominations.lookup node

instance (config : SlotConfig) : Std.Refl (KeepsForeign config) where
  refl := fun _ _ _ => rfl

instance (config : SlotConfig) :
    IsTrans NominationSlot (KeepsForeign config) where
  trans := fun _ _ _ first second node foreign =>
    (second node foreign).trans (first node foreign)

variable {config : SlotConfig} {driver : NominationDriver}

theorem modifyNomination_keeps
    {change : NominationProtocol → NominationProtocol}
    (same : ∀ np, (change np).mLatestNominations = np.mLatestNominations) :
    Keeps (modifyNomination change) (KeepsForeign config) :=
  .of_modify fun slot node _ => by rw [same]

theorem getNomination_keeps : Keeps getNomination (KeepsForeign config) :=
  .bind .of_get fun _ => .of_pure

theorem callNominationDriver_keeps {call : NominationCall} :
    Keeps (callNominationDriver call) (KeepsForeign config) :=
  .of_modify fun _ _ _ => rfl

theorem visitNomination_keeps :
    Keeps visitNomination (KeepsForeign config) :=
  .of_modify fun _ _ _ => rfl

theorem queryNomination_keeps {α : Type} {result : Option α} :
    Keeps (queryNomination result) (KeepsForeign config) := by
  cases result with
  | none => exact .of_throw
  | some value => exact .of_pure

theorem whenTrue_keeps {condition : Bool} {program : NominationM Unit}
    (keeps : Keeps program (KeepsForeign config)) :
    Keeps (whenTrue condition program) (KeepsForeign config) :=
  .ite keeps .of_pure

theorem runBallot_keeps {α : Type} {program : BallotM α} :
    Keeps (runBallot program) (KeepsForeign config) := by
  intro slot
  unfold Ends runBallot
  cases program slot.ballot with
  | ok value ballot => exact fun _ _ => rfl
  | error failure ballot => exact fun _ _ => rfl

theorem publishNomination_keeps {envelope : NominationEnvelope} :
    Keeps (publishNomination envelope) (KeepsForeign config) := by
  refine .bind .of_get fun slot => ?_
  apply whenTrue_keeps
  refine .bind (modifyNomination_keeps fun _ => rfl) fun _ => ?_
  exact whenTrue_keeps callNominationDriver_keeps

/-- Emitting records a statement of the local node only. -/
theorem emitNomination_keeps
    {process : NominationEnvelope → NominationM Bool}
    (own : ∀ envelope, envelope.statement.nodeID = config.getLocalNodeID →
      Keeps (process envelope) (KeepsForeign config)) :
    Keeps (emitNomination config driver process) (KeepsForeign config) := by
  refine .bind visitNomination_keeps fun _ => ?_
  refine .bind (.of_modify fun _ _ _ => rfl) fun _ => ?_
  refine .bind getNomination_keeps fun np => ?_
  refine .bind (own _ rfl) fun valid => ?_
  exact .ite publishNomination_keeps .of_throw

theorem takeLeaderVote_keeps {st : NominationStatement} :
    Keeps (takeLeaderVote config driver st) (KeepsForeign config) := by
  refine .bind getNomination_keeps fun np => ?_
  refine .ite (.bind queryNomination_keeps fun newVote => ?_) .of_pure
  refine .ite .of_pure ?_
  refine .bind (modifyNomination_keeps fun _ => rfl) fun _ => ?_
  exact .bind callNominationDriver_keeps fun _ => .of_pure

theorem offerCandidates_keeps :
    Keeps (offerCandidates config driver) (KeepsForeign config) := by
  refine .bind getNomination_keeps fun np => ?_
  exact .bind callNominationDriver_keeps fun _ => runBallot_keeps

/-- The state that a program reads may be put back with the same records. -/
theorem replaceNomination_keeps {α : Type} {np : NominationProtocol}
    {slot : NominationSlot} {next : NominationM α}
    (same : np.mLatestNominations = slot.nomination.mLatestNominations)
    (keeps : Keeps next (KeepsForeign config)) :
    Ends (do modifyNomination (fun _ => np); next) slot
      (fun _ finish => slot.KeepsForeign config finish)
      (fun _ finish => slot.KeepsForeign config finish) := by
  rw [Ends.bind_iff]
  unfold modifyNomination
  rw [Ends.modify_iff]
  have kept : ∀ finish : NominationSlot,
      KeepsForeign config { slot with nomination := np } finish →
        slot.KeepsForeign config finish := by
    intro finish later node foreign
    rw [later node foreign, same]
  exact (keeps _).mono (fun _ finish => kept finish)
    (fun _ finish => kept finish)

theorem promoteValues_keeps {emit : NominationM Unit}
    {st : NominationStatement}
    (emits : Keeps emit (KeepsForeign config)) :
    Keeps (promoteValues config driver emit st) (KeepsForeign config) := by
  intro slot
  have accepts : slot.nomination.Extends
      (slot.nomination.acceptVotes config driver st.nominate.votes).1
      (slot.nomination.acceptVotes config driver st.nominate.votes).2 :=
    NominationProtocol.acceptVotes_extends st.nominate.votes
  unfold promoteValues getNomination
  simp only [bind_assoc, pure_bind]
  rw [Ends.bind_iff, Ends.get_iff]
  refine replaceNomination_keeps accepts.latest ?_
  refine .bind takeLeaderVote_keeps fun voted => ?_
  refine .bind (whenTrue_keeps emits) fun _ => ?_
  exact whenTrue_keeps offerCandidates_keeps

theorem processNomination_keeps {emit : NominationM Unit}
    {envelope : NominationEnvelope}
    (emits : Keeps emit (KeepsForeign config))
    (own : envelope.statement.nodeID = config.getLocalNodeID) :
    Keeps (processNomination config driver emit envelope)
      (KeepsForeign config) := by
  have records : Keeps (recordNomination envelope)
      (KeepsForeign config) := by
    refine .of_modify fun slot node foreign => ?_
    have other : node ≠ envelope.statement.nodeID := by
      rw [own]
      exact foreign
    simp [NominationSlot.recording, AList.lookup_insert_ne other]
  refine .bind visitNomination_keeps fun _ => ?_
  refine .bind getNomination_keeps fun np => ?_
  refine .ite (.bind records fun _ => ?_) .of_pure
  exact .bind (whenTrue_keeps (promoteValues_keeps emits)) fun _ => .of_pure

theorem emitNominationAt_keeps (fuel : Nat) :
    Keeps (emitNomination config driver
      (processNominationAt config driver fuel)) (KeepsForeign config) := by
  apply emitNomination_keeps
  induction fuel with
  | zero => exact fun _ _ => .of_throw
  | succ fuel ih =>
      intro envelope own
      exact processNomination_keeps (emitNomination_keeps ih) own

theorem nominate_keeps {emit : NominationM Unit}
    {value previousValue : Value} {timedout : Bool}
    (emits : Keeps emit (KeepsForeign config)) :
    Keeps (nominate config driver emit value previousValue timedout)
      (KeepsForeign config) := by
  refine .bind getNomination_keeps fun np => .ite .of_pure ?_
  refine .bind (modifyNomination_keeps fun _ => rfl) fun _ => ?_
  refine .bind getNomination_keeps fun np => ?_
  refine .bind queryNomination_keeps fun leaders => ?_
  refine .bind (modifyNomination_keeps fun _ => rfl) fun _ => ?_
  intro slot
  unfold getNomination
  simp only [bind_assoc, pure_bind]
  rw [Ends.bind_iff, Ends.get_iff]
  cases votes : newRoundVotes config driver slot.nomination value with
  | none => exact fun _ _ => rfl
  | some found =>
      have latest :=
        (NominationProtocol.newRoundVotes_extends votes).latest
      simp only [queryNomination, pure_bind]
      refine replaceNomination_keeps latest ?_
      refine .bind callNominationDriver_keeps fun _ => ?_
      refine .bind callNominationDriver_keeps fun _ => ?_
      exact .bind (whenTrue_keeps emits) fun _ => .of_pure

/-- What can happen to the record of another node while an envelope is
handled: it stays, or the envelope is newer and sane and is recorded. -/
inductive Receives (config : SlotConfig) (envelope : NominationEnvelope)
    (slot finish : NominationSlot) : Prop where
  | kept (same : slot.KeepsForeign config finish)
  | recorded
      (newer : slot.nomination.isNewerFor envelope.statement.nodeID
        envelope.statement.nominate = true)
      (sane : envelope.statement.nominate.isSane = true)
      (same : KeepsForeign config (slot.recording envelope) finish)

/-- The checks before `NominationProtocol::processEnvelope`. -/
structure Reaches (config : SlotConfig) (driver : NominationDriver)
    (envelope : NominationEnvelope) : Prop where
  foreign : envelope.statement.nodeID ≠ config.getLocalNodeID
  verified : driver.verifyNomination envelope = true
  indexed : envelope.statement.slotIndex = config.mSlotIndex

theorem receiveNomination_receives {fuel : Nat}
    {envelope : NominationEnvelope} (slot : NominationSlot) :
    Ends (receiveNomination config fuel driver envelope) slot
      (fun _ finish => Receives config envelope slot finish ∧
        (Reaches config driver envelope →
          slot.nomination.isNewerFor envelope.statement.nodeID
            envelope.statement.nominate = true →
          envelope.statement.nominate.isSane = true →
            KeepsForeign config (slot.recording envelope) finish))
      (fun _ _ => True) := by
  unfold receiveNomination
  rw [Ends.ite_iff]
  constructor
  · intro dropped
    refine ⟨.kept fun _ _ => rfl, fun reaches => ?_⟩
    rcases dropped with own | unverified | other
    · exact absurd own reaches.foreign
    · rw [reaches.verified] at unverified
      cases unverified
    · exact absurd reaches.indexed other
  · intro _
    have emits : Keeps (emitNomination config driver
        (processNominationAt config driver fuel)) (KeepsForeign config) :=
      emitNominationAt_keeps fuel
    rw [Ends.bind_iff]
    unfold processNominationAt processNomination visitNomination
      getNomination recordNomination
    simp only [Ends.bind_iff, Ends.modify_iff, Ends.get_iff, Ends.pure_iff,
      Ends.ite_iff, Bool.and_eq_true]
    constructor
    · rintro ⟨newer, sane⟩
      have goesOn : Keeps (whenTrue slot.nomination.mNominationStarted
          (promoteValues config driver (emitNomination config driver
            (processNominationAt config driver fuel))
            envelope.statement)) (KeepsForeign config) :=
        whenTrue_keeps (promoteValues_keeps emits)
      refine (goesOn _).mono ?_ (fun _ _ _ => trivial)
      intro _ finish kept
      exact ⟨.recorded newer sane kept, fun _ _ _ => kept⟩
    · intro refused
      exact ⟨.kept fun _ _ => rfl,
        fun _ newer sane => absurd ⟨newer, sane⟩ refused⟩

theorem performNomination_keeps {fuel : Nat} {input : NominationInput}
    (other : ∀ envelope, input ≠ .receiveEnvelope envelope) :
    Keeps (performNomination config fuel driver input)
      (KeepsForeign config) := by
  have emits : Keeps (emitNomination config driver
      (processNominationAt config driver fuel)) (KeepsForeign config) :=
    emitNominationAt_keeps fuel
  cases input with
  | receiveEnvelope envelope => exact absurd rfl (other envelope)
  | nominate value previousValue =>
      exact .ite (.bind (nominate_keeps emits) fun _ => .of_pure) .of_throw
  | nominationTimerExpired value previousValue =>
      exact .bind (nominate_keeps emits) fun _ => .of_pure
  | stopNomination => exact modifyNomination_keeps fun _ => rfl
  | ballot input => exact runBallot_keeps

end NominationSlot

/-! ## Runs of the nomination protocol -/

/-- What the process has recorded for a node. -/
def NominationProcess.latest (process : NominationProcess)
    (node : NodeID) : Option NominationEnvelope :=
  process.slot.nomination.mLatestNominations.lookup node

/-- The nomination in that record. -/
def NominationProcess.nominated (process : NominationProcess)
    (node : NodeID) : Option SCPNomination :=
  (process.latest node).map (fun envelope => envelope.statement.nominate)

section NominationRuns

variable {config : SlotConfig} {fuel : Nat} {node : NodeID}
  {earlier later : List (NominationDriver × NominationInput)}

/-- One input changes the record of another node only if it delivers an
envelope of that node, which is newer and sane. -/
inductive HandlesRecord (process after : NominationProcess)
    (input : NominationInput) (node : NodeID) : Prop where
  | kept (same : after.latest node = process.latest node)
  | recorded (envelope : NominationEnvelope)
      (delivered : input = .receiveEnvelope envelope)
      (sender : envelope.statement.nodeID = node)
      (newer : process.slot.nomination.isNewerFor node
        envelope.statement.nominate = true)
      (sane : envelope.statement.nominate.isSane = true)
      (held : after.latest node = some envelope)

private theorem recording_latest {slot finish : NominationSlot}
    {envelope : NominationEnvelope}
    (foreign : node ≠ config.getLocalNodeID)
    (kept : NominationSlot.KeepsForeign config (slot.recording envelope)
      finish) :
    finish.nomination.mLatestNominations.lookup node =
      if node = envelope.statement.nodeID then some envelope
      else slot.nomination.mLatestNominations.lookup node := by
  rw [kept node foreign, NominationSlot.recording]
  by_cases here : node = envelope.statement.nodeID
  · subst here
    simp
  · simp [here, AList.lookup_insert_ne here]

theorem NominationProcess.handle_record {process : NominationProcess}
    {input : NominationDriver × NominationInput}
    (alive : (process.handle config fuel input).failure = none)
    (foreign : node ≠ config.getLocalNodeID) :
    HandlesRecord process (process.handle config fuel input) input.2
      node := by
  obtain ⟨driver, input⟩ := input
  unfold NominationProcess.handle at alive ⊢
  cases failure : process.failure with
  | some reason => simp [failure] at alive
  | none =>
      simp only [failure] at alive ⊢
      cases outcome : performNomination config fuel driver input
          process.slot with
      | error reason finish => simp [outcome] at alive
      | ok result finish =>
          simp only
          by_cases receives : ∃ envelope,
              input = .receiveEnvelope envelope
          · obtain ⟨envelope, rfl⟩ := receives
            have received :=
              ((NominationSlot.receiveNomination_receives
                process.slot).of_ok outcome).1
            cases received with
            | kept same => exact .kept (same node foreign)
            | recorded newer sane same =>
                have held := recording_latest foreign same
                by_cases here : node = envelope.statement.nodeID
                · subst here
                  rw [if_pos rfl] at held
                  exact .recorded envelope rfl rfl newer sane held
                · rw [if_neg here] at held
                  exact .kept held
          · push Not at receives
            exact .kept ((NominationSlot.performNomination_keeps receives
              process.slot).of_ok outcome node foreign)

theorem NominationProcess.handle_delivers {process : NominationProcess}
    {driver : NominationDriver} {envelope : NominationEnvelope}
    (alive : (process.handle config fuel
      (driver, .receiveEnvelope envelope)).failure = none)
    (reaches : NominationSlot.Reaches config driver envelope)
    (newer : process.slot.nomination.isNewerFor envelope.statement.nodeID
      envelope.statement.nominate = true)
    (sane : envelope.statement.nominate.isSane = true) :
    (process.handle config fuel (driver, .receiveEnvelope envelope)).latest
      envelope.statement.nodeID = some envelope := by
  unfold NominationProcess.handle at alive ⊢
  cases failure : process.failure with
  | some reason => simp [failure] at alive
  | none =>
      simp only [failure] at alive ⊢
      cases outcome : performNomination config fuel driver
          (.receiveEnvelope envelope) process.slot with
      | error reason finish => simp [outcome] at alive
      | ok result finish =>
          have kept := ((NominationSlot.receiveNomination_receives
            process.slot).of_ok outcome).2 reaches newer sane
          have held := recording_latest reaches.foreign kept
          rw [if_pos rfl] at held
          exact held

theorem NominationProcess.handle_alive {process : NominationProcess}
    {input : NominationDriver × NominationInput}
    (alive : (process.handle config fuel input).failure = none) :
    process.failure = none := by
  by_contra failed
  obtain ⟨reason, failure⟩ := Option.ne_none_iff_exists'.mp failed
  unfold NominationProcess.handle at alive
  simp [failure] at alive

theorem runNomination_concat
    (input : NominationDriver × NominationInput) :
    runNomination config fuel (earlier ++ [input]) =
      (runNomination config fuel earlier).handle config fuel input := by
  unfold runNomination
  rw [List.foldl_concat]

theorem runNomination_alive
    (alive : (runNomination config fuel (earlier ++ later)).failure =
      none) : (runNomination config fuel earlier).failure = none := by
  induction later using List.reverseRecOn with
  | nil => rwa [List.append_nil] at alive
  | append_singleton later input ih =>
      rw [← List.append_assoc, runNomination_concat] at alive
      exact ih (NominationProcess.handle_alive alive)

/-- The record of another node is sane and was delivered. -/
theorem runNomination_delivered
    (foreign : node ≠ config.getLocalNodeID)
    (alive : (runNomination config fuel earlier).failure = none) :
    ∀ envelope ∈ (runNomination config fuel earlier).latest node,
      envelope.statement.nodeID = node ∧
        envelope.statement.nominate.isSane = true ∧
        ∃ driver, (driver, .receiveEnvelope envelope) ∈ earlier := by
  induction earlier using List.reverseRecOn with
  | nil =>
      intro envelope held
      simp [runNomination, NominationProcess.start,
        NominationProcess.latest] at held
  | append_singleton earlier input ih =>
      rw [runNomination_concat] at alive ⊢
      have before := ih (NominationProcess.handle_alive alive)
      intro envelope held
      cases NominationProcess.handle_record alive foreign with
      | kept same =>
          rw [same] at held
          obtain ⟨sender, sane, driver, member⟩ := before envelope held
          exact ⟨sender, sane, driver, List.mem_append_left _ member⟩
      | recorded recorded delivered sender newer sane here =>
          rw [here] at held
          cases held
          refine ⟨sender, sane, input.1, ?_⟩
          rw [← delivered]
          simp

private theorem nominated_sane (foreign : node ≠ config.getLocalNodeID)
    (alive : (runNomination config fuel earlier).failure = none) :
    ∀ nom ∈ (runNomination config fuel earlier).nominated node,
      nom.isSane = true := by
  intro nom held
  obtain ⟨envelope, found, equal⟩ := Option.map_eq_some_iff.mp held
  rw [← equal]
  exact (runNomination_delivered foreign alive envelope found).2.1

/-- The record of another node never goes back. -/
theorem runNomination_forward (foreign : node ≠ config.getLocalNodeID)
    (alive : (runNomination config fuel (earlier ++ later)).failure =
      none) :
    Forward SCPNomination.isNewerStatement
      ((runNomination config fuel earlier).nominated node)
      ((runNomination config fuel (earlier ++ later)).nominated node) := by
  induction later using List.reverseRecOn with
  | nil =>
      rw [List.append_nil]
      exact .refl _
  | append_singleton later input ih =>
      have aliveEarlier := runNomination_alive alive
      rw [← List.append_assoc] at alive ⊢
      have aliveMiddle := runNomination_alive alive
      refine (ih aliveMiddle).trans SCPNomination.isNewerStatement_order
        (nominated_sane foreign aliveEarlier)
        (nominated_sane foreign aliveMiddle)
        (nominated_sane foreign alive) ?_
      rw [runNomination_concat] at alive ⊢
      cases NominationProcess.handle_record alive foreign with
      | kept same =>
          rw [NominationProcess.nominated, NominationProcess.nominated, same]
          exact .refl _
      | recorded envelope delivered sender newer sane held =>
          intro old oldHeld
          obtain ⟨recorded, found, equal⟩ :=
            Option.map_eq_some_iff.mp oldHeld
          refine ⟨envelope.statement.nominate, ?_, .inr ?_⟩
          · rw [NominationProcess.nominated, held]
            rfl
          · have lookup : AList.lookup node (runNomination config fuel
                (earlier ++ later)).slot.nomination.mLatestNominations =
                some recorded := found
            rw [NominationProtocol.isNewerFor, lookup] at newer
            exact equal ▸ newer

/-- The nominations of a node that arrive in a run. -/
def DeliversNominations
    (inputs : List (NominationDriver × NominationInput)) (node : NodeID)
    (issued : List SCPNomination) : Prop :=
  ∀ driver envelope, (driver, .receiveEnvelope envelope) ∈ inputs →
    envelope.statement.nodeID = node →
      envelope.statement.nominate ∈ issued

theorem nominated_mem {issued : List SCPNomination}
    (foreign : node ≠ config.getLocalNodeID)
    (delivers : DeliversNominations earlier node issued)
    (alive : (runNomination config fuel earlier).failure = none) :
    ∀ nom ∈ (runNomination config fuel earlier).nominated node,
      nom ∈ issued := by
  intro nom held
  obtain ⟨envelope, found, equal⟩ := Option.map_eq_some_iff.mp held
  obtain ⟨sender, _, driver, member⟩ :=
    runNomination_delivered foreign alive envelope found
  rw [← equal]
  exact delivers driver envelope member sender

/-- After the arrival of the last nomination of a node its record is that
nomination. -/
theorem runNomination_nominated_eq {driver : NominationDriver}
    {envelope : NominationEnvelope} {issued : List SCPNomination}
    (sane : ∀ nom ∈ issued ++ [envelope.statement.nominate],
      nom.isSane = true)
    (increasing : (issued ++ [envelope.statement.nominate]).Pairwise
      (fun nom nom' => nom.isNewerStatement nom' = true))
    (delivers : DeliversNominations
      (earlier ++ (driver, .receiveEnvelope envelope) :: later)
      envelope.statement.nodeID
      (issued ++ [envelope.statement.nominate]))
    (alive : (runNomination config fuel
      (earlier ++ (driver, .receiveEnvelope envelope) :: later)).failure =
        none)
    (reaches : NominationSlot.Reaches config driver envelope) :
    (runNomination config fuel
      (earlier ++ (driver, .receiveEnvelope envelope) :: later)).nominated
        envelope.statement.nodeID = some envelope.statement.nominate := by
  have foreign := reaches.foreign
  have fromIssued := nominated_mem foreign delivers alive
  have deliversEarlier : DeliversNominations earlier
      envelope.statement.nodeID
      (issued ++ [envelope.statement.nominate]) :=
    fun other received member =>
      delivers other received (List.mem_append_left _ member)
  have aliveEarlier := runNomination_alive alive
  have forward : Forward SCPNomination.isNewerStatement
      (some envelope.statement.nominate)
      ((runNomination config fuel
        (earlier ++ (driver, .receiveEnvelope envelope) ::
          later)).nominated envelope.statement.nodeID) := by
    by_cases already : (runNomination config fuel earlier).nominated
        envelope.statement.nodeID = some envelope.statement.nominate
    · rw [← already]
      exact runNomination_forward foreign alive
    · have split : earlier ++ (driver, .receiveEnvelope envelope) ::
          later = (earlier ++ [(driver, .receiveEnvelope envelope)]) ++
            later := by simp
      rw [split] at alive ⊢
      have newer : (runNomination config fuel
          earlier).slot.nomination.isNewerFor envelope.statement.nodeID
            envelope.statement.nominate = true := by
        unfold NominationProtocol.isNewerFor
        cases found : (runNomination config fuel
            earlier).slot.nomination.mLatestNominations.lookup
              envelope.statement.nodeID with
        | none => rfl
        | some old =>
            have held : (runNomination config fuel earlier).nominated
                envelope.statement.nodeID =
                  some old.statement.nominate := by
              rw [NominationProcess.nominated, NominationProcess.latest,
                found]
              rfl
            refine newer_of_ne_last increasing
              (nominated_mem foreign deliversEarlier aliveEarlier _
                held) ?_
            intro same
            exact already (held.trans (congrArg some same))
      have aliveMiddle := runNomination_alive alive
      have arrived : (runNomination config fuel
          (earlier ++ [(driver, .receiveEnvelope envelope)])).nominated
            envelope.statement.nodeID =
              some envelope.statement.nominate := by
        rw [runNomination_concat] at aliveMiddle ⊢
        rw [NominationProcess.nominated,
          NominationProcess.handle_delivers aliveMiddle reaches newer
            (sane _ (by simp))]
        rfl
      rw [← arrived]
      exact runNomination_forward foreign alive
  exact forward.eq_last SCPNomination.isNewerStatement_order sane
    increasing fromIssued

end NominationRuns

/-! ## Statements that arrive in any order -/

/-- The ballot statements of a node, issued in increasing order, arrive in a
run that is still going on: the record of the node never goes back, and after
an arrival of the last one that passes the other checks it is the last
one. -/
structure RecordsBallots (config : SlotConfig) (node : NodeID)
    (issued : List SCPStatement) (inputs : List Input) : Prop where
  forward : ∀ earlier later, inputs = earlier ++ later →
    Forward isNewerStatement ((runInputs config earlier).latest node)
      ((runInputs config inputs).latest node)
  last : ∀ before envelope earlier later,
    issued = before ++ [envelope.statement] →
    envelope.statement.nodeID = node →
    inputs = earlier ++ .receiveEnvelope envelope :: later →
    PassesOtherChecks config (runInputs config earlier).slot envelope →
      (runInputs config inputs).latest node = some envelope.statement

/-- The same for the nominations of a node. -/
structure RecordsNominations (config : SlotConfig) (fuel : Nat)
    (node : NodeID) (issued : List SCPNomination)
    (inputs : List (NominationDriver × NominationInput)) : Prop where
  forward : ∀ earlier later, inputs = earlier ++ later →
    Forward SCPNomination.isNewerStatement
      ((runNomination config fuel earlier).nominated node)
      ((runNomination config fuel inputs).nominated node)
  last : ∀ before driver envelope earlier later,
    issued = before ++ [envelope.statement.nominate] →
    envelope.statement.nodeID = node →
    inputs = earlier ++ (driver, .receiveEnvelope envelope) :: later →
    NominationSlot.Reaches config driver envelope →
      (runNomination config fuel inputs).nominated node =
        some envelope.statement.nominate

theorem statements_recorded_in_order (config : SlotConfig) (fuel : Nat)
    (node : NodeID) (foreign : node ≠ config.getLocalNodeID) :
    NewerOn isNewerStatement (fun _ => True) ∧
    NewerOn SCPNomination.isNewerStatement
      (fun nom => nom.isSane = true) ∧
    (∀ issued inputs,
      issued.Pairwise (fun st st' => isNewerStatement st st' = true) →
      Delivers inputs node issued →
      (runInputs config inputs).failure = none →
        RecordsBallots config node issued inputs) ∧
    (∀ issued inputs, (∀ nom ∈ issued, nom.isSane = true) →
      issued.Pairwise
        (fun nom nom' => nom.isNewerStatement nom' = true) →
      DeliversNominations inputs node issued →
      (runNomination config fuel inputs).failure = none →
        RecordsNominations config fuel node issued inputs) := by
  refine ⟨isNewerStatement_order, SCPNomination.isNewerStatement_order,
    ?_, ?_⟩
  · intro issued inputs increasing delivers alive
    constructor
    · intro earlier later split
      subst split
      exact (runInputs_append alive).forward
    · intro before envelope earlier later last sender split passes
      subst last sender split
      exact runInputs_latest_eq increasing delivers alive passes
  · intro issued inputs sane increasing delivers alive
    constructor
    · intro earlier later split
      subst split
      exact runNomination_forward foreign alive
    · intro before driver envelope earlier later last sender split reaches
      subst last sender split
      exact runNomination_nominated_eq sane increasing delivers alive
        reaches

/-- Two statements of node 2, the second at the higher counter. -/
def issuedByTwo (counter : Uint32) : SCPEnvelope :=
  ⟨statementOf 2 (.prepare (prepareOf 2 ⟨counter, [2]⟩ none none 0 0)), []⟩

theorem issuedByTwo_recorded :
    (runInputs (smallSlot ⟨1, [1], []⟩)
      [.receiveEnvelope (issuedByTwo 2), .receiveEnvelope (issuedByTwo 1),
        .receiveEnvelope (issuedByTwo 2)]).latest 2 =
      some (issuedByTwo 2).statement := by
  have delivers : Delivers
      [.receiveEnvelope (issuedByTwo 2), .receiveEnvelope (issuedByTwo 1),
        .receiveEnvelope (issuedByTwo 2)] 2
      [(issuedByTwo 1).statement, (issuedByTwo 2).statement] := by
    intro envelope member _
    simp only [List.mem_cons, Input.receiveEnvelope.injEq,
      List.not_mem_nil, or_false] at member
    rcases member with same | same | same
    · simp [same]
    · simp [same]
    · simp [same]
  have passes : PassesOtherChecks (smallSlot ⟨1, [1], []⟩)
      (runInputs (smallSlot ⟨1, [1], []⟩) []).slot (issuedByTwo 2) :=
    ⟨by decide, rfl, rfl, ⟨_, rfl, by decide⟩, by decide, by decide,
      fun ended => by cases ended⟩
  exact ((statements_recorded_in_order (smallSlot ⟨1, [1], []⟩) 0 2
    (by decide)).2.2.1 _ _ (by decide) delivers (by decide +kernel)).last
      [(issuedByTwo 1).statement] (issuedByTwo 2) [] _ rfl rfl rfl passes

/-- Node 1 externalizes the value `[1]`, and the node with it; the only
statement of node 2 is sane and valid but works on another value. -/
def externalizedFirst : List Input :=
  [receiveFrom 1 (.externalize
      { commit := ⟨1, [1]⟩
        nH := 1
        commitQuorumSetHash := 1 }),
    .receiveEnvelope (issuedByTwo 1)]

theorem issuedByTwo_refused :
    arePledgesSane (issuedByTwo 1).statement.pledges false = true ∧
    validateValues (smallSlot ⟨1, [1], []⟩) (issuedByTwo 1).statement =
      .kFullyValidatedValue ∧
    (runInputs (smallSlot ⟨1, [1], []⟩) externalizedFirst).failure = none ∧
    .receiveEnvelope (issuedByTwo 1) ∈ externalizedFirst ∧
    (runInputs (smallSlot ⟨1, [1], []⟩) externalizedFirst).latest 2 ≠
      some (issuedByTwo 1).statement := by
  refine ⟨by decide, by decide, by decide +kernel, ?_, by decide +kernel⟩
  simp [externalizedFirst]

end StellarCore.Scp
