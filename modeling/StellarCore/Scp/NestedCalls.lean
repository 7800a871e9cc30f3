import StellarCore.Scp.Settling

/-!
# Nested calls of advanceSlot

The nesting level counts the calls of `advanceSlot` that are under way.  A
nested call works on a statement the node has just published, so what its
attempts can still do is bounded by how far the node has settled.  The rules
below follow the programs on the members that matter for this; a program
`Leads` to a postcondition when the only failures left are those that are not
about the depth of the recursion and no visited state was too deep.
-/

namespace StellarCore.Scp

open StellarCore.Lib

/-- The deepest nesting level a call of `advanceSlot` reaches. -/
def deepestLevel : Nat := 7

/-- The members that decide what the node does next. -/
def Slot.core (slot : Slot) : BallotProtocol :=
  { slot.mBallotProtocol with
    mHeardFromQuorum := true
    mLastEnvelope := none
    mLastEnvelopeEmit := none }

/-- No visit of the run was at a level that is too deep. -/
def Slot.Shallow (slot : Slot) : Prop :=
  ∀ visit ∈ slot.visits,
    visit.ballotProtocol.mCurrentMessageLevel ≤ deepestLevel

/-- A failure that no bound on the recursion or the loop has caused. -/
def Failure.Bounded (reason : Failure) : Prop :=
  reason ≠ .maximumNumberOfTransitions ∧ reason ≠ .bumpLoopExhausted

/-- The program stays shallow and ends as `post` says, or fails for a reason
that is not about the recursion. -/
def Leads {α : Type} (program : BallotM α) (slot : Slot)
    (post : α → BallotProtocol → Prop) : Prop :=
  slot.Shallow → Ends program slot
    (fun value finish => finish.Shallow ∧ post value finish.core)
    (fun reason finish => finish.Shallow ∧ reason.Bounded)

namespace Leads

variable {α β : Type} {program : BallotM α} {slot : Slot}
  {post : α → BallotProtocol → Prop}

theorem of_pure {value : α} (holds : post value slot.core) :
    Leads (pure value) slot post :=
  fun shallow => ⟨shallow, holds⟩

theorem bind {next : α → BallotM β} {middle : α → BallotProtocol → Prop}
    {post : β → BallotProtocol → Prop} (first : Leads program slot middle)
    (second : ∀ value later, middle value later.core →
      Leads (next value) later post) :
    Leads (program >>= next) slot post := by
  intro shallow
  rw [Ends.bind_iff]
  exact (first shallow).mono
    (fun value later reached => second value later reached.2 reached.1)
    (fun _ _ failed => failed)

theorem mono {post' : α → BallotProtocol → Prop}
    (leads : Leads program slot post)
    (weaker : ∀ value core, post value core → post' value core) :
    Leads program slot post' := by
  intro shallow
  exact (leads shallow).mono
    (fun value finish reached => ⟨reached.1, weaker _ _ reached.2⟩)
    (fun _ _ failed => failed)

theorem ite {condition : Prop} [Decidable condition]
    {other : BallotM α} (yes : condition → Leads program slot post)
    (no : ¬ condition → Leads other slot post) :
    Leads (if condition then program else other) slot post := by
  intro shallow
  rw [Ends.ite_iff]
  exact ⟨fun holds => yes holds shallow, fun fails => no fails shallow⟩

end Leads

section Rules

variable {config : SlotConfig} {slot : Slot}

theorem get_leads {α : Type} {next : Slot → BallotM α}
    {post : α → BallotProtocol → Prop}
    (rest : Leads (next slot) slot post) :
    Leads (get >>= next) slot post := by
  intro shallow
  rw [Ends.bind_iff, Ends.get_iff]
  exact rest shallow

theorem getBallotProtocol_leads {α : Type}
    {next : BallotProtocol → BallotM α}
    {post : α → BallotProtocol → Prop}
    (rest : Leads (next slot.mBallotProtocol) slot post) :
    Leads (getBallotProtocol >>= next) slot post := by
  intro shallow
  rw [Ends.bind_iff, getBallotProtocol_ends]
  exact rest shallow

theorem modifyBallotProtocol_leads {α : Type}
    {change : BallotProtocol → BallotProtocol} {next : Unit → BallotM α}
    {post : α → BallotProtocol → Prop}
    (rest : Leads (next ()) { slot with
      mBallotProtocol := change slot.mBallotProtocol } post) :
    Leads (modifyBallotProtocol change >>= next) slot post := by
  intro shallow
  rw [Ends.bind_iff, modifyBallotProtocol_ends]
  exact rest shallow

theorem callDriver_leads {α : Type} {call : DriverCall}
    {next : Unit → BallotM α} {post : α → BallotProtocol → Prop}
    (rest : Leads (next ()) { slot with
      driverCalls := slot.driverCalls ++ [call] } post) :
    Leads (callDriver call >>= next) slot post := by
  intro shallow
  rw [Ends.bind_iff, callDriver_ends]
  exact rest shallow

theorem dbgAssert_leads {α : Type} {site : Site} {expression : Bool}
    {next : Unit → BallotM α} {post : α → BallotProtocol → Prop}
    (rest : expression = true → Leads (next ()) slot post) :
    Leads (dbgAssert site expression >>= next) slot post := by
  intro shallow
  rw [Ends.bind_iff, dbgAssert_ends]
  refine ⟨fun holds => rest holds shallow, fun _ => ⟨shallow, ?_⟩⟩
  exact ⟨by simp, by simp⟩

theorem dereference_leads {α β : Type} {site : Site} {pointer : Option β}
    {next : β → BallotM α} {post : α → BallotProtocol → Prop}
    (rest : ∀ value, pointer = some value →
      Leads (next value) slot post) :
    Leads (dereference site pointer >>= next) slot post := by
  intro shallow
  rw [Ends.bind_iff, dereference_ends]
  refine ⟨fun value set => rest value set shallow,
    fun _ => ⟨shallow, ?_⟩⟩
  exact ⟨by simp, by simp⟩

/-- The beginning of an attempt at a level that is not too deep. -/
theorem visiting_leads {α : Type} {attempt : Attempt}
    {next : BallotProtocol → BallotM α}
    {post : α → BallotProtocol → Prop}
    (level : slot.core.mCurrentMessageLevel ≤ deepestLevel)
    (rest : Leads (next slot.mBallotProtocol) (slot.visiting attempt)
      post) :
    Leads (do visit attempt; let bp ← getBallotProtocol; next bp) slot
      post := by
  intro shallow
  rw [visiting_ends]
  refine rest ?_
  intro visit member
  rcases List.mem_append.mp member with earlier | last
  · exact shallow visit earlier
  · rw [List.mem_singleton.mp last]
    exact level

theorem startBallotProtocolTimer_leads :
    Leads startBallotProtocolTimer slot (fun _ core => core = slot.core) := by
  unfold startBallotProtocolTimer
  refine getBallotProtocol_leads (dereference_leads fun current _ => ?_)
  intro shallow
  rw [callDriver_ends]
  exact ⟨shallow, rfl⟩

theorem bumpToBallot_leads (ballot : SCPBallot) (check : Bool) :
    Leads (bumpToBallot ballot check) slot
      (fun _ core =>
        core = { slot.core with mCurrentBallot := some ballot }) := by
  have bumped : Leads
      (do
        modifyBallotProtocol fun bp =>
          { bp with
            mCurrentBallot := some ballot, mHeardFromQuorum := false }
        if slot.mBallotProtocol.mCurrentBallot ≠ some ballot then
          startBallotProtocolTimer)
      slot (fun _ core =>
        core = { slot.core with mCurrentBallot := some ballot }) := by
    refine modifyBallotProtocol_leads (.ite (fun _ => ?_) (fun _ => ?_))
    · exact startBallotProtocolTimer_leads.mono (fun _ _ same => same)
    · exact .of_pure rfl
  unfold bumpToBallot
  refine getBallotProtocol_leads (dbgAssert_leads fun _ => ?_)
  cases check with
  | true => exact dbgAssert_leads fun _ => bumped
  | false => exact bumped

theorem updateCurrentIfNeeded_leads {high : SCPBallot}
    (set : slot.core.mHighBallot = some high) :
    Leads updateCurrentIfNeeded slot
      (fun _ core => core = { slot.core with
        mCurrentBallot := raiseTo slot.core.mCurrentBallot high }) := by
  unfold updateCurrentIfNeeded
  refine getBallotProtocol_leads (dereference_leads fun high' set' => ?_)
  have equal : high' = high := Option.some.inj (set'.symm.trans set)
  subst equal
  refine .ite (fun below => ?_) (fun notBelow => .of_pure ?_)
  · refine (bumpToBallot_leads high' true).mono ?_
    intro _ core bumped
    have raised : raiseTo slot.core.mCurrentBallot high' = some high' := by
      show raiseTo slot.mBallotProtocol.mCurrentBallot high' = _
      cases current : slot.mBallotProtocol.mCurrentBallot with
      | none => rfl
      | some b =>
          simp only [current, Option.all_some, decide_eq_true_eq,
            compareBallots_neg_iff] at below
          simp [raiseTo, below]
    rw [raised]
    exact bumped
  · have kept : raiseTo slot.core.mCurrentBallot high' =
        slot.core.mCurrentBallot := by
      show raiseTo slot.mBallotProtocol.mCurrentBallot high' =
        slot.mBallotProtocol.mCurrentBallot
      cases current : slot.mBallotProtocol.mCurrentBallot with
      | none => simp [current] at notBelow
      | some b =>
          simp only [current, Option.all_some, decide_eq_true_eq,
            compareBallots_neg_iff] at notBelow
          simp [raiseTo, notBelow]
    rw [kept]

theorem enterConfirm_leads (h : SCPBallot) :
    Leads (enterConfirm h) slot
      (fun _ core => core = { slot.core with
        mPhase := .confirm
        mCurrentBallot :=
          if slot.core.mCurrentBallot.any
              (fun current => !areBallotsLessAndCompatible h current) then
            some h
          else slot.core.mCurrentBallot
        mPreparedPrime := none }) := by
  have cleared : ∀ later : Slot, Leads
      (modifyBallotProtocol fun bp => { bp with mPreparedPrime := none })
      later
      (fun _ core => core = { later.core with mPreparedPrime := none }) := by
    intro later shallow
    rw [modifyBallotProtocol_ends]
    exact ⟨shallow, rfl⟩
  unfold enterConfirm
  refine modifyBallotProtocol_leads (getBallotProtocol_leads ?_)
  refine .ite (fun bumps => ?_) (fun keeps => ?_)
  · refine .bind (bumpToBallot_leads h false) ?_
    intro _ later bumped
    refine (cleared later).mono ?_
    intro _ core reached
    have lower : slot.core.mCurrentBallot.any
      (fun current => !areBallotsLessAndCompatible h current) = true := bumps
    rw [reached, bumped, if_pos lower]
    rfl
  · refine (cleared _).mono ?_
    intro _ core reached
    have above : ¬ slot.core.mCurrentBallot.any
      (fun current => !areBallotsLessAndCompatible h current) = true := keeps
    rw [reached, if_neg above]
    rfl

theorem checkInvariants_leads :
    Leads checkInvariants slot
      (fun _ core => core = slot.core ∧ slot.core.ballots.Consistent) := by
  intro shallow
  refine checkInvariants_ends.mono ?_ ?_
  · rintro _ finish ⟨rfl, consistent⟩
    exact ⟨shallow, rfl, consistent⟩
  · rintro reason finish ⟨rfl, cause, _⟩
    rcases cause with abort | null
    · rw [abort]
      exact ⟨shallow, by simp, by simp⟩
    · rw [null]
      exact ⟨shallow, by simp, by simp⟩

theorem createStatement_leads :
    Leads (createStatement config slot.core.mPhase) slot
      (fun pledges core => core = slot.core ∧
        slot.core.ballots.Consistent ∧
        slot.core.ballots.pledges config = some pledges) := by
  unfold createStatement
  refine .bind checkInvariants_leads ?_
  rintro _ later ⟨same, consistent⟩
  refine getBallotProtocol_leads ?_
  rw [← same] at consistent ⊢
  cases phase : later.core.mPhase with
  | prepare =>
      refine .of_pure ⟨rfl, consistent, ?_⟩
      simp only [Ballots.pledges, BallotProtocol.ballots_phase, phase]
      rfl
  | confirm =>
      refine dereference_leads fun commit commitSet => ?_
      refine dereference_leads fun high highSet => ?_
      refine dbgAssert_leads fun _ => ?_
      refine dereference_leads fun current currentSet => ?_
      refine dereference_leads fun prepared preparedSet => ?_
      refine .of_pure ⟨rfl, consistent, ?_⟩
      have commitCore : later.core.mCommit = some commit := commitSet
      have highCore : later.core.mHighBallot = some high := highSet
      have currentCore : later.core.mCurrentBallot = some current :=
        currentSet
      have preparedCore : later.core.mPrepared = some prepared :=
        preparedSet
      simp only [Ballots.pledges, BallotProtocol.ballots_phase, phase,
        BallotProtocol.ballots_commit, BallotProtocol.ballots_high,
        BallotProtocol.ballots_current, BallotProtocol.ballots_prepared,
        commitCore, highCore, currentCore, preparedCore]
  | externalize =>
      refine dereference_leads fun commit commitSet => ?_
      refine dereference_leads fun high highSet => ?_
      refine dbgAssert_leads fun _ => ?_
      refine .of_pure ⟨rfl, consistent, ?_⟩
      have commitCore : later.core.mCommit = some commit := commitSet
      have highCore : later.core.mHighBallot = some high := highSet
      simp only [Ballots.pledges, BallotProtocol.ballots_phase, phase,
        BallotProtocol.ballots_commit, BallotProtocol.ballots_high,
        commitCore, highCore]

end Rules

/-! ## Publishing -/

/-- The protocol with one more recorded envelope. -/
def BallotProtocol.recording (bp : BallotProtocol)
    (envelope : SCPEnvelope) : BallotProtocol :=
  { bp with
    mLatestEnvelopes :=
      bp.mLatestEnvelopes.insert envelope.statement.nodeID envelope }

section Publication

variable {config : SlotConfig} {slot : Slot}
  {advanceSlot : SCPStatement → BallotM Unit}

theorem sendLatestEnvelope_leads :
    Leads sendLatestEnvelope slot (fun _ core => core = slot.core) := by
  intro shallow
  unfold sendLatestEnvelope
  simp only [Ends.bind_iff, Ends.get_iff]
  cases slot.mBallotProtocol.mLastEnvelope with
  | none => exact ⟨shallow, rfl⟩
  | some last =>
      simp only [Ends.ite_iff, Ends.bind_iff, modifyBallotProtocol_ends,
        callDriver_ends, Ends.pure_iff]
      exact ⟨fun _ => ⟨shallow, rfl⟩, fun _ => ⟨shallow, trivial⟩⟩

theorem makeLastEnvelope_leads {envelope : SCPEnvelope} :
    Leads (makeLastEnvelope envelope) slot
      (fun _ core => core = slot.core) := by
  intro shallow
  unfold makeLastEnvelope
  rw [Ends.modify_iff]
  exact ⟨shallow, rfl⟩

/-- The end of `emitCurrentStateStatement`. -/
theorem handEnvelope_leads (canEmit : Bool) (envelope : SCPEnvelope) :
    Leads
      (do
        let bp ← getBallotProtocol
        if canEmit && bp.mLastEnvelope.all (fun last =>
            isNewerStatement last.value.statement envelope.statement) then
          makeLastEnvelope envelope
          sendLatestEnvelope)
      slot (fun _ core => core = slot.core) := by
  refine getBallotProtocol_leads (.ite (fun _ => ?_) (fun _ => .of_pure rfl))
  refine .bind makeLastEnvelope_leads fun _ later same => ?_
  exact sendLatestEnvelope_leads.mono (fun _ _ kept => kept.trans same)

theorem processEnvelope_leads {envelope : SCPEnvelope} {self : Bool}
    {post : EnvelopeState → BallotProtocol → Prop}
    (indexed : envelope.statement.slotIndex = config.mSlotIndex)
    (rejected : post .invalid slot.core)
    (nested : ∀ later, later.core = slot.core.recording envelope →
      slot.core.mPhase ≠ .externalize →
      Leads (advanceSlot envelope.statement) later
        (fun _ => post .valid))
    (final : slot.core.mPhase = .externalize →
      post .valid (slot.core.recording envelope)) :
    Leads (processEnvelope config advanceSlot envelope self) slot post := by
  intro shallow
  refine processEnvelope_ends indexed ⟨shallow, by simp, by simp⟩
    (fun _ => ⟨shallow, rejected⟩) ?_ (fun _ _ => ⟨shallow, by simp,
      by simp⟩) ?_
  · intro _ running flag
    exact nested (slot.recorded flag envelope) rfl running shallow
  · intro _ ended commit _
    split
    · exact ⟨shallow, final ended⟩
    · exact ⟨shallow, rejected⟩

theorem Publishes.recording {bp : BallotProtocol} {pledges : Pledges}
    (consistent : bp.ballots.Consistent)
    (built : bp.ballots.pledges config = some pledges) :
    Publishes config pledges
      (bp.recording (config.createEnvelope pledges)) :=
  ⟨consistent, built, by simp [BallotProtocol.recording]⟩

/-- The rule for publishing: nothing new is published, or a nested call works
on the new statement, or the slot has ended. -/
theorem emitCurrentStateStatement_leads {post : BallotProtocol → Prop}
    (same : ∀ pledges, Publishes config pledges slot.core →
      post slot.core)
    (nested : ∀ pledges later,
      later.core = slot.core.recording (config.createEnvelope pledges) →
      Publishes config pledges later.core →
      slot.core.mPhase ≠ .externalize →
      Leads (advanceSlot (config.statement pledges)) later
        (fun _ => post))
    (final : ∀ pledges, slot.core.mPhase = .externalize →
      post (slot.core.recording (config.createEnvelope pledges))) :
    Leads (emitCurrentStateStatement config advanceSlot) slot
      (fun _ => post) := by
  unfold emitCurrentStateStatement
  refine getBallotProtocol_leads ?_
  refine .bind createStatement_leads ?_
  rintro pledges later ⟨equal, consistent, built⟩
  refine getBallotProtocol_leads (.ite (fun recorded => ?_) (fun _ => ?_))
  · refine .of_pure ?_
    rw [equal]
    refine same pledges ⟨consistent, built, ?_⟩
    rw [← equal]
    exact recorded
  · have hands : ∀ middle : Slot, post middle.core → Leads
        (do
          let bp ← getBallotProtocol
          if later.mBallotProtocol.mCurrentBallot.isSome &&
              bp.mLastEnvelope.all (fun last =>
                isNewerStatement last.value.statement
                  (config.createEnvelope pledges).statement) then
            makeLastEnvelope (config.createEnvelope pledges)
            sendLatestEnvelope)
        middle (fun _ => post) := by
      intro middle reached
      refine (handEnvelope_leads _ _).mono ?_
      intro _ core kept
      rw [kept]
      exact reached
    have processed : Leads (processEnvelope config advanceSlot
        (config.createEnvelope pledges) true) later
        (fun state core => state = .valid → post core) := by
      refine processEnvelope_leads rfl (fun impossible => by
        cases impossible) ?_ ?_
      · intro middle recorded running
        rw [equal] at recorded running
        refine (nested pledges middle recorded ?_ running).mono
          (fun _ _ holds _ => holds)
        rw [recorded]
        exact .recording consistent built
      · intro ended _
        rw [equal] at ended ⊢
        exact final pledges ended
    refine .bind processed fun state middle reached => ?_
    refine .ite (fun valid => hands middle (reached valid)) ?_
    intro _ shallow
    rw [Ends.throw_iff]
    exact ⟨shallow, by simp, by simp⟩

end Publication

/-! ## The attempts -/

/-- The protocol with other ballots. -/
def BallotProtocol.withBallots (bp : BallotProtocol) (ballots : Ballots) :
    BallotProtocol :=
  { bp with
    mPhase := ballots.phase
    mCurrentBallot := ballots.current
    mPrepared := ballots.prepared
    mPreparedPrime := ballots.preparedPrime
    mHighBallot := ballots.high
    mCommit := ballots.commit }

@[simp] theorem BallotProtocol.withBallots_ballots (bp : BallotProtocol)
    (ballots : Ballots) : (bp.withBallots ballots).ballots = ballots :=
  rfl

/-- Publishing the new ballots leads to `post`. -/
def Publication (config : SlotConfig)
    (advanceSlot : SCPStatement → BallotM Unit) (bp : BallotProtocol)
    (post : BallotProtocol → Prop) : Prop :=
  ∀ slot : Slot, slot.core = bp →
    Leads (emitCurrentStateStatement config advanceSlot) slot
      (fun _ => post)

section Attempts

variable {config : SlotConfig} {slot : Slot} {hint : SCPStatement}
  {advanceSlot : SCPStatement → BallotM Unit}
  {post : BallotProtocol → Prop} {ballot : SCPBallot}

theorem setPreparedAccept_leads
    (raises : slot.core.ballots.Raises ballot)
    (published : Publication config advanceSlot
      (slot.core.withBallots (slot.core.ballots.acceptPrepared ballot))
      post) :
    Leads (setPreparedAccept config advanceSlot ballot) slot
      (fun _ => post) := by
  have prepared : setPrepared slot.mBallotProtocol ballot =
      (true, slot.mBallotProtocol.withPrepared ballot) :=
    setPrepared_eq raises
  have wasPrepared : (slot.mBallotProtocol.withPrepared ballot).ballots =
      slot.core.ballots.withPrepared ballot :=
    BallotProtocol.withPrepared_ballots _ _
  have aborts : abortsCommit (slot.mBallotProtocol.withPrepared ballot) =
      (slot.core.ballots.commit.isSome &&
        (slot.core.ballots.withPrepared ballot).aborts) := by
    rw [abortsCommit_eq, wasPrepared]
    rfl
  intro shallow
  unfold setPreparedAccept
  simp only [Ends.bind_iff, getBallotProtocol_ends, prepared,
    modifyBallotProtocol_ends, Ends.ite_iff, Bool.true_or, forall_const,
    callDriver_ends, dbgAssert_ends, Ends.pure_iff, not_true_eq_false,
    false_implies, and_true, aborts]
  refine ⟨?_, ?_⟩
  · intro aborted
    rw [Bool.and_eq_true] at aborted
    refine ⟨fun _ => published _ ?_ shallow,
      fun _ => ⟨shallow, by simp, by simp⟩⟩
    have cleared : slot.core.ballots.acceptPrepared ballot =
        { slot.core.ballots.withPrepared ballot with commit := none } := by
      rw [Ballots.acceptPrepared, if_pos aborted.2]
    rw [cleared, ← wasPrepared]
    rfl
  · intro kept
    refine published _ ?_ shallow
    have same : slot.core.ballots.acceptPrepared ballot =
        slot.core.ballots.withPrepared ballot := by
      rw [Ballots.acceptPrepared]
      split
      · rename_i aborted
        have unset : slot.core.ballots.commit = none := by
          simpa [aborted] using kept
        have frame :=
          (Ballots.withPrepared_frame slot.core.ballots ballot).2.2.2
        exact Ballots.ext rfl rfl rfl rfl rfl (frame.trans unset).symm
      · rfl
    rw [same, ← wasPrepared]
    rfl

/-- The tests in front of a vote: a ballot is skipped exactly if it may not be
accepted. -/
theorem skipsPreparedAccept_tests (ballot : SCPBallot) :
    Ends (skipsPreparedAccept slot.mBallotProtocol ballot) slot
      (fun skips finish => finish = slot ∧
        (skips = false ↔ slot.core.ballots.MayAccept ballot))
      (fun reason finish => finish = slot ∧ reason.Bounded) := by
  have test := skips_iff_not_raises slot.mBallotProtocol ballot
  have raised : (slot.mBallotProtocol.mPreparedPrime.any
        (fun prime => decide (compareBallots ballot prime ≤ 0)) ||
      slot.mBallotProtocol.mPrepared.any
        (areBallotsLessAndCompatible ballot)) = false ↔
      slot.core.ballots.Raises ballot := by
    rw [← Bool.not_eq_true, test, not_not]
    rfl
  unfold skipsPreparedAccept
  by_cases confirm : slot.mBallotProtocol.mPhase = .confirm
  · simp only [if_pos confirm, Ends.bind_iff, dereference_ends, Ends.ite_iff,
      Ends.pure_iff, dbgAssert_ends]
    refine ⟨?_, fun _ => ⟨trivial, by simp, by simp⟩⟩
    intro p prepared
    refine ⟨?_, ?_⟩
    · intro notAbove
      refine ⟨trivial, fun impossible => (by cases impossible), ?_⟩
      intro may
      obtain ⟨p', set, below, same⟩ := may.compatible confirm
      have equal : p = p' := Option.some.inj (prepared.symm.trans set)
      subst equal
      simp [areBallotsLessAndCompatible_iff.mpr ⟨below, same⟩] at notAbove
    · intro above
      have covers := areBallotsLessAndCompatible_iff.mp
        (by simpa using above)
      refine ⟨?_, fun _ => ⟨trivial, by simp, by simp⟩⟩
      intro c commit
      refine ⟨fun _ => ⟨trivial, ?_⟩,
        fun _ => ⟨trivial, by simp, by simp⟩⟩
      rw [raised]
      exact ⟨fun raises => ⟨raises, fun _ => ⟨p, prepared, covers⟩⟩,
        fun may => may.raises⟩
  · simp only [if_neg confirm, Ends.pure_iff]
    refine ⟨trivial, ?_⟩
    rw [raised]
    exact ⟨fun raises => ⟨raises, fun phase => absurd phase confirm⟩,
      fun may => may.raises⟩

/-- The loop of `attemptPreparedAccept`, after it has passed the candidates of
`before`. -/
private theorem attemptPreparedAcceptFrom_leads (before rest : List SCPBallot)
    (split : (getPrepareCandidates slot.core hint).reverse = before ++ rest)
    (passed : ∀ ballot ∈ before, ¬ Acceptable config slot.core hint ballot)
    (idle : AcceptsNothing config slot.core hint → post slot.core)
    (step : ∀ ballot, Acceptable config slot.core hint ballot →
      (∀ other, Acceptable config slot.core hint other →
        other ≤ ballot) →
      Publication config advanceSlot
        (slot.core.withBallots (slot.core.ballots.acceptPrepared ballot))
        post) :
    Leads (attemptPreparedAcceptFrom config advanceSlot
      slot.mBallotProtocol rest) slot (fun _ => post) := by
  have members : ∀ ballot, ballot ∈ getPrepareCandidates slot.core hint ↔
      ballot ∈ before ++ rest := by
    intro ballot
    rw [← split, List.mem_reverse]
  induction rest generalizing before with
  | nil =>
      refine .of_pure (idle ?_)
      intro ballot acceptable
      have inside := (members ballot).mp acceptable.candidate
      rw [List.append_nil] at inside
      exact passed ballot inside acceptable
  | cons ballot rest ih =>
      have resume : ¬ Acceptable config slot.core hint ballot →
          Leads (attemptPreparedAcceptFrom config advanceSlot
            slot.mBallotProtocol rest) slot (fun _ => post) := by
        intro here
        refine ih (before ++ [ballot]) (by simp [split]) ?_
          (by simpa using members)
        intro other member
        rcases List.mem_append.mp member with earlier | last
        · exact passed other earlier
        · rw [List.mem_singleton.mp last]
          exact here
      unfold attemptPreparedAcceptFrom
      intro shallow
      rw [Ends.bind_iff]
      refine (skipsPreparedAccept_tests ballot).mono ?_ ?_
      · rintro skips later ⟨rfl, test⟩
        rw [Ends.ite_iff, Ends.ite_iff]
        refine ⟨fun skipped => resume ?_ shallow, fun passes => ⟨?_, ?_⟩⟩
        · intro acceptable
          rw [test.mpr acceptable.may] at skipped
          cases skipped
        · intro accepts
          have acceptable : Acceptable config later.core hint ballot :=
            ⟨(members ballot).mpr (by simp), test.mp (by simpa using passes),
              accepts⟩
          refine setPreparedAccept_leads acceptable.may.raises
            (step ballot acceptable ?_) shallow
          intro other otherAcceptable
          have descending := getPrepareCandidates_descending later.core hint
          rw [split, List.pairwise_append] at descending
          have inside := (members other).mp otherAcceptable.candidate
          rcases List.mem_append.mp inside with earlier | here
          · exact absurd otherAcceptable (passed other earlier)
          · rcases List.mem_cons.mp here with first | after
            · exact first.le
            · exact ((List.pairwise_cons.mp descending.2.1).1 other
                after).le
        · intro refuses
          exact resume (fun acceptable => refuses acceptable.accepts)
            shallow
      · rintro reason later ⟨rfl, bounded⟩
        exact ⟨shallow, bounded⟩

/-- The rule for `attemptPreparedAccept`. -/
theorem attemptPreparedAccept_leads
    (level : slot.core.mCurrentMessageLevel ≤ deepestLevel)
    (ended : slot.core.mPhase = .externalize → post slot.core)
    (idle : AcceptsNothing config slot.core hint → post slot.core)
    (step : ∀ ballot, Acceptable config slot.core hint ballot →
      (∀ other, Acceptable config slot.core hint other →
        other ≤ ballot) →
      Publication config advanceSlot
        (slot.core.withBallots (slot.core.ballots.acceptPrepared ballot))
        post) :
    Leads (attemptPreparedAccept config advanceSlot hint) slot
      (fun _ => post) := by
  unfold attemptPreparedAccept
  refine visiting_leads level (.ite (fun inactive => ?_) (fun active => ?_))
  · refine .of_pure (ended ?_)
    by_contra running
    exact SCPPhase.active_iff.mpr running inactive
  · exact attemptPreparedAcceptFrom_leads
      [] _ rfl
      (fun _ member => absurd member List.not_mem_nil) idle step

/-- `updateCurrentIfNeeded` and the publication after it. -/
private theorem raise_leads {later : Slot} {high : SCPBallot}
    {call : DriverCall} {result : Bool}
    (set : later.core.mHighBallot = some high)
    (published : Publication config advanceSlot
      { later.core with
        mCurrentBallot := raiseTo later.core.mCurrentBallot high } post) :
    Leads
      (do
        updateCurrentIfNeeded
        callDriver call
        emitCurrentStateStatement config advanceSlot
        pure result)
      later (fun _ => post) := by
  refine .bind (updateCurrentIfNeeded_leads set) fun _ middle raised => ?_
  exact callDriver_leads (.bind (published _ raised) fun _ _ holds =>
    .of_pure holds)

theorem setPreparedConfirmed_leads {newC newH : SCPBallot}
    (above : ∀ high, slot.core.mHighBallot = some high → high < newH)
    (published : Publication config advanceSlot
      (slot.core.withBallots
        (slot.core.ballots.confirmPrepared newC newH)) post) :
    Leads (setPreparedConfirmed config advanceSlot newC newH) slot
      (fun _ => post) := by
  have raises : slot.mBallotProtocol.mHighBallot.all
      (fun high => decide (compareBallots newH high > 0)) = true := by
    rw [Option.all_eq_true]
    intro high set
    exact decide_eq_true (compareBallots_pos_iff.mpr (above high set))
  unfold setPreparedConfirmed
  refine getBallotProtocol_leads ?_
  simp only [raises, if_true, Bool.true_or]
  refine modifyBallotProtocol_leads (.ite (fun nonzero => ?_)
    (fun zero => ?_))
  · refine dbgAssert_leads fun _ => modifyBallotProtocol_leads ?_
    refine raise_leads rfl ?_
    rw [Ballots.confirmPrepared, if_pos nonzero] at published
    exact published
  · refine raise_leads rfl ?_
    rw [Ballots.confirmPrepared, if_neg zero] at published
    exact published

theorem findNewH_core (ballots : List SCPBallot) :
    findNewH config slot.mBallotProtocol ballots =
      findNewH config slot.core ballots := by
  induction ballots with
  | nil => rfl
  | cons ballot ballots ih =>
      unfold findNewH
      rw [ih]
      rfl

/-- The rule for `attemptPreparedConfirmed`. -/
theorem attemptPreparedConfirmed_leads
    (level : slot.core.mCurrentMessageLevel ≤ deepestLevel)
    (idle : post slot.core)
    (step : ∀ newC newH candidates, slot.core.mPhase = .prepare →
      findNewH config slot.core
        (getPrepareCandidates slot.core hint).reverse =
          some (newH, candidates) →
      Publication config advanceSlot
        (slot.core.withBallots
          (slot.core.ballots.confirmPrepared newC newH)) post) :
    Leads (attemptPreparedConfirmed config advanceSlot hint) slot
      (fun _ => post) := by
  unfold attemptPreparedConfirmed
  refine visiting_leads level (.ite (fun _ => .of_pure idle)
    (fun prepare => .ite (fun _ => .of_pure idle) (fun _ => ?_)))
  have phase : slot.core.mPhase = .prepare := not_not.mp prepare
  cases found : findNewH config slot.mBallotProtocol
      (getPrepareCandidates slot.mBallotProtocol hint).reverse with
  | none => exact .of_pure idle
  | some result =>
      obtain ⟨newH, candidates⟩ := result
      rw [findNewH_core] at found
      obtain ⟨_, _, _, _, _, _, above⟩ := findNewH_some found
      exact setPreparedConfirmed_leads above
        (step _ newH candidates phase found)

theorem setAcceptCommit_leads {c h : SCPBallot}
    (running : slot.core.mPhase ≠ .externalize)
    (changes : slot.core.mPhase = .confirm →
      slot.core.mHighBallot ≠ some h)
    (published : Publication config advanceSlot
      (slot.core.withBallots (slot.core.ballots.acceptCommit c h)) post) :
    Leads (setAcceptCommit config advanceSlot c h) slot
      (fun _ => post) := by
  generalize assigned : Slot.mk
    (if decide (slot.mBallotProtocol.mHighBallot ≠ some h ∨
        slot.mBallotProtocol.mCommit ≠ some c) then
      { slot.mBallotProtocol with
        mCommit := some c, mHighBallot := some h }
    else slot.mBallotProtocol) slot.mFullyValidated slot.mStatementsHistory
    slot.mLatestCompositeCandidate slot.allocations slot.driverCalls
    slot.visits = later
  have core : later.core = { slot.core with
      mCommit := some c, mHighBallot := some h } := by
    rw [← assigned]
    unfold Slot.core
    split
    · rfl
    · rename_i same
      simp only [decide_eq_true_eq, not_or, not_not] at same
      simp only [← same.1, ← same.2]
  unfold setAcceptCommit
  refine getBallotProtocol_leads (modifyBallotProtocol_leads ?_)
  rw [assigned]
  refine .ite (fun enters => ?_) (fun started => ?_)
  · have prepare : slot.core.mPhase = .prepare := of_decide_eq_true enters
    refine .bind (enterConfirm_leads h) fun _ middle entered => ?_
    refine .ite (fun _ => ?_) (fun idle => absurd enters ?_)
    · rw [core] at entered
      have high : middle.core.mHighBallot = some h := by rw [entered]
      refine raise_leads high ?_
      rw [← Ballots.acceptCommit_eq prepare] at published
      rw [entered]
      exact published
    · simp only [Bool.or_eq_true, not_or] at idle
      exact idle.2
  · have confirm : slot.core.mPhase = .confirm := by
      cases phase : slot.core.mPhase with
      | prepare => exact absurd (decide_eq_true phase) started
      | confirm => rfl
      | externalize => exact absurd phase running
    refine .ite (fun _ => ?_) (fun idle => ?_)
    · have high : later.core.mHighBallot = some h := by rw [core]
      refine raise_leads high ?_
      rw [Ballots.acceptCommit_confirm confirm] at published
      rw [core]
      exact published
    · have same : slot.mBallotProtocol.mHighBallot ≠ some h :=
        changes confirm
      simp [same] at idle

/-- The rule for `attemptAcceptCommit`. -/
theorem attemptAcceptCommit_leads
    (level : slot.core.mCurrentMessageLevel ≤ deepestLevel)
    (idle : post slot.core)
    (step : ∀ ballot, slot.core.mPhase ≠ .externalize →
      commitHint hint = some ballot →
      (acceptedInterval config slot.core ballot).first ≠ 0 →
      (slot.core.mPhase = .confirm → ∃ high,
        slot.core.mHighBallot = some high ∧ ballot.value = high.value ∧
          high.counter < (acceptedInterval config slot.core ballot).second) →
      Publication config advanceSlot
        (slot.core.withBallots (slot.core.ballots.acceptCommit
          ⟨(acceptedInterval config slot.core ballot).first, ballot.value⟩
          ⟨(acceptedInterval config slot.core ballot).second,
            ballot.value⟩)) post) :
    Leads (attemptAcceptCommit config advanceSlot hint) slot
      (fun _ => post) := by
  unfold attemptAcceptCommit
  refine visiting_leads level (.ite (fun _ => .of_pure idle)
    (fun active => ?_))
  have running : slot.core.mPhase ≠ .externalize :=
    SCPPhase.active_iff.mp active
  cases hinted : commitHint hint with
  | none => exact .of_pure idle
  | some ballot =>
      have search : (slot.core.mPhase = .confirm → ∃ high,
            slot.core.mHighBallot = some high ∧
              ballot.value = high.value) →
          Leads
            (if (acceptedInterval config slot.core ballot).first = 0 then
              pure false
            else if slot.core.mPhase = .confirm ∧
                ¬ slot.core.mHighBallot.any (fun high => decide
                  ((acceptedInterval config slot.core ballot).second >
                    high.counter)) then
              pure false
            else
              setAcceptCommit config advanceSlot
                ⟨(acceptedInterval config slot.core ballot).first,
                  ballot.value⟩
                ⟨(acceptedInterval config slot.core ballot).second,
                  ballot.value⟩)
            (slot.visiting (.acceptCommit hint)) (fun _ => post) := by
        intro compatible
        refine .ite (fun _ => .of_pure idle) (fun found => ?_)
        refine .ite (fun _ => .of_pure idle) (fun raises => ?_)
        have above : slot.core.mPhase = .confirm → ∃ high,
            slot.core.mHighBallot = some high ∧
              ballot.value = high.value ∧ high.counter <
                (acceptedInterval config slot.core ballot).second := by
          intro confirm
          obtain ⟨high, set, same⟩ := compatible confirm
          refine ⟨high, set, same, ?_⟩
          simpa [confirm, set] using raises
        refine setAcceptCommit_leads running ?_
          (step ballot running hinted found above)
        intro confirm same
        obtain ⟨high, set, _, higher⟩ := above confirm
        have equal := Option.some.inj (set.symm.trans same)
        rw [equal] at higher
        exact absurd higher (lt_irrefl _)
      refine .ite (fun confirm => ?_) (fun prepare => ?_)
      · refine dereference_leads fun high set => ?_
        refine .ite (fun _ => .of_pure idle) (fun agrees => ?_)
        refine search fun _ => ⟨high, set, ?_⟩
        simpa using agrees
      · exact search fun confirm => absurd confirm prepare

theorem setConfirmCommit_leads {c h : SCPBallot}
    (published : Publication config advanceSlot
      (slot.core.withBallots (slot.core.ballots.confirmCommit c h)) post) :
    Leads (setConfirmCommit config advanceSlot c h) slot
      (fun _ => post) := by
  unfold setConfirmCommit
  refine modifyBallotProtocol_leads ?_
  refine .bind (updateCurrentIfNeeded_leads rfl) fun _ later raised => ?_
  refine modifyBallotProtocol_leads (.bind (published _ ?_)
    fun _ middle holds => ?_)
  · have phased : Slot.core { later with
        mBallotProtocol :=
          { later.mBallotProtocol with mPhase := .externalize } } =
          { later.core with mPhase := .externalize } := rfl
    rw [phased, raised]
    rfl
  · refine getBallotProtocol_leads (dereference_leads fun commit _ => ?_)
    exact callDriver_leads (.of_pure holds)

/-- The rule for `attemptConfirmCommit`. -/
theorem attemptConfirmCommit_leads
    (level : slot.core.mCurrentMessageLevel ≤ deepestLevel)
    (idle : post slot.core)
    (step : ∀ c h, slot.core.mPhase = .confirm →
      Publication config advanceSlot
        (slot.core.withBallots (slot.core.ballots.confirmCommit c h))
        post) :
    Leads (attemptConfirmCommit config advanceSlot hint) slot
      (fun _ => post) := by
  unfold attemptConfirmCommit
  refine visiting_leads level (.ite (fun _ => .of_pure idle)
    (fun active => ?_))
  have confirm : slot.core.mPhase = .confirm := not_not.mp active
  split
  · split
    · exact .of_pure idle
    · exact .of_pure idle
    · refine .ite (fun _ => .of_pure idle) (fun _ => ?_)
      refine .ite (fun _ => .of_pure idle) (fun _ => ?_)
      exact setConfirmCommit_leads (step _ _ confirm)
  · exact .of_pure idle

/-- Hearing from a quorum changes nothing that matters here. -/
theorem checkHeardFromQuorum_leads :
    Leads (checkHeardFromQuorum config) slot
      (fun _ core => core = slot.core) := by
  unfold checkHeardFromQuorum
  refine getBallotProtocol_leads ?_
  split
  · refine .ite (fun _ => ?_) (fun _ => .of_pure rfl)
    refine modifyBallotProtocol_leads ?_
    intro shallow
    rw [callDriver_ends]
    exact ⟨shallow, rfl⟩
  · exact .of_pure rfl

end Attempts

end StellarCore.Scp
