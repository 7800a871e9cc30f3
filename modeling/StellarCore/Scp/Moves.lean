import StellarCore.Scp.Publishing

/-!
# The methods that move the ballots

Each `set*` method and each bump changes the ballots by the transition named
after it and publishes the result.
-/

namespace StellarCore.Scp

open StellarCore.Lib

section Moves

variable {config : SlotConfig} {environment : Environment} {slot : Slot}
  {advanceSlot : SCPStatement → BallotM Unit} {ballot : SCPBallot}

/-- `setPrepared` on a ballot that passed the tests of the caller. -/
theorem setPrepared_eq {bp : BallotProtocol}
    (raises : bp.ballots.Raises ballot) :
    setPrepared bp ballot =
      (true,
        { bp with
          mPrepared := (bp.ballots.withPrepared ballot).prepared
          mPreparedPrime :=
            (bp.ballots.withPrepared ballot).preparedPrime }) := by
  unfold setPrepared Ballots.withPrepared
  cases prepared : bp.mPrepared with
  | none => simp [prepared]
  | some p =>
      simp only [BallotProtocol.ballots_prepared, prepared,
        compareBallots_neg_iff, compareBallots_pos_iff]
      by_cases less : p < ballot
      · by_cases same : p.value = ballot.value
        · simp [less, same, areBallotsCompatible]
        · simp [less, same, areBallotsCompatible]
      · have below : ballot ≤ p := not_lt.mp less
        have strict : ballot < p := lt_of_le_of_ne below (fun equal =>
          raises.notCovered p prepared ⟨below, by rw [equal]⟩)
        have above : bp.mPreparedPrime.all
            (fun prime => decide (prime < ballot)) = true := by
          rw [Option.all_eq_true]
          intro prime set
          exact decide_eq_true (raises.above prime set)
        simp [less, strict, above]

theorem abortsCommit_eq (bp : BallotProtocol) :
    abortsCommit bp = (bp.mCommit.isSome && bp.ballots.aborts) := by
  unfold abortsCommit Ballots.aborts
  cases commit : bp.mCommit with
  | none => simp
  | some c =>
      cases high : bp.mHighBallot with
      | none => simp [high]
      | some h => simp [high]

/-- The members after `setPrepared`. -/
def BallotProtocol.withPrepared (bp : BallotProtocol)
    (ballot : SCPBallot) : BallotProtocol :=
  { bp with
    mPrepared := (bp.ballots.withPrepared ballot).prepared
    mPreparedPrime := (bp.ballots.withPrepared ballot).preparedPrime }

theorem BallotProtocol.withPrepared_ballots (bp : BallotProtocol)
    (ballot : SCPBallot) :
    (bp.withPrepared ballot).ballots = bp.ballots.withPrepared ballot := by
  obtain ⟨phase, current, high, commit⟩ :=
    Ballots.withPrepared_frame bp.ballots ballot
  exact Ballots.ext phase.symm current.symm rfl rfl high.symm commit.symm

/-- A changed slot of which the driver was told something the view does not
keep, before the statement is published. -/
theorem emit_quiet {view : SlotView} {next : Ballots}
    {call : DriverCall} (quiet : call.isQuiet = true)
    (advances : Advances config environment advanceSlot)
    (stable : view.Stable config)
    (transition :
      Transition config environment.silent view next view.accepted)
    (midway : slot.view = { view with ballots := next }) :
    Ends (emitCurrentStateStatement config advanceSlot)
      { slot with driverCalls := slot.driverCalls ++ [call] }
      (fun _ finish => Published config environment view next finish.view)
      (Crashed config environment view) := by
  refine emitCurrentStateStatement_ends advances stable transition ?_
  rw [slot.view_quiet quiet, midway]

theorem Crashed.of_plain {view : SlotView} {reason : Failure}
    (records : slot.view.SameRecords view) (plain : reason.Plain) :
    Crashed config environment view reason slot :=
  ⟨view, .refl, records, plain _ _ _⟩

theorem setPreparedAccept_ends
    (advances : Advances config environment advanceSlot)
    (stable : slot.view.Stable config)
    (raises : slot.view.ballots.Raises ballot)
    (transition : Transition config environment.silent slot.view
      (slot.view.ballots.acceptPrepared ballot)
      (slot.view.accepted ++ [ballot])) :
    Ends (setPreparedAccept config advanceSlot ballot) slot
      (fun _ finish => Published config environment slot.view
        (slot.view.ballots.acceptPrepared ballot) finish.view)
      (Crashed config environment slot.view) := by
  have emits : ∀ slot' : Slot, slot'.view =
      { slot.view with
        ballots := slot.view.ballots.acceptPrepared ballot } →
      Ends (emitCurrentStateStatement config advanceSlot)
        { slot' with driverCalls :=
            slot'.driverCalls ++ [.acceptedBallotPrepared ballot] }
        (fun _ finish => Published config environment slot.view
          (slot.view.ballots.acceptPrepared ballot) finish.view)
        (Crashed config environment slot.view) := by
    intro slot' same
    refine emitCurrentStateStatement_ends advances stable transition ?_
    have called : Slot.view { slot' with driverCalls :=
        slot'.driverCalls ++ [.acceptedBallotPrepared ballot] } =
          { slot'.view with accepted := slot'.view.accepted ++ [ballot] } := by
      simp [Slot.view, Slot.emissions, Slot.acceptedBallots,
        Slot.externalizedValues]
    rw [called, same]
  have prepared : setPrepared slot.mBallotProtocol ballot =
      (true, slot.mBallotProtocol.withPrepared ballot) :=
    setPrepared_eq raises
  have wasPrepared : (slot.mBallotProtocol.withPrepared ballot).ballots =
      slot.view.ballots.withPrepared ballot :=
    BallotProtocol.withPrepared_ballots _ _
  have aborts : abortsCommit (slot.mBallotProtocol.withPrepared ballot) =
      (slot.view.ballots.commit.isSome &&
        (slot.view.ballots.withPrepared ballot).aborts) := by
    rw [abortsCommit_eq, wasPrepared]
    rfl
  unfold setPreparedAccept
  simp only [Ends.bind_iff, getBallotProtocol_ends, prepared,
    modifyBallotProtocol_ends, Ends.ite_iff, Bool.true_or, forall_const,
    callDriver_ends, dbgAssert_ends, Ends.pure_iff, not_true_eq_false,
    false_implies, and_true, aborts]
  refine ⟨?_, ?_⟩
  · intro aborted
    rw [Bool.and_eq_true] at aborted
    refine ⟨fun _ => emits { slot with mBallotProtocol :=
      { slot.mBallotProtocol.withPrepared ballot with mCommit := none } } ?_,
      fun _ => .of_plain ⟨rfl, rfl, rfl, rfl, List.Subset.refl _⟩
        (fun _ _ _ => trivial)⟩
    have cleared : slot.view.ballots.acceptPrepared ballot =
        { slot.view.ballots.withPrepared ballot with commit := none } := by
      rw [Ballots.acceptPrepared, if_pos aborted.2]
    rw [cleared, ← wasPrepared]
    rfl
  · intro kept
    refine emits { slot with
      mBallotProtocol := slot.mBallotProtocol.withPrepared ballot } ?_
    have same : slot.view.ballots.acceptPrepared ballot =
        slot.view.ballots.withPrepared ballot := by
      rw [Ballots.acceptPrepared]
      split
      · rename_i aborted
        have unset : slot.view.ballots.commit = none := by
          simpa [aborted] using kept
        have frame :=
          (Ballots.withPrepared_frame slot.view.ballots ballot).2.2.2
        exact Ballots.ext rfl rfl rfl rfl rfl (frame.trans unset).symm
      · rfl
    rw [same, ← wasPrepared]
    rfl

theorem setPreparedConfirmed_ends {newC newH : SCPBallot}
    (advances : Advances config environment advanceSlot)
    (stable : slot.view.Stable config)
    (above : ∀ high, slot.view.ballots.high = some high → high < newH)
    (transition : Transition config environment.silent slot.view
      (slot.view.ballots.confirmPrepared newC newH) slot.view.accepted) :
    Ends (setPreparedConfirmed config advanceSlot newC newH) slot
      (fun _ finish => Published config environment slot.view
        (slot.view.ballots.confirmPrepared newC newH) finish.view)
      (Crashed config environment slot.view) := by
  have raises : slot.mBallotProtocol.mHighBallot.all
      (fun high => decide (compareBallots newH high > 0)) = true := by
    rw [Option.all_eq_true]
    intro high set
    exact decide_eq_true (compareBallots_pos_iff.mpr (above high set))
  unfold setPreparedConfirmed
  simp only [Ends.bind_iff, getBallotProtocol_ends, raises,
    modifyBallotProtocol_ends, Ends.ite_iff, Bool.true_or, forall_const,
    callDriver_ends, dbgAssert_ends, Ends.pure_iff, not_true_eq_false,
    false_implies, and_true]
  have finishes : ∀ slot' : Slot, slot'.view =
      { slot.view with
        ballots :=
          { slot.view.ballots with
            high := some newH
            commit := if newC.counter ≠ 0 then some newC
              else slot.view.ballots.commit } } →
      Ends updateCurrentIfNeeded slot'
        (fun _ middle =>
          Ends (emitCurrentStateStatement config advanceSlot)
            { middle with driverCalls :=
                middle.driverCalls ++ [.confirmedBallotPrepared newH] }
            (fun _ finish => Published config environment slot.view
              (slot.view.ballots.confirmPrepared newC newH) finish.view)
            (Crashed config environment slot.view))
        (Crashed config environment slot.view) := by
    intro slot' same
    have set : slot'.view.ballots.high = some newH := by rw [same]
    refine (updateCurrentIfNeeded_ends set).mono ?_ ?_
    · intro _ middle raised
      refine emit_quiet rfl advances stable transition ?_
      rw [raised, same]
      rfl
    · rintro reason finish ⟨records, plain⟩
      rw [same] at records
      exact .of_plain ⟨records.history, records.emitted,
        records.externalized, records.visits, records.accepted⟩ plain
  refine ⟨?_, ?_⟩
  · intro nonzero
    refine ⟨fun _ => finishes _ ?_,
      fun _ => .of_plain ⟨rfl, rfl, rfl, rfl, List.Subset.refl _⟩
        (fun _ _ _ => trivial)⟩
    rw [if_pos nonzero]
    rfl
  · intro zero
    refine finishes _ ?_
    rw [if_neg zero]
    rfl

/-- `updateCurrentIfNeeded` and the publication after it. -/
private theorem raise_ends {view : SlotView} {next : Ballots}
    {high : SCPBallot} {call : DriverCall} (quiet : call.isQuiet = true)
    (advances : Advances config environment advanceSlot)
    (stable : view.Stable config)
    (transition :
      Transition config environment.silent view next view.accepted)
    {ballots : Ballots} (set : ballots.high = some high)
    (raised : { ballots with current := raiseTo ballots.current high } =
      next)
    (midway : slot.view = { view with ballots := ballots }) :
    Ends updateCurrentIfNeeded slot
      (fun _ middle =>
        Ends (emitCurrentStateStatement config advanceSlot)
          { middle with driverCalls := middle.driverCalls ++ [call] }
          (fun _ finish =>
            Published config environment view next finish.view)
          (Crashed config environment view))
      (Crashed config environment view) := by
  have found : slot.view.ballots.high = some high := by rw [midway, set]
  refine (updateCurrentIfNeeded_ends found).mono ?_ ?_
  · intro _ middle updated
    refine emit_quiet quiet advances stable transition ?_
    rw [updated, midway, ← raised]
  · rintro reason finish ⟨records, plain⟩
    rw [midway] at records
    exact .of_plain ⟨records.history, records.emitted,
      records.externalized, records.visits, records.accepted⟩ plain

/-- What leaving PREPARE does before `b` is raised. -/
def Ballots.enterConfirm (ballots : Ballots) (c h : SCPBallot) : Ballots :=
  { phase := .confirm
    current :=
      if ballots.current.any
          (fun current => !areBallotsLessAndCompatible h current) then
        some h
      else ballots.current
    prepared := ballots.prepared
    preparedPrime := none
    high := some h
    commit := some c }

theorem enterConfirm_ends {c h : SCPBallot} {ballots : Ballots}
    {view : SlotView}
    (midway : slot.view =
      { view with
        ballots := { ballots with high := some h, commit := some c } }) :
    Ends (enterConfirm h) slot
      (fun _ finish => finish.view =
        { view with ballots := ballots.enterConfirm c h })
      (fun reason finish => finish.view.SameRecords view ∧
        reason.Plain) := by
  have current : slot.mBallotProtocol.mCurrentBallot = ballots.current :=
    congrArg (fun view => view.ballots.current) midway
  have reached : Slot.view { slot with
      mBallotProtocol := { slot.mBallotProtocol with mPhase := .confirm } } =
        { view with
          ballots :=
            { ballots with
              phase := .confirm
              high := some h
              commit := some c } } := by
    have changed : Slot.view { slot with
        mBallotProtocol :=
          { slot.mBallotProtocol with mPhase := .confirm } } =
          { slot.view with
            ballots := { slot.view.ballots with phase := .confirm } } := rfl
    rw [changed, midway]
  unfold enterConfirm
  simp only [Ends.bind_iff, modifyBallotProtocol_ends,
    getBallotProtocol_ends, Ends.ite_iff]
  refine ⟨?_, ?_⟩
  · intro bumps
    rw [current] at bumps
    refine (bumpToBallot_ends h false).mono ?_ ?_
    · intro _ finish bumped
      have cleared : Slot.view { finish with
          mBallotProtocol :=
            { finish.mBallotProtocol with mPreparedPrime := none } } =
            { finish.view with
              ballots :=
                { finish.view.ballots with preparedPrime := none } } := rfl
      rw [cleared, bumped, reached, Ballots.enterConfirm, if_pos bumps]
      rfl
    · rintro reason finish ⟨records, plain⟩
      rw [reached] at records
      exact ⟨⟨records.history, records.emitted, records.externalized,
        records.visits, records.accepted⟩, plain⟩
  · intro keeps
    rw [current] at keeps
    have cleared : ∀ slot' : Slot, Slot.view { slot' with
        mBallotProtocol :=
          { slot'.mBallotProtocol with mPreparedPrime := none } } =
          { slot'.view with
            ballots :=
              { slot'.view.ballots with preparedPrime := none } } :=
      fun _ => rfl
    have result := cleared { slot with
      mBallotProtocol := { slot.mBallotProtocol with mPhase := .confirm } }
    rw [reached] at result
    rw [Ballots.enterConfirm, if_neg keeps]
    exact result

theorem Ballots.acceptCommit_eq {ballots : Ballots} {c h : SCPBallot}
    (prepare : ballots.phase = .prepare) :
    { ballots.enterConfirm c h with
      current := raiseTo (ballots.enterConfirm c h).current h } =
      ballots.acceptCommit c h := by
  rw [Ballots.acceptCommit, if_pos prepare]
  refine Ballots.ext rfl ?_ rfl rfl rfl rfl
  cases current : ballots.current with
  | none => simp [Ballots.enterConfirm, current, raiseTo]
  | some b =>
      by_cases keeps : h ≤ b ∧ h.value = b.value
      · have notLess : ¬ b < h := not_lt.mpr keeps.1
        simp [Ballots.enterConfirm, current, raiseTo, keeps, notLess,
          areBallotsLessAndCompatible_iff.mpr keeps]
      · have bumps : areBallotsLessAndCompatible h b = false := by
          rwa [← Bool.not_eq_true, areBallotsLessAndCompatible_iff]
        simp [Ballots.enterConfirm, current, raiseTo, keeps, bumps]

theorem setAcceptCommit_ends {c h : SCPBallot}
    (advances : Advances config environment advanceSlot)
    (stable : slot.view.Stable config)
    (changes : slot.view.ballots.phase = .confirm →
      slot.view.ballots.high ≠ some h)
    (running : slot.view.ballots.phase ≠ .externalize)
    (transition : Transition config environment.silent slot.view
      (slot.view.ballots.acceptCommit c h) slot.view.accepted) :
    Ends (setAcceptCommit config advanceSlot c h) slot
      (fun _ finish => Published config environment slot.view
        (slot.view.ballots.acceptCommit c h) finish.view)
      (Crashed config environment slot.view) := by
  have assigned : ∀ changes : Bool, changes = decide
      (slot.mBallotProtocol.mHighBallot ≠ some h ∨
        slot.mBallotProtocol.mCommit ≠ some c) →
      Slot.view { slot with
        mBallotProtocol :=
          if changes then
            { slot.mBallotProtocol with
              mCommit := some c, mHighBallot := some h }
          else slot.mBallotProtocol } =
        { slot.view with
          ballots :=
            { slot.view.ballots with
              high := some h, commit := some c } } := by
    intro changes equal
    cases changes with
    | true => rfl
    | false =>
        have same := of_decide_eq_false equal.symm
        rw [not_or, not_not, not_not] at same
        have unchanged : { slot.view.ballots with
            high := some h, commit := some c } = slot.view.ballots :=
          Ballots.ext rfl rfl rfl rfl same.1.symm same.2.symm
        rw [unchanged]
        rfl
  unfold setAcceptCommit
  simp only [Ends.bind_iff, getBallotProtocol_ends, Ends.ite_iff,
    modifyBallotProtocol_ends, callDriver_ends, Ends.pure_iff]
  have midway := assigned _ rfl
  refine ⟨?_, ?_⟩
  · intro enters
    have prepare : slot.view.ballots.phase = .prepare :=
      of_decide_eq_true enters
    refine (enterConfirm_ends midway).mono ?_ ?_
    · intro _ middle entered
      refine ⟨fun _ => ?_,
        fun idle => absurd enters (by simp at idle ⊢; tauto)⟩
      exact raise_ends rfl advances stable transition rfl
        (Ballots.acceptCommit_eq prepare) entered
    · rintro reason finish ⟨records, plain⟩
      exact .of_plain records plain
  · intro started
    have confirm : slot.view.ballots.phase = .confirm := by
      cases phase : slot.view.ballots.phase with
      | prepare => exact absurd (decide_eq_true phase) started
      | confirm => rfl
      | externalize => exact absurd phase running
    refine ⟨fun _ => ?_, ?_⟩
    · refine raise_ends rfl advances stable transition rfl ?_ midway
      rw [Ballots.acceptCommit, if_neg (by simp [confirm])]
    · intro idle
      have same := changes confirm
      exact absurd (by simp only [Bool.or_eq_true, decide_eq_true_eq]
                       exact .inl (.inl same)) idle

theorem Published.whole {view finish : SlotView} {next : Ballots}
    (published : Published config environment view next finish) :
    Path config environment.silent view finish := by
  obtain ⟨middle, step, _, rest⟩ := published.path
  exact rest.head step

theorem Published.later {view finish : SlotView} {next : Ballots}
    (published : Published config environment view next finish)
    (stable : view.Stable config) : next.Later finish.ballots := by
  obtain ⟨middle, step, ballots, rest⟩ := published.path
  rw [← ballots]
  exact rest.later (step.stable stable)

theorem setConfirmCommit_ends {c h : SCPBallot}
    (advances : Advances config environment advanceSlot)
    (stable : slot.view.Stable config)
    (transition : Transition config environment.silent slot.view
      (slot.view.ballots.confirmCommit c h) slot.view.accepted) :
    Ends (setConfirmCommit config advanceSlot c h) slot
      (fun _ finish =>
        Path config environment.silent slot.view finish.view)
      (Crashed config environment slot.view) := by
  unfold setConfirmCommit
  simp only [Ends.bind_iff, getBallotProtocol_ends,
    modifyBallotProtocol_ends, callDriver_ends, Ends.pure_iff,
    dereference_ends]
  refine (updateCurrentIfNeeded_ends rfl).mono ?_ ?_
  · intro _ middle updated
    refine (emitCurrentStateStatement_ends advances stable transition
      ?_).mono ?_ (fun _ _ fails => fails)
    · have phased : Slot.view { middle with
          mBallotProtocol :=
            { middle.mBallotProtocol with mPhase := .externalize } } =
            { middle.view with
              ballots :=
                { middle.view.ballots with phase := .externalize } } := rfl
      rw [phased, updated]
      rfl
    · intro _ finish published
      have later := published.later stable
      have committed : finish.view.ballots.commit = some c :=
        (later.final rfl).2.2
      have ended : finish.view.ballots.phase = .externalize :=
        later.externalize rfl
      have first : finish.view.externalized = [] :=
        (published.ended rfl).trans (stable.unfinished transition.running)
      refine ⟨?_, fun unset => absurd unset ?_⟩
      · intro commit set
        have step : Step config environment.silent finish.view
            { finish.view with
              externalized := finish.view.externalized ++ [commit.value] } :=
          .externalize commit ended set first
        refine published.whole.tail ?_
        convert step using 1
        simp [Slot.view, Slot.emissions, Slot.acceptedBallots,
          Slot.externalizedValues]
      · show finish.view.ballots.commit ≠ none
        rw [committed]
        exact Option.some_ne_none c
  · rintro reason finish ⟨records, plain⟩
    exact .of_plain ⟨records.history, records.emitted,
      records.externalized, records.visits, records.accepted⟩ plain

/-! ## Bumping the ballot -/

/-- What a bump needs: the new ballot may be made the current one. -/
structure Bumps (environment : Environment) (view : SlotView)
    (value : Value) (newb : SCPBallot) : Prop where
  available : view.Available environment value
  override : newb.value =
    (view.ballots.high.map SCPBallot.value).getD value
  counter : view.ballots.current = none → newb.counter ≠ 0

/-- The result of `updateCurrentValue`: the bump, or nothing. -/
structure Updated (config : SlotConfig) (environment : Environment)
    (view : SlotView) (newb : SCPBallot) (updated : Bool)
    (finish : SlotView) : Prop where
  bumped : updated = true →
    Transition config environment.silent view (view.ballots.bump newb)
        view.accepted ∧
      finish = { view with ballots := view.ballots.bump newb }
  kept : updated = false → finish = view

/-- The result of a bump that may be refused; in EXTERNALIZE it is. -/
structure Moved (config : SlotConfig) (environment : Environment)
    (start finish : SlotView) : Prop where
  path : Path config environment.silent start finish
  ended : start.ballots.phase = .externalize → finish = start

theorem Moved.refl (view : SlotView) :
    Moved config environment view view :=
  ⟨.refl, fun _ => rfl⟩

/-- `bumpToBallot` and the check after it. -/
private theorem bumpAndCheck_ends {newb : SCPBallot}
    (transition : Transition config environment.silent slot.view
      (slot.view.ballots.bump newb) slot.view.accepted) :
    Ends (bumpToBallot newb true) slot
      (fun _ middle => Ends checkInvariants middle
        (fun _ finish => finish.view =
          { slot.view with ballots := slot.view.ballots.bump newb })
        (Crashed config environment slot.view))
      (Crashed config environment slot.view) := by
  refine (bumpToBallot_ends newb true).mono ?_ ?_
  · intro _ middle bumped
    have ballots : middle.mBallotProtocol.ballots =
        slot.view.ballots.bump newb := congrArg SlotView.ballots bumped
    refine checkInvariants_ends.mono ?_ ?_
    · rintro _ finish ⟨rfl, _⟩
      exact bumped
    · rintro reason finish ⟨rfl, cause, inconsistent⟩
      rw [ballots] at inconsistent
      refine ⟨slot.view, .refl, ?_, ?_⟩
      · rw [bumped]
        exact ⟨rfl, rfl, rfl, rfl, List.Subset.refl _⟩
      · rcases cause with abort | null
        · rw [abort]
          exact ⟨_, _, transition, inconsistent⟩
        · rw [null]
          exact ⟨_, _, transition, inconsistent⟩
  · rintro reason finish ⟨records, plain⟩
    exact .of_plain records plain

/-- `updateCurrentValue` either makes the bump or changes nothing. -/
theorem updateCurrentValue_ends {value : Value} {newb : SCPBallot}
    (stable : slot.view.Stable config)
    (running : slot.view.ballots.phase ≠ .externalize)
    (bumps : Bumps environment.silent slot.view value newb) :
    Ends (updateCurrentValue newb) slot
      (fun updated finish =>
        Updated config environment slot.view newb updated finish.view)
      (Crashed config environment slot.view) := by
  have active : ¬ (slot.mBallotProtocol.mPhase ≠ .prepare ∧
      slot.mBallotProtocol.mPhase ≠ .confirm) := by
    rintro ⟨notPrepare, notConfirm⟩
    cases phase : slot.mBallotProtocol.mPhase with
    | prepare => exact notPrepare phase
    | confirm => exact notConfirm phase
    | externalize => exact running phase
  unfold updateCurrentValue
  simp only [Ends.bind_iff, getBallotProtocol_ends, if_neg active]
  cases current : slot.mBallotProtocol.mCurrentBallot with
  | none =>
      have unset : slot.view.ballots.current = none := current
      have transition : Transition config environment.silent slot.view
          (slot.view.ballots.bump newb) slot.view.accepted := by
        refine .bump value newb running bumps.available bumps.override
          (bumps.counter unset) ?_ ?_
        · intro b set
          rw [unset] at set
          cases set
        · intro b c set
          rw [unset] at set
          cases set
      simp only [Ends.bind_iff, Ends.pure_iff]
      refine (bumpAndCheck_ends transition).mono ?_ (fun _ _ fails => fails)
      intro _ middle checked
      refine checked.mono ?_ (fun _ _ fails => fails)
      intro _ finish bumped
      exact ⟨fun _ => ⟨transition, bumped⟩, fun impossible => by
        cases impossible⟩
  | some b =>
      have set : slot.view.ballots.current = some b := current
      simp only [Ends.bind_iff, dbgAssert_ends, Ends.ite_iff,
        Ends.pure_iff, decide_eq_true_eq, decide_eq_false_iff_not,
        compareBallots_nonpos_iff, compareBallots_neg_iff, gt_iff_lt,
        compareBallots_pos_iff]
      have unchanged :
          Updated config environment slot.view newb false slot.view :=
        ⟨fun impossible => (by cases impossible), fun _ => rfl⟩
      refine ⟨?_, fun _ =>
        .of_plain (.refl _) (fun _ _ _ => trivial)⟩
      intro below
      refine ⟨fun _ => unchanged, ?_⟩
      intro allowed
      refine ⟨?_, ?_⟩
      · intro less
        have transition : Transition config environment.silent slot.view
            (slot.view.ballots.bump newb) slot.view.accepted := by
          refine .bump value newb running bumps.available bumps.override
            ?_ ?_ ?_
          · intro zero
            have nonzero := stable.sound.consistent.counter b set
            have counters := SCPBallot.counter_le_of_le below
            rw [zero] at counters
            exact nonzero (le_antisymm counters (Fin.zero_le _))
          · intro b' set'
            rw [set] at set'
            cases set'
            exact less
          · intro b' c _ committed
            have compatible := allowed
            rw [Option.any_eq_true] at compatible
            by_contra differs
            exact compatible ⟨c, committed, by
              simp [areBallotsCompatible, differs]⟩
        refine (bumpAndCheck_ends transition).mono ?_
          (fun _ _ fails => fails)
        intro _ middle checked
        refine checked.mono ?_ (fun _ _ fails => fails)
        intro _ finish bumped
        exact ⟨fun _ => ⟨transition, bumped⟩, fun impossible => by
          cases impossible⟩
      · intro _
        refine ⟨fun _ => unchanged, ?_⟩
        intro _
        refine checkInvariants_ends.mono ?_ ?_
        · rintro _ finish ⟨rfl, _⟩
          exact unchanged
        · rintro reason finish ⟨rfl, _, inconsistent⟩
          exact absurd stable.sound.consistent inconsistent

theorem bumpStateTo_ends {value : Value} {n : Uint32}
    (advances : Advances config environment advanceSlot)
    (stable : slot.view.Stable config)
    (available : slot.view.Available environment.silent value)
    (counter : slot.view.ballots.current = none → n ≠ 0) :
    Ends (bumpStateTo config advanceSlot value n) slot
      (fun _ finish => Moved config environment slot.view finish.view)
      (Crashed config environment slot.view) := by
  unfold bumpStateTo
  simp only [Ends.bind_iff, getBallotProtocol_ends, Ends.ite_iff,
    Ends.pure_iff, callDriver_ends]
  refine ⟨fun _ => .refl _, ?_⟩
  intro active
  have running : slot.view.ballots.phase ≠ .externalize := by
    intro ended
    have phase : slot.mBallotProtocol.mPhase = .externalize := ended
    exact active ⟨by simp [phase], by simp [phase]⟩
  have bumps : Bumps environment.silent slot.view value
      ⟨n, (slot.mBallotProtocol.mHighBallot.map SCPBallot.value).getD
        value⟩ :=
    ⟨available, rfl, counter⟩
  refine (updateCurrentValue_ends stable running bumps).mono ?_
    (fun _ _ fails => fails)
  intro updated middle result
  refine ⟨?_, ?_⟩
  · intro worked
    obtain ⟨transition, bumped⟩ := result.bumped worked
    refine (emit_quiet rfl advances stable transition bumped).mono ?_
      (fun _ _ fails => fails)
    intro _ finish published
    exact ⟨published.whole, fun ended => absurd ended running⟩
  · intro idle
    rw [result.kept (by simpa using idle)]
    exact .refl _

theorem bumpState_ends {value : Value} {force : Bool}
    (advances : Advances config environment advanceSlot)
    (stable : slot.view.Stable config)
    (available : slot.view.Available environment.silent value) :
    Ends (bumpState config advanceSlot value force) slot
      (fun _ finish => Moved config environment slot.view finish.view)
      (Crashed config environment slot.view) := by
  unfold bumpState
  simp only [Ends.bind_iff, getBallotProtocol_ends, Ends.ite_iff,
    Ends.pure_iff]
  refine ⟨fun _ => .refl _, ?_⟩
  intro _
  refine bumpStateTo_ends advances stable available ?_
  intro unset
  have none : slot.mBallotProtocol.mCurrentBallot = none := unset
  simp [none]

theorem abandonBallot_ends {n : Uint32}
    (advances : Advances config environment advanceSlot)
    (stable : slot.view.Stable config) :
    Ends (abandonBallot config advanceSlot n) slot
      (fun _ finish => Moved config environment slot.view finish.view)
      (Crashed config environment slot.view) := by
  unfold abandonBallot
  simp only [Ends.bind_iff, Ends.get_iff]
  generalize chosen : (if slot.mLatestCompositeCandidate = [] then
    (slot.mBallotProtocol.mCurrentBallot.map SCPBallot.value).getD []
    else slot.mLatestCompositeCandidate) = value
  simp only [Ends.ite_iff, Ends.pure_iff]
  refine ⟨fun _ => .refl _, ?_⟩
  intro nonempty
  have available : slot.view.Available environment.silent value := by
    subst chosen
    split
    · rename_i empty
      cases current : slot.mBallotProtocol.mCurrentBallot with
      | none => simp [empty, current] at nonempty
      | some b => exact .inr (.inr ⟨b, current, rfl⟩)
    · rename_i filled
      exact .inr (.inl ⟨filled, rfl⟩)
  refine ⟨?_, ?_⟩
  · intro _
    exact bumpState_ends advances stable available
  · intro nonzero
    exact bumpStateTo_ends advances stable available (fun _ => nonzero)

theorem ballotProtocolTimerExpired_ends
    (advances : Advances config environment advanceSlot)
    (stable : slot.view.Stable config) :
    Ends (ballotProtocolTimerExpired config advanceSlot) slot
      (fun _ finish =>
        Path config environment.silent slot.view finish.view)
      (Crashed config environment slot.view) := by
  unfold ballotProtocolTimerExpired
  simp only [Ends.bind_iff, getBallotProtocol_ends, Ends.ite_iff,
    Ends.pure_iff]
  refine ⟨?_, ?_⟩
  · intro _
    exact (abandonBallot_ends advances stable).mono
      (fun _ _ moved => moved.path) (fun _ _ fails => fails)
  · intro _
    refine startBallotProtocolTimer_ends.mono ?_ ?_
    · intro _ finish same
      rw [same]
    · rintro reason finish ⟨records, plain⟩
      exact .of_plain records plain

end Moves

end StellarCore.Scp
