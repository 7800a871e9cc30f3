import StellarCore.Scp.CounterBumps

/-!
# Bumps at the greatest counter

Every ballot that a bump hands to `updateCurrentValue` is above the current
one, as long as no forced bump starts from the greatest counter.  Peers can
bring a node there: an EXTERNALIZE statement counts as the greatest counter
in `attemptBump` and as a boundary of every commit interval.
-/

namespace StellarCore.Scp

open StellarCore.Lib

/-! ## Programs that do not fail in `updateCurrentValue` -/

section Avoiding

/-- The assertion of `updateCurrentValue`. -/
def wrapped : Failure := .dbgAbort .updateCurrentValue

/-- The program never fails the assertion of `updateCurrentValue`. -/
abbrev Steady {α : Type} (program : BallotM α) : Prop :=
  Avoids program wrapped

theorem dbgAssert_steady {site : Site} {expression : Bool}
    (elsewhere : site ≠ .updateCurrentValue) :
    Steady (dbgAssert site expression) := by
  refine .ite .of_pure (.of_throw ?_)
  intro same
  cases same
  exact elsewhere rfl

theorem dereference_steady {α : Type} {site : Site} {pointer : Option α} :
    Steady (dereference site pointer) := by
  cases pointer with
  | none => exact .of_throw (by simp [wrapped])
  | some value => exact .of_pure

theorem getBallotProtocol_steady : Steady getBallotProtocol :=
  .bind .of_get (fun _ => .of_pure)

theorem modifyBallotProtocol_steady
    {change : BallotProtocol → BallotProtocol} :
    Steady (modifyBallotProtocol change) :=
  .of_modify

theorem callDriver_steady {call : DriverCall} : Steady (callDriver call) :=
  .of_modify

theorem visit_steady {attempt : Attempt} : Steady (visit attempt) :=
  .of_modify

theorem checkInvariants_steady : Steady checkInvariants := by
  intro slot
  refine checkInvariants_ends.mono (fun _ _ _ => trivial) ?_
  rintro reason finish ⟨_, cause, _⟩ same
  subst same
  rcases cause with abort | null
  · cases abort
  · cases null

theorem createStatement_steady {config : SlotConfig} {phase : SCPPhase} :
    Steady (createStatement config phase) := by
  refine .bind checkInvariants_steady fun _ => ?_
  refine .bind getBallotProtocol_steady fun bp => ?_
  cases phase with
  | prepare => exact .of_pure
  | confirm =>
      refine .bind dereference_steady fun commit => ?_
      refine .bind dereference_steady fun high => ?_
      refine .bind (dbgAssert_steady (by decide)) fun _ => ?_
      refine .bind dereference_steady fun current => ?_
      exact .bind dereference_steady fun prepared => .of_pure
  | externalize =>
      refine .bind dereference_steady fun commit => ?_
      refine .bind dereference_steady fun high => ?_
      exact .bind (dbgAssert_steady (by decide)) fun _ => .of_pure

theorem startBallotProtocolTimer_steady :
    Steady startBallotProtocolTimer := by
  refine .bind getBallotProtocol_steady fun bp => ?_
  exact .bind dereference_steady fun current => callDriver_steady

theorem bumpToBallot_steady {ballot : SCPBallot} {check : Bool} :
    Steady (bumpToBallot ballot check) := by
  refine .bind getBallotProtocol_steady fun bp => ?_
  refine .bind (dbgAssert_steady (by decide)) fun _ => ?_
  refine .ite (.bind (dbgAssert_steady (by decide)) fun _ => ?_) ?_
  · exact .bind modifyBallotProtocol_steady fun _ =>
      .ite startBallotProtocolTimer_steady .of_pure
  · exact .bind modifyBallotProtocol_steady fun _ =>
      .ite startBallotProtocolTimer_steady .of_pure

theorem updateCurrentIfNeeded_steady : Steady updateCurrentIfNeeded := by
  refine .bind getBallotProtocol_steady fun bp => ?_
  refine .bind dereference_steady fun high => ?_
  exact .ite bumpToBallot_steady .of_pure

theorem sendLatestEnvelope_steady : Steady sendLatestEnvelope := by
  refine .bind .of_get fun slot => ?_
  dsimp only
  cases slot.mBallotProtocol.mLastEnvelope with
  | none => exact .of_pure
  | some last =>
      exact .ite (.bind modifyBallotProtocol_steady fun _ =>
        callDriver_steady) .of_pure

/-- A bump to a ballot that is not lower passes the assertion. -/
theorem updateCurrentValue_steady {slot : Slot} {newb : SCPBallot}
    (above : ∀ b, slot.mBallotProtocol.mCurrentBallot = some b →
      b ≤ newb) :
    Ends (updateCurrentValue newb) slot (fun _ _ => True)
      (fun reason _ => reason ≠ wrapped) := by
  have bumps : Steady (do
      bumpToBallot newb true
      checkInvariants
      return true) :=
    .bind bumpToBallot_steady fun _ =>
      .bind checkInvariants_steady fun _ => .of_pure
  unfold updateCurrentValue
  rw [Ends.bind_iff, getBallotProtocol_ends, Ends.ite_iff]
  refine ⟨fun _ => trivial, fun _ => ?_⟩
  cases current : slot.mBallotProtocol.mCurrentBallot with
  | none => exact bumps slot
  | some b =>
      have below : compareBallots b newb ≤ 0 :=
        compareBallots_nonpos_iff.mpr (above b current)
      have rest : Steady (do
          if slot.mBallotProtocol.mCommit.any
              (fun commit => !areBallotsCompatible commit newb) then
            return false
          let comp := compareBallots b newb
          if comp < 0 then
            bumpToBallot newb true
            checkInvariants
            return true
          else if comp > 0 then return false
          else
            checkInvariants
            return false) :=
        .ite .of_pure (.ite bumps (.ite .of_pure
          (.bind checkInvariants_steady fun _ => .of_pure)))
      rw [Ends.bind_iff, dbgAssert_ends]
      exact ⟨fun _ => rest slot, fun refused =>
        absurd below (of_decide_eq_false refused)⟩

end Avoiding

section Recursive

variable {config : SlotConfig} {advanceSlot : SCPStatement → BallotM Unit}
  (advances : ∀ hint, Steady (advanceSlot hint))

include advances

theorem processEnvelope_steady {envelope : SCPEnvelope} {self : Bool} :
    Steady (processEnvelope config advanceSlot envelope self) := by
  have sane : Steady (isStatementSane config envelope.statement self) :=
    .bind dereference_steady fun _ => .ite .of_pure .of_pure
  refine .bind (dbgAssert_steady (by decide)) fun _ => ?_
  refine .bind sane fun isSane => ?_
  refine .ite .of_pure ?_
  refine .bind getBallotProtocol_steady fun bp => ?_
  refine .ite .of_pure (.ite .of_pure (.ite ?_ ?_))
  · refine .ite (.bind .of_modify fun _ => ?_) ?_
    · exact .bind .of_modify fun _ => .bind (advances _) fun _ => .of_pure
    · exact .bind .of_modify fun _ => .bind (advances _) fun _ => .of_pure
  · refine .bind dereference_steady fun commit => ?_
    exact .ite (.bind .of_modify fun _ => .of_pure) .of_pure

theorem emitCurrentStateStatement_steady :
    Steady (emitCurrentStateStatement config advanceSlot) := by
  refine .bind getBallotProtocol_steady fun bp => ?_
  refine .bind createStatement_steady fun statement => ?_
  refine .bind getBallotProtocol_steady fun bp => ?_
  refine .ite .of_pure ?_
  refine .bind (processEnvelope_steady advances) fun res => ?_
  refine .ite (.bind getBallotProtocol_steady fun bp => .ite ?_ .of_pure)
    (.of_throw (by simp [wrapped]))
  exact .bind .of_modify fun _ => sendLatestEnvelope_steady

theorem setPreparedAccept_steady {ballot : SCPBallot} :
    Steady (setPreparedAccept config advanceSlot ballot) := by
  refine .bind getBallotProtocol_steady fun bp => ?_
  refine .bind modifyBallotProtocol_steady fun _ => ?_
  have publishes : ∀ result : Bool, Steady (do
      callDriver (.acceptedBallotPrepared ballot)
      emitCurrentStateStatement config advanceSlot
      return result) := fun result =>
    .bind callDriver_steady fun _ =>
      .bind (emitCurrentStateStatement_steady advances) fun _ => .of_pure
  refine .ite (.bind (dbgAssert_steady (by decide)) fun _ =>
    .bind modifyBallotProtocol_steady fun _ => ?_) ?_
  · exact .ite (publishes _) .of_pure
  · exact .ite (publishes _) .of_pure

theorem attemptPreparedAccept_steady {hint : SCPStatement} :
    Steady (attemptPreparedAccept config advanceSlot hint) := by
  have skips : ∀ bp ballot, Steady (skipsPreparedAccept bp ballot) := by
    intro bp ballot
    refine .ite (.bind dereference_steady fun prepared => ?_) .of_pure
    refine .ite .of_pure (.bind dereference_steady fun commit => ?_)
    exact .bind (dbgAssert_steady (by decide)) fun _ => .of_pure
  have from_steady : ∀ bp candidates, Steady
      (attemptPreparedAcceptFrom config advanceSlot bp candidates) := by
    intro bp candidates
    induction candidates with
    | nil => exact .of_pure
    | cons ballot candidates ih =>
        refine .bind (skips bp ballot) fun skipped => ?_
        exact .ite ih (.ite (setPreparedAccept_steady advances) ih)
  refine .bind visit_steady fun _ => ?_
  refine .bind getBallotProtocol_steady fun bp => ?_
  exact .ite .of_pure (from_steady _ _)

theorem attemptPreparedConfirmed_steady {hint : SCPStatement} :
    Steady (attemptPreparedConfirmed config advanceSlot hint) := by
  have sets : ∀ newC newH,
      Steady (setPreparedConfirmed config advanceSlot newC newH) := by
    intro newC newH
    have publishes : ∀ result : Bool, Steady (do
        updateCurrentIfNeeded
        callDriver (.confirmedBallotPrepared newH)
        emitCurrentStateStatement config advanceSlot
        return result) := fun result =>
      .bind updateCurrentIfNeeded_steady fun _ =>
        .bind callDriver_steady fun _ =>
          .bind (emitCurrentStateStatement_steady advances) fun _ =>
            .of_pure
    have commits : ∀ bp result : Bool, Steady (do
        if newC.counter ≠ 0 then
          dbgAssert .setPreparedConfirmed bp
          modifyBallotProtocol fun bp => { bp with mCommit := some newC }
        if result then
          updateCurrentIfNeeded
          callDriver (.confirmedBallotPrepared newH)
          emitCurrentStateStatement config advanceSlot
        return result) := by
      intro bp result
      refine .ite (.bind (dbgAssert_steady (by decide)) fun _ =>
        .bind modifyBallotProtocol_steady fun _ => ?_) ?_
      · exact .ite (publishes _) .of_pure
      · exact .ite (publishes _) .of_pure
    refine .bind getBallotProtocol_steady fun bp => ?_
    refine .ite (.bind modifyBallotProtocol_steady fun _ => ?_) ?_
    · exact commits _ _
    · exact commits _ _
  refine .bind visit_steady fun _ => ?_
  refine .bind getBallotProtocol_steady fun bp => ?_
  refine .ite .of_pure (.ite .of_pure ?_)
  cases findNewH config bp (getPrepareCandidates bp hint).reverse with
  | none => exact .of_pure
  | some found => exact sets _ _

theorem attemptAcceptCommit_steady {hint : SCPStatement} :
    Steady (attemptAcceptCommit config advanceSlot hint) := by
  have sets : ∀ c h, Steady (setAcceptCommit config advanceSlot c h) := by
    intro c h
    have publishes : ∀ result : Bool, Steady (do
        updateCurrentIfNeeded
        callDriver (.acceptedCommit h)
        emitCurrentStateStatement config advanceSlot
        return result) := fun result =>
      .bind updateCurrentIfNeeded_steady fun _ =>
        .bind callDriver_steady fun _ =>
          .bind (emitCurrentStateStatement_steady advances) fun _ =>
            .of_pure
    have enters : Steady (enterConfirm h) := by
      refine .bind modifyBallotProtocol_steady fun _ => ?_
      refine .bind getBallotProtocol_steady fun bp => ?_
      refine .ite (.bind bumpToBallot_steady fun _ => ?_) ?_
      · exact modifyBallotProtocol_steady
      · exact modifyBallotProtocol_steady
    refine .bind getBallotProtocol_steady fun bp => ?_
    refine .bind modifyBallotProtocol_steady fun _ => ?_
    refine .ite (.bind enters fun _ => ?_) ?_
    · exact .ite (publishes _) .of_pure
    · exact .ite (publishes _) .of_pure
  refine .bind visit_steady fun _ => ?_
  refine .bind getBallotProtocol_steady fun bp => ?_
  refine .ite .of_pure ?_
  cases commitHint hint with
  | none => exact .of_pure
  | some ballot =>
      have searches : Steady (do
          let candidate := acceptedInterval config bp ballot
          if candidate.first = 0 then return false
          if bp.mPhase = .confirm ∧ ¬ bp.mHighBallot.any
              (fun high => decide (candidate.second > high.counter)) then
            return false
          setAcceptCommit config advanceSlot
            ⟨candidate.first, ballot.value⟩
            ⟨candidate.second, ballot.value⟩) :=
        .ite .of_pure (.ite .of_pure (sets _ _))
      refine .ite (.bind dereference_steady fun high => ?_) searches
      exact .ite .of_pure searches

theorem attemptConfirmCommit_steady {hint : SCPStatement} :
    Steady (attemptConfirmCommit config advanceSlot hint) := by
  have sets : ∀ c h, Steady (setConfirmCommit config advanceSlot c h) := by
    intro c h
    refine .bind modifyBallotProtocol_steady fun _ => ?_
    refine .bind updateCurrentIfNeeded_steady fun _ => ?_
    refine .bind modifyBallotProtocol_steady fun _ => ?_
    refine .bind (emitCurrentStateStatement_steady advances) fun _ => ?_
    refine .bind getBallotProtocol_steady fun bp => ?_
    refine .bind dereference_steady fun commit => ?_
    exact .bind callDriver_steady fun _ => .of_pure
  refine .bind visit_steady fun _ => ?_
  refine .bind getBallotProtocol_steady fun bp => ?_
  refine .ite .of_pure ?_
  split
  · split
    · exact .of_pure
    · exact .of_pure
    · exact .ite .of_pure (.ite .of_pure (sets _ _))
  · exact .of_pure

theorem bumpStateTo_steady {slot : Slot} {value : Value} {n : Uint32}
    (above : ∀ b, slot.mBallotProtocol.mCurrentBallot = some b →
      b ≤ slot.mBallotProtocol.bumpedBallot value n) :
    Ends (bumpStateTo config advanceSlot value n) slot (fun _ _ => True)
      (fun reason _ => reason ≠ wrapped) := by
  unfold bumpStateTo
  rw [Ends.bind_iff, getBallotProtocol_ends, Ends.ite_iff]
  refine ⟨fun _ => trivial, fun _ => ?_⟩
  rw [Ends.bind_iff]
  refine (updateCurrentValue_steady above).mono ?_
    (fun _ _ avoided => avoided)
  intro updated middle _
  have publishes : Steady (do
      if updated then
        callDriver (.startedBallotProtocol
          (slot.mBallotProtocol.bumpedBallot value n))
        emitCurrentStateStatement config advanceSlot
      return updated) :=
    .ite (.bind callDriver_steady fun _ =>
      .bind (emitCurrentStateStatement_steady advances) fun _ => .of_pure)
      .of_pure
  exact publishes middle

theorem attemptBump_steady : Steady (attemptBump config advanceSlot) := by
  intro slot
  unfold attemptBump
  rw [visiting_ends, Ends.ite_iff]
  refine ⟨fun _ => trivial, fun _ => ?_⟩
  dsimp only
  split
  · exact trivial
  · rename_i n found
    have higher : localCounter slot.mBallotProtocol < n :=
      lt_of_bumpTarget found
    have nonzero : n ≠ 0 :=
      Fin.pos_iff_ne_zero.mp ((Fin.zero_le _).trans_lt higher)
    unfold abandonBallot
    simp only [Ends.bind_iff, Ends.get_iff, Ends.ite_iff, nonzero]
    refine ⟨fun _ => trivial, fun _ => ⟨fun zero => zero.elim,
      fun _ => ?_⟩⟩
    apply bumpStateTo_steady advances
    intro b current
    have same : slot.mBallotProtocol.mCurrentBallot = some b := current
    refine le_of_lt (SCPBallot.lt_iff.mpr (.inl ?_))
    simpa [localCounter, same, BallotProtocol.bumpedBallot] using higher

theorem bumpLoop_steady (turns : Nat) (didWork : Bool) :
    Steady (bumpLoop config advanceSlot turns didWork) := by
  induction turns generalizing didWork with
  | zero => exact .of_throw (by simp [wrapped])
  | succ turns ih =>
      refine .bind (attemptBump_steady advances) fun didBump => ?_
      exact .ite (ih true) .of_pure

theorem advanceSlotWith_steady {hint : SCPStatement} :
    Steady (advanceSlotWith config advanceSlot hint) := by
  have heard : Steady (checkHeardFromQuorum config) := by
    refine .bind getBallotProtocol_steady fun bp => ?_
    split
    · exact .ite (.bind modifyBallotProtocol_steady fun _ =>
        callDriver_steady) .of_pure
    · exact .of_pure
  have steps : Steady (attemptSteps config advanceSlot hint) := by
    refine .bind (attemptPreparedAccept_steady advances) fun _ => ?_
    refine .bind (attemptPreparedConfirmed_steady advances) fun _ => ?_
    refine .bind (attemptAcceptCommit_steady advances) fun _ => ?_
    exact .bind (attemptConfirmCommit_steady advances) fun _ => .of_pure
  have bumps : ∀ didWork,
      Steady (bumpAtFirstLevel config advanceSlot didWork) := by
    intro didWork
    refine .bind getBallotProtocol_steady fun bp => ?_
    exact .ite (bumpLoop_steady advances _ _) .of_pure
  have ends : Steady (do
      checkHeardFromQuorum config
      let didWork ← attemptSteps config advanceSlot hint
      let didWork ← bumpAtFirstLevel config advanceSlot didWork
      modifyBallotProtocol fun bp =>
        { bp with mCurrentMessageLevel := bp.mCurrentMessageLevel - 1 }
      if didWork then sendLatestEnvelope) := by
    refine .bind heard fun _ => .bind steps fun didWork => ?_
    refine .bind (bumps didWork) fun didWork => ?_
    exact .bind modifyBallotProtocol_steady fun _ =>
      .ite sendLatestEnvelope_steady .of_pure
  refine .bind modifyBallotProtocol_steady fun _ => ?_
  refine .bind getBallotProtocol_steady fun bp => ?_
  exact .ite (.bind (.of_throw (by simp [wrapped])) fun _ => ends) ends

end Recursive

theorem advanceSlot_steady {config : SlotConfig} (hint : SCPStatement) :
    Steady (advanceSlot config hint) := by
  have atLevel : ∀ levels hint,
      Steady (advanceSlotAt config levels hint) := by
    intro levels
    induction levels with
    | zero => exact fun _ => .of_throw (by simp [wrapped])
    | succ levels ih => exact fun hint => advanceSlotWith_steady ih
  exact atLevel _ hint

/-! ## The bumps of a run -/

/-- The value and the flag with which an input calls
`bumpState(value, force)`. -/
def Input.bumpCall (slot : Slot) : Input → Option (Value × Bool)
  | .receiveEnvelope _ => none
  | .bumpState value force => some (value, force)
  | .abandonBallot =>
      if slot.abandonValue = [] then none
      else some (slot.abandonValue, true)
  | .ballotProtocolTimerExpired =>
      if slot.mBallotProtocol.mHeardFromQuorum = false ∨
          slot.abandonValue = [] then none
      else some (slot.abandonValue, true)
  | .updatedCandidateValue value => some (value, false)

/-- The ballot from which the input computes `counter + 1`. -/
def Input.increments (slot : Slot) (input : Input) : Option SCPBallot :=
  match input.bumpCall slot with
  | some (_, true) => slot.mBallotProtocol.mCurrentBallot
  | _ => none

/-- The counter that `bumpState(value, force)` computes. -/
def BallotProtocol.nextCounter (bp : BallotProtocol) : Uint32 :=
  (bp.mCurrentBallot.map (fun current => current.counter + 1)).getD 1

/-- The ballot that the input hands to `updateCurrentValue`. -/
def Input.updateArgument (slot : Slot) (input : Input) : Option SCPBallot :=
  match input.bumpCall slot with
  | none => none
  | some (value, force) =>
      if slot.mBallotProtocol.mPhase = .externalize ∨
          (force = false ∧ slot.mBallotProtocol.mCurrentBallot ≠ none) then
        none
      else
        some (slot.mBallotProtocol.bumpedBallot value
          slot.mBallotProtocol.nextCounter)

section Inputs

variable {config : SlotConfig} {slot : Slot}

/-- What follows a call of `updateCurrentValue` in `bumpState`. -/
def updateAndPublish (config : SlotConfig) (ballot : SCPBallot) :
    BallotM Bool := do
  let updated ← updateCurrentValue ballot
  if updated then
    callDriver (.startedBallotProtocol ballot)
    emitCurrentStateStatement config (advanceSlot config)
  return updated

private theorem bumpState_calls {bp : BallotProtocol} {value : Value}
    {force : Bool} (same : slot.mBallotProtocol = bp)
    (running : bp.mPhase ≠ .externalize)
    (called : ¬ (force = false ∧ bp.mCurrentBallot ≠ none)) :
    Arrives (bumpState config (advanceSlot config) value force) slot
      (updateAndPublish config (bp.bumpedBallot value bp.nextCounter))
      (fun middle => middle.mBallotProtocol = bp) := by
  have goesOn : ¬ (!force && bp.mCurrentBallot.isSome) = true := by
    rw [Bool.and_eq_true, Bool.not_eq_true', Option.isSome_iff_ne_none]
    exact called
  unfold bumpState
  apply Arrives.bind
  rw [getBallotProtocol_ends, same, if_neg goesOn]
  unfold bumpStateTo
  apply Arrives.bind
  rw [getBallotProtocol_ends, same,
    if_neg (SCPPhase.active_iff.mpr running)]
  exact .here same

private theorem abandonBallot_calls {rest : BallotM Bool}
    {there : Slot → Prop} (available : slot.abandonValue ≠ [])
    (calls : Arrives (bumpState config (advanceSlot config)
      slot.abandonValue true) slot rest there) :
    Arrives (abandonBallot config (advanceSlot config) 0) slot rest
      there := by
  unfold abandonBallot
  apply Arrives.bind
  rw [Ends.get_iff]
  have value : (if slot.mLatestCompositeCandidate = []
      then (slot.mBallotProtocol.mCurrentBallot.map
        SCPBallot.value).getD []
      else slot.mLatestCompositeCandidate) = slot.abandonValue := rfl
  simp only [value, if_neg available, if_true]
  exact calls

/-- An input whose argument is a ballot hands that to `updateCurrentValue`,
in the state it finds. -/
theorem perform_calls {input : Input} {ballot : SCPBallot}
    (called : input.updateArgument slot = some ballot) :
    Arrives (perform config input) slot
      (do let _ ← updateAndPublish config ballot)
      (fun middle => middle.mBallotProtocol = slot.mBallotProtocol) := by
  unfold Input.updateArgument at called
  cases bumps : input.bumpCall slot with
  | none => simp [bumps] at called
  | some call =>
      obtain ⟨value, force⟩ := call
      simp only [bumps] at called
      split at called
      · cases called
      · rename_i active
        cases called
        rw [not_or] at active
        cases input with
        | receiveEnvelope envelope => cases bumps
        | bumpState value force =>
            cases bumps
            exact (bumpState_calls rfl active.1 active.2).append
        | abandonBallot =>
            simp only [Input.bumpCall] at bumps
            split at bumps
            · cases bumps
            · rename_i available
              cases bumps
              exact (abandonBallot_calls available
                (bumpState_calls rfl active.1 active.2)).append
        | ballotProtocolTimerExpired =>
            simp only [Input.bumpCall] at bumps
            split at bumps
            · cases bumps
            · rename_i heard
              cases bumps
              rw [not_or, Bool.not_eq_false] at heard
              unfold perform ballotProtocolTimerExpired
              apply Arrives.bind
              rw [getBallotProtocol_ends, if_pos heard.1]
              exact (abandonBallot_calls heard.2
                (bumpState_calls rfl active.1 active.2)).append
        | updatedCandidateValue value =>
            cases bumps
            unfold perform updatedCandidateValue
            apply Arrives.bind
            rw [Ends.modify_iff]
            have same : Slot.mBallotProtocol
                { slot with mLatestCompositeCandidate := value } =
                slot.mBallotProtocol := rfl
            exact (bumpState_calls same active.1 active.2).append

/-- The ballot is above the current one and its counter is not 0. -/
def BallotProtocol.Ascends (bp : BallotProtocol) (ballot : SCPBallot) :
    Prop :=
  ballot.counter ≠ 0 ∧ ∀ b, bp.mCurrentBallot = some b → b ≤ ballot

theorem lt_add_one_of_ne_max {n : Uint32} (below : n ≠ uint32Max) :
    n < n + 1 := by
  have bound := n.isLt
  have differs : n.val ≠ 4294967295 := fun equal =>
    below (Fin.ext equal)
  rw [Fin.lt_def, Fin.val_add]
  show n.val < (n.val + 1) % 2 ^ 32
  rw [Nat.mod_eq_of_lt (by omega)]
  omega

theorem nextCounter_ascends {bp : BallotProtocol} {value : Value}
    (below : ∀ b, bp.mCurrentBallot = some b → b.counter ≠ uint32Max) :
    bp.Ascends (bp.bumpedBallot value bp.nextCounter) := by
  unfold BallotProtocol.Ascends BallotProtocol.bumpedBallot
    BallotProtocol.nextCounter
  cases current : bp.mCurrentBallot with
  | none =>
      exact ⟨by simp, fun b set => by cases set⟩
  | some b =>
      have grows := lt_add_one_of_ne_max (below b current)
      refine ⟨Fin.pos_iff_ne_zero.mp ((Fin.zero_le _).trans_lt grows), ?_⟩
      intro b' set
      cases set
      exact le_of_lt (SCPBallot.lt_iff.mpr (.inl grows))

/-- Bumps that are not forced start from no ballot. -/
theorem updateArgument_ascends {input : Input} {ballot : SCPBallot}
    (below : ∀ b, input.increments slot = some b →
      b.counter ≠ uint32Max)
    (called : input.updateArgument slot = some ballot) :
    slot.mBallotProtocol.Ascends ballot := by
  unfold Input.updateArgument at called
  unfold Input.increments at below
  cases bumps : input.bumpCall slot with
  | none => simp [bumps] at called
  | some call =>
      obtain ⟨value, force⟩ := call
      simp only [bumps] at called below
      split at called
      · cases called
      · rename_i active
        cases called
        apply nextCounter_ascends
        intro b current
        cases force with
        | true => exact below b current
        | false => exact absurd (.inr ⟨rfl, by simp [current]⟩) active

theorem bumpTarget_ascends {bp : BallotProtocol} {n : Uint32}
    (found : bumpTarget config bp = some n) (value : Value) :
    bp.Ascends (bp.bumpedBallot value n) := by
  have above := lt_of_bumpTarget found
  refine ⟨Fin.pos_iff_ne_zero.mp ((Fin.zero_le _).trans_lt above), ?_⟩
  intro b current
  refine le_of_lt (SCPBallot.lt_iff.mpr (.inl ?_))
  simpa [localCounter, current, BallotProtocol.bumpedBallot] using above

private theorem bumpState_steady {value : Value} {force : Bool}
    (below : force = true → ∀ b,
      slot.mBallotProtocol.mCurrentBallot = some b →
        b.counter ≠ uint32Max) :
    Ends (bumpState config (advanceSlot config) value force) slot
      (fun _ _ => True) (fun reason _ => reason ≠ wrapped) := by
  unfold bumpState
  rw [Ends.bind_iff, getBallotProtocol_ends, Ends.ite_iff]
  refine ⟨fun _ => trivial, fun goesOn => ?_⟩
  apply bumpStateTo_steady advanceSlot_steady
  refine (nextCounter_ascends ?_).2
  intro b current
  cases force with
  | true => exact below rfl b current
  | false => simp [current] at goesOn

private theorem abandonBallot_steady
    (below : slot.abandonValue ≠ [] → ∀ b,
      slot.mBallotProtocol.mCurrentBallot = some b →
        b.counter ≠ uint32Max) :
    Ends (abandonBallot config (advanceSlot config) 0) slot
      (fun _ _ => True) (fun reason _ => reason ≠ wrapped) := by
  unfold abandonBallot
  rw [Ends.bind_iff, Ends.get_iff, Ends.ite_iff]
  refine ⟨fun _ => trivial, fun available => ?_⟩
  rw [if_pos rfl]
  exact bumpState_steady (fun _ => below available)

theorem perform_steady {input : Input}
    (below : ∀ b, input.increments slot = some b →
      b.counter ≠ uint32Max) :
    Ends (perform config input) slot (fun _ _ => True)
      (fun reason _ => reason ≠ wrapped) := by
  unfold Input.increments at below
  cases input with
  | receiveEnvelope envelope =>
      have receives : Steady (receiveEnvelope config envelope) :=
        .ite .of_pure (.ite .of_pure (.ite .of_pure
          (.bind (processEnvelope_steady advanceSlot_steady)
            fun _ => .of_pure)))
      exact receives slot
  | bumpState value force =>
      unfold perform
      rw [Ends.bind_iff]
      refine (bumpState_steady ?_).mono (fun _ _ _ => trivial)
        (fun _ _ avoided => avoided)
      intro forced
      subst forced
      exact below
  | abandonBallot =>
      unfold perform
      rw [Ends.bind_iff]
      refine (abandonBallot_steady ?_).mono (fun _ _ _ => trivial)
        (fun _ _ avoided => avoided)
      intro available
      simpa [Input.bumpCall, available] using below
  | ballotProtocolTimerExpired =>
      unfold perform ballotProtocolTimerExpired
      rw [Ends.bind_iff, getBallotProtocol_ends, Ends.ite_iff]
      refine ⟨fun heard => ?_, fun _ => startBallotProtocolTimer_steady _⟩
      rw [Ends.bind_iff]
      refine (abandonBallot_steady ?_).mono (fun _ _ _ => trivial)
        (fun _ _ avoided => avoided)
      intro available
      simpa [Input.bumpCall, available, heard] using below
  | updatedCandidateValue value =>
      unfold perform updatedCandidateValue
      rw [Ends.bind_iff, Ends.modify_iff, Ends.bind_iff]
      exact (bumpState_steady (fun forced => by cases forced)).mono
        (fun _ _ _ => trivial) (fun _ _ avoided => avoided)

end Inputs

/-- Every forced bump of the run is made below the greatest counter. -/
def ForcedBelowMax (config : SlotConfig) (inputs : List Input) : Prop :=
  ∀ earlier input later, inputs = earlier ++ input :: later →
    (runInputs config earlier).failure = none →
    ∀ b, input.increments (runInputs config earlier).slot = some b →
      b.counter ≠ uint32Max

/-- The counter never wraps in the run: the ballots that inputs and attempts
hand to `updateCurrentValue` are not below the current one and have a
counter, `counter + 1` is not computed at the maximum, and the assertion of
`updateCurrentValue` does not fail. -/
structure NeverWraps (config : SlotConfig) (inputs : List Input) : Prop where
  called : ∀ earlier input later, inputs = earlier ++ input :: later →
    (runInputs config earlier).failure = none →
    ∀ ballot,
      input.updateArgument (runInputs config earlier).slot = some ballot →
      (runInputs config earlier).slot.mBallotProtocol.Ascends ballot
  attempted : ∀ bp, ⟨.bump, bp⟩ ∈ (runInputs config inputs).slot.visits →
    ∀ n, bumpTarget config bp = some n →
      ∀ value, bp.Ascends (bp.bumpedBallot value n)
  incremented : ∀ earlier input later, inputs = earlier ++ input :: later →
    (runInputs config earlier).failure = none →
    ∀ b, input.increments (runInputs config earlier).slot = some b →
      b.counter < b.counter + 1
  asserted : (runInputs config inputs).failure ≠ some wrapped

private theorem runInputs_steady {config : SlotConfig}
    (inputs : List Input) (below : ForcedBelowMax config inputs) :
    (runInputs config inputs).failure ≠ some wrapped := by
  induction inputs using List.reverseRecOn with
  | nil => simp [runInputs, Process.start]
  | append_singleton inputs input ih =>
      have earlierSteady := ih (by
        intro earlier other later split
        exact below earlier other (later ++ [input]) (by simp [split]))
      have here := below inputs input [] rfl
      unfold runInputs at here earlierSteady ⊢
      rw [List.foldl_concat]
      generalize List.foldl (Process.handle config) (Process.start config)
        inputs = process at here earlierSteady ⊢
      unfold Process.handle Process.run
      cases failure : process.failure with
      | some reason =>
          rw [failure] at earlierSteady
          simpa [failure] using earlierSteady
      | none =>
          have steady : Ends (perform config input) process.slot
              (fun _ _ => True) (fun reason _ => reason ≠ wrapped) :=
            perform_steady (here failure)
          cases outcome : perform config input process.slot with
          | ok result slot => simp
          | error reason slot => simpa using steady.of_error outcome

theorem runInputs_neverWraps_iff (config : SlotConfig)
    (inputs : List Input) :
    NeverWraps config inputs ↔ ForcedBelowMax config inputs := by
  constructor
  · intro never earlier input later split alive b increments maximal
    have grows := never.incremented earlier input later split alive b
      increments
    exact absurd (le_uint32Max (b.counter + 1))
      (not_le.mpr (maximal ▸ grows))
  · intro below
    refine ⟨?_, ?_, ?_, runInputs_steady inputs below⟩
    · intro earlier input later split alive ballot argument
      exact updateArgument_ascends
        (below earlier input later split alive) argument
    · intro bp _ n found value
      exact bumpTarget_ascends found value
    · intro earlier input later split alive b increments
      exact lt_add_one_of_ne_max
        (below earlier input later split alive b increments)

/-- Node 1 blocks the quorum set and announces the greatest counter; the
node follows, hears from its quorum, and its timer expires. -/
def maxCounterInputs : List Input :=
  [.bumpState [1] true,
    receivePrepare 1 ⟨uint32Max, [1]⟩ none none,
    .ballotProtocolTimerExpired]

theorem maxCounter_wraps :
    (runInputs (smallSlot ⟨2, [0, 1], []⟩) maxCounterInputs).failure =
        some (.dbgAbort .updateCurrentValue) ∧
      ¬ NeverWraps (smallSlot ⟨2, [0, 1], []⟩) maxCounterInputs := by
  have aborts : (runInputs (smallSlot ⟨2, [0, 1], []⟩)
      maxCounterInputs).failure = some (.dbgAbort .updateCurrentValue) := by
    decide +kernel
  exact ⟨aborts, fun never => never.asserted aborts⟩

end StellarCore.Scp
