import StellarCore.Scp.BallotSearch

/-!
# Publishing a statement

Every method of the ballot protocol, started in a stable view, follows a path
of steps.  A method that fails does so after such a path, and the failure is
explained by the state in which it happened.  This module says so for the
methods that build, record and emit the node's own statement; the recursive
call of `advanceSlot` is only known by its specification `Advances`.
-/

namespace StellarCore.Scp

open StellarCore.Lib

/-- What is left of a process after it has ended.  The driver may already
know of a ballot that the node was about to publish. -/
structure SlotView.SameRecords (view other : SlotView) : Prop where
  history : view.history = other.history
  emitted : view.emitted = other.emitted
  externalized : view.externalized = other.externalized
  visits : view.visits = other.visits
  accepted : other.accepted ⊆ view.accepted

theorem SlotView.SameRecords.refl (view : SlotView) :
    view.SameRecords view :=
  ⟨rfl, rfl, rfl, rfl, List.Subset.refl _⟩

/-- Why a program may fail in a view. -/
def Blame (config : SlotConfig) (environment : Environment)
    (view : SlotView) : Failure → Prop
  | .dbgAbort .checkInvariants | .nullDereference .checkInvariants =>
      ∃ next accepted, Transition config environment view next accepted ∧
        ¬ next.Consistent
  | .movedToBadState =>
      ∃ next accepted pledges,
        Transition config environment view next accepted ∧
        next.Consistent ∧ next.pledges config = some pledges ∧
        view.envelopes.lookup config.getLocalNodeID ≠
          some (config.createEnvelope pledges) ∧
        ¬ view.Admits config (config.createEnvelope pledges).statement true
  | .dbgAbort .attemptPreparedAccept =>
      view.ballots.phase = .confirm ∧ ∃ p c,
        view.ballots.prepared = some p ∧ view.ballots.commit = some c ∧
          p.value ≠ c.value
  | .nullDereference .attemptPreparedAccept
  | .nullDereference .createStatement
  | .dbgAbort .createStatement => False
  | _ => True

/-- A failure after a path of steps, with its explanation. -/
def Crashed (config : SlotConfig) (environment : Environment)
    (start : SlotView) (reason : Failure) (slot : Slot) : Prop :=
  ∃ view, Path config environment.silent start view ∧
    slot.view.SameRecords view ∧
    Blame config environment.silent view reason

section Publishing

variable {config : SlotConfig} {environment : Environment} {slot : Slot}
  {view : SlotView} {next : Ballots} {accepted : List SCPBallot}

theorem Crashed.after {middle start : SlotView} {reason : Failure}
    (path : Path config environment.silent start middle)
    (crashed : Crashed config environment middle reason slot) :
    Crashed config environment start reason slot := by
  obtain ⟨view, rest, records, blame⟩ := crashed
  exact ⟨view, path.trans rest, records, blame⟩

private theorem checkCurrentBallot_ends (bp : BallotProtocol) :
    Ends (checkCurrentBallot bp) slot
      (fun _ finish => finish = slot ∧
        ∀ b, bp.mCurrentBallot = some b → b.counter ≠ 0)
      (fun reason finish => finish = slot ∧
        reason = .dbgAbort .checkInvariants ∧
        ¬ ∀ b, bp.mCurrentBallot = some b → b.counter ≠ 0) := by
  unfold checkCurrentBallot
  cases bp.mCurrentBallot with
  | none => simp
  | some b => simp

private theorem checkPrepared_ends (bp : BallotProtocol) :
    Ends (checkPrepared bp) slot
      (fun _ finish => finish = slot ∧
        ∀ p p', bp.mPrepared = some p → bp.mPreparedPrime = some p' →
          p' ≤ p ∧ p'.value ≠ p.value)
      (fun reason finish => finish = slot ∧
        reason = .dbgAbort .checkInvariants ∧
        ¬ ∀ p p', bp.mPrepared = some p → bp.mPreparedPrime = some p' →
          p' ≤ p ∧ p'.value ≠ p.value) := by
  unfold checkPrepared
  cases bp.mPrepared with
  | none => simp
  | some p =>
      cases bp.mPreparedPrime with
      | none => simp
      | some p' => simp [← Bool.not_eq_true]

private theorem checkCommit_ends (bp : BallotProtocol) :
    Ends (checkCommit bp) slot
      (fun _ finish => finish = slot ∧
        ∀ c, bp.mCommit = some c →
          ∃ h b, bp.mHighBallot = some h ∧ bp.mCurrentBallot = some b ∧
            (c ≤ h ∧ c.value = h.value) ∧ (h ≤ b ∧ h.value = b.value))
      (fun reason finish => finish = slot ∧
        (reason = .dbgAbort .checkInvariants ∨
          reason = .nullDereference .checkInvariants) ∧
        ¬ ∀ c, bp.mCommit = some c →
          ∃ h b, bp.mHighBallot = some h ∧ bp.mCurrentBallot = some b ∧
            (c ≤ h ∧ c.value = h.value) ∧
            (h ≤ b ∧ h.value = b.value)) := by
  unfold checkCommit
  cases bp.mCommit with
  | none => simp
  | some c =>
      cases bp.mCurrentBallot with
      | none => simp
      | some b =>
          cases bp.mHighBallot with
          | none => simp
          | some h =>
              simp [← Bool.not_eq_true]
              tauto

private theorem checkPhase_ends (bp : BallotProtocol) :
    Ends (checkPhase bp) slot
      (fun _ finish => finish = slot ∧
        (bp.mPhase ≠ .prepare → bp.mCommit ≠ none))
      (fun reason finish => finish = slot ∧
        reason = .dbgAbort .checkInvariants ∧
        (bp.mCommit = none ∨ bp.mHighBallot = none) ∧
        bp.mPhase ≠ .prepare) := by
  unfold checkPhase
  cases bp.mPhase with
  | prepare => simp
  | confirm =>
      cases bp.mCommit with
      | none => simp
      | some c => simp
  | externalize =>
      cases bp.mCommit with
      | none => simp
      | some c =>
          cases bp.mHighBallot with
          | none => simp
          | some h => simp

/-- `checkInvariants` passes exactly in the consistent states. -/
theorem checkInvariants_ends :
    Ends checkInvariants slot
      (fun _ finish => finish = slot ∧
        slot.mBallotProtocol.ballots.Consistent)
      (fun reason finish => finish = slot ∧
        (reason = .dbgAbort .checkInvariants ∨
          reason = .nullDereference .checkInvariants) ∧
        ¬ slot.mBallotProtocol.ballots.Consistent) := by
  unfold checkInvariants
  simp only [Ends.bind_iff, getBallotProtocol_ends]
  refine (checkCurrentBallot_ends _).mono ?_ ?_
  · rintro _ _ ⟨rfl, counter⟩
    refine (checkPrepared_ends _).mono ?_ ?_
    · rintro _ _ ⟨rfl, prime⟩
      refine (checkCommit_ends _).mono ?_ ?_
      · rintro _ _ ⟨rfl, commit⟩
        refine (checkPhase_ends _).mono ?_ ?_
        · rintro _ _ ⟨rfl, confirmed⟩
          exact ⟨rfl, counter, prime, commit, confirmed⟩
        · rintro _ _ ⟨rfl, rfl, missing, started⟩
          refine ⟨rfl, .inl rfl, ?_⟩
          intro consistent
          obtain ⟨c, set⟩ := Option.ne_none_iff_exists'.mp
            (consistent.confirmed started)
          obtain ⟨h, _, high, _⟩ := consistent.commit c set
          rcases missing with unset | unset
          · exact Option.some_ne_none c (set.symm.trans unset)
          · exact Option.some_ne_none h (high.symm.trans unset)
      · rintro _ _ ⟨rfl, reason, fails⟩
        exact ⟨rfl, reason, fun consistent => fails consistent.commit⟩
    · rintro _ _ ⟨rfl, rfl, fails⟩
      exact ⟨rfl, .inl rfl, fun consistent => fails consistent.prime⟩
  · rintro _ _ ⟨rfl, rfl, fails⟩
    exact ⟨rfl, .inl rfl, fun consistent => fails consistent.counter⟩

/-- Out of sound ballots a statement can be built. -/
theorem createStatement_ends
    (sound : slot.mBallotProtocol.ballots.Consistent →
      slot.mBallotProtocol.ballots.Sound) :
    Ends (createStatement config slot.mBallotProtocol.mPhase) slot
      (fun pledges finish => finish = slot ∧
        slot.mBallotProtocol.ballots.Consistent ∧
        slot.mBallotProtocol.ballots.pledges config = some pledges)
      (fun reason finish => finish = slot ∧
        (reason = .dbgAbort .checkInvariants ∨
          reason = .nullDereference .checkInvariants) ∧
        ¬ slot.mBallotProtocol.ballots.Consistent) := by
  unfold createStatement
  simp only [Ends.bind_iff]
  refine checkInvariants_ends.mono ?_ (fun _ _ fails => fails)
  rintro _ slot ⟨rfl, consistent⟩
  simp only [getBallotProtocol_ends]
  cases phase : slot.mBallotProtocol.mPhase with
  | prepare => simp [Ballots.pledges, phase, consistent]
  | confirm =>
      have started : slot.mBallotProtocol.ballots.phase ≠ .prepare := by
        simp [phase]
      obtain ⟨c, commit⟩ := Option.ne_none_iff_exists'.mp
        (consistent.confirmed started)
      obtain ⟨h, b, high, current, low, _⟩ := consistent.commit c commit
      obtain ⟨p, prepared⟩ := Option.ne_none_iff_exists'.mp
        ((sound consistent).confirmed started).1
      simp only [BallotProtocol.ballots_commit, BallotProtocol.ballots_high,
        BallotProtocol.ballots_current, BallotProtocol.ballots_prepared]
        at commit high current prepared
      simp [Ballots.pledges, phase, commit, high, current, prepared, low,
        consistent]
  | externalize =>
      have started : slot.mBallotProtocol.ballots.phase ≠ .prepare := by
        simp [phase]
      obtain ⟨c, commit⟩ := Option.ne_none_iff_exists'.mp
        (consistent.confirmed started)
      obtain ⟨h, b, high, current, low, _⟩ := consistent.commit c commit
      simp only [BallotProtocol.ballots_commit, BallotProtocol.ballots_high]
        at commit high
      simp [Ballots.pledges, phase, commit, high, low, consistent]

/-- The slot after recording an envelope. -/
def Slot.recorded (slot : Slot) (flag : Bool) (envelope : SCPEnvelope) :
    Slot :=
  { slot with
    mFullyValidated := flag
    mBallotProtocol :=
      { slot.mBallotProtocol with
        mLatestEnvelopes :=
          slot.mBallotProtocol.mLatestEnvelopes.insert
            envelope.statement.nodeID envelope }
    mStatementsHistory :=
      slot.mStatementsHistory ++ [(envelope.statement, flag)] }

theorem Slot.recorded_view (slot : Slot) (flag : Bool)
    (envelope : SCPEnvelope) :
    (slot.recorded flag envelope).view =
      SlotView.record { slot.view with fullyValidated := flag }
        envelope := by
  simp [Slot.recorded, Slot.view, SlotView.record, BallotProtocol.ballots,
    Slot.acceptedBallots, Slot.externalizedValues, Slot.emissions]

theorem isNewerForNode_iff {bp : BallotProtocol} {node : NodeID}
    {st : SCPStatement} :
    isNewerForNode bp node st = true ↔
      ∀ old, bp.mLatestEnvelopes.lookup node = some old →
        isNewerStatement old.statement st = true := by
  unfold isNewerForNode
  cases bp.mLatestEnvelopes.lookup node with
  | none => simp
  | some old => simp

/-- The rule for `processEnvelope`: a statement that is not admitted leaves
the slot unchanged, an admitted one is recorded. -/
theorem processEnvelope_ends {advanceSlot : SCPStatement → BallotM Unit}
    {envelope : SCPEnvelope} {self : Bool}
    {done : EnvelopeState → Slot → Prop} {failed : Failure → Slot → Prop}
    (indexed : envelope.statement.slotIndex = config.mSlotIndex)
    (unknown : failed (.nullDereference .isStatementSane) slot)
    (rejected : ¬ slot.view.Admits config envelope.statement self →
      done .invalid slot)
    (advanced : slot.view.Admits config envelope.statement self →
      slot.view.ballots.phase ≠ .externalize → ∀ flag,
        Ends (advanceSlot envelope.statement) (slot.recorded flag envelope)
          (fun _ finish => done .valid finish) failed)
    (uncommitted : slot.view.ballots.phase = .externalize →
      slot.view.ballots.commit = none →
        failed (.nullDereference .processEnvelope) slot)
    (final : slot.view.Admits config envelope.statement self →
      slot.view.ballots.phase = .externalize →
      ∀ commit, slot.view.ballots.commit = some commit →
        if commit.value = (getWorkingBallot envelope.statement).value then
          done .valid (slot.recorded slot.mFullyValidated envelope)
        else done .invalid slot) :
    Ends (processEnvelope config advanceSlot envelope self) slot done
      failed := by
  unfold processEnvelope isStatementSane
  simp only [Ends.bind_iff, dbgAssert_ends, dereference_ends, Ends.ite_iff,
    Ends.pure_iff, getBallotProtocol_ends, indexed, decide_true,
    forall_const, Bool.true_eq_false, false_implies, and_true]
  refine ⟨?_, fun _ => unknown⟩
  intro qSet known
  by_cases admitted : slot.view.Admits config envelope.statement self
  · obtain ⟨⟨qSet', known', saneSet⟩, sane, newer, valid⟩ := admitted
    rw [known] at known'
    cases known'
    have fresh : isNewerForNode slot.mBallotProtocol
        envelope.statement.nodeID envelope.statement = true :=
      isNewerForNode_iff.mpr newer
    simp only [saneSet, sane, fresh, valid, Bool.not_true,
      Bool.false_eq_true, not_false_eq_true, false_implies, forall_const,
      true_and, not_true_eq_false, and_true]
    refine ⟨?_, ?_⟩
    · intro running
      have ends := advanced ⟨⟨qSet, known, saneSet⟩, sane, newer, valid⟩
        running
      exact ⟨fun _ => ends false, fun _ => ends slot.mFullyValidated⟩
    · intro ended
      have phase : slot.view.ballots.phase = .externalize :=
        not_not.mp ended
      refine ⟨?_, fun unset => uncommitted phase unset⟩
      intro commit set
      have result := final ⟨⟨qSet, known, saneSet⟩, sane, newer, valid⟩
        phase commit set
      split at result
      · rename_i agrees
        exact ⟨fun _ => result, fun differs => absurd agrees differs⟩
      · rename_i differs
        exact ⟨fun agrees => absurd agrees differs, fun _ => result⟩
  · have invalid := rejected admitted
    refine ⟨?_, by simpa using fun _ => invalid⟩
    intro saneSet
    refine ⟨fun _ => invalid, ?_⟩
    intro sane
    refine ⟨fun _ => invalid, ?_⟩
    intro fresh
    refine ⟨fun _ => invalid, ?_⟩
    intro valid
    refine absurd ⟨⟨qSet, known, saneSet⟩, by simpa using sane, ?_, valid⟩
      admitted
    exact isNewerForNode_iff.mp (by simpa using fresh)

theorem SlotView.Admits.congr {other : SlotView} {st : SCPStatement}
    {self : Bool} (same : view.envelopes = other.envelopes)
    (admitted : view.Admits config st self) :
    other.Admits config st self := by
  obtain ⟨known, sane, newer, valid⟩ := admitted
  exact ⟨known, sane, same ▸ newer, valid⟩

/-- Handing an envelope to the driver changes neither the ballots nor the
statements. -/
structure Handed (config : SlotConfig) (environment : Environment)
    (start finish : SlotView) : Prop where
  path : Path config environment.silent start finish
  ballots : finish.ballots = start.ballots
  externalized : finish.externalized = start.externalized

theorem sendLatestEnvelope_ends (config : SlotConfig)
    (environment : Environment) {failed : Failure → Slot → Prop} :
    Ends sendLatestEnvelope slot
      (fun _ finish => Handed config environment slot.view finish.view)
      failed := by
  unfold sendLatestEnvelope
  simp only [Ends.bind_iff, Ends.get_iff]
  cases set : slot.mBallotProtocol.mLastEnvelope with
  | none => exact ⟨.refl, rfl, rfl⟩
  | some last =>
      simp only [Ends.ite_iff, Ends.bind_iff, modifyBallotProtocol_ends,
        callDriver_ends, Ends.pure_iff]
      refine ⟨?_, fun _ => ⟨.refl, rfl, rfl⟩⟩
      rintro ⟨_, validated, fresh⟩
      have step : Step config environment.silent slot.view
          { slot.view with
            lastEmit := some last
            emitted := slot.view.emitted ++ [(last.value, true)] } :=
        .send last set fresh validated
      refine ⟨.single ?_, rfl, ?_⟩
      · convert step using 1
        simp [Slot.view, Slot.emissions, Slot.acceptedBallots,
          Slot.externalizedValues, validated, BallotProtocol.ballots]
      · simp [Slot.view, Slot.externalizedValues]

/-- The end of `emitCurrentStateStatement`. -/
theorem handEnvelope_ends (config : SlotConfig)
    (environment : Environment) {canEmit : Bool}
    {envelope : SCPEnvelope} {failed : Failure → Slot → Prop}
    (vouched : canEmit = true → slot.view.Vouches config envelope) :
    Ends
      (do
        let bp ← getBallotProtocol
        if canEmit && bp.mLastEnvelope.all (fun last =>
            isNewerStatement last.value.statement envelope.statement) then
          makeLastEnvelope envelope
          sendLatestEnvelope)
      slot
      (fun _ finish => Handed config environment slot.view finish.view)
      failed := by
  simp only [Ends.bind_iff, getBallotProtocol_ends, Ends.ite_iff,
    Ends.pure_iff]
  refine ⟨?_, fun _ => ⟨.refl, rfl, rfl⟩⟩
  intro guard
  rw [Bool.and_eq_true, Option.all_eq_true] at guard
  unfold makeLastEnvelope
  rw [Ends.modify_iff]
  refine (sendLatestEnvelope_ends config environment).mono ?_
    (fun _ _ fails => fails)
  intro _ finish handed
  have step : Step config environment.silent slot.view
      { slot.view with
        last := some ⟨slot.view.allocations, envelope⟩
        allocations := slot.view.allocations + 1 } :=
    .makeLast envelope (vouched guard.1) guard.2
  exact ⟨handed.path.head step, handed.ballots, handed.externalized⟩

end Publishing

/-! ## Publishing a transition -/

/-- What `advanceSlot` does in a stable view in which its hint is recorded.
The last part is about a node that needs no other node: it confirms what it
has accepted as prepared. -/
structure Advanced (config : SlotConfig) (environment : Environment)
    (hint : SCPStatement) (start finish : SlotView) : Prop where
  path : Path config environment.silent start finish
  ended : start.ballots.phase = .externalize →
    finish.externalized = start.externalized
  settled : config.selfSlice = true → start.OwnLatest config hint →
    start.ballots.phase = .prepare → start.ballots.prepared ≠ none →
    finish.ballots.high ≠ none

/-- The specification that the recursive calls of `advanceSlot` meet. -/
def Advances (config : SlotConfig) (environment : Environment)
    (advanceSlot : SCPStatement → BallotM Unit) : Prop :=
  ∀ slot hint, slot.view.Stable config → Holds slot.view.envelopes hint →
    Ends (advanceSlot hint) slot
      (fun _ finish =>
        Advanced config environment hint slot.view finish.view)
      (Crashed config environment slot.view)

/-- A transition has been made and its statement published. -/
structure Published (config : SlotConfig) (environment : Environment)
    (view : SlotView) (next : Ballots) (finish : SlotView) : Prop where
  path : ∃ middle, Step config environment.silent view middle ∧
    middle.ballots = next ∧ Path config environment.silent middle finish
  ended : next.phase = .externalize →
    finish.externalized = view.externalized
  settled : config.selfSlice = true → next.phase = .prepare →
    next.prepared ≠ none →
    next.pledges config ≠ view.ballots.pledges config →
    finish.ballots.high ≠ none

section Recursive

variable {config : SlotConfig} {environment : Environment} {slot : Slot}
  {view : SlotView} {next : Ballots} {accepted : List SCPBallot}
  {advanceSlot : SCPStatement → BallotM Unit}

theorem createEnvelope_injective {left right : Pledges}
    (same : config.createEnvelope left = config.createEnvelope right) :
    left = right :=
  congrArg (fun envelope => envelope.statement.pledges) same

theorem getWorkingBallot_externalize {pledges : Pledges} {commit : SCPBallot}
    (ended : next.phase = .externalize)
    (set : next.commit = some commit)
    (built : next.pledges config = some pledges) :
    (getWorkingBallot (config.createEnvelope pledges).statement) =
      commit := by
  simp only [Ballots.pledges, ended, set] at built
  split at built
  · rename_i commit' high first second
    cases first
    cases built
    rfl
  · cases built

/-- The rest of `emitCurrentStateStatement` after the statement has been
recorded. -/
private theorem published_of_recorded {pledges : Pledges} {flag : Bool}
    {recorded : Slot}
    (stable : view.Stable config)
    (transition :
      Transition config environment.silent view next accepted)
    (consistent : next.Consistent)
    (built : next.pledges config = some pledges)
    (admitted : view.Admits config
      (config.createEnvelope pledges).statement true)
    (midway : recorded.view = SlotView.record
      { view with
        ballots := next
        accepted := accepted
        fullyValidated := flag } (config.createEnvelope pledges))
    {finish : Slot}
    (advanced : Path config environment.silent recorded.view finish.view)
    (ended : next.phase = .externalize →
      finish.view.externalized = view.externalized)
    (settled : config.selfSlice = true → next.phase = .prepare →
      next.prepared ≠ none → finish.view.ballots.high ≠ none) :
    Ends
      (do
        let bp ← getBallotProtocol
        if next.current.isSome && bp.mLastEnvelope.all (fun last =>
            isNewerStatement last.value.statement
              (config.createEnvelope pledges).statement) then
          makeLastEnvelope (config.createEnvelope pledges)
          sendLatestEnvelope)
      finish
      (fun _ final => Published config environment view next final.view)
      (Crashed config environment view) := by
  have step : Step config environment.silent view recorded.view := by
    rw [midway]
    exact .publish flag transition consistent built admitted
  have sound : next.Sound := transition.sound stable.sound consistent
  have ballots : recorded.view.ballots = next := by rw [midway]; rfl
  refine (handEnvelope_ends config environment ?_).mono ?_
    (fun _ _ fails => fails)
  · intro canEmit
    refine ⟨advanced.history ?_, next, pledges, sound, ?_, built, rfl, ?_⟩
    · rw [midway]
      simp [SlotView.record]
    · simpa [Option.isSome_iff_ne_none] using canEmit
    · rw [← ballots]
      exact advanced.later (step.stable stable)
  · intro _ final handed
    refine ⟨⟨recorded.view, step, ballots, advanced.trans handed.path⟩,
      ?_, ?_⟩
    · intro phase
      rw [handed.externalized, ended phase]
    · intro selfSlice phase prepared _
      rw [handed.ballots]
      exact settled selfSlice phase prepared

theorem emitCurrentStateStatement_ends
    (advances : Advances config environment advanceSlot)
    (stable : view.Stable config)
    (transition :
      Transition config environment.silent view next accepted)
    (midway : slot.view =
      { view with ballots := next, accepted := accepted }) :
    Ends (emitCurrentStateStatement config advanceSlot) slot
      (fun _ finish => Published config environment view next finish.view)
      (Crashed config environment view) := by
  have ballots : slot.mBallotProtocol.ballots = next :=
    congrArg SlotView.ballots midway
  have envelopes : slot.mBallotProtocol.mLatestEnvelopes = view.envelopes :=
    congrArg SlotView.envelopes midway
  have records : slot.view.SameRecords view := by
    rw [midway]
    exact ⟨rfl, rfl, rfl, rfl, transition.accepted_subset⟩
  unfold emitCurrentStateStatement
  simp only [Ends.bind_iff, getBallotProtocol_ends]
  refine (createStatement_ends ?_).mono ?_ ?_
  · rw [ballots]
    exact transition.sound stable.sound
  · rintro pledges slot ⟨rfl, consistent, built⟩
    rw [ballots] at consistent built
    simp only [getBallotProtocol_ends, Ends.ite_iff, Ends.pure_iff,
      Ends.bind_iff]
    rw [envelopes]
    refine ⟨?_, ?_⟩
    · intro same
      refine ⟨⟨_, .keep transition consistent built same, rfl, ?_⟩, ?_, ?_⟩
      · rw [midway]
      · intro _
        rw [midway]
      · intro _ _ _ differs
        obtain ⟨old, oldBuilt, equal⟩ := stable.own _ same
        rw [built, oldBuilt, createEnvelope_injective equal] at differs
        exact absurd rfl differs
    · intro differs
      have current : slot.mBallotProtocol.mCurrentBallot = next.current :=
        congrArg Ballots.current ballots
      have phase : slot.view.ballots.phase = next.phase :=
        congrArg Ballots.phase ballots
      have recorded : ∀ flag,
          (slot.recorded flag (config.createEnvelope pledges)).view =
            SlotView.record
              { view with
                ballots := next
                accepted := accepted
                fullyValidated := flag } (config.createEnvelope pledges) := by
        intro flag
        rw [Slot.recorded_view, midway]
      have publish : ∀ flag,
          view.Admits config (config.createEnvelope pledges).statement
            true →
          Step config environment.silent view
            (slot.recorded flag (config.createEnvelope pledges)).view := by
        intro flag admitted
        rw [recorded flag]
        exact .publish flag transition consistent built admitted
      rw [current]
      refine processEnvelope_ends rfl ?_ ?_ ?_ ?_ ?_
      · exact ⟨view, .refl, records, trivial⟩
      · intro rejected
        refine ⟨fun impossible => (by cases impossible), fun _ => ?_⟩
        refine ⟨view, .refl, records, next, accepted, pledges, transition,
          consistent, built, differs, ?_⟩
        exact fun admitted => rejected (admitted.congr envelopes.symm)
      · intro admitted running flag
        have allowed := admitted.congr envelopes
        have middleStable := (publish flag allowed).stable stable
        refine (advances _ _ middleStable ?_).mono ?_ ?_
        · refine ⟨config.getLocalNodeID, config.createEnvelope pledges, ?_,
            rfl⟩
          rw [recorded flag]
          simp [SlotView.record]
        · intro _ finish advanced
          refine ⟨fun _ => ?_, fun impossible => absurd rfl impossible⟩
          have rest := published_of_recorded stable transition consistent
            built allowed (recorded flag) advanced.path
            (fun ended => absurd (phase.trans ended) running) ?_
          · simpa only [Ends.bind_iff, getBallotProtocol_ends,
              Ends.ite_iff, Ends.pure_iff] using rest
          · intro selfSlice prepare prepared
            refine advanced.settled selfSlice ?_ ?_ ?_
            · refine ⟨config.createEnvelope pledges, ?_, rfl⟩
              rw [recorded flag]
              simp [SlotView.record]
            · rw [recorded flag]
              exact prepare
            · rw [recorded flag]
              exact prepared
        · intro reason finish crashed
          exact crashed.after (.single (publish flag allowed))
      · intro ended unset
        exact ⟨view, .refl, records, trivial⟩
      · intro admitted ended commit set
        have allowed := admitted.congr envelopes
        have committed : next.commit = some commit :=
          (congrArg Ballots.commit ballots).symm.trans set
        have agrees : (getWorkingBallot
            (config.createEnvelope pledges).statement).value =
              commit.value := by
          rw [getWorkingBallot_externalize (phase.symm.trans ended)
            committed built]
        rw [if_pos agrees.symm]
        refine ⟨fun _ => ?_, fun impossible => absurd rfl impossible⟩
        have rest := published_of_recorded stable transition consistent
          built allowed (recorded slot.mFullyValidated) .refl
          (fun _ => by rw [recorded]; rfl)
          (fun _ prepare => absurd (phase.trans prepare) (by simp [ended]))
        simpa only [Ends.bind_iff, getBallotProtocol_ends,
          Ends.ite_iff, Ends.pure_iff] using rest
  · rintro reason _ ⟨rfl, cause, inconsistent⟩
    rw [ballots] at inconsistent
    refine ⟨view, .refl, records, ?_⟩
    rcases cause with abort | null
    · rw [abort]
      exact ⟨next, accepted, transition, inconsistent⟩
    · rw [null]
      exact ⟨next, accepted, transition, inconsistent⟩

end Recursive

/-! ## Changing the ballots -/

/-- A failure that says nothing about the view it happens in. -/
def Failure.Plain (reason : Failure) : Prop :=
  ∀ config environment view, Blame config environment view reason

/-- The calls of the driver that a view does not keep. -/
def DriverCall.isQuiet : DriverCall → Bool
  | .emitEnvelope _ _ => false
  | .valueExternalized _ => false
  | .acceptedBallotPrepared _ => false
  | _ => true

theorem Slot.view_quiet (slot : Slot) {call : DriverCall}
    (quiet : call.isQuiet = true) :
    Slot.view { slot with driverCalls := slot.driverCalls ++ [call] } =
      slot.view := by
  cases call with
  | emitEnvelope envelope fullyValidated => cases quiet
  | valueExternalized value => cases quiet
  | acceptedBallotPrepared ballot => cases quiet
  | setupTimer seconds =>
      simp [Slot.view, Slot.emissions, Slot.acceptedBallots,
        Slot.externalizedValues]
  | startedBallotProtocol ballot =>
      simp [Slot.view, Slot.emissions, Slot.acceptedBallots,
        Slot.externalizedValues]
  | confirmedBallotPrepared ballot =>
      simp [Slot.view, Slot.emissions, Slot.acceptedBallots,
        Slot.externalizedValues]
  | acceptedCommit ballot =>
      simp [Slot.view, Slot.emissions, Slot.acceptedBallots,
        Slot.externalizedValues]
  | ballotDidHearFromQuorum ballot =>
      simp [Slot.view, Slot.emissions, Slot.acceptedBallots,
        Slot.externalizedValues]

section Changing

variable {config : SlotConfig} {environment : Environment} {slot : Slot}
  {advanceSlot : SCPStatement → BallotM Unit}

theorem startBallotProtocolTimer_ends :
    Ends startBallotProtocolTimer slot
      (fun _ finish => finish.view = slot.view)
      (fun reason finish => finish.view.SameRecords slot.view ∧
        reason.Plain) := by
  unfold startBallotProtocolTimer
  simp only [Ends.bind_iff, getBallotProtocol_ends, dereference_ends,
    callDriver_ends]
  refine ⟨fun _ _ => slot.view_quiet rfl, fun _ => ?_⟩
  exact ⟨.refl _, fun _ _ _ => trivial⟩

theorem bumpToBallot_ends (ballot : SCPBallot) (check : Bool) :
    Ends (bumpToBallot ballot check) slot
      (fun _ finish => finish.view =
        { slot.view with ballots := slot.view.ballots.bump ballot })
      (fun reason finish => finish.view.SameRecords slot.view ∧
        reason.Plain) := by
  unfold bumpToBallot
  simp only [Ends.bind_iff, getBallotProtocol_ends, dbgAssert_ends,
    Ends.ite_iff, modifyBallotProtocol_ends, Ends.pure_iff]
  have plain : slot.view.SameRecords slot.view ∧
      (Failure.dbgAbort .bumpToBallot).Plain :=
    ⟨.refl _, fun _ _ _ => trivial⟩
  have bumped : ∀ slot' : Slot, slot'.view =
      { slot.view with ballots := slot.view.ballots.bump ballot } →
        Ends startBallotProtocolTimer slot'
          (fun _ finish => finish.view =
            { slot.view with ballots := slot.view.ballots.bump ballot })
          (fun reason finish => finish.view.SameRecords slot.view ∧
            reason.Plain) := by
    intro slot' same
    refine startBallotProtocolTimer_ends.mono ?_ ?_
    · intro _ finish kept
      rw [kept, same]
    · rintro reason finish ⟨records, cause⟩
      rw [same] at records
      exact ⟨⟨records.history, records.emitted, records.externalized,
        records.visits, records.accepted⟩, cause⟩
  refine ⟨fun _ => ⟨fun _ => ⟨fun _ => ⟨fun _ => bumped _ rfl, fun _ => rfl⟩,
    fun _ => plain⟩, fun _ => ⟨fun _ => bumped _ rfl, fun _ => rfl⟩⟩,
    fun _ => plain⟩

/-- Before EXTERNALIZE a bump to a ballot that is not lower succeeds. -/
theorem bumpToBallot_succeeds {ballot : SCPBallot} {check : Bool}
    (running : slot.mBallotProtocol.mPhase ≠ .externalize)
    (above : check = true → ∀ current,
      slot.mBallotProtocol.mCurrentBallot = some current →
        current ≤ ballot) :
    Ends (bumpToBallot ballot check) slot
      (fun _ finish => finish.mBallotProtocol =
        { slot.mBallotProtocol with
          mCurrentBallot := some ballot, mHeardFromQuorum := false })
      (fun _ _ => False) := by
  have timer : ∀ slot' : Slot,
      slot'.mBallotProtocol.mCurrentBallot = some ballot →
      Ends startBallotProtocolTimer slot'
        (fun _ finish => finish.mBallotProtocol = slot'.mBallotProtocol)
        (fun _ _ => False) := by
    intro slot' current
    unfold startBallotProtocolTimer
    simp only [Ends.bind_iff, getBallotProtocol_ends, dereference_ends,
      callDriver_ends, current]
    exact ⟨fun _ _ => trivial, fun unset => by cases unset⟩
  unfold bumpToBallot
  simp only [Ends.bind_iff, getBallotProtocol_ends, dbgAssert_ends,
    Ends.ite_iff, modifyBallotProtocol_ends, Ends.pure_iff,
    decide_eq_true_eq, decide_eq_false_iff_not]
  refine ⟨fun _ => ⟨fun checked => ⟨fun _ => ⟨fun _ => timer _ rfl,
    fun _ => trivial⟩, fun refused => ?_⟩,
    fun _ => ⟨fun _ => timer _ rfl, fun _ => trivial⟩⟩,
    fun ended => ended running⟩
  cases current : slot.mBallotProtocol.mCurrentBallot with
  | none => simp [current] at refused
  | some b =>
      simp only [current, Option.all_some, ge_iff_le,
        decide_eq_false_iff_not, compareBallots_nonneg_iff] at refused
      exact refused (above checked b current)

theorem updateCurrentIfNeeded_ends {high : SCPBallot}
    (set : slot.view.ballots.high = some high) :
    Ends updateCurrentIfNeeded slot
      (fun _ finish => finish.view =
        { slot.view with
          ballots :=
            { slot.view.ballots with
              current := raiseTo slot.view.ballots.current high } })
      (fun reason finish => finish.view.SameRecords slot.view ∧
        reason.Plain) := by
  have found : slot.mBallotProtocol.mHighBallot = some high := set
  unfold updateCurrentIfNeeded
  simp only [Ends.bind_iff, getBallotProtocol_ends, dereference_ends, found,
    Ends.ite_iff, Ends.pure_iff, Option.some.injEq, forall_eq',
    reduceCtorEq, false_implies, and_true]
  have current : slot.view.ballots.current =
    slot.mBallotProtocol.mCurrentBallot := rfl
  refine ⟨?_, ?_⟩
  · intro below
    refine (bumpToBallot_ends high true).mono ?_ (fun _ _ fails => fails)
    intro _ finish bumped
    rw [bumped]
    have raised : raiseTo slot.view.ballots.current high = some high := by
      rw [current]
      cases b : slot.mBallotProtocol.mCurrentBallot with
      | none => rfl
      | some old =>
          simp only [b, Option.all_some, decide_eq_true_eq,
            compareBallots_neg_iff] at below
          simp [raiseTo, below]
    rw [raised]
    rfl
  · intro notBelow
    have kept : raiseTo slot.view.ballots.current high =
        slot.view.ballots.current := by
      rw [current]
      cases b : slot.mBallotProtocol.mCurrentBallot with
      | none => simp [b] at notBelow
      | some old =>
          simp only [b, Option.all_some, decide_eq_true_eq,
            compareBallots_neg_iff] at notBelow
          simp [raiseTo, notBelow]
    rw [kept]

end Changing

end StellarCore.Scp
