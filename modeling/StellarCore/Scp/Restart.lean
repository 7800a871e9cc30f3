import StellarCore.Scp.Progression

/-!
# Restarting a slot

A node that restarts forces the state of a fresh slot to match the envelope
it emitted last.  The statement keeps the counters of `h` and `c`, and of `p`
in CONFIRM, and the restored ballots take the value of `b` in their place.
Whatever they were before, the restored ballots are sound and give the same
statement, so the envelopes a node emits over all its lives are each newer
than those before.
-/

namespace StellarCore.Scp

open StellarCore.Lib

/-- `Slot::setStateFromEnvelope`; any other envelope is only logged. -/
def Slot.setStateFromEnvelope (config : SlotConfig) (e : SCPEnvelope) :
    BallotM Unit := do
  if e.statement.nodeID = config.getLocalNodeID ∧
      e.statement.slotIndex = config.mSlotIndex then
    Scp.setStateFromEnvelope e

/-- A process that starts with the last envelope of the log, if there is
one. -/
def Process.restart (config : SlotConfig)
    (log : List (SCPEnvelope × Bool)) : Process :=
  match log.getLast? with
  | none => .start config
  | some (envelope, _) =>
      (Process.start config).run
        (Slot.setStateFromEnvelope config envelope)

/-- What a slot emits over several lives; each life handles some inputs, and
the next one begins with a restart. -/
def runLives (config : SlotConfig) (lives : List (List Input)) :
    List (SCPEnvelope × Bool) :=
  lives.foldl (fun log inputs => log ++
    (inputs.foldl (Process.handle config)
      (.restart config log)).slot.emissions) []

/-! ## The ballots after a restart -/

def Pledges.restored : Pledges → Ballots
  | .prepare prep =>
      { phase := .prepare
        current := some prep.ballot
        prepared := prep.prepared
        preparedPrime := prep.preparedPrime
        high :=
          if prep.nH ≠ 0 then some ⟨prep.nH, prep.ballot.value⟩ else none
        commit :=
          if prep.nC ≠ 0 then some ⟨prep.nC, prep.ballot.value⟩ else none }
  | .confirm c =>
      { phase := .confirm
        current := some c.ballot
        prepared := some ⟨c.nPrepared, c.ballot.value⟩
        preparedPrime := none
        high := some ⟨c.nH, c.ballot.value⟩
        commit := some ⟨c.nCommit, c.ballot.value⟩ }
  | .externalize ext =>
      { phase := .externalize
        current := some ⟨uint32Max, ext.commit.value⟩
        prepared := some ⟨uint32Max, ext.commit.value⟩
        preparedPrime := none
        high := some ⟨ext.nH, ext.commit.value⟩
        commit := some ext.commit }

/-- The view of a fresh slot after it was set from an envelope. -/
def SlotView.restored (view : SlotView) (e : SCPEnvelope) : SlotView :=
  { view with
    ballots := e.statement.pledges.restored
    envelopes := view.envelopes.insert e.statement.nodeID e
    history := view.history ++ [e.statement]
    last := some ⟨view.allocations, e⟩
    lastEmit := some ⟨view.allocations, e⟩
    allocations := view.allocations + 1 }

section Restored

variable {config : SlotConfig} {slot : Slot} {ballots : Ballots}
  {pledges : Pledges}

/-- A node without a current ballot starts with the given one. -/
private theorem bumpToBallot_first {ballot : SCPBallot}
    (prepare : slot.mBallotProtocol.mPhase = .prepare)
    (unset : slot.mBallotProtocol.mCurrentBallot = none)
    {done : Unit → Slot → Prop} {failed : Failure → Slot → Prop}
    (next : done () { slot with
      mBallotProtocol :=
        { slot.mBallotProtocol with
          mCurrentBallot := some ballot
          mHeardFromQuorum := false }
      driverCalls := slot.driverCalls ++
        [.setupTimer (computeTimeout ballot.counter)] }) :
    Ends (bumpToBallot ballot true) slot done failed := by
  unfold bumpToBallot startBallotProtocolTimer
  simpa [prepare, unset] using next

theorem setStateFromEnvelope_ends (e : SCPEnvelope)
    (fresh : slot.mBallotProtocol = {}) :
    Ends (setStateFromEnvelope e) slot
      (fun _ finish => finish.view = slot.view.restored e)
      (fun _ _ => False) := by
  unfold setStateFromEnvelope recordEnvelope makeLastEnvelope
  simp only [Ends.bind_iff, getBallotProtocol_ends, fresh, Ends.ite_iff,
    Ends.modify_iff, modifyBallotProtocol_ends]
  refine ⟨fun impossible => absurd impossible (by simp), fun _ => ?_⟩
  cases pledged : e.statement.pledges with
  | prepare prep =>
      simp only [Ends.bind_iff]
      refine bumpToBallot_first rfl rfl ?_
      rw [modifyBallotProtocol_ends]
      simp [Slot.view, SlotView.restored, Pledges.restored, pledged,
        BallotProtocol.ballots, Slot.acceptedBallots, Slot.emissions,
        Slot.externalizedValues, fresh]
  | confirm c =>
      simp only [Ends.bind_iff]
      refine bumpToBallot_first rfl rfl ?_
      rw [modifyBallotProtocol_ends]
      simp [Slot.view, SlotView.restored, Pledges.restored, pledged,
        BallotProtocol.ballots, Slot.acceptedBallots, Slot.emissions,
        Slot.externalizedValues, fresh]
  | externalize ext =>
      simp only [Ends.bind_iff]
      refine bumpToBallot_first rfl rfl ?_
      rw [modifyBallotProtocol_ends]
      simp [Slot.view, SlotView.restored, Pledges.restored, pledged,
        BallotProtocol.ballots, Slot.acceptedBallots, Slot.emissions,
        Slot.externalizedValues, fresh]

/-- The restored ballots give the statement they were restored from. -/
theorem restored_pledges (built : ballots.pledges config = some pledges) :
    pledges.restored.pledges config = some pledges := by
  cases pledges with
  | prepare prep =>
      obtain ⟨_, fields⟩ := Ballots.pledges_prepare built
      have hash : prep.quorumSetHash = config.localNode.mQSetHash := by
        rw [fields]
      have counter : ∀ n : Uint32,
          ((if n ≠ 0 then some (⟨n, prep.ballot.value⟩ : SCPBallot)
            else none).map SCPBallot.counter).getD 0 = n := by
        intro n
        by_cases zero : n = 0
        · simp [zero]
        · simp [zero]
      simp only [Pledges.restored, Ballots.pledges, counter,
        Option.getD_some, ← hash]
  | confirm con =>
      obtain ⟨_, _, _, _, _, _, _, _, _, fields⟩ :=
        Ballots.pledges_confirm built
      have hash : con.quorumSetHash = config.localNode.mQSetHash := by
        rw [fields]
      simp only [Pledges.restored, Ballots.pledges, ← hash]
  | externalize ext =>
      obtain ⟨_, _, _, _, _, fields⟩ := Ballots.pledges_externalize built
      have hash : ext.commitQuorumSetHash = config.localNode.mQSetHash := by
        rw [fields]
      simp only [Pledges.restored, Ballots.pledges, ← hash]

private theorem le_of_counters {value : Value} {low high : Uint32}
    (counters : low ≤ high) :
    (⟨low, value⟩ : SCPBallot) ≤ ⟨high, value⟩ :=
  SCPBallot.le_of_counter_le counters rfl

private theorem restored_prepare_sound {prep : Prepare}
    (sound : ballots.Sound) (started : ballots.current ≠ none)
    (built : ballots.pledges config = some (.prepare prep)) :
    (Pledges.prepare prep).restored.Sound := by
  obtain ⟨prepare, fields⟩ := Ballots.pledges_prepare built
  obtain ⟨b, current⟩ := Option.ne_none_iff_exists'.mp started
  have ballot : prep.ballot = b := by simp [fields, current]
  have committed : prep.nC ≠ 0 → ∃ c h, ballots.commit = some c ∧
      ballots.high = some h ∧ prep.nC = c.counter ∧ prep.nH = h.counter ∧
      c.counter ≤ h.counter ∧ h.counter ≤ b.counter := by
    intro votes
    cases commit : ballots.commit with
    | none => simp [fields, commit] at votes
    | some c =>
        obtain ⟨h, b', high, current', low, top⟩ :=
          sound.consistent.commit c commit
        rw [current] at current'
        cases current'
        exact ⟨c, h, rfl, high, by simp [fields, commit],
          by simp [fields, high], SCPBallot.counter_le_of_le low.1,
          SCPBallot.counter_le_of_le top.1⟩
  have isPrepared : prep.prepared = ballots.prepared := by rw [fields]
  have isPrime : prep.preparedPrime = ballots.preparedPrime := by
    rw [fields]
  refine ⟨⟨?_, ?_, ?_, fun impossible => absurd rfl impossible⟩, ?_, ?_, ?_,
    fun impossible => absurd rfl impossible⟩
  · intro b' set
    cases set
    rw [ballot]
    exact sound.consistent.counter b current
  · intro p p' prepared prime
    exact sound.consistent.prime p p' (isPrepared.symm.trans prepared)
      (isPrime.symm.trans prime)
  · intro c set
    by_cases votes : prep.nC = 0
    · simp [Pledges.restored, votes] at set
    · obtain ⟨c', h', commit, _, low, high, lower, upper⟩ := committed votes
      have nonzero : prep.nH ≠ 0 := by
        rw [high]
        intro zero
        rw [zero] at lower
        exact sound.committed c' commit (Fin.le_zero_iff.mp lower)
      simp only [Pledges.restored, ne_eq, votes, not_false_eq_true, if_true,
        Option.some.injEq] at set
      rw [← set]
      refine ⟨⟨prep.nH, prep.ballot.value⟩, prep.ballot, ?_, rfl,
        ⟨le_of_counters ?_, rfl⟩, SCPBallot.le_of_counter_le ?_ rfl, rfl⟩
      · simp [Pledges.restored, nonzero]
      · rw [low, high]
        exact lower
      · rw [ballot, high]
        exact upper
  · intro p' prime
    obtain ⟨p, prepared, order⟩ := sound.pair p' (isPrime.symm.trans prime)
    exact ⟨p, isPrepared.trans prepared, order⟩
  · intro _ h set
    by_cases nonzero : prep.nH = 0
    · simp [Pledges.restored, nonzero] at set
    · simp only [Pledges.restored, ne_eq, nonzero, not_false_eq_true,
        if_true, Option.some.injEq] at set
      cases high : ballots.high with
      | none => simp [fields, high] at nonzero
      | some h' =>
          obtain ⟨p, prepared, bounded⟩ := sound.bounded prepare h' high
          refine ⟨p, isPrepared.trans prepared, ?_⟩
          rw [← set]
          simpa [fields, high] using bounded
  · intro c set
    by_cases votes : prep.nC = 0
    · simp [Pledges.restored, votes] at set
    · simp only [Pledges.restored, ne_eq, votes, not_false_eq_true, if_true,
        Option.some.injEq] at set
      rw [← set]
      exact votes

/-- Ballots restored after PREPARE: `c`, `h` and `b` have one value and
growing counters. -/
private theorem restored_sound_of_counters {restored : Ballots}
    {value : Value} {c h b : Uint32} (started : restored.phase ≠ .prepare)
    (commit : restored.commit = some ⟨c, value⟩)
    (high : restored.high = some ⟨h, value⟩)
    (current : restored.current = some ⟨b, value⟩)
    (prepared : restored.prepared ≠ none)
    (prime : restored.preparedPrime = none) (nonzero : c ≠ 0)
    (lower : c ≤ h) (upper : h ≤ b) : restored.Sound := by
  have positive : b ≠ 0 := by
    intro zero
    rw [zero] at upper
    rw [Fin.le_zero_iff.mp upper] at lower
    exact nonzero (Fin.le_zero_iff.mp lower)
  refine ⟨⟨?_, ?_, ?_, ?_⟩, ?_, ?_, ?_, fun _ => ⟨prepared, prime⟩⟩
  · intro b' set
    rw [current] at set
    cases set
    exact positive
  · intro p p' _ set
    rw [prime] at set
    cases set
  · intro c' set
    rw [commit] at set
    cases set
    exact ⟨_, _, high, current, ⟨le_of_counters lower, rfl⟩,
      le_of_counters upper, rfl⟩
  · intro _
    rw [commit]
    simp
  · intro p' set
    rw [prime] at set
    cases set
  · intro prepare
    exact absurd prepare started
  · intro c' set
    rw [commit] at set
    cases set
    exact nonzero

/-- Whatever was lost, the restored ballots are sound. -/
theorem restored_sound (sound : ballots.Sound)
    (started : ballots.current ≠ none)
    (built : ballots.pledges config = some pledges) :
    pledges.restored.Sound := by
  cases pledges with
  | prepare prep => exact restored_prepare_sound sound started built
  | confirm con =>
      obtain ⟨_, c, h, b, p, commit, high, current, _, fields⟩ :=
        Ballots.pledges_confirm built
      obtain ⟨h', b', high', current', low, top⟩ :=
        sound.consistent.commit c commit
      rw [high] at high'
      rw [current] at current'
      cases high'
      cases current'
      rw [fields]
      exact restored_sound_of_counters (by simp [Pledges.restored]) rfl rfl
        rfl (by simp [Pledges.restored]) rfl (sound.committed c commit)
        (SCPBallot.counter_le_of_le low.1) (SCPBallot.counter_le_of_le top.1)
  | externalize ext =>
      obtain ⟨_, c, h, commit, high, fields⟩ :=
        Ballots.pledges_externalize built
      obtain ⟨h', _, high', _, low, _⟩ := sound.consistent.commit c commit
      rw [high] at high'
      cases high'
      rw [fields]
      exact restored_sound_of_counters (by simp [Pledges.restored]) rfl rfl
        rfl (by simp [Pledges.restored]) rfl (sound.committed c commit)
        (SCPBallot.counter_le_of_le low.1) (Fin.le_last _)

end Restored

/-! ## Envelopes the node has issued -/

/-- The envelope was built from sound ballots with a current ballot. -/
def Issued (config : SlotConfig) (envelope : SCPEnvelope) : Prop :=
  ∃ (ballots : Ballots) (pledges : Pledges), ballots.Sound ∧
    ballots.current ≠ none ∧ ballots.pledges config = some pledges ∧
    envelope = config.createEnvelope pledges

/-- `later` is newer than `earlier`. -/
def Newer (earlier later : SCPEnvelope) : Prop :=
  isNewerStatement earlier.statement later.statement = true

theorem Newer.trans {first second third : SCPEnvelope}
    (secondNewer : Newer first second) (thirdNewer : Newer second third) :
    Newer first third :=
  isNewerStatement_trans secondNewer thirdNewer

/-- What a slot has emitted in its present life, after `base` was emitted
last before it.  `mLastEnvelope` is the envelope that was emitted last or a
newer one at another address. -/
structure SlotView.Emits (config : SlotConfig) (base : Option SCPEnvelope)
    (view : SlotView) : Prop where
  issuedLast : ∀ last, view.last = some last → Issued config last.value
  issued : ∀ emission ∈ view.emitted, Issued config emission.1
  validated : ∀ emission ∈ view.emitted, emission.2 = true
  newer : (base.toList ++ view.emitted.map Prod.fst).Pairwise Newer
  latest : (base.toList ++ view.emitted.map Prod.fst).getLast? =
    view.lastEmit.map Shared.value
  ahead : ∀ emit, view.lastEmit = some emit →
    ∃ last, view.last = some last ∧ (last = emit ∨
      last.address ≠ emit.address ∧ Newer emit.value last.value)
  allocated : ∀ last, view.last = some last →
    last.address < view.allocations
  allocatedEmit : ∀ emit, view.lastEmit = some emit →
    emit.address < view.allocations

section Emits

variable {config : SlotConfig} {environment : Environment}
  {view view' : SlotView} {base : Option SCPEnvelope}

/-- An envelope newer than the last of an ordered log is newer than all. -/
theorem newer_of_getLast {log : List SCPEnvelope} {envelope : SCPEnvelope}
    (ordered : log.Pairwise Newer)
    (last : ∀ final ∈ log.getLast?, Newer final envelope) :
    ∀ earlier ∈ log, Newer earlier envelope := by
  intro earlier member
  rcases List.eq_nil_or_concat log with empty | ⟨front, final, ending⟩
  · rw [empty] at member
    cases member
  · rw [List.concat_eq_append] at ending
    have finalNewer : Newer final envelope := last final (by simp [ending])
    rw [ending] at member
    rcases List.mem_append.mp member with before | here
    · rw [ending, List.pairwise_append] at ordered
      exact (ordered.2.2 earlier before final (by simp)).trans finalNewer
    · rw [List.mem_singleton.mp here]
      exact finalNewer

theorem Step.emits (step : Step config environment view view')
    (emits : view.Emits config base) : view'.Emits config base := by
  cases step with
  | makeLast envelope vouched newer =>
      refine ⟨?_, emits.issued, emits.validated, emits.newer, emits.latest,
        ?_, ?_, ?_⟩
      · intro last set
        cases set
        obtain ⟨_, ballots, pledges, sound, started, built, equal, _⟩ :=
          vouched
        exact ⟨ballots, pledges, sound, started, built, equal⟩
      · intro emit set
        refine ⟨_, rfl, .inr ⟨(emits.allocatedEmit emit set).ne', ?_⟩⟩
        obtain ⟨last, lastSet, same | ⟨_, older⟩⟩ := emits.ahead emit set
        · rw [← same]
          exact newer last lastSet
        · exact older.trans (newer last lastSet)
      · intro last set
        cases set
        exact Nat.lt_succ_self _
      · intro emit set
        exact Nat.lt_succ_of_lt (emits.allocatedEmit emit set)
  | send last set fresh validated =>
      have ahead : ∀ final ∈ (base.toList ++
          view.emitted.map Prod.fst).getLast?, Newer final last.value := by
        intro final isFinal
        rw [emits.latest] at isFinal
        obtain ⟨emit, emitSet, equal⟩ := Option.map_eq_some_iff.mp isFinal
        obtain ⟨last', lastSet, same | ⟨_, older⟩⟩ :=
          emits.ahead emit emitSet
        · rw [set] at lastSet
          cases lastSet
          rw [same] at fresh
          exact absurd (by rw [emitSet]; rfl) fresh
        · rw [set] at lastSet
          cases lastSet
          rw [← equal]
          exact older
      refine ⟨emits.issuedLast, ?_, ?_, ?_, ?_, ?_, emits.allocated, ?_⟩
      · intro emission member
        rcases List.mem_append.mp member with earlier | here
        · exact emits.issued emission earlier
        · rw [List.mem_singleton.mp here]
          exact emits.issuedLast last set
      · intro emission member
        rcases List.mem_append.mp member with earlier | here
        · exact emits.validated emission earlier
        · rw [List.mem_singleton.mp here]
      · rw [List.map_append, ← List.append_assoc, List.pairwise_append]
        refine ⟨emits.newer, List.pairwise_singleton _ _, ?_⟩
        intro earlier member later isLast
        rw [List.mem_singleton.mp isLast]
        exact newer_of_getLast emits.newer ahead earlier member
      · simp
      · intro emit emitSet
        cases emitSet
        exact ⟨last, set, .inl rfl⟩
      · intro emit emitSet
        cases emitSet
        exact emits.allocated last set
  | visit attempt bp ballots envelopes =>
      exact ⟨emits.issuedLast, emits.issued, emits.validated, emits.newer,
        emits.latest, emits.ahead, emits.allocated, emits.allocatedEmit⟩
  | keep transition consistent built same =>
      exact ⟨emits.issuedLast, emits.issued, emits.validated, emits.newer,
        emits.latest, emits.ahead, emits.allocated, emits.allocatedEmit⟩
  | publish flag transition consistent built admitted =>
      exact ⟨emits.issuedLast, emits.issued, emits.validated, emits.newer,
        emits.latest, emits.ahead, emits.allocated, emits.allocatedEmit⟩
  | receive flag sent foreign verified indexed admitted final =>
      exact ⟨emits.issuedLast, emits.issued, emits.validated, emits.newer,
        emits.latest, emits.ahead, emits.allocated, emits.allocatedEmit⟩
  | externalize commit ended committed first =>
      exact ⟨emits.issuedLast, emits.issued, emits.validated, emits.newer,
        emits.latest, emits.ahead, emits.allocated, emits.allocatedEmit⟩
  | offer value offered =>
      exact ⟨emits.issuedLast, emits.issued, emits.validated, emits.newer,
        emits.latest, emits.ahead, emits.allocated, emits.allocatedEmit⟩

theorem Slot.fresh_emits (config : SlotConfig) :
    (Slot.fresh config).view.Emits config none where
  issuedLast := fun last set => by cases set
  issued := fun _ member => absurd member List.not_mem_nil
  validated := fun _ member => absurd member List.not_mem_nil
  newer := List.Pairwise.nil
  latest := rfl
  ahead := fun emit set => by cases set
  allocated := fun last set => by cases set
  allocatedEmit := fun emit set => by cases set

end Emits

/-! ## The restored slot -/

section Restarted

variable {config : SlotConfig} {view : SlotView} {envelope : SCPEnvelope}

theorem restored_stable (issued : Issued config envelope)
    (empty : view.envelopes = ∅) (unfinished : view.externalized = []) :
    (view.restored envelope).Stable config := by
  obtain ⟨ballots, pledges, sound, started, built, equal⟩ := issued
  have lookup : ∀ node found,
      (view.restored envelope).envelopes.lookup node = some found →
        node = config.getLocalNodeID ∧ found = envelope := by
    intro node found isFound
    simp only [SlotView.restored, empty] at isFound
    by_cases here : node = envelope.statement.nodeID
    · rw [here, AList.lookup_insert] at isFound
      refine ⟨?_, (Option.some.inj isFound).symm⟩
      rw [here, equal]
      rfl
    · rw [AList.lookup_insert_ne here] at isFound
      cases isFound
  have pledged : (view.restored envelope).ballots = pledges.restored := by
    rw [SlotView.restored, equal]
    rfl
  refine ⟨?_, ?_, ?_, ?_, ?_, fun _ => unfinished⟩
  · rw [pledged]
    exact restored_sound sound started built
  · intro found isFound
    refine ⟨pledges, ?_, (lookup _ _ isFound).2.trans equal⟩
    rw [pledged]
    exact restored_pledges built
  · intro missing
    have present : (view.restored envelope).envelopes.lookup
        config.getLocalNodeID = some envelope := by
      have node : config.getLocalNodeID = envelope.statement.nodeID := by
        rw [equal]
        rfl
      rw [node]
      exact AList.lookup_insert _
    rw [missing] at present
    cases present
  · intro node found isFound
    obtain ⟨own, same⟩ := lookup node found isFound
    rw [same, own, equal]
    rfl
  · intro node found isFound
    rw [(lookup node found isFound).2]
    simp [SlotView.restored]

theorem restored_emits (issued : Issued config envelope)
    (silent : view.emitted = []) :
    (view.restored envelope).Emits config (some envelope) := by
  refine ⟨?_, ?_, ?_, ?_, ?_, ?_, ?_, ?_⟩
  · intro last set
    cases set
    exact issued
  · intro emission member
    simp only [SlotView.restored, silent] at member
    cases member
  · intro emission member
    simp only [SlotView.restored, silent] at member
    cases member
  · simp [SlotView.restored, silent]
  · simp [SlotView.restored, silent]
  · intro emit set
    exact ⟨emit, set, .inl rfl⟩
  · intro last set
    cases set
    exact Nat.lt_succ_self _
  · intro emit set
    cases set
    exact Nat.lt_succ_self _

/-- A restarted process is in a stable view that has emitted the last
envelope of the log. -/
theorem Process.restart_reaches (config : SlotConfig)
    (environment : Environment) {log : List (SCPEnvelope × Bool)}
    (issued : ∀ last ∈ log.getLast?, Issued config last.1) :
    ∃ start view, start.Stable config ∧
      start.Emits config (log.getLast?.map Prod.fst) ∧
      (Process.restart config log).Reaches config environment start view := by
  unfold Process.restart
  cases final : log.getLast? with
  | none =>
      have waits := Slot.visiting_step config environment
        (Slot.fresh config) .idle
      exact ⟨_, _, Slot.fresh_stable config, Slot.fresh_emits config,
        .single waits, fun _ => rfl, .refl _,
        fun _ impossible => by cases impossible⟩
  | some last =>
      obtain ⟨envelope, flag⟩ := last
      have issuedLast : Issued config envelope := issued _ final
      have own : envelope.statement.nodeID = config.getLocalNodeID ∧
          envelope.statement.slotIndex = config.mSlotIndex := by
        obtain ⟨_, pledges, _, _, _, equal⟩ := issuedLast
        rw [equal]
        exact ⟨rfl, rfl⟩
      have fresh : ((Slot.fresh config).visiting .idle).mBallotProtocol =
          {} := rfl
      have ends := setStateFromEnvelope_ends envelope fresh
      refine ⟨((Slot.fresh config).visiting .idle).view.restored envelope, ?_⟩
      unfold Process.run Process.start Slot.setStateFromEnvelope
      simp only [if_pos own]
      cases outcome : Scp.setStateFromEnvelope envelope
          ((Slot.fresh config).visiting .idle) with
      | error reason finish => exact absurd (ends.of_error outcome) id
      | ok _ finish =>
          have restored := ends.of_ok outcome
          have waits := Slot.visiting_step config environment finish .idle
          rw [restored] at waits
          exact ⟨_, restored_stable issuedLast rfl rfl,
            restored_emits issuedLast rfl, .single waits, fun _ => rfl,
            .refl _, fun _ impossible => by cases impossible⟩

end Restarted

/-- What has been emitted over several lives. -/
structure LogOrdered (config : SlotConfig)
    (log : List (SCPEnvelope × Bool)) : Prop where
  newer : (log.map Prod.fst).Pairwise Newer
  validated : ∀ entry ∈ log, entry.2 = true
  issued : ∀ entry ∈ log, Issued config entry.1

/-- One more life keeps the log ordered. -/
theorem LogOrdered.life {config : SlotConfig}
    {log : List (SCPEnvelope × Bool)} (ordered : LogOrdered config log)
    (inputs : List Input) :
    LogOrdered config (log ++ (inputs.foldl (Process.handle config)
      (.restart config log)).slot.emissions) := by
  obtain ⟨start, view, stable, emits, begins⟩ :=
    Process.restart_reaches config (environmentOf inputs)
      (fun last isLast => ordered.issued last
        (List.mem_of_mem_getLast? isLast))
  obtain ⟨later, reaches⟩ := Process.handle_reaches stable
    (List.Subset.refl inputs) begins
  have emitted := (reaches.path.invariant
    (SlotView.Emits config (log.getLast?.map Prod.fst))
    (fun _ _ _ emits step => step.emits emits) stable emits).2
  have same : (inputs.foldl (Process.handle config)
      (.restart config log)).slot.emissions = later.emitted :=
    reaches.records.emitted
  rw [same]
  refine ⟨?_, ?_, ?_⟩
  · rw [List.map_append, List.pairwise_append]
    have both := List.pairwise_append.mp emitted.newer
    refine ⟨ordered.newer, both.2.1, ?_⟩
    intro earlier member envelope isEmitted
    refine newer_of_getLast ordered.newer ?_ earlier member
    intro final isFinal
    refine both.2.2 final ?_ envelope isEmitted
    rw [List.getLast?_map] at isFinal
    exact Option.mem_toList.mpr isFinal
  · intro entry member
    rcases List.mem_append.mp member with before | now
    · exact ordered.validated entry before
    · exact emitted.validated entry now
  · intro entry member
    rcases List.mem_append.mp member with before | now
    · exact ordered.issued entry before
    · exact emitted.issued entry now

theorem runLives_ordered (config : SlotConfig)
    (lives : List (List Input)) :
    LogOrdered config (runLives config lives) := by
  have general : ∀ (lives : List (List Input))
      (log : List (SCPEnvelope × Bool)), LogOrdered config log →
      LogOrdered config (lives.foldl (fun log inputs => log ++
        (inputs.foldl (Process.handle config)
          (.restart config log)).slot.emissions) log) := by
    intro lives
    induction lives with
    | nil =>
        intro log ordered
        exact ordered
    | cons inputs lives ih =>
        intro log ordered
        exact ih _ (ordered.life inputs)
  refine general lives [] ⟨List.Pairwise.nil, ?_, ?_⟩
  · intro entry member
    cases member
  · intro entry member
    cases member

/-- Over all lives of a slot, every envelope it emits is newer than all it
has emitted before, and none is emitted while the slot is not fully
validated. -/
theorem runLives_increasing (config : SlotConfig)
    (lives : List (List Input)) :
    (runLives config lives).Pairwise (fun earlier later =>
      isNewerStatement earlier.1.statement later.1.statement = true) ∧
    ∀ entry ∈ runLives config lives, entry.2 = true := by
  have ordered := runLives_ordered config lives
  exact ⟨List.pairwise_map.mp ordered.newer, ordered.validated⟩

/-! ## What a restart loses -/

section Lost

variable {config : SlotConfig} {ballots : Ballots} {pledges : Pledges}

/-- On a fresh slot the restart succeeds with the restored ballots. -/
theorem setStateFromEnvelope_fresh_iff :
    (∃ slot, Slot.setStateFromEnvelope config
        (config.createEnvelope pledges) (Slot.fresh config) = .ok () slot ∧
      slot.mBallotProtocol.ballots = ballots) ↔
    pledges.restored = ballots := by
  have own : (config.createEnvelope pledges).statement.nodeID =
      config.getLocalNodeID ∧
      (config.createEnvelope pledges).statement.slotIndex =
        config.mSlotIndex := ⟨rfl, rfl⟩
  have fresh : (Slot.fresh config).mBallotProtocol = {} := rfl
  have ends := setStateFromEnvelope_ends (config.createEnvelope pledges)
    fresh
  unfold Slot.setStateFromEnvelope
  rw [if_pos own]
  cases outcome : Scp.setStateFromEnvelope (config.createEnvelope pledges)
      (Slot.fresh config) with
  | error reason finish => exact absurd (ends.of_error outcome) id
  | ok result finish =>
      have restored : finish.mBallotProtocol.ballots = pledges.restored :=
        congrArg SlotView.ballots (ends.of_ok outcome)
      constructor
      · rintro ⟨slot, same, equal⟩
        cases same
        exact restored.symm.trans equal
      · intro equal
        exact ⟨finish, rfl, restored.trans equal⟩

private theorem restored_prepare_iff {b : SCPBallot} (sound : ballots.Sound)
    (prepare : ballots.phase = .prepare) (current : ballots.current = some b)
    (built : ballots.pledges config = some pledges) :
    pledges.restored = ballots ↔
      ∀ h, ballots.high = some h → h.counter ≠ 0 ∧ h.value = b.value := by
  simp only [Ballots.pledges, prepare, current, Option.getD_some,
    Option.some.injEq] at built
  subst built
  constructor
  · intro equal h high
    have same := congrArg Ballots.high equal
    simp only [Pledges.restored, high, Option.map_some, Option.getD_some]
      at same
    split at same
    · rename_i nonzero
      refine ⟨nonzero, ?_⟩
      rw [← Option.some.inj same]
    · cases same
  · intro determined
    have highSame : (if (ballots.high.map SCPBallot.counter).getD 0 ≠ 0 then
        some (⟨(ballots.high.map SCPBallot.counter).getD 0, b.value⟩ :
          SCPBallot) else none) = ballots.high := by
      cases high : ballots.high with
      | none => simp
      | some h =>
          obtain ⟨nonzero, value⟩ := determined h high
          simp [nonzero, ← value]
    have commitSame : (if (ballots.commit.map SCPBallot.counter).getD 0 ≠ 0
        then some (⟨(ballots.commit.map SCPBallot.counter).getD 0, b.value⟩ :
          SCPBallot) else none) = ballots.commit := by
      cases commit : ballots.commit with
      | none => simp
      | some c =>
          obtain ⟨b', _, c', current', _, commit', bValue, _, _⟩ :=
            sound.consistent.carries commit
          rw [current] at current'
          cases current'
          simp [sound.committed c commit, bValue]
    exact Ballots.ext prepare.symm current.symm rfl rfl highSame commitSame

private theorem restored_confirm_iff {b : SCPBallot} (sound : ballots.Sound)
    (confirm : ballots.phase = .confirm) (current : ballots.current = some b)
    (built : ballots.pledges config = some pledges) :
    pledges.restored = ballots ↔
      ∀ p, ballots.prepared = some p → p.value = b.value := by
  have started : ballots.phase ≠ .prepare := by simp [confirm]
  obtain ⟨c, commit⟩ := Option.ne_none_iff_exists'.mp
    (sound.consistent.confirmed started)
  obtain ⟨p, prepared⟩ := Option.ne_none_iff_exists'.mp
    (sound.confirmed started).1
  obtain ⟨h, b', high, current', low, top⟩ :=
    sound.consistent.commit c commit
  rw [current] at current'
  cases current'
  simp only [Ballots.pledges, confirm, commit, high, current, prepared,
    Option.some.injEq] at built
  subst built
  constructor
  · intro equal p' prepared'
    have same := congrArg Ballots.prepared equal
    simp only [Pledges.restored, prepared'] at same
    rw [← Option.some.inj same]
  · intro determined
    refine Ballots.ext confirm.symm current.symm ?_
      (sound.confirmed started).2.symm ?_ ?_
    · simp [Pledges.restored, prepared, ← determined p prepared]
    · simp [Pledges.restored, high, ← top.2]
    · simp [Pledges.restored, commit, ← top.2, ← low.2]

/-- A state whose statement has been issued has a current ballot. -/
private theorem current_of_issued (sound : ballots.Sound)
    (running : ballots.phase ≠ .externalize)
    (built : ballots.pledges config = some pledges)
    (issued : Issued config (config.createEnvelope pledges)) :
    ∃ b, ballots.current = some b := by
  cases phase : ballots.phase with
  | externalize => exact absurd phase running
  | confirm =>
      have started : ballots.phase ≠ .prepare := by simp [phase]
      obtain ⟨_, b, _, _, current, _⟩ := sound.carries started
      exact ⟨b, current⟩
  | prepare =>
      obtain ⟨other, otherPledges, otherSound, begun, otherBuilt, equal⟩ :=
        issued
      rw [createEnvelope_injective equal] at built
      simp only [Ballots.pledges, phase, Option.some.injEq] at built
      rw [← built] at otherBuilt
      obtain ⟨_, fields⟩ := Ballots.pledges_prepare otherBuilt
      obtain ⟨b, current⟩ := Option.ne_none_iff_exists'.mp begun
      cases unset : ballots.current with
      | some b => exact ⟨b, rfl⟩
      | none =>
          rw [unset, current] at fields
          have zero : SCPBallot.zero = b :=
            congrArg Prepare.ballot fields
          refine absurd ?_ (otherSound.consistent.counter b current)
          rw [← zero]
          rfl

end Lost

/-- The slot restored from the statement of a state has the ballots of that
state exactly when the statement determines them: in PREPARE `h` has the
value of `b` and a counter, in CONFIRM `p` has the value of `b`. -/
theorem runInputs_restart_iff {config : SlotConfig} {inputs : List Input}
    {bp : BallotProtocol} {pledges : Pledges}
    (reached : bp ∈ (runInputs config inputs).states)
    (running : bp.mPhase ≠ .externalize)
    (built : bp.ballots.pledges config = some pledges)
    (emitted : config.createEnvelope pledges ∈
      (runInputs config inputs).slot.emittedEnvelopes) :
    (∃ slot, Slot.setStateFromEnvelope config
        (config.createEnvelope pledges) (Slot.fresh config) = .ok () slot ∧
      slot.mBallotProtocol.ballots = bp.ballots) ↔
    (bp.mPhase = .prepare → ∀ b ∈ bp.mCurrentBallot,
      ∀ h ∈ bp.mHighBallot, h.counter ≠ 0 ∧ h.value = b.value) ∧
    (bp.mPhase = .confirm → ∀ b ∈ bp.mCurrentBallot,
      ∀ p ∈ bp.mPrepared, p.value = b.value) := by
  obtain ⟨last, progresses⟩ := runInputs_progresses config inputs
  have sound := progresses.sound bp reached
  obtain ⟨view, reaches⟩ := runInputs_reaches config inputs
  have emits := (reaches.path.invariant (SlotView.Emits config none)
    (fun _ _ _ emits step => step.emits emits) (Slot.fresh_stable config)
    (Slot.fresh_emits config)).2
  rw [Slot.emittedEnvelopes_eq] at emitted
  obtain ⟨emission, inside, equal⟩ := List.mem_map.mp emitted
  have issued := emits.issued emission (reaches.records.emitted ▸ inside)
  rw [equal] at issued
  obtain ⟨b, current⟩ := current_of_issued sound running built issued
  have currentSet : bp.mCurrentBallot = some b := current
  rw [setStateFromEnvelope_fresh_iff]
  cases phase : bp.mPhase with
  | externalize => exact absurd phase running
  | prepare =>
      rw [restored_prepare_iff sound phase current built]
      simp [currentSet]
  | confirm =>
      rw [restored_confirm_iff sound phase current built]
      simp [currentSet]

/-- Nodes 1 and 2 confirm the ballot of the node. -/
theorem restart_small :
    (∃ slot, Slot.setStateFromEnvelope (smallSlot ⟨2, [0, 1, 2], []⟩)
        ((smallSlot ⟨2, [0, 1, 2], []⟩).createEnvelope (.prepare
          (prepareOf 0 ⟨1, [2]⟩ (some ⟨1, [2]⟩) none 1 1)))
        (Slot.fresh (smallSlot ⟨2, [0, 1, 2], []⟩)) = .ok () slot ∧
      slot.mBallotProtocol.ballots =
        (runInputs (smallSlot ⟨2, [0, 1, 2], []⟩)
          [.bumpState [2] true,
            receivePrepare 1 ⟨1, [2]⟩ (some ⟨1, [2]⟩) none,
            receivePrepare 2 ⟨1, [2]⟩ (some ⟨1, [2]⟩) none]
          ).slot.mBallotProtocol.ballots) :=
  (runInputs_restart_iff (runInputs_state_mem _ _ (by decide +kernel))
    (by decide +kernel) (by decide +kernel) (by decide +kernel)).mpr
    (by decide +kernel)

/-- Nodes 1 and 2 confirm a ballot with the counter of `b` and another value
as prepared; the restored node has confirmed `b`. -/
theorem restart_changes_high :
    (runInputs (smallSlot ⟨2, [0, 1, 2], []⟩)
      [.bumpState [2] true,
        receivePrepare 1 ⟨1, [2]⟩ (some ⟨1, [1]⟩) none,
        receivePrepare 2 ⟨1, [2]⟩ (some ⟨1, [1]⟩) none]
      ).slot.mBallotProtocol.ballots =
      { phase := .prepare
        current := some ⟨1, [2]⟩
        prepared := some ⟨1, [2]⟩
        preparedPrime := some ⟨1, [1]⟩
        high := some ⟨1, [1]⟩
        commit := none } ∧
    (smallSlot ⟨2, [0, 1, 2], []⟩).createEnvelope (.prepare
        (prepareOf 0 ⟨1, [2]⟩ (some ⟨1, [2]⟩) (some ⟨1, [1]⟩) 0 1)) ∈
      (runInputs (smallSlot ⟨2, [0, 1, 2], []⟩)
        [.bumpState [2] true,
          receivePrepare 1 ⟨1, [2]⟩ (some ⟨1, [1]⟩) none,
          receivePrepare 2 ⟨1, [2]⟩ (some ⟨1, [1]⟩) none]
        ).slot.emittedEnvelopes ∧
    ((match Slot.setStateFromEnvelope (smallSlot ⟨2, [0, 1, 2], []⟩)
        ((smallSlot ⟨2, [0, 1, 2], []⟩).createEnvelope (.prepare
          (prepareOf 0 ⟨1, [2]⟩ (some ⟨1, [2]⟩) (some ⟨1, [1]⟩) 0 1)))
        (Slot.fresh (smallSlot ⟨2, [0, 1, 2], []⟩)) with
      | .ok _ slot => slot.mBallotProtocol.mHighBallot
      | .error _ _ => none) = some ⟨1, [2]⟩) := by
  decide +kernel

end StellarCore.Scp
