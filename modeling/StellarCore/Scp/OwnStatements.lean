import StellarCore.Scp.BallotValues
import StellarCore.Scp.CommitVotes

/-!
# The statements a node records for itself

Every transition moves the node's statement up in the statement order, with
one exception.  The order looks at `b`, `p`, `p'` and the counter of `h`, so
a new `h` with the old counter shows only in a vote to commit, and a statement
that adds nothing else is not newer.  Where this does not happen, and the
values a slot meets are valid, the node accepts every statement it builds.
-/

namespace StellarCore.Scp

/-- The driver's verdict on a value for the slot. -/
abbrev SlotConfig.verdict (config : SlotConfig) (value : Value) :
    ValidationLevel :=
  config.driver.validateValue config.mSlotIndex value

def SlotConfig.IsValid (config : SlotConfig) (value : Value) : Prop :=
  config.verdict value ≠ .kInvalidValue

instance (config : SlotConfig) (value : Value) :
    Decidable (config.IsValid value) :=
  inferInstanceAs (Decidable (¬ _))

/-- A state in which a new vote to commit comes with a higher `b` or a higher
counter of `h`. -/
def ConfirmsVisibly (config : SlotConfig) (bp : BallotProtocol)
    (hint : SCPStatement) : Prop :=
  bp.mPhase = .prepare → bp.mPrepared ≠ none →
    ∀ newH ∈ getPrepareCandidates bp hint,
      HighestRatified config bp hint newH →
      mayVoteCommit bp newH = true → bp.mCurrentBallot = some newH →
        ∀ h ∈ bp.mHighBallot, h.counter ≠ newH.counter

instance (config : SlotConfig) (bp : BallotProtocol) (hint : SCPStatement) :
    Decidable (ConfirmsVisibly config bp hint) :=
  inferInstanceAs (Decidable (_ → _))

/-- Where the attempt is to confirm a ballot as prepared, a vote to commit
is visible. -/
def Visit.ConfirmsVisibly (config : SlotConfig) (visit : Visit) : Prop :=
  match visit.attempt with
  | .preparedConfirmed hint =>
      Scp.ConfirmsVisibly config visit.ballotProtocol hint
  | _ => True

instance (config : SlotConfig) :
    (visit : Visit) → Decidable (visit.ConfirmsVisibly config)
  | ⟨.preparedConfirmed hint, bp⟩ =>
      inferInstanceAs (Decidable (Scp.ConfirmsVisibly config bp hint))
  | ⟨.preparedAccept _, _⟩ => .isTrue trivial
  | ⟨.acceptCommit _, _⟩ => .isTrue trivial
  | ⟨.confirmCommit _, _⟩ => .isTrue trivial
  | ⟨.bump, _⟩ => .isTrue trivial
  | ⟨.idle, _⟩ => .isTrue trivial

/-! ## Statements the node builds are sane -/

section Sane

variable {config : SlotConfig} {ballots : Ballots} {pledges : Pledges}

private theorem counter_pos {counter : Uint32} (nonzero : counter ≠ 0) :
    0 < counter :=
  Fin.pos_iff_ne_zero.mpr nonzero

theorem Ballots.Sound.pledges_sane (sound : ballots.Sound)
    (built : ballots.pledges config = some pledges) :
    arePledgesSane pledges true = true := by
  cases pledges with
  | prepare prep =>
      obtain ⟨prepare, fields⟩ := Ballots.pledges_prepare built
      subst fields
      simp only [arePledgesSane, Bool.true_or, Bool.true_and,
        Bool.and_eq_true]
      refine ⟨⟨?_, ?_⟩, ?_⟩
      · cases prime : ballots.preparedPrime with
        | none => simp
        | some p' =>
            obtain ⟨p, prepared, less, differs⟩ := sound.pair p' prime
            simp [prepared, less.le, differs]
      · cases high : ballots.high with
        | none => simp
        | some h =>
            obtain ⟨p, prepared, bounded⟩ := sound.bounded prepare h high
            simp [prepared, bounded]
      · cases commit : ballots.commit with
        | none => simp
        | some c =>
            obtain ⟨h, b, high, current, low, top⟩ :=
              sound.consistent.commit c commit
            have lower := SCPBallot.counter_le_of_le low.1
            have upper := SCPBallot.counter_le_of_le top.1
            have positive := (counter_pos (sound.committed c commit)).trans_le
              lower
            simp [high, current, lower, upper, positive.ne']
  | confirm con =>
      obtain ⟨_, c, h, b, p, commit, high, current, _, fields⟩ :=
        Ballots.pledges_confirm built
      obtain ⟨h', b', high', current', low, top⟩ :=
        sound.consistent.commit c commit
      rw [high] at high'
      rw [current] at current'
      cases high'
      cases current'
      rw [fields]
      simp only [arePledgesSane, Bool.and_eq_true, decide_eq_true_eq]
      exact ⟨⟨counter_pos (sound.consistent.counter b current),
        SCPBallot.counter_le_of_le top.1⟩,
        SCPBallot.counter_le_of_le low.1⟩
  | externalize ext =>
      obtain ⟨_, c, h, commit, high, fields⟩ :=
        Ballots.pledges_externalize built
      obtain ⟨h', _, high', _, low, _⟩ := sound.consistent.commit c commit
      rw [high] at high'
      cases high'
      rw [fields]
      simp only [arePledgesSane, Bool.and_eq_true, decide_eq_true_eq]
      exact ⟨counter_pos (sound.committed c commit),
        SCPBallot.counter_le_of_le low.1⟩

theorem isQuorumSetSane_singleton (node : NodeID) :
    isQuorumSetSane (buildSingletonQSet node) false = true := by
  simp [isQuorumSetSane, buildSingletonQSet, checkSanity, checkSanityInner]

/-- The quorum set of an own statement is known and sane. -/
theorem own_quorumSet {qSet : SCPQuorumSet}
    (known : config.driver.getQSet config.localNode.mQSetHash = some qSet)
    (sane : isQuorumSetSane qSet false = true)
    (built : ballots.pledges config = some pledges) :
    ∃ qSet, config.getQuorumSetFromStatement
        (config.createEnvelope pledges).statement = some qSet ∧
      isQuorumSetSane qSet false = true := by
  unfold SlotConfig.getQuorumSetFromStatement
  rw [SlotConfig.createEnvelope_pledges]
  cases pledges with
  | prepare prep =>
      obtain ⟨_, fields⟩ := Ballots.pledges_prepare built
      rw [fields]
      exact ⟨qSet, known, sane⟩
  | confirm con =>
      obtain ⟨_, _, _, _, _, _, _, _, _, fields⟩ :=
        Ballots.pledges_confirm built
      rw [fields]
      exact ⟨qSet, known, sane⟩
  | externalize ext =>
      exact ⟨_, rfl, isQuorumSetSane_singleton _⟩

/-- Values that are all valid are not judged invalid together. -/
theorem validateValues_of_valid {st : SCPStatement}
    (valid : ∀ value ∈ statementValues st, config.IsValid value) :
    validateValues config st ≠ .kInvalidValue := by
  unfold validateValues
  refine List.foldlRecOn
    (motive := fun level => level ≠ ValidationLevel.kInvalidValue)
    _ _ (by decide) ?_
  intro level start value member
  have here := valid value member
  unfold SlotConfig.IsValid at here
  cases verdict : config.driver.validateValue config.mSlotIndex value with
  | kInvalidValue => exact absurd verdict here
  | kFullyValidatedValue => exact start
  | kMaybeValidValue => simp

/-- The values of the node's own statement that the driver is asked for. -/
theorem own_values_valid {st : SCPStatement}
    (valued : st.pledges.Valued config.IsValid) :
    ∀ value ∈ statementValues st, config.IsValid value := by
  intro value member
  unfold statementValues at member
  rw [mem_toSet] at member
  cases pledged : st.pledges with
  | prepare prep =>
      rw [pledged] at valued
      simp only [pledged] at member
      rcases List.mem_append.mp member with isCurrent | isPrepared
      · split at isCurrent
        · rename_i nonzero
          rw [List.mem_singleton.mp isCurrent]
          rcases valued.1 with isValid | ⟨isZero, _⟩
          · exact isValid
          · rw [isZero] at nonzero
            exact absurd rfl nonzero
        · cases isCurrent
      · obtain ⟨p, prepared, equal⟩ :=
          Option.map_eq_some_iff.mp (Option.mem_toList.mp isPrepared)
        rw [← equal]
        exact valued.2.1 p prepared
  | confirm con =>
      rw [pledged] at valued
      simp only [pledged, List.mem_singleton] at member
      rw [member]
      exact valued
  | externalize ext =>
      rw [pledged] at valued
      simp only [pledged, List.mem_singleton] at member
      rw [member]
      exact valued

end Sane

/-! ## Statements the node builds are newer -/

section Newer

variable {config : SlotConfig} {environment : Environment}
  {view view' : SlotView} {before after next : Ballots}
  {accepted : List SCPBallot} {old new pledges : Pledges}

theorem Ballots.pledges_rank
    (built : before.pledges config = some old) :
    ∃ rest, old.rank = toLex (before.phase.number, rest) := by
  cases old with
  | prepare prep =>
      exact ⟨_, by rw [(Ballots.pledges_prepare built).1]; rfl⟩
  | confirm con =>
      exact ⟨_, by rw [(Ballots.pledges_confirm built).1]; rfl⟩
  | externalize ext =>
      exact ⟨_, by rw [(Ballots.pledges_externalize built).1]; rfl⟩

/-- A later phase makes a newer statement. -/
theorem rank_lt_of_phase (oldBuilt : before.pledges config = some old)
    (newBuilt : after.pledges config = some new)
    (phase : before.phase.number < after.phase.number) :
    old.rank < new.rank := by
  obtain ⟨oldRest, oldRank⟩ := Ballots.pledges_rank oldBuilt
  obtain ⟨newRest, newRank⟩ := Ballots.pledges_rank newBuilt
  rw [oldRank, newRank, Prod.Lex.toLex_lt_toLex]
  exact .inl phase

/-- The order of two statements of PREPARE. -/
theorem rank_lt_of_prepare (oldBuilt : before.pledges config = some old)
    (newBuilt : after.pledges config = some new)
    (beforePhase : before.phase = .prepare)
    (afterPhase : after.phase = .prepare)
    (order : before.current.getD .zero < after.current.getD .zero ∨
      before.current = after.current ∧ (before.pair < after.pair ∨
        before.pair = after.pair ∧
          (before.high.map SCPBallot.counter).getD 0 <
            (after.high.map SCPBallot.counter).getD 0)) :
    old.rank < new.rank := by
  simp only [Ballots.pledges, beforePhase, Option.some.injEq] at oldBuilt
  simp only [Ballots.pledges, afterPhase, Option.some.injEq] at newBuilt
  subst oldBuilt
  subst newBuilt
  simp only [Ballots.pair, Prod.Lex.toLex_lt_toLex, toLex_inj,
    Prod.mk.injEq] at order
  simp only [Pledges.rank, Prod.Lex.toLex_lt_toLex]
  rcases order with bumped | ⟨same, pair | ⟨pair, high⟩⟩
  · exact .inr ⟨trivial, .inl bumped⟩
  · refine .inr ⟨trivial, .inr ⟨by rw [same], ?_⟩⟩
    rcases pair with prepared | ⟨prepared, prime⟩
    · exact .inl prepared
    · exact .inr ⟨prepared, .inl prime⟩
  · exact .inr ⟨trivial, .inr ⟨by rw [same], .inr ⟨pair.1,
      .inr ⟨pair.2, high⟩⟩⟩⟩

/-- The order of two statements of CONFIRM. -/
theorem rank_lt_of_confirm {b b' p p' h h' c c' : SCPBallot}
    (oldBuilt : before.pledges config = some old)
    (newBuilt : after.pledges config = some new)
    (beforePhase : before.phase = .confirm)
    (afterPhase : after.phase = .confirm)
    (beforeSet : before.current = some b ∧ before.prepared = some p ∧
      before.high = some h ∧ before.commit = some c)
    (afterSet : after.current = some b' ∧ after.prepared = some p' ∧
      after.high = some h' ∧ after.commit = some c')
    (order : b < b' ∨ b = b' ∧ (p.counter < p'.counter ∨
      p.counter = p'.counter ∧ h.counter < h'.counter)) :
    old.rank < new.rank := by
  simp only [Ballots.pledges, beforePhase, beforeSet, Option.some.injEq]
    at oldBuilt
  simp only [Ballots.pledges, afterPhase, afterSet, Option.some.injEq]
    at newBuilt
  subst oldBuilt
  subst newBuilt
  simp only [Pledges.rank, Prod.Lex.toLex_lt_toLex, pointerRank,
    WithBot.coe_lt_coe, WithBot.coe_inj, SCPBallot.lt_iff,
    SCPBallot.mk.injEq]
  rw [← SCPBallot.lt_iff]
  rcases order with bumped | ⟨same, prepared | ⟨prepared, high⟩⟩
  · exact .inr ⟨trivial, .inl bumped⟩
  · exact .inr ⟨trivial, .inr ⟨same, .inl (.inl prepared)⟩⟩
  · exact .inr ⟨trivial, .inr ⟨same, .inr ⟨⟨prepared, trivial⟩,
      .inr ⟨trivial, high⟩⟩⟩⟩

/-- A new `h` makes a newer statement, unless it only adds a vote. -/
private theorem confirmPrepared_newer {newC newH : SCPBallot}
    (sound : before.Sound) (prepare : before.phase = .prepare)
    (consistent : (before.confirmPrepared newC newH).Consistent)
    (oldBuilt : before.pledges config = some old)
    (newBuilt : (before.confirmPrepared newC newH).pledges config =
      some new)
    (differs : old ≠ new)
    (above : ∀ h, before.high = some h → h < newH)
    (votes : newC.counter ≠ 0 → before.current = some newH →
      ∀ h, before.high = some h → h.counter ≠ newH.counter)
    (started : ∀ b, before.current = some b → newC.counter ≠ 0 →
      b ≤ newC ∧ newC ≤ newH) :
    old.rank < new.rank := by
  refine rank_lt_of_prepare oldBuilt newBuilt prepare prepare ?_
  show _ < (raiseTo before.current newH).getD .zero ∨
    before.current = raiseTo before.current newH ∧ (_ ∨ _ ∧ _)
  cases current : before.current with
  | none =>
      left
      have raised : raiseTo (none : Option SCPBallot) newH = some newH := rfl
      rw [raised]
      refine lt_of_le_of_ne (SCPBallot.zero_le newH) ?_
      intro zero
      refine consistent.counter newH ?_
        (congrArg SCPBallot.counter zero).symm
      simp [Ballots.confirmPrepared, current, raised]
  | some b =>
      by_cases less : b < newH
      · left
        simp [raiseTo, less]
      · right
        have kept : raiseTo (some b) newH = some b := by
          simp [raiseTo, less]
        refine ⟨kept.symm, .inr ⟨rfl, ?_⟩⟩
        show _ < newH.counter
        by_contra notHigher
        have upper : (before.high.map SCPBallot.counter).getD 0 ≤
            newH.counter := by
          cases high : before.high with
          | none => exact Fin.zero_le _
          | some h => exact SCPBallot.counter_le_of_le (above h high).le
        have counters : (before.high.map SCPBallot.counter).getD 0 =
            newH.counter := le_antisymm upper (not_lt.mp notHigher)
        by_cases nonzero : newC.counter ≠ 0
        · obtain ⟨lower, under⟩ := started b current nonzero
          have isCurrent : b = newH :=
            le_antisymm (lower.trans under) (not_lt.mp less)
          cases high : before.high with
          | none =>
              rw [high] at counters
              rw [← isCurrent] at counters
              exact sound.consistent.counter b current counters.symm
          | some h =>
              rw [high] at counters
              exact votes nonzero (by rw [current, isCurrent]) h high
                counters
        · refine differs ?_
          simp only [Ballots.pledges, prepare, Option.some.injEq]
            at oldBuilt
          simp only [Ballots.pledges, Ballots.confirmPrepared, prepare,
            current, kept, if_neg nonzero, Option.map_some,
            Option.getD_some, Option.some.injEq] at newBuilt
          rw [← oldBuilt, ← newBuilt, current, counters]
          rfl

/-- Every statement that a transition makes is newer than the last one,
unless it only adds a vote. -/
theorem Transition.newer
    (transition : Transition config environment view next accepted)
    (sound : view.ballots.Sound) (consistent : next.Consistent)
    (oldBuilt : view.ballots.pledges config = some old)
    (newBuilt : next.pledges config = some new) (differs : old ≠ new)
    (visible : ∀ hint bp, view.Visited (.preparedConfirmed hint) bp →
      ConfirmsVisibly config bp hint) : old.rank < new.rank := by
  cases transition with
  | acceptPrepared hint bp ballot visited recorded running candidate raises
      compatible accepts highest =>
      cases phase : view.ballots.phase with
      | externalize => exact absurd phase running
      | prepare =>
          refine rank_lt_of_prepare oldBuilt newBuilt phase
            (Ballots.acceptPrepared_phase.trans phase) (.inr ⟨?_, .inl ?_⟩)
          · rw [Ballots.acceptPrepared_current]
          · rw [Ballots.acceptPrepared_pair]
            exact (Ballots.withPrepared_raises raises sound.pair).1
      | confirm =>
          obtain ⟨p, c, prepared, commit, below, same, agree⟩ :=
            compatible phase
          obtain ⟨h, b, high, current, _⟩ := sound.consistent.commit c commit
          have replaced := Ballots.acceptPrepared_confirm raises sound phase
            prepared commit below same agree
          rw [replaced] at newBuilt
          have grows : p.counter < ballot.counter := by
            refine lt_of_le_of_ne (SCPBallot.counter_le_of_le below) ?_
            intro equal
            exact raises.notCovered p prepared
              ⟨SCPBallot.le_of_counter_le equal.ge same.symm, same.symm⟩
          exact rank_lt_of_confirm oldBuilt newBuilt phase phase
            ⟨current, prepared, high, commit⟩ ⟨current, rfl, high, commit⟩
            (.inr ⟨rfl, .inl grows⟩)
  | confirmPrepared hint bp newH candidates visited recorded prepare found
      bounded settled =>
      obtain ⟨candidate, highest⟩ := findNewH_highest found
      have current : bp.mCurrentBallot = view.ballots.current :=
        congrArg Ballots.current visited.ballots
      have high : bp.mHighBallot = view.ballots.high :=
        congrArg Ballots.high visited.ballots
      refine confirmPrepared_newer sound prepare consistent oldBuilt newBuilt
        differs ?_ ?_ ?_
      · intro h set
        exact highest.above h (high.trans set)
      · intro nonzero isCurrent h set
        obtain ⟨allowed, _⟩ := searchNewC_lowest found nonzero
        obtain ⟨p, prepared, _⟩ := bounded
        have preparedSet : bp.mPrepared = some p :=
          (congrArg Ballots.prepared visited.ballots).trans prepared
        exact visible hint bp visited
          ((congrArg Ballots.phase visited.ballots).trans prepare)
          (by simp [preparedSet]) newH candidate highest allowed
          (current.trans isCurrent) h (high.trans set)
      · intro b set nonzero
        obtain ⟨_, _, lowest⟩ := searchNewC_lowest found nonzero
        have started := lowest.started
        rw [current, set] at started
        exact ⟨started, lowest.below⟩
  | acceptCommit hint bp ballot visited recorded running prepared hinted
      found compatible =>
      cases phase : view.ballots.phase with
      | externalize => exact absurd phase running
      | prepare =>
          refine rank_lt_of_phase oldBuilt newBuilt ?_
          simp [Ballots.acceptCommit, phase, SCPPhase.number]
      | confirm =>
          have started : view.ballots.phase ≠ .prepare := by simp [phase]
          obtain ⟨h, high, _, higher⟩ := compatible phase
          obtain ⟨c, commit⟩ := Option.ne_none_iff_exists'.mp
            (sound.consistent.confirmed started)
          obtain ⟨_, b, _, current, _⟩ := sound.consistent.commit c commit
          obtain ⟨p, preparedSet⟩ := Option.ne_none_iff_exists'.mp prepared
          rw [Ballots.acceptCommit, if_neg started] at newBuilt
          by_cases less :
              b < ⟨(acceptedInterval config bp ballot).second, ballot.value⟩
          · refine rank_lt_of_confirm oldBuilt newBuilt phase phase
              ⟨current, preparedSet, high, commit⟩
              ⟨?_, preparedSet, rfl, rfl⟩ (.inl less)
            simp [raiseTo, current, less]
          · refine rank_lt_of_confirm oldBuilt newBuilt phase phase
              ⟨current, preparedSet, high, commit⟩
              ⟨?_, preparedSet, rfl, rfl⟩
              (.inr ⟨rfl, .inr ⟨rfl, higher⟩⟩)
            simp [raiseTo, current, less]
  | confirmCommit hint bp ballot commit visited recorded confirm committed
      hinted compatible found =>
      refine rank_lt_of_phase oldBuilt newBuilt ?_
      simp [Ballots.confirmCommit, confirm, SCPPhase.number]
  | bump value newb running available override counter above compatible =>
      have grows : view.ballots.current.getD .zero < newb := by
        cases current : view.ballots.current with
        | some b => exact above b current
        | none =>
            refine lt_of_le_of_ne (SCPBallot.zero_le newb) ?_
            intro zero
            exact counter (by rw [← zero]; rfl)
      cases phase : view.ballots.phase with
      | externalize => exact absurd phase running
      | prepare =>
          exact rank_lt_of_prepare oldBuilt newBuilt phase phase
            (.inl grows)
      | confirm =>
          have started : view.ballots.phase ≠ .prepare := by simp [phase]
          obtain ⟨c, commit⟩ := Option.ne_none_iff_exists'.mp
            (sound.consistent.confirmed started)
          obtain ⟨h, b, high, current, _⟩ := sound.consistent.commit c commit
          obtain ⟨p, prepared⟩ := Option.ne_none_iff_exists'.mp
            (sound.confirmed started).1
          rw [current] at grows
          exact rank_lt_of_confirm oldBuilt newBuilt phase phase
            ⟨current, prepared, high, commit⟩ ⟨rfl, prepared, high, commit⟩
            (.inl grows)

end Newer

/-! ## The node accepts what it builds -/

section Own

variable {config : SlotConfig} {environment : Environment}
  {view view' : SlotView} {next : Ballots} {accepted : List SCPBallot}
  {pledges : Pledges}

theorem Transition.admits
    (transition : Transition config environment view next accepted)
    (stable : view.Stable config) (consistent : next.Consistent)
    (built : next.pledges config = some pledges)
    (differs : view.envelopes.lookup config.getLocalNodeID ≠
      some (config.createEnvelope pledges))
    (valued : next.Valued config.IsValid) {qSet : SCPQuorumSet}
    (known : config.driver.getQSet config.localNode.mQSetHash = some qSet)
    (sane : isQuorumSetSane qSet false = true)
    (visible : ∀ hint bp, view.Visited (.preparedConfirmed hint) bp →
      ConfirmsVisibly config bp hint) :
    view.Admits config (config.createEnvelope pledges).statement true where
  known := own_quorumSet known sane built
  sane := (transition.sound stable.sound consistent).pledges_sane built
  newer := by
    intro old lookup
    obtain ⟨oldPledges, oldBuilt, created⟩ := stable.own old lookup
    rw [created, isNewerStatement_iff]
    refine transition.newer stable.sound consistent oldBuilt built ?_ visible
    intro same
    have equal : oldPledges = pledges := same
    rw [equal] at created
    exact differs (lookup.trans (congrArg some created))
  valid := validateValues_of_valid
    (own_values_valid (valued.pledges consistent built))

/-- The statements recorded for the node itself are sane and each is newer
than those before it. -/
structure SlotView.Advancing (config : SlotConfig) (view : SlotView) :
    Prop where
  newer : (view.own config).Pairwise
    (fun earlier later => isNewerStatement earlier later = true)
  latest : ∀ st ∈ view.own config, ∃ envelope,
    view.envelopes.lookup config.getLocalNodeID = some envelope ∧
      (st = envelope.statement ∨
        isNewerStatement st envelope.statement = true)
  sane : ∀ st ∈ view.own config, ∃ qSet,
    config.getQuorumSetFromStatement st = some qSet ∧
      isQuorumSetSane qSet false = true ∧
      arePledgesSane st.pledges true = true

theorem Step.advancing (step : Step config environment view view')
    (advancing : view.Advancing config) : view'.Advancing config := by
  cases step with
  | publish flag transition consistent built admitted =>
      rename_i next accepted pledges
      obtain ⟨⟨qSet, known, saneSet⟩, sane, newer, _⟩ := admitted
      have newest : ∀ st ∈ view.own config, isNewerStatement st
          (config.createEnvelope pledges).statement = true := by
        intro st member
        obtain ⟨envelope, lookup, same | older⟩ := advancing.latest st member
        · rw [same]
          exact newer envelope lookup
        · exact isNewerStatement_trans older (newer envelope lookup)
      refine ⟨?_, ?_, ?_⟩
      · rw [SlotView.own_publish, List.pairwise_append]
        refine ⟨advancing.newer, List.pairwise_singleton _ _, ?_⟩
        intro earlier member later isLast
        rw [List.mem_singleton.mp isLast]
        exact newest earlier member
      · intro st member
        refine ⟨config.createEnvelope pledges, by simp [SlotView.record], ?_⟩
        rw [SlotView.own_publish] at member
        rcases List.mem_append.mp member with earlier | here
        · exact .inr (newest st earlier)
        · exact .inl (List.mem_singleton.mp here)
      · intro st member
        rw [SlotView.own_publish] at member
        rcases List.mem_append.mp member with earlier | here
        · exact advancing.sane st earlier
        · rw [List.mem_singleton.mp here]
          exact ⟨qSet, known, saneSet, sane⟩
  | receive flag sent foreign verified indexed admitted final =>
      refine ⟨?_, ?_, ?_⟩
      · rw [SlotView.own_receive foreign]
        exact advancing.newer
      · rw [SlotView.own_receive foreign]
        simp only [SlotView.record, AList.lookup_insert_ne foreign.symm]
        exact advancing.latest
      · rw [SlotView.own_receive foreign]
        exact advancing.sane
  | visit attempt bp ballots envelopes =>
      exact ⟨advancing.newer, advancing.latest, advancing.sane⟩
  | keep transition consistent built same =>
      exact ⟨advancing.newer, advancing.latest, advancing.sane⟩
  | makeLast envelope vouched newer =>
      exact ⟨advancing.newer, advancing.latest, advancing.sane⟩
  | send last set fresh validated =>
      exact ⟨advancing.newer, advancing.latest, advancing.sane⟩
  | externalize commit ended committed first =>
      exact ⟨advancing.newer, advancing.latest, advancing.sane⟩
  | offer value offered =>
      exact ⟨advancing.newer, advancing.latest, advancing.sane⟩

theorem Slot.fresh_advancing (config : SlotConfig) :
    (Slot.fresh config).view.Advancing config where
  newer := List.Pairwise.nil
  latest := fun _ member => absurd member List.not_mem_nil
  sane := fun _ member => absurd member List.not_mem_nil

end Own

/-- A node whose own quorum set is sane and that meets valid values only
accepts every statement it builds, in a run in which every new vote to commit
is visible; its statements are sane and each is newer than the one before. -/
theorem runInputs_own_statements {config : SlotConfig} {inputs : List Input}
    {qSet : SCPQuorumSet}
    (known : config.driver.getQSet config.localNode.mQSetHash = some qSet)
    (sane : isQuorumSetSane qSet false = true)
    (offered : ∀ input ∈ inputs, ∀ value, input.offers value →
      config.IsValid value)
    (received : ∀ envelope, .receiveEnvelope envelope ∈ inputs →
      ∀ value ∈ envelope.statement.values, config.IsValid value)
    (visible : ∀ visit ∈ (runInputs config inputs).slot.visits,
      visit.ConfirmsVisibly config) :
    (runInputs config inputs).failure ≠ some .movedToBadState ∧
    (∀ st ∈ (runInputs config inputs).slot.ownStatements config, ∃ qSet,
      config.getQuorumSetFromStatement st = some qSet ∧
        isQuorumSetSane qSet false = true ∧
        arePledgesSane st.pledges true = true) ∧
    ((runInputs config inputs).slot.ownStatements config).Pairwise
      (fun earlier later => isNewerStatement earlier later = true) := by
  obtain ⟨view, reaches⟩ := runInputs_reaches config inputs
  have visits : (runInputs config inputs).slot.visits = view.visits :=
    reaches.records.visits
  have own : (runInputs config inputs).slot.ownStatements config =
      view.own config := by
    rw [SlotView.own, ← reaches.records.history]
    rfl
  have offers : ∀ value, (environmentOf inputs).offers value →
      config.IsValid value := by
    rintro value ⟨input, member, offers⟩
    exact offered input member value offers
  obtain ⟨stable, valued, advancing⟩ := reaches.path.invariant
    (fun view => view.Valued config.IsValid config ∧ view.Advancing config)
    (fun _ _ stable both step =>
      ⟨step.valued stable both.1 offers
        (fun envelope sent _ => received envelope sent),
        step.advancing both.2⟩)
    (Slot.fresh_stable config)
    ⟨Slot.fresh_valued _ config, Slot.fresh_advancing config⟩
  rw [own]
  refine ⟨?_, advancing.sane, advancing.newer⟩
  intro failed
  obtain ⟨next, accepted, pledges, transition, consistent, built, differs,
    refused⟩ := reaches.explained _ failed
  refine refused (transition.admits stable consistent built differs
    (transition.valued stable valued offers) known sane ?_)
  intro hint bp visited
  have member : ⟨.preparedConfirmed hint, bp⟩ ∈
      (runInputs config inputs).slot.visits := by
    rw [visits]
    exact visited.member
  exact visible _ member

/-- A node that follows node 1 accepts its own statements. -/
theorem own_statements_small :
    (runInputs (smallSlot ⟨1, [1], []⟩)
      [.bumpState [1] true, receivePrepare 1 ⟨2, [1]⟩ (some ⟨2, [1]⟩)
        none]).failure ≠ some .movedToBadState ∧
    (∀ st ∈ (runInputs (smallSlot ⟨1, [1], []⟩)
      [.bumpState [1] true, receivePrepare 1 ⟨2, [1]⟩ (some ⟨2, [1]⟩)
        none]).slot.ownStatements (smallSlot ⟨1, [1], []⟩), ∃ qSet,
      (smallSlot ⟨1, [1], []⟩).getQuorumSetFromStatement st = some qSet ∧
        isQuorumSetSane qSet false = true ∧
        arePledgesSane st.pledges true = true) ∧
    ((runInputs (smallSlot ⟨1, [1], []⟩)
      [.bumpState [1] true, receivePrepare 1 ⟨2, [1]⟩ (some ⟨2, [1]⟩)
        none]).slot.ownStatements (smallSlot ⟨1, [1], []⟩)).Pairwise
      (fun earlier later => isNewerStatement earlier later = true) :=
  runInputs_own_statements rfl (by decide +kernel)
    (fun _ _ _ _ => by simp [SlotConfig.IsValid, smallSlot])
    (fun _ _ _ _ => by simp [SlotConfig.IsValid, smallSlot])
    (by decide +kernel)

/-- Nodes 1 and 2 have first one and then the other of two ballots with the
same counter prepared: the second statement of the node only adds a vote. -/
theorem own_statements_refused :
    isQuorumSetSane ⟨2, [0, 1, 2], []⟩ false = true ∧
    ([1, 2] : List NodeID).all (fun node =>
      arePledgesSane (.prepare (prepareOf node ⟨1, [2]⟩ (some ⟨1, [1]⟩)
          none 0 0)) false &&
        arePledgesSane (.prepare (prepareOf node ⟨1, [2]⟩ (some ⟨1, [2]⟩)
          (some ⟨1, [1]⟩) 0 0)) false) = true ∧
    (runInputs (smallSlot ⟨2, [0, 1, 2], []⟩)
      [.bumpState [2] true,
        receivePrepare 1 ⟨1, [2]⟩ (some ⟨1, [1]⟩) none,
        receivePrepare 2 ⟨1, [2]⟩ (some ⟨1, [1]⟩) none,
        receivePrepare 1 ⟨1, [2]⟩ (some ⟨1, [2]⟩) (some ⟨1, [1]⟩),
        receivePrepare 2 ⟨1, [2]⟩ (some ⟨1, [2]⟩)
          (some ⟨1, [1]⟩)]).failure = some .movedToBadState := by
  decide +kernel

end StellarCore.Scp
