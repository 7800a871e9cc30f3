import StellarCore.Scp.CommitVotes
import StellarCore.Scp.Progression

/-!
# The prepared ballot of a committed value

A CONFIRM statement reports `p` by its counter only, next to the value that
is committed.  `attemptAcceptCommit` enters CONFIRM without a look at the
value of `p`.  Where `p` has the value that is committed, the two agree from
then on, and every CONFIRM statement reports a ballot that the node has
accepted as prepared.
-/

namespace StellarCore.Scp

/-- A state in which `p` has the value of the commit that the node is about
to accept. -/
def CommitsPrepared (config : SlotConfig) (bp : BallotProtocol)
    (hint : SCPStatement) : Prop :=
  bp.mPhase = .prepare → ∀ ballot ∈ commitHint hint,
    (acceptedInterval config bp ballot).first ≠ 0 →
      ∀ p ∈ bp.mPrepared, p.value = ballot.value

instance (config : SlotConfig) (bp : BallotProtocol) (hint : SCPStatement) :
    Decidable (CommitsPrepared config bp hint) :=
  inferInstanceAs (Decidable (_ → _))

/-- Where the attempt is to accept a commit, `p` has its value. -/
def Visit.CommitsPrepared (config : SlotConfig) (visit : Visit) : Prop :=
  match visit.attempt with
  | .acceptCommit hint =>
      Scp.CommitsPrepared config visit.ballotProtocol hint
  | _ => True

instance (config : SlotConfig) :
    (visit : Visit) → Decidable (visit.CommitsPrepared config)
  | ⟨.acceptCommit hint, bp⟩ =>
      inferInstanceAs (Decidable (Scp.CommitsPrepared config bp hint))
  | ⟨.preparedAccept _, _⟩ => .isTrue trivial
  | ⟨.preparedConfirmed _, _⟩ => .isTrue trivial
  | ⟨.confirmCommit _, _⟩ => .isTrue trivial
  | ⟨.bump, _⟩ => .isTrue trivial
  | ⟨.idle, _⟩ => .isTrue trivial

/-- After PREPARE, `p` and `c` carry the same value. -/
def Ballots.Agree (ballots : Ballots) : Prop :=
  ballots.phase ≠ .prepare → ∀ p c, ballots.prepared = some p →
    ballots.commit = some c → p.value = c.value

/-- The ballot that a CONFIRM statement claims to be prepared. -/
def Confirm.claimed (con : Confirm) : SCPBallot :=
  ⟨con.nPrepared, con.ballot.value⟩

/-- What the node reports as prepared, it has accepted as prepared. -/
structure SlotView.Truthful (config : SlotConfig) (view : SlotView) :
    Prop where
  agree : view.ballots.Agree
  visits : ∀ visit ∈ view.visits, visit.ballotProtocol.ballots.Agree
  accepted : ∀ p, view.ballots.prepared = some p → p ∈ view.accepted
  claimed : ∀ st ∈ view.own config, ∀ con, st.pledges = .confirm con →
    con.claimed ∈ view.accepted
  last : ∀ last, view.last = some last →
    last.value.statement ∈ view.own config
  emitted : ∀ emission ∈ view.emitted,
    emission.1.statement ∈ view.own config

section Truthful

variable {config : SlotConfig} {environment : Environment}
  {view view' : SlotView} {next : Ballots} {accepted : List SCPBallot}

theorem Transition.agree
    (transition : Transition config environment view next accepted)
    (sound : view.ballots.Sound) (agree : view.ballots.Agree)
    (commits : ∀ hint bp, view.Visited (.acceptCommit hint) bp →
      CommitsPrepared config bp hint) : next.Agree := by
  cases transition with
  | acceptPrepared hint bp ballot visited recorded running candidate raises
      compatible accepts highest =>
      intro started p c prepared commit
      rw [Ballots.acceptPrepared_phase] at started
      have confirm : view.ballots.phase = .confirm := by
        cases phase : view.ballots.phase with
        | prepare => exact absurd phase started
        | confirm => rfl
        | externalize => exact absurd phase running
      obtain ⟨old, c', oldSet, commitSet, below, same, value⟩ :=
        compatible confirm
      rw [Ballots.acceptPrepared_confirm raises sound confirm oldSet
        commitSet below same value] at prepared commit
      cases prepared
      have equal : c' = c := Option.some.inj (commitSet.symm.trans commit)
      rw [← equal]
      exact value.symm
  | confirmPrepared hint bp newH candidates visited recorded prepare found
      bounded settled =>
      intro started
      exact absurd prepare started
  | acceptCommit hint bp ballot visited recorded running prepared hinted
      found compatible =>
      intro _ p c set commit
      cases phase : view.ballots.phase with
      | externalize => exact absurd phase running
      | prepare =>
          rw [Ballots.acceptCommit, if_pos phase] at set commit
          cases commit
          exact commits hint bp visited
            ((congrArg Ballots.phase visited.ballots).trans phase) ballot
            hinted found p
            ((congrArg Ballots.prepared visited.ballots).trans set)
      | confirm =>
          have started : view.ballots.phase ≠ .prepare := by simp [phase]
          rw [Ballots.acceptCommit, if_neg started] at set commit
          cases commit
          obtain ⟨high, highSet, value, _⟩ := compatible phase
          obtain ⟨c', committed⟩ := Option.ne_none_iff_exists'.mp
            (sound.consistent.confirmed started)
          obtain ⟨high', _, highSet', _, ⟨_, low⟩, _⟩ :=
            sound.consistent.commit c' committed
          rw [highSet] at highSet'
          cases highSet'
          exact (agree started p c' set committed).trans
            (low.trans value.symm)
  | confirmCommit hint bp ballot commit visited recorded confirm committed
      hinted compatible found =>
      intro _ p c set commit'
      cases commit'
      exact (agree (by simp [confirm]) p commit set committed).trans
        compatible.symm
  | bump value newb running available override counter above compatible =>
      exact agree

theorem Transition.accepted_prepared
    (transition : Transition config environment view next accepted)
    (sound : view.ballots.Sound)
    (known : ∀ p, view.ballots.prepared = some p → p ∈ view.accepted) :
    ∀ p, next.prepared = some p → p ∈ accepted := by
  cases transition with
  | acceptPrepared hint bp ballot visited recorded running candidate raises
      compatible accepts highest =>
      intro p set
      rw [Ballots.acceptPrepared_prepared] at set
      rcases raises.cases sound.pair with
        ⟨_, _, result⟩ | ⟨old, _, _, result⟩ | ⟨old, oldSet, _, _, result⟩
      · rw [result] at set
        cases set
        simp
      · rw [result] at set
        cases set
        simp
      · rw [result] at set
        exact List.mem_append_left _ (known p set)
  | confirmPrepared hint bp newH candidates visited recorded prepare found
      bounded settled => exact known
  | acceptCommit hint bp ballot visited recorded running prepared hinted
      found compatible =>
      intro p set
      refine known p ?_
      rw [← set, Ballots.acceptCommit]
      split
      · rfl
      · rfl
  | confirmCommit hint bp ballot commit visited recorded confirm committed
      hinted compatible found => exact known
  | bump value newb running available override counter above compatible =>
      exact known

/-- A CONFIRM statement of the present claims `p` itself. -/
theorem claimed_eq_prepared {con : Confirm} (sound : next.Consistent)
    (agree : next.Agree)
    (built : next.pledges config = some (.confirm con)) :
    next.prepared = some con.claimed := by
  obtain ⟨phase, c, h, b, p, commit, _, current, prepared, fields⟩ :=
    Ballots.pledges_confirm built
  obtain ⟨b', _, c', current', _, commit', bValue, _, _⟩ :=
    sound.carries commit
  rw [current] at current'
  cases current'
  have value : p.value = b.value :=
    (agree (by simp [phase]) p c prepared commit).trans bValue.symm
  rw [prepared, fields, Confirm.claimed, ← value]

theorem Step.truthful (step : Step config environment view view')
    (stable : view.Stable config) (truthful : view.Truthful config)
    (commits : ∀ visit ∈ view.visits, visit.CommitsPrepared config) :
    view'.Truthful config := by
  have visited : ∀ hint bp, view.Visited (.acceptCommit hint) bp →
      CommitsPrepared config bp hint :=
    fun hint bp visited => commits _ visited.member
  cases step with
  | visit attempt bp ballots envelopes =>
      refine ⟨truthful.agree, ?_, truthful.accepted, truthful.claimed,
        truthful.last, truthful.emitted⟩
      intro visit member
      rcases List.mem_append.mp member with earlier | here
      · exact truthful.visits visit earlier
      · rw [List.mem_singleton.mp here]
        show bp.ballots.Agree
        rw [ballots]
        exact truthful.agree
  | keep transition consistent built same =>
      refine ⟨transition.agree stable.sound truthful.agree visited,
        truthful.visits,
        transition.accepted_prepared stable.sound truthful.accepted, ?_,
        truthful.last, truthful.emitted⟩
      intro st member con pledged
      exact transition.accepted_subset
        (truthful.claimed st member con pledged)
  | publish flag transition consistent built admitted =>
      have agree := transition.agree stable.sound truthful.agree visited
      have known := transition.accepted_prepared stable.sound
        truthful.accepted
      refine ⟨agree, truthful.visits, known, ?_, ?_, ?_⟩
      · intro st member con pledged
        rw [SlotView.own_publish] at member
        rcases List.mem_append.mp member with earlier | here
        · exact transition.accepted_subset
            (truthful.claimed st earlier con pledged)
        · rw [List.mem_singleton.mp here,
            SlotConfig.createEnvelope_pledges] at pledged
          exact known _
            (claimed_eq_prepared consistent agree (pledged ▸ built))
      · intro last set
        rw [SlotView.own_publish]
        exact List.mem_append_left _ (truthful.last last set)
      · intro emission member
        rw [SlotView.own_publish]
        exact List.mem_append_left _ (truthful.emitted emission member)
  | receive flag sent foreign verified indexed admitted final =>
      refine ⟨truthful.agree, truthful.visits, truthful.accepted, ?_, ?_, ?_⟩
      · rw [SlotView.own_receive foreign]
        exact truthful.claimed
      · rw [SlotView.own_receive foreign]
        exact truthful.last
      · rw [SlotView.own_receive foreign]
        exact truthful.emitted
  | makeLast envelope vouched newer =>
      refine ⟨truthful.agree, truthful.visits, truthful.accepted,
        truthful.claimed, ?_, truthful.emitted⟩
      intro last set
      cases set
      obtain ⟨recorded, _, _, _, _, _, equal, _⟩ := vouched
      refine List.mem_filter.mpr ⟨recorded, ?_⟩
      rw [equal]
      simp
  | send last set fresh validated =>
      refine ⟨truthful.agree, truthful.visits, truthful.accepted,
        truthful.claimed, truthful.last, ?_⟩
      intro emission member
      rcases List.mem_append.mp member with earlier | here
      · exact truthful.emitted emission earlier
      · rw [List.mem_singleton.mp here]
        exact truthful.last last set
  | externalize commit ended committed first =>
      exact ⟨truthful.agree, truthful.visits, truthful.accepted,
        truthful.claimed, truthful.last, truthful.emitted⟩
  | offer value offered =>
      exact ⟨truthful.agree, truthful.visits, truthful.accepted,
        truthful.claimed, truthful.last, truthful.emitted⟩

theorem Slot.fresh_truthful (config : SlotConfig) :
    (Slot.fresh config).view.Truthful config where
  agree := fun started => absurd rfl started
  visits := fun visit member => absurd member List.not_mem_nil
  accepted := fun p set => by cases set
  claimed := fun st member => absurd member List.not_mem_nil
  last := fun last set => by cases set
  emitted := fun emission member => absurd member List.not_mem_nil

end Truthful

/-- In a run in which `p` has the value of every commit that the node accepts
in PREPARE, the two agree from CONFIRM on, and the node only reports ballots
that it has accepted as prepared. -/
theorem runInputs_prepared_value {config : SlotConfig}
    {inputs : List Input}
    (commits : ∀ visit ∈ (runInputs config inputs).slot.visits,
      visit.CommitsPrepared config) :
    (∀ bp ∈ (runInputs config inputs).states, bp.mPhase ≠ .prepare →
      ∃ p c, bp.mPrepared = some p ∧ bp.mCommit = some c ∧
        p.value = c.value) ∧
    (runInputs config inputs).failure ≠
      some (.nullDereference .createStatement) ∧
    (runInputs config inputs).failure ≠
      some (.nullDereference .attemptPreparedAccept) ∧
    (runInputs config inputs).failure ≠
      some (.dbgAbort .attemptPreparedAccept) ∧
    ∀ envelope ∈ (runInputs config inputs).slot.emittedEnvelopes, ∀ con,
      envelope.statement.pledges = .confirm con →
        ⟨con.nPrepared, con.ballot.value⟩ ∈
          (runInputs config inputs).slot.acceptedBallots := by
  obtain ⟨view, reaches⟩ := runInputs_reaches config inputs
  have visits : (runInputs config inputs).slot.visits = view.visits :=
    reaches.records.visits
  obtain ⟨stable, invariant⟩ := reaches.path.invariant
    (fun view => (∀ visit ∈ view.visits, visit.CommitsPrepared config) →
      view.Truthful config)
    (fun view view' stable truthful step commits =>
      have before := fun visit member =>
        commits visit (step.visits_subset member)
      step.truthful stable (truthful before) before)
    (Slot.fresh_stable config) (fun _ => Slot.fresh_truthful config)
  have truthful := invariant (visits ▸ commits)
  refine ⟨?_, ?_, ?_, ?_, ?_⟩
  · intro bp member started
    obtain ⟨last, progresses⟩ := runInputs_progresses config inputs
    have sound := progresses.sound bp member
    obtain ⟨p, prepared⟩ := Option.ne_none_iff_exists'.mp
      (sound.confirmed started).1
    obtain ⟨c, commit⟩ := Option.ne_none_iff_exists'.mp
      (sound.consistent.confirmed started)
    rw [Process.states, visits] at member
    obtain ⟨visit, inside, equal⟩ := List.mem_map.mp member
    have agree := truthful.visits visit inside
    rw [equal] at agree
    exact ⟨p, c, prepared, commit, agree started p c prepared commit⟩
  · intro failed
    exact reaches.explained _ failed
  · intro failed
    exact reaches.explained _ failed
  · intro failed
    obtain ⟨confirm, p, c, prepared, commit, differs⟩ :=
      reaches.explained _ failed
    exact differs (truthful.agree (by simp [confirm]) p c prepared commit)
  · intro envelope member con pledged
    rw [Slot.emittedEnvelopes_eq] at member
    obtain ⟨emission, inside, equal⟩ := List.mem_map.mp member
    have emitted : emission ∈ view.emitted := by
      rw [← reaches.records.emitted]
      exact inside
    have own := truthful.emitted emission emitted
    rw [equal] at own
    exact reaches.records.accepted
      (truthful.claimed envelope.statement own con pledged)

/-- A node that follows node 1 commits what it has accepted as prepared. -/
theorem prepared_value_small :
    (∀ bp ∈ (runInputs (smallSlot ⟨1, [1], []⟩)
      [receiveFrom 1 (.confirm ⟨⟨1, [1]⟩, 1, 1, 1, 1⟩)]).states,
      bp.mPhase ≠ .prepare → ∃ p c, bp.mPrepared = some p ∧
        bp.mCommit = some c ∧ p.value = c.value) ∧
    (runInputs (smallSlot ⟨1, [1], []⟩)
      [receiveFrom 1 (.confirm ⟨⟨1, [1]⟩, 1, 1, 1, 1⟩)]).failure ≠
        some (.nullDereference .createStatement) ∧
    (runInputs (smallSlot ⟨1, [1], []⟩)
      [receiveFrom 1 (.confirm ⟨⟨1, [1]⟩, 1, 1, 1, 1⟩)]).failure ≠
        some (.nullDereference .attemptPreparedAccept) ∧
    (runInputs (smallSlot ⟨1, [1], []⟩)
      [receiveFrom 1 (.confirm ⟨⟨1, [1]⟩, 1, 1, 1, 1⟩)]).failure ≠
        some (.dbgAbort .attemptPreparedAccept) ∧
    ∀ envelope ∈ (runInputs (smallSlot ⟨1, [1], []⟩)
      [receiveFrom 1 (.confirm ⟨⟨1, [1]⟩, 1, 1, 1, 1⟩)]
        ).slot.emittedEnvelopes, ∀ con,
      envelope.statement.pledges = .confirm con →
        ⟨con.nPrepared, con.ballot.value⟩ ∈
          (runInputs (smallSlot ⟨1, [1], []⟩)
            [receiveFrom 1 (.confirm ⟨⟨1, [1]⟩, 1, 1, 1, 1⟩)]
              ).slot.acceptedBallots :=
  runInputs_prepared_value (by decide +kernel)

/-- Node 1 has a ballot of one value prepared and then commits another. -/
def strayCommit : List Input :=
  [receivePrepare 1 ⟨3, [2]⟩ (some ⟨3, [2]⟩) none,
    receiveFrom 1 (.confirm ⟨⟨5, [1]⟩, 1, 1, 5, 1⟩)]

/-- The node follows the stray commit with the `p` it had, reports a ballot
that it did not accept, and aborts at the next ballot of the value of `p`. -/
theorem prepared_value_differs :
    (∃ bp ∈ (runInputs (smallSlot ⟨2, [1, 2], []⟩) strayCommit).states,
      bp.mPhase = .confirm ∧ bp.mPrepared = some ⟨3, [2]⟩ ∧
        bp.mCommit = some ⟨1, [1]⟩) ∧
    (∃ envelope ∈ (runInputs (smallSlot ⟨2, [1, 2], []⟩)
        strayCommit).slot.emittedEnvelopes,
      envelope.statement.pledges = .confirm ⟨⟨5, [1]⟩, 3, 1, 5, 0⟩) ∧
    ⟨3, [1]⟩ ∉ (runInputs (smallSlot ⟨2, [1, 2], []⟩)
      strayCommit).slot.acceptedBallots ∧
    (runInputs (smallSlot ⟨2, [1, 2], []⟩) (strayCommit ++
      [receivePrepare 2 ⟨4, [2]⟩ none none])).failure =
        some (.dbgAbort .attemptPreparedAccept) := by
  decide +kernel

end StellarCore.Scp
