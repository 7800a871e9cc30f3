import StellarCore.Scp.SlotRuns

/-!
# Votes to commit are not forgotten

A PREPARE statement with `nC ≠ 0` votes to commit the ballots from `nC` to
`nH` of its value.  A later PREPARE statement with another value votes to
abort them.  Between the two the node has published an accepted prepared
ballot above `nH` with another value: the vote is kept until such a ballot
clears it.
-/

namespace StellarCore.Scp

/-- The statement shows that the ballots the vote commits are aborted. -/
def Aborts (vote : Prepare) (st : SCPStatement) : Prop :=
  ∃ prep ballot, st.pledges = .prepare prep ∧
    (prep.prepared = some ballot ∨ prep.preparedPrime = some ballot) ∧
    compareBallots ⟨vote.nH, vote.ballot.value⟩ ballot < 0 ∧
    ballot.value ≠ vote.ballot.value

/-- Among the statements after a vote, one against it comes with or after
one that shows the abort. -/
def Honours (vote : Prepare) (statements : List SCPStatement) : Prop :=
  ∀ between second rest prep, statements = between ++ second :: rest →
    second.pledges = .prepare prep →
    prep.ballot.value ≠ vote.ballot.value →
    ∃ third ∈ between ++ [second], Aborts vote third

/-- The ballots still carry the vote. -/
def Ballots.Keeps (ballots : Ballots) (vote : Prepare) : Prop :=
  ∃ c h, ballots.commit = some c ∧ ballots.high = some h ∧
    h.value = vote.ballot.value ∧ vote.nH ≤ h.counter

/-- The statements the node has recorded for itself. -/
def SlotView.own (config : SlotConfig) (view : SlotView) :
    List SCPStatement :=
  view.history.filter (fun st => st.nodeID = config.getLocalNodeID)

theorem SlotView.own_publish (config : SlotConfig) (view : SlotView)
    (pledges : Pledges) :
    SlotView.own config (view.record (config.createEnvelope pledges)) =
      view.own config ++ [(config.createEnvelope pledges).statement] := by
  simp [SlotView.own, SlotView.record]

theorem SlotView.own_receive {config : SlotConfig} {view : SlotView}
    {envelope : SCPEnvelope}
    (foreign : envelope.statement.nodeID ≠ config.getLocalNodeID) :
    SlotView.own config (view.record envelope) = view.own config := by
  simp [SlotView.own, SlotView.record, foreign]

/-- Every vote of the past is honoured, and aborted or still kept as long as
the slot is in PREPARE. -/
def SlotView.Faithful (config : SlotConfig) (view : SlotView) : Prop :=
  ∀ before first rest vote,
    view.own config = before ++ first :: rest →
    first.pledges = .prepare vote → vote.nC ≠ 0 →
    Honours vote rest ∧
      ((∃ third ∈ rest, Aborts vote third) ∨
        view.ballots.phase ≠ .prepare ∨ view.ballots.Keeps vote)

section Votes

variable {config : SlotConfig} {environment : Environment}
  {view view' : SlotView} {next : Ballots} {accepted : List SCPBallot}
  {vote : Prepare}

/-- A kept vote shows in `b` as well. -/
theorem Ballots.Keeps.current {ballots : Ballots}
    (keeps : ballots.Keeps vote) (sound : ballots.Consistent) :
    ∃ b, ballots.current = some b ∧ b.value = vote.ballot.value := by
  obtain ⟨c, h, commit, high, value, _⟩ := keeps
  obtain ⟨h', b, high', current, _, _, top⟩ := sound.commit c commit
  rw [high] at high'
  cases high'
  exact ⟨b, current, top.symm.trans value⟩

/-- A transition keeps the vote, leaves PREPARE or shows the abort. -/
theorem Transition.keeps
    (transition : Transition config environment view next accepted)
    (keeps : view.ballots.Keeps vote) (sound : view.ballots.Sound)
    (consistent : next.Consistent) :
    next.Keeps vote ∨ next.phase ≠ .prepare ∨
      next.commit = none ∧ next.phase = view.ballots.phase ∧
        ∃ ballot, (next.prepared = some ballot ∨
            next.preparedPrime = some ballot) ∧
          (⟨vote.nH, vote.ballot.value⟩ : SCPBallot) < ballot ∧
          ballot.value ≠ vote.ballot.value := by
  obtain ⟨c, h, commit, high, value, counter⟩ := keeps
  have low : (⟨vote.nH, vote.ballot.value⟩ : SCPBallot) ≤ h :=
    SCPBallot.le_of_counter_le counter value.symm
  cases transition with
  | acceptPrepared hint bp ballot visited recorded running candidate raises
      compatible accepts highest =>
      by_cases aborts : (view.ballots.withPrepared ballot).aborts = true
      · right
        right
        refine ⟨?_, Ballots.acceptPrepared_phase, ?_⟩
        · rw [Ballots.acceptPrepared_commit, if_pos aborts]
        · have set : (view.ballots.withPrepared ballot).high = some h := by
            rw [(Ballots.withPrepared_frame view.ballots ballot).2.2.1,
              high]
          have above : ∃ ballot', ((view.ballots.acceptPrepared
                ballot).prepared = some ballot' ∨
              (view.ballots.acceptPrepared ballot).preparedPrime =
                some ballot') ∧ h ≤ ballot' ∧ h.value ≠ ballot'.value := by
            simp only [Ballots.aborts, set, Bool.or_eq_true,
              Option.any_eq_true, areBallotsLessAndIncompatible_iff]
              at aborts
            rw [Ballots.acceptPrepared_prepared,
              Ballots.acceptPrepared_preparedPrime]
            rcases aborts with ⟨p, prepared, order⟩ | ⟨p, prime, order⟩
            · exact ⟨p, .inl prepared, order⟩
            · exact ⟨p, .inr prime, order⟩
          obtain ⟨ballot', held, upper, differs⟩ := above
          refine ⟨ballot', held, lt_of_le_of_ne (low.trans upper) ?_, ?_⟩
          · intro equal
            rw [← equal] at differs
            exact differs value
          · intro same
            exact differs (value.trans same.symm)
      · left
        refine ⟨c, h, ?_, ?_, value, counter⟩
        · rw [Ballots.acceptPrepared_commit, if_neg aborts, commit]
        · rw [Ballots.acceptPrepared_high, high]
  | confirmPrepared hint bp newH candidates visited recorded prepare found
      bounded settled =>
      left
      have committed : bp.mCommit = some c :=
        (congrArg Ballots.commit visited.ballots).trans commit
      have zero : searchNewC config bp newH candidates = .zero := by
        simp [searchNewC, mayVoteCommit, committed]
      have kept : (view.ballots.confirmPrepared
          (searchNewC config bp newH candidates) newH).commit = some c := by
        simp [Ballots.confirmPrepared, zero, SCPBallot.zero, commit]
      have above : h < newH := by
        obtain ⟨_, _, _, _, _, _, higher⟩ := findNewH_some found
        exact higher h ((congrArg Ballots.high visited.ballots).trans high)
      obtain ⟨h', b, raised, _, ⟨_, agree⟩, _⟩ :=
        consistent.commit c kept
      have equal : newH = h' := Option.some.inj raised
      subst equal
      obtain ⟨h', _, high', _, ⟨_, before⟩, _⟩ :=
        sound.consistent.commit c commit
      rw [high] at high'
      cases high'
      refine ⟨c, newH, kept, rfl, ?_,
        counter.trans (SCPBallot.counter_le_of_le above.le)⟩
      exact (agree.symm.trans before).trans value
  | acceptCommit hint bp ballot visited recorded running prepared hinted
      found compatible =>
      right
      left
      cases phase : view.ballots.phase with
      | prepare => simp [Ballots.acceptCommit, phase]
      | confirm => simp [Ballots.acceptCommit, phase]
      | externalize => exact absurd phase running
  | confirmCommit hint bp ballot commit visited recorded confirm committed
      hinted compatible found =>
      right
      left
      simp [Ballots.confirmCommit]
  | bump value' newb running available override counter' above compatible =>
      exact .inl ⟨c, h, commit, high, value, counter⟩

/-- A vote that is recorded now is kept now. -/
theorem keeps_of_pledges
    (built : next.pledges config = some (.prepare vote))
    (consistent : next.Consistent) (commits : vote.nC ≠ 0) :
    next.Keeps vote := by
  obtain ⟨_, fields⟩ := Ballots.pledges_prepare built
  subst fields
  cases commit : next.commit with
  | none => simp [commit] at commits
  | some c =>
      obtain ⟨h, b, high, current, _, _, top⟩ := consistent.commit c commit
      exact ⟨c, h, commit, high, by simp [current, top], by simp [high]⟩

/-- Another statement after the vote. -/
private theorem Honours.append {statements : List SCPStatement}
    {latest : SCPStatement} (honours : Honours vote statements)
    (here : ∀ prep, latest.pledges = .prepare prep →
      prep.ballot.value ≠ vote.ballot.value →
      (∃ third ∈ statements, Aborts vote third) ∨ Aborts vote latest) :
    Honours vote (statements ++ [latest]) := by
  intro between second rest prep split votes differs
  rcases List.eq_nil_or_concat rest with empty | ⟨front, last, ending⟩
  · subst empty
    obtain ⟨same, isLatest⟩ := List.append_inj' split rfl
    subst same
    cases isLatest
    rcases here prep votes differs with ⟨third, member, aborts⟩ | aborts
    · exact ⟨third, by simp [member], aborts⟩
    · exact ⟨latest, by simp, aborts⟩
  · subst ending
    rw [List.concat_eq_append, ← List.cons_append, ← List.append_assoc]
      at split
    obtain ⟨same, _⟩ := List.append_inj' split rfl
    exact honours between second front prep same votes differs

/-- What a published transition means for a vote of the past. -/
private theorem Transition.faithful {pledges : Pledges}
    {statements : List SCPStatement}
    (transition : Transition config environment view next accepted)
    (stable : view.Stable config) (consistent : next.Consistent)
    (built : next.pledges config = some pledges)
    (status : (∃ third ∈ statements, Aborts vote third) ∨
      view.ballots.phase ≠ .prepare ∨ view.ballots.Keeps vote) :
    (∀ prep, (config.createEnvelope pledges).statement.pledges =
        .prepare prep → prep.ballot.value ≠ vote.ballot.value →
      (∃ third ∈ statements, Aborts vote third) ∨
        Aborts vote (config.createEnvelope pledges).statement) ∧
    ((∃ third ∈ statements ++ [(config.createEnvelope pledges).statement],
        Aborts vote third) ∨
      next.phase ≠ .prepare ∨ next.Keeps vote) := by
  have started : next.phase ≠ .prepare →
      ∀ prep, pledges ≠ .prepare prep := by
    intro notPrepare prep equal
    exact notPrepare (Ballots.pledges_prepare (equal ▸ built)).1
  rcases status with ⟨third, member, aborts⟩ | before | keeps
  · exact ⟨fun _ _ _ => .inl ⟨third, member, aborts⟩,
      .inl ⟨third, by simp [member], aborts⟩⟩
  · have after := (transition.later stable.sound).not_prepare before
    exact ⟨fun prep equal => absurd equal (started after prep),
      .inr (.inl after)⟩
  · rcases transition.keeps keeps stable.sound consistent with
      kept | after | ⟨_, phase, ballot, held, above, differs⟩
    · refine ⟨?_, .inr (.inr kept)⟩
      intro prep equal differs
      have pledged : pledges = .prepare prep := equal
      obtain ⟨_, fields⟩ := Ballots.pledges_prepare (pledged ▸ built)
      obtain ⟨b, current, value⟩ := kept.current consistent
      rw [fields] at differs
      exact absurd (by simp [current, value]) differs
    · exact ⟨fun prep equal => absurd equal (started after prep),
        .inr (.inl after)⟩
    · by_cases prepare : next.phase = .prepare
      · have aborts : Aborts vote
            (config.createEnvelope pledges).statement := by
          simp only [Ballots.pledges, prepare, Option.some.injEq] at built
          exact ⟨_, ballot, built.symm, held,
            compareBallots_neg_iff.mpr above, differs⟩
        exact ⟨fun _ _ _ => .inr aborts, .inl ⟨_, by simp, aborts⟩⟩
      · exact ⟨fun prep equal => absurd equal (started prepare prep),
          .inr (.inl prepare)⟩

theorem Step.faithful (step : Step config environment view view')
    (stable : view.Stable config) (faithful : view.Faithful config) :
    view'.Faithful config := by
  cases step with
  | keep transition consistent built same =>
      rename_i next accepted pledges
      intro before first rest vote split votes commits
      obtain ⟨honours, status⟩ :=
        faithful before first rest vote split votes commits
      refine ⟨honours, ?_⟩
      rcases status with aborted | started | keeps
      · exact .inl aborted
      · exact .inr (.inl
          ((transition.later stable.sound).not_prepare started))
      · rcases transition.keeps keeps stable.sound consistent with
          kept | started | ⟨cleared, phase, _⟩
        · exact .inr (.inr kept)
        · exact .inr (.inl started)
        · obtain ⟨old, oldBuilt, equal⟩ := stable.own _ same
          have unchanged : next.pledges config =
              view.ballots.pledges config := by
            rw [built, oldBuilt, createEnvelope_injective equal]
          obtain ⟨c, _, commit, _⟩ := keeps
          refine .inr (.inl ?_)
          intro prepare
          rw [phase] at prepare
          simp [Ballots.pledges, phase, prepare, cleared, commit]
            at unchanged
          obtain ⟨_, _, _, zero, _⟩ := unchanged
          exact stable.sound.committed c commit zero.symm
  | publish flag transition consistent built admitted =>
      rename_i next accepted pledges
      intro before first rest vote split votes commits
      rw [SlotView.own_publish] at split
      rcases List.eq_nil_or_concat rest with empty | ⟨front, last, ending⟩
      · subst empty
        obtain ⟨_, isLatest⟩ := List.append_inj' split rfl
        have pledged : pledges = .prepare vote := by
          cases isLatest
          exact votes
        refine ⟨?_, .inr (.inr
          (keeps_of_pledges (pledged ▸ built) consistent commits))⟩
        intro between second after prep impossible
        cases between with
        | nil => cases impossible
        | cons head tail => cases impossible
      · subst ending
        rw [List.concat_eq_append, ← List.cons_append,
          ← List.append_assoc] at split
        obtain ⟨same, isLatest⟩ := List.append_inj' split rfl
        have latest : last = (config.createEnvelope pledges).statement := by
          cases isLatest
          rfl
        obtain ⟨honours, status⟩ :=
          faithful before first front vote same votes commits
        have result := transition.faithful stable consistent built status
        rw [List.concat_eq_append, latest]
        exact ⟨honours.append result.1, result.2⟩
  | receive flag sent foreign verified indexed admitted final =>
      intro before first rest vote split
      rw [SlotView.own_receive foreign] at split
      exact faithful before first rest vote split
  | visit attempt bp ballots envelopes => exact faithful
  | makeLast envelope vouched newer => exact faithful
  | send last set fresh validated => exact faithful
  | externalize commit ended committed first => exact faithful
  | offer value offered => exact faithful

theorem Slot.fresh_faithful (config : SlotConfig) :
    (Slot.fresh config).view.Faithful config := by
  intro before first rest vote impossible
  cases before with
  | nil => cases impossible
  | cons head tail => cases impossible

end Votes

/-- A vote against an earlier vote to commit comes after an accepted ballot
that aborts what was voted for. -/
theorem runInputs_commit_votes {config : SlotConfig} {inputs : List Input}
    {before between after : List SCPStatement} {first second : SCPStatement}
    {vote abort : Prepare}
    (recorded : (runInputs config inputs).slot.ownStatements config =
      before ++ first :: (between ++ second :: after))
    (votes : first.pledges = .prepare vote) (commits : vote.nC ≠ 0)
    (aborts : second.pledges = .prepare abort)
    (differs : abort.ballot.value ≠ vote.ballot.value) :
    ∃ third ∈ between ++ [second], ∃ prep ballot,
      third.pledges = .prepare prep ∧
      (prep.prepared = some ballot ∨ prep.preparedPrime = some ballot) ∧
      compareBallots ⟨vote.nH, vote.ballot.value⟩ ballot < 0 ∧
      ballot.value ≠ vote.ballot.value := by
  obtain ⟨view, reaches⟩ := runInputs_reaches config inputs
  have own : view.own config =
      before ++ first :: (between ++ second :: after) := by
    rw [← recorded, SlotView.own, ← reaches.records.history]
    rfl
  have faithful := (reaches.path.invariant (SlotView.Faithful config)
    (fun _ _ stable faithful step => step.faithful stable faithful)
    (Slot.fresh_stable config) (Slot.fresh_faithful config)).2
  obtain ⟨honours, _⟩ := faithful before first _ vote own votes commits
  exact honours between second after abort rfl aborts differs

/-- A node that depends on node 1 alone follows it from one value to
another. -/
theorem commit_votes_small :
    ∃ third ∈ [statementOf 0 (.prepare (prepareOf 0 ⟨1, [1]⟩
        (some ⟨2, [2]⟩) (some ⟨1, [1]⟩) 0 1))] ++
        [statementOf 0 (.prepare (prepareOf 0 ⟨2, [2]⟩
          (some ⟨2, [2]⟩) (some ⟨1, [1]⟩) 2 2))],
      ∃ prep ballot, third.pledges = .prepare prep ∧
        (prep.prepared = some ballot ∨ prep.preparedPrime = some ballot) ∧
        compareBallots ⟨1, [1]⟩ ballot < 0 ∧ ballot.value ≠ [1] :=
  @runInputs_commit_votes (smallSlot ⟨1, [1], []⟩)
    [receivePrepare 1 ⟨1, [1]⟩ (some ⟨1, [1]⟩) none,
      receivePrepare 1 ⟨2, [2]⟩ (some ⟨2, [2]⟩) none]
    [statementOf 0 (.prepare (prepareOf 0 .zero (some ⟨1, [1]⟩) none 0 0))]
    _ []
    (statementOf 0
      (.prepare (prepareOf 0 ⟨1, [1]⟩ (some ⟨1, [1]⟩) none 1 1)))
    _ (prepareOf 0 ⟨1, [1]⟩ (some ⟨1, [1]⟩) none 1 1)
    (prepareOf 0 ⟨2, [2]⟩ (some ⟨2, [2]⟩) (some ⟨1, [1]⟩) 2 2)
    (by decide +kernel) rfl (by decide) rfl (by decide)

end StellarCore.Scp
