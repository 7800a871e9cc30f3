import StellarCore.Scp.Assertions

/-!
# Where the values of ballots come from

Let some values be called good.  If the values offered to a slot and the
values of the statements it receives are good, then so are the values of its
own ballots, with one exception: a node without a current ballot states the
placeholder `(0, "")`, and a node that is a slice by itself may accept its
placeholder as prepared, which makes it `p'`.  It never becomes `h`.
-/

namespace StellarCore.Scp

/-- The values of the ballots in a statement. -/
def SCPStatement.values (st : SCPStatement) : List Value :=
  match st.pledges with
  | .prepare prep =>
      (prep.ballot ::
        (prep.prepared.toList ++ prep.preparedPrime.toList)).map
        SCPBallot.value
  | .confirm con => [con.ballot.value]
  | .externalize ext => [ext.commit.value]

/-- The pledges of a node whose ballots have good values; the placeholder
comes without a vote to commit. -/
def Pledges.Valued (good : Value → Prop) : Pledges → Prop
  | .prepare prep =>
      (good prep.ballot.value ∨ prep.ballot = .zero ∧ prep.nC = 0) ∧
      (∀ p ∈ prep.prepared, good p.value) ∧
      (∀ p' ∈ prep.preparedPrime, good p'.value ∨ p' = .zero)
  | .confirm con => good con.ballot.value
  | .externalize ext => good ext.commit.value

structure Ballots.Valued (good : Value → Prop) (ballots : Ballots) :
    Prop where
  current : ∀ b, ballots.current = some b → good b.value
  prepared : ∀ p, ballots.prepared = some p → good p.value
  preparedPrime : ∀ p', ballots.preparedPrime = some p' →
    good p'.value ∨ p' = .zero
  high : ∀ h, ballots.high = some h → good h.value

/-- The ballots and the records of a slot that has met good values only. -/
structure SlotView.Valued (good : Value → Prop) (config : SlotConfig)
    (view : SlotView) : Prop where
  ballots : view.ballots.Valued good
  candidate : view.candidate = [] ∨ good view.candidate
  foreign : ∀ st ∈ view.history, st.nodeID ≠ config.getLocalNodeID →
    ∀ value ∈ st.values, good value
  own : ∀ st ∈ view.history, st.nodeID = config.getLocalNodeID →
    st.pledges.Valued good
  unprepared : view.ballots.prepared = none →
    ∀ st ∈ view.history, ∀ value ∈ st.values, good value

section Candidates

variable {good : Value → Prop} {bp : BallotProtocol} {hint : SCPStatement}
  {ballot : SCPBallot}

/-- A hint with good values has good candidates only. -/
theorem candidate_good (values : ∀ value ∈ hint.values, good value)
    (candidate : ballot ∈ getPrepareCandidates bp hint) :
    good ballot.value := by
  obtain ⟨topVote, top, _, _, _, inside⟩ :=
    mem_getPrepareCandidates.mp candidate
  rw [(le_of_mem_candidatesFrom inside).2]
  refine values _ ?_
  unfold hintBallots at top
  unfold SCPStatement.values
  cases pledges : hint.pledges with
  | prepare prep =>
      simp only [pledges, mem_toSet] at top
      exact List.mem_map_of_mem top
  | confirm con =>
      simp only [pledges, mem_toSet, List.mem_cons, List.not_mem_nil,
        or_false] at top
      rcases top with low | high
      · simp [low]
      · simp [high]
  | externalize ext =>
      simp only [pledges, mem_toSet, List.mem_singleton] at top
      simp [top]

/-- The candidates of the node's own hint are good, but for its
placeholder. -/
theorem candidate_valued (valued : hint.pledges.Valued good)
    (candidate : ballot ∈ getPrepareCandidates bp hint) :
    good ballot.value ∨ ballot = .zero := by
  obtain ⟨topVote, top, _, _, _, inside⟩ :=
    mem_getPrepareCandidates.mp candidate
  obtain ⟨below, same⟩ := le_of_mem_candidatesFrom inside
  have known : good topVote.value ∨ topVote = .zero := by
    unfold hintBallots at top
    cases pledges : hint.pledges with
    | prepare prep =>
        rw [pledges] at valued
        obtain ⟨current, prepared, prime⟩ := valued
        simp only [pledges, mem_toSet, List.mem_cons, List.mem_append,
          Option.mem_toList] at top
        rcases top with isCurrent | isPrepared | isPrime
        · rw [isCurrent]
          exact current.imp_right And.left
        · exact .inl (prepared topVote isPrepared)
        · exact prime topVote isPrime
    | confirm con =>
        rw [pledges] at valued
        simp only [pledges, mem_toSet, List.mem_cons, List.not_mem_nil,
          or_false] at top
        rcases top with low | high
        · rw [low]
          exact .inl valued
        · rw [high]
          exact .inl valued
    | externalize ext =>
        rw [pledges] at valued
        simp only [pledges, mem_toSet, List.mem_singleton] at top
        rw [top]
        exact .inl valued
  rcases known with isGood | isZero
  · rw [same]
    exact .inl isGood
  · rw [isZero] at below
    exact .inr (le_antisymm below (SCPBallot.zero_le ballot))

theorem commitHint_good (valued : hint.pledges.Valued good)
    (hinted : commitHint hint = some ballot) : good ballot.value := by
  unfold commitHint at hinted
  cases pledges : hint.pledges with
  | prepare prep =>
      rw [pledges] at valued
      simp only [pledges] at hinted
      split at hinted
      · rename_i votes
        cases hinted
        rcases valued.1 with isGood | ⟨_, silent⟩
        · exact isGood
        · exact absurd silent votes
      · cases hinted
  | confirm con =>
      rw [pledges] at valued
      simp only [pledges] at hinted
      cases hinted
      exact valued
  | externalize ext =>
      rw [pledges] at valued
      simp only [pledges] at hinted
      cases hinted
      exact valued

/-- A statement with good values is one of a node with good ballots. -/
theorem valued_of_values (values : ∀ value ∈ hint.values, good value) :
    hint.pledges.Valued good := by
  unfold SCPStatement.values at values
  cases pledges : hint.pledges with
  | prepare prep =>
      simp only [pledges] at values
      refine ⟨.inl (values _ (by simp)), ?_, ?_⟩
      · intro p set
        exact values _ (List.mem_map_of_mem (by simp [Option.mem_def.mp set]))
      · intro p' set
        exact .inl (values _
          (List.mem_map_of_mem (by simp [Option.mem_def.mp set])))
  | confirm con =>
      simp only [pledges] at values
      exact values _ (by simp)
  | externalize ext =>
      simp only [pledges] at values
      exact values _ (by simp)

/-- A ballot that a statement claims to be prepared has one of its values. -/
theorem good_of_hasPreparedBallot {st : SCPStatement}
    (values : ∀ value ∈ st.values, good value)
    (claims : hasPreparedBallot ballot st = true) : good ballot.value := by
  unfold hasPreparedBallot at claims
  unfold SCPStatement.values at values
  cases pledges : st.pledges with
  | prepare prep =>
      simp only [pledges] at values
      simp only [pledges, Bool.or_eq_true, Option.any_eq_true,
        areBallotsLessAndCompatible_iff] at claims
      rcases claims with ⟨p, set, _, same⟩ | ⟨p, set, _, same⟩
      · rw [same]
        exact values _ (List.mem_map_of_mem (by simp [set]))
      · rw [same]
        exact values _ (List.mem_map_of_mem (by simp [set]))
  | confirm con =>
      simp only [pledges] at values
      simp only [pledges, areBallotsLessAndCompatible_iff] at claims
      rw [claims.2]
      exact values _ (by simp)
  | externalize ext =>
      simp only [pledges] at values
      simp only [pledges, areBallotsCompatible_iff] at claims
      rw [claims]
      exact values _ (by simp)

end Candidates

section Values

variable {good : Value → Prop} {config : SlotConfig}
  {environment : Environment} {view view' : SlotView} {next : Ballots}
  {accepted : List SCPBallot}

theorem SlotView.Valued.hint (valued : view.Valued good config)
    {hint : SCPStatement} (recorded : hint ∈ view.history) :
    hint.pledges.Valued good := by
  by_cases own : hint.nodeID = config.getLocalNodeID
  · exact valued.own hint recorded own
  · exact valued_of_values (valued.foreign hint recorded own)

/-- What only the node itself claims to be prepared, it can only ratify if
it is a slice by itself. -/
private theorem selfSlice_of_ratifies (stable : view.Stable config)
    (valued : view.Valued good config) {bp : BallotProtocol}
    {ballot : SCPBallot} (envelopes : bp.mLatestEnvelopes = view.envelopes)
    (prepare : view.ballots.phase = .prepare)
    (ratified : ratifiesPrepared config bp ballot = true)
    (bad : ¬ good ballot.value) : config.selfSlice = true := by
  obtain ⟨nodes, ⟨passes, slices⟩, slice⟩ := isQuorum_iff.mp ratified
  rw [envelopes] at passes slices
  have alone : ∀ node ∈ nodes, node = config.getLocalNodeID := by
    intro node inside
    obtain ⟨envelope, lookup, claims⟩ := passes node inside
    by_contra other
    have foreign : envelope.statement.nodeID ≠ config.getLocalNodeID := by
      rw [stable.keyed node envelope lookup]
      exact other
    exact bad (good_of_hasPreparedBallot (valued.foreign _
      (stable.recorded node envelope lookup) foreign) claims)
  have subset : nodes ⊆ [config.getLocalNodeID] := by
    intro node inside
    exact List.mem_singleton.mpr (alone node inside)
  obtain ⟨node, inside⟩ := List.exists_mem_of_ne_nil _
    (nodeSet_ne_nil_of_isQuorumSlice slice)
  obtain ⟨envelope, qSet, lookup, known, ownSlice⟩ := slices node inside
  rw [alone node inside] at lookup
  obtain ⟨pledges, built, created⟩ := stable.own envelope lookup
  simp only [Ballots.pledges, prepare, Option.some.injEq] at built
  have hashed : config.driver.getQSet config.localNode.mQSetHash =
      some qSet := by
    rw [← known, created, SlotConfig.getQuorumSetFromStatement,
      SlotConfig.createEnvelope_pledges, ← built]
  unfold SlotConfig.selfSlice
  rw [Bool.and_eq_true, hashed, Option.any_some]
  exact ⟨isQuorumSlice_mono subset slice,
    isQuorumSlice_mono subset ownSlice⟩

/-- The placeholder is never confirmed as prepared. -/
theorem newH_good (stable : view.Stable config)
    (valued : view.Valued good config) {hint : SCPStatement}
    {bp : BallotProtocol} {newH : SCPBallot} {candidates : List SCPBallot}
    (visited : view.Visited (.preparedConfirmed hint) bp)
    (recorded : hint ∈ view.history)
    (prepare : view.ballots.phase = .prepare)
    (found : findNewH config bp (getPrepareCandidates bp hint).reverse =
      some (newH, candidates))
    (bounded : ∃ p, view.ballots.prepared = some p ∧ newH ≤ p)
    (settled : config.selfSlice = true →
      hint.nodeID = config.getLocalNodeID → view.ballots.high = none →
      view.OwnLatest config hint) : good newH.value := by
  obtain ⟨candidate, highest⟩ := findNewH_highest found
  rcases candidate_valued (valued.hint recorded) candidate with
    isGood | isZero
  · exact isGood
  · by_contra bad
    have own : hint.nodeID = config.getLocalNodeID := by
      by_contra foreign
      exact bad (candidate_good (valued.foreign hint recorded foreign)
        candidate)
    have unset : view.ballots.high = none := by
      cases high : view.ballots.high with
      | none => rfl
      | some h =>
          have above := highest.above h
            ((congrArg Ballots.high visited.ballots).trans high)
          rw [isZero] at above
          exact absurd (SCPBallot.zero_le h) (not_le.mpr above)
    have selfSlice := selfSlice_of_ratifies stable valued visited.envelopes
      prepare highest.ratified bad
    obtain ⟨p, prepared, _⟩ := bounded
    obtain ⟨inside, ratified⟩ := ratifies_of_selfSlice stable
      visited.envelopes selfSlice (settled selfSlice own unset) prepare
      prepared
    have below := highest.highest p inside ratified
    rw [isZero] at below
    have equal : p = newH := by
      rw [isZero]
      exact le_antisymm below (SCPBallot.zero_le p)
    rw [← equal] at bad
    exact bad (valued.ballots.prepared p prepared)

theorem Ballots.Valued.acceptPrepared {ballots : Ballots}
    {ballot : SCPBallot} (valued : ballots.Valued good)
    (raises : ballots.Raises ballot) (ordered : ballots.PairOrdered)
    (known : good ballot.value ∨ ballot = .zero)
    (first : ballots.prepared = none → good ballot.value) :
    (ballots.acceptPrepared ballot).Valued good := by
  refine ⟨?_, ?_, ?_, ?_⟩
  · rw [acceptPrepared_current]
    exact valued.current
  · rw [acceptPrepared_prepared]
    rcases raises.cases ordered with
      ⟨none, _, result⟩ | ⟨p, set, less, result⟩ | ⟨p, set, _, _, result⟩
    · rw [result]
      intro p set
      cases set
      exact first none
    · rw [result]
      intro p' set'
      cases set'
      rcases known with isGood | isZero
      · exact isGood
      · rw [isZero] at less
        exact absurd (SCPBallot.zero_le p) (not_le.mpr less)
    · rw [result]
      exact valued.prepared
  · rw [acceptPrepared_preparedPrime]
    rcases raises.cases ordered with
      ⟨_, _, result⟩ | ⟨p, set, less, result⟩ | ⟨p, set, _, _, result⟩
    · rw [result]
      exact valued.preparedPrime
    · rw [result]
      intro p' prime
      by_cases same : p.value = ballot.value
      · exact valued.preparedPrime p' (by simpa [same] using prime)
      · have equal : p = p' := by simpa [same] using prime
        rw [← equal]
        exact .inl (valued.prepared p set)
    · rw [result]
      intro p' prime
      cases prime
      exact known
  · rw [acceptPrepared_high]
    exact valued.high

/-- `b` after it has been raised to `h`. -/
theorem raiseTo_good {current : Option SCPBallot} {h : SCPBallot}
    (high : good h.value) (old : ∀ b, current = some b → good b.value) :
    ∀ b, raiseTo current h = some b → good b.value := by
  intro b set
  rcases Ballots.raiseTo_cases current h with raised | ⟨b', set', _, kept⟩
  · rw [raised] at set
    cases set
    exact high
  · rw [kept] at set
    cases set
    exact old _ set'

theorem Ballots.Valued.acceptCommit {ballots : Ballots} {c h : SCPBallot}
    (valued : ballots.Valued good) (high : good h.value) :
    (ballots.acceptCommit c h).Valued good := by
  unfold Ballots.acceptCommit
  split
  · refine ⟨?_, valued.prepared, ?_, ?_⟩
    · intro b set
      split at set
      · cases set
        exact high
      · rename_i current
        split at set
        · cases set
          exact valued.current _ current
        · cases set
          exact high
    · intro p' prime
      cases prime
    · intro h' set
      cases set
      exact high
  · refine ⟨raiseTo_good high valued.current, valued.prepared,
      valued.preparedPrime, ?_⟩
    intro h' set
    cases set
    exact high

theorem Transition.valued
    (transition : Transition config environment view next accepted)
    (stable : view.Stable config) (valued : view.Valued good config)
    (offered : ∀ value, environment.offers value → good value) :
    next.Valued good := by
  cases transition with
  | acceptPrepared hint bp ballot visited recorded running candidate raises
      compatible accepts highest =>
      refine valued.ballots.acceptPrepared raises stable.sound.pair
        (candidate_valued (valued.hint recorded) candidate) ?_
      intro none
      exact candidate_good (valued.unprepared none hint recorded) candidate
  | confirmPrepared hint bp newH candidates visited recorded prepare found
      bounded settled =>
      have isGood := newH_good stable valued visited recorded prepare found
        bounded settled
      refine ⟨raiseTo_good isGood valued.ballots.current,
        valued.ballots.prepared, valued.ballots.preparedPrime, ?_⟩
      intro h set
      cases set
      exact isGood
  | acceptCommit hint bp ballot visited recorded running prepared hinted
      found compatible =>
      have isGood := commitHint_good (valued.hint recorded) hinted
      exact valued.ballots.acceptCommit isGood
  | confirmCommit hint bp ballot commit visited recorded confirm committed
      hinted compatible found =>
      have isGood := commitHint_good (valued.hint recorded) hinted
      refine ⟨raiseTo_good isGood valued.ballots.current,
        valued.ballots.prepared, valued.ballots.preparedPrime, ?_⟩
      intro h set
      cases set
      exact isGood
  | bump value newb running available override counter above compatible =>
      refine ⟨?_, valued.ballots.prepared, valued.ballots.preparedPrime,
        valued.ballots.high⟩
      intro b set
      cases set
      rw [override]
      cases high : view.ballots.high with
      | some h => exact valued.ballots.high h high
      | none =>
          rcases available with offer | ⟨filled, composite⟩ |
            ⟨b, current, same⟩
          · exact offered value offer
          · rcases valued.candidate with empty | isGood
            · exact absurd (composite.trans empty) filled
            · rw [← composite] at isGood
              exact isGood
          · rw [same]
            exact valued.ballots.current b current

/-- After a transition the node has a current or a prepared ballot. -/
theorem Transition.begun
    (transition : Transition config environment view next accepted)
    (sound : view.ballots.Sound) (unprepared : next.prepared = none) :
    next.current ≠ none := by
  cases transition with
  | acceptPrepared hint bp ballot visited recorded running candidate raises
      compatible accepts highest =>
      obtain ⟨p, set, _⟩ := le_withPrepared raises sound.pair
      rw [unprepared] at set
      cases set
  | confirmPrepared hint bp newH candidates visited recorded prepare found
      bounded settled =>
      obtain ⟨p, set, _⟩ := bounded
      exact absurd (set.symm.trans unprepared) (by simp)
  | acceptCommit hint bp ballot visited recorded running prepared hinted
      found compatible =>
      refine absurd ?_ prepared
      rw [← unprepared, Ballots.acceptCommit]
      split
      · rfl
      · rfl
  | confirmCommit hint bp ballot commit visited recorded confirm committed
      hinted compatible found =>
      exact absurd unprepared (sound.confirmed (by simp [confirm])).1
  | bump value newb running available override counter above compatible =>
      simp [Ballots.bump]

/-- The pledges of good ballots. -/
theorem Ballots.Valued.pledges {pledges : Pledges}
    (valued : next.Valued good) (consistent : next.Consistent)
    (built : next.pledges config = some pledges) : pledges.Valued good := by
  cases pledges with
  | prepare prep =>
      obtain ⟨_, fields⟩ := Ballots.pledges_prepare built
      rw [fields]
      refine ⟨?_, valued.prepared, valued.preparedPrime⟩
      cases current : next.current with
      | some b => exact .inl (valued.current b current)
      | none =>
          refine .inr ⟨rfl, ?_⟩
          cases commit : next.commit with
          | none => rfl
          | some c =>
              obtain ⟨_, b, _, set, _⟩ := consistent.commit c commit
              rw [current] at set
              cases set
  | confirm con =>
      obtain ⟨_, _, _, b, _, _, _, current, _, fields⟩ :=
        Ballots.pledges_confirm built
      rw [fields]
      exact valued.current b current
  | externalize ext =>
      obtain ⟨_, c, h, commit, high, fields⟩ :=
        Ballots.pledges_externalize built
      rw [fields]
      obtain ⟨h', _, high', _, ⟨_, low⟩, _⟩ := consistent.commit c commit
      rw [high] at high'
      cases high'
      show good c.value
      rw [low]
      exact valued.high h high

/-- As long as nothing is prepared, every field of the statement is good. -/
theorem Ballots.Valued.statement {pledges : Pledges}
    (valued : next.Valued good) (sound : next.Sound)
    (built : next.pledges config = some pledges)
    (unprepared : next.prepared = none) (begun : next.current ≠ none) :
    ∀ value ∈ (config.createEnvelope pledges).statement.values,
      good value := by
  have prepare : next.phase = .prepare := by
    by_contra started
    exact (sound.confirmed started).1 unprepared
  have unset : next.preparedPrime = none := by
    cases prime : next.preparedPrime with
    | none => rfl
    | some p' =>
        obtain ⟨p, set, _⟩ := sound.pair p' prime
        rw [unprepared] at set
        cases set
  obtain ⟨b, current⟩ := Option.ne_none_iff_exists'.mp begun
  simp only [Ballots.pledges, prepare, Option.some.injEq] at built
  intro value member
  simp only [SCPStatement.values, SlotConfig.createEnvelope_pledges,
    ← built, current, unprepared, unset, Option.getD_some,
    Option.toList_none, List.append_nil, List.map_cons, List.map_nil,
    List.mem_singleton] at member
  rw [member]
  exact valued.current b current

/-- A slot that meets good values only stays valued. -/
theorem Step.valued (step : Step config environment view view')
    (stable : view.Stable config) (valued : view.Valued good config)
    (offered : ∀ value, environment.offers value → good value)
    (received : ∀ envelope, environment.sends envelope →
      validateValues config envelope.statement ≠ .kInvalidValue →
        ∀ value ∈ envelope.statement.values, good value) :
    view'.Valued good config := by
  have before : ∀ next accepted,
      Transition config environment view next accepted →
        next.prepared = none → view.ballots.prepared = none := by
    intro next accepted transition unprepared
    have grows := (transition.later stable.sound).prepared
    rw [unprepared] at grows
    cases prepared : view.ballots.prepared with
    | none => rfl
    | some p => simp [prepared, pointerRank] at grows
  cases step with
  | keep transition consistent built same =>
      refine ⟨transition.valued stable valued offered, valued.candidate,
        valued.foreign, valued.own, ?_⟩
      intro unprepared
      exact valued.unprepared (before _ _ transition unprepared)
  | publish flag transition consistent built admitted =>
      have valuedNext := transition.valued stable valued offered
      have sound := transition.sound stable.sound consistent
      refine ⟨valuedNext, valued.candidate, ?_, ?_, ?_⟩
      · intro st member foreign
        rcases List.mem_append.mp member with earlier | here
        · exact valued.foreign st earlier foreign
        · rw [List.mem_singleton.mp here] at foreign
          exact absurd rfl foreign
      · intro st member own
        rcases List.mem_append.mp member with earlier | here
        · exact valued.own st earlier own
        · rw [List.mem_singleton.mp here]
          exact valuedNext.pledges consistent built
      · intro unprepared st member
        rcases List.mem_append.mp member with earlier | here
        · exact valued.unprepared (before _ _ transition unprepared) st
            earlier
        · rw [List.mem_singleton.mp here]
          exact valuedNext.statement sound built unprepared
            (transition.begun stable.sound unprepared)
  | receive flag sent foreign verified indexed admitted final =>
      obtain ⟨_, _, _, valid⟩ := admitted
      have values := received _ sent valid
      refine ⟨valued.ballots, valued.candidate, ?_, ?_, ?_⟩
      · intro st member other
        rcases List.mem_append.mp member with earlier | here
        · exact valued.foreign st earlier other
        · rw [List.mem_singleton.mp here]
          exact values
      · intro st member own
        rcases List.mem_append.mp member with earlier | here
        · exact valued.own st earlier own
        · rw [List.mem_singleton.mp here] at own
          exact absurd own foreign
      · intro unprepared st member
        rcases List.mem_append.mp member with earlier | here
        · exact valued.unprepared unprepared st earlier
        · rw [List.mem_singleton.mp here]
          exact values
  | offer value isOffered =>
      exact ⟨valued.ballots, .inr (offered value isOffered),
        valued.foreign, valued.own, valued.unprepared⟩
  | visit attempt bp ballots envelopes =>
      exact ⟨valued.ballots, valued.candidate, valued.foreign, valued.own,
        valued.unprepared⟩
  | makeLast envelope vouched newer =>
      exact ⟨valued.ballots, valued.candidate, valued.foreign, valued.own,
        valued.unprepared⟩
  | send last set fresh validated =>
      exact ⟨valued.ballots, valued.candidate, valued.foreign, valued.own,
        valued.unprepared⟩
  | externalize commit ended committed first =>
      exact ⟨valued.ballots, valued.candidate, valued.foreign, valued.own,
        valued.unprepared⟩

theorem Slot.fresh_valued (good : Value → Prop) (config : SlotConfig) :
    (Slot.fresh config).view.Valued good config where
  ballots :=
    { current := fun b set => by cases set
      prepared := fun p set => by cases set
      preparedPrime := fun p' set => by cases set
      high := fun h set => by cases set }
  candidate := .inl rfl
  foreign := fun st member => absurd member List.not_mem_nil
  own := fun st member => absurd member List.not_mem_nil
  unprepared := fun _ st member => absurd member List.not_mem_nil

end Values

end StellarCore.Scp
