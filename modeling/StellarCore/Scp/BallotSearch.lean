import StellarCore.Scp.SlotInvariants

/-!
# What the searches find

`attemptPreparedAccept` looks at finitely many candidates only.  They are
enough: whenever the nodes of a set all claim a ballot below one of the
hint's ballots, some candidate above it is claimed by all of them as well.
Two consequences make the later attempts of `advanceSlot` safe: a ballot that
is ratified after `attemptPreparedAccept` lies below `p`, and a commit can
only be accepted when `p` is set.
-/

namespace StellarCore.Scp

theorem mem_getPrepareCandidates {bp : BallotProtocol} {hint : SCPStatement}
    {ballot : SCPBallot} :
    ballot ∈ getPrepareCandidates bp hint ↔
      ∃ topVote ∈ hintBallots hint, ∃ node envelope,
        bp.mLatestEnvelopes.lookup node = some envelope ∧
          ballot ∈ candidatesFrom topVote envelope.statement := by
  unfold getPrepareCandidates
  simp only [mem_toSet, List.mem_flatMap, List.mem_reverse]
  constructor
  · rintro ⟨topVote, top, ⟨node, envelope⟩, entry, inside⟩
    exact ⟨topVote, top, node, envelope, AList.mem_lookup_iff.mpr entry,
      inside⟩
  · rintro ⟨topVote, top, node, envelope, found, inside⟩
    exact ⟨topVote, top, ⟨node, envelope⟩, AList.mem_lookup_iff.mp found,
      inside⟩

/-- The candidates are tried from the highest to the lowest. -/
theorem getPrepareCandidates_descending (bp : BallotProtocol)
    (hint : SCPStatement) :
    (getPrepareCandidates bp hint).reverse.Pairwise
      (fun earlier later => later < earlier) :=
  List.pairwise_reverse.mpr (toSet_sorted _)

/-- A candidate lies below the top vote it comes from. -/
theorem le_of_mem_candidatesFrom {topVote ballot : SCPBallot}
    {st : SCPStatement} (inside : ballot ∈ candidatesFrom topVote st) :
    ballot ≤ topVote ∧ ballot.value = topVote.value := by
  unfold candidatesFrom at inside
  split at inside
  · simpa using (List.mem_filter.mp inside).2
  · split at inside
    · rcases List.mem_cons.mp inside with top | lower
      · subst top
        exact ⟨le_refl _, rfl⟩
      · split at lower
        · rename_i below
          have equal := List.mem_singleton.mp lower
          subst equal
          exact ⟨SCPBallot.le_of_counter_le below.le rfl, rfl⟩
        · cases lower
    · cases inside
  · split at inside
    · have equal := List.mem_singleton.mp inside
      subst equal
      exact ⟨le_refl _, rfl⟩
    · cases inside

/-- The ballots of a recorded hint are candidates themselves. -/
theorem hintBallots_candidates {hint : SCPStatement} {topVote : SCPBallot}
    (top : topVote ∈ hintBallots hint) :
    topVote ∈ candidatesFrom topVote hint := by
  unfold hintBallots at top
  unfold candidatesFrom
  cases pledges : hint.pledges with
  | prepare prep =>
      simp only [pledges, mem_toSet] at top
      simp only [List.mem_filter, areBallotsLessAndCompatible_iff, le_refl,
        and_self, and_true]
      exact top
  | confirm con =>
      simp only [pledges, mem_toSet, List.mem_cons, List.not_mem_nil,
        or_false] at top
      have same : topVote.value = con.ballot.value := by
        rcases top with low | high
        · rw [low]
        · rw [high]
      simp [same]
  | externalize ext =>
      simp only [pledges, mem_toSet, List.mem_singleton] at top
      have same : topVote.value = ext.commit.value := by rw [top]
      simp [same]

/-! ## Claims about ballots that candidates cover -/

/-- A kind of claim about ballots: it passes to lower compatible ballots, and
below a top vote it is witnessed by a candidate. -/
structure Covered (claims : SCPBallot → SCPStatement → Bool) : Prop where
  down : ∀ {low high : SCPBallot} {st : SCPStatement}, low ≤ high →
    low.value = high.value → claims high st = true → claims low st = true
  witness : ∀ {ballot topVote : SCPBallot} {st : SCPStatement},
    ballot ≤ topVote → ballot.value = topVote.value →
      claims ballot st = true →
      ∃ found, ballot ≤ found ∧ found.value = ballot.value ∧
        (found = topVote ∨ found ∈ candidatesFrom topVote st) ∧
        claims found st = true

private theorem prepared_witness {ballot topVote : SCPBallot}
    {prep : Prepare} {st : SCPStatement} (upper : SCPBallot)
    (pledged : st.pledges = .prepare prep)
    (member : upper ∈ prep.ballot ::
      (prep.prepared.toList ++ prep.preparedPrime.toList))
    (below : ballot ≤ topVote) (same : ballot.value = topVote.value)
    (under : ballot ≤ upper) (compatible : ballot.value = upper.value) :
    ∃ found, ballot ≤ found ∧ found.value = ballot.value ∧
      (found = topVote ∨ found ∈ candidatesFrom topVote st) ∧
      found ≤ upper := by
  rcases le_total upper topVote with low | high
  · refine ⟨upper, under, compatible.symm, .inr ?_, le_refl _⟩
    simp only [candidatesFrom, pledged, List.mem_filter,
      areBallotsLessAndCompatible_iff]
    exact ⟨member, low, compatible.symm.trans same⟩
  · exact ⟨topVote, below, same.symm, .inl rfl, high⟩

theorem hasPreparedBallot_covered : Covered hasPreparedBallot where
  down := by
    intro low high st below same holds
    unfold hasPreparedBallot at holds ⊢
    cases pledges : st.pledges with
    | prepare prep =>
        simp only [pledges, Bool.or_eq_true, Option.any_eq_true,
          areBallotsLessAndCompatible_iff] at holds ⊢
        rcases holds with ⟨p, set, under, compatible⟩ |
          ⟨p, set, under, compatible⟩
        · exact .inl ⟨p, set, below.trans under, same.trans compatible⟩
        · exact .inr ⟨p, set, below.trans under, same.trans compatible⟩
    | confirm con =>
        simp only [pledges, areBallotsLessAndCompatible_iff] at holds ⊢
        exact ⟨below.trans holds.1, same.trans holds.2⟩
    | externalize ext =>
        simp only [pledges, areBallotsCompatible_iff] at holds ⊢
        exact same.trans holds
  witness := by
    intro ballot topVote st below same holds
    unfold hasPreparedBallot at holds ⊢
    cases pledges : st.pledges with
    | prepare prep =>
        simp only [pledges, Bool.or_eq_true, Option.any_eq_true,
          areBallotsLessAndCompatible_iff] at holds ⊢
        rcases holds with ⟨p, set, under, compatible⟩ |
          ⟨p, set, under, compatible⟩
        · obtain ⟨found, above, value, covered, foundBelow⟩ :=
            prepared_witness p pledges (by simp [set]) below same
              under compatible
          exact ⟨found, above, value, covered,
            .inl ⟨p, set, foundBelow, value.trans compatible⟩⟩
        · obtain ⟨found, above, value, covered, foundBelow⟩ :=
            prepared_witness p pledges (by simp [set]) below same
              under compatible
          exact ⟨found, above, value, covered,
            .inr ⟨p, set, foundBelow, value.trans compatible⟩⟩
    | confirm con =>
        simp only [pledges, areBallotsLessAndCompatible_iff] at holds ⊢
        have compatible : topVote.value = con.ballot.value :=
          same.symm.trans holds.2
        by_cases lower : con.nPrepared < topVote.counter
        · refine ⟨⟨con.nPrepared, topVote.value⟩, ?_, same.symm, .inr ?_,
            SCPBallot.le_of_counter_le (le_refl _) compatible, compatible⟩
          · have counters : ballot.counter ≤ con.nPrepared :=
              SCPBallot.counter_le_of_le holds.1
            exact SCPBallot.le_of_counter_le counters same
          · simp [candidatesFrom, pledges, compatible, lower]
        · exact ⟨topVote, below, same.symm, .inl rfl,
            SCPBallot.le_of_counter_le (not_lt.mp lower) compatible,
            compatible⟩
    | externalize ext =>
        simp only [pledges, areBallotsCompatible_iff] at holds ⊢
        exact ⟨topVote, below, same.symm, .inl rfl, same.symm.trans holds⟩

theorem votesPrepared_covered : Covered votesPrepared where
  down := by
    intro low high st below same holds
    unfold votesPrepared at holds ⊢
    cases pledges : st.pledges with
    | prepare prep =>
        simp only [pledges, areBallotsLessAndCompatible_iff] at holds ⊢
        exact ⟨below.trans holds.1, same.trans holds.2⟩
    | confirm con =>
        simp only [pledges, areBallotsCompatible_iff] at holds ⊢
        exact same.trans holds
    | externalize ext =>
        simp only [pledges, areBallotsCompatible_iff] at holds ⊢
        exact same.trans holds
  witness := by
    intro ballot topVote st below same holds
    unfold votesPrepared at holds ⊢
    cases pledges : st.pledges with
    | prepare prep =>
        simp only [pledges, areBallotsLessAndCompatible_iff] at holds ⊢
        obtain ⟨found, above, value, covered, foundBelow⟩ :=
          prepared_witness prep.ballot pledges (by simp) below
            same holds.1 holds.2
        exact ⟨found, above, value, covered, foundBelow,
          value.trans holds.2⟩
    | confirm con =>
        simp only [pledges, areBallotsCompatible_iff] at holds ⊢
        exact ⟨topVote, below, same.symm, .inl rfl, same.symm.trans holds⟩
    | externalize ext =>
        simp only [pledges, areBallotsCompatible_iff] at holds ⊢
        exact ⟨topVote, below, same.symm, .inl rfl, same.symm.trans holds⟩

theorem Covered.or {first second : SCPBallot → SCPStatement → Bool}
    (left : Covered first) (right : Covered second) :
    Covered (fun ballot st => first ballot st || second ballot st) where
  down := by
    intro low high st below same holds
    simp only [Bool.or_eq_true] at holds ⊢
    exact holds.imp (left.down below same) (right.down below same)
  witness := by
    intro ballot topVote st below same holds
    simp only [Bool.or_eq_true] at holds ⊢
    rcases holds with holds | holds
    · obtain ⟨found, above, value, covered, claimed⟩ :=
        left.witness below same holds
      exact ⟨found, above, value, covered, .inl claimed⟩
    · obtain ⟨found, above, value, covered, claimed⟩ :=
        right.witness below same holds
      exact ⟨found, above, value, covered, .inr claimed⟩

/-- The statement is the latest one of some node. -/
def Holds (envelopes : EnvelopeMap) (st : SCPStatement) : Prop :=
  ∃ node envelope, envelopes.lookup node = some envelope ∧
    envelope.statement = st

/-- A claim that several recorded statements share below a ballot of the
hint is shared for a candidate. -/
theorem Covered.candidate {claims : SCPBallot → SCPStatement → Bool}
    (covered : Covered claims) {bp : BallotProtocol} {hint : SCPStatement}
    {ballot topVote : SCPBallot}
    (held : Holds bp.mLatestEnvelopes hint)
    (top : topVote ∈ hintBallots hint) (below : ballot ≤ topVote)
    (same : ballot.value = topVote.value) (statements : List SCPStatement)
    (claimed : ∀ st ∈ statements,
      Holds bp.mLatestEnvelopes st ∧ claims ballot st = true) :
    ∃ found ∈ getPrepareCandidates bp hint, ballot ≤ found ∧
      found.value = ballot.value ∧
      ∀ st ∈ statements, claims found st = true := by
  induction statements with
  | nil =>
      obtain ⟨node, envelope, lookup, equal⟩ := held
      refine ⟨topVote, mem_getPrepareCandidates.mpr
        ⟨topVote, top, node, envelope, lookup, ?_⟩, below, same.symm, ?_⟩
      · rw [equal]
        exact hintBallots_candidates top
      · intro st member
        cases member
  | cons st statements ih =>
      obtain ⟨rest, restCandidate, restAbove, restValue, restClaims⟩ :=
        ih (fun other member => claimed other (by simp [member]))
      obtain ⟨⟨node, envelope, lookup, equal⟩, holds⟩ :=
        claimed st (by simp)
      obtain ⟨here, hereAbove, hereValue, source, hereClaims⟩ :=
        covered.witness below same holds
      have hereCandidate : here ∈ getPrepareCandidates bp hint := by
        rcases source with isTop | inside
        · obtain ⟨hintNode, hintEnvelope, hintLookup, hintEqual⟩ := held
          rw [isTop]
          exact mem_getPrepareCandidates.mpr ⟨topVote, top, hintNode,
            hintEnvelope, hintLookup, by
              rw [hintEqual]
              exact hintBallots_candidates top⟩
        · exact mem_getPrepareCandidates.mpr ⟨topVote, top, node, envelope,
            lookup, by rwa [equal]⟩
      rcases le_total here rest with lower | lower
      · refine ⟨here, hereCandidate, hereAbove, hereValue, ?_⟩
        intro other member
        rcases List.mem_cons.mp member with first | later
        · rw [first]
          exact hereClaims
        · exact covered.down lower (hereValue.trans restValue.symm)
            (restClaims other later)
      · refine ⟨rest, restCandidate, restAbove, restValue, ?_⟩
        intro other member
        rcases List.mem_cons.mp member with first | later
        · rw [first]
          exact covered.down lower (restValue.trans hereValue.symm)
            hereClaims
        · exact restClaims other later

/-! ## Accepted and ratified ballots -/

section Federated

variable {config : SlotConfig} {bp : BallotProtocol} {hint : SCPStatement}
  {ballot topVote : SCPBallot}

/-- The statements recorded for the nodes of a list. -/
private theorem held_statements (nodes : List NodeID)
    {filter : SCPStatement → Bool}
    (passes : ∀ node ∈ nodes, ∃ envelope,
      bp.mLatestEnvelopes.lookup node = some envelope ∧
        filter envelope.statement = true) :
    ∃ statements : List SCPStatement,
      (∀ st ∈ statements,
        Holds bp.mLatestEnvelopes st ∧ filter st = true) ∧
      ∀ node ∈ nodes, ∀ envelope,
        bp.mLatestEnvelopes.lookup node = some envelope →
          envelope.statement ∈ statements := by
  refine ⟨nodes.filterMap (fun node =>
    (bp.mLatestEnvelopes.lookup node).map SCPEnvelope.statement), ?_, ?_⟩
  · intro st member
    obtain ⟨node, inside, found⟩ := List.mem_filterMap.mp member
    obtain ⟨envelope, lookup, passed⟩ := passes node inside
    rw [lookup] at found
    cases found
    exact ⟨⟨node, envelope, lookup, rfl⟩, passed⟩
  · intro node inside envelope lookup
    exact List.mem_filterMap.mpr ⟨node, inside, by simp [lookup]⟩

/-- What a quorum claims below a ballot of the hint, it claims for a
candidate. -/
theorem Covered.isQuorum {claims : SCPBallot → SCPStatement → Bool}
    (covered : Covered claims) (held : Holds bp.mLatestEnvelopes hint)
    (top : topVote ∈ hintBallots hint) (below : ballot ≤ topVote)
    (same : ballot.value = topVote.value) {qSet : SCPQuorumSet}
    (quorum : isQuorum qSet bp.mLatestEnvelopes
      config.getQuorumSetFromStatement (claims ballot) = true) :
    ∃ found ∈ getPrepareCandidates bp hint, ballot ≤ found ∧
      isQuorum qSet bp.mLatestEnvelopes config.getQuorumSetFromStatement
        (claims found) = true := by
  obtain ⟨nodes, ⟨passes, slices⟩, slice⟩ := isQuorum_iff.mp quorum
  obtain ⟨statements, claimed, all⟩ := held_statements nodes passes
  obtain ⟨found, candidate, above, _, shared⟩ :=
    covered.candidate held top below same statements claimed
  refine ⟨found, candidate, above,
    isQuorum_iff.mpr ⟨nodes, ⟨?_, slices⟩, slice⟩⟩
  intro node inside
  obtain ⟨envelope, lookup, _⟩ := passes node inside
  exact ⟨envelope, lookup, shared _ (all node inside envelope lookup)⟩

/-- What a blocking set claims below a ballot of the hint, it claims for a
candidate. -/
theorem Covered.isVBlocking {claims : SCPBallot → SCPStatement → Bool}
    (covered : Covered claims) (held : Holds bp.mLatestEnvelopes hint)
    (top : topVote ∈ hintBallots hint) (below : ballot ≤ topVote)
    (same : ballot.value = topVote.value) {qSet : SCPQuorumSet}
    (blocking : isVBlocking qSet bp.mLatestEnvelopes (claims ballot) =
      true) :
    ∃ found ∈ getPrepareCandidates bp hint, ballot ≤ found ∧
      isVBlocking qSet bp.mLatestEnvelopes (claims found) = true := by
  obtain ⟨statements, claimed, all⟩ :=
    held_statements (filteredNodes bp.mLatestEnvelopes (claims ballot))
      (fun node inside => mem_filteredNodes.mp inside)
  obtain ⟨found, candidate, above, _, shared⟩ :=
    covered.candidate held top below same statements claimed
  refine ⟨found, candidate, above, isVBlockingInternal_mono ?_ qSet blocking⟩
  intro node inside
  obtain ⟨envelope, lookup, _⟩ := mem_filteredNodes.mp inside
  exact mem_filteredNodes.mpr
    ⟨envelope, lookup, shared _ (all node inside envelope lookup)⟩

theorem acceptsPrepared_of_ratifiesPrepared
    (ratified : ratifiesPrepared config bp ballot = true) :
    acceptsPrepared config bp ballot = true :=
  federatedAccept_of_federatedRatify ratified

/-- The hint's ballots include one with the value of its commit vote. -/
private theorem commitHint_topVote
    (hinted : commitHint hint = some ballot) :
    ∃ topVote ∈ hintBallots hint, topVote.value = ballot.value := by
  unfold commitHint at hinted
  unfold hintBallots
  cases pledges : hint.pledges with
  | prepare prep =>
      simp only [pledges] at hinted
      split at hinted
      · cases hinted
        exact ⟨prep.ballot, by simp, rfl⟩
      · cases hinted
  | confirm con =>
      simp only [pledges] at hinted
      cases hinted
      exact ⟨⟨uint32Max, con.ballot.value⟩, by simp, rfl⟩
  | externalize ext =>
      simp only [pledges] at hinted
      cases hinted
      exact ⟨⟨uint32Max, ext.commit.value⟩, by simp, rfl⟩

private theorem hasPrepared_of_commitPredicate {cur : Interval}
    {st : SCPStatement} (holds : commitPredicate ballot cur st = true) :
    hasPreparedBallot ⟨0, ballot.value⟩ st = true := by
  unfold commitPredicate at holds
  unfold hasPreparedBallot
  cases pledges : st.pledges with
  | prepare prep => simp [pledges] at holds
  | confirm con =>
      simp only [pledges, Bool.and_eq_true, areBallotsCompatible_iff]
        at holds
      simp only [areBallotsLessAndCompatible_iff]
      exact ⟨SCPBallot.le_of_counter_le (Fin.zero_le _) holds.1, holds.1⟩
  | externalize ext =>
      simp only [pledges, Bool.and_eq_true, areBallotsCompatible_iff]
        at holds
      simp only [areBallotsCompatible_iff]
      exact holds.1

private theorem votesPrepared_of_votesCommit {cur : Interval}
    {st : SCPStatement} (holds : votesCommit ballot cur st = true) :
    votesPrepared ⟨0, ballot.value⟩ st = true := by
  unfold votesCommit at holds
  unfold votesPrepared
  cases pledges : st.pledges with
  | prepare prep =>
      simp only [pledges, Bool.and_eq_true, areBallotsCompatible_iff]
        at holds
      simp only [areBallotsLessAndCompatible_iff]
      exact ⟨SCPBallot.le_of_counter_le (Fin.zero_le _) holds.1, holds.1⟩
  | confirm con =>
      simp only [pledges, Bool.and_eq_true, areBallotsCompatible_iff]
        at holds
      simp only [areBallotsCompatible_iff]
      exact holds.1
  | externalize ext =>
      simp only [pledges, Bool.and_eq_true, areBallotsCompatible_iff]
        at holds
      simp only [areBallotsCompatible_iff]
      exact holds.1

/-- Where a commit is acceptable, a candidate is acceptable as prepared. -/
theorem acceptsPrepared_of_acceptsCommit {cur : Interval}
    (held : Holds bp.mLatestEnvelopes hint)
    (hinted : commitHint hint = some ballot)
    (accepts : acceptsCommit config bp ballot cur = true) :
    ∃ found ∈ getPrepareCandidates bp hint,
      acceptsPrepared config bp found = true := by
  obtain ⟨topVote, top, topValue⟩ := commitHint_topVote hinted
  have below : (⟨0, ballot.value⟩ : SCPBallot) ≤ topVote :=
    SCPBallot.le_of_counter_le (Fin.zero_le _) topValue.symm
  unfold acceptsCommit SlotConfig.federatedAccept at accepts
  rcases (Bool.or_eq_true _ _).mp accepts with blocking | quorum
  · have claims : isVBlocking config.localNode.mQSet bp.mLatestEnvelopes
        (hasPreparedBallot ⟨0, ballot.value⟩) = true := by
      refine isVBlockingInternal_mono ?_ _ blocking
      intro node inside
      obtain ⟨envelope, lookup, holds⟩ := mem_filteredNodes.mp inside
      exact mem_filteredNodes.mpr
        ⟨envelope, lookup, hasPrepared_of_commitPredicate holds⟩
    obtain ⟨found, candidate, _, shared⟩ :=
      hasPreparedBallot_covered.isVBlocking held top below topValue.symm
        claims
    refine ⟨found, candidate, ?_⟩
    unfold acceptsPrepared SlotConfig.federatedAccept
    rw [shared, Bool.true_or]
  · have claims : isQuorum config.localNode.mQSet bp.mLatestEnvelopes
        config.getQuorumSetFromStatement (fun st =>
          hasPreparedBallot ⟨0, ballot.value⟩ st ||
            votesPrepared ⟨0, ballot.value⟩ st) = true := by
      refine isQuorum_of_imp ?_ quorum
      intro st holds
      rw [Bool.or_eq_true] at holds ⊢
      exact holds.imp hasPrepared_of_commitPredicate
        votesPrepared_of_votesCommit
    obtain ⟨found, candidate, _, shared⟩ :=
      (hasPreparedBallot_covered.or votesPrepared_covered).isQuorum held top
        below topValue.symm claims
    refine ⟨found, candidate, ?_⟩
    unfold acceptsPrepared SlotConfig.federatedAccept
    rw [shared, Bool.or_true]

end Federated

/-! ## The state after the search -/

/-- What `attemptPreparedAccept` leaves behind: every acceptable candidate is
below `p`, and as long as `p` is unset nothing has happened. -/
structure Searched (config : SlotConfig) (hint : SCPStatement)
    (start finish : SlotView) : Prop where
  accepted : finish.ballots.phase = .prepare →
    ∀ bp : BallotProtocol, bp.mLatestEnvelopes = start.envelopes →
      ∀ ballot ∈ getPrepareCandidates bp hint,
        acceptsPrepared config bp ballot = true →
          ∃ p, finish.ballots.prepared = some p ∧ ballot ≤ p
  unchanged : finish.ballots.prepared = none →
    finish.envelopes = start.envelopes

section Search

variable {config : SlotConfig} {environment : Environment}
  {hint : SCPStatement} {start finish : SlotView} {bp : BallotProtocol}
  {ballot : SCPBallot}

/-- What the node itself claims to be prepared lies below `p`. -/
private theorem le_prepared_of_own {envelope : SCPEnvelope}
    (stable : finish.Stable config)
    (prepare : finish.ballots.phase = .prepare)
    (own : finish.envelopes.lookup config.getLocalNodeID = some envelope)
    (claims : hasPreparedBallot ballot envelope.statement = true) :
    ∃ p, finish.ballots.prepared = some p ∧ ballot ≤ p := by
  obtain ⟨pledges, built, equal⟩ := stable.own envelope own
  simp only [Ballots.pledges, prepare, Option.some.injEq] at built
  simp only [equal, SlotConfig.createEnvelope_pledges, ← built,
    hasPreparedBallot, Bool.or_eq_true, Option.any_eq_true,
    areBallotsLessAndCompatible_iff] at claims
  rcases claims with ⟨p, set, below, _⟩ | ⟨p', set, below, _⟩
  · exact ⟨p, set, below⟩
  · obtain ⟨p, prepared, above, _⟩ := stable.sound.pair p' set
    exact ⟨p, prepared, below.trans above.le⟩

/-- A candidate ratified after the search lies below `p`: a quorum without
the node has been there before the search, and the node itself only claims
ballots below `p`. -/
theorem Searched.bounded (searched : Searched config hint start finish)
    (held : Holds start.envelopes hint)
    (path : Path config environment.silent start finish)
    (stable : finish.Stable config)
    (prepare : finish.ballots.phase = .prepare)
    (envelopes : bp.mLatestEnvelopes = finish.envelopes)
    (candidate : ballot ∈ getPrepareCandidates bp hint)
    (ratified : ratifiesPrepared config bp ballot = true) :
    ∃ p, finish.ballots.prepared = some p ∧ ballot ≤ p := by
  obtain ⟨nodes, ⟨passes, slices⟩, slice⟩ := isQuorum_iff.mp ratified
  rw [envelopes] at passes slices
  by_cases self : config.getLocalNodeID ∈ nodes
  · obtain ⟨envelope, own, claims⟩ := passes _ self
    exact le_prepared_of_own stable prepare own claims
  · have others : ∀ node ∈ nodes,
        finish.envelopes.lookup node = start.envelopes.lookup node := by
      intro node inside
      refine path.others ?_
      intro equal
      exact self (equal ▸ inside)
    obtain ⟨topVote, top, _, _, _, inside⟩ :=
      mem_getPrepareCandidates.mp candidate
    obtain ⟨below, same⟩ := le_of_mem_candidatesFrom inside
    have earlier : isQuorum config.localNode.mQSet start.envelopes
        config.getQuorumSetFromStatement (hasPreparedBallot ballot) =
          true := by
      refine isQuorum_iff.mpr ⟨nodes, ⟨?_, ?_⟩, slice⟩
      · intro node member
        rw [← others node member]
        exact passes node member
      · intro node member
        rw [← others node member]
        exact slices node member
    let before : BallotProtocol :=
      { bp with mLatestEnvelopes := start.envelopes }
    have heldBefore : Holds before.mLatestEnvelopes hint := held
    obtain ⟨found, foundCandidate, above, shared⟩ :=
      hasPreparedBallot_covered.isQuorum heldBefore top below same earlier
    obtain ⟨p, prepared, under⟩ := searched.accepted prepare _ rfl found
      foundCandidate (acceptsPrepared_of_ratifiesPrepared shared)
    exact ⟨p, prepared, above.trans under⟩

/-- When a commit is acceptable, `p` is set. -/
theorem Searched.prepared_ne_none {cur : Interval}
    (searched : Searched config hint start finish)
    (held : Holds start.envelopes hint)
    (prepare : finish.ballots.phase = .prepare)
    (envelopes : bp.mLatestEnvelopes = finish.envelopes)
    (hinted : commitHint hint = some ballot)
    (accepts : acceptsCommit config bp ballot cur = true) :
    finish.ballots.prepared ≠ none := by
  intro unset
  have same : bp.mLatestEnvelopes = start.envelopes :=
    envelopes.trans (searched.unchanged unset)
  obtain ⟨found, candidate, acceptable⟩ :=
    acceptsPrepared_of_acceptsCommit (same ▸ held) hinted accepts
  obtain ⟨p, set, _⟩ :=
    searched.accepted prepare bp same found candidate acceptable
  rw [unset] at set
  cases set

end Search

/-! ## The results of the loops -/

section Loops

variable {config : SlotConfig} {bp : BallotProtocol}

/-- The loop for `newH` stops at the first ratified candidate, if that is
above `h`. -/
theorem findNewH_some {ballots candidates : List SCPBallot}
    {newH : SCPBallot}
    (found : findNewH config bp ballots = some (newH, candidates)) :
    ∃ skipped tail, ballots = skipped ++ candidates ∧
      candidates = newH :: tail ∧
      (∀ ballot ∈ skipped, ratifiesPrepared config bp ballot = false) ∧
      ratifiesPrepared config bp newH = true ∧
      ∀ high, bp.mHighBallot = some high → high < newH := by
  induction ballots with
  | nil => cases found
  | cons ballot ballots ih =>
      unfold findNewH at found
      split at found
      · cases found
      · rename_i above
        split at found
        · rename_i ratified
          cases found
          refine ⟨[], ballots, rfl, rfl, by simp, ratified, ?_⟩
          intro high set
          simpa [set, compareBallots_nonneg_iff] using above
        · rename_i unratified
          obtain ⟨skipped, tail, split, first, none, ratified, higher⟩ :=
            ih found
          refine ⟨ballot :: skipped, tail, by simp [split], first, ?_,
            ratified, higher⟩
          intro other member
          rcases List.mem_cons.mp member with here | later
          · rw [here]
            simpa using unratified
          · exact none other later

/-- What an interval found by the loop satisfies. -/
theorem findExtendedInterval_holds {pred : Interval → Bool}
    (boundaries : List Uint32) (candidate : Interval) {result : Interval}
    (start : candidate.first ≠ 0 →
      candidate.first ≤ candidate.second ∧ pred candidate = true)
    (equal : findExtendedInterval pred candidate boundaries = result)
    (found : result.first ≠ 0) :
    result.first ≤ result.second ∧ pred result = true := by
  induction boundaries generalizing candidate with
  | nil =>
      unfold findExtendedInterval at equal
      subst equal
      exact start found
  | cons b boundaries ih =>
      unfold findExtendedInterval at equal
      by_cases above : candidate.first ≠ 0 ∧ b > candidate.second
      · rw [if_pos above] at equal
        exact ih candidate start equal
      · rw [if_neg above] at equal
        generalize extended : (if candidate.first = 0 then
          (⟨b, b⟩ : Interval) else ⟨b, candidate.second⟩) = cur at equal
        dsimp only at equal
        have ordered : cur.first ≤ cur.second := by
          subst extended
          split
          · exact le_refl _
          · rename_i nonzero
            exact not_lt.mp (fun higher => above ⟨nonzero, higher⟩)
        by_cases holds : pred cur = true
        · rw [if_pos holds] at equal
          exact ih cur (fun _ => ⟨ordered, holds⟩) equal
        · rw [if_neg holds] at equal
          by_cases nonzero : candidate.first ≠ 0
          · rw [if_pos nonzero] at equal
            subst equal
            exact start nonzero
          · rw [if_neg nonzero] at equal
            exact ih candidate start equal

theorem acceptedInterval_holds {ballot : SCPBallot}
    (found : (acceptedInterval config bp ballot).first ≠ 0) :
    (acceptedInterval config bp ballot).first ≤
        (acceptedInterval config bp ballot).second ∧
      acceptsCommit config bp ballot (acceptedInterval config bp ballot) =
        true :=
  findExtendedInterval_holds _ _ (fun nonzero => absurd rfl nonzero) rfl
    found

theorem confirmedInterval_holds {ballot : SCPBallot}
    (found : (confirmedInterval config bp ballot).first ≠ 0) :
    (confirmedInterval config bp ballot).first ≤
        (confirmedInterval config bp ballot).second ∧
      ratifiesCommit config bp ballot (confirmedInterval config bp ballot) =
        true :=
  findExtendedInterval_holds _ _ (fun nonzero => absurd rfl nonzero) rfl
    found

end Loops

end StellarCore.Scp
