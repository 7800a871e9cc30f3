import StellarCore.Scp.CounterBumps

/-!
# What a node can still do by itself

After every step the node works on the statement it has just published, and
of all the statements only its own has changed.  Its own statement votes for
everything below its current ballot already, so publishing a step never lets
the same step succeed again: after the highest acceptable ballot has been
accepted no other one is left, and the same holds for the highest confirmed
ballot in PREPARE and for the upper end of the commit in CONFIRM.
-/

namespace StellarCore.Scp

/-- The statement the node makes with the pledges. -/
abbrev SlotConfig.statement (config : SlotConfig) (pledges : Pledges) :
    SCPStatement :=
  (config.createEnvelope pledges).statement

/-- The node has recorded the statement that its ballots give. -/
structure Publishes (config : SlotConfig) (pledges : Pledges)
    (bp : BallotProtocol) : Prop where
  consistent : bp.ballots.Consistent
  built : bp.ballots.pledges config = some pledges
  recorded : bp.mLatestEnvelopes.lookup config.getLocalNodeID =
    some (config.createEnvelope pledges)

/-- The statements of the other nodes are the same. -/
def SameOthers (config : SlotConfig) (before after : BallotProtocol) :
    Prop :=
  ∀ node, node ≠ config.getLocalNodeID →
    after.mLatestEnvelopes.lookup node = before.mLatestEnvelopes.lookup node

/-- The node has published one statement after another. -/
structure Republishes (config : SlotConfig) (old new : Pledges)
    (before after : BallotProtocol) : Prop where
  first : Publishes config old before
  second : Publishes config new after
  started : before.mPhase ≠ .externalize
  running : after.mPhase ≠ .externalize
  others : SameOthers config before after

section Transfer

variable {config : SlotConfig} {old new : Pledges}
  {before after : BallotProtocol}

theorem Publishes.quorumSet {bp : BallotProtocol} {pledges : Pledges}
    (published : Publishes config pledges bp)
    (running : bp.mPhase ≠ .externalize) :
    config.getQuorumSetFromStatement (config.statement pledges) =
      config.driver.getQSet config.localNode.mQSetHash := by
  cases pledges with
  | prepare prep =>
      obtain ⟨_, built⟩ := Ballots.pledges_prepare published.built
      rw [built]
      rfl
  | confirm con =>
      obtain ⟨_, c, h, b, p, _, _, _, _, built⟩ :=
        Ballots.pledges_confirm published.built
      rw [built]
      rfl
  | externalize ext =>
      obtain ⟨ended, _⟩ := Ballots.pledges_externalize published.built
      exact absurd ended running

/-- What passes a filter now passed another one before, at every node. -/
theorem Republishes.passes {few many : SCPStatement → Bool}
    (republished : Republishes config old new before after)
    (others : ∀ st, few st = true → many st = true)
    (own : few (config.statement new) = true →
      many (config.statement old) = true)
    {node : NodeID} {envelope : SCPEnvelope}
    (found : after.mLatestEnvelopes.lookup node = some envelope)
    (passed : few envelope.statement = true) :
    ∃ earlier, before.mLatestEnvelopes.lookup node = some earlier ∧
      many earlier.statement = true := by
  by_cases self : node = config.getLocalNodeID
  · subst self
    rw [republished.second.recorded] at found
    cases found
    exact ⟨_, republished.first.recorded, own passed⟩
  · rw [republished.others node self] at found
    exact ⟨envelope, found, others _ passed⟩

theorem Republishes.isVBlocking {few many : SCPStatement → Bool}
    (republished : Republishes config old new before after)
    (others : ∀ st, few st = true → many st = true)
    (own : few (config.statement new) = true →
      many (config.statement old) = true) {qSet : SCPQuorumSet}
    (blocking : isVBlocking qSet after.mLatestEnvelopes few = true) :
    isVBlocking qSet before.mLatestEnvelopes many = true := by
  refine isVBlockingInternal_mono ?_ qSet blocking
  intro node member
  obtain ⟨envelope, found, passed⟩ := mem_filteredNodes.mp member
  exact mem_filteredNodes.mpr (republished.passes others own found passed)

theorem Republishes.isQuorum {few : SCPStatement → Bool}
    (republished : Republishes config old new before after)
    (own : few (config.statement new) = true →
      few (config.statement old) = true) {qSet : SCPQuorumSet}
    (quorum : isQuorum qSet after.mLatestEnvelopes
      config.getQuorumSetFromStatement few = true) :
    isQuorum qSet before.mLatestEnvelopes
      config.getQuorumSetFromStatement few = true := by
  obtain ⟨nodes, ⟨passes, slices⟩, slice⟩ := isQuorum_iff.mp quorum
  refine isQuorum_iff.mpr ⟨nodes, ⟨?_, ?_⟩, slice⟩
  · intro node member
    obtain ⟨envelope, found, passed⟩ := passes node member
    exact republished.passes (fun _ holds => holds) own found passed
  · intro node member
    obtain ⟨envelope, inner, found, known, inside⟩ := slices node member
    by_cases self : node = config.getLocalNodeID
    · subst self
      rw [republished.second.recorded] at found
      cases found
      refine ⟨_, inner, republished.first.recorded, ?_, inside⟩
      rw [republished.first.quorumSet republished.started,
        ← republished.second.quorumSet republished.running]
      exact known
    · rw [republished.others node self] at found
      exact ⟨envelope, inner, found, known, inside⟩

/-- What is accepted with the new statement was accepted with the old one,
if the new one adds no vote and no acceptance. -/
theorem Republishes.federatedAccept {voted accepted : SCPStatement → Bool}
    (republished : Republishes config old new before after)
    (accepts : accepted (config.statement new) = false)
    (votes : voted (config.statement old) = true)
    (now : config.federatedAccept voted accepted after.mLatestEnvelopes =
      true) :
    config.federatedAccept voted accepted before.mLatestEnvelopes =
      true := by
  unfold SlotConfig.federatedAccept at now ⊢
  rw [Bool.or_eq_true] at now ⊢
  refine now.imp ?_ ?_
  · refine republished.isVBlocking (fun _ holds => holds) ?_
    intro accepted'
    rw [accepts] at accepted'
    cases accepted'
  · refine republished.isQuorum ?_
    intro _
    simp [votes]

end Transfer

/-! ## Accepting ballots as prepared -/

/-- A ballot that `attemptPreparedAccept` does not skip. -/
structure Ballots.MayAccept (ballots : Ballots) (ballot : SCPBallot) :
    Prop where
  raises : ballots.Raises ballot
  compatible : ballots.phase = .confirm →
    ∃ p, ballots.prepared = some p ∧ p ≤ ballot ∧ p.value = ballot.value

/-- A candidate that is not skipped and that the node may accept. -/
structure Acceptable (config : SlotConfig) (bp : BallotProtocol)
    (hint : SCPStatement) (ballot : SCPBallot) : Prop where
  candidate : ballot ∈ getPrepareCandidates bp hint
  may : bp.ballots.MayAccept ballot
  accepts : acceptsPrepared config bp ballot = true

def AcceptsNothing (config : SlotConfig) (bp : BallotProtocol)
    (hint : SCPStatement) : Prop :=
  ∀ ballot, ¬ Acceptable config bp hint ballot

/-- The highest ballot the pledges vote to prepare. -/
def Pledges.topVote : Pledges → SCPBallot
  | .prepare prep => prep.ballot
  | .confirm con => ⟨uint32Max, con.ballot.value⟩
  | .externalize ext => ⟨uint32Max, ext.commit.value⟩

section Own

variable {config : SlotConfig} {pledges : Pledges} {bp : BallotProtocol}
  {ballot : SCPBallot}

theorem topVote_mem_hintBallots (config : SlotConfig) (pledges : Pledges) :
    pledges.topVote ∈ hintBallots (config.statement pledges) := by
  cases pledges with
  | prepare prep => simp [hintBallots, Pledges.topVote]
  | confirm con => simp [hintBallots, Pledges.topVote]
  | externalize ext => simp [hintBallots, Pledges.topVote]

/-- A ballot that may be accepted is not below the other ballots of the
node's own statement. -/
theorem Publishes.eq_topVote (published : Publishes config pledges bp)
    (running : bp.mPhase ≠ .externalize) (may : bp.ballots.MayAccept ballot)
    {top : SCPBallot} (hinted : top ∈ hintBallots (config.statement pledges))
    (below : ballot ≤ top) (same : ballot.value = top.value) :
    top = pledges.topVote := by
  cases pledges with
  | prepare prep =>
      obtain ⟨prepare, built⟩ := Ballots.pledges_prepare published.built
      subst built
      simp only [hintBallots, SlotConfig.createEnvelope_pledges, mem_toSet,
        List.mem_cons, List.mem_append, Option.mem_toList] at hinted
      rcases hinted with current | prepared | prime
      · exact current
      · exact absurd ⟨below, same⟩ (may.raises.notCovered top prepared)
      · exact absurd (may.raises.above top prime) (not_lt.mpr below)
  | confirm con =>
      obtain ⟨confirm, c, h, b, p, _, _, _, prepared, built⟩ :=
        Ballots.pledges_confirm published.built
      subst built
      simp only [hintBallots, SlotConfig.createEnvelope_pledges, mem_toSet,
        List.mem_cons, List.not_mem_nil, or_false] at hinted
      rcases hinted with lower | upper
      · obtain ⟨p', set, above, agrees⟩ := may.compatible confirm
        rw [prepared] at set
        cases set
        have equal : top = p := by
          rw [lower] at same ⊢
          rw [SCPBallot.mk.injEq]
          exact ⟨rfl, same.symm.trans agrees.symm⟩
        rw [equal] at below same
        exact absurd ⟨below, same⟩ (may.raises.notCovered p prepared)
      · exact upper
  | externalize ext =>
      obtain ⟨ended, _⟩ := Ballots.pledges_externalize published.built
      exact absurd ended running

/-- The candidates of a statement under its own ballots are among them. -/
theorem candidatesFrom_hintBallots {hint : SCPStatement} {top : SCPBallot}
    (hinted : top ∈ hintBallots hint)
    (inside : ballot ∈ candidatesFrom top hint) :
    ballot ∈ hintBallots hint := by
  unfold candidatesFrom at inside
  cases pledges : hint.pledges with
  | prepare prep =>
      simp only [pledges, List.mem_filter] at inside
      simp only [hintBallots, pledges, mem_toSet]
      exact inside.1
  | confirm con =>
      simp only [pledges] at inside
      split at inside
      · rename_i agrees
        rcases List.mem_cons.mp inside with here | lower
        · rw [here]
          exact hinted
        · split at lower
          · have equal := List.mem_singleton.mp lower
            rw [equal, areBallotsCompatible_iff.mp agrees]
            simp [hintBallots, pledges]
          · cases lower
      · cases inside
  | externalize ext =>
      simp only [pledges] at inside
      split at inside
      · rw [List.mem_singleton.mp inside]
        exact hinted
      · cases inside

theorem Publishes.not_hasPrepared (published : Publishes config pledges bp)
    (running : bp.mPhase ≠ .externalize)
    (may : bp.ballots.MayAccept ballot) :
    hasPreparedBallot ballot (config.statement pledges) = false := by
  rw [← Bool.not_eq_true]
  intro claimed
  unfold hasPreparedBallot at claimed
  cases pledges with
  | prepare prep =>
      obtain ⟨prepare, built⟩ := Ballots.pledges_prepare published.built
      subst built
      simp only [SlotConfig.createEnvelope_pledges, Bool.or_eq_true,
        Option.any_eq_true, areBallotsLessAndCompatible_iff] at claimed
      rcases claimed with ⟨p, set, covered⟩ | ⟨p', set, covered⟩
      · exact may.raises.notCovered p set covered
      · exact absurd (may.raises.above p' set) (not_lt.mpr covered.1)
  | confirm con =>
      obtain ⟨confirm, c, h, b, p, _, _, _, prepared, built⟩ :=
        Ballots.pledges_confirm published.built
      subst built
      simp only [SlotConfig.createEnvelope_pledges,
        areBallotsLessAndCompatible_iff] at claimed
      obtain ⟨p', set, above, agrees⟩ := may.compatible confirm
      rw [prepared] at set
      cases set
      have counters := SCPBallot.counter_le_of_le claimed.1
      have lower : ballot ≤ p :=
        SCPBallot.le_of_counter_le counters agrees.symm
      exact may.raises.notCovered p prepared ⟨lower, agrees.symm⟩
  | externalize ext =>
      obtain ⟨ended, _⟩ := Ballots.pledges_externalize published.built
      exact absurd ended running

theorem votesPrepared_topVote (config : SlotConfig) (pledges : Pledges)
    (below : ballot ≤ pledges.topVote)
    (same : ballot.value = pledges.topVote.value) :
    votesPrepared ballot (config.statement pledges) = true := by
  cases pledges with
  | prepare prep =>
      exact areBallotsLessAndCompatible_iff.mpr ⟨below, same⟩
  | confirm con => exact areBallotsCompatible_iff.mpr same
  | externalize ext => exact areBallotsCompatible_iff.mpr same

/-- The top vote of a node before EXTERNALIZE. -/
def Ballots.topVote (ballots : Ballots) : SCPBallot :=
  match ballots.phase with
  | .prepare => ballots.current.getD .zero
  | _ => ⟨uint32Max, (ballots.current.getD .zero).value⟩

theorem Publishes.topVote (published : Publishes config pledges bp)
    (running : bp.mPhase ≠ .externalize) :
    pledges.topVote = bp.ballots.topVote := by
  cases pledges with
  | prepare prep =>
      obtain ⟨prepare, built⟩ := Ballots.pledges_prepare published.built
      rw [built, Ballots.topVote, prepare]
      rfl
  | confirm con =>
      obtain ⟨confirm, c, h, b, p, _, _, current, _, built⟩ :=
        Ballots.pledges_confirm published.built
      rw [built, Ballots.topVote, confirm, current]
      rfl
  | externalize ext =>
      obtain ⟨ended, _⟩ := Ballots.pledges_externalize published.built
      exact absurd ended running

/-- What may be accepted lies below the top vote. -/
theorem Acceptable.le_topVote (published : Publishes config pledges bp)
    (running : bp.mPhase ≠ .externalize)
    (acceptable :
      Acceptable config bp (config.statement pledges) ballot) :
    ballot ≤ pledges.topVote ∧ ballot.value = pledges.topVote.value := by
  obtain ⟨top, hinted, node, envelope, _, inside⟩ :=
    mem_getPrepareCandidates.mp acceptable.candidate
  obtain ⟨below, same⟩ := le_of_mem_candidatesFrom inside
  have highest := published.eq_topVote running acceptable.may hinted below
    same
  rw [← highest]
  exact ⟨below, same⟩

end Own

section Accepting

variable {config : SlotConfig} {old new : Pledges}
  {before after : BallotProtocol} {ballot : SCPBallot}

/-- A ballot the node may accept after a step that does not raise its top
vote could be accepted before. -/
theorem Republishes.acceptable
    (republished : Republishes config old new before after)
    (top : new.topVote = old.topVote)
    (may : before.ballots.MayAccept ballot)
    (acceptable :
      Acceptable config after (config.statement new) ballot) :
    Acceptable config before (config.statement old) ballot := by
  obtain ⟨candidate, mayNow, accepts⟩ := acceptable
  obtain ⟨topVote, hinted, node, envelope, found, inside⟩ :=
    mem_getPrepareCandidates.mp candidate
  obtain ⟨below, same⟩ := le_of_mem_candidatesFrom inside
  have highest : topVote = old.topVote :=
    (republished.second.eq_topVote republished.running mayNow hinted below
      same).trans top
  subst highest
  refine ⟨?_, may, ?_⟩
  · refine mem_getPrepareCandidates.mpr
      ⟨_, topVote_mem_hintBallots config old, ?_⟩
    by_cases self : node = config.getLocalNodeID
    · subst self
      rw [republished.second.recorded] at found
      cases found
      have own := candidatesFrom_hintBallots hinted inside
      have equal := (republished.second.eq_topVote republished.running
        mayNow own (le_refl _) rfl).trans top
      refine ⟨_, _, republished.first.recorded, ?_⟩
      rw [equal]
      exact hintBallots_candidates (topVote_mem_hintBallots config old)
    · rw [republished.others node self] at found
      exact ⟨node, envelope, found, inside⟩
  · exact republished.federatedAccept
      (republished.second.not_hasPrepared republished.running mayNow)
      (votesPrepared_topVote config old below same) accepts

/-- What the prepared pair covers it covers after a ballot was accepted. -/
theorem Ballots.Raises.of_withPrepared {ballots : Ballots}
    {other : SCPBallot} (consistent : ballots.Consistent)
    (raises : ballots.Raises ballot)
    (later : (ballots.withPrepared ballot).Raises other) :
    ballots.Raises other := by
  unfold Ballots.withPrepared at later
  cases prepared : ballots.prepared with
  | none =>
      simp only [prepared] at later
      exact ⟨later.above, fun p set => by simp [prepared] at set⟩
  | some p =>
      simp only [prepared] at later
      by_cases less : p < ballot
      · simp only [if_pos less] at later
        by_cases agrees : p.value = ballot.value
        · simp only [if_pos agrees] at later
          refine ⟨later.above, ?_⟩
          intro p' set covered
          rw [prepared] at set
          cases set
          exact later.notCovered ballot rfl
            ⟨covered.1.trans less.le, covered.2.trans agrees⟩
        · simp only [if_neg agrees] at later
          have above : p < other := later.above p rfl
          refine ⟨?_, ?_⟩
          · intro p' set
            exact (consistent.prime p p' prepared set).1.trans_lt above
          · intro p' set covered
            rw [prepared] at set
            cases set
            exact absurd above (not_lt.mpr covered.1)
      · simp only [if_neg less] at later
        refine ⟨?_, fun p' set =>
          later.notCovered p' (prepared.symm.trans set)⟩
        intro p' set
        exact (raises.above p' set).trans (later.above ballot rfl)

theorem Ballots.Raises.of_acceptPrepared {ballots : Ballots}
    {other : SCPBallot}
    (later : (ballots.acceptPrepared ballot).Raises other) :
    (ballots.withPrepared ballot).Raises other := by
  obtain ⟨above, notCovered⟩ := later
  rw [Ballots.acceptPrepared_preparedPrime] at above
  rw [Ballots.acceptPrepared_prepared] at notCovered
  exact ⟨above, notCovered⟩

/-- Of the compatible ballots only those above an accepted one can still be
accepted. -/
theorem Ballots.Raises.lt_of_withPrepared {ballots : Ballots}
    {other : SCPBallot}
    (later : (ballots.withPrepared ballot).Raises other)
    (same : other.value = ballot.value) : ballot < other := by
  unfold Ballots.withPrepared at later
  cases prepared : ballots.prepared with
  | none =>
      simp only [prepared] at later
      by_contra notAbove
      exact later.notCovered ballot rfl ⟨not_lt.mp notAbove, same⟩
  | some p =>
      simp only [prepared] at later
      by_cases less : p < ballot
      · simp only [if_pos less] at later
        by_contra notAbove
        exact later.notCovered ballot rfl ⟨not_lt.mp notAbove, same⟩
      · simp only [if_neg less] at later
        exact later.above ballot rfl

theorem Ballots.MayAccept.of_acceptPrepared {ballots : Ballots}
    {other : SCPBallot} (consistent : ballots.Consistent)
    (may : ballots.MayAccept ballot)
    (later : (ballots.acceptPrepared ballot).MayAccept other)
    (same : other.value = ballot.value) :
    ballots.MayAccept other ∧ ballot < other := by
  have raises := later.raises.of_acceptPrepared
  have above := raises.lt_of_withPrepared same
  refine ⟨⟨.of_withPrepared consistent may.raises raises, ?_⟩, above⟩
  intro confirm
  obtain ⟨p, set, below, agrees⟩ := may.compatible confirm
  exact ⟨p, set, below.trans above.le, agrees.trans same.symm⟩

/-- After the greatest acceptable ballot was accepted none is left. -/
theorem Republishes.acceptsNothing
    (republished : Republishes config old new before after)
    (moved : after.ballots = before.ballots.acceptPrepared ballot)
    (acceptable :
      Acceptable config before (config.statement old) ballot)
    (greatest : ∀ other,
      Acceptable config before (config.statement old) other →
        other ≤ ballot) :
    AcceptsNothing config after (config.statement new) := by
  intro other otherAcceptable
  have top : new.topVote = old.topVote := by
    rw [republished.second.topVote republished.running,
      republished.first.topVote republished.started, moved]
    simp [Ballots.topVote]
  have same : other.value = ballot.value := by
    rw [(otherAcceptable.le_topVote republished.second
        republished.running).2, top,
      (acceptable.le_topVote republished.first republished.started).2]
  have later := otherAcceptable.may
  rw [moved] at later
  obtain ⟨may, above⟩ := Ballots.MayAccept.of_acceptPrepared
    republished.first.consistent acceptable.may later same
  exact absurd (greatest other (republished.acceptable top may
    otherAcceptable)) (not_le.mpr above)

/-- A step that keeps the prepared pair and the top vote, or raises the top
vote only over ballots that are covered, leaves nothing to accept. -/
theorem Republishes.acceptsNothing_kept
    (republished : Republishes config old new before after)
    (nothing : AcceptsNothing config before (config.statement old))
    (may : ∀ other, after.ballots.MayAccept other →
      before.ballots.MayAccept other)
    (top : new.topVote = old.topVote ∨
      ∀ other, other ≤ new.topVote → other.value = new.topVote.value →
        ¬ after.ballots.MayAccept other) :
    AcceptsNothing config after (config.statement new) := by
  intro other acceptable
  rcases top with same | covered
  · exact nothing other (republished.acceptable same
      (may other acceptable.may) acceptable)
  · obtain ⟨below, agrees⟩ := acceptable.le_topVote republished.second
      republished.running
    exact covered other below agrees acceptable.may

end Accepting

/-! ## Confirming a ballot as prepared -/

/-- No candidate above `h` is ratified. -/
def ConfirmsNothing (config : SlotConfig) (bp : BallotProtocol)
    (hint : SCPStatement) : Prop :=
  ∀ ballot ∈ getPrepareCandidates bp hint,
    (∀ high, bp.mHighBallot = some high → high < ballot) →
      ratifiesPrepared config bp ballot = false

section Confirming

variable {config : SlotConfig} {old new : Pledges}
  {before after : BallotProtocol} {hint : SCPStatement}
  {newC newH : SCPBallot} {candidates : List SCPBallot}

theorem ConfirmsNothing.findNewH_eq_none {bp : BallotProtocol}
    (nothing : ConfirmsNothing config bp hint) :
    findNewH config bp (getPrepareCandidates bp hint).reverse = none := by
  cases found : findNewH config bp (getPrepareCandidates bp hint).reverse with
  | none => rfl
  | some result =>
      obtain ⟨newH, candidates⟩ := result
      obtain ⟨skipped, tail, split, first, _, ratified, above⟩ :=
        findNewH_some found
      have member : newH ∈ getPrepareCandidates bp hint := by
        rw [← List.mem_reverse, split, first]
        simp
      rw [nothing newH member above] at ratified
      cases ratified

/-- The ballot found is the greatest ratified candidate. -/
theorem findNewH_greatest {bp : BallotProtocol}
    (found : findNewH config bp (getPrepareCandidates bp hint).reverse =
      some (newH, candidates)) {ballot : SCPBallot}
    (candidate : ballot ∈ getPrepareCandidates bp hint)
    (ratified : ratifiesPrepared config bp ballot = true) :
    ballot ≤ newH := by
  obtain ⟨skipped, tail, split, first, none, _, _⟩ := findNewH_some found
  have descending := getPrepareCandidates_descending bp hint
  rw [split, first, List.pairwise_append] at descending
  rw [← List.mem_reverse, split, first, List.mem_append] at candidate
  rcases candidate with earlier | later
  · rw [none ballot earlier] at ratified
    cases ratified
  · rcases List.mem_cons.mp later with here | further
    · exact here.le
    · exact ((List.pairwise_cons.mp descending.2.1).1 ballot further).le

theorem Publishes.eq_prepare {pledges : Pledges} {bp : BallotProtocol}
    (published : Publishes config pledges bp)
    (prepare : bp.mPhase = .prepare) :
    pledges = .prepare
      { quorumSetHash := config.localNode.mQSetHash
        ballot := bp.mCurrentBallot.getD .zero
        prepared := bp.mPrepared
        preparedPrime := bp.mPreparedPrime
        nC := (bp.mCommit.map SCPBallot.counter).getD 0
        nH := (bp.mHighBallot.map SCPBallot.counter).getD 0 } := by
  have built := published.built
  unfold Ballots.pledges at built
  rw [BallotProtocol.ballots_phase, prepare] at built
  exact (Option.some.inj built).symm

/-- In PREPARE the ballots of the node's own statement are its own. -/
theorem Publishes.mem_hintBallots {pledges : Pledges} {bp : BallotProtocol}
    (published : Publishes config pledges bp)
    (prepare : bp.mPhase = .prepare) {top : SCPBallot} :
    top ∈ hintBallots (config.statement pledges) ↔
      top = bp.mCurrentBallot.getD .zero ∨ bp.mPrepared = some top ∨
        bp.mPreparedPrime = some top := by
  rw [published.eq_prepare prepare]
  simp [hintBallots]

theorem Publishes.mem_candidatesFrom {pledges : Pledges}
    {bp : BallotProtocol} (published : Publishes config pledges bp)
    (prepare : bp.mPhase = .prepare) {top ballot : SCPBallot}
    (hinted : ballot ∈ hintBallots (config.statement pledges))
    (below : ballot ≤ top) (same : ballot.value = top.value) :
    ballot ∈ candidatesFrom top (config.statement pledges) := by
  rw [published.eq_prepare prepare] at hinted ⊢
  simp only [hintBallots, SlotConfig.createEnvelope_pledges,
    mem_toSet] at hinted
  simp only [candidatesFrom, SlotConfig.createEnvelope_pledges,
    List.mem_filter, areBallotsLessAndCompatible_iff]
  exact ⟨hinted, below, same⟩

/-- After the greatest ratified ballot was confirmed none is left. -/
theorem Republishes.confirmsNothing
    (republished : Republishes config old new before after)
    (prepare : before.mPhase = .prepare)
    (found : findNewH config before (getPrepareCandidates before
      (config.statement old)).reverse = some (newH, candidates))
    (moved : after.ballots = before.ballots.confirmPrepared newC newH) :
    ConfirmsNothing config after (config.statement new) := by
  have phase : after.mPhase = .prepare :=
    (congrArg Ballots.phase moved).trans prepare
  have prepared : after.mPrepared = before.mPrepared :=
    congrArg Ballots.prepared moved
  have prime : after.mPreparedPrime = before.mPreparedPrime :=
    congrArg Ballots.preparedPrime moved
  have high : after.mHighBallot = some newH := congrArg Ballots.high moved
  have current : after.mCurrentBallot =
      raiseTo before.mCurrentBallot newH := congrArg Ballots.current moved
  -- a ballot of the new statement that is above `newH` was in the old one
  have back : ∀ top, top ∈ hintBallots (config.statement new) →
      newH < top → top ∈ hintBallots (config.statement old) := by
    intro top hinted above
    rw [republished.second.mem_hintBallots phase, prepared, prime, current]
      at hinted
    rw [republished.first.mem_hintBallots prepare]
    rcases hinted with raised | others
    · rcases Ballots.raiseTo_cases before.mCurrentBallot newH with
        lifted | ⟨b, set, _, kept⟩
      · rw [lifted] at raised
        rw [raised] at above
        exact absurd above (lt_irrefl _)
      · rw [kept] at raised
        left
        rw [raised, set]
    · exact .inr others
  intro ballot candidate above
  rw [← Bool.not_eq_true]
  intro ratified
  have higher : newH < ballot := above newH high
  obtain ⟨top, hinted, node, envelope, recorded, inside⟩ :=
    mem_getPrepareCandidates.mp candidate
  obtain ⟨below, same⟩ := le_of_mem_candidatesFrom inside
  have topBefore := back top hinted (higher.trans_le below)
  have candidateBefore : ballot ∈
      getPrepareCandidates before (config.statement old) := by
    refine mem_getPrepareCandidates.mpr ⟨top, topBefore, ?_⟩
    by_cases self : node = config.getLocalNodeID
    · subst self
      rw [republished.second.recorded] at recorded
      cases recorded
      have own := back ballot (candidatesFrom_hintBallots hinted inside)
        higher
      exact ⟨_, _, republished.first.recorded,
        republished.first.mem_candidatesFrom prepare own below same⟩
    · rw [republished.others node self] at recorded
      exact ⟨node, envelope, recorded, inside⟩
  have ratifiedBefore : ratifiesPrepared config before ballot = true := by
    refine republished.isQuorum ?_ ratified
    rw [republished.first.eq_prepare prepare,
      republished.second.eq_prepare phase, prepared, prime]
    exact fun claimed => claimed
  exact absurd (findNewH_greatest found candidateBefore ratifiedBefore)
    (not_le.mpr higher)

end Confirming

/-! ## Accepting a commit -/

/-- Above `h` no counter can be accepted as committed. -/
def CommitsNothing (config : SlotConfig) (bp : BallotProtocol) : Prop :=
  ∀ high, bp.mHighBallot = some high → ∀ ballot : SCPBallot,
    ballot.value = high.value →
      ∀ n ∈ acceptedBoundaries config bp ballot, n ≤ high.counter

section Committing

variable {config : SlotConfig} {old new : Pledges}
  {before after : BallotProtocol} {ballot : SCPBallot}

/-- The boundaries that one statement contributes. -/
def commitBoundaries (ballot : SCPBallot) (st : SCPStatement) :
    List Uint32 :=
  match st.pledges with
  | .prepare p =>
      if areBallotsCompatible ballot p.ballot && decide (p.nC ≠ 0) then
        [p.nC, p.nH]
      else []
  | .confirm c =>
      if areBallotsCompatible ballot c.ballot then [c.nCommit, c.nH]
      else []
  | .externalize e =>
      if areBallotsCompatible ballot e.commit then
        [e.commit.counter, e.nH, uint32Max]
      else []

theorem mem_getCommitBoundaries {bp : BallotProtocol} {n : Uint32} :
    n ∈ getCommitBoundariesFromStatements bp ballot ↔
      ∃ node envelope, bp.mLatestEnvelopes.lookup node = some envelope ∧
        n ∈ commitBoundaries ballot envelope.statement := by
  show n ∈ toSet (bp.mLatestEnvelopes.entries.flatMap
    fun entry => commitBoundaries ballot entry.2.statement) ↔ _
  rw [mem_toSet, List.mem_flatMap]
  constructor
  · rintro ⟨⟨node, envelope⟩, entry, inside⟩
    exact ⟨node, envelope, AList.mem_lookup_iff.mpr entry, inside⟩
  · rintro ⟨node, envelope, found, inside⟩
    exact ⟨⟨node, envelope⟩, AList.mem_lookup_iff.mp found, inside⟩

theorem Ballots.acceptCommit_confirm {ballots : Ballots} {c h : SCPBallot}
    (confirm : ballots.phase = .confirm) :
    ballots.acceptCommit c h =
      { ballots with
        high := some h
        commit := some c
        current := raiseTo ballots.current h } := by
  rw [Ballots.acceptCommit, if_neg (by simp [confirm])]

/-- Only the value of a ballot counts when a commit is accepted. -/
theorem acceptedBoundaries_congr {bp : BallotProtocol}
    {left right : SCPBallot} (same : left.value = right.value) :
    acceptedBoundaries config bp left =
      acceptedBoundaries config bp right := by
  obtain ⟨leftCounter, value⟩ := left
  obtain ⟨rightCounter, value'⟩ := right
  cases same
  rfl

/-- The upper end found is the greatest accepted boundary. -/
theorem acceptedInterval_greatest {bp : BallotProtocol}
    (found : (acceptedInterval config bp ballot).first ≠ 0) :
    IsGreatest (acceptedBoundaries config bp ballot)
      (acceptedInterval config bp ballot).second := by
  have nonempty : (acceptedBoundaries config bp ballot).Nonempty := by
    rw [Set.nonempty_iff_ne_empty]
    intro empty
    exact found (acceptedInterval_first_eq_zero empty)
  obtain ⟨n, greatest⟩ := acceptedBoundaries_greatest nonempty
  obtain ⟨first, result, _⟩ := acceptedInterval_finds greatest
  rw [result]
  exact greatest

theorem CommitsNothing.not_above {bp : BallotProtocol} {high : SCPBallot}
    (nothing : CommitsNothing config bp)
    (set : bp.mHighBallot = some high) (same : ballot.value = high.value)
    (found : (acceptedInterval config bp ballot).first ≠ 0) :
    (acceptedInterval config bp ballot).second ≤ high.counter :=
  nothing high set ballot same _ (acceptedInterval_greatest found).1

theorem Publishes.eq_confirm {pledges : Pledges} {bp : BallotProtocol}
    (published : Publishes config pledges bp)
    (confirm : bp.mPhase = .confirm) :
    ∃ c h b p, bp.mCommit = some c ∧ bp.mHighBallot = some h ∧
      bp.mCurrentBallot = some b ∧ bp.mPrepared = some p ∧
      c ≤ h ∧ c.value = h.value ∧ h.value = b.value ∧
      pledges = .confirm
        { ballot := b
          nPrepared := p.counter
          nCommit := c.counter
          nH := h.counter
          quorumSetHash := config.localNode.mQSetHash } := by
  cases pledges with
  | prepare prep =>
      have prepare := (Ballots.pledges_prepare published.built).1
      rw [BallotProtocol.ballots_phase, confirm] at prepare
      cases prepare
  | externalize ext =>
      have ended := (Ballots.pledges_externalize published.built).1
      rw [BallotProtocol.ballots_phase, confirm] at ended
      cases ended
  | confirm con =>
      obtain ⟨_, c, h, b, p, commit, high, current, prepared, built⟩ :=
        Ballots.pledges_confirm published.built
      obtain ⟨h', b', highSet, currentSet, low, top⟩ :=
        published.consistent.commit c commit
      rw [high] at highSet
      cases highSet
      rw [current] at currentSet
      cases currentSet
      exact ⟨c, h, b, p, commit, high, current, prepared, low.1, low.2,
        top.2, by rw [built]⟩

/-- After a commit was accepted in CONFIRM nothing is left to accept above
it. -/
theorem Republishes.commitsNothing
    (republished : Republishes config old new before after)
    (confirm : before.mPhase = .confirm) {high : SCPBallot}
    (set : before.mHighBallot = some high)
    (same : ballot.value = high.value)
    (found : (acceptedInterval config before ballot).first ≠ 0)
    (above : high.counter < (acceptedInterval config before ballot).second)
    (moved : after.ballots = before.ballots.acceptCommit
      ⟨(acceptedInterval config before ballot).first, ballot.value⟩
      ⟨(acceptedInterval config before ballot).second, ballot.value⟩) :
    CommitsNothing config after := by
  obtain ⟨c, h, b, p, _, high', _, _, low, _, agrees, oldBuilt⟩ :=
    republished.first.eq_confirm confirm
  rw [set] at high'
  cases high'
  rw [Ballots.acceptCommit_confirm confirm] at moved
  have phase : after.mPhase = .confirm :=
    (congrArg Ballots.phase moved).trans confirm
  have highNow : after.mHighBallot =
      some ⟨(acceptedInterval config before ballot).second,
        ballot.value⟩ := congrArg Ballots.high moved
  have commitNow : after.mCommit =
      some ⟨(acceptedInterval config before ballot).first,
        ballot.value⟩ := congrArg Ballots.commit moved
  obtain ⟨c', h', b', p', commitSet, highSet, _, _, _, _, _, newBuilt⟩ :=
    republished.second.eq_confirm phase
  rw [commitNow] at commitSet
  cases commitSet
  rw [highNow] at highSet
  cases highSet
  have ordered := (acceptedInterval_holds found).1
  intro high' highSet other otherSame n accepted
  rw [highNow] at highSet
  cases highSet
  by_contra notBelow
  have higher : (acceptedInterval config before ballot).second < n :=
    not_le.mp notBelow
  rw [acceptedBoundaries_congr otherSame] at accepted
  obtain ⟨boundary, positive, accepts⟩ := accepted
  have boundaryBefore : n ∈
      getCommitBoundariesFromStatements before ballot := by
    obtain ⟨node, envelope, recorded, inside⟩ :=
      mem_getCommitBoundaries.mp boundary
    refine mem_getCommitBoundaries.mpr ?_
    by_cases self : node = config.getLocalNodeID
    · subst self
      rw [republished.second.recorded] at recorded
      cases recorded
      have equal : n = (acceptedInterval config before ballot).first ∨
          n = (acceptedInterval config before ballot).second := by
        simp only [commitBoundaries, SlotConfig.createEnvelope_pledges,
          newBuilt] at inside
        split at inside
        · simpa using inside
        · cases inside
      rcases equal with lower | upper
      · exact absurd (lower ▸ higher) (not_lt.mpr ordered)
      · exact absurd (upper ▸ higher) (lt_irrefl _)
    · rw [republished.others node self] at recorded
      exact ⟨node, envelope, recorded, inside⟩
  have acceptsBefore : acceptsCommit config before ballot ⟨n, n⟩ =
      true := by
    refine republished.federatedAccept ?_ ?_ accepts
    · simp [commitPredicate, newBuilt, higher]
    · have voted : c.counter ≤ n :=
        (SCPBallot.counter_le_of_le low).trans (above.trans higher).le
      simp [votesCommit, oldBuilt, same.trans agrees, voted]
  exact notBelow ((acceptedInterval_greatest found).2
    ⟨boundaryBefore, positive, acceptsBefore⟩)

end Committing

end StellarCore.Scp
