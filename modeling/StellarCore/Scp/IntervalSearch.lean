import StellarCore.Scp.SlotRuns

/-!
# The search for the commit interval

`findExtendedInterval` goes down the boundaries, takes the first one that is
accepted as the upper end and extends the interval as long as it is accepted.
The lower end it finds is the least one; 0 is a boundary like any other to
the loop, but as a lower end it reads as "nothing found".
-/

namespace StellarCore.Scp

open StellarCore.Lib

/-! ## The loop -/

section Loop

variable {pred : Interval → Bool}

/-- The boundaries from which every interval up to `high` is accepted. -/
def connectedEnds (pred : Interval → Bool) (boundaries : List Uint32)
    (high : Uint32) : Set Uint32 :=
  {c | c ∈ boundaries ∧ c ≤ high ∧
    ∀ b ∈ boundaries, c ≤ b → b ≤ high → pred ⟨b, high⟩ = true}

/-- An interval that has been found is extended as long as it is accepted. -/
private theorem findExtendedInterval_extends {low high : Uint32}
    (boundaries : List Uint32)
    (descending : (low :: boundaries).Pairwise (· > ·))
    (nonzero : low ≠ 0) (ordered : low ≤ high)
    (accepted : pred ⟨low, high⟩ = true) :
    ∃ first, findExtendedInterval pred ⟨low, high⟩ boundaries =
        ⟨first, high⟩ ∧
      IsLeast (connectedEnds pred (low :: boundaries) high) first := by
  induction boundaries generalizing low with
  | nil =>
      refine ⟨low, rfl, ⟨by simp, ordered, ?_⟩, ?_⟩
      · intro b member _ _
        rw [List.mem_singleton.mp member]
        exact accepted
      · rintro c ⟨member, _⟩
        rw [List.mem_singleton.mp member]
  | cons b boundaries ih =>
      obtain ⟨above, rest⟩ := List.pairwise_cons.mp descending
      have below : b < low := above b List.mem_cons_self
      have under : b ≤ high := below.le.trans ordered
      have inside : ¬ (low ≠ 0 ∧ b > high) := by
        rintro ⟨_, beyond⟩
        exact absurd (beyond.trans_le under) (lt_irrefl _)
      unfold findExtendedInterval
      rw [if_neg inside]
      simp only [if_neg nonzero]
      by_cases reaches : pred ⟨b, high⟩ = true
      · rw [if_pos reaches]
        by_cases zero : b = 0
        · -- nothing is below 0, so the loop ends here
          have last : boundaries = [] := by
            rw [List.eq_nil_iff_forall_not_mem]
            intro c member
            have lower := (List.pairwise_cons.mp rest).1 c member
            rw [zero] at lower
            exact absurd lower (Fin.not_lt_zero c)
          subst last
          refine ⟨b, rfl, ⟨by simp, under, ?_⟩, ?_⟩
          · intro other member _ _
            rcases List.mem_cons.mp member with here | later
            · rw [here]
              exact accepted
            · rw [List.mem_singleton.mp later]
              exact reaches
          · intro c _
            rw [zero]
            exact Fin.zero_le c
        · obtain ⟨first, found, ⟨member, small, holds⟩, least⟩ :=
            ih rest zero under reaches
          have lowest : first ≤ b := by
            rcases List.mem_cons.mp member with here | later
            · exact here.le
            · exact ((List.pairwise_cons.mp rest).1 first later).le
          refine ⟨first, found, ⟨List.mem_cons_of_mem _ member, small, ?_⟩,
            ?_⟩
          · intro other candidate
            rcases List.mem_cons.mp candidate with here | later
            · intro _ _
              rw [here]
              exact accepted
            · exact holds other later
          · rintro c ⟨candidate, smaller, accepts⟩
            rcases List.mem_cons.mp candidate with here | later
            · rw [here]
              exact lowest.trans below.le
            · exact least ⟨later, smaller, fun other further =>
                accepts other (List.mem_cons_of_mem _ further)⟩
      · rw [if_neg reaches, if_pos nonzero]
        refine ⟨low, rfl, ⟨by simp, ordered, ?_⟩, ?_⟩
        · intro other member reached _
          rcases List.mem_cons.mp member with here | later
          · rw [here]
            exact accepted
          · exact absurd (above other later) (not_lt_of_ge reached)
        · rintro c ⟨candidate, _, accepts⟩
          by_contra smaller
          have further : c ≤ b := by
            rcases List.mem_cons.mp candidate with here | later
            · exact absurd here.ge smaller
            · rcases List.mem_cons.mp later with second | rest'
              · exact second.le
              · exact ((List.pairwise_cons.mp rest).1 c rest').le
          exact reaches (accepts b (by simp) further under)

/-- The counters of the list that are accepted by themselves. -/
def acceptedCounters (pred : Interval → Bool) (boundaries : List Uint32) :
    Set Uint32 :=
  {n | n ∈ boundaries ∧ 1 ≤ n ∧ pred ⟨n, n⟩ = true}

/-- The upper end is the greatest accepted counter, and the lower end the
least boundary that is connected to it. -/
theorem findExtendedInterval_connects {high : Uint32} (second : Uint32)
    (boundaries : List Uint32)
    (descending : boundaries.Pairwise (· > ·))
    (greatest : IsGreatest (acceptedCounters pred boundaries) high) :
    ∃ first, findExtendedInterval pred ⟨0, second⟩ boundaries =
        ⟨first, high⟩ ∧
      IsLeast (connectedEnds pred boundaries high) first := by
  induction boundaries with
  | nil => cases greatest.1.1
  | cons b boundaries ih =>
      obtain ⟨⟨member, positive, accepted⟩, upper⟩ := greatest
      obtain ⟨above, rest⟩ := List.pairwise_cons.mp descending
      have bound : high ≤ b := by
        rcases List.mem_cons.mp member with here | later
        · exact here.le
        · exact (above high later).le
      unfold findExtendedInterval
      simp only [ne_eq, not_true_eq_false, false_and, if_false, if_true]
      by_cases top : high = b
      · subst top
        rw [if_pos accepted]
        have nonzero : high ≠ 0 := Fin.pos_iff_ne_zero.mp positive
        exact findExtendedInterval_extends boundaries descending nonzero
          (le_refl _) accepted
      · have refused : ¬ pred ⟨b, b⟩ = true := by
          intro accepts
          exact top (le_antisymm bound (upper ⟨List.mem_cons_self,
            positive.trans bound, accepts⟩))
        rw [if_neg refused]
        have later : high ∈ boundaries :=
          (List.mem_cons.mp member).resolve_left top
        have beyond : ¬ b ≤ high := fun low => top (le_antisymm bound low)
        obtain ⟨first, found, ⟨inside, under, holds⟩, least⟩ :=
          ih rest ⟨⟨later, positive, accepted⟩,
            fun n counted => upper ⟨List.mem_cons_of_mem _ counted.1,
              counted.2⟩⟩
        refine ⟨first, found, ⟨List.mem_cons_of_mem _ inside, under, ?_⟩,
          ?_⟩
        · intro other candidate
          rcases List.mem_cons.mp candidate with here | further
          · intro _ low
            exact absurd (here ▸ low) beyond
          · exact holds other further
        · rintro c ⟨candidate, low, accepts⟩
          refine least ⟨(List.mem_cons.mp candidate).resolve_left ?_, low,
            fun other further =>
              accepts other (List.mem_cons_of_mem _ further)⟩
          intro here
          exact beyond (here ▸ low)

/-- If nothing is accepted by itself, nothing is found; only the boundary 0
may change the candidate. -/
theorem findExtendedInterval_first_eq_zero (second : Uint32)
    (boundaries : List Uint32)
    (none : acceptedCounters pred boundaries = ∅) :
    (findExtendedInterval pred ⟨0, second⟩ boundaries).first = 0 := by
  induction boundaries generalizing second with
  | nil => rfl
  | cons b boundaries ih =>
      have rest : acceptedCounters pred boundaries = ∅ := by
        rw [Set.eq_empty_iff_forall_notMem] at none ⊢
        rintro n ⟨member, counted⟩
        exact none n ⟨List.mem_cons_of_mem _ member, counted⟩
      unfold findExtendedInterval
      simp only [ne_eq, not_true_eq_false, false_and, if_false, if_true]
      by_cases zero : b = 0
      · subst zero
        split
        · exact ih 0 rest
        · exact ih second rest
      · have refused : ¬ pred ⟨b, b⟩ = true := by
          intro accepts
          rw [Set.eq_empty_iff_forall_notMem] at none
          exact none b ⟨List.mem_cons_self, Fin.pos_iff_ne_zero.mpr zero,
            accepts⟩
        rw [if_neg refused]
        exact ih second rest

theorem acceptedCounters_greatest {boundaries : List Uint32}
    (nonempty : (acceptedCounters pred boundaries).Nonempty) :
    ∃ n, IsGreatest (acceptedCounters pred boundaries) n := by
  have finite : (acceptedCounters pred boundaries).Finite :=
    Set.toFinite _
  obtain ⟨n, member, greatest⟩ := finite.exists_maximal nonempty
  refine ⟨n, member, ?_⟩
  intro other accepted
  by_contra larger
  exact larger (greatest accepted (le_of_not_ge larger))

/-- Over positive boundaries the search is exact, whatever the predicate: it
finds nothing if no boundary is accepted by itself, and otherwise the greatest
one with the least boundary that is connected to it. -/
theorem findExtendedInterval_exact (pred : Interval → Bool)
    (boundaries : List Uint32) (second : Uint32)
    (ascending : boundaries.Pairwise (· < ·))
    (positive : ∀ b ∈ boundaries, 0 < b) :
    ∃ interval,
      findExtendedInterval pred ⟨0, second⟩ boundaries.reverse = interval ∧
      (interval.first = 0 ↔ ∀ n ∈ boundaries, ¬ pred ⟨n, n⟩ = true) ∧
      (interval.first ≠ 0 →
        IsGreatest {n | n ∈ boundaries ∧ pred ⟨n, n⟩ = true}
          interval.second ∧
        IsLeast
          {c | c ∈ boundaries ∧ c ≤ interval.second ∧
            ∀ b ∈ boundaries, c ≤ b → b ≤ interval.second →
              pred ⟨b, interval.second⟩ = true}
          interval.first) := by
  have counters : acceptedCounters pred boundaries.reverse =
      {n | n ∈ boundaries ∧ pred ⟨n, n⟩ = true} := by
    ext n
    simp only [acceptedCounters, List.mem_reverse, Set.mem_ofPred_eq]
    exact ⟨fun counted => ⟨counted.1, counted.2.2⟩,
      fun counted => ⟨counted.1, positive n counted.1, counted.2⟩⟩
  rcases Set.eq_empty_or_nonempty
      (acceptedCounters pred boundaries.reverse) with none | nonempty
  · have nothing := findExtendedInterval_first_eq_zero second _ none
    rw [counters, Set.eq_empty_iff_forall_notMem] at none
    refine ⟨_, rfl, ?_, fun found => absurd nothing found⟩
    simp only [nothing, true_iff]
    exact fun n member accepts => none n ⟨member, accepts⟩
  · obtain ⟨high, greatest⟩ := acceptedCounters_greatest nonempty
    obtain ⟨first, found, least⟩ := findExtendedInterval_connects second _
      (List.pairwise_reverse.mpr ascending) greatest
    rw [counters] at greatest
    simp only [connectedEnds, List.mem_reverse] at least
    have nonzero : first ≠ 0 :=
      Fin.pos_iff_ne_zero.mp (positive first least.1.1)
    refine ⟨⟨first, high⟩, found, ?_, fun _ => ⟨greatest, least⟩⟩
    simp only [nonzero, false_iff]
    intro refused
    exact refused high greatest.1.1 greatest.1.2

/-- The search skips the boundary 5 and stops before 1. -/
theorem findExtendedInterval_exact_between :
    ∃ interval,
      findExtendedInterval
        (fun interval => interval.first ≥ 2 && interval.second ≤ 4)
        ⟨0, 0⟩ [5, 4, 3, 2, 1] = interval ∧
      interval = ⟨2, 4⟩ ∧ interval.first ≠ 0 := by
  have positive : ∀ b ∈ ([1, 2, 3, 4, 5] : List Uint32), 0 < b := by
    simp only [List.forall_mem_cons, List.not_mem_nil, false_implies,
      implies_true, and_true]
    decide +kernel
  obtain ⟨interval, found, nothing, _⟩ := findExtendedInterval_exact
    (fun interval => interval.first ≥ 2 && interval.second ≤ 4)
    [1, 2, 3, 4, 5] 0 (by decide +kernel) positive
  refine ⟨interval, found, found.symm.trans (by decide +kernel), ?_⟩
  intro zero
  exact nothing.mp zero 2 (by decide +kernel) (by decide +kernel)

/-- A shorter interval with the same upper end is accepted as well. -/
def Shrinks (pred : Interval → Bool) : Prop :=
  ∀ {low first second : Uint32}, low ≤ first →
    pred ⟨low, second⟩ = true → pred ⟨first, second⟩ = true

theorem Shrinks.connectedEnds_eq (shrinks : Shrinks pred)
    (boundaries : List Uint32) (high : Uint32) :
    connectedEnds pred boundaries high =
      {c | c ∈ boundaries ∧ c ≤ high ∧ pred ⟨c, high⟩ = true} := by
  ext c
  constructor
  · rintro ⟨member, small, accepts⟩
    exact ⟨member, small, accepts c member le_rfl small⟩
  · rintro ⟨member, small, accepts⟩
    exact ⟨member, small, fun b _ above _ => shrinks above accepts⟩

end Loop

/-! ## The commits a state accepts -/

section Accepted

variable {config : SlotConfig} {bp : BallotProtocol} {ballot : SCPBallot}

theorem isVBlocking_of_imp {qSet : SCPQuorumSet} {envelopes : EnvelopeMap}
    {few many : SCPStatement → Bool}
    (more : ∀ st, few st = true → many st = true)
    (blocking : isVBlocking qSet envelopes few = true) :
    isVBlocking qSet envelopes many = true := by
  refine isVBlockingInternal_mono ?_ qSet blocking
  intro node member
  obtain ⟨envelope, found, passes⟩ := mem_filteredNodes.mp member
  exact mem_filteredNodes.mpr ⟨envelope, found, more _ passes⟩

private theorem commitPredicate_shrinks {low first second : Uint32}
    (above : low ≤ first) {st : SCPStatement}
    (holds : commitPredicate ballot ⟨low, second⟩ st = true) :
    commitPredicate ballot ⟨first, second⟩ st = true := by
  unfold commitPredicate at holds ⊢
  cases pledges : st.pledges with
  | prepare p => simp [pledges] at holds
  | confirm c =>
      simp only [pledges, Bool.and_eq_true, decide_eq_true_eq] at holds ⊢
      exact ⟨holds.1, holds.2.1.trans above, holds.2.2⟩
  | externalize e =>
      simp only [pledges, Bool.and_eq_true, decide_eq_true_eq] at holds ⊢
      exact ⟨holds.1, holds.2.trans above⟩

private theorem votesCommit_shrinks {low first second : Uint32}
    (above : low ≤ first) {st : SCPStatement}
    (holds : votesCommit ballot ⟨low, second⟩ st = true) :
    votesCommit ballot ⟨first, second⟩ st = true := by
  unfold votesCommit at holds ⊢
  cases pledges : st.pledges with
  | prepare p =>
      simp only [pledges, Bool.and_eq_true, decide_eq_true_eq] at holds ⊢
      exact ⟨holds.1, holds.2.1, holds.2.2.1.trans above, holds.2.2.2⟩
  | confirm c =>
      simp only [pledges, Bool.and_eq_true, decide_eq_true_eq] at holds ⊢
      exact ⟨holds.1, holds.2.trans above⟩
  | externalize e =>
      simp only [pledges, Bool.and_eq_true, decide_eq_true_eq] at holds ⊢
      exact ⟨holds.1, holds.2.trans above⟩

theorem acceptsCommit_shrinks : Shrinks (acceptsCommit config bp ballot) := by
  intro low first second above accepts
  unfold acceptsCommit SlotConfig.federatedAccept at accepts ⊢
  rw [Bool.or_eq_true] at accepts ⊢
  refine accepts.imp ?_ ?_
  · exact isVBlocking_of_imp (fun _ => commitPredicate_shrinks above)
  · apply isQuorum_of_imp
    intro st holds
    rw [Bool.or_eq_true] at holds ⊢
    exact holds.imp (commitPredicate_shrinks above)
      (votesCommit_shrinks above)

/-- The boundaries `n` at which committing `(n, v)` is accepted. -/
def acceptedBoundaries (config : SlotConfig) (bp : BallotProtocol)
    (ballot : SCPBallot) : Set Uint32 :=
  {n | n ∈ getCommitBoundariesFromStatements bp ballot ∧ 1 ≤ n ∧
    acceptsCommit config bp ballot ⟨n, n⟩ = true}

/-- The lower ends of the intervals up to `n` that are accepted as one. -/
def acceptedLowerEnds (config : SlotConfig) (bp : BallotProtocol)
    (ballot : SCPBallot) (n : Uint32) : Set Uint32 :=
  {c | c ∈ getCommitBoundariesFromStatements bp ballot ∧ 1 ≤ c ∧ c ≤ n ∧
    acceptsCommit config bp ballot ⟨c, n⟩ = true}

/-- The interval up to the greatest accepted boundary is accepted down to the
boundary 0. -/
def AcceptsFromZero (config : SlotConfig) (bp : BallotProtocol)
    (ballot : SCPBallot) : Prop :=
  0 ∈ getCommitBoundariesFromStatements bp ballot ∧
    ∃ n, IsGreatest (acceptedBoundaries config bp ballot) n ∧
      acceptsCommit config bp ballot ⟨0, n⟩ = true

private theorem acceptedBoundaries_eq :
    acceptedBoundaries config bp ballot =
      acceptedCounters (acceptsCommit config bp ballot)
        (getCommitBoundariesFromStatements bp ballot).reverse := by
  ext n
  simp [acceptedBoundaries, acceptedCounters]

theorem acceptedInterval_finds {n : Uint32}
    (greatest : IsGreatest (acceptedBoundaries config bp ballot) n) :
    ∃ first, acceptedInterval config bp ballot = ⟨first, n⟩ ∧
      IsLeast {c | c ∈ getCommitBoundariesFromStatements bp ballot ∧
        c ≤ n ∧ acceptsCommit config bp ballot ⟨c, n⟩ = true} first := by
  rw [acceptedBoundaries_eq] at greatest
  have descending : (getCommitBoundariesFromStatements bp
      ballot).reverse.Pairwise (· > ·) :=
    List.pairwise_reverse.mpr (toSet_sorted _)
  obtain ⟨first, found, least⟩ :=
    findExtendedInterval_connects 0 _ descending greatest
  rw [acceptsCommit_shrinks.connectedEnds_eq] at least
  simp only [List.mem_reverse] at least
  exact ⟨first, found, least⟩

theorem acceptedInterval_first_eq_zero
    (none : acceptedBoundaries config bp ballot = ∅) :
    (acceptedInterval config bp ballot).first = 0 := by
  rw [acceptedBoundaries_eq] at none
  exact findExtendedInterval_first_eq_zero 0 _ none

theorem acceptedBoundaries_greatest
    (nonempty : (acceptedBoundaries config bp ballot).Nonempty) :
    ∃ n, IsGreatest (acceptedBoundaries config bp ballot) n := by
  rw [acceptedBoundaries_eq] at nonempty ⊢
  exact acceptedCounters_greatest nonempty

end Accepted

/-! ## The attempt to accept a commit -/

section Attempt

variable {config : SlotConfig} {advanceSlot : SCPStatement → BallotM Unit}
  {slot : Slot} {hint : SCPStatement}

/-- The ballots and envelopes with which `setAcceptCommit` goes on to publish
the new statement. -/
structure EntersConfirm (c h : SCPBallot) (before after : BallotProtocol) :
    Prop where
  phase : after.mPhase = .confirm
  high : after.mHighBallot = some h
  commit : after.mCommit = some c
  envelopes : after.mLatestEnvelopes = before.mLatestEnvelopes

private theorem bumpToBallot_enters {c h ballot : SCPBallot} {check : Bool}
    {before : BallotProtocol}
    (enters : EntersConfirm c h before slot.mBallotProtocol)
    (above : check = true → ∀ current,
      slot.mBallotProtocol.mCurrentBallot = some current →
        current ≤ ballot) :
    Ends (bumpToBallot ballot check) slot
      (fun _ finish => EntersConfirm c h before finish.mBallotProtocol)
      (fun _ _ => False) := by
  have running : slot.mBallotProtocol.mPhase ≠ .externalize := by
    rw [enters.phase]
    simp
  refine (bumpToBallot_succeeds running above).mono ?_
    (fun _ _ fails => fails)
  intro _ finish bumped
  rw [bumped]
  exact ⟨enters.phase, enters.high, enters.commit, enters.envelopes⟩

private theorem updateCurrentIfNeeded_enters {c h : SCPBallot}
    {before : BallotProtocol}
    (enters : EntersConfirm c h before slot.mBallotProtocol) :
    Ends updateCurrentIfNeeded slot
      (fun _ finish => EntersConfirm c h before finish.mBallotProtocol)
      (fun _ _ => False) := by
  unfold updateCurrentIfNeeded
  simp only [Ends.bind_iff, getBallotProtocol_ends, dereference_ends,
    enters.high, Ends.ite_iff, Ends.pure_iff]
  refine ⟨?_, fun unset => by cases unset⟩
  rintro high same
  cases same
  refine ⟨?_, fun _ => enters⟩
  intro below
  apply bumpToBallot_enters enters
  intro _ current set
  simp only [set, Option.all_some, decide_eq_true_eq,
    compareBallots_neg_iff] at below
  exact below.le

private theorem enterConfirm_enters {c h : SCPBallot}
    {before : BallotProtocol}
    (high : slot.mBallotProtocol.mHighBallot = some h)
    (commit : slot.mBallotProtocol.mCommit = some c)
    (envelopes : slot.mBallotProtocol.mLatestEnvelopes =
      before.mLatestEnvelopes) :
    Ends (enterConfirm h) slot
      (fun _ finish => EntersConfirm c h before finish.mBallotProtocol)
      (fun _ _ => False) := by
  have entered : EntersConfirm c h before
      { slot.mBallotProtocol with mPhase := .confirm } :=
    ⟨rfl, high, commit, envelopes⟩
  unfold enterConfirm
  simp only [Ends.bind_iff, modifyBallotProtocol_ends,
    getBallotProtocol_ends, Ends.ite_iff]
  refine ⟨fun _ => ?_, fun _ => ⟨rfl, high, commit, envelopes⟩⟩
  refine (bumpToBallot_enters entered (fun impossible => by cases impossible)).mono ?_
    (fun _ _ fails => fails)
  intro _ finish bumped
  exact ⟨bumped.phase, bumped.high, bumped.commit, bumped.envelopes⟩

/-- In PREPARE `setAcceptCommit` always comes to the point where the node
publishes its first CONFIRM statement. -/
theorem setAcceptCommit_arrives {c h : SCPBallot}
    (prepare : slot.mBallotProtocol.mPhase = .prepare) :
    Arrives (setAcceptCommit config advanceSlot c h) slot
      (do emitCurrentStateStatement config advanceSlot; return true)
      (fun middle => EntersConfirm c h slot.mBallotProtocol
        middle.mBallotProtocol) := by
  unfold setAcceptCommit
  apply Arrives.bind
  simp only [getBallotProtocol_ends, prepare, decide_true, Bool.or_true,
    if_true]
  apply Arrives.bind
  simp only [modifyBallotProtocol_ends]
  generalize assigned : (if decide
      (slot.mBallotProtocol.mHighBallot ≠ some h ∨
        slot.mBallotProtocol.mCommit ≠ some c) = true then
      { slot.mBallotProtocol with mCommit := some c, mHighBallot := some h }
    else slot.mBallotProtocol) = bp
  have high : bp.mHighBallot = some h ∧ bp.mCommit = some c ∧
      bp.mLatestEnvelopes = slot.mBallotProtocol.mLatestEnvelopes := by
    rw [← assigned]
    split
    · exact ⟨rfl, rfl, rfl⟩
    · rename_i unchanged
      simp only [decide_eq_true_eq, not_or, not_not] at unchanged
      exact ⟨unchanged.1, unchanged.2, rfl⟩
  apply Arrives.bind
  refine (enterConfirm_enters high.1 high.2.1 high.2.2).mono ?_
    (fun _ _ fails => fails)
  intro _ entered enters
  apply Arrives.bind
  refine (updateCurrentIfNeeded_enters enters).mono ?_
    (fun _ _ fails => fails)
  intro _ updated still
  apply Arrives.bind
  simp only [callDriver_ends]
  exact .here still

/-- The call answers `false` and leaves the slot as it is. -/
def ChangesNothing (attempt : BallotM Bool) (slot : Slot)
    (visited : Attempt) : Prop :=
  attempt slot = .ok false (slot.visiting visited)

theorem attemptAcceptCommit_unhinted
    (prepare : slot.mBallotProtocol.mPhase = .prepare)
    (unhinted : commitHint hint = none) :
    ChangesNothing (attemptAcceptCommit config advanceSlot hint) slot
      (.acceptCommit hint) := by
  apply Ends.eq_ok
  unfold attemptAcceptCommit
  rw [visiting_ends]
  simp [prepare, unhinted]

theorem attemptAcceptCommit_unfound {ballot : SCPBallot}
    (prepare : slot.mBallotProtocol.mPhase = .prepare)
    (hinted : commitHint hint = some ballot)
    (unfound : (acceptedInterval config slot.mBallotProtocol ballot).first =
      0) :
    ChangesNothing (attemptAcceptCommit config advanceSlot hint) slot
      (.acceptCommit hint) := by
  apply Ends.eq_ok
  unfold attemptAcceptCommit
  rw [visiting_ends]
  simp [prepare, hinted, unfound]

theorem attemptAcceptCommit_arrives {ballot : SCPBallot} {c n : Uint32}
    (prepare : slot.mBallotProtocol.mPhase = .prepare)
    (hinted : commitHint hint = some ballot)
    (found : acceptedInterval config slot.mBallotProtocol ballot = ⟨c, n⟩)
    (nonzero : c ≠ 0) :
    Arrives (attemptAcceptCommit config advanceSlot hint) slot
      (do emitCurrentStateStatement config advanceSlot; return true)
      (fun middle => EntersConfirm ⟨c, ballot.value⟩ ⟨n, ballot.value⟩
        slot.mBallotProtocol middle.mBallotProtocol) := by
  unfold attemptAcceptCommit
  apply Arrives.bind
  simp only [visit_ends]
  apply Arrives.bind
  have same : (slot.visiting (.acceptCommit hint)).mBallotProtocol =
    slot.mBallotProtocol := rfl
  simp only [getBallotProtocol_ends, same, prepare, hinted, found, nonzero,
    ne_eq, not_true_eq_false, false_and, if_false, reduceCtorEq]
  exact setAcceptCommit_arrives prepare

/-- What the search is for: if committing `(n, v)` is accepted for a boundary
`n`, the call enters CONFIRM with the greatest such `n` as `h` and the least
boundary from which the interval up to `n` is accepted as `c`; otherwise, and
for a hint without a commit, nothing changes. -/
def FindsAcceptedCommit (config : SlotConfig)
    (advanceSlot : SCPStatement → BallotM Unit) (slot : Slot)
    (hint : SCPStatement) : Prop :=
  match commitHint hint with
  | none =>
      ChangesNothing (attemptAcceptCommit config advanceSlot hint) slot
        (.acceptCommit hint)
  | some ballot =>
      ((acceptedBoundaries config slot.mBallotProtocol ballot).Nonempty →
        ∃ n c,
          IsGreatest
            (acceptedBoundaries config slot.mBallotProtocol ballot) n ∧
          IsLeast
            (acceptedLowerEnds config slot.mBallotProtocol ballot n) c ∧
          Arrives (attemptAcceptCommit config advanceSlot hint) slot
            (do emitCurrentStateStatement config advanceSlot; return true)
            (fun middle => EntersConfirm ⟨c, ballot.value⟩
              ⟨n, ballot.value⟩ slot.mBallotProtocol
              middle.mBallotProtocol)) ∧
      (acceptedBoundaries config slot.mBallotProtocol ballot = ∅ →
        ChangesNothing (attemptAcceptCommit config advanceSlot hint) slot
          (.acceptCommit hint))

/-- A program that answers `true` if it ends does not answer `false`. -/
theorem not_changesNothing_of_arrives {attempt : BallotM Bool}
    {first : BallotM Unit} {there : Slot → Prop} {visited : Attempt}
    (arrives : Arrives attempt slot (do first; return true) there) :
    ¬ ChangesNothing attempt slot visited := by
  intro unchanged
  obtain ⟨middle, _, result⟩ := arrives
  rw [unchanged] at result
  have ends : Ends (do first; return true) middle
      (fun value _ => value = true) (fun _ _ => True) := by
    simp only [Ends.bind_iff, Ends.pure_iff]
    unfold Ends
    cases first middle with
    | ok value finish => exact trivial
    | error reason finish => exact trivial
  cases ends.of_ok result.symm

private theorem acceptsFromZero_hides {ballot : SCPBallot}
    (prepare : slot.mBallotProtocol.mPhase = .prepare)
    (hinted : commitHint hint = some ballot)
    (fromZero : AcceptsFromZero config slot.mBallotProtocol ballot) :
    ChangesNothing (attemptAcceptCommit config advanceSlot hint) slot
      (.acceptCommit hint) := by
  obtain ⟨boundary, n, greatest, accepts⟩ := fromZero
  obtain ⟨first, found, _, least⟩ := acceptedInterval_finds greatest
  apply attemptAcceptCommit_unfound prepare hinted
  rw [found]
  exact le_antisymm (least ⟨boundary, Fin.zero_le n, accepts⟩)
    (Fin.zero_le first)

/-- The search finds what it is for exactly when the interval it finds does
not reach down to the boundary 0. -/
theorem attemptAcceptCommit_complete_iff (config : SlotConfig)
    (advanceSlot : SCPStatement → BallotM Unit) (slot : Slot)
    (hint : SCPStatement)
    (prepare : slot.mBallotProtocol.mPhase = .prepare) :
    FindsAcceptedCommit config advanceSlot slot hint ↔
      ∀ ballot, commitHint hint = some ballot →
        ¬ AcceptsFromZero config slot.mBallotProtocol ballot := by
  unfold FindsAcceptedCommit
  cases hinted : commitHint hint with
  | none =>
      simp only [reduceCtorEq, false_implies, implies_true, iff_true]
      exact attemptAcceptCommit_unhinted prepare hinted
  | some ballot =>
      simp only [Option.some.injEq, forall_eq']
      constructor
      · rintro ⟨finds, _⟩ fromZero
        obtain ⟨boundary, greatest, isGreatest, accepts⟩ := fromZero
        obtain ⟨n, c, _, _, arrives⟩ := finds ⟨_, isGreatest.1⟩
        exact not_changesNothing_of_arrives arrives
          (acceptsFromZero_hides prepare hinted
            ⟨boundary, greatest, isGreatest, accepts⟩)
      · intro notFromZero
        refine ⟨?_, ?_⟩
        · intro nonempty
          obtain ⟨n, greatest⟩ := acceptedBoundaries_greatest nonempty
          obtain ⟨c, found, ⟨boundary, below, accepts⟩, least⟩ :=
            acceptedInterval_finds greatest
          have nonzero : c ≠ 0 := by
            intro zero
            subst zero
            exact notFromZero ⟨boundary, n, greatest, accepts⟩
          refine ⟨n, c, greatest, ⟨⟨boundary,
            Fin.pos_iff_ne_zero.mpr nonzero, below, accepts⟩, ?_⟩,
            attemptAcceptCommit_arrives prepare hinted found nonzero⟩
          rintro low ⟨member, _, under, holds⟩
          exact least ⟨member, under, holds⟩
        · intro none
          exact attemptAcceptCommit_unfound prepare hinted
            (acceptedInterval_first_eq_zero none)

end Attempt

/-- A CONFIRM statement of node 1 with the value `[1]` at counter 1. -/
def confirmFrom (nCommit : Uint32) : Pledges :=
  .confirm
    { ballot := ⟨1, [1]⟩
      nPrepared := 1
      nCommit := nCommit
      nH := 1
      quorumSetHash := 1 }

/-- The node is not a validator of its own quorum set, so that node 1 is a
blocking set by itself. -/
def followerSlot : SlotConfig :=
  smallSlot ⟨1, [1], []⟩

/-- A slot of the node that has recorded the statement of node 1. -/
def slotWithConfirm (nCommit : Uint32) : Slot :=
  { Slot.fresh followerSlot with
    mBallotProtocol :=
      { mLatestEnvelopes :=
          AList.insert 1 ⟨statementOf 1 (confirmFrom nCommit), []⟩ ∅ } }

theorem slotWithConfirm_complete :
    1 ∈ acceptedBoundaries followerSlot (slotWithConfirm 1).mBallotProtocol
        ⟨1, [1]⟩ ∧
      FindsAcceptedCommit followerSlot (advanceSlot followerSlot)
        (slotWithConfirm 1) (statementOf 1 (confirmFrom 1)) := by
  refine ⟨⟨by decide, by decide, by decide +kernel⟩, ?_⟩
  refine (attemptAcceptCommit_complete_iff _ _ _ _ rfl).mpr ?_
  rintro ballot hinted ⟨boundary, _⟩
  cases hinted
  revert boundary
  decide

/-- Two nodes that need one another; node 1 claims that commits from 0 to 1
are accepted. -/
def zeroCommitRun : Process :=
  runInputs (smallSlot ⟨2, [0, 1], []⟩) [receiveFrom 1 (confirmFrom 0)]

/-- The statement is sane and the commit of `(1, [1])` is accepted, but the
node stays in PREPARE. -/
theorem zeroCommit_hides :
    arePledgesSane (confirmFrom 0) false = true ∧
    zeroCommitRun.failure = none ∧
    1 ∈ acceptedBoundaries (smallSlot ⟨2, [0, 1], []⟩)
      zeroCommitRun.slot.mBallotProtocol ⟨1, [1]⟩ ∧
    ¬ FindsAcceptedCommit (smallSlot ⟨2, [0, 1], []⟩)
      (advanceSlot (smallSlot ⟨2, [0, 1], []⟩)) zeroCommitRun.slot
      (statementOf 1 (confirmFrom 0)) := by
  have prepare : zeroCommitRun.slot.mBallotProtocol.mPhase = .prepare := by
    decide +kernel
  have boundaries : getCommitBoundariesFromStatements
      zeroCommitRun.slot.mBallotProtocol ⟨1, [1]⟩ = [0, 1] := by
    decide +kernel
  have one : 1 ∈ acceptedBoundaries (smallSlot ⟨2, [0, 1], []⟩)
      zeroCommitRun.slot.mBallotProtocol ⟨1, [1]⟩ := by
    refine ⟨?_, by decide, by decide +kernel⟩
    rw [boundaries]
    decide
  refine ⟨by decide, by decide +kernel, one, ?_⟩
  intro finds
  obtain ⟨n, c, _, _, arrives⟩ := finds.1 ⟨1, one⟩
  apply not_changesNothing_of_arrives arrives
  have hinted : commitHint (statementOf 1 (confirmFrom 0)) =
      some ⟨1, [1]⟩ := rfl
  apply acceptsFromZero_hides prepare hinted
  refine ⟨?_, 1, ⟨one, ?_⟩, by decide +kernel⟩
  · rw [boundaries]
    decide
  · rintro other ⟨member, _⟩
    rw [boundaries] at member
    rcases List.mem_cons.mp member with zero | later
    · rw [zero]
      decide
    · rw [List.mem_singleton.mp later]

end StellarCore.Scp
