import StellarCore.Scp.Moves

/-!
# The attempts of `advanceSlot`

Each attempt is visited, looks for something to do and makes at most one
transition.  The body of `advanceSlot` runs the attempts one after the other,
so that the later ones can rely on what the search for prepared ballots has
left behind.  Induction over the nesting level closes the recursion.
-/

namespace StellarCore.Scp

open StellarCore.Lib

/-- A path that externalizes nothing once the slot has ended. -/
structure Progress (config : SlotConfig) (environment : Environment)
    (start finish : SlotView) : Prop where
  path : Path config environment.silent start finish
  ended : start.ballots.phase = .externalize →
    finish.externalized = start.externalized

section Attempts

variable {config : SlotConfig} {environment : Environment} {slot : Slot}
  {advanceSlot : SCPStatement → BallotM Unit} {hint : SCPStatement}

theorem Progress.trans {start middle finish : SlotView}
    (first : Progress config environment start middle)
    (second : Progress config environment middle finish)
    (stable : start.Stable config) :
    Progress config environment start finish := by
  refine ⟨first.path.trans second.path, ?_⟩
  intro ended
  rw [second.ended ((first.path.later stable).externalize ended),
    first.ended ended]

theorem Progress.of_running {start finish : SlotView}
    (path : Path config environment.silent start finish)
    (running : start.ballots.phase ≠ .externalize) :
    Progress config environment start finish :=
  ⟨path, fun ended => absurd ended running⟩

variable (config environment) in
theorem Slot.visiting_step (slot : Slot) (attempt : Attempt) :
    Step config environment slot.view (slot.visiting attempt).view :=
  .visit attempt slot.mBallotProtocol rfl rfl

variable (config environment) in
theorem Slot.visiting_progress (slot : Slot) (attempt : Attempt) :
    Progress config environment slot.view (slot.visiting attempt).view :=
  ⟨.single (Slot.visiting_step config environment.silent slot attempt),
    fun _ => rfl⟩

theorem Slot.visiting_visited (slot : Slot) (attempt : Attempt) :
    (slot.visiting attempt).view.Visited attempt
      (slot.visiting attempt).mBallotProtocol := by
  refine ⟨?_, rfl, rfl⟩
  show _ ∈ slot.visits ++ [_]
  exact List.mem_append_right _ (List.mem_singleton.mpr rfl)

/-- The tests of `attemptPreparedAccept` before a vote is counted. -/
structure SkipTest (ballots : Ballots) (ballot : SCPBallot)
    (skips : Bool) : Prop where
  raises : skips = false → ballots.Raises ballot
  compatible : skips = false → ballots.phase = .confirm →
    ∃ p c, ballots.prepared = some p ∧ ballots.commit = some c ∧
      p ≤ ballot ∧ p.value = ballot.value ∧ c.value = ballot.value
  refused : skips = true → ballots.phase = .prepare →
    ¬ ballots.Raises ballot

/-- A ballot that does not raise the prepared pair lies below `p`. -/
theorem le_prepared_of_not_raises {ballots : Ballots} {ballot : SCPBallot}
    (refused : ¬ ballots.Raises ballot) (pair : ballots.PairOrdered) :
    ∃ p, ballots.prepared = some p ∧ ballot ≤ p := by
  by_contra notBelow
  refine refused ⟨?_, ?_⟩
  · intro p' prime
    obtain ⟨p, prepared, above, _⟩ := pair p' prime
    by_contra notAbove
    exact notBelow ⟨p, prepared, (not_lt.mp notAbove).trans above.le⟩
  · intro p prepared covered
    exact notBelow ⟨p, prepared, covered.1⟩

/-- The last test of `skipsPreparedAccept` looks at `p` and `p'`. -/
theorem skips_iff_not_raises (bp : BallotProtocol)
    (ballot : SCPBallot) :
    (bp.mPreparedPrime.any
        (fun prime => decide (compareBallots ballot prime ≤ 0)) ||
      bp.mPrepared.any (areBallotsLessAndCompatible ballot)) = true ↔
      ¬ bp.ballots.Raises ballot := by
  rw [Bool.or_eq_true, Option.any_eq_true, Option.any_eq_true]
  constructor
  · rintro skips raises
    rcases skips with ⟨p', set, below⟩ | ⟨p, set, below⟩
    · exact absurd (raises.above p' set) (not_lt.mpr
        (compareBallots_nonpos_iff.mp (of_decide_eq_true below)))
    · exact raises.notCovered p set (areBallotsLessAndCompatible_iff.mp below)
  · intro refused
    by_contra passes
    rw [not_or] at passes
    refine refused ⟨?_, ?_⟩
    · intro p' set
      by_contra notAbove
      exact passes.1 ⟨p', set, decide_eq_true
        (compareBallots_nonpos_iff.mpr (not_lt.mp notAbove))⟩
    · intro p set covered
      exact passes.2 ⟨p, set, areBallotsLessAndCompatible_iff.mpr covered⟩

theorem skipsPreparedAccept_ends (ballot : SCPBallot)
    (stable : slot.view.Stable config) :
    Ends (skipsPreparedAccept slot.mBallotProtocol ballot) slot
      (fun skips finish => finish = slot ∧
        SkipTest slot.view.ballots ballot skips)
      (Crashed config environment slot.view) := by
  have test := skips_iff_not_raises slot.mBallotProtocol ballot
  unfold skipsPreparedAccept
  by_cases confirm : slot.mBallotProtocol.mPhase = .confirm
  · have started : slot.view.ballots.phase ≠ .prepare := by
      intro prepare
      have phase : slot.mBallotProtocol.mPhase = .prepare := prepare
      rw [confirm] at phase
      cases phase
    obtain ⟨p, prepared⟩ := Option.ne_none_iff_exists'.mp
      (stable.sound.confirmed started).1
    obtain ⟨c, commit⟩ := Option.ne_none_iff_exists'.mp
      (stable.sound.consistent.confirmed started)
    have preparedSet : slot.mBallotProtocol.mPrepared = some p := prepared
    have commitSet : slot.mBallotProtocol.mCommit = some c := commit
    simp only [if_pos confirm, Ends.bind_iff, dereference_ends, Ends.ite_iff,
      Ends.pure_iff, dbgAssert_ends, preparedSet, commitSet,
      Option.some.injEq, forall_eq', reduceCtorEq, false_implies, and_true]
    refine ⟨?_, ?_⟩
    · intro _
      exact ⟨trivial, fun impossible => (by cases impossible),
        fun impossible => (by cases impossible),
        fun _ prepare => absurd prepare started⟩
    · intro above
      have raised : p ≤ ballot ∧ p.value = ballot.value := by
        simpa [areBallotsLessAndCompatible, compareBallots_nonpos_iff]
          using above
      refine ⟨?_, ?_⟩
      · intro agrees
        have same := areBallotsCompatible_iff.mp agrees
        refine ⟨trivial, ?_, ?_, fun _ prepare => absurd prepare started⟩
        · intro passes
          by_contra refused
          have skips := test.mpr refused
          rw [preparedSet] at skips
          exact absurd (skips.symm.trans passes) (by simp)
        · intro _ _
          exact ⟨p, c, prepared, commit, raised.1, raised.2, same⟩
      · intro differs
        refine ⟨slot.view, .refl, .refl _, confirm, p, c,
          prepared, commit, ?_⟩
        intro same
        rw [areBallotsCompatible, decide_eq_false_iff_not] at differs
        exact differs (same.symm.trans raised.2)
  · simp only [if_neg confirm, Ends.pure_iff]
    refine ⟨trivial, ?_, fun _ phase => absurd phase confirm,
      fun skips _ => test.mp skips⟩
    intro passes
    by_contra refused
    exact absurd ((test.mpr refused).symm.trans passes) (by simp)

/-- What `attemptPreparedAccept` leaves for the attempts after it. -/
structure Sought (config : SlotConfig) (environment : Environment)
    (hint : SCPStatement) (start finish : SlotView) : Prop where
  progress : Progress config environment start finish
  searched : Searched config hint start finish
  settled : config.selfSlice = true → start.ballots.phase = .prepare →
    finish.ballots.high ≠ none ∨ finish.envelopes = start.envelopes

theorem le_withPrepared {ballots : Ballots} {ballot : SCPBallot}
    (raises : ballots.Raises ballot) (ordered : ballots.PairOrdered) :
    ∃ p, (ballots.acceptPrepared ballot).prepared = some p ∧
      ballot ≤ p := by
  rw [Ballots.acceptPrepared_prepared]
  rcases raises.cases ordered with
    ⟨_, _, result⟩ | ⟨p, _, _, result⟩ | ⟨p, set, less, _, result⟩
  · exact ⟨ballot, by rw [result], le_refl _⟩
  · exact ⟨ballot, by rw [result], le_refl _⟩
  · exact ⟨p, by rw [result]; exact set, less.le⟩

/-- A higher prepared pair makes another statement. -/
theorem pledges_ne_of_pair {before after : Ballots}
    (prepare : before.phase = .prepare) (same : after.phase = .prepare)
    (less : before.pair < after.pair) :
    after.pledges config ≠ before.pledges config := by
  intro equal
  simp only [Ballots.pledges, prepare, same, Option.some.injEq,
    Pledges.prepare.injEq, Prepare.mk.injEq] at equal
  obtain ⟨_, _, prepared, prime, _⟩ := equal
  rw [Ballots.pair, Ballots.pair, prepared, prime] at less
  exact absurd less (lt_irrefl _)

/-- What is below `p` stays below it. -/
theorem le_prepared_of_later {before after : Ballots}
    (later : before.Later after) {ballot p : SCPBallot}
    (set : before.prepared = some p) (below : ballot ≤ p) :
    ∃ p', after.prepared = some p' ∧ ballot ≤ p' := by
  have grows := later.prepared
  rw [set] at grows
  cases prepared : after.prepared with
  | none => simp [prepared, pointerRank] at grows
  | some p' =>
      rw [prepared] at grows
      exact ⟨p', rfl, below.trans (WithBot.coe_le_coe.mp grows)⟩

/-- The loop of `attemptPreparedAccept`, after it has passed the candidates
of `before` without accepting one. -/
private theorem attemptPreparedAcceptFrom_ends
    (advances : Advances config environment advanceSlot)
    (stable : slot.view.Stable config)
    (visited : slot.view.Visited (.preparedAccept hint)
      slot.mBallotProtocol)
    (recorded : hint ∈ slot.view.history)
    (running : slot.view.ballots.phase ≠ .externalize)
    (before rest : List SCPBallot)
    (split : (getPrepareCandidates slot.mBallotProtocol hint).reverse =
      before ++ rest)
    (passed : ∀ ballot ∈ before,
      acceptsPrepared config slot.mBallotProtocol ballot = true →
        slot.view.ballots.phase = .prepare →
        ¬ slot.view.ballots.Raises ballot) :
    Ends (attemptPreparedAcceptFrom config advanceSlot
        slot.mBallotProtocol rest) slot
      (fun _ finish =>
        Sought config environment hint slot.view finish.view)
      (Crashed config environment slot.view) := by
  have members : ∀ ballot, ballot ∈
      getPrepareCandidates slot.mBallotProtocol hint ↔
        ballot ∈ before ++ rest := by
    intro ballot
    rw [← split, List.mem_reverse]
  have anyProtocol : ∀ bp : BallotProtocol,
      bp.mLatestEnvelopes = slot.view.envelopes →
        getPrepareCandidates bp hint =
            getPrepareCandidates slot.mBallotProtocol hint ∧
          acceptsPrepared config bp =
            acceptsPrepared config slot.mBallotProtocol := by
    intro bp same
    have maps : bp.mLatestEnvelopes =
        slot.mBallotProtocol.mLatestEnvelopes := same
    constructor
    · unfold getPrepareCandidates
      rw [maps]
    · unfold acceptsPrepared
      rw [maps]
  induction rest generalizing before with
  | nil =>
      unfold attemptPreparedAcceptFrom
      rw [Ends.pure_iff]
      refine ⟨⟨.refl, fun _ => rfl⟩, ⟨?_, fun _ => rfl⟩, fun _ _ => .inr rfl⟩
      intro prepare bp same ballot candidate accepts
      obtain ⟨candidates, acceptance⟩ := anyProtocol bp same
      rw [candidates, members, List.append_nil] at candidate
      rw [acceptance] at accepts
      exact le_prepared_of_not_raises
        (passed ballot candidate accepts prepare) stable.sound.pair
  | cons ballot rest ih =>
      unfold attemptPreparedAcceptFrom
      simp only [Ends.bind_iff]
      refine (skipsPreparedAccept_ends ballot stable).mono ?_
        (fun _ _ fails => fails)
      rintro skips slot' ⟨rfl, test⟩
      have resume : (acceptsPrepared config slot'.mBallotProtocol ballot =
            true → slot'.view.ballots.phase = .prepare →
          ¬ slot'.view.ballots.Raises ballot) →
          Ends (attemptPreparedAcceptFrom config advanceSlot
              slot'.mBallotProtocol rest) slot'
            (fun _ finish =>
              Sought config environment hint slot'.view finish.view)
            (Crashed config environment slot'.view) := by
        intro here
        refine ih (before ++ [ballot]) (by simp [split]) ?_
          (by simpa using members)
        intro other member
        rcases List.mem_append.mp member with earlier | last
        · exact passed other earlier
        · rw [List.mem_singleton.mp last]
          exact here
      simp only [Ends.ite_iff]
      refine ⟨fun skipped => resume (fun _ => test.refused skipped), ?_⟩
      intro notSkipped
      have passes : skips = false := by simpa using notSkipped
      refine ⟨?_, fun rejects => resume (fun accepts =>
        absurd accepts rejects)⟩
      intro accepts
      have candidate : ballot ∈
          getPrepareCandidates slot'.mBallotProtocol hint := by
        simp [members]
      have raises := test.raises passes
      have descending := getPrepareCandidates_descending
        slot'.mBallotProtocol hint
      rw [split, List.pairwise_append] at descending
      have highest : slot'.view.ballots.phase = .prepare →
          ∀ other ∈ getPrepareCandidates slot'.mBallotProtocol hint,
            ballot < other →
              acceptsPrepared config slot'.mBallotProtocol other = true →
                ¬ slot'.view.ballots.Raises other := by
        intro prepare other otherCandidate above otherAccepts
        rw [members] at otherCandidate
        rcases List.mem_append.mp otherCandidate with earlier | here
        · exact passed other earlier otherAccepts prepare
        · rcases List.mem_cons.mp here with first | after
          · exact absurd above (by simp [first])
          · have lower := (List.pairwise_cons.mp descending.2.1).1 other after
            exact absurd above (not_lt.mpr lower.le)
      have transition : Transition config environment.silent slot'.view
          (slot'.view.ballots.acceptPrepared ballot)
          (slot'.view.accepted ++ [ballot]) :=
        .acceptPrepared hint slot'.mBallotProtocol ballot visited recorded
          running candidate raises (test.compatible passes) accepts highest
      refine (setPreparedAccept_ends advances stable raises transition).mono
        ?_ (fun _ _ fails => fails)
      intro _ finish published
      have later := published.later stable
      obtain ⟨p, prepared, above⟩ :=
        le_withPrepared raises stable.sound.pair
      have accepted := le_prepared_of_later later prepared above
      refine ⟨.of_running published.whole running, ⟨?_, ?_⟩, ?_⟩
      · intro prepare bp same other otherCandidate otherAccepts
        obtain ⟨candidates, acceptance⟩ := anyProtocol bp same
        rw [candidates, members] at otherCandidate
        rw [acceptance] at otherAccepts
        rcases List.mem_append.mp otherCandidate with earlier | later'
        · have whole := published.whole.later stable
          have phase : slot'.view.ballots.phase = .prepare := by
            by_contra started
            exact whole.not_prepare started prepare
          obtain ⟨p, set, below⟩ := le_prepared_of_not_raises
            (passed other earlier otherAccepts phase) stable.sound.pair
          exact le_prepared_of_later whole set below
        · obtain ⟨p, set, below⟩ := accepted
          refine ⟨p, set, le_trans ?_ below⟩
          rcases List.mem_cons.mp later' with first | after
          · exact le_of_eq first
          · exact ((List.pairwise_cons.mp descending.2.1).1 other
              after).le
      · intro unset
        obtain ⟨p, set, _⟩ := accepted
        rw [unset] at set
        cases set
      · intro selfSlice prepare
        left
        refine published.settled selfSlice ?_ ?_ ?_
        · rw [Ballots.acceptPrepared_phase]
          exact prepare
        · rw [prepared]
          exact Option.some_ne_none p
        · refine pledges_ne_of_pair prepare ?_ ?_
          · rw [Ballots.acceptPrepared_phase]
            exact prepare
          · rw [Ballots.acceptPrepared_pair]
            exact (Ballots.withPrepared_raises raises
              stable.sound.pair).1

theorem attemptPreparedAccept_ends
    (advances : Advances config environment advanceSlot)
    (stable : slot.view.Stable config)
    (recorded : hint ∈ slot.view.history) :
    Ends (attemptPreparedAccept config advanceSlot hint) slot
      (fun _ finish =>
        Sought config environment hint slot.view finish.view)
      (Crashed config environment slot.view) := by
  unfold attemptPreparedAccept
  rw [visiting_ends]
  simp only [Ends.ite_iff, Ends.pure_iff]
  have visit := Slot.visiting_progress config environment slot
    (.preparedAccept hint)
  refine ⟨?_, ?_⟩
  · rintro ⟨notPrepare, _⟩
    refine ⟨visit, ⟨?_, fun _ => rfl⟩, fun _ _ => .inr rfl⟩
    intro prepare
    exact absurd prepare notPrepare
  · intro active
    have running : slot.view.ballots.phase ≠ .externalize := by
      intro ended
      have phase : slot.mBallotProtocol.mPhase = .externalize := ended
      exact active ⟨by simp [phase], by simp [phase]⟩
    have middleStable := visit.path.stable stable
    refine (attemptPreparedAcceptFrom_ends advances middleStable
      (slot.visiting_visited _) recorded running [] _ rfl
      (fun _ member => absurd member List.not_mem_nil)).mono ?_ ?_
    · intro _ finish sought
      exact ⟨visit.trans sought.progress stable,
        ⟨sought.searched.accepted, sought.searched.unchanged⟩,
        sought.settled⟩
    · intro _ _ crashed
      exact crashed.after visit.path

/-- A node that is a slice by itself ratifies its own `p`. -/
theorem ratifies_of_selfSlice {view : SlotView} {bp : BallotProtocol}
    {p : SCPBallot} (stable : view.Stable config)
    (envelopes : bp.mLatestEnvelopes = view.envelopes)
    (selfSlice : config.selfSlice = true)
    (latest : view.OwnLatest config hint)
    (prepare : view.ballots.phase = .prepare)
    (prepared : view.ballots.prepared = some p) :
    p ∈ getPrepareCandidates bp hint ∧
      ratifiesPrepared config bp p = true := by
  obtain ⟨envelope, own, equal⟩ := latest
  obtain ⟨pledges, built, created⟩ := stable.own envelope own
  simp only [Ballots.pledges, prepare, Option.some.injEq] at built
  have pledged : hint.pledges = pledges := by rw [← equal, created]; rfl
  have top : p ∈ hintBallots hint := by
    simp [hintBallots, pledged, ← built, prepared]
  have lookup : bp.mLatestEnvelopes.lookup config.getLocalNodeID =
      some envelope := by rw [envelopes, own]
  refine ⟨mem_getPrepareCandidates.mpr ⟨p, top, _, envelope, lookup, ?_⟩, ?_⟩
  · rw [equal]
    exact hintBallots_candidates top
  · unfold SlotConfig.selfSlice at selfSlice
    rw [Bool.and_eq_true, Option.any_eq_true] at selfSlice
    obtain ⟨local_, qSet, known, slice⟩ := selfSlice
    refine isQuorum_iff.mpr ⟨[config.getLocalNodeID], ⟨?_, ?_⟩, local_⟩
    · intro node inside
      rw [List.mem_singleton.mp inside]
      refine ⟨envelope, lookup, ?_⟩
      simp [hasPreparedBallot, equal, pledged, ← built, prepared]
    · intro node inside
      rw [List.mem_singleton.mp inside]
      refine ⟨envelope, qSet, lookup, ?_, slice⟩
      simp [SlotConfig.getQuorumSetFromStatement, equal, pledged, ← built,
        known]

/-- With `h` unset the loop for `newH` finds a ratified candidate. -/
theorem findNewH_ne_none {bp : BallotProtocol} {ballots : List SCPBallot}
    {ballot : SCPBallot} (unset : bp.mHighBallot = none)
    (member : ballot ∈ ballots)
    (ratified : ratifiesPrepared config bp ballot = true) :
    findNewH config bp ballots ≠ none := by
  induction ballots with
  | nil => cases member
  | cons first rest ih =>
      unfold findNewH
      simp only [unset, Option.any_none, Bool.false_eq_true, if_false]
      split
      · exact Option.some_ne_none _
      · rename_i unratified
        rcases List.mem_cons.mp member with here | later
        · rw [← here] at unratified
          exact absurd ratified unratified
        · exact ih later

/-- What `attemptPreparedConfirmed` leaves for the attempts after it. -/
structure Confirmed (config : SlotConfig) (environment : Environment)
    (hint : SCPStatement) (start finish : SlotView) : Prop where
  progress : Progress config environment start finish
  unset : start.ballots.prepared = none →
    finish.envelopes = start.envelopes
  settled : config.selfSlice = true → start.OwnLatest config hint →
    start.ballots.phase = .prepare → start.ballots.prepared ≠ none →
    finish.ballots.high ≠ none

theorem attemptPreparedConfirmed_ends
    (advances : Advances config environment advanceSlot)
    (stable : slot.view.Stable config)
    (recorded : hint ∈ slot.view.history)
    (bounded : slot.view.ballots.phase = .prepare →
      ∀ ballot ∈ getPrepareCandidates slot.mBallotProtocol hint,
        ratifiesPrepared config slot.mBallotProtocol ballot = true →
          ∃ p, slot.view.ballots.prepared = some p ∧ ballot ≤ p)
    (latest : config.selfSlice = true →
      hint.nodeID = config.getLocalNodeID →
      slot.view.ballots.phase = .prepare → slot.view.ballots.high = none →
      slot.view.OwnLatest config hint) :
    Ends (attemptPreparedConfirmed config advanceSlot hint) slot
      (fun _ finish =>
        Confirmed config environment hint slot.view finish.view)
      (Crashed config environment slot.view) := by
  unfold attemptPreparedConfirmed
  rw [visiting_ends]
  simp only [Ends.ite_iff, Ends.pure_iff]
  have visit := Slot.visiting_progress config environment slot
    (.preparedConfirmed hint)
  have middleStable := visit.path.stable stable
  refine ⟨?_, ?_⟩
  · intro started
    exact ⟨visit, fun _ => rfl, fun _ _ prepare => absurd prepare started⟩
  · intro notStarted
    have prepare : slot.view.ballots.phase = .prepare :=
      not_not.mp notStarted
    have running : slot.view.ballots.phase ≠ .externalize := by
      simp [prepare]
    refine ⟨?_, ?_⟩
    · intro none
      refine ⟨visit, fun _ => rfl, fun _ _ _ set => absurd ?_ set⟩
      exact Option.isNone_iff_eq_none.mp none
    · intro notNone
      have set : slot.view.ballots.prepared ≠ none := fun unset =>
        notNone (Option.isNone_iff_eq_none.mpr unset)
      cases found : findNewH config slot.mBallotProtocol
          (getPrepareCandidates slot.mBallotProtocol hint).reverse with
      | none =>
          refine ⟨visit, fun _ => rfl, ?_⟩
          intro selfSlice own _ _ unset
          obtain ⟨p, prepared⟩ := Option.ne_none_iff_exists'.mp set
          obtain ⟨candidate, ratified⟩ :=
            ratifies_of_selfSlice stable rfl selfSlice own prepare prepared
          exact findNewH_ne_none unset (List.mem_reverse.mpr candidate)
            ratified found
      | some result =>
          obtain ⟨newH, candidates⟩ := result
          obtain ⟨skipped, tail, split, first, _, ratified, above⟩ :=
            findNewH_some found
          have candidate : newH ∈
              getPrepareCandidates slot.mBallotProtocol hint := by
            rw [← List.mem_reverse, split, first]
            simp
          have transition : Transition config environment.silent
              (slot.visiting (.preparedConfirmed hint)).view
              (slot.view.ballots.confirmPrepared
                (searchNewC config slot.mBallotProtocol newH candidates)
                newH) slot.view.accepted :=
            .confirmPrepared hint slot.mBallotProtocol newH candidates
              (slot.visiting_visited _) recorded prepare found
              (bounded prepare newH candidate ratified)
              (fun selfSlice own unset =>
                latest selfSlice own prepare unset)
          refine (setPreparedConfirmed_ends advances middleStable above
            transition).mono ?_ ?_
          · intro _ finish published
            refine ⟨visit.trans (.of_running published.whole running) stable,
              fun unset => absurd unset set, ?_⟩
            intro _ _ _ _
            exact (published.later middleStable).high
              (by simp [Ballots.confirmPrepared])
          · intro _ _ crashed
            exact crashed.after visit.path

theorem attemptAcceptCommit_ends
    (advances : Advances config environment advanceSlot)
    (stable : slot.view.Stable config)
    (recorded : hint ∈ slot.view.history)
    (supplied : slot.view.ballots.phase = .prepare → ∀ ballot cur,
      commitHint hint = some ballot →
      acceptsCommit config slot.mBallotProtocol ballot cur = true →
        slot.view.ballots.prepared ≠ none) :
    Ends (attemptAcceptCommit config advanceSlot hint) slot
      (fun _ finish => Progress config environment slot.view finish.view)
      (Crashed config environment slot.view) := by
  unfold attemptAcceptCommit
  rw [visiting_ends]
  simp only [Ends.ite_iff, Ends.pure_iff]
  have visit := Slot.visiting_progress config environment slot
    (.acceptCommit hint)
  have middleStable := visit.path.stable stable
  refine ⟨fun _ => visit, ?_⟩
  intro active
  have running : slot.view.ballots.phase ≠ .externalize := by
    intro ended
    have phase : slot.mBallotProtocol.mPhase = .externalize := ended
    exact active ⟨by simp [phase], by simp [phase]⟩
  cases hinted : commitHint hint with
  | none => exact visit
  | some ballot =>
      let middle := slot.visiting (.acceptCommit hint)
      let interval := acceptedInterval config slot.mBallotProtocol ballot
      have accepts : interval.first ≠ 0 →
          (slot.view.ballots.phase = .confirm →
            ∃ high, slot.view.ballots.high = some high ∧
              ballot.value = high.value ∧
              high.counter < interval.second) →
          Ends (setAcceptCommit config advanceSlot
              ⟨interval.first, ballot.value⟩
              ⟨interval.second, ballot.value⟩) middle
            (fun _ finish =>
              Progress config environment slot.view finish.view)
            (Crashed config environment slot.view) := by
        intro found compatible
        have prepared : slot.view.ballots.prepared ≠ none := by
          by_cases prepare : slot.view.ballots.phase = .prepare
          · exact supplied prepare ballot interval hinted
              (acceptedInterval_holds found).2
          · exact (stable.sound.confirmed prepare).1
        have transition : Transition config environment.silent middle.view
            (middle.view.ballots.acceptCommit
              ⟨interval.first, ballot.value⟩
              ⟨interval.second, ballot.value⟩) middle.view.accepted :=
          .acceptCommit hint slot.mBallotProtocol ballot
            (slot.visiting_visited _) recorded running prepared hinted found
            compatible
        refine (setAcceptCommit_ends advances middleStable ?_ running
          transition).mono ?_ ?_
        · intro confirm same
          obtain ⟨high, set, _, less⟩ := compatible confirm
          have equal : high = ⟨interval.second, ballot.value⟩ :=
            Option.some.inj (set.symm.trans same)
          rw [equal] at less
          exact absurd less (lt_irrefl _)
        · intro _ finish published
          exact visit.trans (.of_running published.whole running) stable
        · intro _ _ crashed
          exact crashed.after visit.path
      simp only [Ends.ite_iff, Ends.bind_iff, dereference_ends,
        Ends.pure_iff]
      refine ⟨?_, ?_⟩
      · intro confirm
        refine ⟨?_, fun _ => .after visit.path
          (.of_plain (.refl _) (fun _ _ _ => trivial))⟩
        intro high set
        refine ⟨fun _ => visit, ?_⟩
        intro same
        refine ⟨fun _ => visit, ?_⟩
        intro found
        refine ⟨fun _ => visit, ?_⟩
        intro higher
        refine accepts found (fun _ => ⟨high, set, ?_, ?_⟩)
        · simpa [areBallotsCompatible] using same
        · simpa [confirm, set] using higher
      · intro notConfirm
        refine ⟨fun _ => visit, ?_⟩
        intro found
        refine ⟨fun _ => visit, ?_⟩
        intro _
        exact accepts found (fun confirm => absurd confirm notConfirm)

theorem attemptConfirmCommit_ends
    (advances : Advances config environment advanceSlot)
    (stable : slot.view.Stable config)
    (recorded : hint ∈ slot.view.history) :
    Ends (attemptConfirmCommit config advanceSlot hint) slot
      (fun _ finish => Progress config environment slot.view finish.view)
      (Crashed config environment slot.view) := by
  unfold attemptConfirmCommit
  rw [visiting_ends]
  simp only [Ends.ite_iff, Ends.pure_iff]
  have visit := Slot.visiting_progress config environment slot
    (.confirmCommit hint)
  have middleStable := visit.path.stable stable
  refine ⟨fun _ => visit, ?_⟩
  intro active
  have confirm : slot.view.ballots.phase = .confirm := not_not.mp active
  have running : slot.view.ballots.phase ≠ .externalize := by
    simp [confirm]
  split
  · rename_i high commit highSet commitSet
    split
    · exact visit
    · exact visit
    · rename_i ballot hinted notPrepare
      simp only [Ends.ite_iff, Ends.pure_iff]
      refine ⟨fun _ => visit, ?_⟩
      intro agrees
      refine ⟨fun _ => visit, ?_⟩
      intro found
      have same : ballot.value = commit.value := by
        simpa [areBallotsCompatible] using agrees
      have transition : Transition config environment.silent
          (slot.visiting (.confirmCommit hint)).view
          (slot.view.ballots.confirmCommit
            ⟨(confirmedInterval config slot.mBallotProtocol ballot).first,
              ballot.value⟩
            ⟨(confirmedInterval config slot.mBallotProtocol ballot).second,
              ballot.value⟩) slot.view.accepted :=
        .confirmCommit hint slot.mBallotProtocol ballot commit
          (slot.visiting_visited _) recorded confirm commitSet hinted same
          found
      refine (setConfirmCommit_ends advances middleStable transition).mono
        ?_ ?_
      · intro _ finish path
        exact visit.trans (.of_running path running) stable
      · intro _ _ crashed
        exact crashed.after visit.path
  · exact visit

theorem attemptBump_ends
    (advances : Advances config environment advanceSlot)
    (stable : slot.view.Stable config) :
    Ends (attemptBump config advanceSlot) slot
      (fun _ finish => Progress config environment slot.view finish.view)
      (Crashed config environment slot.view) := by
  unfold attemptBump
  rw [visiting_ends]
  simp only [Ends.ite_iff, Ends.pure_iff]
  have visit := Slot.visiting_progress config environment slot .bump
  have middleStable := visit.path.stable stable
  refine ⟨fun _ => visit, ?_⟩
  intro _
  split
  · exact visit
  · refine (abandonBallot_ends advances middleStable).mono ?_ ?_
    · intro _ finish moved
      refine visit.trans ⟨moved.path, ?_⟩ stable
      intro ended
      rw [moved.ended ended]
    · intro _ _ crashed
      exact crashed.after visit.path

theorem bumpLoop_ends
    (advances : Advances config environment advanceSlot)
    (turns : Nat) (didWork : Bool) (stable : slot.view.Stable config) :
    Ends (bumpLoop config advanceSlot turns didWork) slot
      (fun _ finish => Progress config environment slot.view finish.view)
      (Crashed config environment slot.view) := by
  induction turns generalizing slot didWork with
  | zero =>
      unfold bumpLoop
      rw [Ends.throw_iff]
      exact .of_plain (.refl _) (fun _ _ _ => trivial)
  | succ turns ih =>
      unfold bumpLoop
      simp only [Ends.bind_iff, Ends.ite_iff, Ends.pure_iff]
      refine (attemptBump_ends advances stable).mono ?_
        (fun _ _ fails => fails)
      intro didBump middle first
      refine ⟨fun _ => ?_, fun _ => first⟩
      refine (ih true (first.path.stable stable)).mono ?_ ?_
      · intro _ finish second
        exact first.trans second stable
      · intro _ _ crashed
        exact crashed.after first.path

/-! ## The body of `advanceSlot` -/

theorem prepare_of_later {before after : Ballots}
    (later : before.Later after) (prepare : after.phase = .prepare) :
    before.phase = .prepare := by
  by_contra started
  exact later.not_prepare started prepare

theorem ownLatest_of_holds {view : SlotView} (stable : view.Stable config)
    (held : Holds view.envelopes hint)
    (own : hint.nodeID = config.getLocalNodeID) :
    view.OwnLatest config hint := by
  obtain ⟨node, envelope, lookup, equal⟩ := held
  have key : node = config.getLocalNodeID := by
    rw [← stable.keyed node envelope lookup, equal, own]
  exact ⟨envelope, key ▸ lookup, equal⟩

theorem high_ne_none_of_started {ballots : Ballots}
    (sound : ballots.Sound) (started : ballots.phase ≠ .prepare) :
    ballots.high ≠ none := by
  obtain ⟨c, commit⟩ := Option.ne_none_iff_exists'.mp
    (sound.consistent.confirmed started)
  obtain ⟨h, _, high, _⟩ := sound.consistent.commit c commit
  rw [high]
  exact Option.some_ne_none h

/-- The four attempts in a row. -/
private theorem attemptSteps_ends
    (advances : Advances config environment advanceSlot)
    (stable : slot.view.Stable config)
    (held : Holds slot.view.envelopes hint) :
    Ends (attemptSteps config advanceSlot hint) slot
      (fun _ finish =>
        Advanced config environment hint slot.view finish.view)
      (Crashed config environment slot.view) := by
  unfold attemptSteps
  simp only [Ends.bind_iff, Ends.pure_iff]
  obtain ⟨node, envelope, lookup, equal⟩ := held
  have recorded : hint ∈ slot.view.history :=
    equal ▸ stable.recorded node envelope lookup
  have held : Holds slot.view.envelopes hint :=
    ⟨node, envelope, lookup, equal⟩
  refine (attemptPreparedAccept_ends advances stable recorded).mono ?_
    (fun _ _ fails => fails)
  intro _ first sought
  have firstStable := sought.progress.path.stable stable
  have firstLater := sought.progress.path.later stable
  refine (attemptPreparedConfirmed_ends advances firstStable
    (sought.progress.path.history recorded) ?_ ?_).mono ?_
    (fun _ _ crashed => crashed.after sought.progress.path)
  · intro prepare ballot candidate ratified
    exact sought.searched.bounded held sought.progress.path firstStable
      prepare rfl candidate ratified
  · intro selfSlice own prepare unset
    rcases sought.settled selfSlice (prepare_of_later firstLater prepare)
      with set | same
    · exact absurd unset set
    · obtain ⟨latest, latestLookup, latestEqual⟩ :=
        ownLatest_of_holds stable held own
      exact ⟨latest, same ▸ latestLookup, latestEqual⟩
  · intro _ second confirmed
    have toSecond := sought.progress.trans confirmed.progress stable
    have secondStable := toSecond.path.stable stable
    have secondLater := confirmed.progress.path.later firstStable
    refine (attemptAcceptCommit_ends advances secondStable
      (toSecond.path.history recorded) ?_).mono ?_
      (fun _ _ crashed => crashed.after toSecond.path)
    · intro prepare ballot cur hinted accepts unset
      have firstUnset : first.view.ballots.prepared = none := by
        by_contra set
        obtain ⟨p, prepared⟩ := Option.ne_none_iff_exists'.mp set
        obtain ⟨p', later, _⟩ :=
          le_prepared_of_later secondLater prepared (le_refl p)
        rw [unset] at later
        cases later
      exact sought.searched.prepared_ne_none held
        (prepare_of_later secondLater prepare)
        (confirmed.unset firstUnset) hinted accepts firstUnset
    · intro _ third acceptCommit
      have toThird := toSecond.trans acceptCommit stable
      have thirdStable := toThird.path.stable stable
      refine (attemptConfirmCommit_ends advances thirdStable
        (toThird.path.history recorded)).mono ?_
        (fun _ _ crashed => crashed.after toThird.path)
      intro _ finish confirmCommit
      have whole := toThird.trans confirmCommit stable
      refine ⟨whole.path, whole.ended, ?_⟩
      intro selfSlice latest prepare prepared
      have fromSecond := (acceptCommit.trans confirmCommit
        secondStable).path.later secondStable
      refine fromSecond.high ?_
      rcases sought.settled selfSlice prepare with set | same
      · exact secondLater.high set
      · by_cases started : first.view.ballots.phase = .prepare
        · obtain ⟨own, ownLookup, ownEqual⟩ := latest
          refine confirmed.settled selfSlice ⟨own, same ▸ ownLookup,
            ownEqual⟩ started ?_
          obtain ⟨p, set⟩ := Option.ne_none_iff_exists'.mp prepared
          obtain ⟨p', later, _⟩ :=
            le_prepared_of_later firstLater set (le_refl p)
          rw [later]
          exact Option.some_ne_none p'
        · exact secondLater.high
            (high_ne_none_of_started firstStable.sound started)

private theorem checkHeardFromQuorum_ends
    {failed : Failure → Slot → Prop} :
    Ends (checkHeardFromQuorum config) slot
      (fun _ finish => finish.view = slot.view) failed := by
  unfold checkHeardFromQuorum
  simp only [Ends.bind_iff, getBallotProtocol_ends]
  split
  · simp only [Ends.ite_iff, Ends.bind_iff, modifyBallotProtocol_ends,
      callDriver_ends, Ends.pure_iff]
    exact ⟨fun _ => Slot.view_quiet _ rfl, fun _ => trivial⟩
  · simp

private theorem bumpAtFirstLevel_ends (didWork : Bool)
    (advances : Advances config environment advanceSlot)
    (stable : slot.view.Stable config) :
    Ends (bumpAtFirstLevel config advanceSlot didWork) slot
      (fun _ finish => Progress config environment slot.view finish.view)
      (Crashed config environment slot.view) := by
  unfold bumpAtFirstLevel
  simp only [Ends.bind_iff, getBallotProtocol_ends, Ends.ite_iff,
    Ends.pure_iff]
  exact ⟨fun _ => bumpLoop_ends advances _ didWork stable,
    fun _ => ⟨.refl, fun _ => rfl⟩⟩

/-- The body meets the specification if the recursive calls do. -/
theorem advanceSlotWith_ends
    (advances : Advances config environment advanceSlot) :
    Advances config environment (advanceSlotWith config advanceSlot) := by
  intro slot hint stable held
  unfold advanceSlotWith
  simp only [Ends.bind_iff, modifyBallotProtocol_ends,
    getBallotProtocol_ends, Ends.ite_iff, Ends.throw_iff, Ends.pure_iff]
  refine ⟨fun _ => .of_plain (.refl _) (fun _ _ _ => trivial),
    ?_⟩
  intro _
  refine checkHeardFromQuorum_ends.mono ?_ (fun _ _ fails => fails)
  intro _ heard same
  have heardView : heard.view = slot.view := same
  rw [← heardView] at stable held ⊢
  refine (attemptSteps_ends advances stable held).mono ?_
    (fun _ _ fails => fails)
  intro didWork middle advanced
  have middleStable := advanced.path.stable stable
  refine (bumpAtFirstLevel_ends didWork advances middleStable).mono ?_
    (fun _ _ crashed => crashed.after advanced.path)
  intro _ bumped progress
  have whole := Progress.trans ⟨advanced.path, advanced.ended⟩ progress
    stable
  have later := progress.path.later middleStable
  refine ⟨fun _ => ?_, fun _ => ⟨whole.path, whole.ended, ?_⟩⟩
  · refine (sendLatestEnvelope_ends config environment).mono ?_
      (fun _ _ fails => fails)
    intro _ finish handed
    refine ⟨whole.path.trans handed.path, ?_, ?_⟩
    · intro ended
      exact handed.externalized.trans (whole.ended ended)
    · intro selfSlice latest prepare prepared
      rw [handed.ballots]
      exact later.high
        (advanced.settled selfSlice latest prepare prepared)
  · intro selfSlice latest prepare prepared
    exact later.high (advanced.settled selfSlice latest prepare prepared)

theorem advanceSlotAt_ends (levels : Nat) :
    Advances config environment (advanceSlotAt config levels) := by
  induction levels with
  | zero =>
      intro slot hint stable held
      exact .of_plain (.refl _) (fun _ _ _ => trivial)
  | succ levels ih => exact advanceSlotWith_ends ih

end Attempts

theorem advanceSlot_ends (config : SlotConfig) (environment : Environment) :
    Advances config environment (advanceSlot config) :=
  advanceSlotAt_ends maxAdvanceSlotRecursion

end StellarCore.Scp
