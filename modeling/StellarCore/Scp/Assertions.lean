import StellarCore.Scp.Progression

/-!
# The assertions of the ballot protocol

Accepting a ballot as prepared, accepting and confirming a commit, and a bump
keep the ballots consistent, so `checkInvariants` passes after them.
`attemptPreparedConfirmed` does so only for suitable candidates: it takes the
highest ratified candidate for `h` and the lowest one of the ratified run
below it for `c`, and does not compare their values.
-/

namespace StellarCore.Scp

/-- The ballot `attemptPreparedConfirmed` confirms: the highest ratified
candidate, if it is above `h`. -/
@[mk_iff]
structure HighestRatified (config : SlotConfig) (bp : BallotProtocol)
    (hint : SCPStatement) (newH : SCPBallot) : Prop where
  ratified : ratifiesPrepared config bp newH = true
  highest : ∀ other ∈ getPrepareCandidates bp hint,
    ratifiesPrepared config bp other = true → other ≤ newH
  above : ∀ h ∈ bp.mHighBallot, h < newH

/-- The candidates from `newC` to `newH` are ratified, and the run does not
go on below `newC` and above `b`. -/
@[mk_iff]
structure LowestRatified (config : SlotConfig) (bp : BallotProtocol)
    (hint : SCPStatement) (newH newC : SCPBallot) : Prop where
  below : newC ≤ newH
  started : bp.mCurrentBallot.getD .zero ≤ newC
  run : ∀ other ∈ getPrepareCandidates bp hint, newC ≤ other →
    other ≤ newH → ratifiesPrepared config bp other = true
  lowest : ∀ other ∈ getPrepareCandidates bp hint, other < newC →
    bp.mCurrentBallot.getD .zero ≤ other →
    ∃ gap ∈ getPrepareCandidates bp hint, other ≤ gap ∧ gap < newC ∧
      ratifiesPrepared config bp gap = false

instance (config : SlotConfig) (bp : BallotProtocol) (hint : SCPStatement)
    (newH : SCPBallot) : Decidable (HighestRatified config bp hint newH) :=
  decidable_of_iff _ (highestRatified_iff config bp hint newH).symm

instance (config : SlotConfig) (bp : BallotProtocol) (hint : SCPStatement)
    (newH newC : SCPBallot) :
    Decidable (LowestRatified config bp hint newH newC) :=
  decidable_of_iff _ (lowestRatified_iff config bp hint newH newC).symm

/-- A state in which confirming a ballot as prepared is safe: the ballot can
become `b`, agrees with the commit vote there is, and with a new one. -/
def ConfirmsSafely (config : SlotConfig) (bp : BallotProtocol)
    (hint : SCPStatement) : Prop :=
  bp.mPhase = .prepare → bp.mPrepared ≠ none →
    ∀ newH ∈ getPrepareCandidates bp hint,
      HighestRatified config bp hint newH →
        (bp.mCurrentBallot = none → newH.counter ≠ 0) ∧
        (∀ c ∈ bp.mCommit, c.value = newH.value) ∧
        (mayVoteCommit bp newH = true →
          ∀ newC ∈ getPrepareCandidates bp hint,
            LowestRatified config bp hint newH newC →
              newC.counter = 0 ∨ newC.value = newH.value)

instance (config : SlotConfig) (bp : BallotProtocol) (hint : SCPStatement) :
    Decidable (ConfirmsSafely config bp hint) :=
  inferInstanceAs (Decidable (_ → _))

/-- Where the attempt is to confirm a ballot as prepared, it is safe. -/
def Visit.ConfirmsSafely (config : SlotConfig) (visit : Visit) : Prop :=
  match visit.attempt with
  | .preparedConfirmed hint =>
      Scp.ConfirmsSafely config visit.ballotProtocol hint
  | _ => True

instance (config : SlotConfig) :
    (visit : Visit) → Decidable (visit.ConfirmsSafely config)
  | ⟨.preparedConfirmed hint, bp⟩ =>
      inferInstanceAs (Decidable (Scp.ConfirmsSafely config bp hint))
  | ⟨.preparedAccept _, _⟩ => .isTrue trivial
  | ⟨.acceptCommit _, _⟩ => .isTrue trivial
  | ⟨.confirmCommit _, _⟩ => .isTrue trivial
  | ⟨.bump, _⟩ => .isTrue trivial
  | ⟨.idle, _⟩ => .isTrue trivial

/-! ## What the searches for `h` and `c` find -/

section Loops

variable {config : SlotConfig} {bp : BallotProtocol} {hint : SCPStatement}
  {newH : SCPBallot} {candidates : List SCPBallot}

/-- The loop for `newC` follows the ratified candidates down to `b`. -/
theorem findNewC_run (b newC : SCPBallot) (ballots : List SCPBallot) :
    ∃ run rest, ballots = run ++ rest ∧
      (∀ ballot ∈ run, ratifiesPrepared config bp ballot = true ∧
        b ≤ ballot) ∧
      findNewC config bp b newC ballots = run.getLast?.getD newC ∧
      ∀ first ∈ rest.head?, first < b ∨
        ratifiesPrepared config bp first = false := by
  induction ballots generalizing newC with
  | nil => exact ⟨[], [], rfl, by simp, rfl, by simp⟩
  | cons ballot ballots ih =>
      unfold findNewC
      by_cases below : compareBallots ballot b < 0
      · refine ⟨[], ballot :: ballots, rfl, by simp, by simp [below], ?_⟩
        intro first isFirst
        cases isFirst
        exact .inl (compareBallots_neg_iff.mp below)
      · rw [if_neg below]
        by_cases ratified : ratifiesPrepared config bp ballot = true
        · rw [if_pos ratified]
          obtain ⟨run, rest, split, inside, result, stop⟩ := ih ballot
          refine ⟨ballot :: run, rest, by simp [split], ?_, ?_, stop⟩
          · intro other member
            rcases List.mem_cons.mp member with here | later
            · rw [here]
              exact ⟨ratified,
                not_lt.mp (fun less => below
                  (compareBallots_neg_iff.mpr less))⟩
            · exact inside other later
          · rw [result, List.getLast?_cons, Option.getD_some]
        · rw [if_neg ratified]
          refine ⟨[], ballot :: ballots, rfl, by simp, rfl, ?_⟩
          intro first isFirst
          cases isFirst
          exact .inr (by simpa using ratified)

theorem findNewH_highest
    (found : findNewH config bp (getPrepareCandidates bp hint).reverse =
      some (newH, candidates)) :
    newH ∈ getPrepareCandidates bp hint ∧
      HighestRatified config bp hint newH := by
  obtain ⟨skipped, tail, split, first, unratified, ratified, above⟩ :=
    findNewH_some found
  have descending := getPrepareCandidates_descending bp hint
  rw [split, first] at descending
  refine ⟨?_, ratified, ?_, above⟩
  · rw [← List.mem_reverse, split, first]
    simp
  · intro other member accepted
    rw [← List.mem_reverse, split, first] at member
    rcases List.mem_append.mp member with before | after
    · rw [unratified other before] at accepted
      cases accepted
    · rcases List.mem_cons.mp after with here | later
      · exact le_of_eq here
      · have ordered := (List.pairwise_append.mp descending).2.1
        exact ((List.pairwise_cons.mp ordered).1 other later).le

/-- Where the candidates, from the highest to the lowest, are cut at a
ratified run and at the end of it, the end of the run is its lowest. -/
private theorem lowestRatified_of_split
    {skipped front rest : List SCPBallot} {newC : SCPBallot}
    (whole : (getPrepareCandidates bp hint).reverse =
      skipped ++ (front ++ [newC] ++ rest))
    (top : newH ∈ front ++ [newC]) (below : newC ≤ newH)
    (inside : ∀ ballot ∈ front ++ [newC],
      ratifiesPrepared config bp ballot = true ∧
        bp.mCurrentBallot.getD .zero ≤ ballot)
    (stop : ∀ first ∈ rest.head?, first < bp.mCurrentBallot.getD .zero ∨
      ratifiesPrepared config bp first = false) :
    newC ∈ getPrepareCandidates bp hint ∧
      LowestRatified config bp hint newH newC := by
  have descending := getPrepareCandidates_descending bp hint
  rw [whole, List.pairwise_append, List.pairwise_append,
    List.pairwise_append] at descending
  obtain ⟨_, ⟨⟨_, _, frontAbove⟩, restOrdered, runAbove⟩, skippedAbove⟩ :=
    descending
  have member : ∀ other, other ∈ getPrepareCandidates bp hint ↔
      other ∈ skipped ∨ (other ∈ front ∨ other = newC) ∨
        other ∈ rest := by
    intro other
    rw [← List.mem_reverse, whole]
    simp [or_assoc]
  refine ⟨(member newC).mpr (.inr (.inl (.inr rfl))), below,
    (inside newC (by simp)).2, ?_, ?_⟩
  · intro other candidate upper lower
    rcases (member other).mp candidate with before | inRun | after
    · have higher := skippedAbove other before newH
        (List.mem_append_left _ top)
      exact absurd lower (not_le.mpr higher)
    · exact (inside other (by simpa using inRun)).1
    · have lowerStill := runAbove newC (by simp) other after
      exact absurd upper (not_le.mpr lowerStill)
  · intro other candidate less started
    rcases (member other).mp candidate with before | inRun | after
    · have higher := skippedAbove other before newC (by simp)
      exact absurd less (not_lt.mpr higher.le)
    · rcases inRun with earlier | here
      · have higher := frontAbove other earlier newC (by simp)
        exact absurd less (not_lt.mpr higher.le)
      · exact absurd less (by simp [here])
    · cases rest with
      | nil => cases after
      | cons gap rest =>
          have gapBelow := runAbove newC (by simp) gap (by simp)
          have under : other ≤ gap := by
            rcases List.mem_cons.mp after with here | later
            · exact le_of_eq here
            · exact ((List.pairwise_cons.mp restOrdered).1 other later).le
          refine ⟨gap, (member gap).mpr (.inr (.inr (by simp))), under,
            gapBelow, ?_⟩
          rcases stop gap rfl with low | unratified
          · exact absurd (started.trans under) (not_le.mpr low)
          · exact unratified

/-- The vote to commit starts at the lowest candidate of the ratified run. -/
theorem searchNewC_lowest
    (found : findNewH config bp (getPrepareCandidates bp hint).reverse =
      some (newH, candidates))
    (nonzero : (searchNewC config bp newH candidates).counter ≠ 0) :
    mayVoteCommit bp newH = true ∧
      searchNewC config bp newH candidates ∈ getPrepareCandidates bp hint ∧
      LowestRatified config bp hint newH
        (searchNewC config bp newH candidates) := by
  have allowed : mayVoteCommit bp newH = true := by
    by_contra forbidden
    exact nonzero (by simp [searchNewC, forbidden, SCPBallot.zero])
  refine ⟨allowed, ?_⟩
  obtain ⟨skipped, tail, split, first, _, _, _⟩ := findNewH_some found
  obtain ⟨run, rest, parts, inside, result, stop⟩ :=
    findNewC_run (bp.mCurrentBallot.getD .zero) .zero candidates
  rw [searchNewC, if_pos allowed, result] at nonzero ⊢
  rcases List.eq_nil_or_concat run with empty | ⟨front, newC, ending⟩
  · rw [empty] at nonzero
    exact absurd rfl nonzero
  · have last : run.getLast?.getD SCPBallot.zero = newC := by
      rw [ending]
      simp
    rw [List.concat_eq_append] at ending
    rw [last]
    rw [ending] at parts inside
    have head : newH :: tail = front ++ [newC] ++ rest := by
      rw [← first, parts]
    have top : newH ∈ front ++ [newC] := by
      cases front with
      | nil =>
          cases head
          simp
      | cons leading front =>
          cases head
          simp
    have below : newC ≤ newH := by
      have descending := getPrepareCandidates_descending bp hint
      rw [split, first] at descending
      have ordered := (List.pairwise_append.mp descending).2.1
      have member : newC ∈ newH :: tail := by
        rw [head]
        simp
      rcases List.mem_cons.mp member with here | later
      · exact le_of_eq here
      · exact ((List.pairwise_cons.mp ordered).1 newC later).le
    exact lowestRatified_of_split (by rw [split, parts]) top below inside
      stop

end Loops

/-! ## Consistency of the ballots after a transition -/

namespace Ballots

variable {ballots : Ballots} {ballot c h newC newH : SCPBallot}

theorem acceptPrepared_consistent (raises : ballots.Raises ballot)
    (sound : ballots.Sound) (running : ballots.phase ≠ .externalize)
    (compatible : ballots.phase = .confirm →
      ∃ p c, ballots.prepared = some p ∧ ballots.commit = some c ∧
        p ≤ ballot ∧ p.value = ballot.value ∧ c.value = ballot.value) :
    (ballots.acceptPrepared ballot).Consistent where
  counter := by
    intro b set
    rw [acceptPrepared_current] at set
    exact sound.consistent.counter b set
  prime := by
    intro p p' prepared prime
    rw [acceptPrepared_prepared] at prepared
    rw [acceptPrepared_preparedPrime] at prime
    obtain ⟨upper, set, less, differs⟩ :=
      withPrepared_pairOrdered raises sound.pair p' prime
    rw [prepared] at set
    cases set
    exact ⟨less.le, differs⟩
  commit := by
    intro c set
    rw [acceptPrepared_commit] at set
    split at set
    · cases set
    · rw [acceptPrepared_high, acceptPrepared_current]
      exact sound.consistent.commit c set
  confirmed := by
    intro started
    rw [acceptPrepared_phase] at started
    have confirm : ballots.phase = .confirm := by
      cases phase : ballots.phase with
      | prepare => exact absurd phase started
      | confirm => rfl
      | externalize => exact absurd phase running
    obtain ⟨p, c, prepared, commit, below, same, agree⟩ :=
      compatible confirm
    rw [acceptPrepared_confirm raises sound confirm prepared commit below
      same agree]
    exact sound.consistent.confirmed started

/-- `b` is raised to `h`, or it was above `h` and has the value of `h`. -/
theorem raiseTo_consistent {current : Option SCPBallot}
    (nonzero : h.counter ≠ 0)
    (counter : ∀ b, current = some b → b.counter ≠ 0)
    (agree : ∀ b, current = some b → h ≤ b → h.value = b.value) :
    ∃ b, raiseTo current h = some b ∧ b.counter ≠ 0 ∧ h ≤ b ∧
      h.value = b.value := by
  rcases raiseTo_cases current h with raised | ⟨b, set, below, kept⟩
  · exact ⟨h, raised, nonzero, le_refl _, rfl⟩
  · exact ⟨b, kept, counter b set, below, agree b set below⟩

theorem confirmPrepared_consistent (sound : ballots.Sound)
    (prepare : ballots.phase = .prepare)
    (above : ∀ high, ballots.high = some high → high < newH)
    (nonzero : ballots.current = none → newH.counter ≠ 0)
    (agree : ∀ c, ballots.commit = some c → c.value = newH.value)
    (votes : newC.counter ≠ 0 → newC ≤ newH ∧ newC.value = newH.value ∧
      ∀ b, ballots.current = some b → b ≤ newC) :
    (ballots.confirmPrepared newC newH).Consistent where
  counter := by
    intro b set
    rcases raiseTo_cases ballots.current newH with
      raised | ⟨old, current, _, kept⟩
    · have equal : newH = b := Option.some.inj (raised.symm.trans set)
      subst equal
      cases current : ballots.current with
      | none => exact nonzero current
      | some old =>
          have oldCounter := sound.consistent.counter old current
          have upper : old ≤ newH := by
            rw [current] at raised
            by_contra higher
            have notLess : ¬ old < newH := fun less => higher less.le
            simp only [raiseTo, notLess, if_false, Option.some.injEq]
              at raised
            exact higher (le_of_eq raised)
          have counters := SCPBallot.counter_le_of_le upper
          intro zero
          rw [zero] at counters
          exact oldCounter (Fin.le_zero_iff.mp counters)
    · have equal : old = b := Option.some.inj (kept.symm.trans set)
      subst equal
      exact sound.consistent.counter old current
  prime := sound.consistent.prime
  commit := by
    intro c set
    simp only [confirmPrepared] at set ⊢
    split at set
    · rename_i nonzero
      cases set
      obtain ⟨below, value, started⟩ := votes nonzero
      rcases raiseTo_cases ballots.current newH with
        raised | ⟨b, current, upper, kept⟩
      · exact ⟨newH, newH, rfl, raised, ⟨below, value⟩, le_refl _, rfl⟩
      · have equal : newH = b :=
          le_antisymm upper ((started b current).trans below)
        exact ⟨newH, b, rfl, kept, ⟨below, value⟩, upper,
          congrArg SCPBallot.value equal⟩
    · obtain ⟨high, b, highSet, current, ⟨low, lowValue⟩, _, topValue⟩ :=
        sound.consistent.commit c set
      have value := agree c set
      refine ⟨newH, ?_⟩
      rcases raiseTo_cases ballots.current newH with
        raised | ⟨b', current', upper, kept⟩
      · exact ⟨newH, rfl, raised,
          ⟨low.trans (above high highSet).le, value⟩, le_refl _, rfl⟩
      · rw [current] at current'
        cases current'
        exact ⟨b, rfl, kept, ⟨low.trans (above high highSet).le, value⟩,
          upper, value.symm.trans (lowValue.trans topValue)⟩
  confirmed := fun started => absurd prepare started

/-- In PREPARE every accepted interval is consistent. -/
theorem acceptCommit_prepare_consistent
    (consistent : ballots.Consistent) (prepare : ballots.phase = .prepare)
    (nonzero : h.counter ≠ 0) (ordered : c ≤ h) (agree : c.value = h.value) :
    (ballots.acceptCommit c h).Consistent := by
  have current : ∃ b, (ballots.acceptCommit c h).current = some b ∧
      b.counter ≠ 0 ∧ h ≤ b ∧ h.value = b.value := by
    rw [acceptCommit, if_pos prepare]
    cases set : ballots.current with
    | none => exact ⟨h, rfl, nonzero, le_refl _, rfl⟩
    | some b =>
        by_cases covers : h ≤ b ∧ h.value = b.value
        · exact ⟨b, by simp [covers], consistent.counter b set, covers⟩
        · exact ⟨h, by simp [covers], nonzero, le_refl _, rfl⟩
  obtain ⟨b, result, counter, upper, value⟩ := current
  rw [acceptCommit, if_pos prepare] at result ⊢
  refine ⟨?_, ?_, ?_, ?_⟩
  · intro b' set
    have equal : b = b' := Option.some.inj (result.symm.trans set)
    rw [← equal]
    exact counter
  · intro p p' _ prime
    cases prime
  · intro c' set
    cases set
    exact ⟨h, b, rfl, result, ⟨ordered, agree⟩, upper, value⟩
  · intro _ unset
    cases unset

/-- From CONFIRM on, an interval of the committed value is consistent. -/
theorem raised_consistent {phase : SCPPhase} {commit : SCPBallot}
    (sound : ballots.Sound) (started : ballots.phase ≠ .prepare)
    (committed : ballots.commit = some commit)
    (nonzero : h.counter ≠ 0) (ordered : c ≤ h) (agree : c.value = h.value)
    (same : h.value = commit.value) :
    Consistent { ballots with
      phase := phase
      high := some h
      commit := some c
      current := raiseTo ballots.current h } := by
  obtain ⟨_, current, _, currentSet, ⟨_, low⟩, _, top⟩ :=
    sound.consistent.commit commit committed
  obtain ⟨b, result, counter, upper, value⟩ :=
    raiseTo_consistent nonzero sound.consistent.counter (by
      intro b set _
      rw [currentSet] at set
      cases set
      exact same.trans (low.trans top))
  refine ⟨?_, ?_, ?_, ?_⟩
  · intro b' set
    have equal : b = b' := Option.some.inj (result.symm.trans set)
    rw [← equal]
    exact counter
  · intro p p' _ prime
    have unset := (sound.confirmed started).2
    rw [unset] at prime
    cases prime
  · intro c' set
    cases set
    exact ⟨h, b, rfl, result, ⟨ordered, agree⟩, upper, value⟩
  · intro _ unset
    cases unset

theorem bump_consistent (consistent : ballots.Consistent)
    (nonzero : ballot.counter ≠ 0)
    (above : ∀ b, ballots.current = some b → b < ballot)
    (compatible : ∀ b c, ballots.current = some b →
      ballots.commit = some c → c.value = ballot.value) :
    (ballots.bump ballot).Consistent where
  counter := by
    intro b set
    cases set
    exact nonzero
  prime := consistent.prime
  commit := by
    intro c set
    obtain ⟨high, b, highSet, current, low, upper, _⟩ :=
      consistent.commit c set
    refine ⟨high, ballot, highSet, rfl, low,
      upper.trans (above b current).le, ?_⟩
    exact low.2.symm.trans (compatible b c current set)
  confirmed := consistent.confirmed

end Ballots

/-- Every transition keeps the ballots consistent, if the ballots confirmed
as prepared are safe to confirm. -/
theorem Transition.consistent {config : SlotConfig}
    {environment : Environment} {view : SlotView} {next : Ballots}
    {accepted : List SCPBallot}
    (transition : Transition config environment view next accepted)
    (sound : view.ballots.Sound)
    (safe : ∀ hint bp, view.Visited (.preparedConfirmed hint) bp →
      ConfirmsSafely config bp hint) : next.Consistent := by
  cases transition with
  | acceptPrepared hint bp ballot visited recorded running candidate raises
      compatible accepts highest =>
      exact Ballots.acceptPrepared_consistent raises sound running compatible
  | confirmPrepared hint bp newH candidates visited recorded prepare found
      bounded settled =>
      have current : bp.mCurrentBallot = view.ballots.current :=
        congrArg Ballots.current visited.ballots
      obtain ⟨candidate, highest⟩ := findNewH_highest found
      obtain ⟨p, prepared, _⟩ := bounded
      obtain ⟨counter, agree, votes⟩ := safe hint bp visited
        ((congrArg Ballots.phase visited.ballots).trans prepare)
        (by
          have set : bp.mPrepared = some p :=
            (congrArg Ballots.prepared visited.ballots).trans prepared
          simp [set]) newH candidate highest
      refine Ballots.confirmPrepared_consistent sound prepare ?_ ?_ ?_ ?_
      · intro high set
        exact highest.above high
          ((congrArg Ballots.high visited.ballots).trans set)
      · intro unset
        exact counter (current.trans unset)
      · intro c set
        exact agree c ((congrArg Ballots.commit visited.ballots).trans set)
      · intro nonzero
        obtain ⟨allowed, inside, lowest⟩ :=
          searchNewC_lowest found nonzero
        refine ⟨lowest.below, ?_, ?_⟩
        · rcases votes allowed _ inside lowest with zero | value
          · exact absurd zero nonzero
          · exact value
        · intro b set
          have started := lowest.started
          rwa [current, set] at started
  | acceptCommit hint bp ballot visited recorded running prepared hinted
      found compatible =>
      obtain ⟨ordered, _⟩ := acceptedInterval_holds found
      have nonzero : (acceptedInterval config bp ballot).second ≠ 0 := by
        intro zero
        rw [zero] at ordered
        exact found (Fin.le_zero_iff.mp ordered)
      cases phase : view.ballots.phase with
      | externalize => exact absurd phase running
      | prepare =>
          exact Ballots.acceptCommit_prepare_consistent sound.consistent
            phase nonzero (SCPBallot.le_of_counter_le ordered rfl) rfl
      | confirm =>
          have started : view.ballots.phase ≠ .prepare := by simp [phase]
          obtain ⟨high, highSet, value, _⟩ := compatible phase
          obtain ⟨c, committed⟩ := Option.ne_none_iff_exists'.mp
            (sound.consistent.confirmed started)
          obtain ⟨high', _, highSet', _, ⟨_, low⟩, _⟩ :=
            sound.consistent.commit c committed
          rw [highSet] at highSet'
          cases highSet'
          rw [Ballots.acceptCommit, if_neg started]
          exact Ballots.raised_consistent sound started committed nonzero
            (SCPBallot.le_of_counter_le ordered rfl) rfl
            (value.trans low.symm)
  | confirmCommit hint bp ballot commit visited recorded confirm committed
      hinted compatible found =>
      obtain ⟨ordered, _⟩ := confirmedInterval_holds found
      have nonzero : (confirmedInterval config bp ballot).second ≠ 0 := by
        intro zero
        rw [zero] at ordered
        exact found (Fin.le_zero_iff.mp ordered)
      exact Ballots.raised_consistent sound (by simp [confirm]) committed
        nonzero (SCPBallot.le_of_counter_le ordered rfl) rfl compatible
  | bump value newb running available override counter above compatible =>
      exact Ballots.bump_consistent sound.consistent counter above compatible

/-- No assertion of `checkInvariants` fails in a run in which every ballot
confirmed as prepared is safe to confirm. -/
theorem runInputs_checkInvariants {config : SlotConfig}
    {inputs : List Input}
    (safe : ∀ visit ∈ (runInputs config inputs).slot.visits,
      visit.ConfirmsSafely config) :
    (runInputs config inputs).failure ≠ some (.dbgAbort .checkInvariants) ∧
    (runInputs config inputs).failure ≠
      some (.nullDereference .checkInvariants) ∧
    ∀ bp ∈ (runInputs config inputs).states, bp.ballots.Consistent := by
  obtain ⟨view, reaches⟩ := runInputs_reaches config inputs
  have stable := reaches.path.stable (Slot.fresh_stable config)
  have visits : (runInputs config inputs).slot.visits = view.visits :=
    reaches.records.visits
  have always : ∀ next accepted, Transition config (environmentOf inputs)
      view next accepted → next.Consistent := by
    intro next accepted transition
    refine transition.consistent stable.sound ?_
    intro hint bp visited
    have member : ⟨.preparedConfirmed hint, bp⟩ ∈
        (runInputs config inputs).slot.visits := by
      rw [visits]
      exact visited.member
    exact safe _ member
  refine ⟨?_, ?_, ?_⟩
  · intro failed
    obtain ⟨next, accepted, transition, inconsistent⟩ :=
      reaches.explained _ failed
    exact inconsistent (always next accepted transition)
  · intro failed
    obtain ⟨next, accepted, transition, inconsistent⟩ :=
      reaches.explained _ failed
    exact inconsistent (always next accepted transition)
  · intro bp member
    obtain ⟨last, progresses⟩ := runInputs_progresses config inputs
    exact (progresses.sound bp member).consistent

/-- A node that follows node 1 confirms its ballot safely. -/
theorem checkInvariants_small :
    (runInputs (smallSlot ⟨1, [1], []⟩)
      [receivePrepare 1 ⟨2, [1]⟩ (some ⟨2, [1]⟩) none]).failure ≠
        some (.dbgAbort .checkInvariants) ∧
    (runInputs (smallSlot ⟨1, [1], []⟩)
      [receivePrepare 1 ⟨2, [1]⟩ (some ⟨2, [1]⟩) none]).failure ≠
        some (.nullDereference .checkInvariants) ∧
    ∀ bp ∈ (runInputs (smallSlot ⟨1, [1], []⟩)
      [receivePrepare 1 ⟨2, [1]⟩ (some ⟨2, [1]⟩) none]).states,
      bp.ballots.Consistent :=
  runInputs_checkInvariants (by decide +kernel)

/-- Nodes 1 and 2 have accepted a ballot of each value as prepared: the node
takes the upper one for `h` and the lower one for `c`, and aborts. -/
theorem checkInvariants_aborts :
    isQuorumSetSane ⟨3, [0, 1, 2], []⟩ false = true ∧
    ([1, 2] : List NodeID).all (fun node =>
      arePledgesSane (.prepare (prepareOf node ⟨7, [2]⟩ (some ⟨7, [2]⟩)
        (some ⟨6, [1]⟩) 0 0)) false) = true ∧
    (runInputs (smallSlot ⟨3, [0, 1, 2], []⟩)
      [receivePrepare 1 ⟨7, [2]⟩ (some ⟨7, [2]⟩) (some ⟨6, [1]⟩),
        receivePrepare 2 ⟨7, [2]⟩ (some ⟨7, [2]⟩) (some ⟨6, [1]⟩)]).failure =
      some (.dbgAbort .checkInvariants) := by
  decide +kernel

end StellarCore.Scp
