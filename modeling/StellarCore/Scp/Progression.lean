import StellarCore.Scp.SlotRuns

/-!
# How a slot progresses

Over a whole run the states of the ballot protocol only move forward: the
phase goes from PREPARE over CONFIRM to EXTERNALIZE, from CONFIRM on the
value is fixed and at most one value is externalized, and the pair of
prepared ballots never goes back.
-/

namespace StellarCore.Scp

/-- The phase stays or moves to the next one. -/
def SCPPhase.Follows (before after : SCPPhase) : Prop :=
  before.number ≤ after.number ∧ after.number ≤ before.number + 1

instance (before after : SCPPhase) : Decidable (before.Follows after) :=
  inferInstanceAs (Decidable (_ ∧ _))

/-- The phases a view has gone through. -/
def SlotView.phases (view : SlotView) : List SCPPhase :=
  .prepare :: view.visits.map (fun visit => visit.ballotProtocol.mPhase)

/-- The visits of a view in their order, up to the present ballots. -/
structure SlotView.Ordered (view : SlotView) : Prop where
  visits : view.visits.Pairwise (fun earlier later =>
    earlier.ballotProtocol.ballots.Later later.ballotProtocol.ballots)
  present : ∀ visit ∈ view.visits,
    visit.ballotProtocol.ballots.Later view.ballots
  sound : ∀ visit ∈ view.visits, visit.ballotProtocol.ballots.Sound
  phases : (view.phases ++ [view.ballots.phase]).IsChain SCPPhase.Follows
  externalized : ∀ value ∈ view.externalized,
    view.ballots.phase = .externalize ∧ view.ballots.Carries value
  once : view.externalized.length ≤ 1

section Ordered

variable {config : SlotConfig} {environment : Environment}
  {view view' : SlotView}

theorem SCPPhase.Follows.refl (phase : SCPPhase) : phase.Follows phase :=
  ⟨le_refl _, Nat.le_succ _⟩

/-- A transition changes the phase only where the phase was visited. -/
theorem Transition.phase {next : Ballots} {accepted : List SCPBallot}
    (transition : Transition config environment view next accepted) :
    next.phase = view.ballots.phase ∨
      view.ballots.phase.Follows next.phase ∧
        ∃ visit ∈ view.visits,
          visit.ballotProtocol.ballots = view.ballots := by
  cases transition with
  | acceptPrepared hint bp ballot visited recorded running candidate raises
      compatible accepts highest => exact .inl Ballots.acceptPrepared_phase
  | confirmPrepared hint bp newH candidates visited recorded prepare found
      bounded settled => exact .inl rfl
  | acceptCommit hint bp ballot visited recorded running prepared hinted
      found compatible =>
      cases phase : view.ballots.phase with
      | prepare =>
          right
          refine ⟨?_, ⟨_, bp⟩, visited.member, visited.ballots⟩
          simp [Ballots.acceptCommit, phase, SCPPhase.Follows,
            SCPPhase.number]
      | confirm =>
          left
          simp [Ballots.acceptCommit, phase]
      | externalize => exact absurd phase running
  | confirmCommit hint bp ballot commit visited recorded confirm committed
      hinted compatible found =>
      right
      refine ⟨?_, ⟨_, bp⟩, visited.member, visited.ballots⟩
      simp [Ballots.confirmCommit, confirm, SCPPhase.Follows,
        SCPPhase.number]
  | bump value newb running available override counter above compatible =>
      exact .inl rfl

/-- The last phase of a chain may be replaced by one that follows the phase
before it. -/
private theorem follows_last {phases : List SCPPhase}
    {present next : SCPPhase}
    (chain : (phases ++ [present]).IsChain SCPPhase.Follows)
    (follows : ∀ last ∈ phases.getLast?, last.Follows next) :
    (phases ++ [next]).IsChain SCPPhase.Follows := by
  rw [List.isChain_append] at chain ⊢
  refine ⟨chain.1, by simp, ?_⟩
  intro last isLast phase isNext
  simp only [List.head?_cons, Option.mem_def, Option.some.injEq] at isNext
  rw [← isNext]
  exact follows last isLast

/-- The last visited phase of an ordered view is the phase of every visit in
the present ballots. -/
private theorem last_phase_of_visited (ordered : view.Ordered)
    {visit : Visit} (member : visit ∈ view.visits)
    (same : visit.ballotProtocol.ballots = view.ballots) :
    ∀ last ∈ view.phases.getLast?, last = view.ballots.phase := by
  intro last isLast
  have nonempty : view.visits ≠ [] := List.ne_nil_of_mem member
  obtain ⟨before, final, split⟩ :
      ∃ before final, view.visits = before ++ [final] :=
    ⟨_, _, (List.dropLast_append_getLast nonempty).symm⟩
  have isFinal : final.ballotProtocol.mPhase = last := by
    simpa [SlotView.phases, split, List.getLast?_cons,
      List.getLast?_append] using isLast
  have finalMember : final ∈ view.visits := by simp [split]
  have upper := (ordered.present final finalMember).phase
  have lower : view.ballots.phase.number ≤
      final.ballotProtocol.ballots.phase.number := by
    rw [← same]
    rw [split] at member
    rcases List.mem_append.mp member with earlier | here
    · have pairs := ordered.visits
      rw [split, List.pairwise_append] at pairs
      exact (pairs.2.2 visit earlier final (by simp)).phase
    · rw [List.mem_singleton.mp here]
  rw [← isFinal]
  exact SCPPhase.number_injective (le_antisymm upper lower)

/-- A transition keeps the order. -/
private theorem Transition.ordered {next : Ballots}
    {accepted : List SCPBallot}
    (transition : Transition config environment view next accepted)
    (stable : view.Stable config) (ordered : view.Ordered) {after : SlotView}
    (ballots : after.ballots = next) (visits : after.visits = view.visits)
    (externalized : after.externalized = view.externalized) :
    after.Ordered := by
  have none : after.externalized = [] :=
    externalized.trans (stable.unfinished transition.running)
  refine ⟨visits ▸ ordered.visits, ?_, visits ▸ ordered.sound, ?_, ?_, ?_⟩
  · intro visit member
    rw [visits] at member
    rw [ballots]
    exact (ordered.present visit member).trans
      (transition.later stable.sound)
  · have same : after.phases = view.phases := by
      simp only [SlotView.phases, visits]
    rw [same, ballots]
    rcases transition.phase with kept | ⟨follows, visit, member, visited⟩
    · rw [kept]
      exact ordered.phases
    · refine follows_last ordered.phases ?_
      intro last isLast
      rw [last_phase_of_visited ordered member visited last isLast]
      exact follows
  · intro value member
    rw [none] at member
    cases member
  · rw [none]
    simp

theorem Step.ordered (step : Step config environment view view')
    (stable : view.Stable config) (ordered : view.Ordered) :
    view'.Ordered := by
  cases step with
  | visit attempt bp ballots envelopes =>
      refine ⟨?_, ?_, ?_, ?_, ordered.externalized, ordered.once⟩
      · rw [List.pairwise_append]
        refine ⟨ordered.visits, by simp, ?_⟩
        intro earlier member later isLast
        rw [List.mem_singleton.mp isLast]
        show earlier.ballotProtocol.ballots.Later bp.ballots
        rw [ballots]
        exact ordered.present earlier member
      · intro visit member
        rcases List.mem_append.mp member with earlier | here
        · exact ordered.present visit earlier
        · rw [List.mem_singleton.mp here]
          show bp.ballots.Later view.ballots
          rw [ballots]
          exact .refl _
      · intro visit member
        rcases List.mem_append.mp member with earlier | here
        · exact ordered.sound visit earlier
        · rw [List.mem_singleton.mp here]
          show bp.ballots.Sound
          rw [ballots]
          exact stable.sound
      · have phase : bp.mPhase = view.ballots.phase :=
          congrArg Ballots.phase ballots
        have phases : SlotView.phases { view with
            visits := view.visits ++ [⟨attempt, bp⟩] } =
            view.phases ++ [view.ballots.phase] := by
          simp [SlotView.phases, phase]
        rw [phases, List.isChain_append]
        refine ⟨ordered.phases, by simp, ?_⟩
        intro last isLast next isNext
        simp only [List.getLast?_append, List.getLast?_singleton,
          Option.some_or, Option.mem_def, Option.some.injEq] at isLast
        simp only [List.head?_cons, Option.mem_def, Option.some.injEq]
          at isNext
        rw [← isLast, ← isNext]
        exact .refl _
  | keep transition consistent built same =>
      exact transition.ordered stable ordered rfl rfl rfl
  | publish flag transition consistent built admitted =>
      exact transition.ordered stable ordered rfl rfl rfl
  | receive flag sent foreign verified indexed admitted final =>
      exact ⟨ordered.visits, ordered.present, ordered.sound,
        ordered.phases, ordered.externalized, ordered.once⟩
  | makeLast envelope vouched newer =>
      exact ⟨ordered.visits, ordered.present, ordered.sound,
        ordered.phases, ordered.externalized, ordered.once⟩
  | send last set fresh validated =>
      exact ⟨ordered.visits, ordered.present, ordered.sound,
        ordered.phases, ordered.externalized, ordered.once⟩
  | externalize commit ended committed first =>
      refine ⟨ordered.visits, ordered.present, ordered.sound,
        ordered.phases, ?_, by simp [first]⟩
      intro value member
      rw [first, List.nil_append] at member
      rw [List.mem_singleton.mp member]
      exact ⟨ended, stable.sound.consistent.carries committed⟩
  | offer value offered =>
      exact ⟨ordered.visits, ordered.present, ordered.sound,
        ordered.phases, ordered.externalized, ordered.once⟩

theorem Slot.fresh_ordered (config : SlotConfig) :
    (Slot.fresh config).view.Ordered where
  visits := List.Pairwise.nil
  present := fun visit member => absurd member List.not_mem_nil
  sound := fun visit member => absurd member List.not_mem_nil
  phases := by
    show [SCPPhase.prepare, SCPPhase.prepare].IsChain SCPPhase.Follows
    simp [SCPPhase.Follows.refl]
  externalized := fun value member => absurd member List.not_mem_nil
  once := Nat.zero_le _

end Ordered

/-! ## The states of a run -/

/-- The states of a run in their order, with a last state that all of them
lead to. -/
structure Process.Progresses (process : Process) (last : Ballots) : Prop where
  ordered : process.states.Pairwise
    (fun earlier later => earlier.ballots.Later later.ballots)
  leads : ∀ bp ∈ process.states, bp.ballots.Later last
  sound : ∀ bp ∈ process.states, bp.ballots.Sound
  phases : (.prepare :: process.states.map BallotProtocol.mPhase).IsChain
    SCPPhase.Follows
  externalized : ∀ value ∈ process.slot.externalizedValues,
    last.Carries value
  once : process.slot.externalizedValues.length ≤ 1

theorem Process.Reaches.progresses {config : SlotConfig}
    {environment : Environment} {start view : SlotView} {process : Process}
    (reaches : process.Reaches config environment start view)
    (stable : start.Stable config) (ordered : start.Ordered) :
    process.Progresses view.ballots := by
  obtain ⟨reachedStable, reached⟩ := reaches.path.invariant SlotView.Ordered
    (fun _ _ stable ordered step => step.ordered stable ordered) stable
    ordered
  have visits : process.slot.visits = view.visits := reaches.records.visits
  have externalized : process.slot.externalizedValues = view.externalized :=
    reaches.records.externalized
  have states : process.states =
      view.visits.map Visit.ballotProtocol := by
    rw [Process.states, visits]
  have visited : ∀ bp ∈ process.states, ∃ visit ∈ view.visits,
      visit.ballotProtocol = bp := by
    intro bp member
    rw [states] at member
    exact List.mem_map.mp member
  refine ⟨?_, ?_, ?_, ?_, ?_, ?_⟩
  · rw [states, List.pairwise_map]
    exact reached.visits
  · intro bp member
    obtain ⟨visit, inside, equal⟩ := visited bp member
    rw [← equal]
    exact reached.present visit inside
  · intro bp member
    obtain ⟨visit, inside, equal⟩ := visited bp member
    rw [← equal]
    exact reached.sound visit inside
  · have chain := reached.phases
    rw [List.isChain_append] at chain
    rw [states, List.map_map]
    exact chain.1
  · intro value inside
    rw [externalized] at inside
    exact (reached.externalized value inside).2
  · rw [externalized]
    exact reached.once

theorem runInputs_progresses (config : SlotConfig) (inputs : List Input) :
    ∃ last, (runInputs config inputs).Progresses last := by
  obtain ⟨view, reaches⟩ := runInputs_reaches config inputs
  exact ⟨view.ballots, reaches.progresses (Slot.fresh_stable config)
    (Slot.fresh_ordered config)⟩

theorem Ballots.Carries.unique {ballots : Ballots} {left right : Value}
    (first : ballots.Carries left) (second : ballots.Carries right) :
    left = right := by
  obtain ⟨b, _, _, current, _, _, value, _⟩ := first
  obtain ⟨b', _, _, current', _, _, value', _⟩ := second
  rw [current] at current'
  cases current'
  exact value.symm.trans value'

theorem Ballots.Sound.carries {ballots : Ballots} (sound : ballots.Sound)
    (started : ballots.phase ≠ .prepare) :
    ∃ value, ballots.Carries value := by
  obtain ⟨c, commit⟩ := Option.ne_none_iff_exists'.mp
    (sound.consistent.confirmed started)
  exact ⟨c.value, sound.consistent.carries commit⟩

/-- Phases only move forward, one after the other; from CONFIRM on the
ballots carry one value, at most this value is externalized, and only once;
after EXTERNALIZE the ballots stay. -/
theorem runInputs_phases (config : SlotConfig) (inputs : List Input) :
    ∃ value,
      (.prepare :: (runInputs config inputs).states.map
        BallotProtocol.mPhase).IsChain SCPPhase.Follows ∧
      (∀ bp ∈ (runInputs config inputs).states, bp.mPhase ≠ .prepare →
        ∃ b h c, bp.mCurrentBallot = some b ∧ bp.mHighBallot = some h ∧
          bp.mCommit = some c ∧ b.value = value ∧ h.value = value ∧
          c.value = value) ∧
      (runInputs config inputs).slot.externalizedValues.length ≤ 1 ∧
      (∀ externalized ∈
        (runInputs config inputs).slot.externalizedValues,
          externalized = value) ∧
      (runInputs config inputs).states.Pairwise (fun earlier later =>
        earlier.mPhase = .externalize →
          later.mCommit = earlier.mCommit ∧
          later.mHighBallot = earlier.mHighBallot ∧
          later.mCurrentBallot = earlier.mCurrentBallot) := by
  obtain ⟨last, progresses⟩ := runInputs_progresses config inputs
  have final : (runInputs config inputs).states.Pairwise
      (fun earlier later => earlier.mPhase = .externalize →
        later.mCommit = earlier.mCommit ∧
        later.mHighBallot = earlier.mHighBallot ∧
        later.mCurrentBallot = earlier.mCurrentBallot) := by
    refine progresses.ordered.imp ?_
    intro earlier later order ended
    obtain ⟨current, high, commit⟩ := order.final ended
    exact ⟨commit, high, current⟩
  by_cases carried : ∃ value, last.Carries value
  · obtain ⟨value, carries⟩ := carried
    refine ⟨value, progresses.phases, ?_, progresses.once, ?_, final⟩
    · intro bp member started
      obtain ⟨own, ownCarries⟩ :=
        (progresses.sound bp member).carries started
      have same := ((progresses.leads bp member).value own started
        ownCarries).unique carries
      rw [← same]
      exact ownCarries
    · intro externalized member
      exact (progresses.externalized externalized member).unique carries
  · refine ⟨[], progresses.phases, ?_, progresses.once, ?_, final⟩
    · intro bp member started
      obtain ⟨own, ownCarries⟩ :=
        (progresses.sound bp member).carries started
      exact absurd ⟨own, (progresses.leads bp member).value own started
        ownCarries⟩ carried
    · intro externalized member
      exact absurd ⟨externalized,
        progresses.externalized externalized member⟩ carried

theorem compareBallotPointers_nonpos_iff {b1 b2 : Option SCPBallot} :
    compareBallotPointers b1 b2 ≤ 0 ↔ pointerRank b1 ≤ pointerRank b2 := by
  rw [le_iff_lt_or_eq, le_iff_lt_or_eq, compareBallotPointers_neg_iff,
    compareBallotPointers_eq_zero_iff, pointerRank_inj]

/-- The prepared pair is ordered in every state and never goes back; in
PREPARE it stays or grows in lexicographic order. -/
theorem runInputs_prepared (config : SlotConfig) (inputs : List Input) :
    (∀ bp ∈ (runInputs config inputs).states, ∀ p',
      bp.mPreparedPrime = some p' →
        ∃ p, bp.mPrepared = some p ∧ compareBallots p' p < 0 ∧
          p'.value ≠ p.value) ∧
    (runInputs config inputs).states.Pairwise (fun earlier later =>
      compareBallotPointers earlier.mPrepared later.mPrepared ≤ 0) ∧
    (runInputs config inputs).states.Pairwise (fun earlier later =>
      later.mPhase = .prepare →
        (later.mPrepared = earlier.mPrepared ∧
          later.mPreparedPrime = earlier.mPreparedPrime) ∨
        compareBallotPointers earlier.mPrepared later.mPrepared < 0 ∨
        (later.mPrepared = earlier.mPrepared ∧
          compareBallotPointers earlier.mPreparedPrime
            later.mPreparedPrime < 0)) ∧
    (∀ bp ∈ (runInputs config inputs).states, bp.mPhase ≠ .prepare →
      bp.mPreparedPrime = none) := by
  obtain ⟨last, progresses⟩ := runInputs_progresses config inputs
  refine ⟨?_, ?_, ?_, ?_⟩
  · intro bp member p' set
    obtain ⟨p, prepared, less, differ⟩ :=
      (progresses.sound bp member).pair p' set
    exact ⟨p, prepared, compareBallots_neg_iff.mpr less, differ⟩
  · refine progresses.ordered.imp ?_
    intro earlier later order
    exact compareBallotPointers_nonpos_iff.mpr order.prepared
  · refine progresses.ordered.imp ?_
    intro earlier later order prepare
    have pairs := order.pair prepare
    rw [Ballots.pair, Ballots.pair, Prod.Lex.toLex_le_toLex] at pairs
    simp only [BallotProtocol.ballots_prepared,
      BallotProtocol.ballots_preparedPrime] at pairs
    rcases pairs with less | ⟨same, upper⟩
    · exact .inr (.inl (compareBallotPointers_neg_iff.mpr less))
    · have prepared := (pointerRank_inj.mp same).symm
      rcases lt_or_eq_of_le upper with less | equal
      · exact .inr (.inr ⟨prepared,
          compareBallotPointers_neg_iff.mpr less⟩)
      · exact .inl ⟨prepared, (pointerRank_inj.mp equal).symm⟩
  · intro bp member started
    exact ((progresses.sound bp member).confirmed started).2

end StellarCore.Scp
