import StellarCore.Scp.SlotView

/-!
# What every step of a slot preserves

Every transition that passes `checkInvariants` keeps the ballots sound and
moves them forward in the order `Ballots.Later`.  From this a stable view
stays stable: its ballots are sound, and the statement recorded for the node
itself is the one its ballots give.
-/

namespace StellarCore.Scp

namespace Ballots

variable {ballots : Ballots} {ballot c h newC newH : SCPBallot}

theorem acceptPrepared_bounded (raises : ballots.Raises ballot)
    (sound : ballots.Sound) (prepare : ballots.phase = .prepare) :
    ∀ h, ballots.high = some h →
      ∃ p, (ballots.acceptPrepared ballot).prepared = some p ∧
        h.counter ≤ p.counter := by
  intro h set
  obtain ⟨p, prepared, below⟩ := sound.bounded prepare h set
  have grows := (withPrepared_raises raises sound.pair).2
  rw [prepared] at grows
  rw [acceptPrepared_prepared]
  cases after : (ballots.withPrepared ballot).prepared with
  | none => simp [after, pointerRank] at grows
  | some p' =>
      rw [after] at grows
      have above : p ≤ p' := WithBot.coe_le_coe.mp grows
      exact ⟨p', rfl, below.trans (SCPBallot.counter_le_of_le above)⟩

/-- In CONFIRM an accepted ballot only replaces `p`. -/
theorem acceptPrepared_confirm (raises : ballots.Raises ballot)
    (sound : ballots.Sound) (confirm : ballots.phase = .confirm)
    {p c : SCPBallot} (prepared : ballots.prepared = some p)
    (commit : ballots.commit = some c) (below : p ≤ ballot)
    (same : p.value = ballot.value) (agree : c.value = ballot.value) :
    ballots.acceptPrepared ballot =
      { ballots with prepared := some ballot } := by
  have replaced := withPrepared_of_compatible raises prepared below same
  obtain ⟨h, b, high, _, ⟨_, low⟩, _⟩ := sound.consistent.commit c commit
  have primeNone : ballots.preparedPrime = none :=
    (sound.confirmed (by simp [confirm])).2
  have covered : areBallotsLessAndIncompatible h ballot = false := by
    rw [Bool.eq_false_iff, ne_eq, areBallotsLessAndIncompatible_iff]
    exact fun above => above.2 (low.symm.trans agree)
  have keeps : (ballots.withPrepared ballot).aborts = false := by
    simp [replaced, aborts, high, primeNone, covered]
  rw [acceptPrepared, keeps, replaced]
  rfl

theorem acceptPrepared_sound (raises : ballots.Raises ballot)
    (sound : ballots.Sound) (running : ballots.phase ≠ .externalize)
    (compatible : ballots.phase = .confirm →
      ∃ p c, ballots.prepared = some p ∧ ballots.commit = some c ∧
        p ≤ ballot ∧ p.value = ballot.value ∧ c.value = ballot.value)
    (consistent : (ballots.acceptPrepared ballot).Consistent) :
    (ballots.acceptPrepared ballot).Sound where
  consistent := consistent
  pair := by
    have ordered := withPrepared_pairOrdered raises sound.pair
    intro p' prime
    rw [acceptPrepared_preparedPrime] at prime
    rw [acceptPrepared_prepared]
    exact ordered p' prime
  bounded := by
    intro prepare h set
    rw [acceptPrepared_phase] at prepare
    rw [acceptPrepared_high] at set
    exact acceptPrepared_bounded raises sound prepare h set
  committed := by
    intro c set
    rw [acceptPrepared_commit] at set
    split at set
    · cases set
    · exact sound.committed c set
  confirmed := by
    intro started
    rw [acceptPrepared_phase] at started
    have confirm : ballots.phase = .confirm := by
      cases phase : ballots.phase with
      | prepare => exact absurd phase started
      | confirm => rfl
      | externalize => exact absurd phase running
    obtain ⟨p, c, prepared, commit, below, same, agree⟩ :=
      compatible confirm
    rw [acceptPrepared_confirm raises sound confirm prepared commit below
      same agree]
    exact ⟨by simp, (sound.confirmed started).2⟩

theorem acceptPrepared_later (raises : ballots.Raises ballot)
    (sound : ballots.Sound) (running : ballots.phase ≠ .externalize)
    (compatible : ballots.phase = .confirm →
      ∃ p c, ballots.prepared = some p ∧ ballots.commit = some c ∧
        p ≤ ballot ∧ p.value = ballot.value ∧ c.value = ballot.value) :
    ballots.Later (ballots.acceptPrepared ballot) where
  phase := by rw [acceptPrepared_phase]
  prepared := by
    rw [acceptPrepared_prepared]
    exact (withPrepared_raises raises sound.pair).2
  pair := by
    intro _
    rw [acceptPrepared_pair]
    exact (withPrepared_raises raises sound.pair).1.le
  high := by
    intro set
    rwa [acceptPrepared_high]
  value := by
    intro value started carries
    have confirm : ballots.phase = .confirm := by
      cases phase : ballots.phase with
      | prepare => exact absurd phase started
      | confirm => rfl
      | externalize => exact absurd phase running
    obtain ⟨p, c, prepared, commit, below, same, agree⟩ :=
      compatible confirm
    rw [acceptPrepared_confirm raises sound confirm prepared commit below
      same agree]
    exact carries
  final := fun ended => absurd ended running

theorem confirmPrepared_sound (sound : ballots.Sound)
    (bounded : ∃ p, ballots.prepared = some p ∧ newH ≤ p)
    (prepare : ballots.phase = .prepare)
    (consistent : (ballots.confirmPrepared newC newH).Consistent) :
    (ballots.confirmPrepared newC newH).Sound where
  consistent := consistent
  pair := sound.pair
  bounded := by
    intro _ h set
    obtain ⟨p, prepared, below⟩ := bounded
    have same : newH = h := Option.some.inj set
    exact ⟨p, prepared, same ▸ SCPBallot.counter_le_of_le below⟩
  committed := by
    intro c set
    simp only [confirmPrepared] at set
    split at set
    · rename_i nonzero
      cases set
      exact nonzero
    · exact sound.committed c set
  confirmed := fun started => absurd prepare started

theorem confirmPrepared_later (prepare : ballots.phase = .prepare) :
    ballots.Later (ballots.confirmPrepared newC newH) where
  phase := le_refl _
  prepared := le_refl _
  pair := fun _ => le_refl _
  high := fun _ => by simp [confirmPrepared]
  value := fun _ started _ => absurd prepare started
  final := fun ended => absurd (prepare.symm.trans ended) (by simp)

theorem acceptCommit_sound (sound : ballots.Sound)
    (prepared : ballots.prepared ≠ none) (counter : c.counter ≠ 0)
    (running : ballots.phase ≠ .externalize)
    (consistent : (ballots.acceptCommit c h).Consistent) :
    (ballots.acceptCommit c h).Sound := by
  cases phase : ballots.phase with
  | externalize => exact absurd phase running
  | prepare =>
      simp only [acceptCommit, phase, if_true] at consistent ⊢
      exact
        { consistent := consistent
          pair := fun p' set => by simp at set
          bounded := fun impossible => by simp at impossible
          committed := fun c' set => by
            cases set
            exact counter
          confirmed := fun _ => ⟨prepared, rfl⟩ }
  | confirm =>
      have started : ballots.phase ≠ .prepare := by simp [phase]
      rw [acceptCommit, if_neg started] at consistent ⊢
      exact
        { consistent := consistent
          pair := sound.pair
          bounded := fun impossible => absurd impossible started
          committed := fun c' set => by
            cases set
            exact counter
          confirmed := fun _ => sound.confirmed started }

theorem acceptCommit_later (running : ballots.phase ≠ .externalize)
    (agree : c.value = h.value)
    (compatible : ballots.phase = .confirm →
      ∃ high, ballots.high = some high ∧ h.value = high.value) :
    ballots.Later (ballots.acceptCommit c h) := by
  cases phase : ballots.phase with
  | externalize => exact absurd phase running
  | prepare =>
      simp only [acceptCommit, phase, if_true]
      exact
        { phase := by simp [phase, SCPPhase.number]
          prepared := le_refl _
          pair := fun impossible => by simp at impossible
          high := fun _ => by simp
          value := fun _ started _ => absurd phase started
          final := fun ended => absurd (phase.symm.trans ended) (by simp) }
  | confirm =>
      have started : ballots.phase ≠ .prepare := by simp [phase]
      rw [acceptCommit, if_neg started]
      exact
        { phase := le_refl _
          prepared := le_refl _
          pair := fun _ => le_refl _
          high := fun _ => by simp
          value := by
            rintro value _ ⟨b, old, c', current, high, _, bValue, hValue, _⟩
            obtain ⟨high', set, same⟩ := compatible phase
            have equal : old = high' :=
              Option.some.inj (high.symm.trans set)
            have newValue : h.value = value := by
              rw [same, ← equal, hValue]
            obtain ⟨b', raised, raisedValue⟩ :=
              raiseTo_value ballots.current newValue (by
                intro b'' set'
                rw [current] at set'
                cases set'
                exact bValue)
            exact ⟨b', h, c, raised, rfl, rfl, raisedValue, newValue,
              agree.trans newValue⟩
          final := fun ended => absurd ended running }

theorem confirmCommit_sound (sound : ballots.Sound)
    (confirm : ballots.phase = .confirm) (counter : c.counter ≠ 0)
    (consistent : (ballots.confirmCommit c h).Consistent) :
    (ballots.confirmCommit c h).Sound where
  consistent := consistent
  pair := sound.pair
  bounded := fun impossible => by simp [confirmCommit] at impossible
  committed := fun c' set => by
    cases set
    exact counter
  confirmed := fun _ => sound.confirmed (by simp [confirm])

theorem confirmCommit_later (confirm : ballots.phase = .confirm)
    {commit : SCPBallot} (committed : ballots.commit = some commit)
    (low : c.value = commit.value) (top : h.value = commit.value) :
    ballots.Later (ballots.confirmCommit c h) where
  phase := by simp [confirmCommit, confirm, SCPPhase.number]
  prepared := le_refl _
  pair := fun impossible => by simp [confirmCommit] at impossible
  high := fun _ => by simp [confirmCommit]
  value := by
    rintro value _ ⟨b, _, c', current, _, set, bValue, _, cValue⟩
    have equal : c' = commit := Option.some.inj (set.symm.trans committed)
    have newValue : h.value = value := by rw [top, ← equal, cValue]
    obtain ⟨b', raised, raisedValue⟩ :=
      raiseTo_value ballots.current newValue (by
        intro b'' set'
        rw [current] at set'
        cases set'
        exact bValue)
    exact ⟨b', h, c, raised, rfl, rfl, raisedValue, newValue,
      by rw [low, ← equal, cValue]⟩
  final := fun ended => absurd (confirm.symm.trans ended) (by simp)

theorem bump_sound (sound : ballots.Sound)
    (consistent : (ballots.bump ballot).Consistent) :
    (ballots.bump ballot).Sound where
  consistent := consistent
  pair := sound.pair
  bounded := sound.bounded
  committed := sound.committed
  confirmed := sound.confirmed

theorem bump_later (running : ballots.phase ≠ .externalize)
    {value : Value}
    (override : ballot.value =
      (ballots.high.map SCPBallot.value).getD value) :
    ballots.Later (ballots.bump ballot) where
  phase := le_refl _
  prepared := le_refl _
  pair := fun _ => le_refl _
  high := fun set => set
  value := by
    rintro value' _ ⟨b, h, c, _, high, commit, _, hValue, cValue⟩
    refine ⟨ballot, h, c, rfl, high, commit, ?_, hValue, cValue⟩
    simpa [high] using override.trans (by simp [high, hValue])
  final := fun ended => absurd ended running

end Ballots

/-! ## Transitions -/

section Transitions

variable {config : SlotConfig} {environment : Environment}
  {view : SlotView} {next : Ballots} {accepted : List SCPBallot}

theorem Transition.sound
    (transition : Transition config environment view next accepted)
    (sound : view.ballots.Sound) (consistent : next.Consistent) :
    next.Sound := by
  cases transition with
  | acceptPrepared hint bp ballot visited recorded running candidate raises
      compatible accepts highest =>
      exact Ballots.acceptPrepared_sound raises sound running compatible
        consistent
  | confirmPrepared hint bp newH candidates visited recorded prepare found
      bounded settled =>
      exact Ballots.confirmPrepared_sound sound bounded prepare consistent
  | acceptCommit hint bp ballot visited recorded running prepared hinted
      found compatible =>
      exact Ballots.acceptCommit_sound sound prepared found running
        consistent
  | confirmCommit hint bp ballot commit visited recorded confirm committed
      hinted compatible found =>
      exact Ballots.confirmCommit_sound sound confirm found consistent
  | bump value newb running available override counter above compatible =>
      exact Ballots.bump_sound sound consistent

theorem Transition.later
    (transition : Transition config environment view next accepted)
    (sound : view.ballots.Sound) : view.ballots.Later next := by
  cases transition with
  | acceptPrepared hint bp ballot visited recorded running candidate raises
      compatible accepts highest =>
      exact Ballots.acceptPrepared_later raises sound running compatible
  | confirmPrepared hint bp newH candidates visited recorded prepare found
      bounded settled =>
      exact Ballots.confirmPrepared_later prepare
  | acceptCommit hint bp ballot visited recorded running prepared hinted
      found compatible =>
      refine Ballots.acceptCommit_later running rfl ?_
      intro confirm
      obtain ⟨high, set, same, _⟩ := compatible confirm
      exact ⟨high, set, same⟩
  | confirmCommit hint bp ballot commit visited recorded confirm committed
      hinted compatible found =>
      exact Ballots.confirmCommit_later confirm committed compatible
        compatible
  | bump value newb running available override counter above compatible =>
      exact Ballots.bump_later running override

/-- No transition starts in EXTERNALIZE. -/
theorem Transition.running
    (transition : Transition config environment view next accepted) :
    view.ballots.phase ≠ .externalize := by
  cases transition with
  | acceptPrepared hint bp ballot visited recorded running candidate raises
      compatible accepts highest => exact running
  | confirmPrepared hint bp newH candidates visited recorded prepare found
      bounded settled => simp [prepare]
  | acceptCommit hint bp ballot visited recorded running prepared hinted
      found compatible => exact running
  | confirmCommit hint bp ballot commit visited recorded confirm committed
      hinted compatible found => simp [confirm]
  | bump value newb running available override counter above compatible =>
      exact running

/-- Accepted ballots are not forgotten. -/
theorem Transition.accepted_subset
    (transition : Transition config environment view next accepted) :
    view.accepted ⊆ accepted := by
  cases transition with
  | acceptPrepared hint bp ballot visited recorded running candidate raises
      compatible accepts highest => exact List.subset_append_left _ _
  | confirmPrepared hint bp newH candidates visited recorded prepare found
      bounded settled => exact List.Subset.refl _
  | acceptCommit hint bp ballot visited recorded running prepared hinted
      found compatible => exact List.Subset.refl _
  | confirmCommit hint bp ballot commit visited recorded confirm committed
      hinted compatible found => exact List.Subset.refl _
  | bump value newb running available override counter above compatible =>
      exact List.Subset.refl _

end Transitions

/-! ## Stable views -/

/-- What holds of a view between two steps. -/
structure SlotView.Stable (config : SlotConfig) (view : SlotView) :
    Prop where
  sound : view.ballots.Sound
  own : ∀ envelope,
    view.envelopes.lookup config.getLocalNodeID = some envelope →
      ∃ pledges, view.ballots.pledges config = some pledges ∧
        envelope = config.createEnvelope pledges
  silent : view.envelopes.lookup config.getLocalNodeID = none →
    view.ballots = .initial
  keyed : ∀ node envelope, view.envelopes.lookup node = some envelope →
    envelope.statement.nodeID = node
  recorded : ∀ node envelope, view.envelopes.lookup node = some envelope →
    envelope.statement ∈ view.history
  unfinished : view.ballots.phase ≠ .externalize → view.externalized = []

section Steps

variable {config : SlotConfig} {environment : Environment}
  {view view' : SlotView}

theorem Step.later (step : Step config environment view view')
    (stable : view.Stable config) : view.ballots.Later view'.ballots := by
  cases step with
  | keep transition consistent built same =>
      exact transition.later stable.sound
  | publish flag transition consistent built admitted =>
      exact transition.later stable.sound
  | visit attempt bp ballots envelopes => exact .refl _
  | receive flag sent foreign verified indexed admitted final =>
      exact .refl _
  | makeLast envelope vouched newer => exact .refl _
  | send last set fresh validated => exact .refl _
  | externalize commit ended committed first => exact .refl _
  | offer value offered => exact .refl _

/-- Recording an envelope of a node keeps the map keyed and recorded. -/
theorem SlotView.record_keyed {envelope : SCPEnvelope}
    (keyed : ∀ node old, view.envelopes.lookup node = some old →
      old.statement.nodeID = node) :
    ∀ node old, (view.record envelope).envelopes.lookup node = some old →
      old.statement.nodeID = node := by
  intro node old found
  by_cases here : node = envelope.statement.nodeID
  · subst here
    simp only [SlotView.record, AList.lookup_insert] at found
    cases found
    rfl
  · simp only [SlotView.record, AList.lookup_insert_ne here] at found
    exact keyed node old found

theorem SlotView.record_recorded {envelope : SCPEnvelope}
    (recorded : ∀ node old, view.envelopes.lookup node = some old →
      old.statement ∈ view.history) :
    ∀ node old, (view.record envelope).envelopes.lookup node = some old →
      old.statement ∈ (view.record envelope).history := by
  intro node old found
  by_cases here : node = envelope.statement.nodeID
  · subst here
    simp only [SlotView.record, AList.lookup_insert] at found
    cases found
    simp [SlotView.record]
  · simp only [SlotView.record, AList.lookup_insert_ne here] at found
    simp [SlotView.record, recorded node old found]

theorem Step.stable (step : Step config environment view view')
    (stable : view.Stable config) : view'.Stable config := by
  cases step with
  | visit attempt bp ballots envelopes =>
      exact ⟨stable.sound, stable.own, stable.silent, stable.keyed,
        stable.recorded, stable.unfinished⟩
  | keep transition consistent built same =>
      refine ⟨transition.sound stable.sound consistent, ?_, ?_,
        stable.keyed, stable.recorded,
        fun _ => stable.unfinished transition.running⟩
      · intro envelope found
        exact ⟨_, built, Option.some.inj (found.symm.trans same)⟩
      · intro missing
        rw [same] at missing
        cases missing
  | publish flag transition consistent built admitted =>
      refine ⟨transition.sound stable.sound consistent, ?_, ?_,
        SlotView.record_keyed stable.keyed,
        SlotView.record_recorded stable.recorded,
        fun _ => stable.unfinished transition.running⟩
      · intro envelope found
        simp only [SlotView.record, SlotConfig.createEnvelope_nodeID,
          AList.lookup_insert] at found
        exact ⟨_, built, (Option.some.inj found).symm⟩
      · intro missing
        simp [SlotView.record] at missing
  | receive flag sent foreign verified indexed admitted final =>
      refine ⟨stable.sound, ?_, ?_, SlotView.record_keyed stable.keyed,
        SlotView.record_recorded stable.recorded, stable.unfinished⟩
      · intro envelope found
        simp only [SlotView.record,
          AList.lookup_insert_ne foreign.symm] at found
        exact stable.own envelope found
      · intro missing
        simp only [SlotView.record,
          AList.lookup_insert_ne foreign.symm] at missing
        exact stable.silent missing
  | makeLast envelope vouched newer =>
      exact ⟨stable.sound, stable.own, stable.silent, stable.keyed,
        stable.recorded, stable.unfinished⟩
  | send last set fresh validated =>
      exact ⟨stable.sound, stable.own, stable.silent, stable.keyed,
        stable.recorded, stable.unfinished⟩
  | externalize commit ended committed first =>
      exact ⟨stable.sound, stable.own, stable.silent, stable.keyed,
        stable.recorded, fun running => absurd ended running⟩
  | offer value offered =>
      exact ⟨stable.sound, stable.own, stable.silent, stable.keyed,
        stable.recorded, stable.unfinished⟩

/-- The rule for invariants: what every step from a stable view preserves
holds along every path. -/
theorem Path.invariant (invariant : SlotView → Prop)
    (preserved : ∀ view view', view.Stable config → invariant view →
      Step config environment view view' → invariant view')
    (path : Path config environment view view')
    (stable : view.Stable config) (holds : invariant view) :
    view'.Stable config ∧ invariant view' := by
  induction path with
  | refl => exact ⟨stable, holds⟩
  | tail _ step ih =>
      exact ⟨step.stable ih.1, preserved _ _ ih.1 ih.2 step⟩

theorem Path.stable (path : Path config environment view view')
    (stable : view.Stable config) : view'.Stable config :=
  (path.invariant (fun _ => True) (fun _ _ _ _ _ => trivial) stable
    trivial).1

theorem Path.later (path : Path config environment view view')
    (stable : view.Stable config) : view.ballots.Later view'.ballots := by
  refine (path.invariant
    (fun reached => view.ballots.Later reached.ballots) ?_ stable
    (.refl _)).2
  intro reached _ reachedStable before step
  exact before.trans (step.later reachedStable)

theorem Transition.mono {wider : Environment} {next : Ballots}
    {accepted : List SCPBallot}
    (offers : ∀ value, environment.offers value → wider.offers value)
    (transition : Transition config environment view next accepted) :
    Transition config wider view next accepted := by
  cases transition with
  | acceptPrepared hint bp ballot visited recorded running candidate raises
      compatible accepts highest =>
      exact .acceptPrepared hint bp ballot visited recorded running
        candidate raises compatible accepts highest
  | confirmPrepared hint bp newH candidates visited recorded prepare found
      bounded settled =>
      exact .confirmPrepared hint bp newH candidates visited recorded
        prepare found bounded settled
  | acceptCommit hint bp ballot visited recorded running prepared hinted
      found compatible =>
      exact .acceptCommit hint bp ballot visited recorded running prepared
        hinted found compatible
  | confirmCommit hint bp ballot commit visited recorded confirm committed
      hinted compatible found =>
      exact .confirmCommit hint bp ballot commit visited recorded confirm
        committed hinted compatible found
  | bump value newb running available override counter above compatible =>
      exact .bump value newb running (available.imp_left (offers value))
        override counter above compatible

theorem Step.mono {wider : Environment}
    (offers : ∀ value, environment.offers value → wider.offers value)
    (sends : ∀ envelope, environment.sends envelope → wider.sends envelope)
    (step : Step config environment view view') :
    Step config wider view view' := by
  cases step with
  | visit attempt bp ballots envelopes =>
      exact .visit attempt bp ballots envelopes
  | keep transition consistent built same =>
      exact .keep (transition.mono offers) consistent built same
  | publish flag transition consistent built admitted =>
      exact .publish flag (transition.mono offers) consistent built admitted
  | receive flag sent foreign verified indexed admitted final =>
      exact .receive flag (sends _ sent) foreign verified indexed admitted
        final
  | makeLast envelope vouched newer => exact .makeLast envelope vouched newer
  | send last set fresh validated => exact .send last set fresh validated
  | externalize commit ended committed first =>
      exact .externalize commit ended committed first
  | offer value offered => exact .offer value (offers value offered)

theorem Path.mono {wider : Environment}
    (offers : ∀ value, environment.offers value → wider.offers value)
    (sends : ∀ envelope, environment.sends envelope → wider.sends envelope)
    (path : Path config environment view view') :
    Path config wider view view' := by
  induction path with
  | refl => exact .refl
  | tail _ step ih => exact ih.tail (step.mono offers sends)

theorem Path.of_silent
    (path : Path config environment.silent view view') :
    Path config environment view view' := by
  refine path.mono ?_ ?_
  · intro value offered
    exact offered
  · intro envelope never
    exact False.elim never

/-- While the slot works on an input, the statements of other nodes stay. -/
theorem Path.others
    (path : Path config environment.silent view view')
    {node : NodeID} (other : node ≠ config.getLocalNodeID) :
    view'.envelopes.lookup node = view.envelopes.lookup node := by
  induction path with
  | refl => rfl
  | tail _ step ih =>
      rw [← ih]
      cases step with
      | publish flag transition consistent built admitted =>
          exact AList.lookup_insert_ne other
      | receive flag sent foreign verified indexed admitted final =>
          exact absurd sent id
      | visit attempt bp ballots envelopes => rfl
      | keep transition consistent built same => rfl
      | makeLast envelope vouched newer => rfl
      | send last set fresh validated => rfl
      | externalize commit ended committed first => rfl
      | offer value offered => rfl

/-- Visits are not forgotten. -/
theorem Step.visits_subset (step : Step config environment view view') :
    view.visits ⊆ view'.visits := by
  cases step with
  | visit attempt bp ballots envelopes =>
      exact List.subset_append_left _ _
  | keep transition consistent built same => exact List.Subset.refl _
  | publish flag transition consistent built admitted =>
      exact List.Subset.refl _
  | receive flag sent foreign verified indexed admitted final =>
      exact List.Subset.refl _
  | makeLast envelope vouched newer => exact List.Subset.refl _
  | send last set fresh validated => exact List.Subset.refl _
  | externalize commit ended committed first => exact List.Subset.refl _
  | offer value offered => exact List.Subset.refl _

theorem Path.history (path : Path config environment view view')
    {st : SCPStatement} (recorded : st ∈ view.history) :
    st ∈ view'.history := by
  induction path with
  | refl => exact recorded
  | tail _ step ih =>
      cases step with
      | publish flag transition consistent built admitted =>
          simp [SlotView.record, ih]
      | receive flag sent foreign verified indexed admitted final =>
          simp [SlotView.record, ih]
      | visit attempt bp ballots envelopes => exact ih
      | keep transition consistent built same => exact ih
      | makeLast envelope vouched newer => exact ih
      | send last set fresh validated => exact ih
      | externalize commit ended committed first => exact ih
      | offer value offered => exact ih

end Steps

end StellarCore.Scp
