import StellarCore.Scp.OwnStatements

/-!
# Validity of ballot values

`validateValues` asks the driver for the values of `ballot` and `prepared`
only, and keeps the verdict on the last value that is not fully validated.
A statement is judged by its worst value where these two do not matter.  If
every statement a slot receives is, and the node does not accept its own
placeholder as prepared, then no invalid value gets into its ballots.
-/

namespace StellarCore.Scp

/-- The worst level of a list of values: invalid before maybe valid. -/
def worstLevel (config : SlotConfig) (values : List Value) :
    ValidationLevel :=
  if .kInvalidValue ∈ values.map config.verdict then .kInvalidValue
  else if .kMaybeValidValue ∈ values.map config.verdict then
    .kMaybeValidValue
  else .kFullyValidatedValue

/-- The statement is judged by its worst value: an invalid value shows in
`ballot` or `prepared`, and no value that may be valid comes after it; without
one, a value that may be valid shows there. -/
def Judged (config : SlotConfig) (st : SCPStatement) : Prop :=
  ((∃ value ∈ st.values, config.verdict value = .kInvalidValue) →
    ∃ value ∈ statementValues st,
      config.verdict value = .kInvalidValue ∧
      ∀ other ∈ statementValues st,
        config.verdict other = .kMaybeValidValue → other < value) ∧
  ((∀ value ∈ st.values, config.verdict value ≠ .kInvalidValue) →
    (∃ value ∈ st.values, config.verdict value = .kMaybeValidValue) →
    ∃ value ∈ statementValues st,
      config.verdict value = .kMaybeValidValue)

instance (config : SlotConfig) (st : SCPStatement) :
    Decidable (Judged config st) :=
  inferInstanceAs (Decidable (_ ∧ _))

instance (ballots : Ballots) (ballot : SCPBallot) :
    Decidable (ballots.Raises ballot) :=
  decidable_of_iff ((∀ p' ∈ ballots.preparedPrime, p' < ballot) ∧
      ∀ p ∈ ballots.prepared, ¬ (ballot ≤ p ∧ ballot.value = p.value))
    ⟨fun both => ⟨both.1, both.2⟩,
      fun raises => ⟨raises.above, raises.notCovered⟩⟩

/-- The placeholder `(0, "")` is the candidate that the node accepts as
prepared. -/
def TakesPlaceholder (config : SlotConfig) (bp : BallotProtocol)
    (hint : SCPStatement) : Prop :=
  bp.mPhase = .prepare ∧ .zero ∈ getPrepareCandidates bp hint ∧
    bp.ballots.Raises .zero ∧ acceptsPrepared config bp .zero = true ∧
    ∀ other ∈ getPrepareCandidates bp hint, .zero < other →
      acceptsPrepared config bp other = true → ¬ bp.ballots.Raises other

instance (config : SlotConfig) (bp : BallotProtocol) (hint : SCPStatement) :
    Decidable (TakesPlaceholder config bp hint) :=
  inferInstanceAs (Decidable (_ ∧ _))

/-- Where the attempt is to accept a ballot as prepared, it is not an invalid
placeholder. -/
def Visit.AvoidsPlaceholder (config : SlotConfig) (visit : Visit) : Prop :=
  match visit.attempt with
  | .preparedAccept hint =>
      TakesPlaceholder config visit.ballotProtocol hint → config.IsValid []
  | _ => True

instance (config : SlotConfig) :
    (visit : Visit) → Decidable (visit.AvoidsPlaceholder config)
  | ⟨.preparedAccept hint, bp⟩ =>
      inferInstanceAs (Decidable
        (TakesPlaceholder config bp hint → config.IsValid []))
  | ⟨.preparedConfirmed _, _⟩ => .isTrue trivial
  | ⟨.acceptCommit _, _⟩ => .isTrue trivial
  | ⟨.confirmCommit _, _⟩ => .isTrue trivial
  | ⟨.bump, _⟩ => .isTrue trivial
  | ⟨.idle, _⟩ => .isTrue trivial

/-! ## What `validateValues` decides -/

section Levels

variable (config : SlotConfig) (st : SCPStatement)

/-- The verdict is that on the last value that is not fully validated. -/
private theorem validateValues_last :
    (validateValues config st = .kFullyValidatedValue ∧
      ∀ value ∈ statementValues st,
        config.verdict value = .kFullyValidatedValue) ∨
    ∃ value ∈ statementValues st,
      validateValues config st = config.verdict value ∧
      config.verdict value ≠ .kFullyValidatedValue ∧
      ∀ other ∈ statementValues st, value < other →
        config.verdict other = .kFullyValidatedValue := by
  unfold validateValues
  have ordered : (statementValues st).Pairwise (· < ·) := toSet_sorted _
  revert ordered
  induction statementValues st using List.reverseRecOn with
  | nil => exact fun _ => .inl ⟨rfl, by simp⟩
  | append_singleton values value ih =>
      intro ordered
      rw [List.pairwise_append] at ordered
      rw [List.foldl_concat]
      have largest : ∀ other ∈ values ++ [value], value < other →
          config.verdict other = .kFullyValidatedValue := by
        intro other member above
        rcases List.mem_append.mp member with earlier | here
        · exact absurd above
            (not_lt.mpr (ordered.2.2 other earlier value (by simp)).le)
        · exact absurd above (by simp [List.mem_singleton.mp here])
      cases verdict :
          config.driver.validateValue config.mSlotIndex value with
      | kInvalidValue =>
          exact .inr ⟨value, by simp, verdict.symm, by simp [verdict],
            largest⟩
      | kMaybeValidValue =>
          exact .inr ⟨value, by simp, verdict.symm, by simp [verdict],
            largest⟩
      | kFullyValidatedValue =>
          rcases ih ordered.1 with ⟨result, all⟩ |
            ⟨last, member, result, level, above⟩
          · refine .inl ⟨result, ?_⟩
            intro other member
            rcases List.mem_append.mp member with earlier | here
            · exact all other earlier
            · rw [List.mem_singleton.mp here]
              exact verdict
          · refine .inr ⟨last, List.mem_append_left _ member, result, level,
              ?_⟩
            intro other member' less
            rcases List.mem_append.mp member' with earlier | here
            · exact above other earlier less
            · rw [List.mem_singleton.mp here]
              exact verdict

theorem statementValues_subset : statementValues st ⊆ st.values := by
  intro value member
  unfold statementValues at member
  rw [mem_toSet] at member
  unfold SCPStatement.values
  cases pledged : st.pledges with
  | prepare prep =>
      simp only [pledged] at member ⊢
      rcases List.mem_append.mp member with isCurrent | isPrepared
      · split at isCurrent
        · simp [List.mem_singleton.mp isCurrent]
        · cases isCurrent
      · obtain ⟨p, prepared, equal⟩ :=
          Option.map_eq_some_iff.mp (Option.mem_toList.mp isPrepared)
        rw [← equal]
        exact List.mem_map_of_mem (by simp [prepared])
  | confirm con => simpa [pledged] using member
  | externalize ext => simpa [pledged] using member

/-- `validateValues` finds the statement invalid exactly when the last value
that is not fully validated is invalid. -/
theorem validateValues_invalid_iff :
    validateValues config st = .kInvalidValue ↔
      ∃ value ∈ statementValues st,
        config.verdict value = .kInvalidValue ∧
        ∀ other ∈ statementValues st,
          config.verdict other = .kMaybeValidValue → other < value := by
  rcases validateValues_last config st with ⟨result, all⟩ |
    ⟨last, inside, result, level, above⟩
  · constructor
    · intro invalid
      rw [result] at invalid
      cases invalid
    · rintro ⟨value, member, verdict, _⟩
      rw [all value member] at verdict
      cases verdict
  · constructor
    · intro invalid
      rw [result] at invalid
      refine ⟨last, inside, invalid, ?_⟩
      intro other member maybe
      rcases lt_trichotomy other last with less | equal | greater
      · exact less
      · rw [equal, invalid] at maybe
        cases maybe
      · rw [above other member greater] at maybe
        cases maybe
    · rintro ⟨value, member, verdict, latest⟩
      rw [result]
      cases lastVerdict : config.verdict last with
      | kInvalidValue => rfl
      | kFullyValidatedValue => exact absurd lastVerdict level
      | kMaybeValidValue =>
          rw [above value member (latest last inside lastVerdict)] at verdict
          cases verdict

/-- Without an invalid value, one that may be valid decides. -/
private theorem validateValues_maybe_iff
    (valid : ∀ value ∈ statementValues st,
      config.verdict value ≠ .kInvalidValue) :
    validateValues config st =
      if ∃ value ∈ statementValues st,
        config.verdict value = .kMaybeValidValue then .kMaybeValidValue
      else .kFullyValidatedValue := by
  rcases validateValues_last config st with ⟨result, all⟩ |
    ⟨last, inside, result, level, _⟩
  · rw [result, if_neg]
    rintro ⟨value, member, maybe⟩
    rw [all value member] at maybe
    cases maybe
  · cases verdict : config.verdict last with
    | kInvalidValue => exact absurd verdict (valid last inside)
    | kFullyValidatedValue => exact absurd verdict level
    | kMaybeValidValue =>
        rw [result, if_pos ⟨last, inside, verdict⟩]
        exact verdict

/-- `validateValues` is the worst level of all values exactly for the
statements that are judged by it. -/
theorem validateValues_eq_worstLevel_iff :
    validateValues config st = worstLevel config st.values ↔
      Judged config st := by
  have subset := statementValues_subset st
  unfold worstLevel Judged
  simp only [List.mem_map]
  by_cases invalid : ∃ value ∈ st.values,
      config.verdict value = .kInvalidValue
  · rw [if_pos invalid, validateValues_invalid_iff]
    constructor
    · intro shown
      refine ⟨fun _ => shown, fun valid => ?_⟩
      obtain ⟨value, member, verdict⟩ := invalid
      exact absurd verdict (valid value member)
    · intro judged
      exact judged.1 invalid
  · have valid : ∀ value ∈ st.values,
        config.verdict value ≠ .kInvalidValue := by
      intro value member verdict
      exact invalid ⟨value, member, verdict⟩
    rw [if_neg invalid, validateValues_maybe_iff config st
      (fun value member => valid value (subset member))]
    by_cases shown : ∃ value ∈ statementValues st,
        config.verdict value = .kMaybeValidValue
    · obtain ⟨value, member, verdict⟩ := shown
      rw [if_pos ⟨value, member, verdict⟩,
        if_pos ⟨value, subset member, verdict⟩]
      simp only [true_iff]
      exact ⟨fun some => absurd some invalid,
        fun _ _ => ⟨value, member, verdict⟩⟩
    · rw [if_neg shown]
      constructor
      · intro equal
        refine ⟨fun some => absurd some invalid, fun _ maybe => ?_⟩
        rw [if_pos maybe] at equal
        cases equal
      · intro judged
        rw [if_neg]
        intro maybe
        exact shown (judged.2 valid maybe)

end Levels

/-! ## The ballots of a slot that judges what it receives -/

/-- No ballot carries an invalid value. -/
def Ballots.Valid (config : SlotConfig) (ballots : Ballots) : Prop :=
  ∀ ballot, (ballots.current = some ballot ∨
    ballots.prepared = some ballot ∨ ballots.preparedPrime = some ballot ∨
    ballots.high = some ballot ∨ ballots.commit = some ballot) →
      config.IsValid ballot.value

structure SlotView.Valid (config : SlotConfig) (view : SlotView) :
    Prop where
  valued : view.Valued config.IsValid config
  prime : ∀ p', view.ballots.preparedPrime = some p' →
    config.IsValid p'.value
  recorded : ∀ st ∈ view.history, ∀ prep, st.pledges = .prepare prep →
    ∀ p' ∈ prep.preparedPrime, config.IsValid p'.value
  visits : ∀ visit ∈ view.visits,
    visit.ballotProtocol.ballots.Valid config

section Valid

variable {config : SlotConfig} {environment : Environment}
  {view view' : SlotView} {next : Ballots} {accepted : List SCPBallot}

theorem Ballots.Valued.valid (valued : next.Valued config.IsValid)
    (prime : ∀ p', next.preparedPrime = some p' → config.IsValid p'.value)
    (consistent : next.Consistent) : next.Valid config := by
  rintro ballot (current | prepared | isPrime | high | commit)
  · exact valued.current ballot current
  · exact valued.prepared ballot prepared
  · exact prime ballot isPrime
  · exact valued.high ballot high
  · obtain ⟨h, _, high, _, ⟨_, low⟩, _⟩ := consistent.commit ballot commit
    rw [low]
    exact valued.high h high

theorem Judged.values {st : SCPStatement} (judged : Judged config st)
    (valid : validateValues config st ≠ .kInvalidValue) :
    ∀ value ∈ st.values, config.IsValid value := by
  intro value member invalid
  exact valid ((validateValues_invalid_iff config st).mpr
    (judged.1 ⟨value, member, invalid⟩))

/-- `p'` stays valid as long as the placeholder is not accepted. -/
theorem Transition.valid_prime
    (transition : Transition config environment view next accepted)
    (stable : view.Stable config) (valid : view.Valid config)
    (avoids : ∀ hint bp, view.Visited (.preparedAccept hint) bp →
      TakesPlaceholder config bp hint → config.IsValid []) :
    ∀ p', next.preparedPrime = some p' → config.IsValid p'.value := by
  cases transition with
  | acceptPrepared hint bp ballot visited recorded running candidate raises
      compatible accepts highest =>
      rw [Ballots.acceptPrepared_preparedPrime]
      rcases raises.cases stable.sound.pair with
        ⟨_, _, result⟩ | ⟨p, set, _, result⟩ | ⟨p, set, less, _, result⟩
      · rw [result]
        exact valid.prime
      · rw [result]
        intro p' prime
        by_cases same : p.value = ballot.value
        · exact valid.prime p' (by simpa [same] using prime)
        · have equal : p = p' := by simpa [same] using prime
          rw [← equal]
          exact valid.valued.ballots.prepared p set
      · rw [result]
        intro p' prime
        cases prime
        rcases candidate_valued (valid.valued.hint recorded) candidate with
          isValid | isZero
        · exact isValid
        · have prepare : view.ballots.phase = .prepare := by
            cases phase : view.ballots.phase with
            | prepare => rfl
            | externalize => exact absurd phase running
            | confirm =>
                obtain ⟨p', _, set', _, below, _⟩ := compatible phase
                rw [set] at set'
                cases set'
                exact absurd less (not_lt.mpr below)
          rw [isZero] at candidate raises accepts highest ⊢
          rw [← visited.ballots] at raises prepare highest
          exact avoids hint bp visited
            ⟨prepare, candidate, raises, accepts, highest prepare⟩
  | confirmPrepared hint bp newH candidates visited recorded prepare found
      bounded settled => exact valid.prime
  | acceptCommit hint bp ballot visited recorded running prepared hinted
      found compatible =>
      intro p' prime
      unfold Ballots.acceptCommit at prime
      split at prime
      · cases prime
      · exact valid.prime p' prime
  | confirmCommit hint bp ballot commit visited recorded confirm committed
      hinted compatible found => exact valid.prime
  | bump value newb running available override counter above compatible =>
      exact valid.prime

theorem Step.valid (step : Step config environment view view')
    (stable : view.Stable config) (valid : view.Valid config)
    (offered : ∀ value, environment.offers value → config.IsValid value)
    (received : ∀ envelope, environment.sends envelope →
      Judged config envelope.statement)
    (avoids : ∀ visit ∈ view.visits, visit.AvoidsPlaceholder config) :
    view'.Valid config := by
  have valued := step.valued stable valid.valued offered
    (fun envelope sent => (received envelope sent).values)
  have visited : ∀ hint bp, view.Visited (.preparedAccept hint) bp →
      TakesPlaceholder config bp hint → config.IsValid [] :=
    fun hint bp visited => avoids _ visited.member
  cases step with
  | visit attempt bp ballots envelopes =>
      refine ⟨valued, valid.prime, valid.recorded, ?_⟩
      intro visit member
      rcases List.mem_append.mp member with earlier | here
      · exact valid.visits visit earlier
      · rw [List.mem_singleton.mp here]
        show bp.ballots.Valid config
        rw [ballots]
        exact valid.valued.ballots.valid valid.prime
          stable.sound.consistent
  | keep transition consistent built same =>
      exact ⟨valued, transition.valid_prime stable valid visited,
        valid.recorded, valid.visits⟩
  | publish flag transition consistent built admitted =>
      have prime := transition.valid_prime stable valid visited
      refine ⟨valued, prime, ?_, valid.visits⟩
      intro st member prep pledged
      rcases List.mem_append.mp member with earlier | here
      · exact valid.recorded st earlier prep pledged
      · rw [List.mem_singleton.mp here,
          SlotConfig.createEnvelope_pledges] at pledged
        obtain ⟨_, fields⟩ := Ballots.pledges_prepare (pledged ▸ built)
        rw [fields]
        exact prime
  | receive flag sent foreign verified indexed admitted final =>
      refine ⟨valued, valid.prime, ?_, valid.visits⟩
      intro st member prep pledged
      rcases List.mem_append.mp member with earlier | here
      · exact valid.recorded st earlier prep pledged
      · obtain ⟨_, _, _, accepted⟩ := admitted
        have values := (received _ sent).values accepted
        rw [List.mem_singleton.mp here] at pledged
        intro p' set
        refine values _ ?_
        simp only [SCPStatement.values, pledged]
        exact List.mem_map_of_mem (by simp [Option.mem_def.mp set])
  | makeLast envelope vouched newer =>
      exact ⟨valued, valid.prime, valid.recorded, valid.visits⟩
  | send last set fresh validated =>
      exact ⟨valued, valid.prime, valid.recorded, valid.visits⟩
  | externalize commit ended committed first =>
      exact ⟨valued, valid.prime, valid.recorded, valid.visits⟩
  | offer value isOffered =>
      exact ⟨valued, valid.prime, valid.recorded, valid.visits⟩

theorem Slot.fresh_valid (config : SlotConfig) :
    (Slot.fresh config).view.Valid config where
  valued := Slot.fresh_valued _ config
  prime := fun p' set => by cases set
  recorded := fun _ member => absurd member List.not_mem_nil
  visits := fun _ member => absurd member List.not_mem_nil

end Valid

/-- In a run in which every received statement is judged by its worst value
and the placeholder is not accepted as prepared, no ballot of the node and no
recorded statement carries an invalid value; a node without a current ballot
states the placeholder in its place. -/
theorem runInputs_validity {config : SlotConfig} {inputs : List Input}
    (offered : ∀ input ∈ inputs, ∀ value, input.offers value →
      config.IsValid value)
    (received : ∀ envelope, .receiveEnvelope envelope ∈ inputs →
      Judged config envelope.statement)
    (avoids : ∀ visit ∈ (runInputs config inputs).slot.visits,
      visit.AvoidsPlaceholder config) :
    (∀ bp ∈ (runInputs config inputs).states, ∀ ballot,
      (bp.mCurrentBallot = some ballot ∨ bp.mPrepared = some ballot ∨
        bp.mPreparedPrime = some ballot ∨ bp.mHighBallot = some ballot ∨
        bp.mCommit = some ballot) → config.IsValid ballot.value) ∧
    (∀ st ∈ (runInputs config inputs).slot.mStatementsHistory.map Prod.fst,
      (∀ value ∈ st.values, config.IsValid value) ∨
      st.nodeID = config.getLocalNodeID ∧ ∃ prep,
        st.pledges = .prepare prep ∧ prep.ballot = .zero ∧
        (∀ p ∈ prep.prepared, config.IsValid p.value) ∧
        ∀ p' ∈ prep.preparedPrime, config.IsValid p'.value) ∧
    ∀ st, validateValues config st = worstLevel config st.values ↔
      Judged config st := by
  obtain ⟨view, reaches⟩ := runInputs_reaches config inputs
  have visits : (runInputs config inputs).slot.visits = view.visits :=
    reaches.records.visits
  have history : (runInputs config inputs).slot.mStatementsHistory.map
      Prod.fst = view.history := reaches.records.history
  have offers : ∀ value, (environmentOf inputs).offers value →
      config.IsValid value := by
    rintro value ⟨input, member, offers⟩
    exact offered input member value offers
  obtain ⟨_, invariant⟩ := reaches.path.invariant
    (fun view => (∀ visit ∈ view.visits, visit.AvoidsPlaceholder config) →
      view.Valid config)
    (fun view view' stable valid step avoids =>
      have before := fun visit member =>
        avoids visit (step.visits_subset member)
      step.valid stable (valid before) offers received before)
    (Slot.fresh_stable config) (fun _ => Slot.fresh_valid config)
  have valid := invariant (visits ▸ avoids)
  refine ⟨?_, ?_, validateValues_eq_worstLevel_iff config⟩
  · intro bp member
    rw [Process.states, visits] at member
    obtain ⟨visit, inside, equal⟩ := List.mem_map.mp member
    have ballots := valid.visits visit inside
    rw [equal] at ballots
    exact ballots
  · rw [history]
    intro st member
    by_cases own : st.nodeID = config.getLocalNodeID
    · have valued := valid.valued.own st member own
      cases pledged : st.pledges with
      | prepare prep =>
          rw [pledged] at valued
          have prime := valid.recorded st member prep pledged
          obtain ⟨current, prepared, _⟩ := valued
          rcases current with isValid | ⟨isZero, _⟩
          · left
            intro value inside
            simp only [SCPStatement.values, pledged, List.map_cons,
              List.mem_cons, List.map_append, List.mem_append,
              List.mem_map, Option.mem_toList] at inside
            rcases inside with here | ⟨p, set, here⟩ | ⟨p', set, here⟩
            · rw [here]
              exact isValid
            · rw [← here]
              exact prepared p set
            · rw [← here]
              exact prime p' set
          · exact .inr ⟨own, prep, rfl, isZero, prepared, prime⟩
      | confirm con =>
          rw [pledged] at valued
          have isValid : config.IsValid con.ballot.value := valued
          left
          simpa [SCPStatement.values, pledged] using isValid
      | externalize ext =>
          rw [pledged] at valued
          have isValid : config.IsValid ext.commit.value := valued
          left
          simpa [SCPStatement.values, pledged] using isValid
    · exact .inl (valid.valued.foreign st member own)

/-- The small slot with a driver that rejects `3` and the empty value and is
not sure about `4`. -/
def pickySlot (qSet : SCPQuorumSet) : SlotConfig :=
  { smallSlot qSet with
    driver :=
      { (smallSlot qSet).driver with
        validateValue := fun _ value =>
          if value = [3] ∨ value = [] then .kInvalidValue
          else if value = [4] then .kMaybeValidValue
          else .kFullyValidatedValue } }

/-- A node that follows node 1 and rejects what it should. -/
theorem validity_small :
    (∀ bp ∈ (runInputs (pickySlot ⟨1, [1], []⟩)
        [receivePrepare 1 ⟨2, [4]⟩ (some ⟨1, [4]⟩) none,
          receivePrepare 1 ⟨3, [3]⟩ none none]).states, ∀ ballot,
      (bp.mCurrentBallot = some ballot ∨ bp.mPrepared = some ballot ∨
        bp.mPreparedPrime = some ballot ∨ bp.mHighBallot = some ballot ∨
        bp.mCommit = some ballot) →
          (pickySlot ⟨1, [1], []⟩).IsValid ballot.value) ∧
    (∀ st ∈ (runInputs (pickySlot ⟨1, [1], []⟩)
        [receivePrepare 1 ⟨2, [4]⟩ (some ⟨1, [4]⟩) none,
          receivePrepare 1 ⟨3, [3]⟩ none none]
            ).slot.mStatementsHistory.map Prod.fst,
      (∀ value ∈ st.values, (pickySlot ⟨1, [1], []⟩).IsValid value) ∨
      st.nodeID = (pickySlot ⟨1, [1], []⟩).getLocalNodeID ∧ ∃ prep,
        st.pledges = .prepare prep ∧ prep.ballot = .zero ∧
        (∀ p ∈ prep.prepared, (pickySlot ⟨1, [1], []⟩).IsValid p.value) ∧
        ∀ p' ∈ prep.preparedPrime,
          (pickySlot ⟨1, [1], []⟩).IsValid p'.value) ∧
    ∀ st, validateValues (pickySlot ⟨1, [1], []⟩) st =
        worstLevel (pickySlot ⟨1, [1], []⟩) st.values ↔
      Judged (pickySlot ⟨1, [1], []⟩) st :=
  runInputs_validity
    (by
      intro input member value offers
      simp only [List.mem_cons, List.not_mem_nil, or_false] at member
      rcases member with first | second
      · rw [first] at offers
        exact absurd offers id
      · rw [second] at offers
        exact absurd offers id)
    (by
      intro envelope member
      simp only [List.mem_cons, List.not_mem_nil, or_false] at member
      rcases member with first | second
      · cases first
        decide +kernel
      · cases second
        decide +kernel)
    (by decide +kernel)

/-- An invalid value passes in `preparedPrime`, and before one that may be
valid: the first becomes `p'`, the second makes the node throw. -/
theorem validity_broken :
    (pickySlot ⟨2, [0, 1], []⟩).verdict [3] = .kInvalidValue ∧
    (runInputs (pickySlot ⟨3, [0, 1, 2], []⟩)
      [receivePrepare 1 ⟨2, [2]⟩ (some ⟨2, [2]⟩) (some ⟨1, [3]⟩),
        receivePrepare 1 ⟨3, [2]⟩ (some ⟨2, [2]⟩) (some ⟨1, [3]⟩)]
      ).slot.mBallotProtocol.mPreparedPrime = some ⟨1, [3]⟩ ∧
    validateValues (pickySlot ⟨2, [0, 1], []⟩)
      (statementOf 1 (.prepare (prepareOf 1 ⟨2, [4]⟩ (some ⟨2, [3]⟩) none
        0 0))) = .kMaybeValidValue ∧
    worstLevel (pickySlot ⟨2, [0, 1], []⟩)
      (statementOf 1 (.prepare (prepareOf 1 ⟨2, [4]⟩ (some ⟨2, [3]⟩) none
        0 0))).values = .kInvalidValue ∧
    (runInputs (pickySlot ⟨2, [0, 1], []⟩)
      [receivePrepare 1 ⟨2, [4]⟩ (some ⟨2, [3]⟩) none]).failure =
        some .movedToBadState := by
  decide +kernel

end StellarCore.Scp
