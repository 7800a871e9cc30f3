import StellarCore.Scp.CommitVotes
import StellarCore.Scp.Progression

/-!
# What the statements of a node commit it to

A statement of a node in CONFIRM or EXTERNALIZE names a value that the node
accepts as committed.  All such statements of one run name one value.  Before
a node enters EXTERNALIZE it has statements of that kind from a set of nodes
that contains a slice of its own quorum set, and a slice of the quorum set of
each statement; the statements of other nodes come out of envelopes it
received, and the envelopes it emits out of statements it recorded.
-/

namespace StellarCore.Scp

/-- The statement accepts the value as committed. -/
def SCPStatement.Commits (st : SCPStatement) (value : Value) : Prop :=
  match st.pledges with
  | .prepare _ => False
  | .confirm c => c.ballot.value = value
  | .externalize e => e.commit.value = value

theorem commits_of_commitPredicate {ballot : SCPBallot} {check : Interval}
    {st : SCPStatement} (holds : commitPredicate ballot check st = true) :
    st.Commits ballot.value := by
  unfold commitPredicate at holds
  unfold SCPStatement.Commits
  cases pledges : st.pledges with
  | prepare prep => simp [pledges] at holds
  | confirm con =>
      simp only [pledges, Bool.and_eq_true, areBallotsCompatible_iff]
        at holds
      exact holds.1.symm
  | externalize ext =>
      simp only [pledges, Bool.and_eq_true, areBallotsCompatible_iff]
        at holds
      exact holds.1.symm

/-- A set of nodes that satisfies the node and those in it, each by a
statement that accepts the value as committed. -/
def Ratified (config : SlotConfig) (history : List SCPStatement)
    (value : Value) : Prop :=
  ∃ nodes, isQuorumSlice config.localNode.mQSet nodes = true ∧
    ∀ node ∈ nodes, ∃ st ∈ history, st.nodeID = node ∧ st.Commits value ∧
      ∃ qSet, config.getQuorumSetFromStatement st = some qSet ∧
        isQuorumSlice qSet nodes = true

theorem Ratified.mono {config : SlotConfig} {few many : List SCPStatement}
    {value : Value} (subset : few ⊆ many)
    (ratified : Ratified config few value) :
    Ratified config many value := by
  obtain ⟨nodes, slice, all⟩ := ratified
  refine ⟨nodes, slice, ?_⟩
  intro node member
  obtain ⟨st, recorded, rest⟩ := all node member
  exact ⟨st, subset recorded, rest⟩

namespace SlotView

/-- The statements the node recorded for itself come out of ballots it has
had. -/
def Authored (config : SlotConfig) (view : SlotView) : Prop :=
  ∀ st ∈ view.own config, ∃ ballots : Ballots, ballots.Sound ∧
    ballots.pledges config = some st.pledges ∧ ballots.Later view.ballots

/-- Where the recorded and the emitted statements come from. -/
structure Sourced (config : SlotConfig) (environment : Environment)
    (view : SlotView) : Prop where
  received : ∀ st ∈ view.history, st.nodeID ≠ config.getLocalNodeID →
    ∃ envelope, environment.sends envelope ∧
      config.driver.verifyEnvelope envelope = true ∧
      envelope.statement.slotIndex = config.mSlotIndex ∧
      envelope.statement = st
  last : ∀ last, view.last = some last →
    last.value.statement ∈ view.own config
  emitted : ∀ emission ∈ view.emitted,
    emission.1.statement ∈ view.own config

/-- A node in EXTERNALIZE has its value ratified. -/
def Settled (config : SlotConfig) (view : SlotView) : Prop :=
  view.ballots.phase = .externalize →
    ∃ value, view.ballots.Carries value ∧
      Ratified config view.history value

end SlotView

section Commitments

variable {config : SlotConfig} {environment : Environment}
  {view view' : SlotView}

theorem SlotView.mem_own {st : SCPStatement} :
    st ∈ view.own config ↔
      st ∈ view.history ∧ st.nodeID = config.getLocalNodeID := by
  simp [SlotView.own]

/-- Statements are not forgotten. -/
theorem Step.history_subset (step : Step config environment view view') :
    view.history ⊆ view'.history := by
  intro st recorded
  exact Path.history (.single step) recorded

theorem Step.own_subset (step : Step config environment view view') :
    view.own config ⊆ view'.own config := by
  intro st member
  rw [SlotView.mem_own] at member ⊢
  exact ⟨step.history_subset member.1, member.2⟩

theorem Step.authored (step : Step config environment view view')
    (stable : view.Stable config) (authored : view.Authored config) :
    view'.Authored config := by
  have earlier : ∀ st ∈ view.own config, ∃ ballots : Ballots,
      ballots.Sound ∧ ballots.pledges config = some st.pledges ∧
        ballots.Later view'.ballots := by
    intro st member
    obtain ⟨ballots, sound, built, later⟩ := authored st member
    exact ⟨ballots, sound, built, later.trans (step.later stable)⟩
  cases step with
  | publish flag transition consistent built admitted =>
      intro st member
      rw [SlotView.own_publish] at member
      rcases List.mem_append.mp member with before | here
      · exact earlier st before
      · rw [List.mem_singleton.mp here]
        exact ⟨_, transition.sound stable.sound consistent, built, .refl _⟩
  | receive flag sent foreign verified indexed admitted final =>
      intro st member
      rw [SlotView.own_receive foreign] at member
      exact earlier st member
  | visit attempt bp ballots envelopes => exact earlier
  | keep transition consistent built same => exact earlier
  | makeLast envelope vouched newer => exact earlier
  | send last set fresh validated => exact earlier
  | externalize commit ended committed first => exact earlier
  | offer value offered => exact earlier

theorem Step.sourced (step : Step config environment view view')
    (sourced : view.Sourced config environment) :
    view'.Sourced config environment := by
  have grows := step.own_subset
  have lastStays : ∀ last, view.last = some last →
      last.value.statement ∈ view'.own config :=
    fun last set => grows (sourced.last last set)
  have emittedStays : ∀ emission ∈ view.emitted,
      emission.1.statement ∈ view'.own config :=
    fun emission member => grows (sourced.emitted emission member)
  cases step with
  | publish flag transition consistent built admitted =>
      refine ⟨?_, lastStays, emittedStays⟩
      intro st recorded foreign
      rcases List.mem_append.mp recorded with before | here
      · exact sourced.received st before foreign
      · rw [List.mem_singleton.mp here] at foreign
        exact absurd rfl foreign
  | receive flag sent foreign verified indexed admitted final =>
      refine ⟨?_, lastStays, emittedStays⟩
      intro st recorded other
      rcases List.mem_append.mp recorded with before | here
      · exact sourced.received st before other
      · exact ⟨_, sent, verified, indexed, (List.mem_singleton.mp here).symm⟩
  | makeLast envelope vouched newer =>
      refine ⟨sourced.received, ?_, emittedStays⟩
      intro last set
      cases set
      obtain ⟨recorded, _, _, _, _, _, created, _⟩ := vouched
      refine SlotView.mem_own.mpr ⟨recorded, ?_⟩
      rw [created]
      rfl
  | send last set fresh validated =>
      refine ⟨sourced.received, lastStays, ?_⟩
      intro emission member
      rcases List.mem_append.mp member with before | here
      · exact emittedStays emission before
      · rw [List.mem_singleton.mp here]
        exact lastStays last set
  | visit attempt bp ballots envelopes =>
      exact ⟨sourced.received, lastStays, emittedStays⟩
  | keep transition consistent built same =>
      exact ⟨sourced.received, lastStays, emittedStays⟩
  | externalize commit ended committed first =>
      exact ⟨sourced.received, lastStays, emittedStays⟩
  | offer value offered =>
      exact ⟨sourced.received, lastStays, emittedStays⟩

/-- What the node confirms as committed is ratified by statements it has
recorded. -/
theorem ratified_of_confirmedInterval {bp : BallotProtocol}
    {ballot : SCPBallot} (stable : view.Stable config)
    (envelopes : bp.mLatestEnvelopes = view.envelopes)
    (found : (confirmedInterval config bp ballot).first ≠ 0) :
    Ratified config view.history ballot.value := by
  obtain ⟨nodes, ⟨passes, slices⟩, slice⟩ :=
    isQuorum_iff.mp (confirmedInterval_holds found).2
  rw [envelopes] at passes slices
  refine ⟨nodes, slice, ?_⟩
  intro node member
  obtain ⟨envelope, lookup, holds⟩ := passes node member
  obtain ⟨envelope', qSet, lookup', known, inside⟩ := slices node member
  rw [lookup] at lookup'
  cases lookup'
  exact ⟨envelope.statement, stable.recorded node envelope lookup,
    stable.keyed node envelope lookup, commits_of_commitPredicate holds,
    qSet, known, inside⟩

/-- EXTERNALIZE is entered with a ratified value. -/
theorem Transition.settled {next : Ballots} {accepted : List SCPBallot}
    (transition : Transition config environment view next accepted)
    (stable : view.Stable config) (consistent : next.Consistent)
    (ended : next.phase = .externalize) :
    ∃ value, next.Carries value ∧ Ratified config view.history value := by
  have running := transition.running
  cases transition with
  | acceptPrepared hint bp ballot visited recorded _ candidate raises
      compatible accepts highest =>
      rw [Ballots.acceptPrepared_phase] at ended
      exact absurd ended running
  | confirmPrepared hint bp newH candidates visited recorded prepare found
      bounded settled => exact absurd ended running
  | acceptCommit hint bp ballot visited recorded _ prepared hinted found
      compatible =>
      unfold Ballots.acceptCommit at ended
      split at ended
      · cases ended
      · exact absurd ended running
  | confirmCommit hint bp ballot commit visited recorded confirm committed
      hinted compatible found =>
      have carries := consistent.carries rfl
      exact ⟨ballot.value, carries,
        ratified_of_confirmedInterval stable visited.envelopes found⟩
  | bump value newb _ available override counter above compatible =>
      exact absurd ended running

theorem Step.settled (step : Step config environment view view')
    (stable : view.Stable config) (settled : view.Settled config) :
    view'.Settled config := by
  have grows := step.history_subset
  cases step with
  | keep transition consistent built same =>
      intro ended
      exact transition.settled stable consistent ended
  | publish flag transition consistent built admitted =>
      intro ended
      obtain ⟨value, carries, ratified⟩ :=
        transition.settled stable consistent ended
      exact ⟨value, carries, ratified.mono grows⟩
  | receive flag sent foreign verified indexed admitted final =>
      intro ended
      obtain ⟨value, carries, ratified⟩ := settled ended
      exact ⟨value, carries, ratified.mono grows⟩
  | visit attempt bp ballots envelopes => exact settled
  | makeLast envelope vouched newer => exact settled
  | send last set fresh validated => exact settled
  | externalize commit ended committed first => exact settled
  | offer value offered => exact settled

/-- Ballots that give a statement in CONFIRM or EXTERNALIZE carry its
value. -/
theorem Ballots.carries_of_commits {ballots : Ballots} {st : SCPStatement}
    {value : Value} (sound : ballots.Sound)
    (built : ballots.pledges config = some st.pledges)
    (commits : st.Commits value) :
    ballots.phase ≠ .prepare ∧ ballots.Carries value := by
  unfold SCPStatement.Commits at commits
  cases pledged : st.pledges with
  | prepare prep => simp [pledged] at commits
  | confirm con =>
      rw [pledged] at built
      simp only [pledged] at commits
      obtain ⟨phase, c, h, b, p, commit, _, current, _, fields⟩ :=
        Ballots.pledges_confirm built
      obtain ⟨h', b', high, current', ⟨_, low⟩, _, top⟩ :=
        sound.consistent.commit c commit
      rw [current] at current'
      cases current'
      have same : b.value = value := by rw [← commits, fields]
      refine ⟨by simp [phase], b, h', c, current, high, commit, same, ?_, ?_⟩
      · exact top.trans same
      · exact (low.trans top).trans same
  | externalize ext =>
      rw [pledged] at built
      simp only [pledged] at commits
      obtain ⟨phase, c, h, commit, _, fields⟩ :=
        Ballots.pledges_externalize built
      have same : c.value = value := by rw [← commits, fields]
      rw [← same]
      exact ⟨by simp [phase], sound.consistent.carries commit⟩

theorem SlotView.Authored.carries {st : SCPStatement} {value : Value}
    (authored : view.Authored config) (member : st ∈ view.own config)
    (commits : st.Commits value) : view.ballots.Carries value := by
  obtain ⟨ballots, sound, built, later⟩ := authored st member
  obtain ⟨started, carries⟩ :=
    Ballots.carries_of_commits sound built commits
  exact later.value value started carries

/-- A node that has recorded EXTERNALIZE for itself is in it. -/
theorem SlotView.Authored.ended {st : SCPStatement} {ext : Externalize}
    (authored : view.Authored config) (member : st ∈ view.own config)
    (pledged : st.pledges = .externalize ext) :
    view.ballots.phase = .externalize := by
  obtain ⟨ballots, _, built, later⟩ := authored st member
  rw [pledged] at built
  exact later.externalize (Ballots.pledges_externalize built).1

theorem SlotView.Authored.hashed {st : SCPStatement} {con : Confirm}
    (authored : view.Authored config) (member : st ∈ view.own config)
    (pledged : st.pledges = .confirm con) :
    con.quorumSetHash = config.localNode.mQSetHash := by
  obtain ⟨ballots, _, built, _⟩ := authored st member
  rw [pledged] at built
  obtain ⟨_, _, _, _, _, _, _, _, _, fields⟩ :=
    Ballots.pledges_confirm built
  rw [fields]

/-- What a node has recorded as externalized is ratified. -/
theorem SlotView.Settled.ratified {st : SCPStatement} {ext : Externalize}
    (settled : view.Settled config) (authored : view.Authored config)
    (member : st ∈ view.own config)
    (pledged : st.pledges = .externalize ext) :
    Ratified config view.history ext.commit.value := by
  obtain ⟨value, carries, ratified⟩ :=
    settled (authored.ended member pledged)
  have commits : st.Commits ext.commit.value := by
    simp [SCPStatement.Commits, pledged]
  rw [(authored.carries member commits).unique carries]
  exact ratified

/-- A node in EXTERNALIZE has recorded it. -/
theorem SlotView.Stable.own_externalize {value : Value}
    (stable : view.Stable config)
    (ended : view.ballots.phase = .externalize)
    (carries : view.ballots.Carries value) :
    ∃ st ∈ view.own config, ∃ ext,
      st.pledges = .externalize ext ∧ ext.commit.value = value := by
  obtain ⟨_, h, c, _, high, commit, _, _, same⟩ := carries
  cases lookup : view.envelopes.lookup config.getLocalNodeID with
  | none =>
      rw [stable.silent lookup] at ended
      cases ended
  | some envelope =>
      obtain ⟨pledges, built, created⟩ := stable.own envelope lookup
      refine ⟨envelope.statement, SlotView.mem_own.mpr
        ⟨stable.recorded _ _ lookup, stable.keyed _ _ lookup⟩, ?_⟩
      simp only [Ballots.pledges, ended, commit, high, Option.some.injEq]
        at built
      refine ⟨⟨c, h.counter, config.localNode.mQSetHash⟩, ?_, same⟩
      rw [created, SlotConfig.createEnvelope_pledges, ← built]

end Commitments

/-! ## The commitments of a run -/

/-- What the records of a process say about its commitments. -/
structure Process.Commitments (config : SlotConfig) (inputs : List Input)
    (process : Process) : Prop where
  unique : ∀ first ∈ process.slot.view.own config,
    ∀ second ∈ process.slot.view.own config, ∀ value other,
      first.Commits value → second.Commits other → value = other
  hashed : ∀ st ∈ process.slot.view.own config, ∀ con,
    st.pledges = .confirm con →
      con.quorumSetHash = config.localNode.mQSetHash
  ratified : ∀ st ∈ process.slot.view.own config, ∀ ext,
    st.pledges = .externalize ext →
      Ratified config process.slot.view.history ext.commit.value
  received : ∀ st ∈ process.slot.view.history,
    st.nodeID ≠ config.getLocalNodeID →
      ∃ envelope, .receiveEnvelope envelope ∈ inputs ∧
        config.driver.verifyEnvelope envelope = true ∧
        envelope.statement.slotIndex = config.mSlotIndex ∧
        envelope.statement = st
  emitted : ∀ envelope ∈ process.slot.emittedEnvelopes,
    envelope.statement ∈ process.slot.view.own config
  externalized : ∀ value ∈ process.slot.externalizedValues,
    ∃ st ∈ process.slot.view.own config, ∃ ext,
      st.pledges = .externalize ext ∧ ext.commit.value = value

section Runs

variable (config : SlotConfig) (inputs : List Input)

theorem Slot.fresh_authored : (Slot.fresh config).view.Authored config :=
  fun _ member => absurd member List.not_mem_nil

theorem Slot.fresh_sourced (environment : Environment) :
    (Slot.fresh config).view.Sourced config environment where
  received := fun _ member => absurd member List.not_mem_nil
  last := fun _ impossible => by cases impossible
  emitted := fun _ member => absurd member List.not_mem_nil

theorem Slot.fresh_settled : (Slot.fresh config).view.Settled config :=
  fun impossible => by cases impossible

theorem runInputs_commitments :
    (runInputs config inputs).Commitments config inputs := by
  obtain ⟨view, reaches⟩ := runInputs_reaches config inputs
  obtain ⟨stable, authored, sourced, settled, ordered⟩ :=
    reaches.path.invariant
      (fun view => view.Authored config ∧
        view.Sourced config (environmentOf inputs) ∧
        view.Settled config ∧ view.Ordered)
      (fun _ _ stable all step =>
        ⟨step.authored stable all.1, step.sourced all.2.1,
          step.settled stable all.2.2.1, step.ordered stable all.2.2.2⟩)
      (Slot.fresh_stable config)
      ⟨Slot.fresh_authored config, Slot.fresh_sourced config _,
        Slot.fresh_settled config, Slot.fresh_ordered config⟩
  have history : (runInputs config inputs).slot.view.history =
      view.history := reaches.records.history
  have own : (runInputs config inputs).slot.view.own config =
      view.own config := by
    unfold SlotView.own
    rw [history]
  have externalized : (runInputs config inputs).slot.externalizedValues =
      view.externalized := reaches.records.externalized
  have emitted : (runInputs config inputs).slot.emissions = view.emitted :=
    reaches.records.emitted
  refine ⟨?_, ?_, ?_, ?_, ?_, ?_⟩
  · rw [own]
    intro first firstOwn second secondOwn value other commits commits'
    exact (authored.carries firstOwn commits).unique
      (authored.carries secondOwn commits')
  · rw [own]
    intro st member con pledged
    exact authored.hashed member pledged
  · rw [own, history]
    intro st member ext pledged
    exact settled.ratified authored member pledged
  · rw [history]
    exact sourced.received
  · rw [own, Slot.emittedEnvelopes_eq, emitted]
    intro envelope member
    obtain ⟨emission, inside, first⟩ := List.mem_map.mp member
    rw [← first]
    exact sourced.emitted emission inside
  · rw [own, externalized]
    intro value member
    obtain ⟨ended, carries⟩ := ordered.externalized value member
    exact stable.own_externalize ended carries

/-- One more input does not take back what was recorded. -/
theorem runInputs_history_subset (input : Input) :
    (runInputs config inputs).slot.view.history ⊆
      (runInputs config (inputs ++ [input])).slot.view.history := by
  obtain ⟨view, reaches⟩ := runInputs_reaches config inputs
  have stable := reaches.path.stable (Slot.fresh_stable config)
  have one : runInputs config (inputs ++ [input]) =
      (runInputs config inputs).handle config input := by
    unfold runInputs
    rw [List.foldl_append]
    rfl
  rw [one]
  unfold Process.handle Process.run
  cases failure : (runInputs config inputs).failure with
  | some reason => exact List.Subset.refl _
  | none =>
      rw [← reaches.alive failure] at stable
      have result := perform_ends input stable
      cases outcome : perform config input (runInputs config inputs).slot with
      | ok _ finish =>
          intro st recorded
          exact (result.of_ok outcome).history recorded
      | error reason finish =>
          obtain ⟨later, path, records, _⟩ := result.of_error outcome
          intro st recorded
          have there := path.history recorded
          rw [← records.history] at there
          exact there

end Runs

end StellarCore.Scp
