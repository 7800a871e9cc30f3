import StellarCore.Scp.Advance

/-!
# Every run of a slot is a path

The environment of a list of inputs offers the values and delivers the
envelopes that occur in it.  Whatever the inputs are, the run follows a path
of steps under that environment; a process that has ended has followed one up
to the failure, which the last view explains.
-/

namespace StellarCore.Scp

open StellarCore.Lib

def Input.offers (input : Input) (value : Value) : Prop :=
  match input with
  | .bumpState offered _ => offered = value
  | .updatedCandidateValue offered => offered = value
  | _ => False

/-- What the inputs contribute to the run of a slot. -/
def environmentOf (inputs : List Input) : Environment :=
  { offers := fun value => ∃ input ∈ inputs, input.offers value
    sends := fun envelope => .receiveEnvelope envelope ∈ inputs }

theorem environmentOf_offers_mono {few many : List Input}
    (subset : few ⊆ many) :
    ∀ value, (environmentOf few).offers value →
      (environmentOf many).offers value := by
  rintro value ⟨input, member, offered⟩
  exact ⟨input, subset member, offered⟩

theorem Path.of_inputs {config : SlotConfig} {few many : List Input}
    {view view' : SlotView} (subset : few ⊆ many)
    (path : Path config (environmentOf few) view view') :
    Path config (environmentOf many) view view' :=
  path.mono (environmentOf_offers_mono subset)
    (fun _ sent => subset sent)

theorem Blame.mono {config : SlotConfig} {few many : Environment}
    {view : SlotView} {reason : Failure}
    (offers : ∀ value, few.offers value → many.offers value)
    (blame : Blame config few view reason) :
    Blame config many view reason := by
  unfold Blame at blame ⊢
  split at blame
  · obtain ⟨next, accepted, transition, inconsistent⟩ := blame
    exact ⟨next, accepted, transition.mono offers, inconsistent⟩
  · obtain ⟨next, accepted, transition, inconsistent⟩ := blame
    exact ⟨next, accepted, transition.mono offers, inconsistent⟩
  · obtain ⟨next, accepted, pledges, transition, rest⟩ := blame
    exact ⟨next, accepted, pledges, transition.mono offers, rest⟩
  · exact blame
  · exact blame
  · exact blame
  · exact blame
  · trivial

/-- The process has followed a path to the view; if it has ended, only its
records are those of the view. -/
structure Process.Reaches (config : SlotConfig) (environment : Environment)
    (start : SlotView) (process : Process) (view : SlotView) : Prop where
  path : Path config environment start view
  alive : process.failure = none → process.slot.view = view
  records : process.slot.view.SameRecords view
  explained : ∀ reason, process.failure = some reason →
    Blame config environment view reason

section Runs

variable {config : SlotConfig} {slot : Slot}

theorem Slot.fresh_stable (config : SlotConfig) :
    (Slot.fresh config).view.Stable config where
  sound := Ballots.initial_sound
  own := fun envelope found => by
    simp [Slot.view, Slot.fresh] at found
  silent := fun _ => rfl
  keyed := fun node envelope found => by
    simp [Slot.view, Slot.fresh] at found
  recorded := fun node envelope found => by
    simp [Slot.view, Slot.fresh] at found
  unfinished := fun _ => rfl

/-- The end of a program that worked on an input. -/
def Followed (config : SlotConfig) (environment : Environment)
    (start : SlotView) (reason : Failure) (finish : Slot) : Prop :=
  ∃ view, Path config environment start view ∧
    finish.view.SameRecords view ∧ Blame config environment view reason

theorem Crashed.followed {environment : Environment} {start : SlotView}
    {reason : Failure}
    (crashed : Crashed config environment start reason slot) :
    Followed config environment start reason slot := by
  obtain ⟨view, path, records, blame⟩ := crashed
  refine ⟨view, path.of_silent, records, blame.mono ?_⟩
  intro value offered
  exact offered

theorem receiveEnvelope_ends {environment : Environment}
    {envelope : SCPEnvelope} (stable : slot.view.Stable config)
    (sent : environment.sends envelope) :
    Ends (receiveEnvelope config envelope) slot
      (fun _ finish => Path config environment slot.view finish.view)
      (Followed config environment slot.view) := by
  unfold receiveEnvelope
  simp only [Ends.ite_iff, Ends.pure_iff, Ends.bind_iff]
  refine ⟨fun _ => .refl, ?_⟩
  intro foreign
  refine ⟨fun _ => .refl, ?_⟩
  intro verified
  refine ⟨fun _ => .refl, ?_⟩
  intro notOther
  have indexed : envelope.statement.slotIndex = config.mSlotIndex :=
    not_not.mp notOther
  have plain : ∀ reason : Failure, reason.Plain →
      Followed config environment slot.view reason slot :=
    fun reason plain =>
      ⟨slot.view, .refl, .refl _, plain _ _ _⟩
  have receive : ∀ flag,
      slot.view.Admits config envelope.statement false →
      (slot.view.ballots.phase = .externalize →
        ∃ commit, slot.view.ballots.commit = some commit ∧
          commit.value = (getWorkingBallot envelope.statement).value) →
      Step config environment slot.view
        (slot.recorded flag envelope).view := by
    intro flag admitted final
    rw [Slot.recorded_view]
    exact .receive flag sent foreign (by simpa using verified) indexed
      admitted final
  refine processEnvelope_ends indexed (plain _ fun _ _ _ => trivial)
    (fun _ => .refl) ?_ (fun _ _ => plain _ fun _ _ _ => trivial) ?_
  · intro admitted running flag
    have step := receive flag admitted
      (fun ended => absurd ended running)
    refine (advanceSlot_ends config environment _ _ (step.stable stable)
      ?_).mono ?_ ?_
    · refine ⟨envelope.statement.nodeID, envelope, ?_, rfl⟩
      rw [Slot.recorded_view]
      simp [SlotView.record]
    · intro _ finish advanced
      exact advanced.path.of_silent.head step
    · intro reason finish crashed
      obtain ⟨view, path, records, blame⟩ := crashed.followed
      exact ⟨view, path.head step, records, blame⟩
  · intro admitted ended commit set
    split
    · rename_i agrees
      exact .single (receive _ admitted
        (fun _ => ⟨commit, set, agrees⟩))
    · exact .refl

theorem perform_ends (input : Input) (stable : slot.view.Stable config) :
    Ends (perform config input) slot
      (fun _ finish =>
        Path config (environmentOf [input]) slot.view finish.view)
      (Followed config (environmentOf [input]) slot.view) := by
  have advances := advanceSlot_ends config (environmentOf [input])
  cases input with
  | receiveEnvelope envelope =>
      exact receiveEnvelope_ends stable (List.mem_singleton.mpr rfl)
  | bumpState value force =>
      unfold perform
      simp only [Ends.bind_iff, Ends.pure_iff]
      refine (bumpState_ends advances stable ?_).mono
        (fun _ _ moved => moved.path.of_silent)
        (fun _ _ crashed => crashed.followed)
      exact .inl ⟨_, List.mem_singleton.mpr rfl, rfl⟩
  | abandonBallot =>
      unfold perform
      simp only [Ends.bind_iff, Ends.pure_iff]
      exact (abandonBallot_ends advances stable).mono
        (fun _ _ moved => moved.path.of_silent)
        (fun _ _ crashed => crashed.followed)
  | ballotProtocolTimerExpired =>
      unfold perform
      exact (ballotProtocolTimerExpired_ends advances stable).mono
        (fun _ _ path => path.of_silent)
        (fun _ _ crashed => crashed.followed)
  | updatedCandidateValue value =>
      unfold perform updatedCandidateValue
      simp only [Ends.bind_iff, Ends.modify_iff, Ends.pure_iff]
      have offered : (environmentOf
          [.updatedCandidateValue value]).offers value :=
        ⟨_, List.mem_singleton.mpr rfl, rfl⟩
      have step : Step config
          (environmentOf [.updatedCandidateValue value]) slot.view
          (Slot.view { slot with mLatestCompositeCandidate := value }) :=
        .offer value offered
      refine (bumpState_ends advances (step.stable stable) ?_).mono ?_ ?_
      · exact .inl offered
      · intro _ finish moved
        exact moved.path.of_silent.head step
      · intro reason finish crashed
        obtain ⟨view, path, records, blame⟩ := crashed.followed
        exact ⟨view, path.head step, records, blame⟩

theorem Process.run_reaches {environment : Environment} {start : SlotView}
    {process : Process} {view : SlotView} {program : BallotM Unit}
    (reaches : process.Reaches config environment start view)
    (ends : process.failure = none →
      Ends program process.slot
        (fun _ finish =>
          Path config environment process.slot.view finish.view)
        (Followed config environment process.slot.view)) :
    ∃ later, (process.run program).Reaches config environment start later := by
  unfold Process.run
  cases failure : process.failure with
  | some reason =>
      exact ⟨view, reaches.path, reaches.alive, reaches.records,
        reaches.explained⟩
  | none =>
      have here := reaches.alive failure
      have result := ends failure
      cases outcome : program process.slot with
      | ok _ finish =>
          have path := result.of_ok outcome
          rw [here] at path
          have waits := Slot.visiting_step config environment finish .idle
          exact ⟨(finish.visiting .idle).view,
            (reaches.path.trans path).tail waits, fun _ => rfl,
            .refl _, fun _ impossible => by cases impossible⟩
      | error reason finish =>
          obtain ⟨later, path, records, blame⟩ := result.of_error outcome
          rw [here] at path
          refine ⟨later, reaches.path.trans path,
            fun impossible => (by cases impossible), records, ?_⟩
          intro reason' equal
          cases equal
          exact blame

/-- A process that handles inputs in a stable view goes on along a path. -/
theorem Process.handle_reaches {inputs rest : List Input}
    {process : Process} {start view : SlotView}
    (stable : start.Stable config) (subset : rest ⊆ inputs)
    (reaches : process.Reaches config (environmentOf inputs) start view) :
    ∃ later, Process.Reaches config (environmentOf inputs) start
      (rest.foldl (Process.handle config) process) later := by
  induction rest generalizing process view with
  | nil => exact ⟨view, reaches⟩
  | cons input rest ih =>
      have inside : [input] ⊆ inputs := by
        intro other member
        rw [List.mem_singleton.mp member]
        exact subset List.mem_cons_self
      obtain ⟨middle, next⟩ : ∃ middle,
          (process.handle config input).Reaches config
            (environmentOf inputs) start middle := by
        refine Process.run_reaches reaches ?_
        intro failure
        have stableHere : process.slot.view.Stable config := by
          rw [reaches.alive failure]
          exact reaches.path.stable stable
        refine (perform_ends input stableHere).mono ?_ ?_
        · intro _ finish path
          exact path.of_inputs inside
        · rintro reason finish ⟨view, path, records, blame⟩
          exact ⟨view, path.of_inputs inside, records,
            blame.mono (environmentOf_offers_mono inside)⟩
      exact ih (fun other member => subset (List.mem_cons_of_mem _ member))
        next

/-- Every run follows a path. -/
theorem runInputs_reaches (config : SlotConfig) (inputs : List Input) :
    ∃ view, (runInputs config inputs).Reaches config (environmentOf inputs)
      (Slot.fresh config).view view := by
  have waits := Slot.visiting_step config (environmentOf inputs)
    (Slot.fresh config) .idle
  have begins : (Process.start config).Reaches config
      (environmentOf inputs) (Slot.fresh config).view
      ((Slot.fresh config).visiting .idle).view :=
    ⟨.single waits, fun _ => rfl, .refl _,
      fun _ impossible => by cases impossible⟩
  exact Process.handle_reaches (Slot.fresh_stable config)
    (List.Subset.refl _) begins

/-- A process that has not failed waits in a state of its run. -/
theorem runInputs_state_mem (config : SlotConfig) (inputs : List Input)
    (alive : (runInputs config inputs).failure = none) :
    (runInputs config inputs).slot.mBallotProtocol ∈
      (runInputs config inputs).states := by
  have waiting : ∀ slot : Slot, slot.mBallotProtocol ∈
      (slot.visiting .idle).visits.map Visit.ballotProtocol := by
    intro slot
    simp [Slot.visiting]
  induction inputs using List.reverseRecOn with
  | nil => exact waiting (Slot.fresh config)
  | append_singleton inputs input ih =>
      unfold runInputs at alive ⊢
      unfold Process.states
      rw [List.foldl_concat] at alive ⊢
      generalize List.foldl (Process.handle config) (Process.start config)
        inputs = process at alive ⊢
      unfold Process.handle Process.run at alive ⊢
      cases failure : process.failure with
      | some reason => simp [failure] at alive
      | none =>
          simp only [failure] at alive ⊢
          cases outcome : perform config input process.slot with
          | ok result slot => exact waiting slot
          | error reason slot => simp [outcome] at alive

end Runs

/-! ## A small slot -/

/-- The slot of node 0 among peers that are slices by themselves; the hash of
a peer's quorum set is its identity. -/
def smallSlot (qSet : SCPQuorumSet) : SlotConfig :=
  { driver :=
      { getQSet := fun hash =>
          if hash = 0 then some qSet else some (buildSingletonQSet hash)
        validateValue := fun _ _ => .kFullyValidatedValue
        signEnvelope := fun _ => []
        verifyEnvelope := fun _ => true }
    localNode :=
      { mNodeID := 0
        mIsValidator := true
        mQSet := qSet
        mQSetHash := 0 }
    mSlotIndex := 1 }

def prepareOf (node : NodeID) (ballot : SCPBallot)
    (prepared preparedPrime : Option SCPBallot) (nC nH : Uint32) : Prepare :=
  { quorumSetHash := node
    ballot := ballot
    prepared := prepared
    preparedPrime := preparedPrime
    nC := nC
    nH := nH }

/-- A statement of a node in the small slot. -/
def statementOf (node : NodeID) (pledges : Pledges) : SCPStatement :=
  { nodeID := node
    slotIndex := 1
    pledges := pledges }

def receiveFrom (node : NodeID) (pledges : Pledges) : Input :=
  .receiveEnvelope ⟨statementOf node pledges, []⟩

def receivePrepare (node : NodeID) (ballot : SCPBallot)
    (prepared preparedPrime : Option SCPBallot) : Input :=
  receiveFrom node
    (.prepare (prepareOf node ballot prepared preparedPrime 0 0))

end StellarCore.Scp
