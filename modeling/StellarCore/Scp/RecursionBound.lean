import StellarCore.Scp.NestedCalls
import StellarCore.Scp.Restart

/-!
# The recursion of advanceSlot is bounded

Every nested call has less to do than the call it is made from: `Pending`
ranks a published state by the steps it may still take, and each step leads
to a state of a lower rank.  The ranks bound the nesting level for every
state and every input, so the test of `advanceSlot` against
`MAX_ADVANCE_SLOT_RECURSION` never fails.
-/

namespace StellarCore.Scp

open StellarCore.Lib

/-! ## Ranks -/

/-- What a call of `advanceSlot` does not take back. -/
structure Onward (config : SlotConfig) (before after : BallotProtocol) :
    Prop where
  level : after.mCurrentMessageLevel = before.mCurrentMessageLevel
  others : SameOthers config before after
  phase : before.mPhase.number ≤ after.mPhase.number
  current : after.mPhase = before.mPhase →
    before.mCurrentBallot.getD .zero ≤ after.mCurrentBallot.getD .zero
  covered : after.mPhase = .prepare → ∀ ballot,
    after.ballots.Raises ballot → before.ballots.Raises ballot

/-- In PREPARE a node has at least three steps to go, and fewer than five
only if there is nothing to accept; in CONFIRM it has at most two. -/
structure Pending (config : SlotConfig) (pledges : Pledges)
    (bp : BallotProtocol) (rank : Nat) : Prop where
  prepare : bp.mPhase = .prepare → 3 ≤ rank
  accepts : rank ≤ 1 ∨ bp.mPhase = .prepare ∧ rank ≤ 4 →
    AcceptsNothing config bp (config.statement pledges)
  confirms : bp.mPhase = .prepare → rank ≤ 3 →
    ConfirmsNothing config bp (config.statement pledges)
  commits : rank = 0 → CommitsNothing config bp

/-- The end of a call that had `rank` steps to go. -/
structure Handled (config : SlotConfig) (rank : Nat)
    (before after : BallotProtocol) : Prop where
  onward : Onward config before after
  pending : after.mPhase ≠ .externalize →
    ∃ pledges, Publishes config pledges after ∧
      Pending config pledges after rank

/-- A nested call on a state with `rank` steps to go succeeds. -/
def Handles (config : SlotConfig)
    (advanceSlot : SCPStatement → BallotM Unit) (rank : Nat) : Prop :=
  ∀ slot pledges, Publishes config pledges slot.core →
    slot.core.mPhase ≠ .externalize →
    Pending config pledges slot.core rank →
    0 < slot.core.mCurrentMessageLevel →
    slot.core.mCurrentMessageLevel + rank + 1 ≤ deepestLevel →
    Leads (advanceSlot (config.statement pledges)) slot
      (fun _ => Handled config rank slot.core)

section Ranks

variable {config : SlotConfig} {pledges : Pledges}
  {bp before after : BallotProtocol} {rank : Nat}

theorem Onward.refl (bp : BallotProtocol) : Onward config bp bp where
  level := rfl
  others := fun _ _ => rfl
  phase := le_refl _
  current := fun _ => le_refl _
  covered := fun _ _ raises => raises

theorem SCPPhase.eq_of_number {first second third : SCPPhase}
    (earlier : first.number ≤ second.number)
    (later : second.number ≤ third.number) (same : third = first) :
    second = first := by
  subst same
  exact SCPPhase.number_injective (le_antisymm later earlier)

theorem SCPPhase.prepare_of_number {first second : SCPPhase}
    (earlier : first.number ≤ second.number) (prepare : second = .prepare) :
    first = .prepare := by
  subst prepare
  exact SCPPhase.number_injective (Nat.le_zero.mp earlier)

theorem Onward.trans {first second third : BallotProtocol}
    (earlier : Onward config first second)
    (later : Onward config second third) : Onward config first third where
  level := later.level.trans earlier.level
  others := fun node foreign =>
    (later.others node foreign).trans (earlier.others node foreign)
  phase := earlier.phase.trans later.phase
  current := by
    intro same
    have middle := SCPPhase.eq_of_number earlier.phase later.phase same
    exact (earlier.current middle).trans
      (later.current (same.trans middle.symm))
  covered := by
    intro prepare ballot raises
    have middle := SCPPhase.prepare_of_number later.phase prepare
    exact earlier.covered middle ballot
      (later.covered prepare ballot raises)

theorem Onward.recording (bp : BallotProtocol) (pledges : Pledges) :
    Onward config bp (bp.recording (config.createEnvelope pledges)) where
  level := rfl
  others := by
    intro node foreign
    exact AList.lookup_insert_ne foreign
  phase := le_refl _
  current := fun _ => le_refl _
  covered := fun _ _ raises => raises

theorem Pending.mono {rank' : Nat} (pending : Pending config pledges bp rank)
    (below : rank ≤ rank') : Pending config pledges bp rank' where
  prepare := fun phase => (pending.prepare phase).trans below
  accepts := by
    intro small
    refine pending.accepts (small.imp ?_ ?_)
    · exact fun few => below.trans few
    · exact fun both => ⟨both.1, below.trans both.2⟩
  confirms := fun phase few => pending.confirms phase (below.trans few)
  commits := fun zero => pending.commits (Nat.le_zero.mp (zero ▸ below))

theorem Handled.mono {rank' : Nat}
    (handled : Handled config rank before after) (below : rank ≤ rank') :
    Handled config rank' before after := by
  refine ⟨handled.onward, fun running => ?_⟩
  obtain ⟨pledges, published, pending⟩ := handled.pending running
  exact ⟨pledges, published, pending.mono below⟩

theorem Handled.of_onward {start : BallotProtocol}
    (onward : Onward config start before)
    (handled : Handled config rank before after) :
    Handled config rank start after :=
  ⟨onward.trans handled.onward, handled.pending⟩

/-- A step that ends the slot makes no nested call. -/
theorem publication_ended {advanceSlot : SCPStatement → BallotM Unit}
    (onward : Onward config before bp) (ended : bp.mPhase = .externalize) :
    Publication config advanceSlot bp (Handled config rank before) := by
  rintro slot rfl
  refine emitCurrentStateStatement_leads ?_ ?_ ?_
  · intro pledges _
    exact ⟨onward, fun running => absurd ended running⟩
  · intro pledges later _ _ running
    exact absurd ended running
  · intro pledges _
    exact ⟨onward.trans (.recording _ _), fun running =>
      absurd ended running⟩

/-- A step to a state with fewer steps to go. -/
theorem publication_handled {advanceSlot : SCPStatement → BallotM Unit}
    (handles : Handles config advanceSlot rank)
    (onward : Onward config before bp)
    (nested : 0 < bp.mCurrentMessageLevel)
    (depth : bp.mCurrentMessageLevel + rank + 1 ≤ deepestLevel)
    (pending : ∀ pledges later, later.ballots = bp.ballots →
      SameOthers config bp later → Publishes config pledges later →
      later.mPhase ≠ .externalize → Pending config pledges later rank) :
    Publication config advanceSlot bp (Handled config rank before) := by
  rintro slot rfl
  refine emitCurrentStateStatement_leads ?_ ?_ ?_
  · intro pledges published
    exact ⟨onward, fun running => ⟨pledges, published,
      pending pledges _ rfl (fun _ _ => rfl) published running⟩⟩
  · intro pledges later recorded published running
    have step : Onward config slot.core later.core := by
      rw [recorded]
      exact .recording _ _
    have phase : later.core.mPhase ≠ .externalize := by
      rw [recorded]
      exact running
    have ballots : later.core.ballots = slot.core.ballots := by
      rw [recorded]
      rfl
    rw [← step.level] at nested depth
    refine (handles later pledges published phase
      (pending pledges _ ballots step.others published phase) nested
      depth).mono ?_
    intro _ core handled
    exact handled.of_onward (onward.trans step)
  · intro pledges ended
    exact ⟨onward.trans (.recording _ _), fun running =>
      absurd ended running⟩

end Ranks

/-! ## The steps -/

section Steps

variable {config : SlotConfig} {old new pledges : Pledges}
  {bp before after : BallotProtocol} {ballot c h newC newH : SCPBallot}

theorem le_raiseTo (current : Option SCPBallot) (high : SCPBallot) :
    current.getD .zero ≤ (raiseTo current high).getD .zero := by
  cases current with
  | none => exact SCPBallot.zero_le _
  | some b =>
      by_cases less : b < high
      · simp [raiseTo, less, less.le]
      · simp [raiseTo, less]

theorem Onward.acceptPrepared (consistent : bp.ballots.Consistent)
    (raises : bp.ballots.Raises ballot) :
    Onward config bp
      (bp.withBallots (bp.ballots.acceptPrepared ballot)) where
  level := rfl
  others := fun _ _ => rfl
  phase := by
    show bp.mPhase.number ≤ (bp.ballots.acceptPrepared ballot).phase.number
    rw [Ballots.acceptPrepared_phase]
    exact le_refl _
  current := by
    intro _
    show _ ≤ (bp.ballots.acceptPrepared ballot).current.getD .zero
    rw [Ballots.acceptPrepared_current]
    exact le_refl _
  covered := by
    intro _ other later
    exact .of_withPrepared consistent raises later.of_acceptPrepared

theorem Onward.confirmPrepared :
    Onward config bp
      (bp.withBallots (bp.ballots.confirmPrepared newC newH)) where
  level := rfl
  others := fun _ _ => rfl
  phase := le_refl _
  current := fun _ => le_raiseTo _ _
  covered := fun _ _ later => ⟨later.above, later.notCovered⟩

theorem Ballots.acceptCommit_phase {ballots : Ballots}
    (running : ballots.phase ≠ .externalize) :
    (ballots.acceptCommit c h).phase = .confirm := by
  rw [Ballots.acceptCommit]
  split
  · rfl
  · rename_i started
    cases phase : ballots.phase with
    | prepare => exact absurd phase started
    | confirm => rfl
    | externalize => exact absurd phase running

theorem Onward.acceptCommit (running : bp.mPhase ≠ .externalize) :
    Onward config bp (bp.withBallots (bp.ballots.acceptCommit c h)) := by
  cases phase : bp.mPhase with
  | externalize => exact absurd phase running
  | prepare =>
      have entered : (bp.ballots.acceptCommit c h).phase = .confirm :=
        Ballots.acceptCommit_phase running
      exact
        { level := rfl
          others := fun _ _ => rfl
          phase := by
            show bp.mPhase.number ≤
              (bp.ballots.acceptCommit c h).phase.number
            rw [entered, phase]
            exact Nat.zero_le _
          current := by
            intro same
            have back : (bp.ballots.acceptCommit c h).phase = .prepare :=
              same.trans phase
            rw [entered] at back
            cases back
          covered := by
            intro back
            have impossible : (bp.ballots.acceptCommit c h).phase =
              .prepare := back
            rw [entered] at impossible
            cases impossible }
  | confirm =>
      rw [Ballots.acceptCommit_confirm phase]
      exact
        { level := rfl
          others := fun _ _ => rfl
          phase := le_refl _
          current := fun _ => le_raiseTo _ _
          covered := fun _ _ later => ⟨later.above, later.notCovered⟩ }

theorem Onward.confirmCommit (confirm : bp.mPhase = .confirm) :
    Onward config bp
      (bp.withBallots (bp.ballots.confirmCommit c h)) where
  level := rfl
  others := fun _ _ => rfl
  phase := by
    rw [confirm]
    exact Nat.le_succ _
  current := by
    intro same
    rw [confirm] at same
    cases same
  covered := fun back => by cases back

/-- A confirmed ballot raises the current ballot only over ballots that the
hint's ballots cover. -/
theorem Republishes.acceptsNothing_confirmPrepared {start : BallotProtocol}
    (republished : Republishes config old new before after)
    (prepare : before.mPhase = .prepare)
    (moved : after.ballots = before.ballots.confirmPrepared newC newH)
    (nothing : AcceptsNothing config before (config.statement old))
    (published : Publishes config pledges start)
    (onward : Onward config start before)
    (candidate : newH ∈
      getPrepareCandidates before (config.statement pledges)) :
    AcceptsNothing config after (config.statement new) := by
  have startPrepare : start.mPhase = .prepare :=
    SCPPhase.prepare_of_number onward.phase prepare
  have may : ∀ other, after.ballots.MayAccept other →
      before.ballots.MayAccept other := by
    intro other later
    rw [moved] at later
    exact ⟨⟨later.raises.above, later.raises.notCovered⟩, later.compatible⟩
  have newTop : new.topVote =
      (raiseTo before.mCurrentBallot newH).getD .zero := by
    rw [republished.second.topVote republished.running, moved]
    simp only [Ballots.topVote, Ballots.confirmPrepared,
      BallotProtocol.ballots_phase, prepare]
    rfl
  have oldTop : old.topVote = before.mCurrentBallot.getD .zero := by
    rw [republished.first.topVote republished.started]
    simp only [Ballots.topVote, BallotProtocol.ballots_phase, prepare]
    rfl
  refine republished.acceptsNothing_kept nothing may ?_
  obtain ⟨top, hinted, node, envelope, _, inside⟩ :=
    mem_getPrepareCandidates.mp candidate
  obtain ⟨below, same⟩ := le_of_mem_candidatesFrom inside
  rw [published.mem_hintBallots startPrepare] at hinted
  rcases hinted with current | covered
  · left
    have bounded : newH ≤ before.mCurrentBallot.getD .zero := by
      rw [current] at below
      exact below.trans (onward.current (prepare.trans startPrepare.symm))
    rw [newTop, oldTop]
    cases set : before.mCurrentBallot with
    | none =>
        rw [set] at bounded
        exact le_antisymm bounded (SCPBallot.zero_le _)
    | some b =>
        rw [set, Option.getD_some] at bounded
        simp [raiseTo, not_lt.mpr bounded]
  · rcases Ballots.raiseTo_cases before.mCurrentBallot newH with
      lifted | ⟨b, set, _, kept⟩
    · right
      rw [newTop, lifted]
      intro other otherBelow otherSame later
      have raises := onward.covered prepare other (may other later).raises
      have lower : other ≤ top ∧ other.value = top.value :=
        ⟨otherBelow.trans below, otherSame.trans same⟩
      rcases covered with prepared | prime
      · exact raises.notCovered top prepared lower
      · exact absurd (raises.above top prime) (not_lt.mpr lower.1)
    · left
      rw [newTop, oldTop, kept, set]

/-- In CONFIRM an accepted commit changes nothing about prepared ballots. -/
theorem Republishes.acceptsNothing_acceptCommit
    (republished : Republishes config old new before after)
    (confirm : before.mPhase = .confirm) {high : SCPBallot}
    (set : before.mHighBallot = some high) (same : h.value = high.value)
    (moved : after.ballots = before.ballots.acceptCommit c h)
    (nothing : AcceptsNothing config before (config.statement old)) :
    AcceptsNothing config after (config.statement new) := by
  rw [Ballots.acceptCommit_confirm confirm] at moved
  refine republished.acceptsNothing_kept nothing ?_ (.inl ?_)
  · intro other later
    rw [moved] at later
    exact ⟨⟨later.raises.above, later.raises.notCovered⟩, later.compatible⟩
  · obtain ⟨c', h', b, p, _, high', current, _, _, _, agrees, _⟩ :=
      republished.first.eq_confirm confirm
    rw [set] at high'
    cases high'
    rw [republished.second.topVote republished.running,
      republished.first.topVote republished.started, moved]
    simp only [Ballots.topVote, BallotProtocol.ballots_phase, confirm,
      BallotProtocol.ballots_current, current]
    rcases Ballots.raiseTo_cases (some b) h with
      lifted | ⟨b', equal, _, kept⟩
    · rw [lifted]
      simp [same.trans agrees]
    · cases equal
      rw [kept]

end Steps

/-! ## A nested call -/

section Nested

variable {config : SlotConfig} {advanceSlot : SCPStatement → BallotM Unit}
  {slot : Slot} {pledges : Pledges} {bp : BallotProtocol} {rank : Nat}

theorem SCPPhase.confirm_of_number {first second : SCPPhase}
    (earlier : first.number ≤ second.number) (confirm : first = .confirm)
    (running : second ≠ .externalize) : second = .confirm := by
  subst confirm
  cases second with
  | prepare => simp [SCPPhase.number] at earlier
  | confirm => rfl
  | externalize => exact absurd rfl running

/-- The rank of a state in CONFIRM. -/
theorem Pending.of_confirm (confirm : bp.mPhase = .confirm)
    (accepts : rank ≤ 1 →
      AcceptsNothing config bp (config.statement pledges))
    (commits : rank = 0 → CommitsNothing config bp) :
    Pending config pledges bp rank where
  prepare := fun impossible => by rw [confirm] at impossible; cases impossible
  accepts := by
    rintro (few | ⟨impossible, _⟩)
    · exact accepts few
    · rw [confirm] at impossible
      cases impossible
  confirms := fun impossible => by
    rw [confirm] at impossible
    cases impossible
  commits := commits

theorem Publication.mono {post post' : BallotProtocol → Prop}
    (published : Publication config advanceSlot bp post)
    (weaker : ∀ core, post core → post' core) :
    Publication config advanceSlot bp post' :=
  fun slot same => (published slot same).mono (fun _ => weaker)

private theorem attemptConfirmCommit_handled {start : BallotProtocol}
    {hint : SCPStatement}
    (level : slot.core.mCurrentMessageLevel ≤ deepestLevel)
    (handled : Handled config rank start slot.core) :
    Leads (attemptConfirmCommit config advanceSlot hint) slot
      (fun _ => Handled config rank start) := by
  refine attemptConfirmCommit_leads level handled ?_
  intro c h confirm
  exact publication_ended (handled.onward.trans (.confirmCommit confirm)) rfl

/-- The four attempts of a nested call in CONFIRM. -/
private theorem attemptSteps_confirm
    (handles : ∀ lower, lower < rank → Handles config advanceSlot lower)
    (published : Publishes config pledges slot.core)
    (confirm : slot.core.mPhase = .confirm)
    (pending : Pending config pledges slot.core rank)
    (nested : 0 < slot.core.mCurrentMessageLevel)
    (depth : slot.core.mCurrentMessageLevel + rank ≤ deepestLevel) :
    Leads (attemptSteps config advanceSlot (config.statement pledges)) slot
      (fun _ => Handled config rank slot.core) := by
  have running : slot.core.mPhase ≠ .externalize := by simp [confirm]
  have levels : ∀ core, Onward config slot.core core →
      core.mCurrentMessageLevel ≤ deepestLevel := by
    intro core onward
    rw [onward.level]
    omega
  -- only a call with two steps to go accepts a ballot
  have accepted : Leads
      (attemptPreparedAccept config advanceSlot (config.statement pledges))
      slot (fun _ core => Handled config 1 slot.core core ∧
        (core = slot.core ∨ 2 ≤ rank)) := by
    refine attemptPreparedAccept_leads (levels _ (.refl _))
      (fun ended => absurd ended running) ?_ ?_
    · intro nothing
      refine ⟨⟨.refl _, fun _ => ⟨pledges, published, ?_⟩⟩, .inl rfl⟩
      exact .of_confirm confirm (fun _ => nothing) (fun zero => by cases zero)
    · intro ballot acceptable greatest
      have two : 2 ≤ rank := by
        by_contra few
        exact pending.accepts (.inl (by omega)) ballot acceptable
      refine (publication_handled (handles 1 (by omega))
        (.acceptPrepared published.consistent acceptable.may.raises) nested
        ?_ ?_).mono (fun core handled => ⟨handled, .inr two⟩)
      · show slot.core.mCurrentMessageLevel + 1 + 1 ≤ _
        omega
      · intro new later moved others second later_running
        have phase : later.mPhase = .confirm := by
          have equal := congrArg Ballots.phase moved
          rw [BallotProtocol.withBallots_ballots,
            Ballots.acceptPrepared_phase] at equal
          exact equal.trans confirm
        refine .of_confirm phase (fun _ => ?_) (fun zero => by cases zero)
        have republished : Republishes config pledges new slot.core later :=
          ⟨published, second, running, later_running, others⟩
        exact republished.acceptsNothing moved acceptable greatest
  have confirmed : ∀ later : Slot,
      Handled config 1 slot.core later.core ∧
        (later.core = slot.core ∨ 2 ≤ rank) →
      Leads (attemptPreparedConfirmed config advanceSlot
          (config.statement pledges)) later
        (fun _ core => Handled config 1 slot.core core ∧
          (core = slot.core ∨ 2 ≤ rank)) := by
    intro later reached
    refine attemptPreparedConfirmed_leads (levels _ reached.1.onward)
      reached ?_
    intro newC newH candidates prepare
    have back := SCPPhase.prepare_of_number reached.1.onward.phase prepare
    rw [confirm] at back
    cases back
  have committed : ∀ later : Slot,
      Handled config 1 slot.core later.core ∧
        (later.core = slot.core ∨ 2 ≤ rank) →
      Leads (attemptAcceptCommit config advanceSlot
          (config.statement pledges)) later
        (fun _ => Handled config rank slot.core) := by
    rintro later ⟨handled, fresh⟩
    refine attemptAcceptCommit_leads (levels _ handled.onward) ?_ ?_
    · rcases fresh with same | two
      · rw [same]
        exact ⟨.refl _, fun _ => ⟨pledges, published, pending⟩⟩
      · exact handled.mono (by omega)
    · intro ballot laterRunning hinted found compatible
      obtain ⟨old, first, one⟩ := handled.pending laterRunning
      have laterConfirm := SCPPhase.confirm_of_number handled.onward.phase
        confirm laterRunning
      obtain ⟨high, set, same, above⟩ := compatible laterConfirm
      have positive : 0 < rank := by
        by_contra none
        have zero : rank = 0 := by omega
        have unchanged : later.core = slot.core :=
          fresh.resolve_right (by omega)
        have nothing := pending.commits zero
        rw [← unchanged] at nothing
        exact absurd above (not_lt.mpr (nothing.not_above set same found))
      refine (publication_handled (handles 0 positive)
        (handled.onward.trans (.acceptCommit laterRunning)) ?_ ?_ ?_).mono
        (fun core done => done.mono positive.le)
      · show 0 < later.core.mCurrentMessageLevel
        rw [handled.onward.level]
        exact nested
      · show later.core.mCurrentMessageLevel + 0 + 1 ≤ _
        rw [handled.onward.level]
        omega
      · intro new next moved others second nextRunning
        have republished : Republishes config old new later.core next :=
          ⟨first, second, laterRunning, nextRunning, others⟩
        have phase : next.mPhase = .confirm := by
          have equal := congrArg Ballots.phase moved
          rw [BallotProtocol.withBallots_ballots,
            Ballots.acceptCommit_confirm laterConfirm] at equal
          exact equal.trans laterConfirm
        refine .of_confirm phase (fun _ => ?_) (fun _ => ?_)
        · exact republished.acceptsNothing_acceptCommit laterConfirm set
            (by exact same) moved (one.accepts (.inl (le_refl _)))
        · exact republished.commitsNothing laterConfirm set same found above
            moved
  unfold attemptSteps
  refine .bind accepted fun _ first one => ?_
  refine .bind (confirmed first one) fun _ second two => ?_
  refine .bind (committed second two) fun _ third three => ?_
  refine .bind (attemptConfirmCommit_handled (levels _ three.onward) three)
    fun _ fourth four => ?_
  exact .of_pure four

/-- The rank of a state that may be in PREPARE. -/
theorem Pending.of_least (least : 3 ≤ rank)
    (accepts : rank ≤ 4 →
      AcceptsNothing config bp (config.statement pledges))
    (confirms : rank ≤ 3 →
      ConfirmsNothing config bp (config.statement pledges)) :
    Pending config pledges bp rank where
  prepare := fun _ => least
  accepts := by
    rintro (few | ⟨_, few⟩)
    · exact accepts (by omega)
    · exact accepts few
  confirms := fun _ => confirms
  commits := fun zero => by omega

/-- The four attempts of a nested call in PREPARE. -/
private theorem attemptSteps_prepare
    (handles : ∀ lower, lower < rank → Handles config advanceSlot lower)
    (published : Publishes config pledges slot.core)
    (prepare : slot.core.mPhase = .prepare)
    (pending : Pending config pledges slot.core rank)
    (nested : 0 < slot.core.mCurrentMessageLevel)
    (depth : slot.core.mCurrentMessageLevel + rank ≤ deepestLevel) :
    Leads (attemptSteps config advanceSlot (config.statement pledges)) slot
      (fun _ => Handled config rank slot.core) := by
  have running : slot.core.mPhase ≠ .externalize := by simp [prepare]
  have least := pending.prepare prepare
  have levels : ∀ core, Onward config slot.core core →
      core.mCurrentMessageLevel ≤ deepestLevel := by
    intro core onward
    rw [onward.level]
    omega
  -- only a call with five steps to go accepts a ballot
  have accepted : Leads
      (attemptPreparedAccept config advanceSlot (config.statement pledges))
      slot (fun _ core => Handled config 4 slot.core core ∧
        (core = slot.core ∨ 5 ≤ rank)) := by
    refine attemptPreparedAccept_leads (levels _ (.refl _))
      (fun ended => absurd ended running) ?_ ?_
    · intro nothing
      refine ⟨⟨.refl _, fun _ => ⟨pledges, published, ?_⟩⟩, .inl rfl⟩
      exact .of_least (by omega) (fun _ => nothing)
        (fun few => by omega)
    · intro ballot acceptable greatest
      have five : 5 ≤ rank := by
        by_contra few
        exact pending.accepts (.inr ⟨prepare, by omega⟩) ballot acceptable
      refine (publication_handled (handles 4 (by omega))
        (.acceptPrepared published.consistent acceptable.may.raises) nested
        ?_ ?_).mono (fun core handled => ⟨handled, .inr five⟩)
      · show slot.core.mCurrentMessageLevel + 4 + 1 ≤ _
        omega
      · intro new later moved others second laterRunning
        refine .of_least (by omega) (fun _ => ?_)
          (fun few => by omega)
        have republished : Republishes config pledges new slot.core later :=
          ⟨published, second, running, laterRunning, others⟩
        exact republished.acceptsNothing moved acceptable greatest
  have confirmed : ∀ later : Slot,
      Handled config 4 slot.core later.core ∧
        (later.core = slot.core ∨ 5 ≤ rank) →
      Leads (attemptPreparedConfirmed config advanceSlot
          (config.statement pledges)) later
        (fun _ => Handled config rank slot.core) := by
    rintro later ⟨handled, fresh⟩
    refine attemptPreparedConfirmed_leads (levels _ handled.onward) ?_ ?_
    · rcases fresh with same | five
      · rw [same]
        exact ⟨.refl _, fun _ => ⟨pledges, published, pending⟩⟩
      · exact handled.mono (by omega)
    · intro newC newH candidates laterPrepare found
      have laterRunning : later.core.mPhase ≠ .externalize := by
        simp [laterPrepare]
      obtain ⟨old, first, four⟩ := handled.pending laterRunning
      have nothing := four.accepts (.inr ⟨laterPrepare, le_refl _⟩)
      have candidate : newH ∈ getPrepareCandidates later.core
          (config.statement pledges) := by
        obtain ⟨skipped, tail, split, head, _⟩ := findNewH_some found
        rw [← List.mem_reverse, split, head]
        simp
      have level : 0 < later.core.mCurrentMessageLevel := by
        rw [handled.onward.level]
        exact nested
      have keeps : ∀ new next,
          next.ballots = later.core.ballots.confirmPrepared newC newH →
          SameOthers config later.core next →
          Publishes config new next → next.mPhase ≠ .externalize →
          AcceptsNothing config next (config.statement new) := by
        intro new next moved others second nextRunning
        have republished : Republishes config old new later.core next :=
          ⟨first, second, laterRunning, nextRunning, others⟩
        exact republished.acceptsNothing_confirmPrepared laterPrepare moved
          nothing published handled.onward candidate
      rcases fresh with same | five
      · have four : 4 ≤ rank := by
          by_contra few
          have none := (pending.confirms prepare
            (by omega)).findNewH_eq_none
          rw [← same, found] at none
          cases none
        refine (publication_handled (handles 3 (by omega))
          (handled.onward.trans .confirmPrepared) level ?_ ?_).mono
          (fun core done => done.mono (by omega))
        · show later.core.mCurrentMessageLevel + 3 + 1 ≤ _
          rw [handled.onward.level]
          omega
        · intro new next moved others second nextRunning
          have accepts := keeps new next moved others second nextRunning
          have publishedLater : Publishes config pledges later.core := by
            rw [same]
            exact published
          have republished :
              Republishes config pledges new later.core next :=
            ⟨publishedLater, second, laterRunning, nextRunning, others⟩
          exact .of_least (le_refl _) (fun _ => accepts)
            (fun _ => republished.confirmsNothing laterPrepare found moved)
      · refine (publication_handled (handles 4 (by omega))
          (handled.onward.trans .confirmPrepared) level ?_ ?_).mono
          (fun core done => done.mono (by omega))
        · show later.core.mCurrentMessageLevel + 4 + 1 ≤ _
          rw [handled.onward.level]
          omega
        · intro new next moved others second nextRunning
          have accepts := keeps new next moved others second nextRunning
          exact .of_least (by omega) (fun _ => accepts)
            (fun few => by omega)
  have committed : ∀ later : Slot,
      Handled config rank slot.core later.core →
      Leads (attemptAcceptCommit config advanceSlot
          (config.statement pledges)) later
        (fun _ => Handled config rank slot.core) := by
    intro later handled
    refine attemptAcceptCommit_leads (levels _ handled.onward) handled ?_
    intro ballot laterRunning hinted found compatible
    refine (publication_handled (handles 2 (by omega))
      (handled.onward.trans (.acceptCommit laterRunning)) ?_ ?_ ?_).mono
      (fun core done => done.mono (by omega))
    · show 0 < later.core.mCurrentMessageLevel
      rw [handled.onward.level]
      exact nested
    · show later.core.mCurrentMessageLevel + 2 + 1 ≤ _
      rw [handled.onward.level]
      omega
    · intro new next moved others second nextRunning
      have phase : next.mPhase = .confirm := by
        have equal := congrArg Ballots.phase moved
        rw [BallotProtocol.withBallots_ballots] at equal
        exact equal.trans (Ballots.acceptCommit_phase laterRunning)
      exact .of_confirm phase (fun few => by omega) (fun zero => by cases zero)
  unfold attemptSteps
  refine .bind accepted fun _ first one => ?_
  refine .bind (confirmed first one) fun _ second two => ?_
  refine .bind (committed second two) fun _ third three => ?_
  refine .bind (attemptConfirmCommit_handled (levels _ three.onward) three)
    fun _ fourth four => ?_
  exact .of_pure four

/-- The protocol at another nesting level. -/
def BallotProtocol.atLevel (bp : BallotProtocol) (level : Nat) :
    BallotProtocol :=
  { bp with mCurrentMessageLevel := level }

theorem Publishes.atLevel (published : Publishes config pledges bp)
    (level : Nat) : Publishes config pledges (bp.atLevel level) :=
  ⟨published.consistent, published.built, published.recorded⟩

theorem Acceptable.atLevel {hint : SCPStatement} {ballot : SCPBallot}
    {level : Nat} (acceptable : Acceptable config (bp.atLevel level) hint
      ballot) : Acceptable config bp hint ballot :=
  ⟨acceptable.candidate, acceptable.may, acceptable.accepts⟩

theorem Pending.atLevel (pending : Pending config pledges bp rank)
    (level : Nat) : Pending config pledges (bp.atLevel level) rank where
  prepare := pending.prepare
  accepts := fun small ballot acceptable =>
    pending.accepts small ballot acceptable.atLevel
  confirms := pending.confirms
  commits := pending.commits

/-- The level is raised for a call and lowered after it. -/
theorem Handled.atLevel {before after : BallotProtocol} {level : Nat}
    (handled : Handled config rank (before.atLevel level) after) :
    Handled config rank before
      (after.atLevel before.mCurrentMessageLevel) where
  onward :=
    { level := rfl
      others := handled.onward.others
      phase := handled.onward.phase
      current := handled.onward.current
      covered := handled.onward.covered }
  pending := by
    intro running
    obtain ⟨pledges, published, pending⟩ := handled.pending running
    exact ⟨pledges, published.atLevel _, pending.atLevel _⟩

/-- A call whose nested calls succeed on every lower rank succeeds. -/
theorem advanceSlotWith_handles
    (handles : ∀ lower, lower < rank → Handles config advanceSlot lower) :
    Handles config (advanceSlotWith config advanceSlot) rank := by
  intro slot pledges published running pending nested depth
  unfold advanceSlotWith
  refine modifyBallotProtocol_leads (getBallotProtocol_leads
    (.ite (fun deep => ?_) (fun _ => ?_)))
  · have level : maxAdvanceSlotRecursion ≤
        slot.core.mCurrentMessageLevel + 1 := deep
    simp only [maxAdvanceSlotRecursion, deepestLevel] at level depth
    omega
  · refine .bind checkHeardFromQuorum_leads fun _ later same => ?_
    have core : later.core = slot.core.atLevel
        (slot.core.mCurrentMessageLevel + 1) := same
    have level : later.core.mCurrentMessageLevel =
        slot.core.mCurrentMessageLevel + 1 := by
      rw [core]
      rfl
    have steps : Leads
        (attemptSteps config advanceSlot (config.statement pledges)) later
        (fun _ => Handled config rank later.core) := by
      have laterPublished : Publishes config pledges later.core := by
        rw [core]
        exact published.atLevel _
      have laterPending : Pending config pledges later.core rank := by
        rw [core]
        exact pending.atLevel _
      have phase : later.core.mPhase = slot.core.mPhase := by
        rw [core]
        rfl
      cases start : slot.core.mPhase with
      | externalize => exact absurd start running
      | confirm =>
          exact attemptSteps_confirm handles laterPublished
            (phase.trans start) laterPending (by omega) (by omega)
      | prepare =>
          exact attemptSteps_prepare handles laterPublished
            (phase.trans start) laterPending (by omega) (by omega)
    refine .bind steps fun didWork middle handled => ?_
    have middleLevel : middle.core.mCurrentMessageLevel =
        slot.core.mCurrentMessageLevel + 1 :=
      handled.onward.level.trans level
    have quiet : Leads (bumpAtFirstLevel config advanceSlot didWork) middle
        (fun _ core => core = middle.core) := by
      unfold bumpAtFirstLevel
      refine getBallotProtocol_leads (.ite (fun first => ?_)
        (fun _ => .of_pure rfl))
      have one : middle.core.mCurrentMessageLevel = 1 := first
      omega
    refine .bind quiet fun _ last kept => ?_
    refine modifyBallotProtocol_leads ?_
    have lowered : Slot.core { last with
        mBallotProtocol :=
          { last.mBallotProtocol with
            mCurrentMessageLevel :=
              last.mBallotProtocol.mCurrentMessageLevel - 1 } } =
        middle.core.atLevel slot.core.mCurrentMessageLevel := by
      have equal : last.mBallotProtocol.mCurrentMessageLevel =
          slot.core.mCurrentMessageLevel + 1 := by
        rw [← middleLevel, ← kept]
        rfl
      rw [← kept, equal]
      rfl
    rw [core] at handled
    have done := handled.atLevel
    rw [← lowered] at done
    refine .ite (fun _ => ?_) (fun _ => .of_pure done)
    refine sendLatestEnvelope_leads.mono ?_
    intro _ core' same
    rw [same]
    exact done

/-- Enough levels below the limit handle every rank. -/
theorem advanceSlotAt_handles (levels : Nat) :
    ∀ rank, rank < levels →
      Handles config (advanceSlotAt config levels) rank := by
  induction levels with
  | zero =>
      intro rank below
      exact absurd below (Nat.not_lt_zero _)
  | succ levels ih =>
      intro rank below
      refine advanceSlotWith_handles ?_
      intro lower less
      exact ih lower (by omega)

end Nested

/-! ## The bumps of the outermost call -/

section Bumping

variable {config : SlotConfig} {advanceSlot : SCPStatement → BallotM Unit}
  {slot : Slot} {bp before after : BallotProtocol}

/-- A step of the outermost call; every rank is handled below it. -/
theorem publication_first (handles : Handles config advanceSlot 5)
    (level : bp.mCurrentMessageLevel = 1) :
    Publication config advanceSlot bp (Handled config 5 bp) := by
  refine publication_handled handles (.refl _) (by omega) ?_ ?_
  · rw [level]
    exact le_refl _
  · intro pledges later _ _ _ _
    exact .of_least (by omega) (fun few => by omega) (fun few => by omega)

theorem updateCurrentValue_leads (newb : SCPBallot) :
    Leads (updateCurrentValue newb) slot
      (fun updated core => updated = false ∧ core = slot.core ∨
        updated = true ∧
          core = { slot.core with mCurrentBallot := some newb }) := by
  have bumped : Leads
      (do
        bumpToBallot newb true
        checkInvariants
        return true)
      slot
      (fun updated core => updated = false ∧ core = slot.core ∨
        updated = true ∧
          core = { slot.core with mCurrentBallot := some newb }) := by
    refine .bind (bumpToBallot_leads newb true) fun _ later moved => ?_
    refine .bind checkInvariants_leads fun _ last kept => ?_
    exact .of_pure (.inr ⟨rfl, kept.1.trans moved⟩)
  unfold updateCurrentValue
  refine getBallotProtocol_leads (.ite
    (fun _ => .of_pure (.inl ⟨rfl, rfl⟩)) (fun _ => ?_))
  split
  · exact bumped
  · refine dbgAssert_leads fun _ => ?_
    refine .ite (fun _ => .of_pure (.inl ⟨rfl, rfl⟩)) (fun _ => ?_)
    refine .ite (fun _ => bumped) (fun _ => ?_)
    refine .ite (fun _ => .of_pure (.inl ⟨rfl, rfl⟩)) (fun _ => ?_)
    refine .bind checkInvariants_leads fun _ last kept => ?_
    exact .of_pure (.inl ⟨rfl, kept.1⟩)

/-- The rule for `bumpState(value, n)`. -/
theorem bumpStateTo_leads {value : Value} {n : Uint32}
    {post : Bool → BallotProtocol → Prop} (idle : post false slot.core)
    (step : ∀ newb : SCPBallot, newb.counter = n →
      Publication config advanceSlot
        { slot.core with mCurrentBallot := some newb } (post true)) :
    Leads (bumpStateTo config advanceSlot value n) slot post := by
  unfold bumpStateTo
  refine getBallotProtocol_leads (.ite (fun _ => .of_pure idle)
    (fun _ => ?_))
  refine .bind (updateCurrentValue_leads _) fun updated later moved => ?_
  rcases moved with ⟨rfl, kept⟩ | ⟨rfl, changed⟩
  · refine .of_pure ?_
    rw [kept]
    exact idle
  · refine callDriver_leads (.bind (step _ ?_ _ changed)
      fun _ _ holds => .of_pure holds)
    rfl

theorem bumpTarget_core :
    bumpTarget config slot.mBallotProtocol =
      bumpTarget config slot.core := by
  have search : ∀ target counters,
      findBumpCounter config slot.mBallotProtocol target counters =
        findBumpCounter config slot.core target counters := by
    intro target counters
    induction counters with
    | nil => rfl
    | cons n counters ih =>
        unfold findBumpCounter
        rw [ih]
        rfl
  exact search _ _

/-- What is done with the counter that the search has found. -/
def bumpFound (config : SlotConfig) (advanceSlot : SCPStatement → BallotM Unit)
    (found : Option Uint32) : BallotM Bool :=
  match found with
  | none => pure false
  | some n => abandonBallot config advanceSlot n

/-- The rule for one turn of the loop. -/
theorem attemptBump_leads {post : Bool → BallotProtocol → Prop}
    (level : slot.core.mCurrentMessageLevel ≤ deepestLevel)
    (idle : post false slot.core)
    (step : ∀ n newb, slot.core.mPhase ≠ .externalize →
      bumpTarget config slot.core = some n → newb.counter = n →
      Publication config advanceSlot
        { slot.core with mCurrentBallot := some newb } (post true)) :
    Leads (attemptBump config advanceSlot) slot post := by
  unfold attemptBump
  refine visiting_leads level (.ite (fun _ => .of_pure idle)
    (fun active => ?_))
  have running : slot.core.mPhase ≠ .externalize :=
    SCPPhase.active_iff.mp active
  show Leads (bumpFound config advanceSlot
    (bumpTarget config slot.mBallotProtocol)) _ _
  rw [bumpTarget_core]
  cases found : bumpTarget config slot.core with
  | none => exact .of_pure idle
  | some n =>
      have nonzero : n ≠ 0 := by
        intro zero
        have above := lt_of_bumpTarget found
        rw [zero] at above
        exact absurd above (Fin.not_lt_zero _)
      unfold bumpFound abandonBallot
      refine get_leads (.ite (fun _ => .of_pure idle) (fun _ => ?_))
      refine .ite (fun zero => absurd zero nonzero) (fun _ => ?_)
      exact bumpStateTo_leads idle
        (fun newb counter => step n newb running found counter)

/-- The nodes that are ahead do not block. -/
def Calm (config : SlotConfig) (bp : BallotProtocol) : Prop :=
  bp.mPhase = .externalize ∨
    blockingAhead config bp (localCounter bp) = false

/-- The state after a turn that has bumped the counter to `n`. -/
structure Bumped (config : SlotConfig) (n : Uint32)
    (before after : BallotProtocol) : Prop where
  free : blockingAhead config before n = false
  handled : ∃ newb : SCPBallot, newb.counter = n ∧
    Handled config 5 { before with mCurrentBallot := some newb } after

theorem Publishes.bumpCounter {pledges : Pledges}
    (published : Publishes config pledges bp)
    (running : bp.mPhase ≠ .externalize) :
    bumpCounter (config.statement pledges) = localCounter bp := by
  cases phase : bp.mPhase with
  | prepare =>
      rw [published.eq_prepare phase]
      unfold localCounter StellarCore.Scp.bumpCounter
      cases current : bp.mCurrentBallot with
      | none => rfl
      | some b => rfl
  | confirm =>
      obtain ⟨c, h, b, p, _, _, current, _, _, _, _, built⟩ :=
        published.eq_confirm phase
      rw [built]
      unfold localCounter StellarCore.Scp.bumpCounter
      rw [current]
      rfl
  | externalize => exact absurd phase running

/-- After a bump within one phase no further one follows. -/
theorem Bumped.calm {n : Uint32} (bumped : Bumped config n before after)
    (same : after.mPhase = before.mPhase) : Calm config after := by
  by_cases running : after.mPhase = .externalize
  · exact .inl running
  · right
    obtain ⟨free, newb, counter, handled⟩ := bumped
    obtain ⟨pledges, published, _⟩ := handled.pending running
    have reached : n ≤ localCounter after := by
      have above := SCPBallot.counter_le_of_le (handled.onward.current same)
      rw [← counter]
      refine above.trans (le_of_eq ?_)
      unfold localCounter
      cases after.mCurrentBallot with
      | none => rfl
      | some b => rfl
    rw [← Bool.not_eq_true]
    intro blocking
    rw [← Bool.not_eq_true] at free
    refine free (isVBlockingInternal_mono ?_ _ blocking)
    intro node member
    obtain ⟨envelope, found, ahead⟩ := mem_filteredNodes.mp member
    rw [isAheadOf_iff] at ahead
    by_cases self : node = config.getLocalNodeID
    · subst self
      rw [published.recorded] at found
      cases found
      rw [published.bumpCounter running] at ahead
      exact absurd ahead (lt_irrefl _)
    · rw [handled.onward.others node self] at found
      exact mem_filteredNodes.mpr ⟨envelope, found,
        isAheadOf_iff.mpr (reached.trans_lt ahead)⟩

/-- One turn of the loop at the first level. -/
theorem attemptBump_bumped (handles : Handles config advanceSlot 5)
    (level : slot.core.mCurrentMessageLevel = 1) :
    Leads (attemptBump config advanceSlot) slot
      (fun didBump core => core.mCurrentMessageLevel = 1 ∧
        (didBump = true → ∃ n, Bumped config n slot.core core)) := by
  refine attemptBump_leads (by rw [level]; decide) ?_ ?_
  · exact ⟨level, fun impossible => by cases impossible⟩
  · intro n newb _ found counter
    refine (publication_first handles ?_).mono ?_
    · exact level
    · intro core handled
      refine ⟨handled.onward.level.trans level, fun _ => ⟨n, ?_⟩⟩
      exact ⟨(bumpTarget_some found).2, newb, counter, handled⟩

/-- A calm node leaves the loop at once. -/
theorem bumpLoop_calm (calm : Calm config slot.core)
    (level : slot.core.mCurrentMessageLevel = 1) (turns : Nat)
    (didWork : Bool) :
    Leads (bumpLoop config advanceSlot (turns + 1) didWork) slot
      (fun _ core => core.mCurrentMessageLevel = 1) := by
  have turn : Leads (attemptBump config advanceSlot) slot
      (fun didBump core => didBump = false ∧
        core.mCurrentMessageLevel = 1) := by
    refine attemptBump_leads (by rw [level]; decide) ⟨rfl, level⟩ ?_
    intro n newb running found _
    rcases calm with ended | free
    · exact absurd ended running
    · rw [bumpTarget_not_behind free] at found
      cases found
  unfold bumpLoop
  refine .bind turn fun didBump later reached => ?_
  obtain ⟨rfl, stays⟩ := reached
  exact .of_pure stays

/-- From CONFIRM on the loop takes at most two turns. -/
theorem bumpLoop_confirm (handles : Handles config advanceSlot 5)
    (started : slot.core.mPhase ≠ .prepare)
    (level : slot.core.mCurrentMessageLevel = 1) (turns : Nat)
    (didWork : Bool) :
    Leads (bumpLoop config advanceSlot (turns + 2) didWork) slot
      (fun _ core => core.mCurrentMessageLevel = 1) := by
  unfold bumpLoop
  refine .bind (attemptBump_bumped handles level)
    fun didBump later reached => ?_
  refine .ite (fun did => ?_) (fun _ => .of_pure reached.1)
  obtain ⟨n, bumped⟩ := reached.2 did
  refine bumpLoop_calm ?_ reached.1 turns true
  by_cases same : later.core.mPhase = slot.core.mPhase
  · exact bumped.calm same
  · obtain ⟨newb, _, handled⟩ := bumped.handled
    have number : slot.core.mPhase.number ≤ later.core.mPhase.number :=
      handled.onward.phase
    left
    cases phase : slot.core.mPhase with
    | prepare => exact absurd phase started
    | confirm =>
        by_contra running
        exact same ((SCPPhase.confirm_of_number number phase
          running).trans phase.symm)
    | externalize =>
        rw [phase] at number
        cases ended : later.core.mPhase with
        | prepare => simp [ended, SCPPhase.number] at number
        | confirm => simp [ended, SCPPhase.number] at number
        | externalize => rfl

/-- The loop ends within three turns. -/
theorem bumpLoop_leads (handles : Handles config advanceSlot 5)
    (level : slot.core.mCurrentMessageLevel = 1) (turns : Nat)
    (didWork : Bool) :
    Leads (bumpLoop config advanceSlot (turns + 3) didWork) slot
      (fun _ core => core.mCurrentMessageLevel = 1) := by
  unfold bumpLoop
  refine .bind (attemptBump_bumped handles level)
    fun didBump later reached => ?_
  refine .ite (fun did => ?_) (fun _ => .of_pure reached.1)
  obtain ⟨n, bumped⟩ := reached.2 did
  by_cases same : later.core.mPhase = slot.core.mPhase
  · exact bumpLoop_calm (bumped.calm same) reached.1 (turns + 1) true
  · refine bumpLoop_confirm handles ?_ reached.1 turns true
    intro prepare
    obtain ⟨newb, _, handled⟩ := bumped.handled
    have number : slot.core.mPhase.number ≤ later.core.mPhase.number :=
      handled.onward.phase
    exact same (prepare.trans
      (SCPPhase.prepare_of_number number prepare).symm)

/-- The four attempts of the outermost call. -/
private theorem attemptSteps_first {hint : SCPStatement}
    (handles : Handles config advanceSlot 5)
    (level : slot.core.mCurrentMessageLevel = 1) :
    Leads (attemptSteps config advanceSlot hint) slot
      (fun _ core => core.mCurrentMessageLevel = 1) := by
  have shallow : ∀ core : BallotProtocol, core.mCurrentMessageLevel = 1 →
      core.mCurrentMessageLevel ≤ deepestLevel := by
    intro core one
    rw [one]
    decide
  have published : ∀ (core : BallotProtocol) (ballots : Ballots),
      core.mCurrentMessageLevel = 1 →
      Publication config advanceSlot (core.withBallots ballots)
        (fun core => core.mCurrentMessageLevel = 1) := by
    intro core ballots one
    have level : (core.withBallots ballots).mCurrentMessageLevel = 1 := one
    exact (publication_first handles level).mono
      (fun _ handled => handled.onward.level.trans level)
  unfold attemptSteps
  refine .bind (attemptPreparedAccept_leads (shallow _ level)
    (fun _ => level) (fun _ => level)
    (fun _ _ _ => published _ _ level)) fun _ first one => ?_
  refine .bind (attemptPreparedConfirmed_leads (shallow _ one) one
    (fun _ _ _ _ _ => published _ _ one)) fun _ second two => ?_
  refine .bind (attemptAcceptCommit_leads (shallow _ two) two
    (fun _ _ _ _ _ => published _ _ two)) fun _ third three => ?_
  refine .bind (attemptConfirmCommit_leads (shallow _ three) three
    (fun _ _ _ => published _ _ three)) fun _ fourth four => ?_
  exact .of_pure four

end Bumping

/-! ## Every run -/

section Runs

variable {config : SlotConfig} {slot : Slot}

/-- The outermost call comes back to level 0. -/
theorem advanceSlot_first {hint : SCPStatement}
    (level : slot.core.mCurrentMessageLevel = 0) :
    Leads (advanceSlot config hint) slot
      (fun _ core => core.mCurrentMessageLevel = 0) := by
  have handles : Handles config (advanceSlotAt config 49) 5 :=
    advanceSlotAt_handles 49 5 (by omega)
  show Leads (advanceSlotWith config (advanceSlotAt config 49) hint) slot _
  generalize advanceSlotAt config 49 = nested at handles
  unfold advanceSlotWith
  refine modifyBallotProtocol_leads (getBallotProtocol_leads
    (.ite (fun deep => ?_) (fun _ => ?_)))
  · have limit : maxAdvanceSlotRecursion ≤
        slot.core.mCurrentMessageLevel + 1 := deep
    rw [level] at limit
    exact absurd limit (by decide)
  · refine .bind checkHeardFromQuorum_leads fun _ later same => ?_
    have one : later.core.mCurrentMessageLevel = 1 := by
      rw [same]
      show slot.core.mCurrentMessageLevel + 1 = 1
      rw [level]
    refine .bind (attemptSteps_first handles one)
      fun didWork middle reached => ?_
    have loops : Leads (bumpAtFirstLevel config nested didWork) middle
        (fun _ core => core.mCurrentMessageLevel = 1) := by
      unfold bumpAtFirstLevel
      refine getBallotProtocol_leads (.ite (fun _ => ?_)
        (fun _ => .of_pure reached))
      exact bumpLoop_leads handles reached 4294967293 didWork
    refine .bind loops fun _ last lastLevel => ?_
    refine modifyBallotProtocol_leads ?_
    have zero : last.mBallotProtocol.mCurrentMessageLevel - 1 = 0 := by
      have equal : last.mBallotProtocol.mCurrentMessageLevel = 1 := lastLevel
      rw [equal]
    refine .ite (fun _ => ?_) (fun _ => .of_pure zero)
    refine sendLatestEnvelope_leads.mono ?_
    intro _ core kept
    rw [kept]
    exact zero

/-- Publishing outside a call of `advanceSlot` starts one. -/
theorem publication_outermost {bp : BallotProtocol}
    (level : bp.mCurrentMessageLevel = 0) :
    Publication config (advanceSlot config) bp
      (fun core => core.mCurrentMessageLevel = 0) := by
  rintro slot rfl
  refine emitCurrentStateStatement_leads (fun _ _ => level) ?_
    (fun _ _ => level)
  intro pledges later recorded _ _
  refine advanceSlot_first ?_
  rw [recorded]
  exact level

theorem bumpState_outermost {value : Value} {force : Bool}
    (level : slot.core.mCurrentMessageLevel = 0) :
    Leads (bumpState config (advanceSlot config) value force) slot
      (fun _ core => core.mCurrentMessageLevel = 0) := by
  unfold bumpState
  refine getBallotProtocol_leads (.ite (fun _ => .of_pure level)
    (fun _ => ?_))
  exact bumpStateTo_leads level (fun _ _ => publication_outermost level)

theorem abandonBallot_outermost
    (level : slot.core.mCurrentMessageLevel = 0) :
    Leads (abandonBallot config (advanceSlot config) 0) slot
      (fun _ core => core.mCurrentMessageLevel = 0) := by
  unfold abandonBallot
  refine get_leads (.ite (fun _ => .of_pure level) (fun _ => ?_))
  exact .ite (fun _ => bumpState_outermost level)
    (fun nonzero => absurd rfl nonzero)

theorem perform_leads (input : Input)
    (level : slot.core.mCurrentMessageLevel = 0) :
    Leads (perform config input) slot
      (fun _ core => core.mCurrentMessageLevel = 0) := by
  cases input with
  | receiveEnvelope envelope =>
      show Leads (receiveEnvelope config envelope) slot _
      unfold receiveEnvelope
      refine .ite (fun _ => .of_pure level) (fun _ => ?_)
      refine .ite (fun _ => .of_pure level) (fun _ => ?_)
      refine .ite (fun _ => .of_pure level) (fun indexed => ?_)
      have processed : Leads (processEnvelope config (advanceSlot config)
          envelope false) slot
          (fun _ core => core.mCurrentMessageLevel = 0) := by
        refine processEnvelope_leads (not_not.mp indexed) level ?_
          (fun _ => level)
        intro later recorded _
        refine advanceSlot_first ?_
        rw [recorded]
        exact level
      exact .bind processed fun _ _ reached => .of_pure reached
  | bumpState value force =>
      exact .bind (bumpState_outermost level)
        fun _ _ reached => .of_pure reached
  | abandonBallot =>
      exact .bind (abandonBallot_outermost level)
        fun _ _ reached => .of_pure reached
  | ballotProtocolTimerExpired =>
      show Leads (ballotProtocolTimerExpired config (advanceSlot config))
        slot _
      unfold ballotProtocolTimerExpired
      refine getBallotProtocol_leads (.ite (fun _ => ?_) (fun _ => ?_))
      · exact .bind (abandonBallot_outermost level)
          fun _ _ reached => .of_pure reached
      · refine startBallotProtocolTimer_leads.mono ?_
        intro _ core kept
        rw [kept]
        exact level
  | updatedCandidateValue value =>
      show Leads (updatedCandidateValue config value) slot _
      unfold updatedCandidateValue
      intro shallow
      rw [Ends.bind_iff, Ends.modify_iff]
      have bumped : Leads
          (bumpState config (advanceSlot config) value false)
          { slot with mLatestCompositeCandidate := value }
          (fun _ core => core.mCurrentMessageLevel = 0) :=
        bumpState_outermost level
      have whole : Leads
          (do
            let _ ← bumpState config (advanceSlot config) value false
            pure ())
          { slot with mLatestCompositeCandidate := value }
          (fun _ core => core.mCurrentMessageLevel = 0) :=
        .bind bumped fun _ _ reached => .of_pure reached
      exact whole shallow

theorem setStateFromEnvelope_leads (envelope : SCPEnvelope)
    (level : slot.core.mCurrentMessageLevel = 0) :
    Leads (Slot.setStateFromEnvelope config envelope) slot
      (fun _ core => core.mCurrentMessageLevel = 0) := by
  -- every part keeps the level, and none of them makes a nested call
  have restores : ∀ (later : Slot) (ballot : SCPBallot)
      (change : BallotProtocol → BallotProtocol),
      later.core.mCurrentMessageLevel = 0 →
      (∀ bp, (change bp).mCurrentMessageLevel = bp.mCurrentMessageLevel) →
      Leads
        (do
          bumpToBallot ballot true
          modifyBallotProtocol change)
        later (fun _ core => core.mCurrentMessageLevel = 0) := by
    intro later ballot change zero keeps
    refine .bind (bumpToBallot_leads ballot true) fun _ last bumped => ?_
    intro shallow
    rw [modifyBallotProtocol_ends]
    refine ⟨shallow, (keeps _).trans ?_⟩
    have equal := congrArg BallotProtocol.mCurrentMessageLevel bumped
    exact equal.trans zero
  unfold Slot.setStateFromEnvelope
  refine .ite (fun _ => ?_) (fun _ => .of_pure level)
  unfold Scp.setStateFromEnvelope
  refine getBallotProtocol_leads (.ite (fun _ => ?_) (fun _ => ?_))
  · intro shallow
    exact ⟨shallow, by simp, by simp⟩
  · intro shallow
    unfold recordEnvelope makeLastEnvelope
    simp only [Ends.bind_iff, Ends.modify_iff, modifyBallotProtocol_ends]
    split
    · exact restores _ _ _ level (fun _ => rfl) shallow
    · exact restores _ _ _ level (fun _ => rfl) shallow
    · exact restores _ _ _ level (fun _ => rfl) shallow

/-- The recursion of a process has stayed within its bounds. -/
structure Process.RecursionBounded (process : Process) : Prop where
  depth : process.failure ≠ some .maximumNumberOfTransitions
  loop : process.failure ≠ some .bumpLoopExhausted
  below : ∀ bp ∈ process.states,
    bp.mCurrentMessageLevel < maxAdvanceSlotRecursion
  balanced : process.failure = none →
    process.slot.mBallotProtocol.mCurrentMessageLevel = 0

/-- The process has visited no deep level, and waits at level 0. -/
structure Process.Level (process : Process) : Prop where
  shallow : process.slot.Shallow
  bounded : ∀ reason, process.failure = some reason → reason.Bounded
  balanced : process.failure = none →
    process.slot.core.mCurrentMessageLevel = 0

theorem Process.Level.run {process : Process} {program : BallotM Unit}
    (holds : process.Level)
    (leads : process.slot.core.mCurrentMessageLevel = 0 →
      Leads program process.slot
        (fun _ core => core.mCurrentMessageLevel = 0)) :
    (process.run program).Level := by
  unfold Process.run
  cases failure : process.failure with
  | some reason => exact holds
  | none =>
      have ends := leads (holds.balanced failure) holds.shallow
      cases outcome : program process.slot with
      | ok value finish =>
          obtain ⟨shallow, level⟩ := ends.of_ok outcome
          refine ⟨?_, fun _ impossible => (by cases impossible),
            fun _ => level⟩
          intro visit member
          rcases List.mem_append.mp member with earlier | last
          · exact shallow visit earlier
          · rw [List.mem_singleton.mp last]
            show finish.core.mCurrentMessageLevel ≤ deepestLevel
            rw [level]
            exact Nat.zero_le _
      | error reason finish =>
          obtain ⟨shallow, bounded⟩ := ends.of_error outcome
          refine ⟨shallow, ?_, fun impossible => by cases impossible⟩
          intro reason' equal
          cases equal
          exact bounded

theorem Process.start_level (config : SlotConfig) :
    (Process.start config).Level := by
  refine ⟨?_, fun _ impossible => (by cases impossible), fun _ => rfl⟩
  intro visit member
  rw [List.mem_singleton.mp member]
  exact Nat.zero_le _

theorem Process.restart_level (config : SlotConfig)
    (log : List (SCPEnvelope × Bool)) :
    (Process.restart config log).Level := by
  unfold Process.restart
  split
  · exact Process.start_level config
  · exact (Process.start_level config).run
      (setStateFromEnvelope_leads _)

theorem Process.Level.handle {process : Process} (holds : process.Level)
    (config : SlotConfig) (inputs : List Input) :
    (inputs.foldl (Process.handle config) process).Level := by
  induction inputs generalizing process with
  | nil => exact holds
  | cons input inputs ih => exact ih (holds.run (perform_leads input))

/-- Whatever was restored and whatever arrives, `advanceSlot` never reaches
its limit, the loop of `attemptBump` ends, and the level comes back to 0. -/
theorem restart_recursionBounded (config : SlotConfig)
    (log : List (SCPEnvelope × Bool)) (inputs : List Input) :
    (inputs.foldl (Process.handle config)
      (.restart config log)).RecursionBounded := by
  have holds := (Process.restart_level config log).handle config inputs
  refine ⟨?_, ?_, ?_, holds.balanced⟩
  · intro failed
    exact (holds.bounded _ failed).1 rfl
  · intro failed
    exact (holds.bounded _ failed).2 rfl
  · intro bp member
    obtain ⟨visit, visited, rfl⟩ := List.mem_map.mp member
    exact (holds.shallow visit visited).trans_lt (by decide)

end Runs

end StellarCore.Scp
