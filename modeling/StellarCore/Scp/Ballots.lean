import StellarCore.Scp.BallotRun

/-!
# The steps of the ballot protocol

The phase and the five ballots of a node are what its statements are built
from.  Each `set*` method and each bump changes them by one function below,
before the node publishes the new statement.  `Ballots.Consistent` is what
`checkInvariants` asserts, and `Ballots.Later` collects what never goes back:
phases, the prepared pair, and from CONFIRM on the value.
-/

namespace StellarCore.Scp

@[ext]
structure Ballots where
  phase : SCPPhase
  current : Option SCPBallot
  prepared : Option SCPBallot
  preparedPrime : Option SCPBallot
  high : Option SCPBallot
  commit : Option SCPBallot
  deriving DecidableEq

def BallotProtocol.ballots (bp : BallotProtocol) : Ballots :=
  { phase := bp.mPhase
    current := bp.mCurrentBallot
    prepared := bp.mPrepared
    preparedPrime := bp.mPreparedPrime
    high := bp.mHighBallot
    commit := bp.mCommit }

namespace BallotProtocol

variable (bp : BallotProtocol)

@[simp] theorem ballots_phase : bp.ballots.phase = bp.mPhase := rfl

@[simp] theorem ballots_current :
    bp.ballots.current = bp.mCurrentBallot := rfl

@[simp] theorem ballots_prepared : bp.ballots.prepared = bp.mPrepared := rfl

@[simp] theorem ballots_preparedPrime :
    bp.ballots.preparedPrime = bp.mPreparedPrime := rfl

@[simp] theorem ballots_high : bp.ballots.high = bp.mHighBallot := rfl

@[simp] theorem ballots_commit : bp.ballots.commit = bp.mCommit := rfl

end BallotProtocol

/-- The effect of `updateCurrentIfNeeded`. -/
def raiseTo (current : Option SCPBallot) (high : SCPBallot) :
    Option SCPBallot :=
  match current with
  | none => some high
  | some b => if b < high then some high else some b

namespace Ballots

def initial : Ballots :=
  { phase := .prepare
    current := none
    prepared := none
    preparedPrime := none
    high := none
    commit := none }

/-- Is a ballot above `h` and incompatible with it accepted as prepared? -/
def aborts (ballots : Ballots) : Bool :=
  match ballots.high with
  | none => false
  | some high =>
      ballots.prepared.any (areBallotsLessAndIncompatible high) ||
        ballots.preparedPrime.any (areBallotsLessAndIncompatible high)

def withPrepared (ballots : Ballots) (ballot : SCPBallot) : Ballots :=
  match ballots.prepared with
  | none => { ballots with prepared := some ballot }
  | some prepared =>
      if prepared < ballot then
        { ballots with
          prepared := some ballot
          preparedPrime :=
            if prepared.value = ballot.value then ballots.preparedPrime
            else some prepared }
      else { ballots with preparedPrime := some ballot }

/-- Steps 1 and 5: accept a ballot as prepared. -/
def acceptPrepared (ballots : Ballots) (ballot : SCPBallot) : Ballots :=
  if (ballots.withPrepared ballot).aborts then
    { ballots.withPrepared ballot with commit := none }
  else ballots.withPrepared ballot

/-- Steps 2, 3 and 8: confirm `newH` as prepared and vote to commit from
`newC` on. -/
def confirmPrepared (ballots : Ballots) (newC newH : SCPBallot) : Ballots :=
  { ballots with
    high := some newH
    commit := if newC.counter ≠ 0 then some newC else ballots.commit
    current := raiseTo ballots.current newH }

/-- Steps 4, 6 and 8: accept the ballots from `c` to `h` as committed. -/
def acceptCommit (ballots : Ballots) (c h : SCPBallot) : Ballots :=
  if ballots.phase = .prepare then
    { phase := .confirm
      current :=
        match ballots.current with
        | none => some h
        | some b => if h ≤ b ∧ h.value = b.value then some b else some h
      prepared := ballots.prepared
      preparedPrime := none
      high := some h
      commit := some c }
  else
    { ballots with
      high := some h
      commit := some c
      current := raiseTo ballots.current h }

/-- Steps 7 and 8: confirm the ballots from `c` to `h` as committed. -/
def confirmCommit (ballots : Ballots) (c h : SCPBallot) : Ballots :=
  { ballots with
    phase := .externalize
    high := some h
    commit := some c
    current := raiseTo ballots.current h }

/-- Step 9 and timeouts: move to a higher ballot. -/
def bump (ballots : Ballots) (ballot : SCPBallot) : Ballots :=
  { ballots with current := some ballot }

/-- What `checkInvariants` asserts. -/
structure Consistent (ballots : Ballots) : Prop where
  counter : ∀ b, ballots.current = some b → b.counter ≠ 0
  prime : ∀ p p', ballots.prepared = some p →
    ballots.preparedPrime = some p' → p' ≤ p ∧ p'.value ≠ p.value
  commit : ∀ c, ballots.commit = some c →
    ∃ h b, ballots.high = some h ∧ ballots.current = some b ∧
      (c ≤ h ∧ c.value = h.value) ∧ (h ≤ b ∧ h.value = b.value)
  confirmed : ballots.phase ≠ .prepare → ballots.commit ≠ none

/-- The pledges `createStatement` builds in the phase. -/
def pledges (config : SlotConfig) (ballots : Ballots) : Option Pledges :=
  match ballots.phase with
  | .prepare =>
      some (.prepare
        { quorumSetHash := config.localNode.mQSetHash
          ballot := ballots.current.getD .zero
          prepared := ballots.prepared
          preparedPrime := ballots.preparedPrime
          nC := (ballots.commit.map SCPBallot.counter).getD 0
          nH := (ballots.high.map SCPBallot.counter).getD 0 })
  | .confirm =>
      match ballots.commit, ballots.high, ballots.current,
          ballots.prepared with
      | some commit, some high, some current, some prepared =>
          some (.confirm
            { ballot := current
              nPrepared := prepared.counter
              nCommit := commit.counter
              nH := high.counter
              quorumSetHash := config.localNode.mQSetHash })
      | _, _, _, _ => none
  | .externalize =>
      match ballots.commit, ballots.high with
      | some commit, some high =>
          some (.externalize
            { commit := commit
              nH := high.counter
              commitQuorumSetHash := config.localNode.mQSetHash })
      | _, _ => none

/-- A PREPARE statement comes out of the ballots of a PREPARE phase. -/
theorem pledges_prepare {config : SlotConfig} {ballots : Ballots}
    {prep : Prepare}
    (built : ballots.pledges config = some (.prepare prep)) :
    ballots.phase = .prepare ∧
      prep = { quorumSetHash := config.localNode.mQSetHash
               ballot := ballots.current.getD .zero
               prepared := ballots.prepared
               preparedPrime := ballots.preparedPrime
               nC := (ballots.commit.map SCPBallot.counter).getD 0
               nH := (ballots.high.map SCPBallot.counter).getD 0 } := by
  unfold pledges at built
  split at built
  · cases built
    exact ⟨by assumption, rfl⟩
  · split at built
    · cases built
    · cases built
  · split at built
    · cases built
    · cases built

theorem pledges_confirm {config : SlotConfig} {ballots : Ballots}
    {con : Confirm}
    (built : ballots.pledges config = some (.confirm con)) :
    ballots.phase = .confirm ∧ ∃ c h b p, ballots.commit = some c ∧
      ballots.high = some h ∧ ballots.current = some b ∧
      ballots.prepared = some p ∧
      con = { ballot := b
              nPrepared := p.counter
              nCommit := c.counter
              nH := h.counter
              quorumSetHash := config.localNode.mQSetHash } := by
  unfold pledges at built
  split at built
  · cases built
  · split at built
    · rename_i c h b p commit high current prepared
      cases built
      exact ⟨by assumption, c, h, b, p, commit, high, current, prepared,
        rfl⟩
    · cases built
  · split at built
    · cases built
    · cases built

theorem pledges_externalize {config : SlotConfig} {ballots : Ballots}
    {ext : Externalize}
    (built : ballots.pledges config = some (.externalize ext)) :
    ballots.phase = .externalize ∧ ∃ c h, ballots.commit = some c ∧
      ballots.high = some h ∧
      ext = { commit := c
              nH := h.counter
              commitQuorumSetHash := config.localNode.mQSetHash } := by
  unfold pledges at built
  split at built
  · cases built
  · split at built
    · cases built
    · cases built
  · split at built
    · rename_i c h commit high
      cases built
      exact ⟨by assumption, c, h, commit, high, rfl⟩
    · cases built

/-- All of `b`, `h` and `c` are set and carry the value. -/
def Carries (ballots : Ballots) (value : Value) : Prop :=
  ∃ b h c, ballots.current = some b ∧ ballots.high = some h ∧
    ballots.commit = some c ∧ b.value = value ∧ h.value = value ∧
    c.value = value

theorem Consistent.carries {ballots : Ballots} {commit : SCPBallot}
    (consistent : ballots.Consistent)
    (set : ballots.commit = some commit) : ballots.Carries commit.value := by
  obtain ⟨h, b, highSet, currentSet, ⟨_, low⟩, _, top⟩ :=
    consistent.commit commit set
  exact ⟨b, h, commit, currentSet, highSet, set, (low.trans top).symm,
    low.symm, rfl⟩

/-- The prepared pair: `p'` comes with a greater and incompatible `p`. -/
def PairOrdered (ballots : Ballots) : Prop :=
  ∀ p', ballots.preparedPrime = some p' →
    ∃ p, ballots.prepared = some p ∧ p' < p ∧ p'.value ≠ p.value

/-- What holds of the ballots whenever the node has published them. -/
structure Sound (ballots : Ballots) : Prop where
  consistent : ballots.Consistent
  pair : ballots.PairOrdered
  bounded : ballots.phase = .prepare → ∀ h, ballots.high = some h →
    ∃ p, ballots.prepared = some p ∧ h.counter ≤ p.counter
  committed : ∀ c, ballots.commit = some c → c.counter ≠ 0
  confirmed : ballots.phase ≠ .prepare →
    ballots.prepared ≠ none ∧ ballots.preparedPrime = none

theorem initial_sound : initial.Sound where
  consistent :=
    { counter := fun b set => by simp [initial] at set
      prime := fun p p' set => by simp [initial] at set
      commit := fun c set => by simp [initial] at set
      confirmed := fun started => absurd rfl started }
  pair := fun p' set => by simp [initial] at set
  bounded := fun _ h set => by simp [initial] at set
  committed := fun c set => by simp [initial] at set
  confirmed := fun started => absurd rfl started

/-- The prepared pair in its lexicographic order. -/
def pair (ballots : Ballots) : WithBot SCPBallot ×ₗ WithBot SCPBallot :=
  toLex (pointerRank ballots.prepared, pointerRank ballots.preparedPrime)

end Ballots

def SCPPhase.number : SCPPhase → Nat
  | .prepare => 0
  | .confirm => 1
  | .externalize => 2

theorem SCPPhase.number_injective : Function.Injective SCPPhase.number := by
  intro left right equal
  cases left with
  | prepare =>
      cases right with
      | prepare => rfl
      | confirm => cases equal
      | externalize => cases equal
  | confirm =>
      cases right with
      | prepare => cases equal
      | confirm => rfl
      | externalize => cases equal
  | externalize =>
      cases right with
      | prepare => cases equal
      | confirm => cases equal
      | externalize => rfl

/-- `after` is reached from `before` by steps of the protocol: what never
goes back has not gone back. -/
structure Ballots.Later (before after : Ballots) : Prop where
  phase : before.phase.number ≤ after.phase.number
  prepared : pointerRank before.prepared ≤ pointerRank after.prepared
  pair : after.phase = .prepare → before.pair ≤ after.pair
  high : before.high ≠ none → after.high ≠ none
  value : ∀ value, before.phase ≠ .prepare → before.Carries value →
    after.Carries value
  final : before.phase = .externalize →
    after.current = before.current ∧ after.high = before.high ∧
      after.commit = before.commit

namespace Ballots.Later

theorem refl (ballots : Ballots) : ballots.Later ballots where
  phase := le_refl _
  prepared := le_refl _
  pair := fun _ => le_refl _
  high := fun set => set
  value := fun _ _ carries => carries
  final := fun _ => ⟨rfl, rfl, rfl⟩

theorem not_prepare {before after : Ballots} (later : before.Later after)
    (started : before.phase ≠ .prepare) : after.phase ≠ .prepare := by
  intro back
  have number := later.phase
  rw [back] at number
  cases phase : before.phase with
  | prepare => exact started phase
  | confirm => simp [phase, SCPPhase.number] at number
  | externalize => simp [phase, SCPPhase.number] at number

theorem externalize {before after : Ballots} (later : before.Later after)
    (ended : before.phase = .externalize) : after.phase = .externalize := by
  have number := later.phase
  rw [ended] at number
  cases phase : after.phase with
  | prepare => simp [phase, SCPPhase.number] at number
  | confirm => simp [phase, SCPPhase.number] at number
  | externalize => rfl

theorem trans {first second third : Ballots} (earlier : first.Later second)
    (later : second.Later third) : first.Later third where
  phase := earlier.phase.trans later.phase
  prepared := earlier.prepared.trans later.prepared
  pair := by
    intro prepare
    have middle : second.phase = .prepare := by
      by_contra started
      exact later.not_prepare started prepare
    exact (earlier.pair middle).trans (later.pair prepare)
  high := fun set => later.high (earlier.high set)
  value := fun value started carries =>
    later.value value (earlier.not_prepare started)
      (earlier.value value started carries)
  final := by
    intro ended
    obtain ⟨current, high, commit⟩ := earlier.final ended
    obtain ⟨current', high', commit'⟩ :=
      later.final (earlier.externalize ended)
    exact ⟨current'.trans current, high'.trans high, commit'.trans commit⟩

end Ballots.Later

/-! ## What the steps do to the ballots -/

namespace Ballots

variable {ballots : Ballots} {ballot c h newC newH : SCPBallot}

/-- A ballot that may raise `p` or `p'`: above `p'`, not covered by `p`. -/
structure Raises (ballots : Ballots) (ballot : SCPBallot) : Prop where
  above : ∀ p', ballots.preparedPrime = some p' → p' < ballot
  notCovered : ∀ p, ballots.prepared = some p →
    ¬ (ballot ≤ p ∧ ballot.value = p.value)

/-- The three ways in which `p` and `p'` change. -/
theorem Raises.cases (raises : ballots.Raises ballot)
    (ordered : ballots.PairOrdered) :
    (ballots.prepared = none ∧ ballots.preparedPrime = none ∧
      ballots.withPrepared ballot =
        { ballots with prepared := some ballot }) ∨
    (∃ p, ballots.prepared = some p ∧ p < ballot ∧
      ballots.withPrepared ballot =
        { ballots with
          prepared := some ballot
          preparedPrime :=
            if p.value = ballot.value then ballots.preparedPrime
            else some p }) ∨
    (∃ p, ballots.prepared = some p ∧ ballot < p ∧ ballot.value ≠ p.value ∧
      ballots.withPrepared ballot =
        { ballots with preparedPrime := some ballot }) := by
  cases prepared : ballots.prepared with
  | none =>
      left
      refine ⟨rfl, ?_, by simp [withPrepared, prepared]⟩
      cases prime : ballots.preparedPrime with
      | none => rfl
      | some p' =>
          obtain ⟨p, set, _⟩ := ordered p' prime
          rw [prepared] at set
          cases set
  | some p =>
      right
      by_cases less : p < ballot
      · left
        exact ⟨p, rfl, less, by simp [withPrepared, prepared, less]⟩
      · right
        have below : ballot ≤ p := not_lt.mp less
        have different : ballot.value ≠ p.value := fun same =>
          raises.notCovered p prepared ⟨below, same⟩
        refine ⟨p, rfl, lt_of_le_of_ne below ?_, different,
          by simp [withPrepared, prepared, less]⟩
        intro equal
        exact different (congrArg SCPBallot.value equal)

theorem withPrepared_pairOrdered (raises : ballots.Raises ballot)
    (ordered : ballots.PairOrdered) :
    (ballots.withPrepared ballot).PairOrdered := by
  rcases raises.cases ordered with
    ⟨_, none, result⟩ | ⟨p, set, less, result⟩ | ⟨p, set, less, differ, result⟩
  · rw [result]
    intro p' prime
    exact absurd prime (by simp [none])
  · rw [result]
    intro p' prime
    refine ⟨ballot, rfl, ?_⟩
    by_cases same : p.value = ballot.value
    · have old : ballots.preparedPrime = some p' := by
        simpa [same] using prime
      obtain ⟨q, qSet, below, differs⟩ := ordered p' old
      rw [set] at qSet
      cases qSet
      exact ⟨below.trans less, fun equal => differs (equal.trans same.symm)⟩
    · have new : p = p' := by simpa [same] using prime
      subst new
      exact ⟨less, same⟩
  · rw [result]
    intro p' prime
    cases prime
    exact ⟨p, set, less, differ⟩

theorem lt_pair_of_prepared {before after : Ballots}
    (less : pointerRank before.prepared < pointerRank after.prepared) :
    before.pair < after.pair :=
  Prod.Lex.toLex_lt_toLex.mpr (.inl less)

theorem lt_pair_of_prime {before after : Ballots}
    (same : before.prepared = after.prepared)
    (less : pointerRank before.preparedPrime <
      pointerRank after.preparedPrime) : before.pair < after.pair :=
  Prod.Lex.toLex_lt_toLex.mpr (.inr ⟨congrArg pointerRank same, less⟩)

/-- Accepting a ballot as prepared strictly raises the pair and never
lowers `p`. -/
theorem withPrepared_raises (raises : ballots.Raises ballot)
    (ordered : ballots.PairOrdered) :
    ballots.pair < (ballots.withPrepared ballot).pair ∧
      pointerRank ballots.prepared ≤
        pointerRank (ballots.withPrepared ballot).prepared := by
  rcases raises.cases ordered with
    ⟨none, _, result⟩ | ⟨p, set, less, result⟩ | ⟨p, set, _, _, result⟩
  · have below : pointerRank ballots.prepared <
        pointerRank (ballots.withPrepared ballot).prepared := by
      simp [result, none, pointerRank, WithBot.bot_lt_coe]
    exact ⟨lt_pair_of_prepared below, below.le⟩
  · have below : pointerRank ballots.prepared <
        pointerRank (ballots.withPrepared ballot).prepared := by
      simpa [result, set, pointerRank, WithBot.coe_lt_coe] using less
    exact ⟨lt_pair_of_prepared below, below.le⟩
  · refine ⟨lt_pair_of_prime (by simp [result]) ?_, by simp [result]⟩
    cases prime : ballots.preparedPrime with
    | none => simp [result, pointerRank, WithBot.bot_lt_coe]
    | some p' =>
        simpa [result, pointerRank, WithBot.coe_lt_coe] using
          raises.above p' prime

/-- What `withPrepared` leaves alone. -/
theorem withPrepared_frame (ballots : Ballots) (ballot : SCPBallot) :
    (ballots.withPrepared ballot).phase = ballots.phase ∧
      (ballots.withPrepared ballot).current = ballots.current ∧
      (ballots.withPrepared ballot).high = ballots.high ∧
      (ballots.withPrepared ballot).commit = ballots.commit := by
  unfold withPrepared
  split
  · exact ⟨rfl, rfl, rfl, rfl⟩
  · split
    · exact ⟨rfl, rfl, rfl, rfl⟩
    · exact ⟨rfl, rfl, rfl, rfl⟩

@[simp] theorem acceptPrepared_phase :
    (ballots.acceptPrepared ballot).phase = ballots.phase := by
  unfold acceptPrepared
  split
  · exact (withPrepared_frame ballots ballot).1
  · exact (withPrepared_frame ballots ballot).1

@[simp] theorem acceptPrepared_current :
    (ballots.acceptPrepared ballot).current = ballots.current := by
  unfold acceptPrepared
  split
  · exact (withPrepared_frame ballots ballot).2.1
  · exact (withPrepared_frame ballots ballot).2.1

@[simp] theorem acceptPrepared_high :
    (ballots.acceptPrepared ballot).high = ballots.high := by
  unfold acceptPrepared
  split
  · exact (withPrepared_frame ballots ballot).2.2.1
  · exact (withPrepared_frame ballots ballot).2.2.1

@[simp] theorem acceptPrepared_prepared :
    (ballots.acceptPrepared ballot).prepared =
      (ballots.withPrepared ballot).prepared := by
  unfold acceptPrepared
  split
  · rfl
  · rfl

@[simp] theorem acceptPrepared_preparedPrime :
    (ballots.acceptPrepared ballot).preparedPrime =
      (ballots.withPrepared ballot).preparedPrime := by
  unfold acceptPrepared
  split
  · rfl
  · rfl

theorem acceptPrepared_commit :
    (ballots.acceptPrepared ballot).commit =
      if (ballots.withPrepared ballot).aborts then none
      else ballots.commit := by
  unfold acceptPrepared
  split
  · rfl
  · exact (withPrepared_frame ballots ballot).2.2.2

theorem acceptPrepared_pair :
    (ballots.acceptPrepared ballot).pair =
      (ballots.withPrepared ballot).pair := by
  simp [pair]

/-- In CONFIRM only ballots compatible with `p` are accepted as prepared, and
`p'` stays unset. -/
theorem withPrepared_of_compatible {p : SCPBallot}
    (raises : ballots.Raises ballot) (set : ballots.prepared = some p)
    (below : p ≤ ballot) (same : p.value = ballot.value) :
    ballots.withPrepared ballot =
      { ballots with prepared := some ballot } := by
  have less : p < ballot := lt_of_le_of_ne below (fun equal =>
    raises.notCovered p set ⟨equal ▸ le_refl _, same.symm⟩)
  simp [withPrepared, set, less, same]

theorem raiseTo_cases (current : Option SCPBallot) (h : SCPBallot) :
    raiseTo current h = some h ∨
      ∃ b, current = some b ∧ h ≤ b ∧ raiseTo current h = some b := by
  cases current with
  | none => exact .inl rfl
  | some b =>
      by_cases less : b < h
      · exact .inl (by simp [raiseTo, less])
      · exact .inr ⟨b, rfl, not_lt.mp less, by simp [raiseTo, less]⟩

/-- What a fixed value of `b` and `h` gives after raising `b` to `h`. -/
theorem raiseTo_value (current : Option SCPBallot) {h : SCPBallot}
    {value : Value} (high : h.value = value)
    (old : ∀ b, current = some b → b.value = value) :
    ∃ b, raiseTo current h = some b ∧ b.value = value := by
  rcases raiseTo_cases current h with raised | ⟨b, set, _, kept⟩
  · exact ⟨h, raised, high⟩
  · exact ⟨b, kept, old b set⟩

end Ballots

end StellarCore.Scp
