import StellarCore.Scp.Assertions
import StellarCore.Scp.IntervalSearch

/-!
# Following the counters of the other nodes

`attemptBump` moves to the least counter that no blocking set of nodes has
left behind.  Its loop goes up the counters and gives up at one below the
local counter, so a single laggard hides the nodes that are ahead.  A forced
bump takes the next counter, which wraps at the greatest one.
-/

namespace StellarCore.Scp

open StellarCore.Lib

/-! ## Counters ahead of the local one -/

theorem le_uint32Max (n : Uint32) : n ≤ uint32Max := by
  have bound := n.isLt
  rw [Fin.le_def]
  show n.val ≤ 4294967295
  omega

theorem isAheadOf_iff {n : Uint32} {st : SCPStatement} :
    isAheadOf n st = true ↔ n < bumpCounter st := by
  unfold isAheadOf bumpCounter
  cases st.pledges with
  | prepare p => simp
  | confirm c => simp
  | externalize e =>
      simp only [decide_eq_true_eq]
      exact (lt_iff_le_and_ne.trans (and_iff_right (le_uint32Max n))).symm

section Counters

variable (config : SlotConfig) (bp : BallotProtocol)

/-- The local counter; 0 before the first ballot. -/
def localCounter : Uint32 :=
  (bp.mCurrentBallot.map SCPBallot.counter).getD 0

/-- The counters found in the statements. -/
def statementCounters : List Uint32 :=
  bp.mLatestEnvelopes.entries.map
    (fun entry => bumpCounter entry.2.statement)

/-- Do the nodes whose counters are above `n` form a blocking set? -/
def blockingAhead (n : Uint32) : Bool :=
  isVBlocking config.localNode.mQSet bp.mLatestEnvelopes (isAheadOf n)

variable {config bp}

theorem mem_statementCounters {n : Uint32} :
    n ∈ statementCounters bp ↔
      ∃ node envelope, bp.mLatestEnvelopes.lookup node = some envelope ∧
        bumpCounter envelope.statement = n := by
  unfold statementCounters
  rw [List.mem_map]
  constructor
  · rintro ⟨⟨node, envelope⟩, member, equal⟩
    exact ⟨node, envelope, AList.mem_lookup_iff.mpr member, equal⟩
  · rintro ⟨node, envelope, found, equal⟩
    exact ⟨⟨node, envelope⟩, AList.mem_lookup_iff.mp found, equal⟩

/-- A blocking set that is ahead has a member. -/
theorem exists_ahead {n : Uint32}
    (blocking : blockingAhead config bp n = true) :
    ∃ m ∈ statementCounters bp, n < m := by
  by_contra none
  push Not at none
  have empty : filteredNodes bp.mLatestEnvelopes (isAheadOf n) = [] := by
    rw [List.eq_nil_iff_forall_not_mem]
    intro node member
    obtain ⟨envelope, found, ahead⟩ := mem_filteredNodes.mp member
    have counted := none _
      (mem_statementCounters.mpr ⟨node, envelope, found, rfl⟩)
    exact absurd (isAheadOf_iff.mp ahead) (not_lt.mpr counted)
  rw [blockingAhead, isVBlocking, empty, isVBlockingInternal_nil]
    at blocking
  cases blocking

/-- Some counter among the statements is not left behind. -/
theorem exists_not_blockingAhead {n : Uint32}
    (blocking : blockingAhead config bp n = true) :
    ∃ m ∈ statementCounters bp, blockingAhead config bp m = false := by
  by_contra none
  push Not at none
  have nonempty : (statementCounters bp).toFinset.Nonempty := by
    obtain ⟨m, member, _⟩ := exists_ahead blocking
    exact ⟨m, List.mem_toFinset.mpr member⟩
  obtain ⟨top, member, greatest⟩ :=
    (statementCounters bp).toFinset.exists_max_image id nonempty
  have counted := List.mem_toFinset.mp member
  obtain ⟨m, above, higher⟩ :=
    exists_ahead (Bool.eq_true_of_not_eq_false (none top counted))
  exact absurd (greatest m (List.mem_toFinset.mpr above))
    (not_le.mpr higher)

/-! ## The loop -/

private theorem findBumpCounter_cons {target n : Uint32}
    {counters : List Uint32} :
    findBumpCounter config bp target (n :: counters) =
      if n < target then none
      else if blockingAhead config bp n = true then
        findBumpCounter config bp target counters
      else if n = target then none
      else some n :=
  rfl

/-- Above the local counter the loop takes the first counter that is not left
behind. -/
private theorem findBumpCounter_eq_find {target : Uint32}
    (counters : List Uint32) (above : ∀ n ∈ counters, target < n) :
    findBumpCounter config bp target counters =
      counters.find? (fun n => !blockingAhead config bp n) := by
  induction counters with
  | nil => rfl
  | cons n counters ih =>
      have higher : target < n := above n List.mem_cons_self
      have rest := ih (fun m member =>
        above m (List.mem_cons_of_mem _ member))
      rw [findBumpCounter_cons, if_neg (not_lt.mpr higher.le),
        List.find?_cons]
      by_cases blocking : blockingAhead config bp n = true
      · rw [if_pos blocking, rest]
        simp [blocking]
      · rw [if_neg blocking, if_neg higher.ne']
        simp [blocking]

/-- The counter `attemptBump` finds. -/
def bumpTarget (config : SlotConfig) (bp : BallotProtocol) :
    Option Uint32 :=
  findBumpCounter config bp (localCounter bp)
    (toSet (localCounter bp :: statementCounters bp))

/-- A laggard ends the loop at once. -/
theorem bumpTarget_laggard {n : Uint32} (found : n ∈ statementCounters bp)
    (behind : n < localCounter bp) : bumpTarget config bp = none := by
  unfold bumpTarget
  have inside : n ∈ toSet (localCounter bp :: statementCounters bp) := by
    simp [found]
  have sorted := toSet_sorted (localCounter bp :: statementCounters bp)
  cases counters : toSet (localCounter bp :: statementCounters bp) with
  | nil =>
      rw [counters] at inside
      cases inside
  | cons first rest =>
      rw [counters] at inside sorted
      have lower : first < localCounter bp := by
        rcases List.mem_cons.mp inside with here | later
        · exact here ▸ behind
        · exact ((List.pairwise_cons.mp sorted).1 n later).trans behind
      rw [findBumpCounter_cons, if_pos lower]

/-- Without laggards the loop starts at the local counter. -/
private theorem toSet_eq_cons
    (noLaggard : ∀ n ∈ statementCounters bp, localCounter bp ≤ n) :
    ∃ rest, toSet (localCounter bp :: statementCounters bp) =
        localCounter bp :: rest ∧
      (∀ n ∈ rest, localCounter bp < n) ∧ rest.Pairwise (· < ·) := by
  have inside : localCounter bp ∈
      toSet (localCounter bp :: statementCounters bp) := by
    simp
  have sorted := toSet_sorted (localCounter bp :: statementCounters bp)
  cases counters : toSet (localCounter bp :: statementCounters bp) with
  | nil =>
      rw [counters] at inside
      cases inside
  | cons first rest =>
      rw [counters] at inside sorted
      obtain ⟨below, ordered⟩ := List.pairwise_cons.mp sorted
      have member : first ∈
          toSet (localCounter bp :: statementCounters bp) := by
        rw [counters]
        exact List.mem_cons_self
      have least : localCounter bp ≤ first := by
        rw [mem_toSet] at member
        rcases List.mem_cons.mp member with here | later
        · exact here.ge
        · exact noLaggard first later
      have equal : first = localCounter bp := by
        rcases List.mem_cons.mp inside with here | later
        · exact here.symm
        · exact absurd (below _ later) (not_lt.mpr least)
      subst equal
      exact ⟨rest, rfl, below, ordered⟩

theorem bumpTarget_not_behind
    (current : blockingAhead config bp (localCounter bp) = false) :
    bumpTarget config bp = none := by
  by_cases laggard : ∃ n ∈ statementCounters bp, n < localCounter bp
  · obtain ⟨n, found, behind⟩ := laggard
    exact bumpTarget_laggard found behind
  · push Not at laggard
    obtain ⟨rest, split, _, _⟩ := toSet_eq_cons laggard
    rw [bumpTarget, split, findBumpCounter_cons, if_neg (lt_irrefl _),
      if_neg (by simp [current]), if_pos rfl]

/-- Without laggards the loop finds the least counter that is not left
behind. -/
theorem bumpTarget_least
    (behind : blockingAhead config bp (localCounter bp) = true)
    (noLaggard : ∀ n ∈ statementCounters bp, localCounter bp ≤ n) :
    ∃ n, bumpTarget config bp = some n ∧ localCounter bp < n ∧
      IsLeast {m | m ∈ statementCounters bp ∧
        blockingAhead config bp m = false} n := by
  obtain ⟨rest, split, above, ordered⟩ := toSet_eq_cons noLaggard
  have members : ∀ m, m ∈ statementCounters bp →
      blockingAhead config bp m = false → m ∈ rest := by
    intro m counted free
    have inside : m ∈ localCounter bp :: rest := by
      rw [← split]
      simp [counted]
    rcases List.mem_cons.mp inside with here | later
    · rw [here, behind] at free
      cases free
    · exact later
  have skips : bumpTarget config bp =
      rest.find? (fun n => !blockingAhead config bp n) := by
    rw [bumpTarget, split, findBumpCounter_cons, if_neg (lt_irrefl _),
      if_pos behind]
    exact findBumpCounter_eq_find rest above
  obtain ⟨free, counted, notBlocking⟩ := exists_not_blockingAhead behind
  cases found : rest.find? (fun n => !blockingAhead config bp n) with
  | none =>
      have all := List.find?_eq_none.mp found free
        (members free counted notBlocking)
      simp [notBlocking] at all
  | some n =>
      obtain ⟨passes, before, after, parts, earlier⟩ :=
        List.find?_eq_some_iff_append.mp found
      have inside : n ∈ rest := by simp [parts]
      have member : n ∈ statementCounters bp := by
        have anywhere : n ∈
            toSet (localCounter bp :: statementCounters bp) := by
          rw [split]
          exact List.mem_cons_of_mem _ inside
        rw [mem_toSet] at anywhere
        refine (List.mem_cons.mp anywhere).resolve_left ?_
        exact (above n inside).ne'
      refine ⟨n, skips.trans found, above n inside,
        ⟨member, by simpa using passes⟩, ?_⟩
      rintro m ⟨mCounted, mFree⟩
      have mInside := members m mCounted mFree
      rw [parts] at mInside ordered
      rcases List.mem_append.mp mInside with first | last
      · have blocked := earlier m first
        simp [mFree] at blocked
      · rcases List.mem_cons.mp last with here | later
        · exact here.ge
        · exact ((List.pairwise_cons.mp
            (List.pairwise_append.mp ordered).2.1).1 m later).le

/-- A counter that is found is above the local one and not left behind. -/
theorem bumpTarget_some {n : Uint32}
    (found : bumpTarget config bp = some n) :
    localCounter bp < n ∧ blockingAhead config bp n = false := by
  by_cases laggard : ∃ m ∈ statementCounters bp, m < localCounter bp
  · obtain ⟨m, counted, behind⟩ := laggard
    rw [bumpTarget_laggard counted behind] at found
    cases found
  · push Not at laggard
    cases ahead : blockingAhead config bp (localCounter bp) with
    | false =>
        rw [bumpTarget_not_behind ahead] at found
        cases found
    | true =>
        obtain ⟨m, same, above, least⟩ := bumpTarget_least ahead laggard
        rw [same] at found
        cases found
        exact ⟨above, least.1.2⟩

theorem lt_of_bumpTarget {n : Uint32}
    (found : bumpTarget config bp = some n) : localCounter bp < n :=
  (bumpTarget_some found).1

end Counters

/-! ## Moving to a counter -/

/-- The value `abandonBallot` starts from; it is empty if there is none. -/
def Slot.abandonValue (slot : Slot) : Value :=
  if slot.mLatestCompositeCandidate = [] then
    (slot.mBallotProtocol.mCurrentBallot.map SCPBallot.value).getD []
  else slot.mLatestCompositeCandidate

/-- The ballot `bumpState(value, n)` hands to `updateCurrentValue`. -/
def BallotProtocol.bumpedBallot (bp : BallotProtocol) (value : Value)
    (n : Uint32) : SCPBallot :=
  { counter := n
    value := (bp.mHighBallot.map SCPBallot.value).getD value }

section Moving

variable {config : SlotConfig} {advanceSlot : SCPStatement → BallotM Unit}
  {slot : Slot}

theorem SCPPhase.active_iff {phase : SCPPhase} :
    ¬ (phase ≠ .prepare ∧ phase ≠ .confirm) ↔ phase ≠ .externalize := by
  cases phase with
  | prepare => simp
  | confirm => simp
  | externalize => simp

/-- A higher ballot with the value of `h` becomes the current one. -/
private theorem updateCurrentValue_moves {newb : SCPBallot}
    (sound : slot.mBallotProtocol.ballots.Sound)
    (running : slot.mBallotProtocol.mPhase ≠ .externalize)
    (nonzero : newb.counter ≠ 0)
    (above : ∀ b, slot.mBallotProtocol.mCurrentBallot = some b → b < newb)
    (override : ∀ h, slot.mBallotProtocol.mHighBallot = some h →
      newb.value = h.value) :
    Ends (updateCurrentValue newb) slot
      (fun updated finish => updated = true ∧
        finish.mBallotProtocol =
          { slot.mBallotProtocol with
            mCurrentBallot := some newb, mHeardFromQuorum := false })
      (fun _ _ => False) := by
  have compatible : ∀ c, slot.mBallotProtocol.mCommit = some c →
      c.value = newb.value := by
    intro c committed
    obtain ⟨h, b, high, _, ⟨_, agree⟩, _⟩ :=
      sound.consistent.commit c committed
    exact agree.trans (override h high).symm
  have bumped : Ends (bumpToBallot newb true) slot
      (fun _ middle => Ends checkInvariants middle
        (fun _ finish => finish.mBallotProtocol =
          { slot.mBallotProtocol with
            mCurrentBallot := some newb, mHeardFromQuorum := false })
        (fun _ _ => False)) (fun _ _ => False) := by
    refine (bumpToBallot_succeeds running
      (fun _ b set => (above b set).le)).mono ?_ (fun _ _ fails => fails)
    intro _ middle moved
    refine checkInvariants_ends.mono ?_ ?_
    · rintro _ finish ⟨rfl, _⟩
      exact moved
    · rintro reason finish ⟨_, _, inconsistent⟩
      rw [moved] at inconsistent
      exact inconsistent (Ballots.bump_consistent sound.consistent nonzero
        above (fun _ c _ committed => compatible c committed))
  unfold updateCurrentValue
  simp only [Ends.bind_iff, getBallotProtocol_ends,
    if_neg (SCPPhase.active_iff.mpr running)]
  cases current : slot.mBallotProtocol.mCurrentBallot with
  | none =>
      simp only [Ends.bind_iff, Ends.pure_iff, true_and]
      exact bumped
  | some b =>
      have less := above b current
      have allowed : ¬ slot.mBallotProtocol.mCommit.any
          (fun commit => !areBallotsCompatible commit newb) = true := by
        rw [Option.any_eq_true]
        rintro ⟨c, committed, differs⟩
        rw [Bool.not_eq_true', ← Bool.not_eq_true,
          areBallotsCompatible_iff] at differs
        exact differs (compatible c committed)
      simp only [Ends.bind_iff, dbgAssert_ends, Ends.pure_iff,
        decide_eq_true_eq, decide_eq_false_iff_not,
        compareBallots_nonpos_iff, compareBallots_neg_iff, less, less.le,
        if_neg allowed, if_true, true_and, not_true_eq_false,
        false_implies, and_true, forall_const]
      exact bumped

/-- The state in which the ballot has become the current one. -/
def BallotProtocol.movedTo (bp : BallotProtocol) (ballot : SCPBallot) :
    BallotProtocol :=
  { bp with mCurrentBallot := some ballot, mHeardFromQuorum := false }

theorem attemptBump_stays
    (unfound : bumpTarget config slot.mBallotProtocol = none) :
    ChangesNothing (attemptBump config advanceSlot) slot .bump := by
  have target : findBumpCounter config slot.mBallotProtocol
      ((slot.mBallotProtocol.mCurrentBallot.map SCPBallot.counter).getD 0)
      (toSet ((slot.mBallotProtocol.mCurrentBallot.map
        SCPBallot.counter).getD 0 ::
        slot.mBallotProtocol.mLatestEnvelopes.entries.map
          (fun entry => bumpCounter entry.2.statement))) = none := unfound
  apply Ends.eq_ok
  unfold attemptBump
  rw [visiting_ends]
  simp only [Ends.ite_iff, Ends.pure_iff, target, and_self, implies_true]

private theorem bumpStateTo_arrives {value : Value} {n : Uint32}
    (sound : slot.mBallotProtocol.ballots.Sound)
    (running : slot.mBallotProtocol.mPhase ≠ .externalize)
    (above : localCounter slot.mBallotProtocol < n) :
    Arrives (bumpStateTo config advanceSlot value n) slot
      (do emitCurrentStateStatement config advanceSlot; return true)
      (fun middle => middle.mBallotProtocol =
        slot.mBallotProtocol.movedTo
          (slot.mBallotProtocol.bumpedBallot value n)) := by
  unfold bumpStateTo
  apply Arrives.bind
  rw [getBallotProtocol_ends, if_neg (SCPPhase.active_iff.mpr running)]
  apply Arrives.bind
  have nonzero : n ≠ 0 :=
    Fin.pos_iff_ne_zero.mp ((Fin.zero_le _).trans_lt above)
  have higher : ∀ b, slot.mBallotProtocol.mCurrentBallot = some b →
      b < slot.mBallotProtocol.bumpedBallot value n := by
    intro b current
    refine SCPBallot.lt_iff.mpr (.inl ?_)
    simpa [localCounter, current, BallotProtocol.bumpedBallot] using above
  have override : ∀ h, slot.mBallotProtocol.mHighBallot = some h →
      (slot.mBallotProtocol.bumpedBallot value n).value = h.value := by
    intro h high
    simp [BallotProtocol.bumpedBallot, high]
  refine (updateCurrentValue_moves sound running nonzero higher
    override).mono ?_ (fun _ _ fails => fails)
  rintro updated middle ⟨rfl, moved⟩
  simp only [if_true]
  apply Arrives.bind
  rw [callDriver_ends]
  exact .here moved

theorem attemptBump_arrives {n : Uint32}
    (sound : slot.mBallotProtocol.ballots.Sound)
    (running : slot.mBallotProtocol.mPhase ≠ .externalize)
    (available : slot.abandonValue ≠ [])
    (found : bumpTarget config slot.mBallotProtocol = some n) :
    Arrives (attemptBump config advanceSlot) slot
      (do emitCurrentStateStatement config advanceSlot; return true)
      (fun middle => middle.mBallotProtocol =
        slot.mBallotProtocol.movedTo
          (slot.mBallotProtocol.bumpedBallot slot.abandonValue n)) := by
  have target : findBumpCounter config slot.mBallotProtocol
      ((slot.mBallotProtocol.mCurrentBallot.map SCPBallot.counter).getD 0)
      (toSet ((slot.mBallotProtocol.mCurrentBallot.map
        SCPBallot.counter).getD 0 ::
        slot.mBallotProtocol.mLatestEnvelopes.entries.map
          (fun entry => bumpCounter entry.2.statement))) = some n := found
  have above := lt_of_bumpTarget found
  have nonzero : n ≠ 0 :=
    Fin.pos_iff_ne_zero.mp ((Fin.zero_le _).trans_lt above)
  have same : (slot.visiting .bump).mBallotProtocol =
    slot.mBallotProtocol := rfl
  unfold attemptBump
  apply Arrives.bind
  rw [visit_ends]
  apply Arrives.bind
  simp only [getBallotProtocol_ends, same,
    if_neg (SCPPhase.active_iff.mpr running), target]
  unfold abandonBallot
  apply Arrives.bind
  rw [Ends.get_iff]
  have value : (if (slot.visiting .bump).mLatestCompositeCandidate = []
      then ((slot.visiting .bump).mBallotProtocol.mCurrentBallot.map
        SCPBallot.value).getD []
      else (slot.visiting .bump).mLatestCompositeCandidate) =
        slot.abandonValue := rfl
  simp only [value, if_neg available, if_neg nonzero]
  exact bumpStateTo_arrives sound running above

end Moving

/-- What `attemptBump` is for: if a blocking set of nodes is ahead of the
local counter, the node moves to the least counter among the statements that
no blocking set has left behind, and publishes that; otherwise nothing
changes. -/
def FollowsCounters (config : SlotConfig)
    (advanceSlot : SCPStatement → BallotM Unit) (slot : Slot) : Prop :=
  let bp := slot.mBallotProtocol
  (blockingAhead config bp (localCounter bp) = true →
    ∃ n, IsLeast {m | m ∈ statementCounters bp ∧
        blockingAhead config bp m = false} n ∧
      Arrives (attemptBump config advanceSlot) slot
        (do emitCurrentStateStatement config advanceSlot; return true)
        (fun middle => middle.mBallotProtocol =
          bp.movedTo (bp.bumpedBallot slot.abandonValue n))) ∧
  (blockingAhead config bp (localCounter bp) = false →
    ChangesNothing (attemptBump config advanceSlot) slot .bump)

/-- In a state of a run `attemptBump` does what it is for exactly when no
statement is behind the local counter while a blocking set is ahead. -/
theorem runInputs_attemptBump_iff (config : SlotConfig)
    (inputs : List Input) (slot : Slot)
    (reached : slot.mBallotProtocol ∈ (runInputs config inputs).states)
    (running : slot.mBallotProtocol.mPhase ≠ .externalize)
    (available : slot.abandonValue ≠ []) :
    FollowsCounters config (advanceSlot config) slot ↔
      (blockingAhead config slot.mBallotProtocol
          (localCounter slot.mBallotProtocol) = true →
        ∀ n ∈ statementCounters slot.mBallotProtocol,
          localCounter slot.mBallotProtocol ≤ n) := by
  obtain ⟨last, progresses⟩ := runInputs_progresses config inputs
  have sound := progresses.sound _ reached
  constructor
  · rintro ⟨follows, _⟩ behind n counted
    by_contra laggard
    have stays : ChangesNothing
        (attemptBump config (advanceSlot config)) slot .bump :=
      attemptBump_stays (bumpTarget_laggard counted (not_le.mp laggard))
    obtain ⟨_, _, arrives⟩ := follows behind
    exact not_changesNothing_of_arrives arrives stays
  · intro noLaggard
    refine ⟨?_, ?_⟩
    · intro behind
      obtain ⟨n, found, _, least⟩ :=
        bumpTarget_least behind (noLaggard behind)
      exact ⟨n, least, attemptBump_arrives sound running available found⟩
    · intro current
      exact attemptBump_stays (bumpTarget_not_behind current)

/-- Nodes 1 and 2 block the quorum set of node 0. -/
def fourNodes : SlotConfig :=
  smallSlot ⟨3, [0, 1, 2, 3], []⟩

/-- Node 0 is at counter 2 and nodes 1 and 2 are at counter 5; node 3 is at
the given counter. -/
def aheadInputs (other : Uint32) : List Input :=
  [.bumpState [1] true, .bumpState [1] true,
    receivePrepare 3 ⟨other, [1]⟩ none none,
    receivePrepare 1 ⟨5, [1]⟩ none none,
    receivePrepare 2 ⟨5, [1]⟩ none none]

def aheadRun (other : Uint32) : Process :=
  runInputs fourNodes (aheadInputs other)

/-- With node 3 at counter 2 as well, the node is behind in a state of the
run and follows. -/
theorem aheadRun_follows :
    ∃ bp ∈ (aheadRun 2).states,
      blockingAhead fourNodes bp (localCounter bp) = true ∧
      FollowsCounters fourNodes (advanceSlot fourNodes)
        { (aheadRun 2).slot with
          mBallotProtocol := bp, mLatestCompositeCandidate := [1] } := by
  have behind : (aheadRun 2).states.any (fun bp =>
      blockingAhead fourNodes bp (localCounter bp) &&
        decide (bp.mPhase ≠ .externalize) &&
        (statementCounters bp).all
          (fun n => decide (localCounter bp ≤ n))) = true := by
    decide +kernel
  obtain ⟨bp, member, holds⟩ := List.any_eq_true.mp behind
  simp only [Bool.and_eq_true, List.all_eq_true, decide_eq_true_eq]
    at holds
  obtain ⟨⟨ahead, running⟩, noLaggard⟩ := holds
  refine ⟨bp, member, ahead, ?_⟩
  exact (runInputs_attemptBump_iff fourNodes (aheadInputs 2)
    { (aheadRun 2).slot with
      mBallotProtocol := bp, mLatestCompositeCandidate := [1] }
    member running (by simp [Slot.abandonValue])).mpr (fun _ => noLaggard)

/-- Node 3 has stayed at counter 1, and node 0 does not follow. -/
theorem aheadRun_stuck :
    (aheadRun 1).slot.mBallotProtocol ∈ (aheadRun 1).states ∧
    (aheadRun 1).slot.mBallotProtocol.mPhase = .prepare ∧
    (aheadRun 1).slot.abandonValue = [1] ∧
    blockingAhead fourNodes (aheadRun 1).slot.mBallotProtocol
      (localCounter (aheadRun 1).slot.mBallotProtocol) = true ∧
    ¬ FollowsCounters fourNodes (advanceSlot fourNodes)
      (aheadRun 1).slot := by
  have ahead : blockingAhead fourNodes (aheadRun 1).slot.mBallotProtocol
      (localCounter (aheadRun 1).slot.mBallotProtocol) = true := by
    decide +kernel
  have alive : (runInputs fourNodes (aheadInputs 1)).failure = none := by
    decide +kernel
  refine ⟨?_, by decide +kernel, by decide +kernel, ahead, ?_⟩
  · unfold aheadRun
    exact runInputs_state_mem fourNodes (aheadInputs 1) alive
  · rintro ⟨follows, _⟩
    obtain ⟨_, _, arrives⟩ := follows ahead
    have laggard : bumpTarget fourNodes
        (aheadRun 1).slot.mBallotProtocol = none := by
      decide +kernel
    exact not_changesNothing_of_arrives arrives (attemptBump_stays laggard)

end StellarCore.Scp
