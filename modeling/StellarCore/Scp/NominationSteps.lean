import StellarCore.Scp.Nomination

/-!
# Steps of the nomination protocol

Between two inputs the statement a node has recorded for itself lists exactly
its votes and accepted values.  Every handler enlarges these sets before it
emits, and it emits only if they did grow, so the own statement it processes
is always newer than the recorded one.
-/

namespace StellarCore.Scp

open StellarCore.Lib

/-! ## Newer statements -/

theorem includes_of_subset {v p : List Value} (sorted : v.Pairwise (· < ·))
    (sortedPart : p.Pairwise (· < ·)) (subset : p ⊆ v) :
    includes v p = true := by
  induction v generalizing p with
  | nil =>
      have empty : p = [] := List.subset_nil.mp subset
      rw [empty, includes]
  | cons first rest ih =>
      cases p with
      | nil => rw [includes]
      | cons part parts =>
          have later := List.pairwise_cons.mp sorted
          have laterPart := List.pairwise_cons.mp sortedPart
          rcases List.mem_cons.mp (subset List.mem_cons_self) with here | there
          · -- Both ranges start with the same value.
            subst here
            have inRest : parts ⊆ rest := by
              intro value member
              rcases List.mem_cons.mp (subset (List.mem_cons_of_mem _ member))
                with same | inside
              · exact absurd (laterPart.1 value member)
                  (by rw [same]; exact lt_irrefl _)
              · exact inside
            simp [includes, ih later.2 laterPart.2 inRest]
          · have above : first < part := later.1 part there
            have inRest : part :: parts ⊆ rest := by
              intro value member
              rcases List.mem_cons.mp (subset member) with same | inside
              · subst same
                rcases List.mem_cons.mp member with isPart | inParts
                · exact absurd above (by rw [isPart]; exact lt_irrefl _)
                · exact absurd (above.trans (laterPart.1 value inParts))
                    (lt_irrefl _)
              · exact inside
            rw [includes, if_neg (lt_asymm above), if_pos above]
            exact ih later.2 sortedPart inRest

theorem isSubsetHelper_sort {few many : Finset Value} (subset : few ⊆ many) :
    isSubsetHelper (few.sort (· ≤ ·)) (many.sort (· ≤ ·)) =
      (true, decide (few ≠ many)) := by
  have included : includes (many.sort (· ≤ ·)) (few.sort (· ≤ ·)) = true := by
    apply includes_of_subset
    · exact many.sortedLT_sort.pairwise
    · exact few.sortedLT_sort.pairwise
    · intro value member
      rw [Finset.mem_sort] at member ⊢
      exact subset member
  have lengths : (few.sort (· ≤ ·)).length ≤ (many.sort (· ≤ ·)).length := by
    rw [Finset.length_sort, Finset.length_sort]
    exact Finset.card_le_card subset
  have differ : (few.card ≠ many.card) ↔ few ≠ many := by
    rw [not_iff_not]
    exact ⟨Finset.eq_of_subset_of_card_le subset ∘ ge_of_eq,
      congrArg Finset.card⟩
  unfold isSubsetHelper
  rw [if_pos lengths, if_pos included, Finset.length_sort,
    Finset.length_sort]
  simp only [differ]

namespace NominationProtocol

variable {config : SlotConfig} {driver : NominationDriver}
  {before middle after np : NominationProtocol}

/-- The candidates are accepted and the accepted values voted for. -/
structure Nested (np : NominationProtocol) : Prop where
  candidates : np.mCandidates ⊆ np.mAccepted
  accepted : np.mAccepted ⊆ np.mVotes

/-- The three sets have grown or stayed. -/
structure Grows (before after : NominationProtocol) : Prop where
  votes : before.mVotes ⊆ after.mVotes
  accepted : before.mAccepted ⊆ after.mAccepted
  candidates : before.mCandidates ⊆ after.mCandidates

theorem Grows.refl (np : NominationProtocol) : np.Grows np :=
  ⟨Finset.Subset.refl _, Finset.Subset.refl _, Finset.Subset.refl _⟩

theorem Grows.trans (first : before.Grows middle)
    (second : middle.Grows after) : before.Grows after :=
  ⟨first.votes.trans second.votes, first.accepted.trans second.accepted,
    first.candidates.trans second.candidates⟩

/-- The own recorded statement lists the votes and the accepted values, and
there is none as long as both are empty. -/
structure Lists (config : SlotConfig) (votes accepted : Finset Value)
    (np : NominationProtocol) : Prop where
  unrecorded : np.recorded config = none → votes = ∅ ∧ accepted = ∅
  listed : ∀ nom ∈ np.recorded config,
    nom.votes = votes.sort (· ≤ ·) ∧ nom.accepted = accepted.sort (· ≤ ·)

def Current (config : SlotConfig) (np : NominationProtocol) : Prop :=
  np.Lists config np.mVotes np.mAccepted

/-- The sets have grown since the own statement was recorded. -/
def Behind (config : SlotConfig) (np : NominationProtocol) : Prop :=
  ∃ votes accepted, np.Lists config votes accepted ∧ votes ⊆ np.mVotes ∧
    accepted ⊆ np.mAccepted ∧ (votes ≠ np.mVotes ∨ accepted ≠ np.mAccepted)

theorem Behind.isNewerStatement (behind : np.Behind config) :
    ∀ old ∈ np.recorded config,
      old.isNewerStatement (np.ownNomination config) = true := by
  obtain ⟨votes, accepted, lists, votesIn, acceptedIn, different⟩ := behind
  intro old recorded
  obtain ⟨oldVotes, oldAccepted⟩ := lists.listed old recorded
  unfold SCPNomination.isNewerStatement ownNomination
  simp only [oldVotes, oldAccepted, isSubsetHelper_sort votesIn,
    isSubsetHelper_sort acceptedIn]
  simpa using different

theorem Behind.isNewerFor (behind : np.Behind config) :
    np.isNewerFor config.getLocalNodeID (np.ownNomination config) = true := by
  have newer := behind.isNewerStatement
  unfold recorded at newer
  unfold NominationProtocol.isNewerFor
  cases known : np.mLatestNominations.lookup config.getLocalNodeID with
  | none => rfl
  | some envelope => exact newer _ (by rw [known]; rfl)

theorem sort_isChain (values : Finset Value) :
    (values.sort (· ≤ ·)).IsChain (· < ·) :=
  List.isChain_iff_pairwise.mpr values.sortedLT_sort.pairwise

theorem Behind.isSane (behind : np.Behind config) :
    (np.ownNomination config).isSane = true := by
  obtain ⟨votes, accepted, _, votesIn, acceptedIn, different⟩ := behind
  have some : np.mVotes.card + np.mAccepted.card ≠ 0 := by
    intro none
    have noVotes : np.mVotes = ∅ := Finset.card_eq_zero.mp (by omega)
    have noAccepted : np.mAccepted = ∅ := Finset.card_eq_zero.mp (by omega)
    rw [noVotes] at votesIn different
    rw [noAccepted] at acceptedIn different
    rcases different with votesDiffer | acceptedDiffer
    · exact votesDiffer (Finset.subset_empty.mp votesIn)
    · exact acceptedDiffer (Finset.subset_empty.mp acceptedIn)
  unfold SCPNomination.isSane ownNomination
  simp only [Finset.length_sort, sort_isChain, decide_true, Bool.and_true]
  exact decide_eq_true some

/-- A change of the sets before anything is emitted; the flag says whether
the own statement has to change. -/
structure Extends (before after : NominationProtocol) (changed : Bool) :
    Prop where
  latest : after.mLatestNominations = before.mLatestNominations
  grows : before.Grows after
  nested : before.Nested → after.Nested
  kept : changed = false →
    after.mVotes = before.mVotes ∧ after.mAccepted = before.mAccepted
  grew : changed = true →
    before.mVotes ≠ after.mVotes ∨ before.mAccepted ≠ after.mAccepted

theorem Extends.refl (np : NominationProtocol) : np.Extends np false :=
  ⟨rfl, Grows.refl np, id, fun _ => ⟨rfl, rfl⟩, fun never => by simp at never⟩

theorem Extends.trans {first second : Bool}
    (one : before.Extends middle first)
    (two : middle.Extends after second) :
    before.Extends after (first || second) := by
  constructor
  · rw [two.latest, one.latest]
  · exact one.grows.trans two.grows
  · exact fun nested => two.nested (one.nested nested)
  · intro unchanged
    obtain ⟨firstKept, secondKept⟩ := Bool.or_eq_false_iff.mp unchanged
    obtain ⟨votesOne, acceptedOne⟩ := one.kept firstKept
    obtain ⟨votesTwo, acceptedTwo⟩ := two.kept secondKept
    exact ⟨votesTwo.trans votesOne, acceptedTwo.trans acceptedOne⟩
  · intro changed
    -- A set that grew in between cannot have shrunk back.
    by_contra same
    push Not at same
    obtain ⟨sameVotes, sameAccepted⟩ := same
    have votes : before.mVotes = middle.mVotes :=
      one.grows.votes.antisymm (sameVotes ▸ two.grows.votes)
    have accepted : before.mAccepted = middle.mAccepted :=
      one.grows.accepted.antisymm (sameAccepted ▸ two.grows.accepted)
    rcases Bool.or_eq_true_iff.mp changed with here | there
    · rcases one.grew here with votesGrew | acceptedGrew
      · exact votesGrew votes
      · exact acceptedGrew accepted
    · rcases two.grew there with votesGrew | acceptedGrew
      · exact votesGrew (votes.symm.trans sameVotes)
      · exact acceptedGrew (accepted.symm.trans sameAccepted)

theorem Extends.vote {value : Value} (fresh : value ∉ np.mVotes) :
    np.Extends { np with mVotes := insert value np.mVotes } true := by
  constructor
  · rfl
  · exact ⟨Finset.subset_insert _ _, Finset.Subset.refl _,
      Finset.Subset.refl _⟩
  · intro nested
    exact ⟨nested.candidates,
      nested.accepted.trans (Finset.subset_insert _ _)⟩
  · simp
  · intro _
    left
    intro same
    exact fresh (same ▸ Finset.mem_insert_self _ _)

theorem Extends.accept {value : Value} (fresh : value ∉ np.mAccepted) :
    np.Extends
      { np with
        mAccepted := insert value np.mAccepted
        mVotes := insert value np.mVotes } true := by
  constructor
  · rfl
  · exact ⟨Finset.subset_insert _ _, Finset.subset_insert _ _,
      Finset.Subset.refl _⟩
  · intro nested
    exact ⟨nested.candidates.trans (Finset.subset_insert _ _),
      Finset.insert_subset_insert _ nested.accepted⟩
  · simp
  · intro _
    right
    intro same
    exact fresh (same ▸ Finset.mem_insert_self _ _)

theorem Extends.ratify {ratified : Finset Value}
    (known : ratified ⊆ np.mAccepted) :
    np.Extends
      { np with mCandidates := np.mCandidates ∪ ratified } false := by
  constructor
  · rfl
  · exact ⟨Finset.Subset.refl _, Finset.Subset.refl _,
      Finset.subset_union_left⟩
  · intro nested
    exact ⟨Finset.union_subset nested.candidates known, nested.accepted⟩
  · exact fun _ => ⟨rfl, rfl⟩
  · simp

theorem ratifiedValues_subset (config : SlotConfig) :
    np.ratifiedValues config ⊆ np.mAccepted :=
  Finset.filter_subset _ _

theorem acceptVote_extends (config : SlotConfig)
    (driver : NominationDriver) (state : NominationProtocol × Bool)
    (v : Value) :
    ∃ changed, (acceptVote config driver state v).2 =
        (state.2 || changed) ∧
      state.1.Extends (acceptVote config driver state v).1 changed := by
  obtain ⟨np, modified⟩ := state
  have unchanged : ∃ changed, modified = (modified || changed) ∧
      np.Extends np changed :=
    ⟨false, by simp, Extends.refl np⟩
  unfold acceptVote
  dsimp only
  split
  · exact unchanged
  · rename_i notAccepted
    split
    · split
      · exact ⟨true, by simp, Extends.accept notAccepted⟩
      · split
        · exact unchanged
        · rename_i newVote
          exact ⟨true, by simp,
            Extends.vote (fun voted => newVote (.inr voted))⟩
    · exact unchanged

theorem foldl_acceptVote_extends (config : SlotConfig)
    (driver : NominationDriver) (votes : List Value)
    (state : NominationProtocol × Bool) :
    ∃ changed, (votes.foldl (acceptVote config driver) state).2 =
        (state.2 || changed) ∧
      state.1.Extends (votes.foldl (acceptVote config driver) state).1
        changed := by
  induction votes generalizing state with
  | nil => exact ⟨false, by simp, Extends.refl state.1⟩
  | cons v votes ih =>
      obtain ⟨first, firstFlag, one⟩ :=
        acceptVote_extends config driver state v
      obtain ⟨rest, restFlag, two⟩ := ih (acceptVote config driver state v)
      refine ⟨first || rest, ?_, one.trans two⟩
      rw [List.foldl_cons, restFlag, firstFlag, Bool.or_assoc]

theorem acceptVotes_extends (votes : List Value) :
    np.Extends (np.acceptVotes config driver votes).1
      (np.acceptVotes config driver votes).2 := by
  obtain ⟨changed, flag, ext⟩ :=
    foldl_acceptVote_extends config driver votes (np, false)
  unfold acceptVotes
  rw [flag, Bool.false_or]
  exact ext

theorem considerVote_fresh {start finish : Value × Uint64} {value : Value}
    (fresh : start.1 ≠ [] → start.1 ∉ np.mVotes)
    (result : np.considerVote config driver start value = some finish) :
    finish.1 ≠ [] → finish.1 ∉ np.mVotes := by
  unfold considerVote at result
  dsimp only at result
  split at result
  · cases result
    exact fresh
  · rename_i newVote
    obtain ⟨curHash, _, chosen⟩ := Option.bind_eq_some_iff.mp result
    split at chosen
    · cases chosen
      exact fun _ voted => newVote (.inr voted)
    · cases chosen
      exact fresh

/-- A new vote is not among the votes yet. -/
theorem getNewValueFromNomination_fresh {nom : SCPNomination}
    {value : Value}
    (result : np.getNewValueFromNomination config driver nom = some value)
    (found : value ≠ []) : value ∉ np.mVotes := by
  obtain ⟨⟨newVote, hash⟩, loop, last⟩ := Option.bind_eq_some_iff.mp result
  cases last
  have fresh := foldlM_keeps
    (fun _ _ _ holds step => considerVote_fresh holds step)
    (fun never => absurd rfl never) loop
  exact fresh found

/-- What a round of `nominate` may do to the sets. -/
theorem takeFromLeader_extends {start finish : NominationProtocol × Value × Bool}
    {leader : NodeID}
    (result : takeFromLeader config driver start leader = some finish) :
    ∃ changed, finish.2.2 = (start.2.2 || changed) ∧
      start.1.Extends finish.1 changed := by
  obtain ⟨np, nominating, updated⟩ := start
  unfold takeFromLeader at result
  dsimp only at result
  split at result
  · cases result
    exact ⟨false, by simp, Extends.refl np⟩
  · obtain ⟨value, query, chosen⟩ := Option.bind_eq_some_iff.mp result
    split at chosen
    · cases chosen
      exact ⟨false, by simp, Extends.refl np⟩
    · rename_i found
      cases chosen
      exact ⟨true, by simp,
        Extends.vote (getNewValueFromNomination_fresh query found)⟩

theorem newRoundVotes_extends {value : Value}
    {finish : NominationProtocol × Value × Bool}
    (result : newRoundVotes config driver np value = some finish) :
    np.Extends finish.1 finish.2.2 := by
  unfold newRoundVotes at result
  split at result
  · cases result
    by_cases voted : value ∈ np.mVotes
    · simp only [voted, not_true_eq_false, decide_false,
        Finset.insert_eq_of_mem voted]
      exact Extends.refl np
    · simp only [voted, not_false_eq_true, decide_true]
      exact Extends.vote voted
  · have kept : ∀ (state : NominationProtocol × Value × Bool) leader next,
        np.Extends state.1 state.2.2 →
          takeFromLeader config driver state leader = some next →
            np.Extends next.1 next.2.2 := by
      intro state leader next ext step
      obtain ⟨changed, flag, more⟩ := takeFromLeader_extends step
      rw [flag]
      exact ext.trans more
    exact foldlM_keeps kept (Extends.refl np) result

end NominationProtocol

/-! ## Slots between and during inputs -/

namespace NominationSlot

variable {config : SlotConfig} {driver : NominationDriver}
  {slot middle finish : NominationSlot}

/-- Everything visited and built so far is as it should be. -/
structure Logged (slot : NominationSlot) : Prop where
  nested : ∀ np ∈ slot.visits, np.Nested
  growing : slot.visits.Pairwise NominationProtocol.Grows
  latest : ∀ np ∈ slot.visits, np.Grows slot.nomination
  built : ∀ entry ∈ slot.built, entry.built.isSane = true ∧
    ∀ old ∈ entry.recorded, old.isNewerStatement entry.built = true

/-- The state between two inputs. -/
structure Steady (config : SlotConfig) (slot : NominationSlot) : Prop where
  logged : slot.Logged
  nested : slot.nomination.Nested
  current : slot.nomination.Current config

/-- The state before the own statement is emitted. -/
structure Pending (config : SlotConfig) (slot : NominationSlot) : Prop where
  logged : slot.Logged
  nested : slot.nomination.Nested
  behind : slot.nomination.Behind config

/-- A handler has ended in order. -/
def Settled (config : SlotConfig) (slot finish : NominationSlot) : Prop :=
  finish.Steady config ∧ slot.nomination.Grows finish.nomination

/-- A handler has ended in a failure, but not in a bad state. -/
def Halted (failure : NominationFailure) (finish : NominationSlot) : Prop :=
  failure ≠ .movedToBadState ∧ finish.Logged ∧ finish.nomination.Nested

theorem Settled.after (settled : middle.Settled config finish)
    (grows : slot.nomination.Grows middle.nomination) :
    slot.Settled config finish :=
  ⟨settled.1, grows.trans settled.2⟩

/-- A change that neither visits nor builds anything. -/
structure Moves (slot finish : NominationSlot) (changed : Bool) : Prop where
  visits : finish.visits = slot.visits
  built : finish.built = slot.built
  extending : slot.nomination.Extends finish.nomination changed

theorem Moves.refl (slot : NominationSlot) : slot.Moves slot false :=
  ⟨rfl, rfl, .refl _⟩

theorem Moves.trans {first second : Bool} (one : slot.Moves middle first)
    (two : middle.Moves finish second) :
    slot.Moves finish (first || second) :=
  ⟨two.visits.trans one.visits, two.built.trans one.built,
    one.extending.trans two.extending⟩

/-- Nothing of the sets or the recorded statements is touched. -/
theorem Moves.of_same (visits : finish.visits = slot.visits)
    (built : finish.built = slot.built)
    (latest : finish.nomination.mLatestNominations =
      slot.nomination.mLatestNominations)
    (votes : finish.nomination.mVotes = slot.nomination.mVotes)
    (accepted : finish.nomination.mAccepted = slot.nomination.mAccepted)
    (candidates : finish.nomination.mCandidates =
      slot.nomination.mCandidates) :
    slot.Moves finish false := by
  refine ⟨visits, built, latest, ⟨?_, ?_, ?_⟩, ?_, fun _ => ⟨votes, accepted⟩,
    fun never => by simp at never⟩
  · rw [votes]
  · rw [accepted]
  · rw [candidates]
  · intro nested
    constructor
    · rw [candidates, accepted]
      exact nested.candidates
    · rw [accepted, votes]
      exact nested.accepted

theorem Moves.logged {changed : Bool} (moves : slot.Moves finish changed)
    (logged : slot.Logged) : finish.Logged := by
  constructor
  · rw [moves.visits]
    exact logged.nested
  · rw [moves.visits]
    exact logged.growing
  · rw [moves.visits]
    exact fun np visited => (logged.latest np visited).trans
      moves.extending.grows
  · rw [moves.built]
    exact logged.built

theorem recorded_congr (config : SlotConfig)
    {np np' : NominationProtocol}
    (latest : np'.mLatestNominations = np.mLatestNominations) :
    np'.recorded config = np.recorded config := by
  unfold NominationProtocol.recorded
  rw [latest]

theorem Moves.steady (moves : slot.Moves finish false)
    (steady : slot.Steady config) : finish.Steady config := by
  obtain ⟨votes, accepted⟩ := moves.extending.kept rfl
  refine ⟨moves.logged steady.logged, moves.extending.nested steady.nested,
    ?_⟩
  have same := recorded_congr config moves.extending.latest
  constructor
  · rw [same, votes, accepted]
    exact steady.current.unrecorded
  · rw [same, votes, accepted]
    exact steady.current.listed

theorem Moves.pending (moves : slot.Moves finish true)
    (steady : slot.Steady config) : finish.Pending config := by
  refine ⟨moves.logged steady.logged, moves.extending.nested steady.nested,
    slot.nomination.mVotes, slot.nomination.mAccepted, ?_,
    moves.extending.grows.votes, moves.extending.grows.accepted,
    moves.extending.grew rfl⟩
  have same := recorded_congr config moves.extending.latest
  constructor
  · rw [same]
    exact steady.current.unrecorded
  · rw [same]
    exact steady.current.listed

theorem Moves.settled (moves : slot.Moves finish false)
    (steady : slot.Steady config) : slot.Settled config finish :=
  ⟨moves.steady steady, moves.extending.grows⟩

/-- Looking at the state is no change. -/
theorem Logged.visit (logged : slot.Logged)
    (nested : slot.nomination.Nested) :
    slot.visiting.Logged := by
  constructor
  · intro np visited
    rcases List.mem_append.mp visited with old | new
    · exact logged.nested np old
    · rw [List.mem_singleton.mp new]
      exact nested
  · apply List.pairwise_append.mpr
    refine ⟨logged.growing, List.pairwise_singleton _ _, ?_⟩
    intro np old other new
    rw [List.mem_singleton.mp new]
    exact logged.latest np old
  · intro np visited
    rcases List.mem_append.mp visited with old | new
    · exact logged.latest np old
    · rw [List.mem_singleton.mp new]
      exact .refl _
  · exact logged.built

theorem Halted.of_moves {failure : NominationFailure} {changed : Bool}
    (ordinary : failure ≠ .movedToBadState)
    (moves : slot.Moves finish changed) (logged : slot.Logged)
    (nested : slot.nomination.Nested) : Halted failure finish :=
  ⟨ordinary, moves.logged logged, moves.extending.nested nested⟩

theorem Halted.query (steady : slot.Steady config)
    (moves : slot.Moves finish false) : Halted .emptyPreviousValue finish :=
  .of_moves (by simp) moves steady.logged steady.nested

/-! ## The handlers -/

/-- A part of a handler that emits nothing: it tells by its value whether
the own statement has to change, and fails in an ordinary way. -/
def Quiet {α : Type} (program : NominationM α) (flag : α → Bool) : Prop :=
  ∀ slot, Ends program slot
    (fun value finish => slot.Moves finish (flag value))
    (fun failure finish => failure ≠ .movedToBadState ∧
      ∃ changed, slot.Moves finish changed)

theorem runBallot_quiet {α : Type} (program : BallotM α) :
    Quiet (runBallot program) (fun _ => false) := by
  intro slot
  unfold Ends runBallot
  cases program slot.ballot with
  | ok value ballot => exact .of_same rfl rfl rfl rfl rfl rfl
  | error failure ballot =>
      exact ⟨by simp, false, .of_same rfl rfl rfl rfl rfl rfl⟩

theorem offerCandidates_quiet :
    Quiet (offerCandidates config driver) (fun _ => false) := by
  intro slot
  unfold offerCandidates getNomination callNominationDriver
  simp only [Ends.bind_iff, Ends.get_iff, Ends.pure_iff, Ends.modify_iff]
  have first : ∀ calls,
      slot.Moves { slot with driverCalls := calls } false :=
    fun calls => .of_same rfl rfl rfl rfl rfl rfl
  refine (runBallot_quiet _ _).mono ?_ ?_
  · intro _ finish moves
    exact (first _).trans moves
  · rintro failure finish ⟨ordinary, changed, moves⟩
    exact ⟨ordinary, _, (first _).trans moves⟩

theorem queryNomination_ends {α : Type} {result : Option α}
    {done : α → NominationSlot → Prop}
    {failed : NominationFailure → NominationSlot → Prop} :
    Ends (queryNomination result) slot done failed ↔
      (∀ value, result = some value → done value slot) ∧
        (result = none → failed .emptyPreviousValue slot) := by
  cases result with
  | none => simp [queryNomination]
  | some value => simp [queryNomination]

theorem takeLeaderVote_quiet {st : NominationStatement} :
    Quiet (takeLeaderVote config driver st) id := by
  intro slot
  unfold takeLeaderVote getNomination modifyNomination callNominationDriver
  simp only [Ends.bind_iff, Ends.get_iff, Ends.pure_iff]
  apply Ends.ite_iff.mpr
  constructor
  · intro _
    simp only [Ends.bind_iff]
    apply queryNomination_ends.mpr
    constructor
    · intro newVote query
      apply Ends.ite_iff.mpr
      constructor
      · intro _
        exact Moves.refl slot
      · intro found
        exact ⟨rfl, rfl, .vote
          (NominationProtocol.getNewValueFromNomination_fresh query found)⟩
    · intro _
      exact ⟨by simp, false, Moves.refl slot⟩
  · intro _
    exact Moves.refl slot

/-- `emit` processes the own statement and leaves nothing pending. -/
def Emits (config : SlotConfig) (emit : NominationM Unit) : Prop :=
  ∀ slot, slot.Pending config →
    Ends emit slot (fun _ finish => slot.Settled config finish) Halted

theorem promoteValues_settles {emit : NominationM Unit}
    (emits : Emits config emit) {st : NominationStatement}
    (steady : slot.Steady config) :
    Ends (promoteValues config driver emit st) slot
      (fun _ finish => slot.Settled config finish) Halted := by
  let accepting := slot.nomination.acceptVotes config driver st.nominate.votes
  let ratified := accepting.1.ratifiedValues config
  let promoted : NominationSlot :=
    { slot with nomination :=
      { accepting.1 with
        mCandidates := accepting.1.mCandidates ∪ ratified } }
  have promotes : slot.Moves promoted accepting.2 := by
    have accepts : slot.nomination.Extends accepting.1 accepting.2 :=
      NominationProtocol.acceptVotes_extends st.nominate.votes
    have ratifies := accepts.trans
      (.ratify (NominationProtocol.ratifiedValues_subset config))
    rw [Bool.or_false] at ratifies
    exact ⟨rfl, rfl, ratifies⟩
  unfold promoteValues getNomination modifyNomination
  simp only [Ends.bind_iff, Ends.get_iff, Ends.pure_iff, Ends.modify_iff]
  show Ends (takeLeaderVote config driver st) promoted _ _
  refine (takeLeaderVote_quiet promoted).mono ?_ ?_
  · intro voted middle votes
    have moves := promotes.trans votes
    -- After the emission, if any, the slot is steady again.
    have emitted : Ends (whenTrue (accepting.2 || voted) emit) middle
        (fun _ finish => slot.Settled config finish) Halted := by
      unfold whenTrue
      cases changed : accepting.2 || voted with
      | false =>
          have moves : slot.Moves middle false := changed ▸ moves
          exact moves.settled steady
      | true =>
          have moves : slot.Moves middle true := changed ▸ moves
          refine (emits middle (moves.pending steady)).mono ?_
            (fun _ _ halted => halted)
          intro _ finish settled
          exact settled.after moves.extending.grows
    refine emitted.mono ?_ (fun _ _ halted => halted)
    intro _ settledSlot settled
    unfold whenTrue
    apply Ends.ite_iff.mpr
    constructor
    · intro _
      refine (offerCandidates_quiet settledSlot).mono ?_ ?_
      · intro _ finish offers
        exact (offers.settled settled.1).after settled.2
      · rintro failure finish ⟨ordinary, changed, offers⟩
        exact .of_moves ordinary offers settled.1.logged settled.1.nested
    · intro _
      exact settled
  · rintro failure finish ⟨ordinary, changed, votes⟩
    exact .of_moves ordinary (promotes.trans votes) steady.logged
      steady.nested

/-- A recorded statement of another node leaves the own one alone. -/
theorem Steady.record {envelope : NominationEnvelope}
    (other : envelope.statement.nodeID ≠ config.getLocalNodeID)
    (steady : slot.Steady config) :
    (slot.recording envelope).Steady config := by
  refine ⟨⟨steady.logged.nested, steady.logged.growing, ?_,
    steady.logged.built⟩, ⟨steady.nested.candidates,
    steady.nested.accepted⟩, ?_⟩
  · intro np visited
    obtain ⟨votes, accepted, candidates⟩ := steady.logged.latest np visited
    exact ⟨votes, accepted, candidates⟩
  · have same : (slot.recording envelope).nomination.recorded config =
        slot.nomination.recorded config := by
      unfold NominationProtocol.recorded NominationSlot.recording
      rw [AList.lookup_insert_ne (Ne.symm other)]
    constructor
    · rw [same]
      exact steady.current.unrecorded
    · rw [same]
      exact steady.current.listed

/-- Recording the own statement makes it current. -/
theorem Pending.record {envelope : NominationEnvelope}
    (own : envelope.statement.nodeID = config.getLocalNodeID)
    (lists : envelope.statement.nominate =
      slot.nomination.ownNomination config)
    (pending : slot.Pending config) :
    (slot.recording envelope).Steady config := by
  refine ⟨⟨pending.logged.nested, pending.logged.growing, ?_,
    pending.logged.built⟩, ⟨pending.nested.candidates,
    pending.nested.accepted⟩, ?_⟩
  · intro np visited
    obtain ⟨votes, accepted, candidates⟩ := pending.logged.latest np visited
    exact ⟨votes, accepted, candidates⟩
  · have same : (slot.recording envelope).nomination.recorded config =
        some (slot.nomination.ownNomination config) := by
      unfold NominationProtocol.recorded NominationSlot.recording
      rw [own, AList.lookup_insert, Option.map_some, lists]
    constructor
    · rw [same]
      exact fun none => absurd none (by simp)
    · rw [same]
      intro nom member
      rw [← Option.some.inj member]
      exact ⟨rfl, rfl⟩

theorem Steady.visit (steady : slot.Steady config) :
    slot.visiting.Steady config :=
  ⟨steady.logged.visit steady.nested, steady.nested, steady.current⟩

theorem Pending.visit (pending : slot.Pending config) :
    slot.visiting.Pending config :=
  ⟨pending.logged.visit pending.nested, pending.nested, pending.behind⟩

/-- The part of `processEnvelope` after the statement is recorded. -/
theorem whenStarted_settles {emit : NominationM Unit} {started : Bool}
    (emits : Emits config emit) {st : NominationStatement}
    (steady : slot.Steady config) :
    Ends (whenTrue started (promoteValues config driver emit st)) slot
      (fun _ finish => slot.Settled config finish) Halted := by
  unfold whenTrue
  apply Ends.ite_iff.mpr
  constructor
  · intro _
    exact promoteValues_settles emits steady
  · intro _
    exact ⟨steady, .refl _⟩

/-- A statement of another node. -/
theorem processNomination_settles {emit : NominationM Unit}
    (emits : Emits config emit) {envelope : NominationEnvelope}
    (other : envelope.statement.nodeID ≠ config.getLocalNodeID)
    (steady : slot.Steady config) :
    Ends (processNomination config driver emit envelope) slot
      (fun _ finish => slot.Settled config finish) Halted := by
  unfold processNomination visitNomination getNomination recordNomination
  simp only [Ends.bind_iff, Ends.get_iff, Ends.pure_iff, Ends.modify_iff]
  apply Ends.ite_iff.mpr
  constructor
  · intro _
    simp only [Ends.bind_iff, Ends.modify_iff, Ends.pure_iff]
    refine (whenStarted_settles emits (steady.visit.record other)).mono ?_
      (fun _ _ halted => halted)
    intro _ finish settled
    exact settled.after ⟨Finset.Subset.refl _, Finset.Subset.refl _,
      Finset.Subset.refl _⟩
  · intro _
    exact ⟨steady.visit, .refl _⟩

/-- The own statement is always recorded. -/
theorem processNomination_own {emit : NominationM Unit}
    (emits : Emits config emit) {envelope : NominationEnvelope}
    (own : envelope.statement.nodeID = config.getLocalNodeID)
    (lists : envelope.statement.nominate =
      slot.nomination.ownNomination config)
    (pending : slot.Pending config) :
    Ends (processNomination config driver emit envelope) slot
      (fun valid finish => valid = true ∧ slot.Settled config finish)
      Halted := by
  have newer : (slot.visiting.nomination.isNewerFor
      envelope.statement.nodeID envelope.statement.nominate &&
        envelope.statement.nominate.isSane) = true := by
    rw [own, lists, Bool.and_eq_true]
    exact ⟨pending.behind.isNewerFor, pending.behind.isSane⟩
  unfold processNomination visitNomination getNomination recordNomination
  simp only [Ends.bind_iff, Ends.get_iff, Ends.pure_iff, Ends.modify_iff]
  rw [if_pos newer]
  simp only [Ends.bind_iff, Ends.modify_iff, Ends.pure_iff]
  have recorded : (slot.visiting.recording envelope).Steady config :=
    Pending.record own lists pending.visit
  refine (whenStarted_settles emits recorded).mono ?_
    (fun _ _ halted => halted)
  intro _ finish settled
  exact ⟨trivial, settled.after ⟨Finset.Subset.refl _, Finset.Subset.refl _,
    Finset.Subset.refl _⟩⟩

theorem publishNomination_quiet {envelope : NominationEnvelope} :
    Quiet (publishNomination envelope) (fun _ => false) := by
  intro slot
  unfold publishNomination whenTrue modifyNomination callNominationDriver
  simp only [Ends.bind_iff, Ends.get_iff]
  apply Ends.ite_iff.mpr
  constructor
  · intro _
    simp only [Ends.bind_iff, Ends.modify_iff]
    apply Ends.ite_iff.mpr
    constructor
    · intro _
      exact .of_same rfl rfl rfl rfl rfl rfl
    · intro _
      exact .of_same rfl rfl rfl rfl rfl rfl
  · intro _
    exact Moves.refl slot

theorem Pending.note (pending : slot.Pending config) :
    (slot.noting config).Pending config := by
  refine ⟨⟨pending.logged.nested, pending.logged.growing,
    pending.logged.latest, ?_⟩, pending.nested, pending.behind⟩
  intro entry member
  rcases List.mem_append.mp member with old | new
  · exact pending.logged.built entry old
  · rw [List.mem_singleton.mp new]
    exact ⟨pending.behind.isSane, pending.behind.isNewerStatement⟩

/-- Emission, given that the own statement is processed. -/
theorem emitNomination_emits
    {process : NominationEnvelope → NominationM Bool}
    (processes : ∀ slot envelope,
      envelope.statement.nodeID = config.getLocalNodeID →
      envelope.statement.nominate = slot.nomination.ownNomination config →
      slot.Pending config →
        Ends (process envelope) slot
          (fun valid finish => valid = true ∧ slot.Settled config finish)
          Halted) :
    Emits config (emitNomination config driver process) := by
  intro slot pending
  unfold emitNomination visitNomination getNomination
  simp only [Ends.bind_iff, Ends.get_iff, Ends.pure_iff, Ends.modify_iff]
  refine (processes _ _ ?_ ?_ pending.visit.note).mono ?_
    (fun _ _ halted => halted)
  · rfl
  · rfl
  · rintro valid middle ⟨accepted, settled⟩
    rw [if_pos accepted]
    refine (publishNomination_quiet middle).mono ?_ ?_
    · intro _ finish moves
      exact (moves.settled settled.1).after settled.2
    · rintro failure finish ⟨ordinary, changed, moves⟩
      exact .of_moves ordinary moves settled.1.logged settled.1.nested

/-- The recursion of own statements, on any fuel. -/
theorem processNominationAt_own (fuel : Nat) (slot : NominationSlot)
    (envelope : NominationEnvelope)
    (own : envelope.statement.nodeID = config.getLocalNodeID)
    (lists : envelope.statement.nominate =
      slot.nomination.ownNomination config)
    (pending : slot.Pending config) :
    Ends (processNominationAt config driver fuel envelope) slot
      (fun valid finish => valid = true ∧ slot.Settled config finish)
      Halted := by
  induction fuel generalizing slot envelope with
  | zero => exact ⟨by simp, pending.logged, pending.nested⟩
  | succ fuel ih =>
      exact processNomination_own (emitNomination_emits ih) own lists pending

theorem emitNominationAt_emits (fuel : Nat) :
    Emits config (emitNomination config driver
      (processNominationAt config driver fuel)) :=
  emitNomination_emits (processNominationAt_own fuel)

theorem nominate_settles {emit : NominationM Unit}
    (emits : Emits config emit) {value previousValue : Value}
    {timedout : Bool} (steady : slot.Steady config) :
    Ends (nominate config driver emit value previousValue timedout) slot
      (fun _ finish => slot.Settled config finish) Halted := by
  unfold nominate getNomination modifyNomination callNominationDriver
  simp only [Ends.bind_iff, Ends.get_iff, Ends.pure_iff]
  apply Ends.ite_iff.mpr
  constructor
  · intro _
    exact ⟨steady, .refl _⟩
  · intro _
    simp only [Ends.bind_iff, Ends.get_iff, Ends.pure_iff, Ends.modify_iff]
    apply queryNomination_ends.mpr
    constructor
    · intro leaders _
      apply queryNomination_ends.mpr
      constructor
      · rintro ⟨voting, nominating, updated⟩ round
        have starts : slot.Moves
            { slot with nomination :=
              { slot.nomination with
                mNominationStarted := true
                mPreviousValue := previousValue
                mRoundNumber := slot.nomination.mRoundNumber + 1
                mRoundLeaders := leaders } } false :=
          .of_same rfl rfl rfl rfl rfl rfl
        have votes :=
          starts.extending.trans
            (NominationProtocol.newRoundVotes_extends round)
        rw [Bool.false_or] at votes
        unfold whenTrue
        apply Ends.ite_iff.mpr
        constructor
        · rintro rfl
          have moves : slot.Moves
              { slot with
                nomination := voting
                driverCalls := slot.driverCalls ++
                  [.nominatingValue nominating] ++
                  [.setupTimer (driver.computeTimeout
                    (slot.nomination.mRoundNumber + 1)) value
                    previousValue] } true :=
            ⟨rfl, rfl, votes⟩
          refine (emits _ (moves.pending steady)).mono ?_
            (fun _ _ halted => halted)
          intro _ finish settled
          exact settled.after moves.extending.grows
        · intro unchanged
          rw [Bool.not_eq_true] at unchanged
          subst unchanged
          have moves : slot.Moves
              { slot with
                nomination := voting
                driverCalls := slot.driverCalls ++
                  [.nominatingValue nominating] ++
                  [.setupTimer (driver.computeTimeout
                    (slot.nomination.mRoundNumber + 1)) value
                    previousValue] } false :=
            ⟨rfl, rfl, votes⟩
          exact moves.settled steady
      · intro _
        exact .query steady (.of_same rfl rfl rfl rfl rfl rfl)
    · intro _
      exact .query steady (.of_same rfl rfl rfl rfl rfl rfl)

end NominationSlot

end StellarCore.Scp
