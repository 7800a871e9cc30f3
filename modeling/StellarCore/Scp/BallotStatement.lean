import StellarCore.Scp.Types

/-!
# Ballots and ballot statements

The static functions of `BallotProtocol.cpp`: how two ballots compare, which
of two statements is newer, and what a statement says about a ballot.  The
statement order is characterised by one rank in a linear order, from which it
is irreflexive and transitive.
-/

namespace StellarCore.Scp

def compareBallots (b1 b2 : SCPBallot) : Int :=
  if b1.counter < b2.counter then -1
  else if b2.counter < b1.counter then 1
  else if b1.value < b2.value then -1
  else if b2.value < b1.value then 1
  else 0

/-- `compareBallots` on pointers to ballots. -/
def compareBallotPointers : Option SCPBallot → Option SCPBallot → Int
  | some b1, some b2 => compareBallots b1 b2
  | some _, none => 1
  | none, some _ => -1
  | none, none => 0

def areBallotsCompatible (b1 b2 : SCPBallot) : Bool :=
  b1.value = b2.value

def areBallotsLessAndIncompatible (b1 b2 : SCPBallot) : Bool :=
  compareBallots b1 b2 ≤ 0 && !areBallotsCompatible b1 b2

def areBallotsLessAndCompatible (b1 b2 : SCPBallot) : Bool :=
  compareBallots b1 b2 ≤ 0 && areBallotsCompatible b1 b2

/-- The number of the statement type: PREPARE < CONFIRM < EXTERNALIZE. -/
def Pledges.type : Pledges → Nat
  | .prepare _ => 0
  | .confirm _ => 1
  | .externalize _ => 2

def isNewerPrepare (oldPrep prep : Prepare) : Bool :=
  if compareBallots oldPrep.ballot prep.ballot < 0 then true
  else if compareBallots oldPrep.ballot prep.ballot = 0 then
    if compareBallotPointers oldPrep.prepared prep.prepared < 0 then true
    else if compareBallotPointers oldPrep.prepared prep.prepared = 0 then
      if compareBallotPointers oldPrep.preparedPrime prep.preparedPrime < 0
      then true
      else if compareBallotPointers oldPrep.preparedPrime
          prep.preparedPrime = 0 then
        decide (oldPrep.nH < prep.nH)
      else false
    else false
  else false

def isNewerConfirm (oldC c : Confirm) : Bool :=
  if compareBallots oldC.ballot c.ballot < 0 then true
  else if compareBallots oldC.ballot c.ballot = 0 then
    if oldC.nPrepared = c.nPrepared then decide (oldC.nH < c.nH)
    else decide (oldC.nPrepared < c.nPrepared)
  else false

def isNewerStatement (oldst st : SCPStatement) : Bool :=
  match oldst.pledges, st.pledges with
  | .prepare oldPrep, .prepare prep => isNewerPrepare oldPrep prep
  | .confirm oldC, .confirm c => isNewerConfirm oldC c
  | .externalize _, .externalize _ => false
  | old, new => decide (old.type < new.type)

/-- Does the statement claim that the ballot is prepared? -/
def hasPreparedBallot (ballot : SCPBallot) (st : SCPStatement) : Bool :=
  match st.pledges with
  | .prepare p =>
      p.prepared.any (areBallotsLessAndCompatible ballot) ||
        p.preparedPrime.any (areBallotsLessAndCompatible ballot)
  | .confirm c =>
      areBallotsLessAndCompatible ballot ⟨c.nPrepared, c.ballot.value⟩
  | .externalize e => areBallotsCompatible ballot e.commit

/-- Does the statement vote for the ballot to be prepared? -/
def votesPrepared (ballot : SCPBallot) (st : SCPStatement) : Bool :=
  match st.pledges with
  | .prepare p => areBallotsLessAndCompatible ballot p.ballot
  | .confirm c => areBallotsCompatible ballot c.ballot
  | .externalize e => areBallotsCompatible ballot e.commit

/-- An interval `[low, high]` of counters. -/
structure Interval where
  first : Uint32
  second : Uint32
  deriving DecidableEq, Repr

/-- Does the statement claim that the interval is accepted as committed? -/
def commitPredicate (ballot : SCPBallot) (check : Interval)
    (st : SCPStatement) : Bool :=
  match st.pledges with
  | .prepare _ => false
  | .confirm c =>
      areBallotsCompatible ballot c.ballot &&
        (decide (c.nCommit ≤ check.first) && decide (check.second ≤ c.nH))
  | .externalize e =>
      areBallotsCompatible ballot e.commit &&
        decide (e.commit.counter ≤ check.first)

/-- Does the statement vote for the interval to be committed? -/
def votesCommit (ballot : SCPBallot) (cur : Interval)
    (st : SCPStatement) : Bool :=
  match st.pledges with
  | .prepare p =>
      areBallotsCompatible ballot p.ballot && (decide (p.nC ≠ 0) &&
        (decide (p.nC ≤ cur.first) && decide (cur.second ≤ p.nH)))
  | .confirm c =>
      areBallotsCompatible ballot c.ballot && decide (c.nCommit ≤ cur.first)
  | .externalize e =>
      areBallotsCompatible ballot e.commit &&
        decide (e.commit.counter ≤ cur.first)

def getWorkingBallot (st : SCPStatement) : SCPBallot :=
  match st.pledges with
  | .prepare p => p.ballot
  | .confirm con => ⟨con.nCommit, con.ballot.value⟩
  | .externalize e => e.commit

/-! ## Comparison is the order of ballots -/

theorem compareBallots_neg_iff {b1 b2 : SCPBallot} :
    compareBallots b1 b2 < 0 ↔ b1 < b2 := by
  unfold compareBallots
  rw [SCPBallot.lt_iff]
  split
  · simp [*]
  · split
    · rename_i notLess greater
      simp [notLess, greater.ne']
    · rename_i notLess notGreater
      have equal : b1.counter = b2.counter :=
        le_antisymm (not_lt.mp notGreater) (not_lt.mp notLess)
      split
      · simp [*]
      · split
        · simp [*]
        · simp [*]

theorem compareBallots_pos_iff {b1 b2 : SCPBallot} :
    0 < compareBallots b1 b2 ↔ b2 < b1 := by
  unfold compareBallots
  rw [SCPBallot.lt_iff]
  split
  · rename_i less
    simp [not_lt.mpr less.le, less.ne']
  · split
    · simp [*]
    · rename_i notLess notGreater
      have equal : b1.counter = b2.counter :=
        le_antisymm (not_lt.mp notGreater) (not_lt.mp notLess)
      split
      · rename_i less
        simp [equal, not_lt.mpr less.le]
      · split
        · simp [*]
        · simp [*]

theorem compareBallots_nonpos_iff {b1 b2 : SCPBallot} :
    compareBallots b1 b2 ≤ 0 ↔ b1 ≤ b2 := by
  rw [← not_lt, compareBallots_pos_iff, not_lt]

theorem compareBallots_nonneg_iff {b1 b2 : SCPBallot} :
    0 ≤ compareBallots b1 b2 ↔ b2 ≤ b1 := by
  rw [← not_lt, compareBallots_neg_iff, not_lt]

theorem compareBallots_eq_zero_iff {b1 b2 : SCPBallot} :
    compareBallots b1 b2 = 0 ↔ b1 = b2 := by
  rw [le_antisymm_iff, compareBallots_nonpos_iff, compareBallots_nonneg_iff,
    ← le_antisymm_iff]

@[simp] theorem areBallotsCompatible_iff {b1 b2 : SCPBallot} :
    areBallotsCompatible b1 b2 = true ↔ b1.value = b2.value := by
  simp [areBallotsCompatible]

@[simp] theorem areBallotsLessAndCompatible_iff {b1 b2 : SCPBallot} :
    areBallotsLessAndCompatible b1 b2 = true ↔
      b1 ≤ b2 ∧ b1.value = b2.value := by
  simp [areBallotsLessAndCompatible, compareBallots_nonpos_iff]

@[simp] theorem areBallotsLessAndIncompatible_iff {b1 b2 : SCPBallot} :
    areBallotsLessAndIncompatible b1 b2 = true ↔
      b1 ≤ b2 ∧ b1.value ≠ b2.value := by
  simp [areBallotsLessAndIncompatible, compareBallots_nonpos_iff,
    ← Bool.not_eq_true]

/-- A missing ballot is below every ballot. -/
def pointerRank : Option SCPBallot → WithBot SCPBallot
  | none => ⊥
  | some ballot => ballot

theorem pointerRank_inj {b1 b2 : Option SCPBallot} :
    pointerRank b1 = pointerRank b2 ↔ b1 = b2 := by
  cases b1 with
  | none =>
      cases b2 with
      | none => simp
      | some b2 => simp [pointerRank]
  | some b1 =>
      cases b2 with
      | none => simp [pointerRank]
      | some b2 => simp [pointerRank]

theorem compareBallotPointers_neg_iff {b1 b2 : Option SCPBallot} :
    compareBallotPointers b1 b2 < 0 ↔ pointerRank b1 < pointerRank b2 := by
  cases b1 with
  | none =>
      cases b2 with
      | none => simp [compareBallotPointers]
      | some b2 =>
          simp [compareBallotPointers, pointerRank, WithBot.bot_lt_coe]
  | some b1 =>
      cases b2 with
      | none => simp [compareBallotPointers, pointerRank]
      | some b2 =>
          simp [compareBallotPointers, pointerRank, WithBot.coe_lt_coe,
            compareBallots_neg_iff]

theorem compareBallotPointers_eq_zero_iff {b1 b2 : Option SCPBallot} :
    compareBallotPointers b1 b2 = 0 ↔ b1 = b2 := by
  cases b1 with
  | none =>
      cases b2 with
      | none => simp [compareBallotPointers]
      | some b2 => simp [compareBallotPointers]
  | some b1 =>
      cases b2 with
      | none => simp [compareBallotPointers]
      | some b2 => simp [compareBallotPointers, compareBallots_eq_zero_iff]

/-! ## The rank of a statement -/

/-- Type, `b`, `p`, `p'` and the counter of `h`, compared in this order. -/
abbrev Rank :=
  Nat ×ₗ SCPBallot ×ₗ WithBot SCPBallot ×ₗ WithBot SCPBallot ×ₗ Uint32

def Pledges.rank : Pledges → Rank
  | .prepare p =>
      toLex (0, toLex (p.ballot, toLex (pointerRank p.prepared,
        toLex (pointerRank p.preparedPrime, p.nH))))
  | .confirm c =>
      toLex (1, toLex (c.ballot, toLex (pointerRank
        (some ⟨c.nPrepared, []⟩), toLex (⊥, c.nH))))
  | .externalize _ =>
      toLex (2, toLex (SCPBallot.zero, toLex (⊥, toLex (⊥, 0))))

private theorem lex_lt_iff {α β : Type} [LinearOrder α] [LinearOrder β]
    {left right : α} {leftRest rightRest : β} :
    (toLex (left, leftRest) : α ×ₗ β) < toLex (right, rightRest) ↔
      left < right ∨ left = right ∧ leftRest < rightRest :=
  Prod.Lex.toLex_lt_toLex

private theorem isNewerPrepare_iff {oldPrep prep : Prepare} :
    isNewerPrepare oldPrep prep = true ↔
      (Pledges.prepare oldPrep).rank < (Pledges.prepare prep).rank := by
  simp only [Pledges.rank, lex_lt_iff, isNewerPrepare,
    compareBallots_neg_iff, compareBallots_eq_zero_iff,
    compareBallotPointers_neg_iff, compareBallotPointers_eq_zero_iff,
    pointerRank_inj]
  by_cases ballotLess : oldPrep.ballot < prep.ballot
  · simp [ballotLess]
  · by_cases ballotEqual : oldPrep.ballot = prep.ballot
    · by_cases preparedLess :
          pointerRank oldPrep.prepared < pointerRank prep.prepared
      · simp [ballotEqual, preparedLess]
      · by_cases preparedEqual : oldPrep.prepared = prep.prepared
        · by_cases primeLess :
              pointerRank oldPrep.preparedPrime <
                pointerRank prep.preparedPrime
          · simp [ballotEqual, preparedEqual, primeLess]
          · by_cases primeEqual :
                oldPrep.preparedPrime = prep.preparedPrime
            · simp [ballotEqual, preparedEqual, primeEqual]
            · simp [ballotEqual, preparedEqual, primeLess, primeEqual]
        · simp [ballotEqual, preparedLess, preparedEqual]
    · simp [ballotLess, ballotEqual]

private theorem counterBallot_lt_iff {left right : Uint32} :
    pointerRank (some ⟨left, []⟩) < pointerRank (some ⟨right, []⟩) ↔
      left < right := by
  simp [pointerRank, SCPBallot.lt_iff]

private theorem counterBallot_eq_iff {left right : Uint32} :
    pointerRank (some ⟨left, []⟩) = pointerRank (some ⟨right, []⟩) ↔
      left = right := by
  simp [pointerRank]

private theorem isNewerConfirm_iff {oldC c : Confirm} :
    isNewerConfirm oldC c = true ↔
      (Pledges.confirm oldC).rank < (Pledges.confirm c).rank := by
  simp only [Pledges.rank, lex_lt_iff, isNewerConfirm,
    compareBallots_neg_iff, compareBallots_eq_zero_iff,
    counterBallot_lt_iff, counterBallot_eq_iff]
  by_cases ballotLess : oldC.ballot < c.ballot
  · simp [ballotLess]
  · by_cases ballotEqual : oldC.ballot = c.ballot
    · by_cases preparedEqual : oldC.nPrepared = c.nPrepared
      · simp [ballotEqual, preparedEqual]
      · simp [ballotEqual, preparedEqual]
    · simp [ballotLess, ballotEqual]

/-- A statement is newer exactly when it has the greater rank. -/
theorem isNewerStatement_iff {oldst st : SCPStatement} :
    isNewerStatement oldst st = true ↔
      oldst.pledges.rank < st.pledges.rank := by
  unfold isNewerStatement
  cases oldst.pledges with
  | prepare oldPrep =>
      cases st.pledges with
      | prepare prep => exact isNewerPrepare_iff
      | confirm c => simp [Pledges.type, Pledges.rank, lex_lt_iff]
      | externalize e => simp [Pledges.type, Pledges.rank, lex_lt_iff]
  | confirm oldC =>
      cases st.pledges with
      | prepare prep => simp [Pledges.type, Pledges.rank, lex_lt_iff]
      | confirm c => exact isNewerConfirm_iff
      | externalize e => simp [Pledges.type, Pledges.rank, lex_lt_iff]
  | externalize oldE =>
      cases st.pledges with
      | prepare prep => simp [Pledges.type, Pledges.rank, lex_lt_iff]
      | confirm c => simp [Pledges.type, Pledges.rank, lex_lt_iff]
      | externalize e => simp [Pledges.rank]

theorem isNewerStatement_trans {first second third : SCPStatement}
    (secondNewer : isNewerStatement first second = true)
    (thirdNewer : isNewerStatement second third = true) :
    isNewerStatement first third = true := by
  rw [isNewerStatement_iff] at secondNewer thirdNewer ⊢
  exact secondNewer.trans thirdNewer

end StellarCore.Scp
