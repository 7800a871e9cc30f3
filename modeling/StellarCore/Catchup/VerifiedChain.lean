import StellarCore.Catchup.VerifyLedgerChain
import StellarCore.Lib.Words

/-!
# The chain of verified headers

When the work succeeds, the last verified entry is linked back, entry by
entry, to the starting point or to the entry that was accepted without one.
This presumes that the last entry read from a file is the last one verified:
the code goes on from the former.
-/

namespace StellarCore.Catchup

open StellarCore.Lib

namespace VerifyLedgerChainConfig

variable {η ρ : Type} [DecidableEq η] (config : VerifyLedgerChainConfig η ρ)

/-- The second entry follows the first one. -/
structure Link (prev curr : LedgerHeaderHistoryEntry η ρ) : Prop where
  hashed : config.getHash curr.header = curr.hash
  previous : curr.header.previousLedgerHash = prev.hash
  consecutive : curr.header.ledgerSeq.toNat =
    prev.header.ledgerSeq.toNat + 1

/-- The entry stands in one of the files. -/
def InFiles (entry : LedgerHeaderHistoryEntry η ρ) : Prop :=
  ∃ checkpoint records, config.files checkpoint = some records ∧
    some entry ∈ records

/-- No entry has the number 0, which the loop takes for a missing starting
point. -/
def Numbered : Prop :=
  ∀ entry, config.InFiles entry → entry.header.ledgerSeq ≠ 0

/-- The first entry that is read. -/
def firstRead : Option (LedgerHeaderHistoryEntry η ρ) :=
  (config.files (config.checkpointContainingLedger config.mRange.first)).bind
    (fun records => records.head?.join)

/-- A point inside the range, from which the counting cannot wrap. -/
def Inside (start : LedgerHeaderHistoryEntry η ρ) : Prop :=
  0 < start.header.ledgerSeq ∧ start.header.ledgerSeq < config.mRange.last

/-- A chain of entries to `prev`, from the starting point or, without one,
from the first entry that is read. -/
structure Chain (start prev : LedgerHeaderHistoryEntry η ρ)
    (chain : List (LedgerHeaderHistoryEntry η ρ)) : Prop where
  linked : chain.IsChain config.Link
  last : chain.getLast? = some prev
  known : ∀ entry ∈ chain, entry = start ∨ config.InFiles entry
  first : config.Inside start → chain.head? = some start
  accepted : config.Numbered → start.header.ledgerSeq = 0 →
    chain.head? = config.firstRead

/-- What the loop keeps of `prev`. -/
structure Chained (start prev : LedgerHeaderHistoryEntry η ρ) : Prop where
  chain : prev.header.ledgerSeq ≠ 0 →
    ∃ chain, config.Chain start prev chain
  inside : config.Inside start → config.Inside prev

variable {config} {start prev curr : LedgerHeaderHistoryEntry η ρ}

omit [DecidableEq η] in
theorem sequence_eq
    (notBelow : ¬ curr.header.ledgerSeq < prev.header.ledgerSeq + 1)
    (notAbove : ¬ curr.header.ledgerSeq > prev.header.ledgerSeq + 1) :
    curr.header.ledgerSeq = prev.header.ledgerSeq + 1 :=
  UInt32.le_antisymm (UInt32.not_lt.mp notAbove) (UInt32.not_lt.mp notBelow)

omit [DecidableEq η] in
theorem Inside.succ (inside : config.Inside prev)
    (sequence : curr.header.ledgerSeq = prev.header.ledgerSeq + 1)
    (notLast : curr.header.ledgerSeq ≠ config.mRange.last) :
    config.Inside curr := by
  obtain ⟨positive, below⟩ := inside
  have bound := config.mRange.last.toNat_lt
  rw [UInt32.lt_iff_toNat_lt] at positive below
  have next : curr.header.ledgerSeq.toNat =
      prev.header.ledgerSeq.toNat + 1 := by
    rw [sequence, UInt32.toNat_add, UInt32.toNat_one]
    exact Nat.mod_eq_of_lt (by omega)
  have different : curr.header.ledgerSeq.toNat ≠
      config.mRange.last.toNat :=
    fun same => notLast (UInt32.toNat_inj.mp same)
  refine ⟨UInt32.lt_iff_toNat_lt.mpr ?_, UInt32.lt_iff_toNat_lt.mpr ?_⟩
  · rw [UInt32.toNat_zero]
    omega
  · omega

theorem link_of_verified
    (notBelow : ¬ curr.header.ledgerSeq < prev.header.ledgerSeq + 1)
    (notAbove : ¬ curr.header.ledgerSeq > prev.header.ledgerSeq + 1)
    (verified : ¬ config.verifyLedgerHistoryLink prev.hash curr ≠ .ok)
    (currNonzero : curr.header.ledgerSeq ≠ 0) : config.Link prev curr := by
  have sequence := sequence_eq notBelow notAbove
  unfold verifyLedgerHistoryLink verifyLedgerHistoryEntry at verified
  refine ⟨?_, ?_, ?_⟩
  · by_contra different
    simp [different] at verified
  · by_contra different
    have unequal : prev.hash ≠ curr.header.previousLedgerHash :=
      fun same => different same.symm
    simp [unequal] at verified
  · have noWrap : prev.header.ledgerSeq.toNat + 1 < 2 ^ 32 := by
      by_contra wraps
      apply currNonzero
      rw [sequence]
      apply UInt32.toNat_inj.mp
      have bound := prev.header.ledgerSeq.toNat_lt
      rw [UInt32.toNat_add, UInt32.toNat_one, UInt32.toNat_zero]
      omega
    rw [sequence, UInt32.toNat_add, UInt32.toNat_one]
    exact Nat.mod_eq_of_lt noWrap

omit [DecidableEq η] in
theorem Chain.extend {chain : List (LedgerHeaderHistoryEntry η ρ)}
    (isChain : config.Chain start prev chain) (link : config.Link prev curr)
    (known : config.InFiles curr) :
    config.Chain start curr (chain ++ [curr]) := by
  have nonempty : chain ≠ [] := by
    rintro rfl
    exact absurd isChain.last (by simp)
  have head : (chain ++ [curr]).head? = chain.head? :=
    List.head?_append_of_ne_nil chain nonempty
  refine ⟨?_, List.getLast?_concat, ?_, ?_, ?_⟩
  · rw [List.isChain_append]
    refine ⟨isChain.linked, List.isChain_singleton _, ?_⟩
    intro last isLast next isNext
    rw [isChain.last, Option.mem_some_iff] at isLast
    rw [List.head?_cons, Option.mem_some_iff] at isNext
    rw [← isLast, ← isNext]
    exact link
  · intro entry member
    rcases List.mem_append.mp member with earlier | isLast
    · exact isChain.known entry earlier
    · rw [List.mem_singleton.mp isLast]
      exact .inr known
  · intro inside
    rw [head]
    exact isChain.first inside
  · intro numbered unset
    rw [head]
    exact isChain.accepted numbered unset

omit [DecidableEq η] in
/-- Nothing precedes an entry that is accepted without a starting point. -/
theorem chained_of_first (chained : config.Chained start prev)
    (unset : prev.header.ledgerSeq = 0) (known : config.InFiles curr)
    (accepted : config.Numbered → start.header.ledgerSeq = 0 →
      some curr = config.firstRead) :
    config.Chained start curr := by
  have outside : ¬ config.Inside start := by
    intro inside
    have positive := (chained.inside inside).1
    rw [unset] at positive
    exact absurd positive (by decide)
  refine ⟨?_, fun inside => absurd inside outside⟩
  intro _
  refine ⟨[curr], List.isChain_singleton _, rfl, ?_, ?_, accepted⟩
  · intro entry member
    rw [List.mem_singleton.mp member]
    exact .inr known
  · exact fun inside => absurd inside outside

/-- As long as nothing was accepted, the first entry is still to be read. -/
def Pending (config : VerifyLedgerChainConfig η ρ)
    (start prev : LedgerHeaderHistoryEntry η ρ)
    (records : LedgerFile η ρ) : Prop :=
  config.Numbered → start.header.ledgerSeq = 0 →
    prev.header.ledgerSeq = 0 → records.head?.join = config.firstRead

omit [DecidableEq η] in
theorem pending_of_known {records : LedgerFile η ρ}
    (known : config.InFiles prev) : config.Pending start prev records :=
  fun numbered _ unset => absurd unset (numbered prev known)

/-- What the loop leaves behind when it ends well. -/
structure Verified (config : VerifyLedgerChainConfig η ρ)
    (start prev : LedgerHeaderHistoryEntry η ρ) : Prop where
  chain : prev.header.ledgerSeq ≠ 0 →
    ∃ chain, config.Chain start prev chain
  inside : config.Inside start →
    config.Inside prev ∨ prev.header.ledgerSeq = config.mRange.last

theorem verifyHeaders_verified {records : LedgerFile η ρ}
    (chained : config.Chained start prev)
    (known : ∀ entry, some entry ∈ records → config.InFiles entry)
    (pending : config.Pending start prev records)
    {lastPrev lastCurr : LedgerHeaderHistoryEntry η ρ}
    (ends : config.verifyHeaders prev curr records =
      some (.ok, lastPrev, lastCurr)) :
    config.Verified start lastPrev := by
  induction records generalizing prev curr with
  | nil =>
      cases ends
      exact ⟨chained.chain, fun inside => .inl (chained.inside inside)⟩
  | cons record records ih =>
      cases record with
      | none => cases ends
      | some next =>
          have knownNext := known next List.mem_cons_self
          have knownRest : ∀ entry, some entry ∈ records →
              config.InFiles entry :=
            fun entry member => known entry (List.mem_cons_of_mem _ member)
          rw [verifyHeaders] at ends
          split at ends
          · rename_i unset
            have first := chained_of_first chained unset knownNext
              (fun numbered noStart => pending numbered noStart unset)
            exact ih first knownRest (pending_of_known knownNext) ends
          rename_i nonzero
          dsimp only at ends
          split at ends
          · exact ih chained knownRest
              (fun _ _ unset => absurd unset nonzero) ends
          rename_i notBelow
          split at ends
          · cases ends
          rename_i notAbove
          split at ends
          · cases ends
          rename_i verified
          have linked : next.header.ledgerSeq ≠ 0 →
              ∃ chain, config.Chain start next chain := by
            intro nextNonzero
            obtain ⟨chain, isChain⟩ := chained.chain nonzero
            exact ⟨chain ++ [next], isChain.extend
              (link_of_verified notBelow notAbove verified nextNonzero)
              knownNext⟩
          split at ends
          · rename_i atLast
            cases ends
            exact ⟨linked, fun _ => .inr atLast⟩
          · rename_i notLast
            refine ih ⟨linked, ?_⟩ knownRest (pending_of_known knownNext)
              ends
            intro inside
            exact (chained.inside inside).succ
              (sequence_eq notBelow notAbove) notLast

/-! ## Checkpoints -/

section Checkpoint

variable (config)

omit [DecidableEq η]

theorem frequency_eq : config.getCheckpointFrequency.toNat = 8 ∨
    config.getCheckpointFrequency.toNat = 64 := by
  unfold getCheckpointFrequency
  split
  · exact .inl rfl
  · exact .inr rfl

theorem frequency_pos : 0 < config.getCheckpointFrequency.toNat := by
  rcases config.frequency_eq with eight | sixtyFour
  · omega
  · omega

/-- No sum with the last ledger of the range wraps. -/
def NoWrap : Prop :=
  config.mRange.last.toNat + 2 * config.getCheckpointFrequency.toNat ≤ 2 ^ 32

variable {config}

theorem toNat_checkpointContainingLedger (noWrap : config.NoWrap)
    {ledger : UInt32} (inRange : ledger ≤ config.mRange.last) :
    (config.checkpointContainingLedger ledger).toNat + 1 =
      (ledger.toNat / config.getCheckpointFrequency.toNat + 1) *
        config.getCheckpointFrequency.toNat := by
  rw [UInt32.le_iff_toNat_le] at inRange
  have positive := config.frequency_pos
  unfold NoWrap at noWrap
  exact toNat_roundUp positive (by omega)

theorem le_checkpointContainingLedger (noWrap : config.NoWrap)
    {ledger : UInt32} (inRange : ledger ≤ config.mRange.last) :
    ledger ≤ config.checkpointContainingLedger ledger := by
  have value := toNat_checkpointContainingLedger noWrap inRange
  have positive := config.frequency_pos
  have within := Nat.lt_div_mul_add (a := ledger.toNat) positive
  rw [UInt32.le_iff_toNat_le]
  rw [Nat.add_mul, Nat.one_mul] at value
  omega

/-- A first checkpoint past the range is the only one. -/
theorem checkpoint_past_last (noWrap : config.NoWrap)
    (past : config.mRange.last <
      config.checkpointContainingLedger config.mRange.first) :
    config.checkpointContainingLedger config.mRange.last <
      config.checkpointContainingLedger config.mRange.first +
        config.getCheckpointFrequency := by
  have firstValue := toNat_checkpointContainingLedger noWrap
    config.mRange.first_le_last
  have lastValue := toNat_checkpointContainingLedger noWrap
    (UInt32.le_refl config.mRange.last)
  have ordered := UInt32.le_iff_toNat_le.mp config.mRange.first_le_last
  have positive := config.frequency_pos
  have below := Nat.div_mul_le_self config.mRange.last.toNat
    config.getCheckpointFrequency.toNat
  rw [UInt32.lt_iff_toNat_lt] at past ⊢
  unfold NoWrap at noWrap
  have sameQuotient : config.mRange.last.toNat /
      config.getCheckpointFrequency.toNat =
        config.mRange.first.toNat / config.getCheckpointFrequency.toNat := by
    apply le_antisymm
    · apply Nat.lt_succ_iff.mp
      rw [Nat.div_lt_iff_lt_mul positive, ← firstValue]
      omega
    · exact Nat.div_le_div_right ordered
  rw [sameQuotient] at lastValue below
  rw [Nat.add_mul, Nat.one_mul] at firstValue lastValue
  rw [UInt32.toNat_add, Nat.mod_eq_of_lt (by omega)]
  omega

/-- Checkpoints end one short of a multiple of their length. -/
theorem checkpointContainingLedger_odd (ledger : UInt32) :
    (config.checkpointContainingLedger ledger).toNat % 2 = 1 := by
  have frequency := config.frequency_eq
  have even : (config.nextCheckpointLedger (ledger + 1)).toNat % 2 = 0 := by
    unfold nextCheckpointLedger
    dsimp only
    split
    · omega
    · rw [UInt32.toNat_mul, UInt32.toNat_div]
      rcases frequency with eight | sixtyFour
      · rw [eight]
        omega
      · rw [sixtyFour]
        omega
  unfold checkpointContainingLedger
  rw [UInt32.toNat_sub, UInt32.toNat_one]
  omega

end Checkpoint

/-! ## The work -/

section Work

variable [Inhabited η] [Inhabited ρ]
  {work after : VerifyLedgerChainWork η ρ}

/-- The last entry read from the file of the current checkpoint is the last
one verified, not one skipped as prehistory. -/
def EndsVerified (config : VerifyLedgerChainConfig η ρ)
    (work : VerifyLedgerChainWork η ρ) : Prop :=
  ∀ {records prev curr}, config.files work.mCurrCheckpoint = some records →
    config.verifyHeaders work.mLastVerified default records =
      some (.ok, prev, curr) → curr = prev

/-- What a checkpoint that verifies leaves behind. -/
structure Advances (config : VerifyLedgerChainConfig η ρ)
    (work after : VerifyLedgerChainWork η ρ)
    (records : LedgerFile η ρ) (prev : LedgerHeaderHistoryEntry η ρ) :
    Prop where
  file : config.files work.mCurrCheckpoint = some records
  verified : config.verifyHeaders work.mLastVerified default records =
    some (.ok, prev, after.mLastVerified)
  ends : after.mLastVerified.header.ledgerSeq = work.mCurrCheckpoint ∨
    after.mLastVerified.header.ledgerSeq = config.mRange.last
  first : after.mFirstVerified =
    if work.mCurrCheckpoint =
        config.checkpointContainingLedger config.mRange.first then
      after.mLastVerified
    else work.mFirstVerified

theorem verifyHistoryOfSingleCheckpoint_ok
    (verifies : config.verifyHistoryOfSingleCheckpoint work =
      some (.ok, after)) :
    (∃ records prev, config.Advances work after records prev) ∧
      after.mCurrCheckpoint = work.mCurrCheckpoint := by
  unfold verifyHistoryOfSingleCheckpoint at verifies
  obtain ⟨records, file, verifies⟩ := Option.bind_eq_some_iff.mp verifies
  obtain ⟨⟨status, prev, curr⟩, loop, verifies⟩ :=
    Option.bind_eq_some_iff.mp verifies
  dsimp only at verifies
  split at verifies
  · cases verifies
  rename_i isOk
  rw [not_not] at isOk
  subst isOk
  split at verifies
  · cases verifies
  rename_i ends
  obtain ⟨status, -, result⟩ := Option.map_eq_some_iff.mp verifies
  cases status with
  | bad => cases result
  | ok =>
      simp only [Prod.mk.injEq, true_and] at result
      subst result
      refine ⟨⟨records, prev, file, loop, ?_, rfl⟩, rfl⟩
      by_contra neither
      exact ends (not_or.mp neither)

theorem onSuccess_success
    (succeeds : config.onSuccess work = some (.success, after)) :
    (∃ records prev, config.Advances work after records prev) ∧
      work.mCurrCheckpoint ≤
        config.checkpointContainingLedger config.mRange.last ∧
      after.mLastVerified.header.ledgerSeq = config.mRange.last := by
  unfold onSuccess at succeeds
  split at succeeds
  · cases succeeds
  rename_i inRange
  obtain ⟨⟨status, next⟩, verifies, result⟩ :=
    Option.map_eq_some_iff.mp succeeds
  cases status with
  | bad => cases result
  | ok =>
      dsimp only at result
      split at result
      · rename_i atLast
        simp only [Prod.mk.injEq, true_and] at result
        subst result
        exact ⟨(verifyHistoryOfSingleCheckpoint_ok verifies).1,
          UInt32.not_lt.mp inRange, atLast⟩
      · cases result

theorem onSuccess_running
    (runs : config.onSuccess work = some (.running, after)) :
    (∃ records prev, config.Advances work after records prev) ∧
      work.mCurrCheckpoint ≤
        config.checkpointContainingLedger config.mRange.last ∧
      after.mLastVerified.header.ledgerSeq ≠ config.mRange.last ∧
      after.mCurrCheckpoint =
        work.mCurrCheckpoint + config.getCheckpointFrequency := by
  unfold onSuccess at runs
  split at runs
  · cases runs
  rename_i inRange
  obtain ⟨⟨status, next⟩, verifies, result⟩ :=
    Option.map_eq_some_iff.mp runs
  cases status with
  | bad => cases result
  | ok =>
      dsimp only at result
      split at result
      · cases result
      · rename_i notLast
        simp only [Prod.mk.injEq, true_and] at result
        subst result
        obtain ⟨⟨records, prev, advances⟩, same⟩ :=
          verifyHistoryOfSingleCheckpoint_ok verifies
        refine ⟨⟨records, prev, ⟨advances.file, advances.verified,
          advances.ends, advances.first⟩⟩, UInt32.not_lt.mp inRange, notLast,
          ?_⟩
        dsimp only
        rw [same]

theorem Advances.verified_of_chained {records : LedgerFile η ρ}
    (advances : config.Advances work after records prev)
    (fresh : config.EndsVerified work)
    (chained : config.Chained start work.mLastVerified)
    (first : start.header.ledgerSeq = 0 →
      work.mLastVerified.header.ledgerSeq = 0 → work.mCurrCheckpoint =
        config.checkpointContainingLedger config.mRange.first) :
    config.Verified start after.mLastVerified := by
  have same := fresh advances.file advances.verified
  have pending : config.Pending start work.mLastVerified records := by
    intro _ noStart unset
    rw [firstRead, ← first noStart unset, advances.file]
    rfl
  have verified := verifyHeaders_verified chained
    (fun entry member => ⟨_, records, advances.file, member⟩) pending
    advances.verified
  rwa [← same] at verified

omit [DecidableEq η] [Inhabited η] [Inhabited ρ] in
theorem Verified.chained (verified : config.Verified start prev)
    (notLast : prev.header.ledgerSeq ≠ config.mRange.last) :
    config.Chained start prev where
  chain := verified.chain
  inside := by
    intro inside
    rcases verified.inside inside with still | atLast
    · exact still
    · exact absurd atLast notLast

omit [DecidableEq η] [Inhabited η] [Inhabited ρ] in
theorem chained_refl (start : LedgerHeaderHistoryEntry η ρ) :
    config.Chained start start where
  chain := by
    intro known
    refine ⟨[start], List.isChain_singleton _, rfl, ?_, fun _ => rfl,
      fun _ noStart => absurd noStart known⟩
    intro entry member
    exact .inl (List.mem_singleton.mp member)
  inside := fun inside => inside

variable {initial : VerifyLedgerChainWork η ρ}

theorem Reaches.checkpoint_odd (reached : config.Reaches initial work) :
    work.mCurrCheckpoint.toNat % 2 = 1 := by
  induction reached with
  | onReset => exact checkpointContainingLedger_odd _
  | onSuccess reached runs ih =>
      obtain ⟨-, -, -, checkpoint⟩ := onSuccess_running runs
      rw [checkpoint, UInt32.toNat_add]
      rcases config.frequency_eq with eight | sixtyFour
      · omega
      · omega

omit [DecidableEq η] [Inhabited η] [Inhabited ρ] in
theorem last_ne_zero : config.mRange.last ≠ 0 := by
  intro zero
  have positive := UInt32.lt_of_lt_of_le config.mRange.first_pos
    config.mRange.first_le_last
  rw [zero] at positive
  exact absurd positive (by decide)

theorem Advances.ne_zero {records : LedgerFile η ρ}
    (advances : config.Advances work after records prev)
    (reached : config.Reaches initial work) :
    after.mLastVerified.header.ledgerSeq ≠ 0 := by
  rcases advances.ends with atCheckpoint | atLast
  · rw [atCheckpoint]
    intro zero
    have odd := reached.checkpoint_odd
    rw [zero] at odd
    exact absurd odd (by decide)
  · rw [atLast]
    exact last_ne_zero

theorem Reaches.unset (reached : config.Reaches initial work)
    (unset : work.mLastVerified.header.ledgerSeq = 0) :
    work.mCurrCheckpoint =
      config.checkpointContainingLedger config.mRange.first := by
  cases reached with
  | onReset => rfl
  | onSuccess reached runs =>
      obtain ⟨⟨records, prev, advances⟩, -⟩ := onSuccess_running runs
      exact absurd unset (advances.ne_zero reached)

theorem reaches_chained (reached : config.Reaches initial work)
    (fresh : ∀ {work}, config.Reaches initial work →
      config.EndsVerified work) :
    config.Chained (config.onReset initial).mLastVerified
      work.mLastVerified := by
  induction reached with
  | onReset => exact chained_refl _
  | onSuccess reached runs ih =>
      obtain ⟨⟨records, prev, advances⟩, -, notLast, -⟩ :=
        onSuccess_running runs
      exact (advances.verified_of_chained (fresh reached) ih
        (fun _ unset => reached.unset unset)).chained notLast

/-- Once the first checkpoint is done, the chain goes back to it. -/
theorem reaches_firstChained (noWrap : config.NoWrap)
    (reached : config.Reaches initial work)
    (fresh : ∀ {work}, config.Reaches initial work →
      config.EndsVerified work) :
    work.mCurrCheckpoint =
        config.checkpointContainingLedger config.mRange.first ∨
      (config.Inside work.mFirstVerified ∧
        config.Chained work.mFirstVerified work.mLastVerified) ∨
      config.checkpointContainingLedger config.mRange.last <
        work.mCurrCheckpoint := by
  induction reached with
  | onReset => exact .inl rfl
  | onSuccess reached runs ih =>
      rename_i work after
      obtain ⟨⟨records, prev, advances⟩, inRange, notLast, checkpoint⟩ :=
        onSuccess_running runs
      right
      by_cases isFirst : work.mCurrCheckpoint =
          config.checkpointContainingLedger config.mRange.first
      · have firstIsLast : after.mFirstVerified = after.mLastVerified := by
          rw [advances.first, if_pos isFirst]
        have sequence : after.mLastVerified.header.ledgerSeq =
            config.checkpointContainingLedger config.mRange.first := by
          rcases advances.ends with atCheckpoint | atLast
          · rw [atCheckpoint, isFirst]
          · exact absurd atLast notLast
        by_cases before : config.checkpointContainingLedger
            config.mRange.first < config.mRange.last
        · left
          rw [firstIsLast]
          refine ⟨⟨?_, ?_⟩, chained_refl _⟩
          · rw [sequence]
            exact UInt32.lt_of_lt_of_le config.mRange.first_pos
              (le_checkpointContainingLedger noWrap
                config.mRange.first_le_last)
          · rw [sequence]
            exact before
        · right
          rw [checkpoint, isFirst]
          apply checkpoint_past_last noWrap
          apply UInt32.lt_of_le_of_ne (UInt32.not_lt.mp before)
          intro same
          exact notLast (sequence.trans same.symm)
      · rcases ih with stillFirst | ⟨inside, chained⟩ | past
        · exact absurd stillFirst isFirst
        · left
          have kept : after.mFirstVerified = work.mFirstVerified := by
            rw [advances.first, if_neg isFirst]
          rw [kept]
          exact ⟨inside, (advances.verified_of_chained (fresh reached)
            chained (fun _ unset => reached.unset unset)).chained notLast⟩
        · exact absurd past (UInt32.not_lt.mpr inRange)

/-- When the work succeeds and every file was verified to the entry it ends
with, the last verified entry ends the range and is linked, entry by entry,
to the starting point or, without one, to the first entry that was read. -/
theorem success_chain (reached : config.Reaches initial work)
    (fresh : ∀ {work}, config.Reaches initial work →
      config.EndsVerified work)
    (succeeds : config.onSuccess work = some (.success, after)) :
    after.mLastVerified.header.ledgerSeq = config.mRange.last ∧
      (∃ chain, config.Chain (config.onReset initial).mLastVerified
        after.mLastVerified chain) ∧
      (config.NoWrap → ∃ chain : List (LedgerHeaderHistoryEntry η ρ),
        chain.IsChain config.Link ∧
          chain.head? = some after.mFirstVerified ∧
          chain.getLast? = some after.mLastVerified) := by
  obtain ⟨⟨records, prev, advances⟩, inRange, atLast⟩ :=
    onSuccess_success succeeds
  have nonzero := advances.ne_zero reached
  refine ⟨atLast, ?_, ?_⟩
  · exact (advances.verified_of_chained (fresh reached)
      (reaches_chained reached fresh)
        (fun _ unset => reached.unset unset)).chain nonzero
  · intro noWrap
    by_cases isFirst : work.mCurrCheckpoint =
        config.checkpointContainingLedger config.mRange.first
    · refine ⟨[after.mLastVerified], List.isChain_singleton _, ?_, rfl⟩
      rw [advances.first, if_pos isFirst]
      rfl
    · rcases reaches_firstChained noWrap reached fresh with
        stillFirst | ⟨inside, chained⟩ | past
      · exact absurd stillFirst isFirst
      · have kept : after.mFirstVerified = work.mFirstVerified := by
          rw [advances.first, if_neg isFirst]
        obtain ⟨chain, isChain⟩ := (advances.verified_of_chained
          (fresh reached) chained
            (fun _ unset => reached.unset unset)).chain nonzero
        rw [kept]
        exact ⟨chain, isChain.linked, isChain.first inside, isChain.last⟩
      · exact absurd past (UInt32.not_lt.mpr inRange)

end Work

/-- A hash of headers over numbers. -/
def sampleHash (header : LedgerHeader ℕ ℕ) : ℕ :=
  1000 * header.rest + 100 * header.previousLedgerHash +
    header.ledgerSeq.toNat

def sampleEntry (ledgerSeq : UInt32) (previous rest : ℕ) :
    LedgerHeaderHistoryEntry ℕ ℕ :=
  { header := ⟨previous, ledgerSeq, rest⟩
    hash := sampleHash ⟨previous, ledgerSeq, rest⟩ }

/-- A manual catchup over ledgers 6 to `last` from given files. -/
def sampleConfig (last : UInt32) (ordered : 6 ≤ last)
    (files : UInt32 → Option (LedgerFile ℕ ℕ)) :
    VerifyLedgerChainConfig ℕ ℕ :=
  { getHash := sampleHash
    artificiallyAccelerateTime := true
    mRange := ⟨6, last, by decide, ordered⟩
    mManualCatchup := true
    mSyncingLedgers := none
    lastClosedLedger := sampleEntry 5 1 0
    files := files }

def sampleWork (lastVerified : LedgerHeaderHistoryEntry ℕ ℕ) :
    VerifyLedgerChainWork ℕ ℕ :=
  { mCurrCheckpoint := 0
    mFirstVerified := lastVerified
    mLastVerified := lastVerified }

/-- A file that continues the last closed ledger 5. -/
def honestFile : LedgerFile ℕ ℕ :=
  [some (sampleEntry 5 1 0), some (sampleEntry 6 105 0),
    some (sampleEntry 7 10506 0)]

def honestConfig : VerifyLedgerChainConfig ℕ ℕ :=
  sampleConfig 7 (by decide)
    (fun checkpoint => if checkpoint = 7 then some honestFile else none)

theorem honest_success :
    honestConfig.onSuccess
        (honestConfig.onReset (sampleWork (sampleEntry 5 1 0))) =
      some (.success,
        { mCurrCheckpoint := 7
          mFirstVerified := sampleEntry 7 10506 0
          mLastVerified := sampleEntry 7 10506 0 }) := by
  decide +kernel

theorem honest_chain :
    (sampleEntry 7 10506 0).header.ledgerSeq = honestConfig.mRange.last ∧
      ∃ chain, honestConfig.Chain (sampleEntry 5 1 0)
        (sampleEntry 7 10506 0) chain := by
  have only : ∀ {work}, honestConfig.Reaches
      (sampleWork (sampleEntry 5 1 0)) work →
        work = honestConfig.onReset (sampleWork (sampleEntry 5 1 0)) := by
    intro work reached
    induction reached with
    | onReset => rfl
    | onSuccess _ runs ih =>
        rw [ih, honest_success] at runs
        cases runs
  have chain := success_chain .onReset (by
    intro work reached records prev curr file loop
    rw [only reached] at file loop
    cases file
    have ends : honestConfig.verifyHeaders (honestConfig.onReset
        (sampleWork (sampleEntry 5 1 0))).mLastVerified default honestFile =
          some (.ok, sampleEntry 7 10506 0, sampleEntry 7 10506 0) := by
      decide +kernel
    rw [ends] at loop
    cases loop
    rfl) honest_success
  exact ⟨chain.1, chain.2.1⟩

/-- Without a starting point, an entry of ledger 6 whose header does not hash
to what it records, and its successor. -/
def acceptedFile : LedgerFile ℕ ℕ :=
  [some { sampleEntry 6 105 0 with hash := 1 }, some (sampleEntry 7 1 0)]

def acceptedConfig : VerifyLedgerChainConfig ℕ ℕ :=
  sampleConfig 7 (by decide)
    (fun checkpoint => if checkpoint = 7 then some acceptedFile else none)

/-- An entry numbered 0, linked to the last number of all, is taken for a
missing starting point: what follows it is accepted as it is. -/
def zeroFile : LedgerFile ℕ ℕ :=
  [some (sampleEntry 4294967295 1 0),
    some (sampleEntry 0 4294967395 0), some (sampleEntry 7 3 3)]

example :
    let config := sampleConfig 7 (by decide)
      (fun checkpoint => if checkpoint = 7 then some zeroFile else none)
    config.onSuccess (config.onReset (sampleWork default)) =
      some (.success,
        { mCurrCheckpoint := 7
          mFirstVerified := sampleEntry 7 3 3
          mLastVerified := sampleEntry 7 3 3 }) := by
  decide +kernel

/-- After ledger 7 another entry for ledger 7, which no hash connects to
anything; ledger 8 builds on it. -/
def staleFiles (checkpoint : UInt32) : Option (LedgerFile ℕ ℕ) :=
  if checkpoint = 7 then
    some [some (sampleEntry 6 105 0), some (sampleEntry 7 10506 0),
      some { sampleEntry 7 3 3 with hash := 2 }]
  else if checkpoint = 15 then some [some (sampleEntry 8 2 0)]
  else none

def staleConfig : VerifyLedgerChainConfig ℕ ℕ :=
  sampleConfig 8 (by decide) staleFiles

theorem unverified_accepted :
    (acceptedConfig.onSuccess
        (acceptedConfig.onReset (sampleWork default)) =
      some (.success,
        { mCurrCheckpoint := 7
          mFirstVerified := sampleEntry 7 1 0
          mLastVerified := sampleEntry 7 1 0 }) ∧
      acceptedConfig.Link { sampleEntry 6 105 0 with hash := 1 }
        (sampleEntry 7 1 0) ∧
      acceptedConfig.getHash (sampleEntry 6 105 0).header ≠ 1) ∧
    staleConfig.Reaches (sampleWork (sampleEntry 5 1 0))
      { mCurrCheckpoint := 15
        mFirstVerified := { sampleEntry 7 3 3 with hash := 2 }
        mLastVerified := { sampleEntry 7 3 3 with hash := 2 } } ∧
    staleConfig.onSuccess
        { mCurrCheckpoint := 15
          mFirstVerified := { sampleEntry 7 3 3 with hash := 2 }
          mLastVerified := { sampleEntry 7 3 3 with hash := 2 } } =
      some (.success,
        { mCurrCheckpoint := 15
          mFirstVerified := { sampleEntry 7 3 3 with hash := 2 }
          mLastVerified := sampleEntry 8 2 0 }) ∧
    staleConfig.getHash (sampleEntry 7 3 3).header ≠ 2 ∧
    ¬ staleConfig.Link (sampleEntry 6 105 0)
      { sampleEntry 7 3 3 with hash := 2 } := by
  refine ⟨⟨by decide +kernel, ⟨rfl, rfl, rfl⟩, by decide⟩, ?_,
    by decide +kernel, by decide, ?_⟩
  · apply Reaches.onSuccess .onReset
    decide +kernel
  · intro link
    exact absurd link.hashed (by decide)

end VerifyLedgerChainConfig

end StellarCore.Catchup
