import StellarCore.Ledger.LedgerManager

/-!
# The states of a ledger manager that follows the network

The buffered ledgers are there for the catchup that is running: they start just
after its target and end with the last value that was externalized in order.
A catchup asked for by a command buffers nothing as long as no value is
externalized meanwhile.  The first downloaded header is accepted without its
hash; as long as those that are replayed hash to what is recorded for them, no
assertion fails and every ledger that is closed follows the last closed one.
-/

namespace StellarCore.Ledger

open StellarCore.Catchup
open StellarCore.Lib

variable {η ν τ ρ : Type}

/-! ## The chain of closed ledgers -/

/-- The closed ledger is the next one after the last closed ledger and builds
on its hash. -/
structure LedgerChange.Follows (closing : Closing η ν τ ρ)
    (change : LedgerChange η ν τ ρ) (lcd : LedgerCloseData η ν τ) :
    Prop where
  ledgerSeq : lcd.ledgerSeq = change.before.header.ledgerSeq + 1
  previousLedgerHash : lcd.txSet.previousLedgerHash = change.before.hash
  closedSeq : change.after.header.ledgerSeq = lcd.ledgerSeq
  closedPrevious : change.after.header.previousLedgerHash = change.before.hash
  closedHash : change.after.hash = closing.getHash change.after.header

/-- The pointers to the last closed and the current ledger, and the changes
that led there. -/
structure Ledgers (closing : Closing η ν τ ρ)
    (lm : LedgerManager η ν τ ρ) : Prop where
  currentSeq : lm.mCurrentLedger.ledgerSeq =
    lm.mLastClosedLedger.header.ledgerSeq + 1
  currentPrevious : lm.mCurrentLedger.previousLedgerHash =
    lm.mLastClosedLedger.hash
  lastClosedHash : closing.getHash lm.mLastClosedLedger.header =
    lm.mLastClosedLedger.hash
  linked : lm.changes.IsChain (fun first second =>
    second.before = first.after)
  latest : ∀ change ∈ lm.changes.getLast?,
    change.after = lm.mLastClosedLedger
  follow : ∀ change ∈ lm.changes, ∀ lcd, change.closed = some lcd →
    change.Follows closing lcd

theorem Ledgers.of_same {closing : Closing η ν τ ρ}
    {lm next : LedgerManager η ν τ ρ} (ledgers : Ledgers closing lm)
    (lastClosed : next.mLastClosedLedger = lm.mLastClosedLedger)
    (currentSeq : next.mCurrentLedger.ledgerSeq =
      lm.mCurrentLedger.ledgerSeq)
    (currentPrevious : next.mCurrentLedger.previousLedgerHash =
      lm.mCurrentLedger.previousLedgerHash)
    (changes : next.changes = lm.changes) : Ledgers closing next := by
  refine ⟨?_, ?_, ?_, ?_, ?_, ?_⟩
  · rw [lastClosed, currentSeq]
    exact ledgers.currentSeq
  · rw [lastClosed, currentPrevious]
    exact ledgers.currentPrevious
  · rw [lastClosed]
    exact ledgers.lastClosedHash
  · rw [changes]
    exact ledgers.linked
  · rw [changes, lastClosed]
    exact ledgers.latest
  · rw [changes]
    exact ledgers.follow

/-- Everything but the ledgers and their pointers is as it was. -/
structure SameSync (before after : LedgerManager η ν τ ρ) : Prop where
  mSyncingLedgers : after.mSyncingLedgers = before.mSyncingLedgers
  mState : after.mState = before.mState
  mCatchupWork : after.mCatchupWork = before.mCatchupWork

theorem SameSync.refl (lm : LedgerManager η ν τ ρ) : SameSync lm lm :=
  ⟨rfl, rfl, rfl⟩

theorem SameSync.trans {first second third : LedgerManager η ν τ ρ}
    (left : SameSync first second) (right : SameSync second third) :
    SameSync first third :=
  ⟨right.mSyncingLedgers.trans left.mSyncingLedgers,
    right.mState.trans left.mState,
    right.mCatchupWork.trans left.mCatchupWork⟩

theorem isChain_append_change {changes : List (LedgerChange η ν τ ρ)}
    {lastClosed : HistoryEntry η ν ρ} {change : LedgerChange η ν τ ρ}
    (linked : changes.IsChain (fun first second =>
      second.before = first.after))
    (latest : ∀ earlier ∈ changes.getLast?, earlier.after = lastClosed)
    (before : change.before = lastClosed) :
    (changes ++ [change]).IsChain (fun first second =>
      second.before = first.after) := by
  apply List.isChain_append.mpr
  refine ⟨linked, List.isChain_singleton _, ?_⟩
  intro earlier member later isLater
  obtain rfl : change = later := by simpa using isLater
  rw [before, latest earlier member]

/-- A change of the last closed ledger that is recorded as such. -/
theorem Ledgers.change {closing : Closing η ν τ ρ}
    {lm next : LedgerManager η ν τ ρ} (ledgers : Ledgers closing lm)
    {closed : Option (LedgerCloseData η ν τ)}
    (changes : next.changes = lm.changes ++
      [⟨lm.mLastClosedLedger, closed, next.mLastClosedLedger⟩])
    (current : next.mCurrentLedger = nextHeader next.mLastClosedLedger)
    (hashed : closing.getHash next.mLastClosedLedger.header =
      next.mLastClosedLedger.hash)
    (follows : ∀ lcd, closed = some lcd → LedgerChange.Follows closing
      ⟨lm.mLastClosedLedger, closed, next.mLastClosedLedger⟩ lcd) :
    Ledgers closing next := by
  refine ⟨?_, ?_, hashed, ?_, ?_, ?_⟩
  · rw [current]
    rfl
  · rw [current]
    rfl
  · rw [changes]
    exact isChain_append_change ledgers.linked ledgers.latest rfl
  · intro change member
    rw [changes, List.getLast?_append] at member
    obtain rfl := Option.some_inj.mp member
    rfl
  · intro change member lcd isClosed
    rw [changes] at member
    rcases List.mem_append.mp member with earlier | added
    · exact ledgers.follow change earlier lcd isClosed
    · obtain rfl := List.mem_singleton.mp added
      exact follows lcd isClosed

section Closing

variable {closing : Closing η ν τ ρ} {lm : LedgerManager η ν τ ρ}

theorem assertThat_ends {condition : Bool} (holds : condition = true)
    {done : Unit → LedgerManager η ν τ ρ → Prop}
    {failed : ManagerFailure → LedgerManager η ν τ ρ → Prop}
    (ends : done () lm) : Ends (assertThat condition) lm done failed := by
  unfold assertThat
  rw [holds]
  exact ends

/-- Ledgers that follow each other. -/
def Contiguous (chain : List (LedgerCloseData η ν τ)) : Prop :=
  chain.IsChain (fun first second =>
    second.ledgerSeq = first.ledgerSeq + 1)

variable [DecidableEq η]

theorem closeLedger_ends {lcd : LedgerCloseData η ν τ}
    (ledgers : Ledgers closing lm)
    (seq : lcd.ledgerSeq = lm.mLastClosedLedger.header.ledgerSeq + 1) :
    Ends (closeLedger closing lcd) lm
      (fun _ next => Ledgers closing next ∧ SameSync lm next ∧
        next.mLastClosedLedger.header.ledgerSeq = lcd.ledgerSeq)
      (fun failure next => failure ≠ .assertion ∧ Ledgers closing next ∧
        SameSync lm next) := by
  have unchanged : Ledgers closing lm ∧ SameSync lm lm :=
    ⟨ledgers, SameSync.refl lm⟩
  -- `scpValue` of the current ledger is written before anything can fail
  have started : ∀ value : ν, Ledgers closing
      { lm with mCurrentLedger :=
        { lm.mCurrentLedger with
          rest := { lm.mCurrentLedger.rest with scpValue := value } } } :=
    fun value => ledgers.of_same rfl rfl rfl rfl
  unfold closeLedger
  simp only [Ends.bind_iff, Ends.get_iff, Ends.ite_iff, Ends.throw_iff,
    Ends.set_iff]
  refine ⟨fun _ => ⟨by simp, unchanged⟩, fun sameHash =>
    ⟨fun _ => ⟨by simp, unchanged⟩, fun _ => ?_⟩⟩
  rw [not_not] at sameHash
  split
  next what failed =>
    exact ⟨by simp, started lcd.value, ⟨rfl, rfl, rfl⟩⟩
  next fields applied =>
    rw [Ends.ite_iff]
    refine ⟨fun _ => ?_, fun _ => ?_⟩
    · unfold advanceLedgerPointers
      rw [Ends.modify_iff]
      refine ⟨?_, ⟨rfl, rfl, rfl⟩, ?_⟩
      · apply ledgers.change rfl rfl rfl
        intro other isClosed
        obtain rfl := Option.some_inj.mp isClosed
        exact ⟨seq, sameHash, ledgers.currentSeq.trans seq.symm,
          ledgers.currentPrevious, rfl⟩
      · exact ledgers.currentSeq.trans seq.symm
    · exact ⟨by simp, started lcd.value, ⟨rfl, rfl, rfl⟩⟩

theorem replayBuffered_ends [DecidableEq ν]
    (buffered : List (LedgerCloseData η ν τ)) (ledgers : Ledgers closing lm)
    (contiguous : Contiguous buffered)
    (first : ∀ front ∈ buffered.head?,
      front.ledgerSeq = lm.mLastClosedLedger.header.ledgerSeq + 1) :
    Ends (replayBuffered closing buffered) lm
      (fun overshot next => overshot = false ∧ Ledgers closing next ∧
        SameSync lm next)
      (fun failure _ => failure ≠ .assertion) := by
  induction buffered generalizing lm with
  | nil => exact ⟨rfl, ledgers, SameSync.refl lm⟩
  | cons lcd rest ih =>
      have seq := first lcd rfl
      have notOlder : ¬ lcd.ledgerSeq <
          lm.mLastClosedLedger.header.ledgerSeq + 1 := by
        rw [seq]
        exact UInt32.lt_irrefl _
      unfold replayBuffered
      simp only [Ends.bind_iff, Ends.get_iff, Ends.ite_iff]
      refine ⟨fun older => absurd older notOlder, fun _ =>
        ⟨fun _ => ?_, fun overshoots => absurd seq overshoots⟩⟩
      apply (closeLedger_ends ledgers seq).mono
      · rintro _ next ⟨closed, same, nextSeq⟩
        apply (ih closed contiguous.tail _).mono
        · rintro overshot last ⟨fits, lastLedgers, lastSame⟩
          exact ⟨fits, lastLedgers, same.trans lastSame⟩
        · exact fun _ _ holds => holds
        · intro front isFront
          rw [nextSeq]
          exact contiguous.rel_head? isFront
      · exact fun _ _ holds => holds.1

end Closing

/-! ## The buffered ledgers and the running catchup -/

/-- The end of the range, once it is known. -/
def CatchupStage.last? : CatchupStage η ν ρ → Option UInt32
  | .started => none
  | .downloading last => some last
  | .verified last => some last
  | .bucketsApplied last => some last
  | .replaying last _ => some last
  | .replayFailed last => some last

/-- The buffered ledgers are those that the catchup will need, and its replay
keeps track of the last closed ledger. -/
structure Serves (lm : LedgerManager η ν τ ρ) (work : CatchupWork η ν ρ) :
    Prop where
  manual : work.mManualCatchup = true → lm.mSyncingLedgers = []
  target : work.mManualCatchup = false →
    work.mCatchupConfiguration.toLedger ≠ current ∧
      ∃ front, lm.mSyncingLedgers.head? = some front ∧
        front.ledgerSeq = work.mCatchupConfiguration.toLedger + 1
  range : work.mManualCatchup = false → ∀ last ∈ work.stage.last?,
    last = work.mCatchupConfiguration.toLedger
  replay : ∀ last applied, work.stage = .replaying last applied →
    applied = lm.mLastClosedLedger

structure InSync (closing : Closing η ν τ ρ) (lm : LedgerManager η ν τ ρ) :
    Prop where
  ledgers : Ledgers closing lm
  idle : lm.mState ≠ .catchingUp → lm.mSyncingLedgers = []
  working : lm.mCatchupWork.isSome = true ↔ lm.mState = .catchingUp
  contiguous : Contiguous lm.mSyncingLedgers
  serves : ∀ work, lm.mCatchupWork = some work → Serves lm work

/-- The manager is back to a state without a catchup. -/
theorem Ledgers.inSync_idle {closing : Closing η ν τ ρ}
    {lm : LedgerManager η ν τ ρ} (ledgers : Ledgers closing lm)
    (state : lm.mState ≠ .catchingUp) (buffer : lm.mSyncingLedgers = [])
    (work : lm.mCatchupWork = none) : InSync closing lm := by
  refine ⟨ledgers, fun _ => buffer, ?_, ?_, ?_⟩
  · rw [work]
    exact ⟨by simp, fun catching => absurd catching state⟩
  · rw [buffer]
    exact List.isChain_nil
  · intro running isRunning
    rw [work] at isRunning
    cases isRunning

theorem InSync.no_work {closing : Closing η ν τ ρ}
    {lm : LedgerManager η ν τ ρ} (inSync : InSync closing lm)
    (state : lm.mState ≠ .catchingUp) : lm.mCatchupWork = none := by
  have nothing := mt inSync.working.mp state
  simpa using nothing

/-- The work goes on to another stage, after ledgers may have been closed. -/
theorem InSync.advance {closing : Closing η ν τ ρ}
    {lm next : LedgerManager η ν τ ρ} (inSync : InSync closing lm)
    (ledgers : Ledgers closing next) (same : SameSync lm next)
    {work : CatchupWork η ν ρ} (running : lm.mCatchupWork = some work)
    {stage : CatchupStage η ν ρ}
    (range : work.mManualCatchup = false → ∀ last ∈ stage.last?,
      last = work.mCatchupConfiguration.toLedger)
    (replay : ∀ last applied, stage = .replaying last applied →
      applied = next.mLastClosedLedger) :
    InSync closing { next with
      mCatchupWork := next.mCatchupWork.map
        (fun work => { work with stage }) } := by
  have serves := inSync.serves work running
  have kept : next.mSyncingLedgers = lm.mSyncingLedgers :=
    same.mSyncingLedgers
  refine ⟨ledgers.of_same rfl rfl rfl rfl, ?_, ?_, ?_, ?_⟩
  · rw [same.mState, kept]
    exact inSync.idle
  · rw [Option.isSome_map, same.mState, same.mCatchupWork]
    exact inSync.working
  · rw [kept]
    exact inSync.contiguous
  · intro other isOther
    rw [same.mCatchupWork, running] at isOther
    obtain rfl := Option.some_inj.mp isOther
    refine ⟨?_, ?_, range, replay⟩
    · rw [kept]
      exact serves.manual
    · rw [kept]
      exact serves.target

theorem InSync.stage {closing : Closing η ν τ ρ}
    {lm : LedgerManager η ν τ ρ} (inSync : InSync closing lm)
    {work : CatchupWork η ν ρ} (running : lm.mCatchupWork = some work)
    {stage : CatchupStage η ν ρ}
    (range : work.mManualCatchup = false → ∀ last ∈ stage.last?,
      last = work.mCatchupConfiguration.toLedger)
    (replay : ∀ last applied, stage = .replaying last applied →
      applied = lm.mLastClosedLedger) :
    InSync closing { lm with
      mCatchupWork := lm.mCatchupWork.map
        (fun work => { work with stage }) } :=
  inSync.advance inSync.ledgers (SameSync.refl lm) running range replay

theorem contiguous_addToChain {chain : List (LedgerCloseData η ν τ)}
    (contiguous : Contiguous chain) (lcd : LedgerCloseData η ν τ) :
    Contiguous (addToChain chain lcd).2 := by
  unfold addToChain
  split
  next none =>
    rw [List.getLast?_eq_none_iff.mp none]
    exact List.isChain_singleton _
  next back found =>
    split
    next follows =>
      apply List.isChain_append.mpr
      refine ⟨contiguous, List.isChain_singleton _, ?_⟩
      intro last isLast added isAdded
      obtain rfl := Option.some_inj.mp (found.symm.trans isLast)
      obtain rfl : lcd = added := by simpa using isAdded
      exact follows.symm
    next =>
      split
      next => exact contiguous
      next => exact contiguous

theorem head?_addToChain {chain : List (LedgerCloseData η ν τ)}
    {front : LedgerCloseData η ν τ} (isFront : chain.head? = some front)
    (lcd : LedgerCloseData η ν τ) :
    (addToChain chain lcd).2.head? = some front := by
  have appended : (chain ++ [lcd]).head? = some front := by
    rw [List.head?_append, isFront]
    rfl
  unfold addToChain
  split
  next => exact appended
  next =>
    split
    next => exact appended
    next =>
      split
      next => exact isFront
      next => exact isFront

section Inputs

variable {closing : Closing η ν τ ρ} {lm : LedgerManager η ν τ ρ}

/-- The input leaves the manager in sync and fails no assertion. -/
def Keeps (closing : Closing η ν τ ρ) (lm : LedgerManager η ν τ ρ)
    (program : Manager η ν τ ρ Unit) : Prop :=
  Ends program lm (fun _ next => InSync closing next)
    (fun failure _ => failure ≠ .assertion)

theorem startCatchUp_keeps (inSync : InSync closing lm)
    {lcd : LedgerCloseData η ν τ} {configuration : CatchupConfiguration}
    (state : lm.mState ≠ .catchingUp)
    (newer : lm.mLastClosedLedger.header.ledgerSeq < configuration.toLedger)
    (next : lcd.ledgerSeq = configuration.toLedger + 1) :
    Keeps closing { lm with mSyncingLedgers := [lcd] }
      (startCatchUp configuration false) := by
  have work := inSync.no_work state
  unfold Keeps startCatchUp catchupHistory setState
  simp only [Ends.bind_iff, Ends.get_iff, Ends.ite_iff, Ends.throw_iff,
    Ends.modify_iff]
  refine ⟨fun _ => (by simp), fun _ =>
    ⟨fun running => absurd running (by simp [work]), fun _ => ?_⟩⟩
  refine ⟨?_, (by simp), ?_, List.isChain_singleton _, ?_⟩
  · exact inSync.ledgers.of_same rfl rfl rfl rfl
  · exact ⟨fun _ => rfl, fun _ => rfl⟩
  · intro started isStarted
    obtain rfl := Option.some_inj.mp isStarted
    refine ⟨by simp, fun _ => ⟨?_, lcd, rfl, next⟩,
      by simp [CatchupStage.last?], by simp⟩
    intro zero
    have target : configuration.toLedger = 0 := zero
    rw [target] at newer
    exact UInt32.not_lt_zero newer

theorem sub_one_newer {lastClosed seq : UInt32}
    (notNext : lastClosed + 1 ≠ seq) (notOlder : ¬ seq ≤ lastClosed) :
    lastClosed < seq - 1 ∧ seq = seq - 1 + 1 := by
  constructor
  · rw [UInt32.lt_iff_toNat_lt]
    rw [UInt32.le_iff_toNat_le] at notOlder
    have different : lastClosed.toNat + 1 ≠ seq.toNat := by
      intro same
      apply notNext
      apply UInt32.toNat.inj
      rw [UInt32.toNat_add, ← same]
      exact Nat.mod_eq_of_lt (same ▸ seq.toNat_lt)
    rw [UInt32.toNat_sub_of_le _ _ (by
      rw [UInt32.le_iff_toNat_le]
      show 1 ≤ seq.toNat
      omega)]
    show lastClosed.toNat < seq.toNat - 1
    omega
  · exact (UInt32.sub_add_cancel seq 1).symm

/-- The value does not come while a catchup that was asked for is running. -/
def ManualCatchup (lm : LedgerManager η ν τ ρ) : Prop :=
  ∃ work, lm.mCatchupWork = some work ∧ work.mManualCatchup = true

theorem followValue_keeps [DecidableEq η] (inSync : InSync closing lm)
    (state : lm.mState ≠ .catchingUp) (lcd : LedgerCloseData η ν τ) :
    Keeps closing lm (followValue closing lcd) := by
  have buffer := inSync.idle state
  have work := inSync.no_work state
  unfold Keeps followValue setState
  simp only [Ends.bind_iff, Ends.get_iff, Ends.ite_iff, Ends.throw_iff,
    Ends.modify_iff]
  refine ⟨fun next => ⟨fun _ => ?_, fun _ => (by simp)⟩, fun notNext =>
    ⟨fun _ => inSync, fun notOlder => ?_⟩⟩
  · have synced : Ledgers closing { lm with mState := .synced } :=
      inSync.ledgers.of_same rfl rfl rfl rfl
    apply (closeLedger_ends synced next.symm).mono
    · rintro _ after ⟨closed, same, _⟩
      apply closed.inSync_idle
      · rw [same.mState]
        simp
      · exact same.mSyncingLedgers.trans buffer
      · exact same.mCatchupWork.trans work
    · exact fun _ _ holds => holds.1
  · obtain ⟨newer, target⟩ := sub_one_newer notNext notOlder
    apply assertThat_ends
    · rw [buffer]
      rfl
    · rw [buffer]
      apply assertThat_ends rfl
      exact startCatchUp_keeps inSync state newer target

theorem valueExternalized_keeps [DecidableEq η] (inSync : InSync closing lm)
    (notManual : ¬ ManualCatchup lm) (lcd : LedgerCloseData η ν τ) :
    Keeps closing lm (valueExternalized closing lcd) := by
  unfold Keeps valueExternalized
  rw [Ends.bind_iff, Ends.get_iff]
  cases state : lm.mState with
  | booting => exact followValue_keeps inSync (by simp [state]) lcd
  | synced => exact followValue_keeps inSync (by simp [state]) lcd
  | catchingUp =>
      rw [Ends.modify_iff]
      refine ⟨inSync.ledgers.of_same rfl rfl rfl rfl,
        fun idle => absurd state idle, inSync.working,
        contiguous_addToChain inSync.contiguous lcd, ?_⟩
      · intro work running
        have serves := inSync.serves work running
        refine ⟨?_, ?_, serves.range, serves.replay⟩
        · intro manual
          exact absurd ⟨work, running, manual⟩ notManual
        · intro automatic
          obtain ⟨known, front, isFront, next⟩ := serves.target automatic
          exact ⟨known, front, head?_addToChain isFront lcd, next⟩

theorem commandCatchup_keeps (inSync : InSync closing lm)
    (configuration : CatchupConfiguration) :
    Keeps closing lm (commandCatchup configuration) := by
  unfold Keeps commandCatchup startCatchUp catchupHistory setState
  simp only [Ends.tryCatch_iff, Ends.bind_iff, Ends.get_iff, Ends.ite_iff,
    Ends.throw_iff, Ends.modify_iff]
  refine ⟨fun _ => inSync, fun _ => ⟨fun running => ?_, fun idle => ?_⟩⟩
  · -- the state was set before the exception, but it was that one already
    have state := inSync.working.mp running
    have same : { lm with mState := .catchingUp } = lm := by
      rw [← state]
    rw [same]
    exact inSync
  · have work : lm.mCatchupWork = none := by simpa using idle
    have state : lm.mState ≠ .catchingUp := by
      intro catching
      have running := inSync.working.mpr catching
      rw [work] at running
      cases running
    have buffer := inSync.idle state
    refine ⟨inSync.ledgers.of_same rfl rfl rfl rfl, fun _ => buffer,
      ⟨fun _ => rfl, fun _ => rfl⟩, inSync.contiguous, ?_⟩
    intro started isStarted
    obtain rfl := Option.some_inj.mp isStarted
    exact ⟨fun _ => buffer, by simp, by simp, by simp⟩

theorem onFailureRaise_keeps (inSync : InSync closing lm) :
    Keeps closing lm onFailureRaise := by
  unfold Keeps onFailureRaise historyCaughtupError resetCatchupWork setState
    clearSyncingLedgers
  simp only [Ends.bind_iff, Ends.modify_iff]
  refine Ledgers.inSync_idle ?_ (by simp) rfl rfl
  exact inSync.ledgers.of_same rfl rfl rfl rfl

theorem failCatchup_keeps (inSync : InSync closing lm) :
    Keeps closing lm failCatchup := by
  unfold Keeps failCatchup
  rw [Ends.bind_iff, Ends.get_iff, Ends.ite_iff]
  exact ⟨fun _ => onFailureRaise_keeps inSync, fun _ => inSync⟩

theorem resolveRange_keeps (inSync : InSync closing lm)
    (remoteCheckpoint : UInt32) :
    Keeps closing lm (resolveRange remoteCheckpoint) := by
  unfold Keeps resolveRange setStage
  rw [Ends.bind_iff, Ends.get_iff]
  split
  next configuration manual running =>
    rw [Ends.modify_iff]
    apply inSync.stage running
    · intro automatic last isLast
      obtain ⟨known, _⟩ := (inSync.serves _ running).target automatic
      obtain rfl := Option.some_inj.mp isLast
      exact if_neg known
    · simp
  next => exact inSync

/-- Both assertions hold, and the answer changes nothing. -/
theorem verifyCatchupCandidate_ends [DecidableEq η]
    {work : CatchupWork η ν ρ} (serves : Serves lm work)
    {candidate : HistoryEntry η ν ρ}
    (target : work.mManualCatchup = false → candidate.header.ledgerSeq =
      work.mCatchupConfiguration.toLedger) :
    Ends (verifyCatchupCandidate candidate work.mManualCatchup) lm
      (fun _ next => next = lm) (fun _ _ => False) := by
  unfold verifyCatchupCandidate
  rw [Ends.bind_iff, Ends.get_iff]
  cases manual : work.mManualCatchup with
  | true =>
      simp only [if_true, Ends.bind_iff]
      apply assertThat_ends
      · rw [serves.manual manual]
        rfl
      · rfl
  | false =>
      obtain ⟨-, front, isFront, next⟩ := serves.target manual
      simp only [Bool.false_eq_true, if_false, isFront, Ends.bind_iff]
      apply assertThat_ends
      · rw [target manual]
        exact decide_eq_true next
      · rw [Ends.ite_iff]
        exact ⟨fun _ => rfl, fun _ => rfl⟩

theorem verifyEndOfRange_keeps [DecidableEq η] (inSync : InSync closing lm)
    (candidate : HistoryEntry η ν ρ) :
    Keeps closing lm (verifyEndOfRange candidate) := by
  unfold Keeps verifyEndOfRange
  rw [Ends.bind_iff, Ends.get_iff]
  split
  next configuration manual last running =>
    have serves := inSync.serves _ running
    rw [Ends.ite_iff]
    refine ⟨fun same => ?_, fun _ => inSync⟩
    rw [Ends.bind_iff]
    have target : manual = false →
        candidate.header.ledgerSeq = configuration.toLedger :=
      fun automatic => same.trans (serves.range automatic last rfl)
    apply (verifyCatchupCandidate_ends serves target).mono
    · rintro status next rfl
      cases status with
      | ok =>
          unfold setStage
          rw [Ends.modify_iff]
          exact inSync.stage running serves.range (by simp)
      | bad => exact onFailureRaise_keeps inSync
    · exact fun _ _ impossible => impossible.elim
  next => exact inSync

theorem startReplay_keeps (inSync : InSync closing lm) :
    Keeps closing lm startReplay := by
  have replaying : ∀ {configuration manual last stage},
      lm.mCatchupWork = some ⟨configuration, manual, stage⟩ →
      stage.last? = some last →
      Keeps closing lm (setStage (.replaying last lm.mLastClosedLedger)) := by
    intro configuration manual last stage running isLast
    unfold Keeps setStage
    rw [Ends.modify_iff]
    apply inSync.stage running
    · intro automatic other isOther
      obtain rfl := Option.some_inj.mp isOther
      exact (inSync.serves _ running).range automatic last isLast
    · intro other applied same
      cases same
      rfl
  unfold Keeps startReplay
  rw [Ends.bind_iff, Ends.get_iff]
  split
  next running => exact replaying running rfl
  next running => exact replaying running rfl
  next running => exact replaying running rfl
  next => exact inSync

theorem failReplay_keeps (inSync : InSync closing lm) :
    Keeps closing lm failReplay := by
  unfold Keeps failReplay setStage
  rw [Ends.bind_iff, Ends.get_iff]
  split
  next running =>
    rw [Ends.modify_iff]
    exact inSync.stage running (inSync.serves _ running).range (by simp)
  next => exact inSync

theorem applyBuckets_keeps [DecidableEq η] [DecidableEq ν] [DecidableEq ρ]
    (inSync : InSync closing lm) (mFirstVerified : HistoryEntry η ν ρ) :
    Keeps closing lm (applyBuckets closing mFirstVerified) := by
  unfold Keeps applyBuckets historyCaughtup assumeLedger
  rw [Ends.bind_iff, Ends.get_iff]
  split
  next configuration manual last running =>
    simp only [Ends.bind_iff, Ends.ite_iff, Ends.throw_iff, Ends.modify_iff]
    refine ⟨fun _ => (by simp), fun _ => ⟨fun _ => (by simp), fun _ =>
      ⟨fun _ => (by simp), fun hashed => ?_⟩⟩⟩
    rw [not_not] at hashed
    unfold setStage
    rw [Ends.modify_iff]
    apply inSync.advance
    · exact inSync.ledgers.change rfl rfl hashed (by simp)
    · exact ⟨rfl, rfl, rfl⟩
    · exact running
    · exact (inSync.serves _ running).range
    · simp
  next => exact inSync

theorem applyHistoryOfSingleLedger_ends [DecidableEq η]
    (ledgers : Ledgers closing lm) (hHeader : HistoryEntry η ν ρ)
    (txset : TxSet η τ) :
    Ends (applyHistoryOfSingleLedger closing hHeader txset) lm
      (fun closed next => if closed then
          Ledgers closing next ∧ SameSync lm next ∧
            next.mLastClosedLedger.hash = hHeader.hash
        else next = lm)
      (fun failure next => failure ≠ .assertion ∧ Ledgers closing next ∧
        SameSync lm next) := by
  have unchanged : Ledgers closing lm ∧ SameSync lm lm :=
    ⟨ledgers, SameSync.refl lm⟩
  unfold applyHistoryOfSingleLedger
  simp only [Ends.bind_iff, Ends.get_iff, Ends.ite_iff, Ends.throw_iff]
  refine ⟨fun _ => rfl, fun _ =>
    ⟨fun _ => ⟨fun _ => ⟨by simp, unchanged⟩, fun _ => rfl⟩, fun _ =>
    ⟨fun _ => ⟨fun _ => ⟨by simp, unchanged⟩, fun _ => rfl⟩, fun _ =>
    ⟨fun _ => ⟨by simp, unchanged⟩, fun current =>
    ⟨fun _ => ⟨by simp, unchanged⟩, fun _ =>
    ⟨fun _ => ⟨by simp, unchanged⟩, fun _ => ?_⟩⟩⟩⟩⟩⟩
  rw [not_not] at current
  apply (closeLedger_ends ledgers
    (current.trans ledgers.currentSeq)).mono
  · rintro _ next ⟨closed, same, _⟩
    refine ⟨fun _ => ⟨by simp, closed, same⟩, fun hashes => ?_⟩
    rw [not_not] at hashes
    exact ⟨closed, same, hashes⟩
  · exact fun _ _ holds => holds

theorem replayLedger_keeps [DecidableEq η] (inSync : InSync closing lm)
    (injective : Function.Injective closing.getHash)
    {hHeader : HistoryEntry η ν ρ}
    (hashed : closing.getHash hHeader.header = hHeader.hash)
    (txset : TxSet η τ) :
    Keeps closing lm (replayLedger closing hHeader txset) := by
  unfold Keeps replayLedger
  rw [Ends.bind_iff, Ends.get_iff]
  split
  next configuration manual last applied running =>
    have range := (inSync.serves _ running).range
    rw [Ends.tryCatch_iff, Ends.bind_iff]
    apply (applyHistoryOfSingleLedger_ends inSync.ledgers hHeader
      txset).mono
    · intro closed next outcome
      cases closed with
      | false =>
          obtain rfl : next = lm := outcome
          exact inSync
      | true =>
          obtain ⟨ledgers, same, hashes⟩ := outcome
          have header : hHeader.header = next.mLastClosedLedger.header := by
            apply injective
            rw [hashed, ledgers.lastClosedHash, hashes]
          have entry : hHeader = next.mLastClosedLedger := by
            cases hHeader with
            | mk entryHeader entryHash =>
                cases lastEq : next.mLastClosedLedger with
                | mk lastHeader lastHash =>
                    rw [lastEq] at header hashes
                    simp only at header hashes
                    rw [header, hashes]
          show Ends (setStage (.replaying last hHeader)) next _ _
          unfold setStage
          rw [Ends.modify_iff]
          apply inSync.advance ledgers same running
          · exact range
          · intro _ _ stage
            cases stage
            exact entry
    · rintro failure next ⟨noAssertion, ledgers, same⟩
      cases failure with
      | assertion => exact absurd rfl noAssertion
      | exception what =>
          show Ends (setStage (.replayFailed last)) next _ _
          unfold setStage
          rw [Ends.modify_iff]
          apply inSync.advance ledgers same running
          · exact range
          · simp
  next => exact inSync

theorem finishCatchup_keeps [DecidableEq η] [DecidableEq ν] [DecidableEq ρ]
    (inSync : InSync closing lm) :
    Keeps closing lm (finishCatchup closing) := by
  unfold Keeps finishCatchup
  rw [Ends.bind_iff, Ends.get_iff]
  split
  next configuration manual last applied running =>
    have serves := inSync.serves _ running
    obtain rfl : applied = lm.mLastClosedLedger := serves.replay _ _ rfl
    rw [Ends.ite_iff]
    refine ⟨fun reached => ?_, fun _ => inSync⟩
    have first : ∀ front ∈ lm.mSyncingLedgers.head?,
        front.ledgerSeq = lm.mLastClosedLedger.header.ledgerSeq + 1 := by
      intro front isFront
      cases manual with
      | true =>
          rw [serves.manual rfl] at isFront
          cases isFront
      | false =>
          obtain ⟨-, other, isOther, next⟩ := serves.target rfl
          obtain rfl := Option.some_inj.mp (isOther.symm.trans isFront)
          rw [reached, next, serves.range rfl last rfl]
    unfold historyCaughtup resetCatchupWork clearSyncingLedgers setState
    simp only [Ends.bind_iff, Ends.get_iff, Ends.modify_iff]
    apply assertThat_ends (decide_eq_true trivial)
    apply assertThat_ends (decide_eq_true trivial)
    have ledgers : Ledgers closing { lm with mCatchupWork := none } :=
      inSync.ledgers.of_same rfl rfl rfl rfl
    apply (replayBuffered_ends lm.mSyncingLedgers ledgers inSync.contiguous
      first).mono
    · rintro overshot next ⟨fits, closed, same⟩
      subst fits
      simp only [Bool.false_eq_true, if_false, Ends.bind_iff,
        Ends.modify_iff]
      refine Ledgers.inSync_idle ?_ (by simp) rfl rfl
      exact closed.of_same rfl rfl rfl rfl
    · exact fun _ _ holds => holds
  next => exact inSync

end Inputs

/-! ## Runs -/

section Runs

/-- A manager that has loaded its last closed ledger. -/
def LedgerManager.loaded (lastClosed : HistoryEntry η ν ρ) :
    LedgerManager η ν τ ρ :=
  { mLastClosedLedger := lastClosed
    mCurrentLedger := nextHeader lastClosed
    mSyncingLedgers := []
    mState := .booting
    mCatchupWork := none
    changes := [] }

theorem inSync_loaded {closing : Closing η ν τ ρ}
    {lastClosed : HistoryEntry η ν ρ}
    (hashed : closing.getHash lastClosed.header = lastClosed.hash) :
    InSync closing (.loaded lastClosed : LedgerManager η ν τ ρ) := by
  refine Ledgers.inSync_idle ?_ (by simp [LedgerManager.loaded]) rfl rfl
  exact ⟨rfl, rfl, hashed, List.isChain_nil, by simp [LedgerManager.loaded],
    by simp [LedgerManager.loaded]⟩

variable [DecidableEq η] [DecidableEq ν] [DecidableEq ρ]
variable (closing : Closing η ν τ ρ)

/-- No value is externalized while a catchup asked for by a command is
running, and what is replayed hashes to what is recorded for it. -/
def Allowed (lm : LedgerManager η ν τ ρ) : ManagerInput η ν τ ρ → Prop
  | .valueExternalized _ => ¬ ManualCatchup lm
  | .replayLedger hHeader _ => closing.getHash hHeader.header = hHeader.hash
  | _ => True

/-- The states in which a run can be that started with a loaded ledger; an
exception ends it. -/
inductive Reachable : LedgerManager η ν τ ρ → Prop
  | loaded {lastClosed : HistoryEntry η ν ρ}
      (hashed : closing.getHash lastClosed.header = lastClosed.hash) :
      Reachable (.loaded lastClosed)
  | step {lm next : LedgerManager η ν τ ρ} {input : ManagerInput η ν τ ρ}
      (reached : Reachable lm) (allowed : Allowed closing lm input)
      (handled : handleInput closing input lm = .ok () next) :
      Reachable next

variable {closing}

theorem handleInput_keeps {lm : LedgerManager η ν τ ρ}
    (injective : Function.Injective closing.getHash)
    (inSync : InSync closing lm) {input : ManagerInput η ν τ ρ}
    (allowed : Allowed closing lm input) :
    Keeps closing lm (handleInput closing input) := by
  cases input with
  | valueExternalized ledgerData =>
      exact valueExternalized_keeps inSync allowed ledgerData
  | commandCatchup configuration =>
      exact commandCatchup_keeps inSync configuration
  | resolveRange remoteCheckpoint =>
      exact resolveRange_keeps inSync remoteCheckpoint
  | verifyEndOfRange candidate =>
      exact verifyEndOfRange_keeps inSync candidate
  | applyBuckets mFirstVerified =>
      exact applyBuckets_keeps inSync mFirstVerified
  | startReplay => exact startReplay_keeps inSync
  | replayLedger hHeader txset =>
      exact replayLedger_keeps inSync injective allowed txset
  | failReplay => exact failReplay_keeps inSync
  | finishCatchup => exact finishCatchup_keeps inSync
  | failCatchup => exact failCatchup_keeps inSync

theorem reachable_inSync {lm : LedgerManager η ν τ ρ}
    (injective : Function.Injective closing.getHash)
    (reached : Reachable closing lm) : InSync closing lm := by
  induction reached with
  | loaded hashed => exact inSync_loaded hashed
  | step reached allowed handled ih =>
      exact (handleInput_keeps injective ih allowed).of_ok handled

/-- What is to hold in every state of a run. -/
structure SyncSound (closing : Closing η ν τ ρ)
    (lm : LedgerManager η ν τ ρ) : Prop where
  noAssertion : ∀ input after, Allowed closing lm input →
    handleInput closing input lm ≠ .error .assertion after
  buffer : lm.mState ≠ .catchingUp → lm.mSyncingLedgers = []
  contiguous : Contiguous lm.mSyncingLedgers
  target : ∀ work, lm.mCatchupWork = some work →
    ∀ front ∈ lm.mSyncingLedgers.head?,
      front.ledgerSeq = work.mCatchupConfiguration.toLedger + 1
  linked : lm.changes.IsChain (fun first second =>
    second.before = first.after)
  latest : ∀ change ∈ lm.changes.getLast?,
    change.after = lm.mLastClosedLedger
  follow : ∀ change ∈ lm.changes, ∀ lcd, change.closed = some lcd →
    change.Follows closing lcd

theorem reachable_syncSound
    (injective : Function.Injective closing.getHash)
    {lm : LedgerManager η ν τ ρ} (reached : Reachable closing lm) :
    SyncSound closing lm := by
  have inSync := reachable_inSync injective reached
  refine ⟨?_, inSync.idle, inSync.contiguous, ?_, inSync.ledgers.linked,
    inSync.ledgers.latest, inSync.ledgers.follow⟩
  · intro input after allowed failed
    exact (handleInput_keeps injective inSync allowed).of_error failed rfl
  · intro work running front isFront
    have serves := inSync.serves work running
    cases manual : work.mManualCatchup with
    | true =>
        rw [serves.manual manual] at isFront
        cases isFront
    | false =>
        obtain ⟨-, other, isOther, next⟩ := serves.target manual
        obtain rfl := Option.some_inj.mp (isOther.symm.trans isFront)
        exact next

end Runs

/-! ## A run through a catchup, and one that fails -/

/-- Headers over numbers, with the pairing function for a hash. -/
def sampleClosing : Closing ℕ ℕ ℕ ℕ :=
  { getHash := fun header =>
      Nat.pair header.previousLedgerHash (Nat.pair header.ledgerSeq.toNat
        (Nat.pair header.rest.scpValue header.rest.fields))
    isValid := fun _ => true
    txSetHash := id
    apply := fun _ transactions => .ok transactions
    catchupCount := 0 }

theorem sampleClosing_injective :
    Function.Injective sampleClosing.getHash := by
  intro first second same
  obtain ⟨firstPrevious, firstSeq, firstValue, firstFields⟩ := first
  obtain ⟨secondPrevious, secondSeq, secondValue, secondFields⟩ := second
  simp only [sampleClosing, Nat.pair_eq_pair] at same
  obtain ⟨rfl, seq, rfl, rfl⟩ := same
  rw [UInt32.toNat.inj seq]

def sampleHistory (ledgerSeq : UInt32) : HistoryEntry ℕ ℕ ℕ :=
  let header : Header ℕ ℕ ℕ :=
    { previousLedgerHash := 0, ledgerSeq, rest := ⟨0, 0⟩ }
  { header, hash := sampleClosing.getHash header }

def sampleLedger (ledgerSeq : UInt32) (previousLedgerHash : ℕ) :
    LedgerCloseData ℕ ℕ ℕ :=
  { ledgerSeq
    txSet := { previousLedgerHash, contentsHash := 0, transactions := 0 }
    value := 0 }

def sampleStart : LedgerManager ℕ ℕ ℕ ℕ :=
  .loaded (sampleHistory 5)

/-- The network is at ledger 11 already when the manager hears of it. -/
def outOfSyncInput : ManagerInput ℕ ℕ ℕ ℕ :=
  .valueExternalized (sampleLedger 11 (sampleHistory 10).hash)

def outOfSync : LedgerManager ℕ ℕ ℕ ℕ :=
  { sampleStart with
    mSyncingLedgers := [sampleLedger 11 (sampleHistory 10).hash]
    mState := .catchingUp
    mCatchupWork := some ⟨⟨10, 0⟩, false, .started⟩ }

theorem outOfSync_reachable : Reachable sampleClosing outOfSync := by
  have start : Reachable sampleClosing sampleStart := .loaded rfl
  have allowed : Allowed sampleClosing sampleStart
      outOfSyncInput := by
    rintro ⟨work, impossible, _⟩
    cases impossible
  exact .step start allowed rfl

theorem outOfSync_sound : SyncSound sampleClosing outOfSync :=
  reachable_syncSound sampleClosing_injective outOfSync_reachable

/-- A downloaded entry for ledger 6 whose header is not the one that its hash
was taken of. -/
def tamperedEntry : HistoryEntry ℕ ℕ ℕ :=
  let header : Header ℕ ℕ ℕ :=
    { previousLedgerHash := (sampleHistory 5).hash
      ledgerSeq := 6
      rest := ⟨0, 0⟩ }
  { header := { header with rest := ⟨0, 1⟩ }
    hash := sampleClosing.getHash header }

/-- The manager is in sync, a catchup to ledger 10 is asked for and ledger 7
is externalized while it is running; it is buffered, and the check of the
candidate at the end of the range aborts the process.  Or the manager is out of
sync from ledger 7 on and replays an entry that was accepted as the first one;
the ledger it closes is not the one with the header of that entry. -/
theorem catchup_aborts :
    (∃ buffered failed : LedgerManager ℕ ℕ ℕ ℕ,
      handleInputs sampleClosing
        [.valueExternalized (sampleLedger 6 (sampleHistory 5).hash),
          .commandCatchup ⟨10, 0⟩,
          .valueExternalized (sampleLedger 7 0),
          .resolveRange 63] sampleStart = .ok () buffered ∧
      buffered.mSyncingLedgers.map LedgerCloseData.ledgerSeq = [7] ∧
      buffered.mCatchupWork.map
        (fun work => work.mCatchupConfiguration.toLedger) = some 10 ∧
      handleInput sampleClosing (.verifyEndOfRange (sampleHistory 10))
        buffered = .error .assertion failed) ∧
    ∃ replayed failed : LedgerManager ℕ ℕ ℕ ℕ,
      handleInputs sampleClosing
        [.valueExternalized (sampleLedger 7 tamperedEntry.hash),
          .resolveRange 63,
          .verifyEndOfRange tamperedEntry,
          .startReplay,
          .replayLedger tamperedEntry
            (sampleLedger 6 (sampleHistory 5).hash).txSet]
        sampleStart = .ok () replayed ∧
      replayed.changes.map
        (fun change => change.after.header.ledgerSeq) = [6] ∧
      handleInput sampleClosing .finishCatchup replayed =
        .error .assertion failed :=
  ⟨⟨_, _, rfl, rfl, rfl, rfl⟩, ⟨_, _, rfl, rfl, rfl⟩⟩

end StellarCore.Ledger
