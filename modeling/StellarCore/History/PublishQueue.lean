import Mathlib.Data.List.AList
import Mathlib.Tactic

/-!
# The publish queue and the buckets it keeps

`PublishQueueBuckets.cpp`, the functions of `HistoryManagerImpl.cpp` that
queue and publish checkpoints, and `forgetUnreferencedBuckets`.  The table
`publishqueue` outlives a process; the counts, the flag that they were filled
and the publication in progress do not.  Transfers to the archives, metrics
and logging are left out.
-/

namespace StellarCore.History

/-- The hashes of a level of a `HistoryArchiveState`; `next` is what
`FutureBucket::getHashes` gives. -/
structure HistoryStateBucket (η : Type) where
  curr : η
  next : List η
  snap : η
  deriving DecidableEq, Repr

structure HistoryArchiveState (η : Type) where
  currentLedger : ℕ
  currentBuckets : List (HistoryStateBucket η)
  deriving DecidableEq, Repr

variable {η : Type} [DecidableEq η]

/-- A set; nothing depends on its order. -/
def HistoryArchiveState.allBuckets (has : HistoryArchiveState η) : List η :=
  (has.currentBuckets.flatMap
    (fun level => level.curr :: level.snap :: level.next)).dedup

/-! ## `PublishQueueBuckets` -/

abbrev PublishQueueBuckets (η : Type) := AList (fun _ : η => ℤ)

namespace PublishQueueBuckets

def addBucket (mBucketUsage : PublishQueueBuckets η) (bucket : η) :
    PublishQueueBuckets η :=
  mBucketUsage.insert bucket ((mBucketUsage.lookup bucket).getD 0 + 1)

def addBuckets (mBucketUsage : PublishQueueBuckets η) (buckets : List η) :
    PublishQueueBuckets η :=
  buckets.foldl addBucket mBucketUsage

def removeBucket (mBucketUsage : PublishQueueBuckets η) (bucket : η) :
    PublishQueueBuckets η :=
  match mBucketUsage.lookup bucket with
  | none => mBucketUsage
  | some usage =>
      if usage - 1 = 0 then mBucketUsage.erase bucket
      else mBucketUsage.insert bucket (usage - 1)

def removeBuckets (mBucketUsage : PublishQueueBuckets η)
    (buckets : List η) : PublishQueueBuckets η :=
  buckets.foldl removeBucket mBucketUsage

end PublishQueueBuckets

/-! ## `HistoryManagerImpl` -/

/-- A publication in progress and the buckets its state had at the start. -/
structure PublishWork (η : Type) where
  ledgerSeq : ℕ
  mOriginalBuckets : List η
  deriving DecidableEq, Repr

structure HistoryManager (η : Type) where
  publishqueue : List (HistoryArchiveState η)
  mPublishQueueBuckets : PublishQueueBuckets η
  mPublishQueueBucketsFilled : Bool
  mPublishWork : Option (PublishWork η)

namespace HistoryManager

/-- A process that starts on a table. -/
def start (publishqueue : List (HistoryArchiveState η)) :
    HistoryManager η :=
  { publishqueue := publishqueue
    mPublishQueueBuckets := ∅
    mPublishQueueBucketsFilled := false
    mPublishWork := none }

def takeSnapshotAndPublish (manager : HistoryManager η)
    (has : HistoryArchiveState η) : HistoryManager η :=
  match manager.mPublishWork with
  | some _ => manager
  | none =>
      { manager with
        mPublishWork := some
          { ledgerSeq := has.currentLedger
            mOriginalBuckets := has.allBuckets } }

/-- The ledger is the primary key of the table: a second row for it throws,
before the counts change. -/
def queueCurrentHistory (manager : HistoryManager η)
    (has : HistoryArchiveState η) : HistoryManager η :=
  if manager.publishqueue.any
      (fun row => row.currentLedger = has.currentLedger) then manager
  else
    takeSnapshotAndPublish
      { manager with
        publishqueue := manager.publishqueue ++ [has]
        mPublishQueueBuckets :=
          manager.mPublishQueueBuckets.addBuckets has.allBuckets } has

/-- `SELECT state FROM publishqueue ORDER BY ledger ASC LIMIT 1`. -/
def oldest : List (HistoryArchiveState η) → Option (HistoryArchiveState η)
  | [] => none
  | row :: rows =>
      match oldest rows with
      | none => some row
      | some other =>
          if row.currentLedger ≤ other.currentLedger then some row
          else some other

def publishQueuedHistory (manager : HistoryManager η) :
    HistoryManager η :=
  match oldest manager.publishqueue with
  | none => manager
  | some has => manager.takeSnapshotAndPublish has

def loadBucketsReferencedByPublishQueue (manager : HistoryManager η) :
    List η :=
  (manager.publishqueue.flatMap HistoryArchiveState.allBuckets).dedup

def fill (manager : HistoryManager η) : HistoryManager η :=
  if manager.mPublishQueueBucketsFilled then manager
  else
    { manager with
      mPublishQueueBuckets := manager.mPublishQueueBuckets.addBuckets
        manager.loadBucketsReferencedByPublishQueue
      mPublishQueueBucketsFilled := true }

def getBucketsReferencedByPublishQueue (manager : HistoryManager η) :
    List η × HistoryManager η :=
  (manager.fill.mPublishQueueBuckets.keys, manager.fill)

def historyPublished (manager : HistoryManager η) (ledgerSeq : ℕ)
    (originalBuckets : List η) (success : Bool) : HistoryManager η :=
  let manager :=
    if success then
      { manager with
        publishqueue := manager.publishqueue.filter
          (fun row => row.currentLedger ≠ ledgerSeq)
        mPublishQueueBuckets :=
          manager.mPublishQueueBuckets.removeBuckets originalBuckets }
    else manager
  { manager with mPublishWork := none }

/-- `BucketManagerImpl::forgetUnreferencedBuckets`: the shared buckets that
stay.  `listed` are the hashes of the bucket list, `inUse` tells which
buckets something else still holds. -/
def forgetUnreferencedBuckets (manager : HistoryManager η)
    (listed : List η) (inUse : η → Bool) (mSharedBuckets : List η) :
    List η × HistoryManager η :=
  let (pub, manager) := manager.getBucketsReferencedByPublishQueue
  (mSharedBuckets.filter
    (fun hash => decide (hash ∈ listed) || decide (hash ∈ pub) ||
      inUse hash), manager)

end HistoryManager

inductive PublishEvent (η : Type) where
  | queueCurrentHistory (has : HistoryArchiveState η)
  | publishQueuedHistory
  | finishPublish (success : Bool)
  | forgetUnreferencedBuckets
  | restart

namespace HistoryManager

def step (manager : HistoryManager η) : PublishEvent η → HistoryManager η
  | .queueCurrentHistory has => manager.queueCurrentHistory has
  | .publishQueuedHistory => manager.publishQueuedHistory
  | .finishPublish success =>
      match manager.mPublishWork with
      | none => manager
      | some work =>
          manager.historyPublished work.ledgerSeq work.mOriginalBuckets
            success
  | .forgetUnreferencedBuckets => manager.fill
  | .restart => start manager.publishqueue

def run (manager : HistoryManager η) (events : List (PublishEvent η)) :
    HistoryManager η :=
  events.foldl step manager

/-! ## What is retained -/

/-- Every bucket of a queued state is among those that are kept for the
queue. -/
def Retains (manager : HistoryManager η) : Prop :=
  ∀ has ∈ manager.publishqueue, ∀ bucket ∈ has.allBuckets,
    bucket ∈ manager.getBucketsReferencedByPublishQueue.1

/-- The number of queued states that need a bucket. -/
def references (publishqueue : List (HistoryArchiveState η)) (bucket : η) :
    ℕ :=
  publishqueue.countP (fun has => bucket ∈ has.allBuckets)

def usage (mBucketUsage : PublishQueueBuckets η) (bucket : η) : ℤ :=
  (mBucketUsage.lookup bucket).getD 0

/-- When the counts are filled from the table, which adds one for every
bucket in it, one is enough. -/
def FillsEnough (manager : HistoryManager η) : Prop :=
  manager.mPublishQueueBucketsFilled = false →
    ∀ bucket, references manager.publishqueue bucket ≤
      usage manager.mPublishQueueBuckets bucket + 1

/-- No fill of the counts in the run falls short. -/
def RunFillsEnough (manager : HistoryManager η) :
    List (PublishEvent η) → Prop
  | [] => True
  | event :: events =>
      (event = .forgetUnreferencedBuckets → manager.FillsEnough) ∧
        RunFillsEnough (manager.step event) events

/-! ## Counting -/

/-- A bucket that is not needed any more is not in the map. -/
def Positive (mBucketUsage : PublishQueueBuckets η) : Prop :=
  ∀ bucket count, mBucketUsage.lookup bucket = some count → 0 < count

section Usage

variable {mBucketUsage : PublishQueueBuckets η}

private theorem usage_nonneg (positive : Positive mBucketUsage)
    (bucket : η) : 0 ≤ usage mBucketUsage bucket := by
  unfold usage
  cases found : mBucketUsage.lookup bucket with
  | none => exact Int.le_refl 0
  | some count => exact (positive bucket count found).le

private theorem positive_addBuckets (positive : Positive mBucketUsage)
    (buckets : List η) : Positive (mBucketUsage.addBuckets buckets) := by
  unfold PublishQueueBuckets.addBuckets
  induction buckets generalizing mBucketUsage with
  | nil => exact positive
  | cons bucket buckets ih =>
      rw [List.foldl_cons]
      apply ih
      intro asked count found
      unfold PublishQueueBuckets.addBucket at found
      by_cases same : asked = bucket
      · subst same
        rw [AList.lookup_insert, Option.some.injEq] at found
        have before := usage_nonneg positive asked
        unfold usage at before
        omega
      · rw [AList.lookup_insert_ne same] at found
        exact positive asked count found

private theorem positive_removeBucket (positive : Positive mBucketUsage)
    (bucket : η) : Positive (mBucketUsage.removeBucket bucket) := by
  intro asked count found
  unfold PublishQueueBuckets.removeBucket at found
  cases before : mBucketUsage.lookup bucket with
  | none =>
      rw [before] at found
      exact positive asked count found
  | some old =>
      have above := positive bucket old before
      rw [before] at found
      simp only at found
      by_cases same : asked = bucket
      · subst same
        split at found
        · rw [AList.lookup_erase] at found
          cases found
        · rw [AList.lookup_insert, Option.some.injEq] at found
          omega
      · split at found
        · rw [AList.lookup_erase_ne same] at found
          exact positive asked count found
        · rw [AList.lookup_insert_ne same] at found
          exact positive asked count found

private theorem positive_removeBuckets (positive : Positive mBucketUsage)
    (buckets : List η) :
    Positive (mBucketUsage.removeBuckets buckets) := by
  unfold PublishQueueBuckets.removeBuckets
  induction buckets generalizing mBucketUsage with
  | nil => exact positive
  | cons bucket buckets ih =>
      exact ih (positive_removeBucket positive bucket)

private theorem usage_addBucket (bucket asked : η) :
    usage (mBucketUsage.addBucket bucket) asked =
      usage mBucketUsage asked + if asked = bucket then 1 else 0 := by
  unfold usage PublishQueueBuckets.addBucket
  by_cases same : asked = bucket
  · subst same
    rw [AList.lookup_insert, if_pos rfl]
    rfl
  · rw [AList.lookup_insert_ne same, if_neg same, Int.add_zero]

private theorem usage_addBuckets
    (mBucketUsage : PublishQueueBuckets η) {buckets : List η}
    (distinct : buckets.Nodup) (asked : η) :
    usage (mBucketUsage.addBuckets buckets) asked =
      usage mBucketUsage asked + if asked ∈ buckets then 1 else 0 := by
  unfold PublishQueueBuckets.addBuckets
  induction buckets generalizing mBucketUsage with
  | nil => simp
  | cons bucket buckets ih =>
      obtain ⟨fresh, rest⟩ := List.nodup_cons.mp distinct
      rw [List.foldl_cons, ih _ rest, usage_addBucket]
      by_cases same : asked = bucket
      · subst same
        simp [fresh]
      · simp [same]

private theorem usage_removeBucket
    (mBucketUsage : PublishQueueBuckets η) (bucket asked : η) :
    usage mBucketUsage asked - (if asked = bucket then 1 else 0) ≤
      usage (mBucketUsage.removeBucket bucket) asked := by
  unfold usage PublishQueueBuckets.removeBucket
  cases before : mBucketUsage.lookup bucket with
  | none =>
      simp only
      split
      · omega
      · omega
  | some old =>
      simp only
      by_cases same : asked = bucket
      · subst same
        rw [before, if_pos rfl]
        split
        · rw [AList.lookup_erase, Option.getD_some, Option.getD_none]
          omega
        · rw [AList.lookup_insert, Option.getD_some, Option.getD_some]
      · rw [if_neg same]
        split
        · rw [AList.lookup_erase_ne same]
          omega
        · rw [AList.lookup_insert_ne same]
          omega

private theorem usage_removeBuckets
    (mBucketUsage : PublishQueueBuckets η) {buckets : List η}
    (distinct : buckets.Nodup) (asked : η) :
    usage mBucketUsage asked - (if asked ∈ buckets then 1 else 0) ≤
      usage (mBucketUsage.removeBuckets buckets) asked := by
  unfold PublishQueueBuckets.removeBuckets
  induction buckets generalizing mBucketUsage with
  | nil => simp
  | cons bucket buckets ih =>
      obtain ⟨fresh, rest⟩ := List.nodup_cons.mp distinct
      have one := usage_removeBucket mBucketUsage bucket asked
      have others := ih (mBucketUsage.removeBucket bucket) rest
      rw [List.foldl_cons]
      by_cases same : asked = bucket
      · subst same
        simp only [fresh, if_false, if_true, List.mem_cons_self] at *
        omega
      · simp only [same, List.mem_cons, false_or, if_false] at *
        omega

end Usage

private theorem references_append (rows : List (HistoryArchiveState η))
    (has : HistoryArchiveState η) (bucket : η) :
    references (rows ++ [has]) bucket =
      references rows bucket + if bucket ∈ has.allBuckets then 1 else 0 := by
  unfold references
  rw [List.countP_append, List.countP_singleton]
  simp

/-- Deleting the row of a ledger takes away what it needed. -/
private theorem references_filter {rows : List (HistoryArchiveState η)}
    {has : HistoryArchiveState η} (member : has ∈ rows) (bucket : η) :
    references (rows.filter
        (fun row => row.currentLedger ≠ has.currentLedger)) bucket +
      (if bucket ∈ has.allBuckets then 1 else 0) ≤
        references rows bucket := by
  unfold references
  induction rows with
  | nil => cases member
  | cons row rows ih =>
      rcases List.mem_cons.mp member with here | later
      · subst here
        have fewer : (rows.filter
            (fun row => row.currentLedger ≠ has.currentLedger)).countP
              (fun row => decide (bucket ∈ row.allBuckets)) ≤
            rows.countP (fun row => decide (bucket ∈ row.allBuckets)) :=
          List.filter_sublist.countP_le
        simp only [ne_eq, not_true_eq_false, decide_false,
          Bool.false_eq_true, not_false_eq_true, List.filter_cons_of_neg,
          List.countP_cons, decide_eq_true_eq] at fewer ⊢
        omega
      · have smaller := ih later
        by_cases same : row.currentLedger = has.currentLedger
        · simp only [same, ne_eq, not_true_eq_false, decide_false,
            Bool.false_eq_true, not_false_eq_true, List.filter_cons_of_neg,
            List.countP_cons] at smaller ⊢
          omega
        · simp only [ne_eq, same, not_false_eq_true, decide_true,
            List.filter_cons_of_pos, List.countP_cons] at smaller ⊢
          omega

/-- The counts cover the table once they are filled. -/
structure Counted (manager : HistoryManager η) : Prop where
  positive : Positive manager.mPublishQueueBuckets
  work : ∀ work, manager.mPublishWork = some work →
    ∃ has ∈ manager.publishqueue, has.currentLedger = work.ledgerSeq ∧
      has.allBuckets = work.mOriginalBuckets
  enough : manager.mPublishQueueBucketsFilled = true →
    ∀ bucket, references manager.publishqueue bucket ≤
      usage manager.mPublishQueueBuckets bucket

private theorem mem_of_usage {mBucketUsage : PublishQueueBuckets η}
    {bucket : η} (some : 0 < usage mBucketUsage bucket) :
    bucket ∈ mBucketUsage.keys := by
  unfold usage at some
  cases found : mBucketUsage.lookup bucket with
  | none =>
      rw [found, Option.getD_none] at some
      omega
  | some count =>
      exact AList.mem_keys.mp (AList.lookup_isSome.mp
        (by rw [found]; rfl))

private theorem mem_addBuckets {mBucketUsage : PublishQueueBuckets η}
    {buckets : List η} {bucket : η}
    (member : bucket ∈ mBucketUsage.keys ∨ bucket ∈ buckets) :
    bucket ∈ (mBucketUsage.addBuckets buckets).keys := by
  unfold PublishQueueBuckets.addBuckets
  induction buckets generalizing mBucketUsage with
  | nil =>
      rcases member with before | impossible
      · exact before
      · exact absurd impossible List.not_mem_nil
  | cons first buckets ih =>
      rw [List.foldl_cons]
      apply ih
      rw [← AList.mem_keys, PublishQueueBuckets.addBucket, AList.mem_insert,
        AList.mem_keys]
      rcases member with before | added
      · exact .inl (.inr before)
      · rcases List.mem_cons.mp added with here | later
        · exact .inl (.inl here)
        · exact .inr later

theorem Counted.retains {manager : HistoryManager η}
    (counted : manager.Counted) : manager.Retains := by
  intro has queued bucket needed
  unfold getBucketsReferencedByPublishQueue fill
  split
  · rename_i filled
    apply mem_of_usage
    have covered := counted.enough filled bucket
    have one : 0 < references manager.publishqueue bucket :=
      List.countP_pos_iff.mpr ⟨has, queued, decide_eq_true needed⟩
    omega
  · apply mem_addBuckets
    right
    rw [loadBucketsReferencedByPublishQueue, List.mem_dedup,
      List.mem_flatMap]
    exact ⟨has, queued, needed⟩

/-! ## Steps and runs -/

section Steps

variable {manager : HistoryManager η}

private theorem start_counted (rows : List (HistoryArchiveState η)) :
    (start rows).Counted where
  positive := by
    intro bucket count found
    cases found
  work := by
    intro work none
    cases none
  enough := by
    intro impossible
    cases impossible

private theorem takeSnapshotAndPublish_counted (counted : manager.Counted)
    {has : HistoryArchiveState η} (queued : has ∈ manager.publishqueue) :
    (manager.takeSnapshotAndPublish has).Counted := by
  unfold takeSnapshotAndPublish
  split
  · exact counted
  · refine ⟨counted.positive, ?_, counted.enough⟩
    intro work started
    rw [Option.some.injEq] at started
    subst started
    exact ⟨has, queued, rfl, rfl⟩

private theorem allBuckets_nodup (has : HistoryArchiveState η) :
    has.allBuckets.Nodup :=
  List.nodup_dedup _

private theorem queueCurrentHistory_counted (counted : manager.Counted)
    (has : HistoryArchiveState η) :
    (manager.queueCurrentHistory has).Counted := by
  unfold queueCurrentHistory
  split
  · exact counted
  · apply takeSnapshotAndPublish_counted
    · constructor
      · exact positive_addBuckets counted.positive _
      · intro work started
        obtain ⟨row, member, facts⟩ := counted.work work started
        exact ⟨row, List.mem_append_left _ member, facts⟩
      · intro filled bucket
        have covered := counted.enough filled bucket
        rw [references_append, usage_addBuckets _ (allBuckets_nodup has)]
        split
        · push_cast
          omega
        · omega
    · exact List.mem_append_right _ List.mem_cons_self

omit [DecidableEq η] in
private theorem oldest_mem {rows : List (HistoryArchiveState η)}
    {has : HistoryArchiveState η} (found : oldest rows = some has) :
    has ∈ rows := by
  induction rows generalizing has with
  | nil => cases found
  | cons row rows ih =>
      rw [oldest] at found
      cases rest : oldest rows with
      | none =>
          rw [rest, Option.some.injEq] at found
          subst found
          exact List.mem_cons_self
      | some other =>
          rw [rest] at found
          simp only at found
          split at found
          · rw [Option.some.injEq] at found
            subst found
            exact List.mem_cons_self
          · rw [Option.some.injEq] at found
            subst found
            exact List.mem_cons_of_mem row (ih rest)

private theorem publishQueuedHistory_counted (counted : manager.Counted) :
    manager.publishQueuedHistory.Counted := by
  unfold publishQueuedHistory
  split
  · exact counted
  · rename_i has found
    exact takeSnapshotAndPublish_counted counted (oldest_mem found)

private theorem historyPublished_counted (counted : manager.Counted)
    {work : PublishWork η} (running : manager.mPublishWork = some work)
    (success : Bool) :
    (manager.historyPublished work.ledgerSeq work.mOriginalBuckets
      success).Counted := by
  obtain ⟨has, queued, ledger, buckets⟩ := counted.work work running
  constructor
  · cases success with
    | false => exact counted.positive
    | true => exact positive_removeBuckets counted.positive _
  · intro other none
    cases none
  · cases success with
    | false => exact counted.enough
    | true =>
        intro filled bucket
        have covered := counted.enough filled bucket
        have fewer := references_filter queued bucket
        have kept := usage_removeBuckets manager.mPublishQueueBuckets
          (allBuckets_nodup has) bucket
        rw [ledger] at fewer
        rw [buckets] at fewer kept
        show (references (manager.publishqueue.filter
          (fun row => row.currentLedger ≠ work.ledgerSeq)) bucket : ℤ) ≤
            usage (manager.mPublishQueueBuckets.removeBuckets
              work.mOriginalBuckets) bucket
        split at fewer
        · rw [if_pos (by assumption)] at kept
          omega
        · rw [if_neg (by assumption)] at kept
          omega

/-- A fill that does not fall short. -/
private theorem fill_counted (counted : manager.Counted)
    (enough : manager.FillsEnough) : manager.fill.Counted := by
  unfold fill
  split
  · exact counted
  · rename_i unfilled
    refine ⟨positive_addBuckets counted.positive _, counted.work, ?_⟩
    intro _ bucket
    have covered := enough (Bool.eq_false_iff.mpr unfilled) bucket
    have added := usage_addBuckets manager.mPublishQueueBuckets
      (List.nodup_dedup (manager.publishqueue.flatMap
        HistoryArchiveState.allBuckets)) bucket
    show (references manager.publishqueue bucket : ℤ) ≤
      usage (manager.mPublishQueueBuckets.addBuckets
        manager.loadBucketsReferencedByPublishQueue) bucket
    rw [loadBucketsReferencedByPublishQueue, added]
    split
    · exact covered
    · rename_i absent
      have none : references manager.publishqueue bucket = 0 := by
        apply List.countP_eq_zero.mpr
        intro has queued needed
        apply absent
        rw [List.mem_dedup, List.mem_flatMap]
        exact ⟨has, queued, of_decide_eq_true needed⟩
      have nonneg := usage_nonneg counted.positive bucket
      omega

private theorem step_counted (counted : manager.Counted)
    {event : PublishEvent η}
    (enough : event = .forgetUnreferencedBuckets → manager.FillsEnough) :
    (manager.step event).Counted := by
  cases event with
  | queueCurrentHistory has => exact queueCurrentHistory_counted counted has
  | publishQueuedHistory => exact publishQueuedHistory_counted counted
  | finishPublish success =>
      rw [step]
      split
      · exact counted
      · rename_i work running
        exact historyPublished_counted counted running success
  | forgetUnreferencedBuckets => exact fill_counted counted (enough rfl)
  | restart => exact start_counted _

private theorem run_counted {events : List (PublishEvent η)}
    (counted : manager.Counted) (enough : manager.RunFillsEnough events) :
    (manager.run events).Counted := by
  induction events generalizing manager with
  | nil => exact counted
  | cons event events ih =>
      exact ih (step_counted counted enough.1) enough.2

private theorem RunFillsEnough.take {events : List (PublishEvent η)}
    (enough : manager.RunFillsEnough events) (count : ℕ) :
    manager.RunFillsEnough (events.take count) := by
  induction events generalizing manager count with
  | nil =>
      rw [List.take_nil]
      exact enough
  | cons event events ih =>
      cases count with
      | zero => trivial
      | succ count =>
          rw [List.take_succ_cons]
          exact ⟨enough.1, ih enough.2 count⟩

end Steps

/-- As long as no fill of the counts falls short, every bucket of a queued
state is kept, at every moment of a run. -/
theorem run_retains {events : List (PublishEvent η)}
    (enough : (start ([] : List (HistoryArchiveState η))).RunFillsEnough
      events) (moment : ℕ) :
    ((start []).run (events.take moment)).Retains ∧
      ∀ (listed : List η) (inUse : η → Bool) (mSharedBuckets : List η),
        ∀ has ∈ ((start []).run (events.take moment)).publishqueue,
          ∀ bucket ∈ has.allBuckets, bucket ∈ mSharedBuckets →
            bucket ∈ (((start []).run
              (events.take moment)).forgetUnreferencedBuckets listed inUse
                mSharedBuckets).1 := by
  have retains := (run_counted (start_counted [])
    (enough.take moment)).retains
  refine ⟨retains, ?_⟩
  intro listed inUse mSharedBuckets has queued bucket needed shared
  have kept : decide (bucket ∈ ((start []).run
      (events.take moment)).fill.mPublishQueueBuckets.keys) = true :=
    decide_eq_true (retains has queued bucket needed)
  refine List.mem_filter.mpr ⟨shared, ?_⟩
  show (_ || decide _ || _) = true
  rw [kept, Bool.or_true, Bool.true_or]

/-- A checkpoint with a bucket of its own and the bucket 1. -/
def checkpoint (ledger : ℕ) (own : ℕ) : HistoryArchiveState ℕ :=
  { currentLedger := ledger
    currentBuckets := [{ curr := own, next := [], snap := 1 }] }

/-- A checkpoint is queued before a restart, another one after it. -/
def quietRun : List (PublishEvent ℕ) :=
  [.queueCurrentHistory (checkpoint 63 2), .restart,
    .forgetUnreferencedBuckets, .queueCurrentHistory (checkpoint 127 3),
    .publishQueuedHistory, .finishPublish true]

theorem quietRun_fillsEnough : (start []).RunFillsEnough quietRun := by
  refine ⟨nofun, nofun, ?_, nofun, nofun, nofun, trivial⟩
  intro _ _ bucket
  have few : references [checkpoint 63 2] bucket ≤ 1 :=
    List.countP_le_length
  show (references [checkpoint 63 2] bucket : ℤ) ≤ 0 + 1
  omega

theorem quietRun_retains :
    (start []).RunFillsEnough quietRun ∧
      ((start []).run (quietRun.take 6)).Retains :=
  ⟨quietRun_fillsEnough, (run_retains quietRun_fillsEnough 6).1⟩

/-- Both checkpoints are queued before the restart; the bucket they share is
counted once, and the first publication takes it away. -/
def sharedRun : List (PublishEvent ℕ) :=
  [.queueCurrentHistory (checkpoint 63 2),
    .queueCurrentHistory (checkpoint 127 3), .restart,
    .forgetUnreferencedBuckets, .publishQueuedHistory, .finishPublish true]

theorem sharedRun_drops :
    checkpoint 127 3 ∈ ((start []).run sharedRun).publishqueue ∧
      1 ∈ (checkpoint 127 3).allBuckets ∧
      1 ∉ ((start []).run sharedRun).mPublishQueueBuckets ∧
      ¬ ((start []).run sharedRun).Retains ∧
      (((start []).run sharedRun).forgetUnreferencedBuckets []
        (fun _ => false) [1, 3]).1 = [3] := by
  refine ⟨by decide, by decide, by decide, ?_, by decide⟩
  intro retains
  have kept := retains (checkpoint 127 3) (by decide) 1 (by decide)
  exact absurd kept (by decide)

end HistoryManager

end StellarCore.History
