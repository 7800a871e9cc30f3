import StellarCore.Buckets.HistoryArchive
import StellarCore.Buckets.SameLists

/-!
# Merges across a restart

The hashes of the inputs of a merge are saved, but not the flag that says
whether dead records are kept: after a restart the merge runs with the flag
that happens to be in the memory of a new object.
-/

namespace StellarCore.Buckets

variable {κ ε η : Type} [LinearOrder κ]

section Dead

variable (keyOf : ε → κ)

/-- The merge would write a dead record if it keeps them. -/
def DeadReaches (curr snap : Bucket κ ε) (shadows : List (Bucket κ ε)) :
    Prop :=
  ∃ key dead, ¬ Shadowed keyOf shadows key ∧
    (lookup keyOf snap key).or (lookup keyOf curr key) =
      some (.deadEntry dead)

def FutureBucket.MergesDead (fb : FutureBucket κ ε η) : Prop :=
  ∃ curr snap, fb.mInputCurrBucket = some curr ∧
    fb.mInputSnapBucket = some snap ∧
    DeadReaches keyOf curr snap fb.mInputShadowBuckets

variable {keyOf}

/-- The flag makes a difference exactly where there is a dead record to
write. -/
theorem merge_true_eq_false_iff {curr snap : Bucket κ ε}
    {shadows : List (Bucket κ ε)}
    (inputs : FutureBucket.Inputs keyOf curr snap shadows) :
    merge keyOf curr snap shadows true =
        merge keyOf curr snap shadows false ↔
      ¬ DeadReaches keyOf curr snap shadows := by
  have sorted := candidates_sorted inputs.curr inputs.snap
  constructor
  · rintro same ⟨key, dead, clear, found⟩
    obtain ⟨kept, mergesKept, -, foundKept⟩ := merge_spec inputs.curr
      inputs.snap inputs.shadows true
    obtain ⟨dropped, mergesDropped, -, foundDropped⟩ := merge_spec
      inputs.curr inputs.snap inputs.shadows false
    rw [mergesKept, mergesDropped, Option.some.injEq] at same
    have whenKept := foundKept key
    have whenDropped := foundDropped key
    rw [if_neg clear, found] at whenKept whenDropped
    rw [same, whenDropped] at whenKept
    simp [Buckets.kept, BucketEntry.isDead] at whenKept
  · intro noDead
    rw [merge_eq inputs.curr inputs.snap inputs.shadows,
      merge_eq inputs.curr inputs.snap inputs.shadows]
    congr 1
    apply List.filter_congr
    intro entry member
    by_cases hit : Shadowed keyOf shadows (entry.key keyOf)
    · simp [hit]
    · cases entry with
      | liveEntry entry => simp [kept, BucketEntry.isDead]
      | deadEntry dead =>
          refine absurd ⟨dead, dead, hit, ?_⟩ noDead
          rw [← lookup_candidates inputs.curr inputs.snap]
          exact (lookup_eq_some_iff sorted).mpr ⟨member, rfl⟩

theorem merge_eq_merge_iff {curr snap : Bucket κ ε}
    {shadows : List (Bucket κ ε)}
    (inputs : FutureBucket.Inputs keyOf curr snap shadows)
    (flag other : Bool) :
    merge keyOf curr snap shadows flag =
        merge keyOf curr snap shadows other ↔
      flag = other ∨ ¬ DeadReaches keyOf curr snap shadows := by
  have decides := merge_true_eq_false_iff inputs
  cases flag with
  | true =>
      cases other with
      | true => simp
      | false => simpa using decides
  | false =>
      cases other with
      | true => simpa [eq_comm] using decides
      | false => simp

end Dead

section Stages

variable [DecidableEq η] {bucketHash : Bucket κ ε → η} {keyOf : ε → κ}

/-- The merge of a level when its state is saved: one that is ready is saved
by its output. -/
inductive SavedAs (bucketHash : Bucket κ ε → η) (keyOf : ε → κ)
    (keepDeadEntries ready : Bool) :
    FutureBucket κ ε η → FutureBucket κ ε η → Prop
  | clear (flag : Bool) :
      SavedAs bucketHash keyOf keepDeadEntries ready
        (FutureBucket.new flag) (FutureBucket.new flag)
  | inputs {curr snap : Bucket κ ε} {shadows : List (Bucket κ ε)}
      {output : Bucket κ ε}
      (inputs : FutureBucket.Inputs keyOf curr snap shadows)
      (merges : merge keyOf curr snap shadows keepDeadEntries =
        some output) (notReady : ready = false) :
      SavedAs bucketHash keyOf keepDeadEntries ready
        (FutureBucket.merging bucketHash curr snap shadows
          keepDeadEntries output)
        (FutureBucket.merging bucketHash curr snap shadows
          keepDeadEntries output)
  | output {fb : FutureBucket κ ε η} {output : Bucket κ ε}
      (resolves : fb.Resolves bucketHash output)
      (isReady : fb.isMerging = true → ready = true) :
      SavedAs bucketHash keyOf keepDeadEntries ready fb
        (FutureBucket.resolved bucketHash keepDeadEntries output)

theorem LevelHolds.savedAs
    {writes : ℕ → κ → Option (BucketEntry κ ε)} {now i : ℕ}
    {level : BucketLevel κ ε η}
    (holds : LevelHolds bucketHash keyOf writes now i level)
    (ready : Bool) :
    ∃ saved,
      SavedAs bucketHash keyOf (keepsDead i) ready level.mNextCurr saved ∧
      (if (level.mNextCurr.isMerging && ready) = true then
        (level.mNextCurr.resolve bucketHash).map Prod.fst
        else some level.mNextCurr) = some saved := by
  rcases holds.next with ⟨⟨flag, clear⟩, -⟩ | ⟨-, output, delivers, -⟩
  · rw [clear]
    exact ⟨_, SavedAs.clear flag, rfl⟩
  · have resolves : level.mNextCurr.Resolves bucketHash output :=
      ⟨delivers.isLive, _, delivers.resolve_eq⟩
    by_cases saveOutput : (level.mNextCurr.isMerging && ready) = true
    · refine ⟨_, SavedAs.output resolves ?_, ?_⟩
      · exact fun _ => (Bool.and_eq_true_iff.mp saveOutput).2
      · rw [if_pos saveOutput, delivers.resolve_eq]
        rfl
    · rw [if_neg saveOutput]
      generalize level.mNextCurr = fb at *
      cases delivers with
      | merging inputs merges =>
          have notReady : ready = false := by
            simpa [FutureBucket.isMerging, FutureBucket.merging]
              using saveOutput
          exact ⟨_, SavedAs.inputs inputs merges notReady, rfl⟩
      | resolved output =>
          refine ⟨_, SavedAs.output resolves ?_, rfl⟩
          simp [FutureBucket.isMerging, FutureBucket.resolved]

/-- The merge of a level before and after the restart. -/
inductive ComesBackAs (bucketHash : Bucket κ ε → η) (keyOf : ε → κ)
    (keepDeadEntries ready uninitialized : Bool) :
    FutureBucket κ ε η → FutureBucket κ ε η → Prop
  | clear (flag : Bool) :
      ComesBackAs bucketHash keyOf keepDeadEntries ready uninitialized
        (FutureBucket.new flag) (FutureBucket.new uninitialized)
  | inputs {curr snap : Bucket κ ε} {shadows : List (Bucket κ ε)}
      {output restarted : Bucket κ ε}
      (inputs : FutureBucket.Inputs keyOf curr snap shadows)
      (merges : merge keyOf curr snap shadows keepDeadEntries =
        some output) (notReady : ready = false)
      (restarts : merge keyOf curr snap shadows uninitialized =
        some restarted) :
      ComesBackAs bucketHash keyOf keepDeadEntries ready uninitialized
        (FutureBucket.merging bucketHash curr snap shadows
          keepDeadEntries output)
        (FutureBucket.merging bucketHash curr snap shadows uninitialized
          restarted)
  | output {fb : FutureBucket κ ε η} {output : Bucket κ ε}
      (resolves : fb.Resolves bucketHash output)
      (isReady : fb.isMerging = true → ready = true) :
      ComesBackAs bucketHash keyOf keepDeadEntries ready uninitialized fb
        (FutureBucket.resolved bucketHash uninitialized output)

omit [LinearOrder κ] [DecidableEq η] in
theorem mapM_eq_some {α β : Type} {f : α → Option β} {g : α → β}
    {items : List α} (same : ∀ item ∈ items, f item = some (g item)) :
    items.mapM f = some (items.map g) := by
  induction items with
  | nil => rfl
  | cons item items ih =>
      rw [List.mapM_cons, same item List.mem_cons_self,
        ih (fun other member => same other (List.mem_cons_of_mem _ member))]
      rfl

omit [LinearOrder κ] in
theorem save_merging (curr snap : Bucket κ ε)
    (shadows : List (Bucket κ ε)) (flag : Bool) (output : Bucket κ ε) :
    (FutureBucket.merging bucketHash curr snap shadows flag output).save
        bucketHash =
      some (.hashInputs (some (bucketHash curr)) (some (bucketHash snap))
        (shadows.map bucketHash)) := by
  unfold FutureBucket.save FutureBucket.checked
  rw [if_pos (FutureBucket.checkState_merging bucketHash curr snap shadows
    flag output)]
  rfl

omit [LinearOrder κ] in
theorem save_resolved (flag : Bool) (output : Bucket κ ε) :
    (FutureBucket.resolved bucketHash flag output).save bucketHash =
      some (.hashOutput (some (bucketHash output))) := by
  unfold FutureBucket.save FutureBucket.checked
  rw [if_pos (FutureBucket.checkState_resolved bucketHash flag output)]
  rfl

/-- What `load` makes of saved inputs. -/
def loadedInputs (uninitialized : Bool) (curr snap : η)
    (shadows : List η) : FutureBucket κ ε η :=
  { mState := .hashInputs
    mInputCurrBucketHash := some curr
    mInputSnapBucketHash := some snap
    mInputShadowBucketHashes := shadows
    mKeepDeadEntries := uninitialized }

def loadedOutput (uninitialized : Bool) (output : η) :
    FutureBucket κ ε η :=
  { mState := .hashOutput
    mOutputBucketHash := some output
    mKeepDeadEntries := uninitialized }

theorem makeLive_loadedInputs {getBucket : η → Option (Bucket κ ε)}
    {curr snap : Bucket κ ε} {shadows : List (Bucket κ ε)}
    {uninitialized : Bool} {restarted : Bucket κ ε}
    (foundCurr : getBucket (bucketHash curr) = some curr)
    (foundSnap : getBucket (bucketHash snap) = some snap)
    (foundShadows : ∀ shadow ∈ shadows,
      getBucket (bucketHash shadow) = some shadow)
    (restarts : merge keyOf curr snap shadows uninitialized =
      some restarted) :
    (loadedInputs uninitialized (bucketHash curr) (bucketHash snap)
        (shadows.map bucketHash)).makeLive bucketHash keyOf getBucket =
      some (FutureBucket.merging bucketHash curr snap shadows uninitialized
        restarted) := by
  have allShadows : (shadows.map bucketHash).mapM getBucket =
      some shadows := by
    rw [List.mapM_map, Function.comp_def, mapM_eq_some foundShadows,
      List.map_id']
  simp [loadedInputs, FutureBucket.makeLive, FutureBucket.checked,
    FutureBucket.checkState, guard, FutureBucket.isLive,
    FutureBucket.hasHashes, FutureBucket.hasOutputHash, foundCurr,
    foundSnap, allShadows, FutureBucket.startMerge, restarts,
    FutureBucket.checkHashesMatch, FutureBucket.hashMatches,
    FutureBucket.merging]

theorem makeLive_loadedOutput {getBucket : η → Option (Bucket κ ε)}
    {output : Bucket κ ε} {uninitialized : Bool}
    (found : getBucket (bucketHash output) = some output) :
    (loadedOutput uninitialized (bucketHash output)).makeLive bucketHash
        keyOf getBucket =
      some (FutureBucket.resolved bucketHash uninitialized output) := by
  simp [loadedOutput, FutureBucket.makeLive, FutureBucket.checked,
    FutureBucket.checkState, guard, FutureBucket.isLive,
    FutureBucket.hasHashes, FutureBucket.hasOutputHash, found,
    FutureBucket.setLiveOutput, FutureBucket.checkHashesMatch,
    FutureBucket.hashMatches, FutureBucket.resolved]

theorem SavedAs.comesBack {keepDeadEntries ready : Bool}
    {fb saved : FutureBucket κ ε η}
    (savedAs : SavedAs bucketHash keyOf keepDeadEntries ready fb saved)
    (uninitialized : Bool) {getBucket : η → Option (Bucket κ ε)}
    (stored : ∀ bucket, bucketHash bucket ∈ saved.getHashes →
      getBucket (bucketHash bucket) = some bucket) :
    ∃ archived loaded final,
      saved.save bucketHash = some archived ∧
        (FutureBucket.new uninitialized).load bucketHash archived =
          some loaded ∧
        loaded.isMerging = false ∧
        (if (loaded.hasHashes && !loaded.isLive) = true then
          loaded.makeLive bucketHash keyOf getBucket
          else some loaded) = some final ∧
        ComesBackAs bucketHash keyOf keepDeadEntries ready uninitialized
          fb final := by
  cases savedAs with
  | clear flag =>
      exact ⟨.clear, FutureBucket.new uninitialized,
        FutureBucket.new uninitialized, rfl, rfl, rfl, rfl,
        ComesBackAs.clear flag⟩
  | @inputs curr snap shadows output inputs merges notReady =>
      obtain ⟨restarted, restarts, -⟩ := merge_spec inputs.curr inputs.snap
        inputs.shadows uninitialized
      refine ⟨_, loadedInputs uninitialized (bucketHash curr)
        (bucketHash snap) (shadows.map bucketHash), _,
        save_merging curr snap shadows keepDeadEntries output, rfl, rfl,
        ?_, ComesBackAs.inputs inputs merges notReady restarts⟩
      apply makeLive_loadedInputs _ _ _ restarts
      · exact stored curr (by
          simp [FutureBucket.getHashes, FutureBucket.merging])
      · exact stored snap (by
          simp [FutureBucket.getHashes, FutureBucket.merging])
      · intro shadow member
        apply stored shadow
        have listed := List.mem_map_of_mem (f := bucketHash) member
        simp only [FutureBucket.getHashes, FutureBucket.merging,
          List.mem_append]
        exact Or.inl (Or.inr listed)
  | @output fb output resolves isReady =>
      refine ⟨_, loadedOutput uninitialized (bucketHash output), _,
        save_resolved keepDeadEntries output, rfl, rfl, ?_,
        ComesBackAs.output resolves isReady⟩
      apply makeLive_loadedOutput
      exact stored output (by
        simp [FutureBucket.getHashes, FutureBucket.resolved])

end Stages

section Restart

variable [DecidableEq η] {zero : η} {files : η → Option (Bucket κ ε)}
  {bucketHash : Bucket κ ε → η} {keyOf : ε → κ}
  {writes : ℕ → κ → Option (BucketEntry κ ε)}
  {ready uninitialized : ℕ → Bool}

omit [LinearOrder κ] in
/-- A bucket that is not missing is found under its hash. -/
theorem getBucketByHash_eq {has : HistoryArchiveState κ ε η}
    (noCollision : Function.Injective bucketHash)
    (emptyHash : bucketHash [] = zero)
    (named : ∀ hash bucket, files hash = some bucket →
      bucketHash bucket = hash)
    (noneMissing : checkForMissingBucketsFiles zero files has = [])
    {bucket : Bucket κ ε} (listed : bucketHash bucket ∈ has.allBuckets) :
    getBucketByHash zero files (bucketHash bucket) = some bucket := by
  unfold getBucketByHash
  by_cases isZero : bucketHash bucket = zero
  · rw [if_pos isZero, noCollision (emptyHash.trans isZero.symm)]
  · rw [if_neg isZero]
    have onDisk := List.filter_eq_nil_iff.mp noneMissing _ listed
    simp only [ne_eq, isZero, not_false_eq_true, decide_true,
      Bool.true_and, Option.isNone_iff_eq_none] at onDisk
    obtain ⟨found, isFound⟩ := Option.ne_none_iff_exists'.mp onDisk
    rw [isFound, noCollision (named _ _ isFound)]

/-- The list with the given levels. -/
def ofLevels (levels : ℕ → BucketLevel κ ε η) : BucketList κ ε η :=
  { mLevels := (List.range kNumLevels).map levels }

variable (bucketHash) in
/-- The state that is saved, after `resolveAnyReadyFutures`. -/
def savedState (levels : ℕ → BucketLevel κ ε η)
    (saved : ℕ → FutureBucket κ ε η) : HistoryArchiveState κ ε η :=
  { currentBuckets := (List.range kNumLevels).map (fun i =>
      { curr := bucketHash (levels i).mCurr
        next := saved i
        snap := bucketHash (levels i).mSnap }) }

omit [LinearOrder κ] in
theorem resolveAnyReadyFutures_eq {levels : ℕ → BucketLevel κ ε η}
    {saved : ℕ → FutureBucket κ ε η}
    (resolves : ∀ i < kNumLevels,
      (if ((levels i).mNextCurr.isMerging && ready i) = true then
        ((levels i).mNextCurr.resolve bucketHash).map Prod.fst
        else some (levels i).mNextCurr) = some (saved i)) :
    (HistoryArchiveState.ofBucketList bucketHash
        (ofLevels levels)).resolveAnyReadyFutures bucketHash ready =
      some (savedState bucketHash levels saved) := by
  unfold HistoryArchiveState.resolveAnyReadyFutures
  have length : (HistoryArchiveState.ofBucketList bucketHash
      (ofLevels levels)).currentBuckets.length = kNumLevels := by
    simp [HistoryArchiveState.ofBucketList, ofLevels]
  rw [length, mapM_eq_some (g := fun i =>
    { curr := bucketHash (levels i).mCurr
      next := saved i
      snap := bucketHash (levels i).mSnap })]
  · rfl
  · intro i member
    have valid := List.mem_range.mp member
    have found : (HistoryArchiveState.ofBucketList bucketHash
        (ofLevels levels)).currentBuckets[i]? =
        some { curr := bucketHash (levels i).mCurr
               next := (levels i).mNextCurr
               snap := bucketHash (levels i).mSnap } := by
      simp [HistoryArchiveState.ofBucketList, ofLevels, valid]
    have outcome := resolves i valid
    rw [found]
    by_cases isReady : ((levels i).mNextCurr.isMerging && ready i) = true
    · rw [if_pos isReady, Option.map_eq_some_iff] at outcome
      obtain ⟨⟨next, bucket⟩, resolved, rfl⟩ := outcome
      simp only [Option.bind_eq_bind, Option.bind_some, isReady, if_true,
        resolved, Option.pure_def]
    · rw [if_neg isReady, Option.some.injEq] at outcome
      simp only [Option.bind_eq_bind, Option.bind_some]
      rw [if_neg isReady, outcome]
      rfl

/-- The level that `assumeState` sets before merges are restarted. -/
def assumedLevel (levels fresh : ℕ → BucketLevel κ ε η)
    (loaded : ℕ → FutureBucket κ ε η) (i : ℕ) : BucketLevel κ ε η :=
  (((fresh i).setCurr (levels i).mCurr).setSnap (levels i).mSnap).setNext
    (loaded i)

/-- The new list is the old one but for the merges. -/
theorem restart_spec {levels fresh : ℕ → BucketLevel κ ε η} {now : ℕ}
    (noCollision : Function.Injective bucketHash)
    (emptyHash : bucketHash [] = zero)
    (named : ∀ hash bucket, files hash = some bucket →
      bucketHash bucket = hash)
    (holds : ∀ i < kNumLevels,
      LevelHolds bucketHash keyOf writes now i (levels i))
    (noneMissing : ∀ has,
      (HistoryArchiveState.ofBucketList bucketHash
          (ofLevels levels)).resolveAnyReadyFutures bucketHash ready =
          some has →
        checkForMissingBucketsFiles zero files has = []) :
    ∃ final : ℕ → FutureBucket κ ε η,
      restart zero files bucketHash keyOf ready uninitialized
          (ofLevels fresh) (ofLevels levels) =
        some (ofLevels (assumedLevel levels fresh final)) ∧
      ∀ i < kNumLevels,
        ComesBackAs bucketHash keyOf (keepsDead i) (ready i)
          (uninitialized i) (levels i).mNextCurr (final i) := by
  have inhabited : Nonempty (FutureBucket κ ε η) :=
    ⟨FutureBucket.new true⟩
  have inhabited' : Nonempty (SavedFuture η) := ⟨.clear⟩
  have savedEach : ∀ i, i < kNumLevels → ∃ saved,
      SavedAs bucketHash keyOf (keepsDead i) (ready i)
        (levels i).mNextCurr saved ∧
      (if ((levels i).mNextCurr.isMerging && ready i) = true then
        ((levels i).mNextCurr.resolve bucketHash).map Prod.fst
        else some (levels i).mNextCurr) = some saved :=
    fun i valid => (holds i valid).savedAs (ready i)
  choose! saved savedAs resolves using savedEach
  have resolved := resolveAnyReadyFutures_eq resolves
  have present := noneMissing _ resolved
  have stored : ∀ bucket, bucketHash bucket ∈
      (savedState bucketHash levels saved).allBuckets →
        getBucketByHash zero files (bucketHash bucket) = some bucket :=
    fun bucket listed =>
      getBucketByHash_eq noCollision emptyHash named present listed
  have listed : ∀ i < kNumLevels, ∀ hash,
      hash ∈ bucketHash (levels i).mCurr :: bucketHash (levels i).mSnap ::
        (saved i).getHashes →
      hash ∈ (savedState bucketHash levels saved).allBuckets := by
    intro i valid hash member
    unfold savedState HistoryArchiveState.allBuckets
    rw [List.flatMap_map]
    exact List.mem_flatMap.mpr ⟨i, List.mem_range.mpr valid, member⟩
  have backEach := fun i (valid : i < kNumLevels) =>
    (savedAs i valid).comesBack (uninitialized i)
      (fun bucket member => stored bucket (listed i valid _
        (List.mem_cons_of_mem _ (List.mem_cons_of_mem _ member))))
  choose! archived loaded final saves loads notMerging lives back
    using backEach
  refine ⟨final, ?_, back⟩
  have written : (savedState bucketHash levels saved).toString bucketHash =
      some ((List.range kNumLevels).map (fun i =>
        { curr := bucketHash (levels i).mCurr
          next := archived i
          snap := bucketHash (levels i).mSnap })) := by
    unfold savedState HistoryArchiveState.toString
    rw [List.mapM_map]
    apply mapM_eq_some
    intro i member
    simp [saves i (List.mem_range.mp member)]
  have read : HistoryArchiveState.fromString bucketHash uninitialized
      ((List.range kNumLevels).map (fun i =>
        { curr := bucketHash (levels i).mCurr
          next := archived i
          snap := bucketHash (levels i).mSnap })) =
      some (savedState bucketHash levels loaded) := by
    unfold HistoryArchiveState.fromString
    rw [List.length_map, List.length_range, mapM_eq_some (g := fun i =>
      { curr := bucketHash (levels i).mCurr
        next := loaded i
        snap := bucketHash (levels i).mSnap })]
    · have noneMerging : ((List.range kNumLevels).map (fun i =>
          ({ curr := bucketHash (levels i).mCurr
             next := loaded i
             snap := bucketHash (levels i).mSnap } :
            HistoryStateBucket κ ε η))).all
            (fun level => !level.next.isMerging) = true := by
        rw [List.all_map, List.all_eq_true]
        intro i member
        simp [notMerging i (List.mem_range.mp member)]
      simp only [Option.bind_eq_bind, Option.bind_some, noneMerging,
        guard, if_true, Option.pure_def]
      rfl
    · intro i member
      have valid := List.mem_range.mp member
      simp [valid, loads i valid]
  have assumed : assumeState zero files bucketHash keyOf (ofLevels fresh)
      (savedState bucketHash levels loaded) =
      some (ofLevels (assumedLevel levels fresh final)) := by
    unfold assumeState
    rw [mapM_eq_some (g := assumedLevel levels fresh loaded)]
    · simp only [Option.bind_eq_bind, Option.bind_some,
        BucketList.restartMerges]
      rw [List.mapM_map, mapM_eq_some (g :=
        assumedLevel levels fresh final)]
      · rfl
      · intro i member
        have outcome := lives i (List.mem_range.mp member)
        have next : (assumedLevel levels fresh loaded i).mNextCurr =
            loaded i := rfl
        rw [Function.comp_apply, next]
        by_cases restarts :
            ((loaded i).hasHashes && !(loaded i).isLive) = true
        · rw [if_pos restarts] at outcome
          rw [if_pos restarts, outcome]
          rfl
        · rw [if_neg restarts, Option.some.injEq] at outcome
          rw [if_neg restarts]
          simp only [assumedLevel, outcome]
    · intro i member
      have valid := List.mem_range.mp member
      have currStored := stored _ (listed i valid _ List.mem_cons_self)
      have snapStored := stored _ (listed i valid _
        (List.mem_cons_of_mem _ List.mem_cons_self))
      simp [savedState, ofLevels, valid, currStored, snapStored,
        assumedLevel]
  simp only [restart, resolved, Option.bind_eq_bind, Option.bind_some,
    written, read, assumed]

/-- The flag that the merge will run with is the one that it ran with, or
it does not matter. -/
def FlagHarmless (keyOf : ε → κ) (i : ℕ) (ready uninitialized : Bool)
    (fb : FutureBucket κ ε η) : Prop :=
  fb.isMerging = true → ready = false →
    uninitialized = keepsDead i ∨ ¬ fb.MergesDead keyOf

omit [DecidableEq η] in
theorem mergesDead_merging (curr snap : Bucket κ ε)
    (shadows : List (Bucket κ ε)) (flag : Bool) (output : Bucket κ ε) :
    (FutureBucket.merging bucketHash curr snap shadows flag
        output).MergesDead keyOf ↔
      DeadReaches keyOf curr snap shadows := by
  constructor
  · rintro ⟨_, _, ⟨⟩, ⟨⟩, reaches⟩
    exact reaches
  · intro reaches
    exact ⟨curr, snap, rfl, rfl, reaches⟩

theorem ComesBackAs.sameNext {i : ℕ} {ready uninitialized : Bool}
    {fb final : FutureBucket κ ε η}
    (back : ComesBackAs bucketHash keyOf (keepsDead i) ready uninitialized
      fb final)
    (harmless : FlagHarmless keyOf i ready uninitialized fb) :
    SameNext bucketHash fb final := by
  cases back with
  | clear flag => exact Or.inl ⟨rfl, rfl⟩
  | @inputs curr snap shadows output restarted inputs merges notReady
      restarts =>
      have decides := harmless rfl notReady
      rw [mergesDead_merging] at decides
      have same := (merge_eq_merge_iff inputs _ _).mpr decides
      rw [restarts, merges, Option.some.injEq] at same
      rw [same]
      exact Or.inr ⟨output,
        FutureBucket.resolves_merging curr snap shadows _ output,
        FutureBucket.resolves_merging curr snap shadows _ output⟩
  | output resolves isReady =>
      exact Or.inr ⟨_, resolves,
        FutureBucket.resolves_resolved uninitialized _⟩

theorem ComesBackAs.harmless {i : ℕ} {ready uninitialized : Bool}
    {fb final : FutureBucket κ ε η}
    (back : ComesBackAs bucketHash keyOf (keepsDead i) ready uninitialized
      fb final)
    (same : fb.isMerging = true →
      (final.resolve bucketHash).map Prod.snd =
        (fb.resolve bucketHash).map Prod.snd) :
    FlagHarmless keyOf i ready uninitialized fb := by
  intro merging notReady
  cases back with
  | clear flag => cases merging
  | @inputs curr snap shadows output restarted inputs merges _ restarts =>
      have sameOutput := same rfl
      rw [FutureBucket.resolve_merging, FutureBucket.resolve_merging]
        at sameOutput
      cases sameOutput
      rw [mergesDead_merging]
      exact (merge_eq_merge_iff inputs _ _).mp
        (restarts.trans merges.symm)
  | output resolves isReady =>
      rw [isReady merging] at notReady
      cases notReady

omit [LinearOrder κ] [DecidableEq η] in
theorem valid_of_getElem {levels : ℕ → BucketLevel κ ε η} {i : ℕ}
    {level : BucketLevel κ ε η}
    (found : (ofLevels levels).mLevels[i]? = some level) :
    i < kNumLevels := by
  have inside := (List.getElem?_eq_some_iff.mp found).1
  simpa [ofLevels] using inside

variable (bucketHash keyOf) in
/-- Every merge in progress has the same outcome after the restart, and the
list has the same hash at every later ledger. -/
structure RestartsAlike (sha256 : List η → η) (ledger : ℕ)
    (bl restarted : BucketList κ ε η) : Prop where
  outputs : ∀ (i : ℕ) level level', bl.mLevels[i]? = some level →
    restarted.mLevels[i]? = some level' →
    level.mNextCurr.isMerging = true →
      (level'.mNextCurr.resolve bucketHash).map Prod.snd =
        (level.mNextCurr.resolve bucketHash).map Prod.snd
  hashes : ∀ later final,
    BucketListRun.run bucketHash keyOf
        { ledger := ledger, bucketList := bl } later = some final →
      ∃ other,
        BucketListRun.run bucketHash keyOf
            { ledger := ledger, bucketList := restarted } later =
          some other ∧
        other.bucketList.getHash bucketHash sha256 =
          final.bucketList.getHash bucketHash sha256

/-- The restart brings the list back; its merges go on as before exactly
when no merge that was saved by its inputs runs with the wrong flag over a
dead record that the flag decides about. -/
theorem restart_alike_iff (bucketHash : Bucket κ ε → η)
    (keyOf : ε → κ) (sha256 : List η → η) (zero : η)
    (noCollision : Function.Injective bucketHash)
    (emptyHash : bucketHash [] = zero)
    (files : η → Option (Bucket κ ε))
    (named : ∀ hash bucket, files hash = some bucket →
      bucketHash bucket = hash)
    (uninitialized uninitialized' uninitialized'' ready : ℕ → Bool)
    (events : List (BucketListEvent κ ε))
    (onePerKey : OneRecordPerKey keyOf events)
    (bounded : (batches events).length < 2 ^ 32)
    (state : BucketListRun κ ε η)
    (runs : BucketListRun.run bucketHash keyOf
      { bucketList := BucketList.new uninitialized' } events = some state)
    (noneMissing : ∀ has,
      (HistoryArchiveState.ofBucketList bucketHash
          state.bucketList).resolveAnyReadyFutures bucketHash ready =
          some has →
        checkForMissingBucketsFiles zero files has = []) :
    ∃ restarted,
      restart zero files bucketHash keyOf ready uninitialized
          (BucketList.new uninitialized'') state.bucketList =
        some restarted ∧
      (RestartsAlike bucketHash keyOf sha256 state.ledger
          state.bucketList restarted ↔
        ∀ (i : ℕ) level, state.bucketList.mLevels[i]? = some level →
          FlagHarmless keyOf i (ready i) (uninitialized i)
            level.mNextCurr) := by
  obtain ⟨reached, runs', -, levels, same, levelsHold⟩ :=
    run_new_holds bucketHash keyOf uninitialized' onePerKey bounded
  rw [runs, Option.some.injEq] at runs'
  subst reached
  have isList : state.bucketList = ofLevels levels := by
    cases listed : state.bucketList
    rw [listed] at same
    exact congrArg BucketList.mk same
  rw [isList] at noneMissing ⊢
  let fresh : ℕ → BucketLevel κ ε η := fun i =>
    { mLevel := i
      mNextCurr := FutureBucket.new (uninitialized'' i) }
  have isFresh : BucketList.new uninitialized'' = ofLevels fresh := rfl
  rw [isFresh]
  obtain ⟨final, restarts, back⟩ := restart_spec noCollision emptyHash
    named levelsHold noneMissing
  refine ⟨_, restarts, ?_, ?_⟩
  · intro alike i level found
    have valid := valid_of_getElem found
    rw [ofLevels, map_range_getElem levels valid] at found
    cases found
    apply (back i valid).harmless
    exact alike.outputs i _ _ (map_range_getElem levels valid)
      (map_range_getElem _ valid)
  · intro harmless
    have sameLists : SameList bucketHash (ofLevels levels)
        (ofLevels (assumedLevel levels fresh final)) := by
      refine ⟨by simp [ofLevels], ?_⟩
      intro i level found
      have valid := valid_of_getElem found
      have harmlessHere := harmless i level found
      rw [ofLevels, map_range_getElem levels valid] at found
      cases found
      refine ⟨_, map_range_getElem _ valid, ?_⟩
      have holds := levelsHold i valid
      refine ⟨⟨holds.index, rfl, rfl,
        (back i valid).sameNext harmlessHere⟩, holds.index, ?_⟩
      rintro rfl
      rcases holds.next with ⟨clear, -⟩ | ⟨notTop, -⟩
      · exact clear.mState
      · exact absurd rfl notTop
    constructor
    · intro i level level' found found' merging
      obtain ⟨other, isOther, sameAt⟩ := sameLists.level i level found
      rw [found'] at isOther
      cases isOther
      rcases sameAt.mNextCurr with ⟨clear, clear'⟩ |
        ⟨output, ⟨-, _, resolves⟩, -, _, resolves'⟩
      · rw [FutureBucket.isMerging, clear] at merging
        cases merging
      · rw [resolves, resolves']
        rfl
    · intro later final' runs'
      obtain ⟨other, runsOther, sameFinal⟩ := sameLists.run later runs'
      exact ⟨other, runsOther, (sameFinal.getHash sha256).symm⟩

section Example

/-- A key is deleted, and the deletion is being merged into level 1. -/
def deadEvents : List (BucketListEvent ℕ (ℕ × ℕ)) :=
  [.addBatch [] [1], .addBatch [] []]

/-- A bucket stands for its own hash here. -/
def runDeadEvents :
    Option (BucketListRun ℕ (ℕ × ℕ) (Bucket ℕ (ℕ × ℕ))) :=
  BucketListRun.run id Prod.fst
    { bucketList := BucketList.new (fun _ => false) } deadEvents

def restartDeadEvents
    (state : BucketListRun ℕ (ℕ × ℕ) (Bucket ℕ (ℕ × ℕ))) :
    Option (BucketList ℕ (ℕ × ℕ) (Bucket ℕ (ℕ × ℕ))) :=
  restart [] some id Prod.fst (fun _ => false) (fun _ => false)
    (BucketList.new (fun _ => false)) state.bucketList

theorem deadEvents_alike_iff :
    ∃ state restarted, runDeadEvents = some state ∧
      restartDeadEvents state = some restarted ∧
      (RestartsAlike id Prod.fst List.flatten state.ledger
          state.bucketList restarted ↔
        ∀ (i : ℕ) level, state.bucketList.mLevels[i]? = some level →
          FlagHarmless Prod.fst i false false level.mNextCurr) := by
  obtain ⟨state, runs⟩ : ∃ state, runDeadEvents = some state :=
    Option.isSome_iff_exists.mp (by decide +kernel)
  obtain ⟨restarted, restarts, decides⟩ := restart_alike_iff id Prod.fst
    List.flatten [] Function.injective_id rfl some
    (fun hash bucket found => (Option.some.inj found).symm)
    (fun _ => false) (fun _ => false) (fun _ => false) (fun _ => false)
    deadEvents (by unfold OneRecordPerKey; decide) (by decide) state runs
    (fun has _ => by simp [checkForMissingBucketsFiles])
  exact ⟨state, restarted, runs, restarts, decides⟩

/-- The buckets that level 1 gets before and after the restart. -/
def deadOutcomes :
    Option (Option (Bucket ℕ (ℕ × ℕ)) × Option (Bucket ℕ (ℕ × ℕ))) := do
  let state ← runDeadEvents
  let restarted ← restartDeadEvents state
  let level ← state.bucketList.mLevels[1]?
  let level' ← restarted.mLevels[1]?
  guard level.mNextCurr.isMerging
  return ((level.mNextCurr.resolve id).map Prod.snd,
    (level'.mNextCurr.resolve id).map Prod.snd)

theorem deadEvents_restartsApart :
    ∃ state restarted, runDeadEvents = some state ∧
      restartDeadEvents state = some restarted ∧
      ¬ RestartsAlike id Prod.fst List.flatten state.ledger
        state.bucketList restarted := by
  have outcomes : deadOutcomes =
      some (some [.deadEntry 1], some []) := by decide +kernel
  unfold deadOutcomes at outcomes
  obtain ⟨state, runs, outcomes⟩ := Option.bind_eq_some_iff.mp outcomes
  obtain ⟨restarted, restarts, outcomes⟩ :=
    Option.bind_eq_some_iff.mp outcomes
  obtain ⟨level, found, outcomes⟩ := Option.bind_eq_some_iff.mp outcomes
  obtain ⟨level', found', outcomes⟩ := Option.bind_eq_some_iff.mp outcomes
  obtain ⟨_, merging, outcomes⟩ := Option.bind_eq_some_iff.mp outcomes
  refine ⟨state, restarted, runs, restarts, ?_⟩
  intro alike
  have isMerging : level.mNextCurr.isMerging = true := by
    by_contra notMerging
    rw [guard, if_neg notMerging] at merging
    cases merging
  have same := alike.outputs 1 level level' found found' isMerging
  have pair := Option.some.inj outcomes
  rw [Prod.mk.injEq] at pair
  rw [pair.1, pair.2] at same
  cases same

end Example

end Restart

end StellarCore.Buckets
