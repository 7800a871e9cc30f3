import StellarCore.Buckets.NewestRecord

/-!
# Lists that behave alike

Two bucket lists with the same buckets, whose pending merges deliver the
same buckets, go through the same states from then on, whatever else their
pending merges hold.
-/

namespace StellarCore.Buckets

variable {κ ε η : Type} [DecidableEq η] [LinearOrder κ]

/-- The merge is live, and waiting for it gives the bucket. -/
def FutureBucket.Resolves (bucketHash : Bucket κ ε → η)
    (fb : FutureBucket κ ε η) (output : Bucket κ ε) : Prop :=
  fb.isLive = true ∧ ∃ flag,
    fb.resolve bucketHash = some (resolved bucketHash flag output, output)

/-- There is no merge in either, or the same bucket comes out of both. -/
def SameNext (bucketHash : Bucket κ ε → η) (a b : FutureBucket κ ε η) :
    Prop :=
  (a.mState = .clear ∧ b.mState = .clear) ∨
    ∃ output, a.Resolves bucketHash output ∧ b.Resolves bucketHash output

structure SameLevel (bucketHash : Bucket κ ε → η)
    (a b : BucketLevel κ ε η) : Prop where
  mLevel : a.mLevel = b.mLevel
  mCurr : a.mCurr = b.mCurr
  mSnap : a.mSnap = b.mSnap
  mNextCurr : SameNext bucketHash a.mNextCurr b.mNextCurr

/-- The levels at a place of the two lists.  Level 0 commits its merges at
once. -/
structure SameAt (bucketHash : Bucket κ ε → η) (i : ℕ)
    (a b : BucketLevel κ ε η) : Prop
    extends SameLevel bucketHash a b where
  index : a.mLevel = i
  top : i = 0 → a.mNextCurr.mState = .clear

structure SameList (bucketHash : Bucket κ ε → η)
    (a b : BucketList κ ε η) : Prop where
  length : a.mLevels.length = b.mLevels.length
  level : ∀ (i : ℕ) x, a.mLevels[i]? = some x →
    ∃ y, b.mLevels[i]? = some y ∧ SameAt bucketHash i x y

variable {bucketHash : Bucket κ ε → η} {keyOf : ε → κ}

omit [LinearOrder κ] in
theorem FutureBucket.resolves_merging (curr snap : Bucket κ ε)
    (shadows : List (Bucket κ ε)) (flag : Bool) (output : Bucket κ ε) :
    (merging bucketHash curr snap shadows flag output).Resolves bucketHash
      output :=
  ⟨rfl, flag, resolve_merging curr snap shadows flag output⟩

omit [LinearOrder κ] in
theorem FutureBucket.resolves_resolved (flag : Bool)
    (output : Bucket κ ε) :
    (resolved bucketHash flag output).Resolves bucketHash output :=
  ⟨rfl, flag, resolve_resolved flag output⟩

section Level

variable {a b : BucketLevel κ ε η}

omit [LinearOrder κ] in
theorem SameLevel.snap (same : SameLevel bucketHash a b) :
    SameLevel bucketHash a.snap b.snap :=
  ⟨same.mLevel, rfl, same.mCurr, same.mNextCurr⟩

omit [LinearOrder κ] in
/-- Both levels commit the same bucket, and no merge is left. -/
theorem SameLevel.commit (same : SameLevel bucketHash a b) :
    ∃ a' b', a.commit bucketHash = some a' ∧
      b.commit bucketHash = some b' ∧ SameLevel bucketHash a' b' ∧
      a'.mLevel = a.mLevel ∧ a'.mNextCurr.mState = .clear ∧
      b'.mNextCurr.mState = .clear := by
  rcases same.mNextCurr with ⟨clearA, clearB⟩ |
    ⟨output, ⟨liveA, flagA, resolvesA⟩, liveB, flagB, resolvesB⟩
  · exact ⟨a, b, BucketLevel.commit_of_clear clearA,
      BucketLevel.commit_of_clear clearB, same, rfl, clearA, clearB⟩
  · exact ⟨_, _, BucketLevel.commit_of_resolve a liveA resolvesA,
      BucketLevel.commit_of_resolve b liveB resolvesB,
      ⟨same.mLevel, rfl, same.mSnap, Or.inl ⟨rfl, rfl⟩⟩, rfl, rfl, rfl⟩

omit [LinearOrder κ] in
theorem SameLevel.clear_of_clear (same : SameLevel bucketHash a b)
    (clear : a.mNextCurr.mState = .clear) :
    b.mNextCurr.mState = .clear := by
  rcases same.mNextCurr with ⟨-, clearB⟩ | ⟨output, ⟨live, -⟩, -⟩
  · exact clearB
  · simp [FutureBucket.isLive, clear] at live

theorem SameLevel.prepare (same : SameLevel bucketHash a b)
    (clearA : a.mNextCurr.mState = .clear)
    (clearB : b.mNextCurr.mState = .clear) {currLedger : UInt32}
    {snap : Bucket κ ε} {shadows : List (Bucket κ ε)}
    {prepared : BucketLevel κ ε η}
    (prepares : a.prepare bucketHash keyOf currLedger snap shadows =
      some prepared) :
    ∃ other, b.prepare bucketHash keyOf currLedger snap shadows =
        some other ∧ SameLevel bucketHash prepared other ∧
      prepared.mLevel = a.mLevel := by
  have sameCurr : a.currToMerge currLedger = b.currToMerge currLedger := by
    unfold BucketLevel.currToMerge
    rw [same.mLevel, same.mCurr]
  rw [BucketLevel.prepare_eq_map clearA, Option.map_eq_some_iff] at prepares
  obtain ⟨output, merges, rfl⟩ := prepares
  let next := FutureBucket.merging bucketHash (a.currToMerge currLedger)
    snap shadows (decide (a.mLevel < kNumLevels - 1)) output
  have resolves : next.Resolves bucketHash output :=
    FutureBucket.resolves_merging _ _ _ _ _
  refine ⟨b.setNext next, ?_, ⟨same.mLevel, same.mCurr, same.mSnap,
    Or.inr ⟨output, resolves, resolves⟩⟩, rfl⟩
  rw [BucketLevel.prepare_eq_map clearB, ← sameCurr, ← same.mLevel, merges]
  rfl

end Level

section List

variable {a b : BucketList κ ε η}

omit [LinearOrder κ] in
theorem SameList.map_eq {α : Type} (same : SameList bucketHash a b)
    {f : BucketLevel κ ε η → α}
    (sees : ∀ x y, SameLevel bucketHash x y → f x = f y) :
    a.mLevels.map f = b.mLevels.map f := by
  apply List.ext_getElem?
  intro i
  rw [List.getElem?_map, List.getElem?_map]
  cases here : a.mLevels[i]? with
  | none =>
      have outside : b.mLevels.length ≤ i := by
        rw [← same.length]
        exact List.getElem?_eq_none_iff.mp here
      rw [List.getElem?_eq_none outside]
  | some x =>
      obtain ⟨y, there, sameLevel⟩ := same.level i x here
      rw [there, Option.map_some, Option.map_some,
        sees x y sameLevel.toSameLevel]

omit [LinearOrder κ] in
theorem SameList.buckets (same : SameList bucketHash a b) :
    a.buckets = b.buckets := by
  unfold BucketList.buckets
  rw [List.flatMap_def, List.flatMap_def, same.map_eq]
  intro x y sameLevel
  rw [sameLevel.mCurr, sameLevel.mSnap]

omit [LinearOrder κ] in
theorem SameList.getHash (same : SameList bucketHash a b)
    (sha256 : List η → η) :
    a.getHash bucketHash sha256 = b.getHash bucketHash sha256 := by
  unfold BucketList.getHash
  rw [same.map_eq]
  intro x y sameLevel
  rw [sameLevel.mCurr, sameLevel.mSnap]

omit [LinearOrder κ] in
theorem SameList.set (same : SameList bucketHash a b) {i : ℕ}
    {x y : BucketLevel κ ε η} (sameLevel : SameAt bucketHash i x y) :
    SameList bucketHash { mLevels := a.mLevels.set i x }
      { mLevels := b.mLevels.set i y } := by
  refine ⟨by simp [same.length], ?_⟩
  intro j z found
  simp only [List.getElem?_set] at found ⊢
  by_cases here : i = j
  · subst here
    rw [if_pos rfl] at found ⊢
    by_cases inside : i < a.mLevels.length
    · rw [if_pos inside] at found
      rw [if_pos (same.length ▸ inside)]
      cases found
      exact ⟨y, rfl, sameLevel⟩
    · rw [if_neg inside] at found
      cases found
  · rw [if_neg here] at found ⊢
    exact same.level j z found

theorem SameList.spillInto (same : SameList bucketHash a b)
    {currLedger : UInt32} {shadows : List (Bucket κ ε)} {i : ℕ}
    {after : BucketList κ ε η}
    (spills : a.spillInto bucketHash keyOf currLedger shadows (i + 1) =
      some after) :
    ∃ other, b.spillInto bucketHash keyOf currLedger shadows (i + 1) =
        some other ∧ SameList bucketHash after other := by
  unfold BucketList.spillInto at spills
  obtain ⟨above, foundAbove, spills⟩ := Option.bind_eq_some_iff.mp spills
  obtain ⟨level, found, spills⟩ := Option.bind_eq_some_iff.mp spills
  obtain ⟨committed, commits, spills⟩ := Option.bind_eq_some_iff.mp spills
  obtain ⟨prepared, prepares, result⟩ := Option.bind_eq_some_iff.mp spills
  cases result
  rw [Nat.add_sub_cancel] at foundAbove
  obtain ⟨above', foundAbove', sameAbove⟩ := same.level _ _ foundAbove
  obtain ⟨level', found', sameLevel⟩ := same.level _ _ found
  obtain ⟨x, y, commitsX, commitsY, sameCommitted, indexX, clearX,
    clearY⟩ := sameLevel.commit
  rw [commitsX] at commits
  cases commits
  obtain ⟨prepared', prepares', samePrepared, index⟩ :=
    sameCommitted.prepare clearX clearY prepares
  have snaps : above.snap.mSnap = above'.snap.mSnap := sameAbove.mCurr
  rw [snaps] at prepares'
  have snapped : SameAt bucketHash i above.snap above'.snap :=
    ⟨sameAbove.snap, sameAbove.index, sameAbove.top⟩
  have samePlace : SameAt bucketHash (i + 1) prepared prepared' :=
    ⟨samePrepared, index.trans (indexX.trans sameLevel.index),
      fun zero => absurd zero (Nat.succ_ne_zero i)⟩
  refine ⟨_, ?_, (same.set snapped).set samePlace⟩
  simp only [BucketList.spillInto, Nat.add_sub_cancel, foundAbove',
    found', commitsY, prepares', Option.bind_eq_bind, Option.bind_some,
    Option.pure_def]

theorem SameList.spillLoop {currLedger : UInt32} (i : ℕ)
    {shadows : List (Bucket κ ε)} {a b after : BucketList κ ε η}
    (same : SameList bucketHash a b)
    (loops : BucketList.spillLoop bucketHash keyOf currLedger i shadows
      a = some after) :
    ∃ other, BucketList.spillLoop bucketHash keyOf currLedger i shadows
        b = some other ∧ SameList bucketHash after other := by
  induction i generalizing shadows a b with
  | zero =>
      cases loops
      exact ⟨b, rfl, same⟩
  | succ i ih =>
      rw [BucketList.spillLoop] at loops ⊢
      by_cases spill : levelShouldSpill currLedger i = true
      · simp only [spill, if_true] at loops ⊢
        obtain ⟨spilled, spills, rest⟩ := Option.bind_eq_some_iff.mp loops
        obtain ⟨spilled', spills', sameSpilled⟩ := same.spillInto spills
        obtain ⟨other, loops', sameAfter⟩ := ih sameSpilled rest
        refine ⟨other, ?_, sameAfter⟩
        rw [spills']
        exact loops'
      · simp only [spill, Bool.false_eq_true, if_false] at loops ⊢
        exact ih same loops

theorem SameList.addBatch (same : SameList bucketHash a b)
    {currLedger : UInt32} {liveEntries : List ε} {deadEntries : List κ}
    {after : BucketList κ ε η}
    (adds : a.addBatch bucketHash keyOf currLedger liveEntries
      deadEntries = some after) :
    ∃ other, b.addBatch bucketHash keyOf currLedger liveEntries
        deadEntries = some other ∧ SameList bucketHash after other := by
  unfold BucketList.addBatch at adds
  obtain ⟨_, positive, adds⟩ := Option.bind_eq_some_iff.mp adds
  obtain ⟨spilled, loops, adds⟩ := Option.bind_eq_some_iff.mp adds
  obtain ⟨level, found, adds⟩ := Option.bind_eq_some_iff.mp adds
  obtain ⟨bucket, freshen, adds⟩ := Option.bind_eq_some_iff.mp adds
  obtain ⟨prepared, prepares, adds⟩ := Option.bind_eq_some_iff.mp adds
  obtain ⟨committed, commits, result⟩ := Option.bind_eq_some_iff.mp adds
  cases result
  rw [same.buckets, same.length] at loops
  obtain ⟨spilled', loops', sameSpilled⟩ := SameList.spillLoop _ same loops
  obtain ⟨level', found', sameLevel⟩ := sameSpilled.level _ _ found
  have clear := sameLevel.top rfl
  have clear' := sameLevel.clear_of_clear clear
  obtain ⟨prepared', prepares', samePrepared, index⟩ :=
    sameLevel.prepare clear clear' prepares
  obtain ⟨x, y, commitsX, commitsY, sameCommitted, indexX, clearX, -⟩ :=
    samePrepared.commit
  rw [commitsX] at commits
  cases commits
  have samePlace : SameAt bucketHash 0 committed y :=
    ⟨sameCommitted, indexX.trans (index.trans sameLevel.index),
      fun _ => clearX⟩
  refine ⟨_, ?_, sameSpilled.set samePlace⟩
  simp only [BucketList.addBatch, positive, loops', found', freshen,
    prepares', commitsY, Option.bind_eq_bind, Option.bind_some,
    Option.pure_def]

omit [LinearOrder κ] in
theorem SameList.resolveNext (same : SameList bucketHash a b) {i : ℕ}
    {after : BucketList κ ε η}
    (resolves : a.resolveNext bucketHash i = some after) :
    ∃ other, b.resolveNext bucketHash i = some other ∧
      SameList bucketHash after other := by
  unfold BucketList.resolveNext at resolves
  obtain ⟨level, found, resolves⟩ := Option.bind_eq_some_iff.mp resolves
  obtain ⟨level', found', sameLevel⟩ := same.level _ _ found
  unfold BucketList.resolveNext
  rw [found']
  rcases sameLevel.mNextCurr with ⟨clearA, clearB⟩ |
    ⟨output, ⟨liveA, flagA, resolvesA⟩, liveB, flagB, resolvesB⟩
  · have notLiveA : level.mNextCurr.isLive = false := by
      simp [FutureBucket.isLive, clearA]
    have notLiveB : level'.mNextCurr.isLive = false := by
      simp [FutureBucket.isLive, clearB]
    simp only [notLiveA, Bool.false_eq_true, if_false, Option.pure_def,
      Option.some.injEq] at resolves
    subst after
    exact ⟨b, by simp [notLiveB], same⟩
  · simp only [liveA, if_true, resolvesA, Option.bind_eq_bind,
      Option.bind_some, Option.pure_def, Option.some.injEq] at resolves
    subst after
    have notTop : i ≠ 0 := by
      intro zero
      have clear := sameLevel.top zero
      simp [FutureBucket.isLive, clear] at liveA
    have samePlace : SameAt bucketHash i
        (level.setNext (FutureBucket.resolved bucketHash flagA output))
        (level'.setNext
          (FutureBucket.resolved bucketHash flagB output)) :=
      ⟨⟨sameLevel.mLevel, sameLevel.mCurr, sameLevel.mSnap,
        Or.inr ⟨output, FutureBucket.resolves_resolved flagA output,
          FutureBucket.resolves_resolved flagB output⟩⟩,
        sameLevel.index, fun zero => absurd zero notTop⟩
    exact ⟨_, by simp [liveB, resolvesB], same.set samePlace⟩

/-- Two lists that behave alike stay alike in any run. -/
theorem SameList.run (events : List (BucketListEvent κ ε)) {ledger : ℕ}
    {a b : BucketList κ ε η} (same : SameList bucketHash a b)
    {final : BucketListRun κ ε η}
    (runs : BucketListRun.run bucketHash keyOf
      { ledger := ledger, bucketList := a } events = some final) :
    ∃ other, BucketListRun.run bucketHash keyOf
        { ledger := ledger, bucketList := b } events = some other ∧
      SameList bucketHash final.bucketList other.bucketList := by
  induction events generalizing ledger a b with
  | nil =>
      cases runs
      exact ⟨_, rfl, same⟩
  | cons event events ih =>
      unfold BucketListRun.run at runs
      rw [List.foldlM_cons] at runs
      obtain ⟨next, steps, rest⟩ := Option.bind_eq_some_iff.mp runs
      cases event with
      | addBatch liveEntries deadEntries =>
          obtain ⟨added, adds, result⟩ := Option.bind_eq_some_iff.mp steps
          cases result
          obtain ⟨added', adds', sameAdded⟩ := same.addBatch adds
          obtain ⟨other, runs', sameFinal⟩ := ih sameAdded rest
          refine ⟨other, ?_, sameFinal⟩
          unfold BucketListRun.run at runs' ⊢
          rw [List.foldlM_cons, BucketListRun.step]
          simp only [adds', Option.bind_eq_bind, Option.bind_some,
            Option.pure_def]
          exact runs'
      | resolveNext i =>
          obtain ⟨resolved, resolves, result⟩ :=
            Option.bind_eq_some_iff.mp steps
          cases result
          obtain ⟨resolved', resolves', sameResolved⟩ :=
            same.resolveNext resolves
          obtain ⟨other, runs', sameFinal⟩ := ih sameResolved rest
          refine ⟨other, ?_, sameFinal⟩
          unfold BucketListRun.run at runs' ⊢
          rw [List.foldlM_cons, BucketListRun.step]
          simp only [resolves', Option.bind_eq_bind, Option.bind_some,
            Option.pure_def]
          exact runs'

end List

end StellarCore.Buckets
