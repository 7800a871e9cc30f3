import StellarCore.Buckets.LevelRanges

/-!
# The newest record of a key

Whatever batches are added, and whenever pending merges are resolved, the
first record found for a key is the last one written, except that a dead
record may be gone from the last level.
-/

namespace StellarCore.Buckets

open StellarCore.Lib

variable {κ ε η : Type} [LinearOrder κ]

section Run

/-- What can happen to a bucket list: a ledger closes, or somebody waits for
a merge. -/
inductive BucketListEvent (κ ε : Type) where
  | addBatch (liveEntries : List ε) (deadEntries : List κ)
  | resolveNext (level : Fin kNumLevels)

/-- A bucket list and the last ledger added to it. -/
structure BucketListRun (κ ε η : Type) where
  ledger : ℕ := 0
  bucketList : BucketList κ ε η

variable [DecidableEq η] (bucketHash : Bucket κ ε → η) (keyOf : ε → κ)

def BucketListRun.step (state : BucketListRun κ ε η)
    (event : BucketListEvent κ ε) : Option (BucketListRun κ ε η) :=
  match event with
  | .addBatch liveEntries deadEntries => do
      let added ← state.bucketList.addBatch bucketHash keyOf
        (UInt32.ofNat (state.ledger + 1)) liveEntries deadEntries
      return { ledger := state.ledger + 1, bucketList := added }
  | .resolveNext level => do
      let resolved ← state.bucketList.resolveNext bucketHash level
      return { state with bucketList := resolved }

/-- Batches are added at the ledgers 1, 2 and so on. -/
def BucketListRun.run (state : BucketListRun κ ε η)
    (events : List (BucketListEvent κ ε)) :
    Option (BucketListRun κ ε η) :=
  events.foldlM (BucketListRun.step bucketHash keyOf) state

/-- The first record for a key, from level 0 `curr` on. -/
def BucketList.firstRecord (bl : BucketList κ ε η) (key : κ) :
    Option (BucketEntry κ ε) :=
  bl.buckets.findSome? (fun bucket => lookup keyOf bucket key)

def batches (events : List (BucketListEvent κ ε)) :
    List (List ε × List κ) :=
  events.filterMap (fun event =>
    match event with
    | .addBatch liveEntries deadEntries => some (liveEntries, deadEntries)
    | .resolveNext _ => none)

/-- The last record written for a key. -/
def lastWritten (events : List (BucketListEvent κ ε)) (key : κ) :
    Option (BucketEntry κ ε) :=
  (batches events).foldl
    (fun last batch => (record keyOf batch.1 batch.2 key).or last) none

/-- The entry that a record stands for: none if it is dead. -/
def present : Option (BucketEntry κ ε) → Option ε
  | some (.liveEntry entry) => some entry
  | some (.deadEntry _) => none
  | none => none

/-- The batches hold at most one record for a key. -/
def OneRecordPerKey (events : List (BucketListEvent κ ε)) : Prop :=
  ∀ batch ∈ batches events, (batch.1.map keyOf ++ batch.2).Nodup

end Run

section List

variable (bucketHash : Bucket κ ε → η) (keyOf : ε → κ)
  (writes : ℕ → κ → Option (BucketEntry κ ε))

/-- The invariant of the list, level by level. -/
def ListHolds (now : ℕ) (bl : BucketList κ ε η) : Prop :=
  ∃ levels : ℕ → BucketLevel κ ε η,
    bl.mLevels = (List.range kNumLevels).map levels ∧
      ∀ i < kNumLevels,
        LevelHolds bucketHash keyOf writes now i (levels i)

/-- `curr` and `snap` of the first levels. -/
def bucketsAbove (levels : ℕ → BucketLevel κ ε η) (i : ℕ) :
    List (Bucket κ ε) :=
  (List.range i).flatMap (fun j => [(levels j).mCurr, (levels j).mSnap])

variable {bucketHash keyOf writes} {levels : ℕ → BucketLevel κ ε η}

omit [LinearOrder κ] in
theorem bucketsAbove_succ (i : ℕ) :
    bucketsAbove levels (i + 1) =
      bucketsAbove levels i ++ [(levels i).mCurr, (levels i).mSnap] := by
  unfold bucketsAbove
  rw [List.range_succ, List.flatMap_append]
  simp

omit [LinearOrder κ] in
theorem bucketsAbove_dropLast (i : ℕ) :
    (bucketsAbove levels (i + 1)).dropLast.dropLast =
      bucketsAbove levels i := by
  rw [bucketsAbove_succ]
  simp

omit [LinearOrder κ] in
theorem mem_bucketsAbove {i : ℕ} {bucket : Bucket κ ε}
    (member : bucket ∈ bucketsAbove levels i) :
    ∃ j < i, bucket = (levels j).mCurr ∨ bucket = (levels j).mSnap := by
  unfold bucketsAbove at member
  simpa using member

omit [LinearOrder κ] in
theorem map_range_set {α : Type} (f : ℕ → α) (n i : ℕ) (value : α) :
    ((List.range n).map f).set i value =
      (List.range n).map (Function.update f i value) := by
  apply List.ext_getElem
  · simp
  · intro j _ _
    rw [List.getElem_set]
    by_cases same : i = j
    · simp [same]
    · simp [same, Function.update_of_ne (Ne.symm same)]

omit [LinearOrder κ] in
theorem map_range_getElem {α : Type} (f : ℕ → α) {n i : ℕ} (lt : i < n) :
    ((List.range n).map f)[i]? = some (f i) := by
  simp [lt]

/-- The levels above only cover later ledgers. -/
theorem bucketsAbove_hold {now i : ℕ} (valid : i < kNumLevels)
    (holds : ∀ j < kNumLevels,
      LevelHolds bucketHash keyOf writes now j (levels j)) :
    ∀ bucket ∈ bucketsAbove levels i, ∃ low high,
      boundary now (2 * i) ≤ low ∧
        Holds keyOf writes now low high true bucket := by
  intro bucket member
  obtain ⟨j, above, place⟩ := mem_bucketsAbove member
  have inner : keepsDead j = true := by
    apply decide_eq_true
    omega
  have level := holds j (above.trans valid)
  rcases place with rfl | rfl
  · have curr := level.curr
    rw [inner] at curr
    exact ⟨_, _, boundary_antitone now (by omega), curr⟩
  · exact ⟨_, _, boundary_antitone now (by omega), level.snap⟩

section AddBatch

variable [DecidableEq η]

/-- The loop of `addBatch` brings one level after the other to the new
ledger, from the last one on. -/
theorem spillLoop_spec {now : ℕ}
    (holds : ∀ j < kNumLevels,
      LevelHolds bucketHash keyOf writes now j (levels j))
    (i : ℕ) (valid : i < kNumLevels)
    (current : ℕ → BucketLevel κ ε η)
    (waiting : ∀ j < i, current j = levels j)
    (reached : current i = halfway (now + 1) i (levels i))
    (passed : ∀ j, i < j → j < kNumLevels →
      LevelHolds bucketHash keyOf writes (now + 1) j (current j)) :
    ∃ final : ℕ → BucketLevel κ ε η,
      BucketList.spillLoop bucketHash keyOf (UInt32.ofNat (now + 1)) i
          (bucketsAbove levels i)
          { mLevels := (List.range kNumLevels).map current } =
        some { mLevels := (List.range kNumLevels).map final } ∧
      final 0 = halfway (now + 1) 0 (levels 0) ∧
      ∀ j, 0 < j → j < kNumLevels →
        LevelHolds bucketHash keyOf writes (now + 1) j (final j) := by
  induction i generalizing current with
  | zero => exact ⟨current, rfl, reached, passed⟩
  | succ i ih =>
      have validAbove : i < kNumLevels := by omega
      have decides := levelShouldSpill_iff (now + 1) validAbove
      rw [BucketList.spillLoop, bucketsAbove_dropLast]
      by_cases spills : Spills (now + 1) i
      · obtain ⟨committed, prepared, commits, prepares, preparedHolds⟩ :=
          (holds (i + 1) valid).spill_spec valid (holds i validAbove)
            spills (bucketsAbove_hold validAbove holds)
        have above : current i = levels i := waiting i (Nat.lt_succ_self i)
        let next := Function.update
          (Function.update current i (levels i).snap) (i + 1) prepared
        have spilled : BucketList.spillInto bucketHash keyOf
            { mLevels := (List.range kNumLevels).map current }
            (UInt32.ofNat (now + 1)) (bucketsAbove levels i) (i + 1) =
            some { mLevels := (List.range kNumLevels).map next } := by
          have snapped : (levels i).snap.mSnap = (levels i).mCurr := rfl
          unfold BucketList.spillInto
          simp only [Nat.add_sub_cancel, map_range_getElem _ validAbove,
            map_range_getElem _ valid, above, reached, snapped,
            Option.bind_eq_bind, Option.bind_some, commits, prepares,
            map_range_set]
          rfl
        obtain ⟨final, ends, top, finalHolds⟩ := ih validAbove next
          (fun j lt => by
            simp only [next]
            rw [Function.update_of_ne (by omega),
              Function.update_of_ne (by omega)]
            exact waiting j (by omega))
          (by
            simp only [next]
            rw [Function.update_of_ne (by omega), Function.update_self,
              halfway, if_pos spills])
          (fun j gt lt => by
            by_cases same : j = i + 1
            · subst same
              simp only [next, Function.update_self]
              exact preparedHolds
            · simp only [next]
              rw [Function.update_of_ne same,
                Function.update_of_ne (by omega)]
              exact passed j (by omega) lt)
        refine ⟨final, ?_, top, finalHolds⟩
        rw [if_pos (decides.mpr spills), spilled]
        exact ends
      · obtain ⟨final, ends, top, finalHolds⟩ := ih validAbove current
          (fun j lt => waiting j (by omega))
          (by
            rw [waiting i (Nat.lt_succ_self i), halfway, if_neg spills])
          (fun j gt lt => by
            by_cases same : j = i + 1
            · subst same
              rw [reached]
              exact (holds (i + 1) valid).quiet valid spills
            · exact passed j (by omega) lt)
        refine ⟨final, ?_, top, finalHolds⟩
        rw [if_neg (fun shouldSpill => spills (decides.mp shouldSpill))]
        exact ends

theorem addBatch_spec {now : ℕ} {bl : BucketList κ ε η}
    (holds : ListHolds bucketHash keyOf writes now bl)
    (bounded : now + 1 < 2 ^ 32) {liveEntries : List ε}
    {deadEntries : List κ}
    (distinct : (liveEntries.map keyOf ++ deadEntries).Nodup)
    (written : ∀ key,
      writes (now + 1) key = record keyOf liveEntries deadEntries key) :
    ∃ added,
      bl.addBatch bucketHash keyOf (UInt32.ofNat (now + 1)) liveEntries
          deadEntries = some added ∧
        ListHolds bucketHash keyOf writes (now + 1) added := by
  obtain ⟨levels, same, levelsHold⟩ := holds
  have buckets : bl.buckets = bucketsAbove levels kNumLevels := by
    unfold BucketList.buckets bucketsAbove
    rw [same, List.flatMap_map]
  have last : kNumLevels - 1 < kNumLevels := by decide
  have notLast : ¬ Spills (now + 1) (kNumLevels - 1) :=
    fun spills => Nat.lt_irrefl _ spills.1
  obtain ⟨final, loops, top, finalHolds⟩ := spillLoop_spec levelsHold
    (kNumLevels - 1) last levels (fun _ _ => rfl)
    (by rw [halfway, if_neg notLast])
    (fun j gt lt => by omega)
  obtain ⟨bucket, freshen, sorted, found⟩ := fresh_spec distinct
  obtain ⟨prepared, committed, prepares, commits, committedHolds⟩ :=
    (levelsHold 0 (by decide)).batch_spec sorted
      (fun key => (found key).trans (written key).symm)
  have positive : UInt32.ofNat (now + 1) > 0 := by
    rw [gt_iff_lt, UInt32.lt_iff_toNat_lt, UInt32.toNat_ofNat',
      Nat.mod_eq_of_lt bounded]
    exact Nat.succ_pos now
  let next := Function.update final 0 committed
  refine ⟨{ mLevels := (List.range kNumLevels).map next }, ?_, ?_⟩
  · have length : bl.mLevels.length - 1 = kNumLevels - 1 := by
      rw [same]
      simp
    have shadows : bl.buckets.dropLast.dropLast =
        bucketsAbove levels (kNumLevels - 1) := by
      rw [buckets]
      exact bucketsAbove_dropLast (kNumLevels - 1)
    have start : bl = { mLevels := (List.range kNumLevels).map levels } := by
      cases bl
      exact congrArg BucketList.mk same
    rw [BucketList.addBatch, length, shadows, start]
    simp only [guard, positive, if_true, Option.pure_def,
      Option.bind_eq_bind, Option.bind_some, loops,
      map_range_getElem final (i := 0) (n := kNumLevels) (by decide), top,
      freshen, prepares, commits, map_range_set]
    rfl
  · refine ⟨_, rfl, ?_⟩
    intro j valid
    by_cases isTop : j = 0
    · subst isTop
      simp only [next, Function.update_self]
      exact committedHolds
    · simp only [next, Function.update_of_ne isTop]
      exact finalHolds j (Nat.pos_of_ne_zero isTop) valid

/-- Resolving a merge early changes nothing that the list relies on. -/
theorem resolveNext_spec {now : ℕ} {bl : BucketList κ ε η}
    (holds : ListHolds bucketHash keyOf writes now bl)
    (i : Fin kNumLevels) :
    ∃ resolved, bl.resolveNext bucketHash i = some resolved ∧
      ListHolds bucketHash keyOf writes now resolved := by
  obtain ⟨levels, same, levelsHold⟩ := holds
  have level := levelsHold i i.isLt
  unfold BucketList.resolveNext
  rw [same, map_range_getElem levels i.isLt]
  rcases level.next with ⟨clear, -⟩ | ⟨notTop, output, delivers, covered⟩
  · have notLive : (levels i).mNextCurr.isLive = false := by
      simp [FutureBucket.isLive, clear.mState]
    refine ⟨bl, ?_, levels, same, levelsHold⟩
    simp [notLive]
  · let resolved := (levels i).setNext
      (FutureBucket.resolved bucketHash (keepsDead i) output)
    let next := Function.update levels i resolved
    refine ⟨{ mLevels := (List.range kNumLevels).map next }, ?_, ?_⟩
    · simp [delivers.isLive, delivers.resolve_eq, map_range_set, next,
        resolved]
    · refine ⟨next, rfl, ?_⟩
      intro j valid
      by_cases here : j = i
      · subst here
        simp only [next, Function.update_self]
        exact ⟨level.index, level.curr, level.snap,
          Or.inr ⟨notTop, output, .resolved output, covered⟩⟩
      · simp only [next, Function.update_of_ne here]
        exact levelsHold j valid

end AddBatch

section Scan

theorem bucketsAbove_tiles {now i : ℕ} (valid : i < kNumLevels)
    (holds : ∀ j < kNumLevels,
      LevelHolds bucketHash keyOf writes now j (levels j)) :
    Tiles writes now now ((bucketsAbove levels i).map (lookup keyOf))
      (boundary now (2 * i)) := by
  induction i with
  | zero => exact (boundary_zero now).symm
  | succ i ih =>
      have level := holds i (by omega)
      have inner : keepsDead i = true := by
        apply decide_eq_true
        omega
      have curr := level.curr
      rw [inner] at curr
      rw [bucketsAbove_succ, List.map_append]
      exact (ih (by omega)).append
        ⟨_, curr.covers, _, level.snap.covers, rfl⟩

/-- The scan finds the last record written, or nothing where that record is
dead. -/
theorem ListHolds.present_firstRecord {now : ℕ} {bl : BucketList κ ε η}
    (holds : ListHolds bucketHash keyOf writes now bl) (key : κ) :
    present (bl.firstRecord keyOf key) =
      present (lastWrite writes 0 now key) := by
  obtain ⟨levels, same, levelsHold⟩ := holds
  have bottom := levelsHold (kNumLevels - 1) (by decide)
  have tiles := bucketsAbove_tiles (i := kNumLevels - 1) (by decide)
    levelsHold
  have currCovers := bottom.curr.covers
  rw [boundary_bottom now (by decide)] at currCovers
  have snapEmpty : lookup keyOf (levels (kNumLevels - 1)).mSnap key =
      none := by
    apply bottom.snap.covers.written
    rw [boundary_bottom now (by decide), boundary_bottom now (by decide),
      lastWrite_of_le le_rfl]
  have scanned : bl.firstRecord keyOf key =
      ((bucketsAbove levels (kNumLevels - 1)).map (lookup keyOf) ++
        [lookup keyOf (levels (kNumLevels - 1)).mCurr]).findSome?
          (fun layer => layer key) := by
    have buckets : bl.buckets = bucketsAbove levels (kNumLevels - 1) ++
        [(levels (kNumLevels - 1)).mCurr,
          (levels (kNumLevels - 1)).mSnap] := by
      rw [← bucketsAbove_succ]
      unfold BucketList.buckets bucketsAbove
      rw [same, List.flatMap_map]
      rfl
    unfold BucketList.firstRecord
    rw [buckets, List.findSome?_append, List.findSome?_append,
      List.findSome?_map]
    simp only [List.findSome?_cons, List.findSome?_nil, snapEmpty]
    rfl
  rw [scanned]
  rcases tiles.findSome_append currCovers key with found | ⟨gone, record,
    last, dropped⟩
  · rw [found]
  · rw [gone, last]
    cases record with
    | liveEntry entry => simp [kept, BucketEntry.isDead] at dropped
    | deadEntry dead => rfl

end Scan

end List

section Runs

variable (bucketHash : Bucket κ ε → η) (keyOf : ε → κ)

theorem new_holds (writes : ℕ → κ → Option (BucketEntry κ ε))
    (uninitialized : ℕ → Bool) :
    ListHolds bucketHash keyOf writes 0 (BucketList.new uninitialized) := by
  refine ⟨fun i =>
    { mLevel := i
      mNextCurr := FutureBucket.new (uninitialized i) }, rfl, ?_⟩
  intro i _
  exact ⟨rfl, Holds.empty le_rfl, Holds.empty le_rfl,
    Or.inl ⟨⟨_, rfl⟩, rfl⟩⟩

/-- The writes of a list of batches: batch `t` is written at time `t + 1`. -/
def writesOf (written : List (List ε × List κ)) (time : ℕ) (key : κ) :
    Option (BucketEntry κ ε) :=
  match time with
  | 0 => none
  | time + 1 =>
      written[time]?.bind (fun batch => record keyOf batch.1 batch.2 key)

theorem lastWrite_writesOf (written : List (List ε × List κ)) (key : κ) :
    lastWrite (writesOf keyOf written) 0 written.length key =
      written.foldl
        (fun last batch => (record keyOf batch.1 batch.2 key).or last)
        none := by
  induction written using List.reverseRecOn with
  | nil => rfl
  | append_singleton written batch ih =>
      have earlier : ∀ time ≤ written.length,
          writesOf keyOf (written ++ [batch]) time =
            writesOf keyOf written time := by
        intro time le
        funext key
        cases time with
        | zero => rfl
        | succ time =>
            simp only [writesOf]
            rw [List.getElem?_append_left (by omega)]
      rw [List.length_append, List.length_singleton,
        lastWrite_succ (Nat.zero_le _), lastWrite_congr earlier, ih,
        List.foldl_append]
      simp [writesOf]

variable [DecidableEq η] {bucketHash keyOf}
  {writes : ℕ → κ → Option (BucketEntry κ ε)}

/-- The run lemma: every event keeps the invariant, and none fails. -/
theorem run_holds (events : List (BucketListEvent κ ε))
    (state : BucketListRun κ ε η)
    (holds : ListHolds bucketHash keyOf writes state.ledger
      state.bucketList)
    (onePerKey : OneRecordPerKey keyOf events)
    (bounded : state.ledger + (batches events).length < 2 ^ 32)
    (written : ∀ time batch, (batches events)[time]? = some batch →
      ∀ key, writes (state.ledger + time + 1) key =
        record keyOf batch.1 batch.2 key) :
    ∃ final, state.run bucketHash keyOf events = some final ∧
      final.ledger = state.ledger + (batches events).length ∧
      ListHolds bucketHash keyOf writes final.ledger
        final.bucketList := by
  induction events generalizing state with
  | nil => exact ⟨state, rfl, rfl, holds⟩
  | cons event events ih =>
      cases event with
      | addBatch liveEntries deadEntries =>
          have split : batches (.addBatch liveEntries deadEntries ::
              events) = (liveEntries, deadEntries) :: batches events := rfl
          unfold OneRecordPerKey at onePerKey
          rw [split] at onePerKey bounded written
          rw [List.length_cons] at bounded
          obtain ⟨added, adds, addedHolds⟩ := addBatch_spec holds
            (by omega) (onePerKey _ List.mem_cons_self) (written 0 _ rfl)
          obtain ⟨final, runs, count, finalHolds⟩ := ih
            { ledger := state.ledger + 1, bucketList := added } addedHolds
            (fun batch member =>
              onePerKey batch (List.mem_cons_of_mem _ member))
            (by show state.ledger + 1 + _ < _; omega)
            (fun time batch found key => by
              have later := written (time + 1) batch found key
              rw [← later]
              congr 1
              show state.ledger + 1 + time + 1 = _
              omega)
          refine ⟨final, ?_, ?_, finalHolds⟩
          · unfold BucketListRun.run at runs ⊢
            rw [List.foldlM_cons, BucketListRun.step, adds]
            exact runs
          · rw [count, split, List.length_cons]
            show state.ledger + 1 + _ = _
            omega
      | resolveNext i =>
          obtain ⟨resolved, resolves, resolvedHolds⟩ :=
            resolveNext_spec holds i
          obtain ⟨final, runs, count, finalHolds⟩ := ih
            { state with bucketList := resolved } resolvedHolds onePerKey
            bounded written
          refine ⟨final, ?_, count, finalHolds⟩
          unfold BucketListRun.run at runs ⊢
          rw [List.foldlM_cons, BucketListRun.step, resolves]
          exact runs

/-- Any run from an empty list reaches a list that holds its writes. -/
theorem run_new_holds (bucketHash : Bucket κ ε → η) (keyOf : ε → κ)
    (uninitialized : ℕ → Bool) {events : List (BucketListEvent κ ε)}
    (onePerKey : OneRecordPerKey keyOf events)
    (bounded : (batches events).length < 2 ^ 32) :
    ∃ final : BucketListRun κ ε η,
      BucketListRun.run bucketHash keyOf
          { bucketList := BucketList.new uninitialized } events =
        some final ∧
      final.ledger = (batches events).length ∧
      ListHolds bucketHash keyOf (writesOf keyOf (batches events))
        final.ledger final.bucketList := by
  have bounded' : 0 + (batches events).length < 2 ^ 32 := by omega
  have begins := new_holds bucketHash keyOf
    (writesOf keyOf (batches events)) uninitialized
  obtain ⟨final, runs, count, holds⟩ := run_holds events
    { bucketList := BucketList.new uninitialized } begins onePerKey
    bounded'
    (fun time batch found key => by
      show writesOf keyOf (batches events) (0 + time + 1) key = _
      simp [writesOf, found])
  exact ⟨final, runs, count.trans (Nat.zero_add _), holds⟩

/-- The list never fails, and the first record found for a key is the last
one written, where a dead record and no record both mean that there is no
entry. -/
theorem firstRecord_eq_lastWritten (bucketHash : Bucket κ ε → η)
    (keyOf : ε → κ) (uninitialized : ℕ → Bool)
    (events : List (BucketListEvent κ ε))
    (onePerKey : OneRecordPerKey keyOf events)
    (bounded : (batches events).length < 2 ^ 32) :
    ∃ final : BucketListRun κ ε η,
      BucketListRun.run bucketHash keyOf
          { bucketList := BucketList.new uninitialized } events =
        some final ∧
      ∀ key, present (final.bucketList.firstRecord keyOf key) =
        present (lastWritten keyOf events key) := by
  obtain ⟨final, runs, count, holds⟩ :=
    run_new_holds bucketHash keyOf uninitialized onePerKey bounded
  refine ⟨final, runs, ?_⟩
  intro key
  rw [holds.present_firstRecord key, count, lastWrite_writesOf]
  rfl

/-- An entry that is written, deleted and spilled with its deletion. -/
def smallEvents : List (BucketListEvent ℕ (ℕ × ℕ)) :=
  [.addBatch [(1, 7), (2, 8)] [], .addBatch [] [1],
    .resolveNext ⟨1, one_lt_kNumLevels⟩, .addBatch [(2, 9)] [],
    .addBatch [] []]

theorem smallEvents_firstRecord :
    ∃ final : BucketListRun ℕ (ℕ × ℕ) (Bucket ℕ (ℕ × ℕ)),
      BucketListRun.run id Prod.fst
          { bucketList := BucketList.new (fun _ => false) } smallEvents =
        some final ∧
      ∀ key, present (final.bucketList.firstRecord Prod.fst key) =
        present (lastWritten Prod.fst smallEvents key) :=
  firstRecord_eq_lastWritten id Prod.fst (fun _ => false) smallEvents
    (by unfold OneRecordPerKey; decide) (by decide)

end Runs

end StellarCore.Buckets
