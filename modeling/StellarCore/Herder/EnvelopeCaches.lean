import StellarCore.Herder.PendingEnvelopes

/-!
# What happens to the caches of quorum sets and transaction sets

A step puts an item with the slot it names, or lets the items of some slots
expire; apart from that it only raises the slots of items that are there.
-/

namespace StellarCore.Herder

open StellarCore.Lib

variable {ε η σ τ : Type} [DecidableEq ε] [DecidableEq η]

/-! ## Touching -/

/-- The second cache has every item of the first one, for the same slot or a
later one. -/
structure Raised {ν : Type} (before after : LruCache η (ℕ × ν)) : Prop where
  raises : ∀ {hash : η} {item : ℕ × ν}, before.find? hash = some item →
    ∃ later, item.1 ≤ later ∧ after.find? hash = some (later, item.2)
  absent : ∀ {hash : η}, before.find? hash = none → after.find? hash = none
  length : after.items.length ≤ before.items.length
  size : after.maxSize = before.maxSize

namespace Raised

variable {ν : Type} {before middle after : LruCache η (ℕ × ν)}

theorem refl (cache : LruCache η (ℕ × ν)) : Raised cache cache where
  raises := fun {_ item} found => ⟨item.1, Nat.le_refl _, found⟩
  absent := fun found => found
  length := Nat.le_refl _
  size := rfl

theorem trans (first : Raised before middle) (second : Raised middle after) :
    Raised before after := by
  constructor
  · intro hash item found
    obtain ⟨later, raised, foundLater⟩ := first.raises found
    obtain ⟨last, raisedAgain, foundLast⟩ := second.raises foundLater
    exact ⟨last, raised.trans raisedAgain, foundLast⟩
  · intro hash missing
    exact second.absent (first.absent missing)
  · exact second.length.trans first.length
  · exact second.size.trans first.size

theorem contains_eq (raised : Raised before after) (hash : η) :
    after.contains hash = before.contains hash := by
  unfold LruCache.contains
  cases found : before.find? hash with
  | none => rw [raised.absent found]
  | some item =>
      obtain ⟨later, -, foundLater⟩ := raised.raises found
      rw [foundLater]
      rfl

end Raised

namespace PendingEnvelopes

theorem find?_touch {ν : Type} (cache : LruCache η (ℕ × ν))
    (slotIndex : ℕ) (hash asked : η) :
    (touch cache slotIndex hash).find? asked =
      (cache.find? asked).map (fun item =>
        if asked = hash then (max item.1 slotIndex, item.2) else item) := by
  unfold touch LruCache.get?
  cases found : cache.find? hash with
  | none =>
      simp only [Option.map_none]
      by_cases same : asked = hash
      · rw [same, found]
        rfl
      · simp [same]
  | some item =>
      simp only [Option.map_some]
      by_cases same : asked = hash
      · rw [same, LruCache.find?_front_self, found]
        simp
      · rw [LruCache.find?_front_of_ne _ _ same,
          LruCache.find?_front_of_ne _ _ same]
        simp [same]

theorem raised_touch {ν : Type} (cache : LruCache η (ℕ × ν))
    (slotIndex : ℕ) (hash : η) :
    Raised cache (touch cache slotIndex hash) := by
  constructor
  · intro asked item found
    rw [find?_touch, found, Option.map_some]
    split
    · exact ⟨_, Nat.le_max_left _ _, rfl⟩
    · exact ⟨item.1, Nat.le_refl _, rfl⟩
  · intro asked missing
    rw [find?_touch, missing, Option.map_none]
  · unfold touch LruCache.get?
    cases found : cache.find? hash with
    | none => exact Nat.le_refl _
    | some item =>
        have once := cache.length_front_of_find? found item
        have again := (cache.front hash item).length_front_of_find?
          (cache.find?_front_self hash item) (max item.1 slotIndex, item.2)
        exact again.trans once
  · unfold touch LruCache.get?
    cases cache.find? hash with
    | none => rfl
    | some item => rfl

/-- An item that was touched has at least the slot it was touched for. -/
theorem le_of_touch {ν : Type} {cache : LruCache η (ℕ × ν)}
    {slotIndex : ℕ} {hash : η} {item : ℕ × ν}
    (found : (touch cache slotIndex hash).find? hash = some item) :
    slotIndex ≤ item.1 := by
  rw [find?_touch] at found
  cases old : cache.find? hash with
  | none =>
      rw [old] at found
      cases found
  | some value =>
      rw [old, Option.map_some, if_pos rfl] at found
      cases found
      exact Nat.le_max_right _ _

theorem raised_touches {ν : Type} (cache : LruCache η (ℕ × ν))
    (slotIndex : ℕ) (hashes : List η) :
    Raised cache (hashes.foldl
      (fun cache hash => touch cache slotIndex hash) cache) := by
  induction hashes generalizing cache with
  | nil => exact .refl cache
  | cons hash hashes ih =>
      exact (raised_touch cache slotIndex hash).trans (ih _)

theorem le_of_touches {ν : Type} {cache : LruCache η (ℕ × ν)}
    {slotIndex : ℕ} {hashes : List η} {hash : η} {item : ℕ × ν}
    (mentioned : hash ∈ hashes)
    (found : (hashes.foldl (fun cache hash => touch cache slotIndex hash)
      cache).find? hash = some item) : slotIndex ≤ item.1 := by
  induction hashes generalizing cache with
  | nil => cases mentioned
  | cons first hashes ih =>
      rcases List.mem_cons.mp mentioned with same | later
      · subst same
        have rest := raised_touches (touch cache slotIndex hash) slotIndex
          hashes
        cases known : (touch cache slotIndex hash).find? hash with
        | none =>
            have missing := rest.absent known
            rw [List.foldl_cons] at found
            rw [missing] at found
            cases found
        | some old =>
            obtain ⟨last, raised, foundLast⟩ := rest.raises known
            rw [List.foldl_cons] at found
            rw [foundLast] at found
            cases found
            exact (le_of_touch known).trans raised
      · exact ih later found

/-! ## Steps that only raise -/

/-- Both caches are only raised. -/
structure CachesRaised (before after : PendingEnvelopes ε η σ τ) :
    Prop where
  qset : Raised before.mQsetCache after.mQsetCache
  txset : Raised before.mTxSetCache after.mTxSetCache

namespace CachesRaised

variable {before middle after : PendingEnvelopes ε η σ τ}

omit [DecidableEq ε] in
theorem of_eq (qset : after.mQsetCache = before.mQsetCache)
    (txset : after.mTxSetCache = before.mTxSetCache) :
    CachesRaised before after where
  qset := by
    rw [qset]
    exact .refl _
  txset := by
    rw [txset]
    exact .refl _

omit [DecidableEq ε] in
theorem trans (first : CachesRaised before middle)
    (second : CachesRaised middle after) : CachesRaised before after where
  qset := first.qset.trans second.qset
  txset := first.txset.trans second.txset

end CachesRaised

section Reading

variable (reading : Reading ε η σ) (pending : PendingEnvelopes ε η σ τ)

theorem finishFetch_caches (env : ε) (hashes : List η) :
    (pending.finishFetch reading env hashes).2.mQsetCache =
        pending.mQsetCache ∧
      (pending.finishFetch reading env hashes).2.mTxSetCache =
        pending.mTxSetCache := by
  unfold finishFetch
  split
  · exact ⟨rfl, rfl⟩
  · exact ⟨rfl, rfl⟩

omit [DecidableEq ε] in
theorem startFetch_caches (env : ε) (hashes : List η) :
    (pending.startFetch reading env hashes).mQsetCache =
        pending.mQsetCache ∧
      (pending.startFetch reading env hashes).mTxSetCache =
        pending.mTxSetCache := by
  unfold startFetch
  simp only
  split
  · exact ⟨rfl, rfl⟩
  · exact ⟨rfl, rfl⟩

omit [DecidableEq ε] in
theorem touch_raises (env : ε) (hashes : List η) :
    CachesRaised pending
      ((pending.touchQset reading env).touchTxSets reading env hashes) where
  qset := raised_touch _ _ _
  txset := raised_touches _ _ _

theorem recvSCPEnvelope_raises (env : ε) (admitted : Bool) :
    CachesRaised pending
      (pending.recvSCPEnvelope reading env admitted).2 := by
  unfold recvSCPEnvelope
  split
  · exact .of_eq rfl rfl
  split
  · exact .of_eq rfl rfl
  split
  · exact ⟨raised_touch _ _ _, .refl _⟩
  · rename_i hashes _
    have touched := pending.touch_raises reading env hashes
    simp only
    split
    · obtain ⟨qset, txset⟩ := finishFetch_caches reading
        ((pending.touchQset reading env).touchTxSets reading env hashes)
        env hashes
      exact touched.trans (.of_eq qset txset)
    split
    · exact touched
    · refine touched.trans ?_
      generalize (pending.touchQset reading env).touchTxSets reading env
        hashes = after
      obtain ⟨qset, txset⟩ := finishFetch_caches reading
        (startFetch reading (after.setSlot (reading.slotIndex env)
          { after.mEnvelopes (reading.slotIndex env) with
            mFetchingEnvelopes := env :: (after.mEnvelopes
              (reading.slotIndex env)).mFetchingEnvelopes }) env hashes)
        env hashes
      obtain ⟨qsetBefore, txsetBefore⟩ := startFetch_caches reading
        (after.setSlot (reading.slotIndex env)
          { after.mEnvelopes (reading.slotIndex env) with
            mFetchingEnvelopes := env :: (after.mEnvelopes
              (reading.slotIndex env)).mFetchingEnvelopes }) env hashes
      exact .of_eq (qset.trans qsetBefore) (txset.trans txsetBefore)

theorem discardSCPEnvelope_raises (env : ε) :
    CachesRaised pending (pending.discardSCPEnvelope reading env) := by
  unfold discardSCPEnvelope
  split
  · exact .of_eq rfl rfl
  · unfold stopFetch
    simp only
    split
    · exact .of_eq rfl rfl
    · exact .of_eq rfl rfl

theorem discardSCPEnvelopesWithQSet_raises (hash : η) :
    CachesRaised pending
      (pending.discardSCPEnvelopesWithQSet reading hash) := by
  unfold discardSCPEnvelopesWithQSet
  generalize (pending.fetcher .qset).fetchingFor hash = waiting
  induction waiting generalizing pending with
  | nil => exact .of_eq rfl rfl
  | cons env waiting ih =>
      exact (pending.discardSCPEnvelope_raises reading env).trans (ih _)

theorem drain_raises (admitted : Bool) :
    CachesRaised pending (pending.drain reading admitted) := by
  unfold drain
  split
  · exact .of_eq rfl rfl
  split
  · exact .of_eq rfl rfl
  split
  · exact .of_eq rfl rfl
  · refine CachesRaised.trans ?_
      (recvSCPEnvelope_raises reading _ _ admitted)
    exact .of_eq rfl rfl

omit [DecidableEq ε] [DecidableEq η] in
theorem startDrain_caches (item : Item) (hash : η) :
    (pending.startDrain item hash).mQsetCache = pending.mQsetCache ∧
      (pending.startDrain item hash).mTxSetCache = pending.mTxSetCache := by
  unfold startDrain
  split
  · exact ⟨rfl, rfl⟩
  · exact ⟨rfl, rfl⟩

/-! ## What a step puts and what it lets expire -/

/-- The slot an item is marked with. -/
def itemSlot : Item → η → Option ℕ
  | .qset, hash => (pending.mQsetCache.find? hash).map Prod.fst
  | .txset, hash => (pending.mTxSetCache.find? hash).map Prod.fst

/-- The item that an event puts into its cache, and the slot. -/
def puts : PendingEvent ε η σ τ → Option (Item × η × ℕ)
  | .recvSCPQuorumSet hash q =>
      let lastSeenSlotIndex :=
        (pending.fetcher .qset).getLastSeenSlotIndex hash
      if lastSeenSlotIndex = 0 then none
      else if reading.isQuorumSetSane q then
        some (.qset, hash, lastSeenSlotIndex)
      else none
  | .addSCPQuorumSet hash lastSeenSlotIndex q =>
      if reading.isQuorumSetSane q then
        some (.qset, hash, lastSeenSlotIndex)
      else none
  | .recvTxSet hash _ =>
      let lastSeenSlotIndex :=
        (pending.fetcher .txset).getLastSeenSlotIndex hash
      if lastSeenSlotIndex = 0 then none
      else some (.txset, hash, lastSeenSlotIndex)
  | .addTxSet hash lastSeenSlotIndex _ =>
      some (.txset, hash, lastSeenSlotIndex)
  | _ => none

/-- The events that may put an item into its cache. -/
def inserts : Item → PendingEvent ε η σ τ → Bool
  | .qset, .recvSCPQuorumSet _ _ => true
  | .qset, .addSCPQuorumSet _ _ _ => true
  | .txset, .recvTxSet _ _ => true
  | .txset, .addTxSet _ _ _ => true
  | _, _ => false

/-- The slots whose items an event lets expire. -/
def expires : PendingEvent ε η σ τ → ℕ → Bool
  | .eraseBelow slotIndex, slot =>
      decide (slot ≠ 0) && decide (slot < slotIndex)
  | .slotClosed slotIndex, slot =>
      decide (maxSlotsToRemember < slotIndex) &&
        decide (slot = slotIndex - maxSlotsToRemember)
  | _, _ => false

def cacheLength : Item → ℕ
  | .qset => pending.mQsetCache.items.length
  | .txset => pending.mTxSetCache.items.length

def cacheSize : Item → ℕ
  | .qset => pending.mQsetCache.maxSize
  | .txset => pending.mTxSetCache.maxSize

end Reading

section Step

variable {before after : PendingEnvelopes ε η σ τ}

omit [DecidableEq ε] in
theorem CachesRaised.itemSlot (raised : CachesRaised before after)
    {item : Item} {hash : η} {slot : ℕ}
    (known : before.itemSlot item hash = some slot) :
    ∃ later, after.itemSlot item hash = some later ∧ slot ≤ later := by
  cases item with
  | qset =>
      obtain ⟨value, found, isSlot⟩ := Option.map_eq_some_iff.mp known
      obtain ⟨later, least, foundLater⟩ := raised.qset.raises found
      refine ⟨later, ?_, isSlot ▸ least⟩
      rw [PendingEnvelopes.itemSlot, foundLater]
      rfl
  | txset =>
      obtain ⟨value, found, isSlot⟩ := Option.map_eq_some_iff.mp known
      obtain ⟨later, least, foundLater⟩ := raised.txset.raises found
      refine ⟨later, ?_, isSlot ▸ least⟩
      rw [PendingEnvelopes.itemSlot, foundLater]
      rfl

omit [DecidableEq ε] in
theorem CachesRaised.cacheLength (raised : CachesRaised before after)
    (item : Item) :
    after.cacheLength item ≤ before.cacheLength item ∧
      after.cacheSize item = before.cacheSize item := by
  cases item with
  | qset => exact ⟨raised.qset.length, raised.qset.size⟩
  | txset => exact ⟨raised.txset.length, raised.txset.size⟩

variable (reading : Reading ε η σ) (pending : PendingEnvelopes ε η σ τ)

/-- What becomes of a quorum set or transaction set in one step. -/
structure Fate (event : PendingEvent ε η σ τ) (item : Item) (hash : η)
    (slot : ℕ) : Prop where
  gone : expires event slot = true →
    (pending.step reading event).itemSlot item hash = none
  kept : expires event slot = false →
    ∃ later, (pending.step reading event).itemSlot item hash = some later ∧
      (slot ≤ later ∨
        pending.puts reading event = some (item, hash, later))

omit [DecidableEq ε] in
/-- A quorum set that is added leaves the other items alone. -/
theorem addSCPQuorumSet_itemSlot {hash : η} {lastSeenSlotIndex : ℕ} {q : σ}
    (sane : reading.isQuorumSetSane q = true) {item : Item}
    (room : item = .qset → pending.cacheLength item < pending.cacheSize item)
    (asked : η) :
    (pending.addSCPQuorumSet reading hash lastSeenSlotIndex q).itemSlot item
        asked =
      if item = .qset ∧ asked = hash then some lastSeenSlotIndex
      else pending.itemSlot item asked := by
  unfold addSCPQuorumSet
  rw [if_pos sane]
  cases item with
  | qset =>
      rw [itemSlot, (startDrain_caches _ _ _).1]
      simp only [true_and]
      rw [LruCache.find?_put _ _ _ _ (room rfl)]
      split
      · rfl
      · rfl
  | txset =>
      rw [itemSlot, (startDrain_caches _ _ _).2, if_neg (by simp)]
      rfl

omit [DecidableEq ε] in
theorem addTxSet_itemSlot {hash : η} {lastSeenSlotIndex : ℕ} {txset : τ}
    {item : Item}
    (room : item = .txset → pending.cacheLength item < pending.cacheSize item)
    (asked : η) :
    (pending.addTxSet hash lastSeenSlotIndex txset).itemSlot item asked =
      if item = .txset ∧ asked = hash then some lastSeenSlotIndex
      else pending.itemSlot item asked := by
  unfold addTxSet
  cases item with
  | qset =>
      rw [itemSlot, (startDrain_caches _ _ _).1, if_neg (by simp)]
      rfl
  | txset =>
      rw [itemSlot, (startDrain_caches _ _ _).2]
      simp only [true_and]
      rw [LruCache.find?_put _ _ _ _ (room rfl)]
      split
      · rfl
      · rfl

variable {reading pending}

/-- A step that only raises lets nothing expire. -/
private theorem fate_of_raised {event : PendingEvent ε η σ τ} {item : Item}
    {hash : η} {slot : ℕ} (nothing : expires event slot = false)
    (raised : CachesRaised pending (pending.step reading event))
    (known : pending.itemSlot item hash = some slot) :
    pending.Fate reading event item hash slot := by
  constructor
  · intro gone
    rw [nothing] at gone
    cases gone
  · intro _
    obtain ⟨later, found, least⟩ := raised.itemSlot known
    exact ⟨later, found, .inl least⟩

/-- A step that puts an item keeps the others. -/
private theorem fate_of_put {event : PendingEvent ε η σ τ} {item put : Item}
    {hash other : η} {slot lastSeenSlotIndex : ℕ}
    (nothing : expires event slot = false)
    (isPut : pending.puts reading event = some (put, other, lastSeenSlotIndex))
    (found : (pending.step reading event).itemSlot item hash =
      if item = put ∧ hash = other then some lastSeenSlotIndex
      else pending.itemSlot item hash)
    (known : pending.itemSlot item hash = some slot) :
    pending.Fate reading event item hash slot := by
  constructor
  · intro gone
    rw [nothing] at gone
    cases gone
  · intro _
    by_cases same : item = put ∧ hash = other
    · rw [if_pos same] at found
      refine ⟨lastSeenSlotIndex, found, .inr ?_⟩
      rw [same.1, same.2]
      exact isPut
    · rw [if_neg same] at found
      exact ⟨slot, found.trans known, .inl (Nat.le_refl _)⟩

omit [DecidableEq ε] in
private theorem filter_slot {ν : Type} {cache : LruCache η (ℕ × ν)}
    {test : ℕ × ν → Bool} {hash : η} {slot : ℕ} {expired : Bool}
    (known : (cache.find? hash).map Prod.fst = some slot)
    (tested : ∀ value : ν, test (slot, value) = expired) :
    ((cache.eraseIf test).find? hash).map Prod.fst =
      if expired then none else some slot := by
  obtain ⟨value, found, isSlot⟩ := Option.map_eq_some_iff.mp known
  subst isSlot
  rw [LruCache.find?_eraseIf, found, Option.filter_some, tested value.2]
  cases expired with
  | true => rfl
  | false => rfl

private theorem fate_of_expiry {event : PendingEvent ε η σ τ} {item : Item}
    {hash : η} {slot : ℕ}
    (found : (pending.step reading event).itemSlot item hash =
      if expires event slot then none else some slot) :
    pending.Fate reading event item hash slot := by
  constructor
  · intro gone
    rw [found, gone]
    rfl
  · intro kept
    refine ⟨slot, ?_, .inl (Nat.le_refl _)⟩
    rw [found, kept]
    rfl

theorem step_fate {event : PendingEvent ε η σ τ} {item : Item} {hash : η}
    {slot : ℕ}
    (room : inserts item event = true →
      pending.cacheLength item < pending.cacheSize item)
    (known : pending.itemSlot item hash = some slot) :
    pending.Fate reading event item hash slot := by
  cases event with
  | recvSCPEnvelope env admitted =>
      exact fate_of_raised rfl
        (pending.recvSCPEnvelope_raises reading env admitted) known
  | recvSCPQuorumSet other q =>
      by_cases unseen :
          (pending.fetcher .qset).getLastSeenSlotIndex other = 0
      · refine fate_of_raised rfl ?_ known
        rw [step, recvSCPQuorumSet, if_pos unseen]
        exact .of_eq rfl rfl
      by_cases sane : reading.isQuorumSetSane q = true
      · have isPut : pending.puts reading (.recvSCPQuorumSet other q) =
            some (.qset, other,
              (pending.fetcher .qset).getLastSeenSlotIndex other) := by
          simp [puts, unseen, sane]
        refine fate_of_put rfl isPut ?_ known
        rw [step, recvSCPQuorumSet, if_neg unseen, if_pos sane]
        apply addSCPQuorumSet_itemSlot reading pending sane
        intro isQset
        subst isQset
        exact room rfl
      · refine fate_of_raised rfl ?_ known
        rw [step, recvSCPQuorumSet, if_neg unseen, if_neg sane]
        exact pending.discardSCPEnvelopesWithQSet_raises reading other
  | addSCPQuorumSet other lastSeenSlotIndex q =>
      by_cases sane : reading.isQuorumSetSane q = true
      · refine fate_of_put rfl (if_pos sane) ?_ known
        apply addSCPQuorumSet_itemSlot reading pending sane
        intro isQset
        subst isQset
        exact room rfl
      · refine fate_of_raised rfl ?_ known
        rw [step, addSCPQuorumSet, if_neg sane]
        exact .of_eq rfl rfl
  | recvTxSet other txset =>
      by_cases unseen :
          (pending.fetcher .txset).getLastSeenSlotIndex other = 0
      · refine fate_of_raised rfl ?_ known
        rw [step, recvTxSet, if_pos unseen]
        exact .of_eq rfl rfl
      · refine fate_of_put rfl (if_neg unseen) ?_ known
        rw [step, recvTxSet, if_neg unseen]
        apply addTxSet_itemSlot pending
        intro isTxset
        subst isTxset
        exact room rfl
  | addTxSet other lastSeenSlotIndex txset =>
      refine fate_of_put rfl rfl ?_ known
      apply addTxSet_itemSlot pending
      intro isTxset
      subst isTxset
      exact room rfl
  | drain admitted =>
      exact fate_of_raised rfl (pending.drain_raises reading admitted) known
  | poll =>
      refine fate_of_raised rfl ?_ known
      rw [step, poll]
      split
      · split
        · exact .of_eq rfl rfl
        · exact .of_eq rfl rfl
      · exact .of_eq rfl rfl
  | pop slotIndex =>
      refine fate_of_raised rfl ?_ known
      rw [step, pop]
      split
      · exact .of_eq rfl rfl
      · exact .of_eq rfl rfl
  | eraseBelow slotIndex =>
      apply fate_of_expiry
      cases item with
      | qset => exact filter_slot known (fun _ => rfl)
      | txset => exact filter_slot known (fun _ => rfl)
  | slotClosed slotIndex =>
      apply fate_of_expiry
      rw [step, slotClosed]
      by_cases late : maxSlotsToRemember < slotIndex
      · rw [if_pos late]
        cases item with
        | qset =>
            apply filter_slot known
            intro _
            simp [expires, late]
        | txset =>
            apply filter_slot known
            intro _
            simp [expires, late]
      · rw [if_neg late, known]
        simp [expires, late]

omit [DecidableEq ε] in
private theorem length_addSCPQuorumSet (hash : η) (lastSeenSlotIndex : ℕ)
    (q : σ) (item : Item) :
    (pending.addSCPQuorumSet reading hash lastSeenSlotIndex
          q).cacheLength item ≤
        pending.cacheLength item + (if item = .qset then 1 else 0) ∧
      (pending.addSCPQuorumSet reading hash lastSeenSlotIndex
          q).cacheSize item = pending.cacheSize item := by
  unfold addSCPQuorumSet
  split
  · cases item with
    | qset =>
        rw [cacheLength, cacheSize, (startDrain_caches _ _ _).1]
        exact ⟨LruCache.length_put _ _ _, LruCache.maxSize_put _ _ _⟩
    | txset =>
        rw [cacheLength, cacheSize, (startDrain_caches _ _ _).2]
        exact ⟨Nat.le_refl _, rfl⟩
  · exact ⟨Nat.le_add_right _ _, rfl⟩

omit [DecidableEq ε] in
private theorem length_addTxSet (hash : η) (lastSeenSlotIndex : ℕ)
    (txset : τ) (item : Item) :
    (pending.addTxSet hash lastSeenSlotIndex txset).cacheLength item ≤
        pending.cacheLength item + (if item = .txset then 1 else 0) ∧
      (pending.addTxSet hash lastSeenSlotIndex txset).cacheSize item =
        pending.cacheSize item := by
  unfold addTxSet
  cases item with
  | qset =>
      rw [cacheLength, cacheSize, (startDrain_caches _ _ _).1]
      exact ⟨Nat.le_refl _, rfl⟩
  | txset =>
      rw [cacheLength, cacheSize, (startDrain_caches _ _ _).2]
      exact ⟨LruCache.length_put _ _ _, LruCache.maxSize_put _ _ _⟩

variable (reading pending) in
theorem step_cacheLength (event : PendingEvent ε η σ τ) (item : Item) :
    (pending.step reading event).cacheLength item ≤
        pending.cacheLength item +
          (if inserts item event then 1 else 0) ∧
      (pending.step reading event).cacheSize item =
        pending.cacheSize item := by
  have raised : ∀ {after : PendingEnvelopes ε η σ τ},
      CachesRaised pending after →
        after.cacheLength item ≤ pending.cacheLength item +
            (if inserts item event then 1 else 0) ∧
          after.cacheSize item = pending.cacheSize item := by
    intro after raised
    obtain ⟨length, size⟩ := raised.cacheLength item
    exact ⟨length.trans (Nat.le_add_right _ _), size⟩
  cases event with
  | recvSCPEnvelope env admitted =>
      exact raised (pending.recvSCPEnvelope_raises reading env admitted)
  | recvSCPQuorumSet other q =>
      rw [step, recvSCPQuorumSet]
      split
      · exact raised (.of_eq rfl rfl)
      split
      · cases item with
        | qset => exact length_addSCPQuorumSet other _ q .qset
        | txset => exact length_addSCPQuorumSet other _ q .txset
      · exact raised
          (pending.discardSCPEnvelopesWithQSet_raises reading other)
  | addSCPQuorumSet other lastSeenSlotIndex q =>
      cases item with
      | qset => exact length_addSCPQuorumSet other _ q .qset
      | txset => exact length_addSCPQuorumSet other _ q .txset
  | recvTxSet other txset =>
      rw [step, recvTxSet]
      split
      · exact raised (.of_eq rfl rfl)
      cases item with
      | qset => exact length_addTxSet other _ txset .qset
      | txset => exact length_addTxSet other _ txset .txset
  | addTxSet other lastSeenSlotIndex txset =>
      cases item with
      | qset => exact length_addTxSet other _ txset .qset
      | txset => exact length_addTxSet other _ txset .txset
  | drain admitted => exact raised (pending.drain_raises reading admitted)
  | poll =>
      rw [step, poll]
      split
      · split
        · exact raised (.of_eq rfl rfl)
        · exact raised (.of_eq rfl rfl)
      · exact raised (.of_eq rfl rfl)
  | pop slotIndex =>
      rw [step, pop]
      split
      · exact raised (.of_eq rfl rfl)
      · exact raised (.of_eq rfl rfl)
  | eraseBelow slotIndex =>
      cases item with
      | qset => exact ⟨LruCache.length_eraseIf _ _, rfl⟩
      | txset => exact ⟨LruCache.length_eraseIf _ _, rfl⟩
  | slotClosed slotIndex =>
      rw [step, slotClosed]
      split
      · cases item with
        | qset => exact ⟨LruCache.length_eraseIf _ _, rfl⟩
        | txset => exact ⟨LruCache.length_eraseIf _ _, rfl⟩
      · exact raised (.of_eq rfl rfl)

end Step

end PendingEnvelopes

end StellarCore.Herder
