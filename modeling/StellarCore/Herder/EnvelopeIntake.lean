import StellarCore.Herder.EnvelopeCaches

/-!
# Intake of envelopes

An envelope of a slot that is remembered is being fetched, processed or
discarded, and becomes ready once.  What a ready envelope mentions is in the
caches as long as no item is put for a slot before that of a ready envelope
that mentions it, and no ready envelope is left behind when a later slot that
shares an item with it is closed.
-/

namespace StellarCore.Herder

open StellarCore.Lib

variable {ε η σ τ : Type} [DecidableEq ε] [DecidableEq η]

/-- The collections of a slot have no envelope in common. -/
structure SlotEnvelopes.Apart (slot : SlotEnvelopes ε) : Prop where
  fetching_processed : ∀ env ∈ slot.mFetchingEnvelopes,
    env ∉ slot.mProcessedEnvelopes
  fetching_discarded : ∀ env ∈ slot.mFetchingEnvelopes,
    env ∉ slot.mDiscardedEnvelopes
  processed_discarded : ∀ env ∈ slot.mProcessedEnvelopes,
    env ∉ slot.mDiscardedEnvelopes

section Invariant

variable (reading : Reading ε η σ) (contents : η → σ)

/-- The invariant of one slot.  `contents` gives the quorum set that a hash
stands for: whether it is sane separates processed from discarded. -/
structure SlotEnvelopes.Intact (index : ℕ) (slot : SlotEnvelopes ε) :
    Prop where
  fetching_processed : ∀ env ∈ slot.mFetchingEnvelopes,
    env ∉ slot.mProcessedEnvelopes
  fetching_discarded : ∀ env ∈ slot.mFetchingEnvelopes,
    env ∉ slot.mDiscardedEnvelopes
  processed : ∀ env ∈ slot.mProcessedEnvelopes,
    reading.slotIndex env = index ∧
      reading.isQuorumSetSane (contents (reading.qsetHash env)) = true
  discarded : ∀ env ∈ slot.mDiscardedEnvelopes,
    reading.isQuorumSetSane (contents (reading.qsetHash env)) = false
  once : slot.mProcessedEnvelopes.Nodup
  ready : slot.mReadyEnvelopes.Sublist slot.mProcessedEnvelopes

omit [DecidableEq ε] [DecidableEq η] in
theorem SlotEnvelopes.Intact.apart {index : ℕ} {slot : SlotEnvelopes ε}
    (intact : slot.Intact reading contents index) : slot.Apart where
  fetching_processed := intact.fetching_processed
  fetching_discarded := intact.fetching_discarded
  processed_discarded := by
    intro env processed discarded
    have sane := (intact.processed env processed).2
    rw [intact.discarded env discarded] at sane
    cases sane

omit [DecidableEq ε] [DecidableEq η] in
theorem SlotEnvelopes.empty_intact (index : ℕ) :
    SlotEnvelopes.empty.Intact reading contents index where
  fetching_processed := nofun
  fetching_discarded := nofun
  processed := nofun
  discarded := nofun
  once := List.nodup_nil
  ready := List.Sublist.refl _

variable {reading contents}

/-- The slot after an envelope that was being fetched became ready. -/
def SlotEnvelopes.finish (slot : SlotEnvelopes ε) (env : ε) :
    SlotEnvelopes ε :=
  { slot with
    mProcessedEnvelopes := slot.mProcessedEnvelopes ++ [env]
    mFetchingEnvelopes :=
      slot.mFetchingEnvelopes.filter (fun other => other ≠ env)
    mReadyEnvelopes := slot.mReadyEnvelopes ++ [env] }

omit [DecidableEq η] in
theorem SlotEnvelopes.Intact.finish {slot : SlotEnvelopes ε} {env : ε}
    (intact : slot.Intact reading contents (reading.slotIndex env))
    (fetching : env ∈ slot.mFetchingEnvelopes)
    (sane : reading.isQuorumSetSane (contents (reading.qsetHash env)) =
      true) :
    (slot.finish env).Intact reading contents (reading.slotIndex env) := by
  refine ⟨?_, ?_, ?_, intact.discarded, ?_, ?_⟩
  · intro other stays processed
    obtain ⟨fetched, different⟩ := List.mem_filter.mp stays
    rcases List.mem_append.mp processed with earlier | last
    · exact intact.fetching_processed other fetched earlier
    · exact of_decide_eq_true different (List.mem_singleton.mp last)
  · intro other stays
    exact intact.fetching_discarded other (List.mem_filter.mp stays).1
  · intro other processed
    rcases List.mem_append.mp processed with earlier | last
    · exact intact.processed other earlier
    · rw [List.mem_singleton.mp last]
      exact ⟨rfl, sane⟩
  · have fresh := intact.fetching_processed env fetching
    apply List.Nodup.append intact.once (List.nodup_singleton env)
    intro other earlier last
    rw [List.mem_singleton.mp last] at earlier
    exact fresh earlier
  · exact intact.ready.append (List.Sublist.refl _)

omit [DecidableEq ε] [DecidableEq η] in
theorem SlotEnvelopes.Intact.fetch {index : ℕ} {slot : SlotEnvelopes ε}
    {env : ε} (intact : slot.Intact reading contents index)
    (notProcessed : env ∉ slot.mProcessedEnvelopes)
    (notDiscarded : env ∉ slot.mDiscardedEnvelopes) :
    SlotEnvelopes.Intact reading contents index
      { slot with
        mFetchingEnvelopes := env :: slot.mFetchingEnvelopes } := by
  refine ⟨?_, ?_, intact.processed, intact.discarded, intact.once,
    intact.ready⟩
  · intro other fetching
    rcases List.mem_cons.mp fetching with isEnv | earlier
    · rw [isEnv]
      exact notProcessed
    · exact intact.fetching_processed other earlier
  · intro other fetching
    rcases List.mem_cons.mp fetching with isEnv | earlier
    · rw [isEnv]
      exact notDiscarded
    · exact intact.fetching_discarded other earlier

omit [DecidableEq η] in
theorem SlotEnvelopes.Intact.discard {index : ℕ} {slot : SlotEnvelopes ε}
    {env : ε} (intact : slot.Intact reading contents index)
    (insane : reading.isQuorumSetSane (contents (reading.qsetHash env)) =
      false) :
    SlotEnvelopes.Intact reading contents index
      { slot with
        mDiscardedEnvelopes := env :: slot.mDiscardedEnvelopes
        mFetchingEnvelopes :=
          slot.mFetchingEnvelopes.filter (fun other => other ≠ env) } := by
  refine ⟨?_, ?_, intact.processed, ?_, intact.once, intact.ready⟩
  · intro other stays
    exact intact.fetching_processed other (List.mem_filter.mp stays).1
  · intro other stays discarded
    obtain ⟨fetched, different⟩ := List.mem_filter.mp stays
    rcases List.mem_cons.mp discarded with isEnv | earlier
    · exact of_decide_eq_true different isEnv
    · exact intact.fetching_discarded other fetched earlier
  · intro other discarded
    rcases List.mem_cons.mp discarded with isEnv | earlier
    · rw [isEnv]
      exact insane
    · exact intact.discarded other earlier

variable (reading contents)

namespace PendingEnvelopes

structure Intact (pending : PendingEnvelopes ε η σ τ) : Prop where
  slots : ∀ index, (pending.mEnvelopes index).Intact reading contents index
  waiting : ∀ hash, ∀ env ∈ (pending.fetcher .qset).fetchingFor hash,
    reading.qsetHash env = hash
  cached : ∀ hash, pending.mQsetCache.contains hash = true →
    reading.isQuorumSetSane (contents hash) = true

/-- The hashes of items that an envelope mentions. -/
def mentions (env : ε) : Item → List η
  | .qset => [reading.qsetHash env]
  | .txset => (reading.getTxSetHashes env).getD []

/-- Everything the envelope mentions is there, and not for an earlier
slot. -/
structure Served (pending : PendingEnvelopes ε η σ τ) (env : ε) : Prop where
  decoded : (reading.getTxSetHashes env).isSome = true
  items : ∀ item, ∀ hash ∈ mentions reading env item,
    ∃ slot, pending.itemSlot item hash = some slot ∧
      reading.slotIndex env ≤ slot

/-- How often an envelope is among the processed ones. -/
def processedCount (pending : PendingEnvelopes ε η σ τ) (env : ε) : ℕ :=
  (pending.mEnvelopes (reading.slotIndex env)).mProcessedEnvelopes.count env

/-- What an operation that forgets no slot and no item does. -/
structure Proceeds (before after : PendingEnvelopes ε η σ τ) : Prop where
  raised : CachesRaised before after
  intact : before.Intact reading contents → after.Intact reading contents
  moves : ∀ env, after.broadcast.count env +
      before.processedCount reading env =
    before.broadcast.count env + after.processedCount reading env
  ready : ∀ index, ∀ env ∈ (after.mEnvelopes index).mReadyEnvelopes,
    env ∈ (before.mEnvelopes index).mReadyEnvelopes ∨
      after.Served reading env

end PendingEnvelopes

end Invariant

namespace PendingEnvelopes

variable {reading : Reading ε η σ} {contents : η → σ}
  {before middle after pending : PendingEnvelopes ε η σ τ}

omit [DecidableEq ε] in
theorem Served.mono {env : ε} (served : before.Served reading env)
    (raised : CachesRaised before after) : after.Served reading env where
  decoded := served.decoded
  items := by
    intro item hash mentioned
    obtain ⟨slot, known, least⟩ := served.items item hash mentioned
    obtain ⟨later, knownLater, more⟩ := raised.itemSlot known
    exact ⟨later, knownLater, least.trans more⟩

omit [DecidableEq ε] [DecidableEq η] in
theorem setSlot_mEnvelopes (pending : PendingEnvelopes ε η σ τ)
    (index other : ℕ) (slot : SlotEnvelopes ε) :
    (pending.setSlot index slot).mEnvelopes other =
      if other = index then slot else pending.mEnvelopes other :=
  Function.update_apply _ _ _ _

namespace Proceeds

theorem trans (first : Proceeds reading contents before middle)
    (second : Proceeds reading contents middle after) :
    Proceeds reading contents before after where
  raised := first.raised.trans second.raised
  intact := fun intact => second.intact (first.intact intact)
  moves := by
    intro env
    have once := first.moves env
    have again := second.moves env
    omega
  ready := by
    intro index env isReady
    rcases second.ready index env isReady with earlier | served
    · rcases first.ready index env earlier with earliest | served
      · exact .inl earliest
      · exact .inr (served.mono second.raised)
    · exact .inr served

/-- An operation that leaves the envelopes alone. -/
theorem of_same (raised : CachesRaised before after)
    (envelopes : after.mEnvelopes = before.mEnvelopes)
    (broadcast : after.broadcast = before.broadcast)
    (waiting : before.Intact reading contents → ∀ hash,
      ∀ env ∈ (after.fetcher .qset).fetchingFor hash,
        reading.qsetHash env = hash) :
    Proceeds reading contents before after where
  raised := raised
  intact := by
    intro intact
    refine ⟨?_, waiting intact, ?_⟩
    · rw [envelopes]
      exact intact.slots
    · intro hash known
      rw [raised.qset.contains_eq] at known
      exact intact.cached hash known
  moves := by
    intro env
    rw [broadcast, processedCount, processedCount, envelopes]
  ready := by
    intro index env isReady
    rw [envelopes] at isReady
    exact .inl isReady

/-- An operation on one slot that processes nothing. -/
theorem of_slot {index : ℕ} {slot : SlotEnvelopes ε}
    (intact : (pending.mEnvelopes index).Intact reading contents index →
      slot.Intact reading contents index)
    (processed : slot.mProcessedEnvelopes =
      (pending.mEnvelopes index).mProcessedEnvelopes)
    (ready : ∀ env ∈ slot.mReadyEnvelopes,
      env ∈ (pending.mEnvelopes index).mReadyEnvelopes) :
    Proceeds reading contents pending (pending.setSlot index slot) where
  raised := .of_eq rfl rfl
  intact := by
    intro before
    refine ⟨?_, before.waiting, before.cached⟩
    intro other
    rw [setSlot_mEnvelopes]
    split
    · rename_i same
      subst same
      exact intact (before.slots other)
    · exact before.slots other
  moves := by
    intro env
    have count : (pending.setSlot index slot).processedCount reading env =
        pending.processedCount reading env := by
      unfold processedCount
      rw [setSlot_mEnvelopes]
      split
      · rename_i same
        rw [processed, same]
      · rfl
    rw [count]
    rfl
  ready := by
    intro other env isReady
    rw [setSlot_mEnvelopes] at isReady
    split at isReady
    · rename_i same
      subst same
      exact .inl (ready env isReady)
    · exact .inl isReady

end Proceeds

/-! ## Fetchers -/

section Fetcher

omit [DecidableEq ε]

theorem fetchingFor_update (fetcher : ItemFetcher ε η) (hash asked : η)
    (tracker : Tracker ε) :
    ItemFetcher.fetchingFor (Function.update fetcher hash (some tracker))
        asked =
      if asked = hash then tracker.mWaitingEnvelopes
      else fetcher.fetchingFor asked := by
  unfold ItemFetcher.fetchingFor
  by_cases same : asked = hash
  · subst same
    rw [Function.update_self, if_pos rfl]
  · rw [Function.update_of_ne same, if_neg same]

theorem mem_fetchingFor_fetch {fetcher : ItemFetcher ε η} {hash asked : η}
    {env other : ε}
    (waiting : other ∈ (fetcher.fetch reading hash env).fetchingFor asked) :
    other ∈ fetcher.fetchingFor asked ∨ other = env ∧ asked = hash := by
  unfold ItemFetcher.fetch at waiting
  cases known : fetcher hash with
  | none =>
      simp only [known, fetchingFor_update] at waiting
      split at waiting
      · rename_i same
        rw [Tracker.listen, List.nil_append, List.mem_singleton] at waiting
        exact .inr ⟨waiting, same⟩
      · exact .inl waiting
  | some tracker =>
      simp only [known, fetchingFor_update] at waiting
      split at waiting
      · rename_i same
        rcases List.mem_append.mp waiting with earlier | last
        · left
          rw [same, ItemFetcher.fetchingFor, known]
          exact earlier
        · exact .inr ⟨List.mem_singleton.mp last, same⟩
      · exact .inl waiting

omit [DecidableEq η] in
theorem mem_fetchingFor_stopFetchingBelow {fetcher : ItemFetcher ε η}
    {slotIndex : ℕ} {asked : η} {env : ε}
    (waiting : env ∈ (fetcher.stopFetchingBelowInternal reading
      slotIndex).fetchingFor asked) : env ∈ fetcher.fetchingFor asked := by
  unfold ItemFetcher.fetchingFor ItemFetcher.stopFetchingBelowInternal at *
  cases known : fetcher asked with
  | none =>
      simp only [known] at waiting
      cases waiting
  | some tracker =>
      simp only [known] at waiting
      split at waiting
      · cases waiting
      · rename_i _ kept isKept
        split at isKept
        · cases isKept
        · cases isKept
          exact (List.mem_filter.mp waiting).1

end Fetcher

theorem mem_fetchingFor_stopFetch {fetcher : ItemFetcher ε η}
    {hash asked : η} {env other : ε}
    (waiting : other ∈ (fetcher.stopFetch hash env).fetchingFor asked) :
    other ∈ fetcher.fetchingFor asked := by
  unfold ItemFetcher.stopFetch at waiting
  cases known : fetcher hash with
  | none =>
      simp only [known] at waiting
      exact waiting
  | some tracker =>
      simp only [known, fetchingFor_update] at waiting
      split at waiting
      · rename_i same
        have among : other ∈ tracker.mWaitingEnvelopes.filter
            (fun other => other ≠ env) := by
          split at waiting
          · exact waiting
          · exact waiting
        rw [same, ItemFetcher.fetchingFor, known]
        exact (List.mem_filter.mp among).1
      · exact waiting

/-! ## Receiving an envelope -/

omit [DecidableEq ε] in
theorem startFetch_envelopes (reading : Reading ε η σ)
    (pending : PendingEnvelopes ε η σ τ) (env : ε) (hashes : List η) :
    (pending.startFetch reading env hashes).mEnvelopes =
        pending.mEnvelopes ∧
      (pending.startFetch reading env hashes).broadcast =
        pending.broadcast := by
  unfold startFetch
  simp only
  split
  · exact ⟨rfl, rfl⟩
  · exact ⟨rfl, rfl⟩

theorem proceeds_startFetch (env : ε) (hashes : List η) :
    Proceeds reading contents pending
      (pending.startFetch reading env hashes) := by
  obtain ⟨qset, txset⟩ := pending.startFetch_caches reading env hashes
  obtain ⟨envelopes, broadcast⟩ :=
    pending.startFetch_envelopes reading env hashes
  refine .of_same (.of_eq qset txset) envelopes broadcast ?_
  · intro intact hash other waiting
    unfold startFetch at waiting
    simp only at waiting
    split at waiting
    · exact intact.waiting hash other waiting
    · rcases mem_fetchingFor_fetch waiting with earlier | ⟨isEnv, isHash⟩
      · exact intact.waiting hash other earlier
      · rw [isEnv, isHash]

/-- The caches have nothing that the envelope mentions for an earlier
slot. -/
structure Touched (reading : Reading ε η σ)
    (pending : PendingEnvelopes ε η σ τ) (env : ε) (hashes : List η) :
    Prop where
  qset : ∀ {item}, pending.mQsetCache.find? (reading.qsetHash env) =
    some item → reading.slotIndex env ≤ item.1
  txset : ∀ {hash}, hash ∈ hashes →
    ∀ {item}, pending.mTxSetCache.find? hash = some item →
      reading.slotIndex env ≤ item.1

omit [DecidableEq ε] in
theorem served_of_isFullyFetched {env : ε} {hashes : List η}
    (decoded : reading.getTxSetHashes env = some hashes)
    (touched : pending.Touched reading env hashes)
    (fetched : pending.isFullyFetched reading env hashes = true) :
    pending.Served reading env := by
  obtain ⟨qset, txsets⟩ := Bool.and_eq_true_iff.mp fetched
  constructor
  · rw [decoded]
    rfl
  · intro item hash mentioned
    cases item with
    | qset =>
        rw [List.mem_singleton.mp mentioned]
        obtain ⟨value, found⟩ := Option.isSome_iff_exists.mp qset
        refine ⟨value.1, ?_, touched.qset found⟩
        rw [itemSlot, found]
        rfl
    | txset =>
        rw [mentions, decoded, Option.getD_some] at mentioned
        have known := List.all_eq_true.mp txsets hash mentioned
        obtain ⟨value, found⟩ := Option.isSome_iff_exists.mp known
        refine ⟨value.1, ?_, touched.txset mentioned found⟩
        rw [itemSlot, found]
        rfl

theorem proceeds_finishFetch {env : ε} {hashes : List η}
    (decoded : reading.getTxSetHashes env = some hashes)
    (fetching : env ∈ (pending.mEnvelopes
      (reading.slotIndex env)).mFetchingEnvelopes)
    (touched : pending.Touched reading env hashes) :
    Proceeds reading contents pending
      (pending.finishFetch reading env hashes).2 := by
  unfold finishFetch
  split
  · rename_i fetched
    have served := served_of_isFullyFetched decoded touched fetched
    refine ⟨.of_eq rfl rfl, ?_, ?_, ?_⟩
    · intro intact
      have sane := intact.cached (reading.qsetHash env)
        (Bool.and_eq_true_iff.mp fetched).1
      refine ⟨?_, intact.waiting, intact.cached⟩
      intro index
      show SlotEnvelopes.Intact reading contents index
        ((pending.setSlot (reading.slotIndex env)
          ((pending.mEnvelopes (reading.slotIndex env)).finish
            env)).mEnvelopes index)
      rw [setSlot_mEnvelopes]
      split
      · rename_i same
        rw [same]
        exact (intact.slots (reading.slotIndex env)).finish fetching sane
      · exact intact.slots index
    · intro other
      show (pending.broadcast ++ [env]).count other + _ = _ +
        ((pending.setSlot (reading.slotIndex env)
          ((pending.mEnvelopes (reading.slotIndex env)).finish
            env)).mEnvelopes (reading.slotIndex
              other)).mProcessedEnvelopes.count other
      rw [setSlot_mEnvelopes, List.count_append]
      by_cases same : other = env
      · rw [same, if_pos rfl]
        show _ = _ + ((pending.mEnvelopes (reading.slotIndex
          env)).mProcessedEnvelopes ++ [env]).count env
        rw [List.count_append, processedCount]
        omega
      · have none : [env].count other = 0 := by
          rw [List.count_eq_zero, List.mem_singleton]
          exact same
        rw [none, Nat.add_zero, processedCount]
        split
        · rename_i sameSlot
          show _ = _ + ((pending.mEnvelopes (reading.slotIndex
            env)).mProcessedEnvelopes ++ [env]).count other
          rw [List.count_append, none, sameSlot]
          rfl
        · rfl
    · intro index other isReady
      replace isReady : other ∈ ((pending.setSlot (reading.slotIndex env)
          ((pending.mEnvelopes (reading.slotIndex env)).finish
            env)).mEnvelopes index).mReadyEnvelopes := isReady
      rw [setSlot_mEnvelopes] at isReady
      split at isReady
      · rename_i same
        rcases List.mem_append.mp isReady with earlier | last
        · rw [same]
          exact .inl earlier
        · right
          rw [List.mem_singleton.mp last]
          exact ⟨served.decoded, served.items⟩
      · exact .inl isReady
  · exact .of_same (.of_eq rfl rfl) rfl rfl (fun intact => intact.waiting)

omit [DecidableEq ε] in
theorem touched_of_touch {env : ε} (hashes : List η) :
    ((pending.touchQset reading env).touchTxSets reading env
      hashes).Touched reading env hashes where
  qset := fun found => le_of_touch found
  txset := fun mentioned _ found => le_of_touches mentioned found

theorem proceeds_recvSCPEnvelope (env : ε) (admitted : Bool) :
    Proceeds reading contents pending
      (pending.recvSCPEnvelope reading env admitted).2 := by
  have touchOnly : ∀ {after : PendingEnvelopes ε η σ τ},
      CachesRaised pending after → after.mEnvelopes = pending.mEnvelopes →
      after.broadcast = pending.broadcast →
      after.fetcher = pending.fetcher →
      Proceeds reading contents pending after := by
    intro after raised envelopes broadcast fetcher
    refine .of_same raised envelopes broadcast ?_
    rw [fetcher]
    exact fun intact => intact.waiting
  unfold recvSCPEnvelope
  split
  · exact touchOnly (.of_eq rfl rfl) rfl rfl rfl
  split
  · exact touchOnly (.of_eq rfl rfl) rfl rfl rfl
  rename_i kept
  split
  · exact touchOnly ⟨raised_touch _ _ _, .refl _⟩ rfl rfl rfl
  · rename_i hashes decoded
    have touched := touchOnly (pending.touch_raises reading env hashes)
      rfl rfl rfl
    have marks : ((pending.touchQset reading env).touchTxSets reading env
        hashes).Touched reading env hashes := touched_of_touch hashes
    have notDiscarded : env ∉ (((pending.touchQset reading env).touchTxSets
        reading env hashes).mEnvelopes
          (reading.slotIndex env)).mDiscardedEnvelopes :=
      fun discarded => kept (decide_eq_true discarded)
    refine touched.trans ?_
    generalize (pending.touchQset reading env).touchTxSets reading env
      hashes = start at marks notDiscarded
    simp only
    split
    · rename_i fetching
      exact proceeds_finishFetch decoded fetching marks
    split
    · exact .of_same (.of_eq rfl rfl) rfl rfl (fun intact => intact.waiting)
    · rename_i notProcessed
      have inserted : Proceeds reading contents start
          (start.setSlot (reading.slotIndex env)
            { start.mEnvelopes (reading.slotIndex env) with
              mFetchingEnvelopes := env :: (start.mEnvelopes
                (reading.slotIndex env)).mFetchingEnvelopes }) :=
        .of_slot (fun intact => intact.fetch notProcessed notDiscarded) rfl
          (fun _ isReady => isReady)
      refine inserted.trans ((proceeds_startFetch env hashes).trans ?_)
      obtain ⟨qset, txset⟩ := startFetch_caches reading
        (start.setSlot (reading.slotIndex env)
          { start.mEnvelopes (reading.slotIndex env) with
            mFetchingEnvelopes := env :: (start.mEnvelopes
              (reading.slotIndex env)).mFetchingEnvelopes }) env hashes
      apply proceeds_finishFetch decoded
      · rw [(startFetch_envelopes reading _ env hashes).1,
          setSlot_mEnvelopes, if_pos rfl]
        exact List.mem_cons_self
      · refine ⟨?_, ?_⟩
        · rw [qset]
          exact marks.qset
        · rw [txset]
          exact marks.txset

/-! ## The other operations -/

omit [DecidableEq ε] [DecidableEq η] in
theorem setFetcher_fetcher (pending : PendingEnvelopes ε η σ τ)
    (item other : Item) (fetcher : ItemFetcher ε η) :
    (pending.setFetcher item fetcher).fetcher other =
      if other = item then fetcher else pending.fetcher other :=
  Function.update_apply _ _ _ _

theorem proceeds_stopFetch (env : ε) :
    Proceeds reading contents pending (pending.stopFetch reading env) := by
  have first : ∀ hash, ∀ other ∈ ((pending.fetcher .qset).stopFetch
      (reading.qsetHash env) env).fetchingFor hash,
        other ∈ (pending.fetcher .qset).fetchingFor hash :=
    fun hash other waiting => mem_fetchingFor_stopFetch waiting
  unfold stopFetch
  simp only
  split
  · refine .of_same (.of_eq rfl rfl) rfl rfl ?_
    intro intact hash other waiting
    exact intact.waiting hash other (first hash other waiting)
  · refine .of_same (.of_eq rfl rfl) rfl rfl ?_
    intro intact hash other waiting
    exact intact.waiting hash other (first hash other waiting)

theorem proceeds_discardSCPEnvelope {env : ε}
    (insane : reading.isQuorumSetSane (contents (reading.qsetHash env)) =
      false) :
    Proceeds reading contents pending
      (pending.discardSCPEnvelope reading env) := by
  unfold discardSCPEnvelope
  split
  · exact .of_same (.of_eq rfl rfl) rfl rfl (fun intact => intact.waiting)
  · have discarded : Proceeds reading contents pending
        (pending.setSlot (reading.slotIndex env)
          { pending.mEnvelopes (reading.slotIndex env) with
            mDiscardedEnvelopes := env :: (pending.mEnvelopes
              (reading.slotIndex env)).mDiscardedEnvelopes
            mFetchingEnvelopes := (pending.mEnvelopes
              (reading.slotIndex env)).mFetchingEnvelopes.filter
                (fun other => other ≠ env) }) :=
      .of_slot (fun intact => intact.discard insane) rfl
        (fun _ isReady => isReady)
    exact discarded.trans (proceeds_stopFetch env)

/-- The envelopes that wait for an insane quorum set mention it. -/
theorem proceeds_discardSCPEnvelopesWithQSet
    (intact : pending.Intact reading contents) {hash : η}
    (insane : reading.isQuorumSetSane (contents hash) = false) :
    Proceeds reading contents pending
      (pending.discardSCPEnvelopesWithQSet reading hash) := by
  have mention := intact.waiting hash
  unfold discardSCPEnvelopesWithQSet
  generalize (pending.fetcher .qset).fetchingFor hash = waiting at mention
  clear intact
  induction waiting generalizing pending with
  | nil =>
      exact .of_same (.of_eq rfl rfl) rfl rfl (fun intact => intact.waiting)
  | cons env waiting ih =>
      have first : Proceeds reading contents pending
          (pending.discardSCPEnvelope reading env) := by
        apply proceeds_discardSCPEnvelope
        rw [mention env List.mem_cons_self]
        exact insane
      exact first.trans
        (ih (fun other later => mention other (List.mem_cons_of_mem _ later)))

theorem proceeds_updateTracker {item : Item} {hash : η}
    {old tracker : Tracker ε} (known : pending.fetcher item hash = some old)
    (fewer : ∀ env ∈ tracker.mWaitingEnvelopes, env ∈ old.mWaitingEnvelopes)
    (draining : List (Item × η)) :
    Proceeds reading contents pending
      { pending.setFetcher item
          (Function.update (pending.fetcher item) hash (some tracker)) with
        draining := draining } := by
  refine .of_same (.of_eq rfl rfl) rfl rfl ?_
  intro intact asked env waiting
  replace waiting : env ∈ ItemFetcher.fetchingFor
    ((pending.setFetcher item (Function.update (pending.fetcher item) hash
      (some tracker))).fetcher .qset) asked := waiting
  rw [setFetcher_fetcher] at waiting
  split at waiting
  · rename_i isQset
    subst isQset
    rw [fetchingFor_update] at waiting
    split at waiting
    · rename_i same
      apply intact.waiting asked
      rw [same, ItemFetcher.fetchingFor, known]
      exact fewer env waiting
    · exact intact.waiting asked env waiting
  · exact intact.waiting asked env waiting

theorem proceeds_drain (admitted : Bool) :
    Proceeds reading contents pending (pending.drain reading admitted) := by
  unfold drain
  split
  · exact .of_same (.of_eq rfl rfl) rfl rfl (fun intact => intact.waiting)
  split
  · exact .of_same (.of_eq rfl rfl) rfl rfl (fun intact => intact.waiting)
  rename_i known
  split
  · refine proceeds_updateTracker known ?_ _
    exact fun _ waiting => waiting
  · refine (proceeds_updateTracker known ?_ pending.draining).trans
      (proceeds_recvSCPEnvelope _ admitted)
    exact fun _ waiting => List.mem_of_mem_dropLast waiting

theorem proceeds_poll :
    Proceeds reading contents pending (pending.poll reading) := by
  unfold poll
  split
  · exact .of_same (.of_eq rfl rfl) rfl rfl (fun intact => intact.waiting)
  · rename_i item slotIndex posted _
    refine .of_same (.of_eq rfl rfl) rfl rfl ?_
    intro intact asked env waiting
    replace waiting : env ∈ ItemFetcher.fetchingFor
      ((pending.setFetcher item ((pending.fetcher
        item).stopFetchingBelowInternal reading slotIndex)).fetcher .qset)
          asked := waiting
    rw [setFetcher_fetcher] at waiting
    split at waiting
    · rename_i isQset
      subst isQset
      exact intact.waiting asked env
        (mem_fetchingFor_stopFetchingBelow waiting)
    · exact intact.waiting asked env waiting

theorem proceeds_pop (slotIndex : ℕ) :
    Proceeds reading contents pending (pending.pop slotIndex).2 := by
  unfold pop
  split
  · exact .of_same (.of_eq rfl rfl) rfl rfl (fun intact => intact.waiting)
  · refine .of_slot ?_ rfl (fun _ isReady => List.mem_of_mem_dropLast isReady)
    intro intact
    exact ⟨intact.fetching_processed, intact.fetching_discarded,
      intact.processed, intact.discarded, intact.once,
      (List.dropLast_sublist _).trans intact.ready⟩

/-! ## Steps -/

/-- The quorum sets that arrive are those their hashes stand for. -/
def Genuine (contents : η → σ) : PendingEvent ε η σ τ → Prop
  | .recvSCPQuorumSet hash q => contents hash = q
  | .addSCPQuorumSet hash _ q => contents hash = q
  | _ => True

/-- The slots that an event makes the node forget. -/
def forgets : PendingEvent ε η σ τ → ℕ → Bool
  | .eraseBelow slotIndex, index => decide (index < slotIndex)
  | .slotClosed slotIndex, index =>
      decide (maxSlotsToRemember < slotIndex) &&
        decide (index = slotIndex - maxSlotsToRemember)
  | _, _ => false

/-- What a step does. -/
structure Carries (reading : Reading ε η σ) (contents : η → σ)
    (pending : PendingEnvelopes ε η σ τ) (event : PendingEvent ε η σ τ) :
    Prop where
  intact : (pending.step reading event).Intact reading contents
  moves : ∀ env, forgets event (reading.slotIndex env) = false →
    (pending.step reading event).broadcast.count env +
        pending.processedCount reading env =
      pending.broadcast.count env +
        (pending.step reading event).processedCount reading env
  ready : ∀ index, ∀ env ∈ ((pending.step reading event).mEnvelopes
      index).mReadyEnvelopes,
    env ∈ (pending.mEnvelopes index).mReadyEnvelopes ∧
        forgets event index = false ∨
      (pending.step reading event).Served reading env

theorem Proceeds.carries {event : PendingEvent ε η σ τ}
    (proceeds : Proceeds reading contents pending
      (pending.step reading event))
    (intact : pending.Intact reading contents)
    (remembers : ∀ index, forgets event index = false) :
    pending.Carries reading contents event where
  intact := proceeds.intact intact
  moves := fun env _ => proceeds.moves env
  ready := by
    intro index env isReady
    rcases proceeds.ready index env isReady with earlier | served
    · exact .inl ⟨earlier, remembers index⟩
    · exact .inr served

/-- A step that changes only the caches, without a quorum set that is not
sane, and the fetch under way. -/
theorem carries_of_same {event : PendingEvent ε η σ τ}
    (intact : pending.Intact reading contents)
    (envelopes : (pending.step reading event).mEnvelopes =
      pending.mEnvelopes)
    (broadcast : (pending.step reading event).broadcast = pending.broadcast)
    (fetcher : (pending.step reading event).fetcher = pending.fetcher)
    (cached : ∀ hash,
      (pending.step reading event).mQsetCache.contains hash = true →
        reading.isQuorumSetSane (contents hash) = true)
    (remembers : ∀ index, forgets event index = false) :
    pending.Carries reading contents event where
  intact := by
    refine ⟨?_, ?_, cached⟩
    · rw [envelopes]
      exact intact.slots
    · rw [fetcher]
      exact intact.waiting
  moves := by
    intro env _
    rw [broadcast, processedCount, processedCount, envelopes]
  ready := by
    intro index env isReady
    rw [envelopes] at isReady
    exact .inl ⟨isReady, remembers index⟩

omit [DecidableEq ε] [DecidableEq η] in
theorem startDrain_rest (pending : PendingEnvelopes ε η σ τ) (item : Item)
    (hash : η) :
    (pending.startDrain item hash).mEnvelopes = pending.mEnvelopes ∧
      (pending.startDrain item hash).broadcast = pending.broadcast ∧
      (pending.startDrain item hash).fetcher = pending.fetcher := by
  unfold startDrain
  split
  · exact ⟨rfl, rfl, rfl⟩
  · exact ⟨rfl, rfl, rfl⟩

theorem contains_of_eraseIf {ν : Type} {cache : LruCache η ν}
    {test : ν → Bool} {hash : η}
    (known : (cache.eraseIf test).contains hash = true) :
    cache.contains hash = true := by
  unfold LruCache.contains at *
  rw [LruCache.find?_eraseIf] at known
  cases found : cache.find? hash with
  | none =>
      rw [found] at known
      cases known
  | some item => rfl

/-- Adding a quorum set, whichever event does it. -/
theorem carries_addSCPQuorumSet {event : PendingEvent ε η σ τ}
    (intact : pending.Intact reading contents) {hash : η}
    {lastSeenSlotIndex : ℕ} {q : σ} (genuine : contents hash = q)
    (isAdd : pending.step reading event =
      pending.addSCPQuorumSet reading hash lastSeenSlotIndex q)
    (remembers : ∀ index, forgets event index = false) :
    pending.Carries reading contents event := by
  unfold addSCPQuorumSet at isAdd
  split at isAdd
  · rename_i sane
    obtain ⟨envelopes, broadcast, fetcher⟩ := startDrain_rest
      { pending with
        mQsetCache := pending.mQsetCache.put hash (lastSeenSlotIndex, q) }
      .qset hash
    refine carries_of_same intact ?_ ?_ ?_ ?_ remembers
    · rw [isAdd, envelopes]
    · rw [isAdd, broadcast]
    · rw [isAdd, fetcher]
    · intro asked known
      by_cases same : asked = hash
      · rw [same, genuine]
        exact sane
      · rw [isAdd, (startDrain_caches _ _ _).1] at known
        obtain ⟨item, found⟩ := Option.isSome_iff_exists.mp known
        have before := LruCache.find?_put_of_ne _ same found
        apply intact.cached
        rw [LruCache.contains, before]
        rfl
  · refine carries_of_same intact ?_ ?_ ?_ ?_ remembers
    · rw [isAdd]
    · rw [isAdd]
    · rw [isAdd]
    · rw [isAdd]
      exact intact.cached

theorem carries_addTxSet {event : PendingEvent ε η σ τ}
    (intact : pending.Intact reading contents) {hash : η}
    {lastSeenSlotIndex : ℕ} {txset : τ}
    (isAdd : pending.step reading event =
      pending.addTxSet hash lastSeenSlotIndex txset)
    (remembers : ∀ index, forgets event index = false) :
    pending.Carries reading contents event := by
  obtain ⟨envelopes, broadcast, fetcher⟩ := startDrain_rest
    { pending with
      mTxSetCache := pending.mTxSetCache.put hash
        (lastSeenSlotIndex, txset) } .txset hash
  refine carries_of_same intact ?_ ?_ ?_ ?_ remembers
  · rw [isAdd, addTxSet, envelopes]
  · rw [isAdd, addTxSet, broadcast]
  · rw [isAdd, addTxSet, fetcher]
  · rw [isAdd, addTxSet, (startDrain_caches _ _ _).1]
    exact intact.cached

/-- Forgetting slots and letting items expire. -/
theorem carries_of_forget {event : PendingEvent ε η σ τ}
    (intact : pending.Intact reading contents)
    (envelopes : ∀ index, (pending.step reading event).mEnvelopes index =
      if forgets event index then SlotEnvelopes.empty
      else pending.mEnvelopes index)
    (broadcast : (pending.step reading event).broadcast = pending.broadcast)
    (fetcher : (pending.step reading event).fetcher = pending.fetcher)
    (cached : ∀ hash,
      (pending.step reading event).mQsetCache.contains hash = true →
        pending.mQsetCache.contains hash = true) :
    pending.Carries reading contents event where
  intact := by
    refine ⟨?_, ?_, fun hash known => intact.cached hash (cached hash known)⟩
    · intro index
      rw [envelopes]
      split
      · exact SlotEnvelopes.empty_intact reading contents index
      · exact intact.slots index
    · rw [fetcher]
      exact intact.waiting
  moves := by
    intro env remembers
    rw [broadcast, processedCount, processedCount, envelopes, remembers]
    rfl
  ready := by
    intro index env isReady
    rw [envelopes] at isReady
    cases forgotten : forgets event index with
    | true =>
        rw [forgotten] at isReady
        cases isReady
    | false =>
        rw [forgotten] at isReady
        exact .inl ⟨isReady, rfl⟩

theorem step_carries (intact : pending.Intact reading contents)
    {event : PendingEvent ε η σ τ} (genuine : Genuine contents event) :
    pending.Carries reading contents event := by
  have same : ∀ {event : PendingEvent ε η σ τ},
      pending.step reading event = pending →
      (∀ index, forgets event index = false) →
        pending.Carries reading contents event := by
    intro event unchanged remembers
    refine Proceeds.carries ?_ intact remembers
    rw [unchanged]
    exact .of_same (.of_eq rfl rfl) rfl rfl (fun intact => intact.waiting)
  cases event with
  | recvSCPEnvelope env admitted =>
      exact Proceeds.carries (proceeds_recvSCPEnvelope env admitted) intact
        (fun _ => rfl)
  | recvSCPQuorumSet hash q =>
      by_cases unseen :
          (pending.fetcher .qset).getLastSeenSlotIndex hash = 0
      · apply same _ (fun _ => rfl)
        rw [step, recvSCPQuorumSet, if_pos unseen]
      by_cases sane : reading.isQuorumSetSane q = true
      · have isAdd : pending.step reading (.recvSCPQuorumSet hash q) =
            pending.addSCPQuorumSet reading hash
              ((pending.fetcher .qset).getLastSeenSlotIndex hash) q := by
          rw [step, recvSCPQuorumSet, if_neg unseen, if_pos sane]
        exact carries_addSCPQuorumSet intact genuine isAdd (fun _ => rfl)
      · refine Proceeds.carries ?_ intact (fun _ => rfl)
        rw [step, recvSCPQuorumSet, if_neg unseen, if_neg sane]
        apply proceeds_discardSCPEnvelopesWithQSet intact
        rw [genuine]
        exact Bool.eq_false_iff.mpr sane
  | addSCPQuorumSet hash lastSeenSlotIndex q =>
      exact carries_addSCPQuorumSet intact genuine rfl (fun _ => rfl)
  | recvTxSet hash txset =>
      by_cases unseen :
          (pending.fetcher .txset).getLastSeenSlotIndex hash = 0
      · apply same _ (fun _ => rfl)
        rw [step, recvTxSet, if_pos unseen]
      · have isAdd : pending.step reading (.recvTxSet hash txset) =
            pending.addTxSet hash
              ((pending.fetcher .txset).getLastSeenSlotIndex hash)
              txset := by
          rw [step, recvTxSet, if_neg unseen]
        exact carries_addTxSet intact isAdd (fun _ => rfl)
  | addTxSet hash lastSeenSlotIndex txset =>
      exact carries_addTxSet intact rfl (fun _ => rfl)
  | drain admitted =>
      exact Proceeds.carries (proceeds_drain admitted) intact (fun _ => rfl)
  | poll =>
      refine Proceeds.carries ?_ intact (fun _ => rfl)
      rw [step]
      split
      · exact proceeds_poll
      · exact .of_same (.of_eq rfl rfl) rfl rfl
          (fun intact => intact.waiting)
  | pop slotIndex =>
      exact Proceeds.carries (proceeds_pop slotIndex) intact (fun _ => rfl)
  | eraseBelow slotIndex =>
      refine carries_of_forget intact ?_ rfl rfl
        (fun _ known => contains_of_eraseIf known)
      intro index
      simp [step, eraseBelow, forgets]
  | slotClosed slotIndex =>
      by_cases late : maxSlotsToRemember < slotIndex
      · have closes : pending.step reading (.slotClosed slotIndex) =
            pending.slotClosed slotIndex := rfl
        rw [slotClosed, if_pos late] at closes
        refine carries_of_forget intact ?_ ?_ ?_ ?_
        · intro index
          rw [closes]
          simp only
          rw [Function.update_apply]
          simp [forgets, late]
        · rw [closes]
        · rw [closes]
        · rw [closes]
          exact fun _ known => contains_of_eraseIf known
      · apply same
        · rw [step, slotClosed, if_neg late]
        · intro index
          simp [forgets, late]

/-- An event that takes no item away from a ready envelope: it puts no item
for a slot before that of a ready envelope that mentions it, and it closes no
slot whose items a ready envelope of an earlier slot mentions. -/
structure Careful (reading : Reading ε η σ)
    (pending : PendingEnvelopes ε η σ τ) (event : PendingEvent ε η σ τ) :
    Prop where
  puts : ∀ {item hash slot},
    pending.puts reading event = some (item, hash, slot) →
      ∀ {index}, ∀ env ∈ (pending.mEnvelopes index).mReadyEnvelopes,
        hash ∈ mentions reading env item → reading.slotIndex env ≤ slot
  closes : ∀ {slotIndex}, event = .slotClosed slotIndex →
    maxSlotsToRemember < slotIndex →
      ∀ {index}, index < slotIndex - maxSlotsToRemember →
        ∀ env ∈ (pending.mEnvelopes index).mReadyEnvelopes,
          ∀ {item hash}, hash ∈ mentions reading env item →
            pending.itemSlot item hash ≠
              some (slotIndex - maxSlotsToRemember)

/-- Every ready envelope is served. -/
def AllServed (reading : Reading ε η σ)
    (pending : PendingEnvelopes ε η σ τ) : Prop :=
  ∀ index, ∀ env ∈ (pending.mEnvelopes index).mReadyEnvelopes,
    pending.Served reading env

omit [DecidableEq ε] in
/-- The items of a ready envelope whose slot is remembered do not expire. -/
theorem Careful.not_expires {event : PendingEvent ε η σ τ}
    (careful : pending.Careful reading event)
    (intact : pending.Intact reading contents) {index : ℕ} {env : ε}
    (isReady : env ∈ (pending.mEnvelopes index).mReadyEnvelopes)
    (remembered : forgets event index = false) {item : Item} {hash : η}
    (mentioned : hash ∈ mentions reading env item) {slot : ℕ}
    (known : pending.itemSlot item hash = some slot)
    (least : reading.slotIndex env ≤ slot) : expires event slot = false := by
  have slotIntact := intact.slots index
  have own : reading.slotIndex env = index :=
    (slotIntact.processed env (slotIntact.ready.subset isReady)).1
  cases event with
  | eraseBelow slotIndex =>
      have above := of_decide_eq_false remembered
      rw [expires, Bool.and_eq_false_iff, decide_eq_false_iff_not,
        decide_eq_false_iff_not]
      right
      omega
  | slotClosed slotIndex =>
      rw [expires, Bool.and_eq_false_iff, decide_eq_false_iff_not,
        decide_eq_false_iff_not]
      by_cases late : maxSlotsToRemember < slotIndex
      · right
        intro closed
        have other : index ≠ slotIndex - maxSlotsToRemember := by
          simpa [forgets, late] using remembered
        apply careful.closes rfl late _ env isReady mentioned
        · rw [known, closed]
        · omega
      · exact .inl late
  | _ => rfl

theorem step_served {event : PendingEvent ε η σ τ}
    (intact : pending.Intact reading contents)
    (served : pending.AllServed reading) (genuine : Genuine contents event)
    (room : ∀ item, inserts item event = true →
      pending.cacheLength item < pending.cacheSize item)
    (careful : pending.Careful reading event) :
    (pending.step reading event).AllServed reading := by
  intro index env isReady
  rcases (step_carries intact genuine).ready index env isReady with
    ⟨wasReady, remembered⟩ | already
  · have before := served index env wasReady
    refine ⟨before.decoded, ?_⟩
    intro item hash mentioned
    obtain ⟨slot, known, least⟩ := before.items item hash mentioned
    have fate : pending.Fate reading event item hash slot :=
      step_fate (room item) known
    obtain ⟨later, knownLater, raised | isPut⟩ := fate.kept
      (careful.not_expires intact wasReady remembered mentioned known least)
    · exact ⟨later, knownLater, least.trans raised⟩
    · exact ⟨later, knownLater, careful.puts isPut env wasReady mentioned⟩
  · exact already

/-! ## Runs -/

theorem run_intact {events : List (PendingEvent ε η σ τ)}
    (genuine : ∀ event ∈ events, Genuine contents event)
    (intact : pending.Intact reading contents) :
    (pending.run reading events).Intact reading contents := by
  induction events generalizing pending with
  | nil => exact intact
  | cons event events ih =>
      apply ih (fun later member =>
        genuine later (List.mem_cons_of_mem _ member))
      exact (step_carries intact (genuine event List.mem_cons_self)).intact

/-- While its slot is remembered, an envelope becomes ready when it becomes
processed. -/
theorem run_moves {events : List (PendingEvent ε η σ τ)}
    (genuine : ∀ event ∈ events, Genuine contents event)
    (intact : pending.Intact reading contents) {env : ε}
    (remembered : ∀ event ∈ events,
      forgets event (reading.slotIndex env) = false) :
    (pending.run reading events).broadcast.count env +
        pending.processedCount reading env =
      pending.broadcast.count env +
        (pending.run reading events).processedCount reading env := by
  induction events generalizing pending with
  | nil => rfl
  | cons event events ih =>
      have carries := step_carries intact (genuine event List.mem_cons_self)
      have first := carries.moves env
        (remembered event List.mem_cons_self)
      have rest := ih
        (fun later member => genuine later (List.mem_cons_of_mem _ member))
        carries.intact
        (fun later member =>
          remembered later (List.mem_cons_of_mem _ member))
      show ((pending.step reading event).run reading
        events).broadcast.count env + _ = _ +
          ((pending.step reading event).run reading events).processedCount
            reading env
      omega

theorem run_served {events : List (PendingEvent ε η σ τ)}
    (genuine : ∀ event ∈ events, Genuine contents event)
    (intact : pending.Intact reading contents)
    (served : pending.AllServed reading)
    (room : ∀ item, pending.cacheLength item +
      events.countP (inserts item) ≤ pending.cacheSize item)
    (careful : ∀ moment event, events[moment]? = some event →
      (pending.run reading (events.take moment)).Careful reading event) :
    (pending.run reading events).AllServed reading := by
  induction events generalizing pending with
  | nil => exact served
  | cons event events ih =>
      have isGenuine := genuine event List.mem_cons_self
      have fits : ∀ item, inserts item event = true →
          pending.cacheLength item < pending.cacheSize item := by
        intro item isInsert
        have enough := room item
        rw [List.countP_cons_of_pos isInsert] at enough
        omega
      apply ih
        (fun later member => genuine later (List.mem_cons_of_mem _ member))
      · exact (step_carries intact isGenuine).intact
      · exact step_served intact served isGenuine fits (careful 0 event rfl)
      · intro item
        obtain ⟨length, size⟩ := pending.step_cacheLength reading event item
        have enough := room item
        rw [List.countP_cons] at enough
        rw [size]
        omega
      · intro moment next isNext
        exact careful (moment + 1) next isNext

omit [DecidableEq ε] in
theorem new_intact :
    (new : PendingEnvelopes ε η σ τ).Intact reading contents where
  slots := fun index => SlotEnvelopes.empty_intact reading contents index
  waiting := nofun
  cached := nofun

/-- The quorum set and all transaction sets of the envelope are known. -/
def HasItems (reading : Reading ε η σ)
    (pending : PendingEnvelopes ε η σ τ) (env : ε) : Prop :=
  (pending.getQSet (reading.qsetHash env)).isSome = true ∧
    ∃ hashes, reading.getTxSetHashes env = some hashes ∧
      ∀ hash ∈ hashes, (pending.getTxSet hash).isSome = true

omit [DecidableEq ε] in
theorem Served.hasItems {env : ε} (served : pending.Served reading env) :
    pending.HasItems reading env := by
  constructor
  · obtain ⟨slot, known, -⟩ := served.items .qset (reading.qsetHash env)
      (List.mem_singleton.mpr rfl)
    obtain ⟨item, found, -⟩ := Option.map_eq_some_iff.mp known
    rw [getQSet, found]
    rfl
  · obtain ⟨hashes, decoded⟩ := Option.isSome_iff_exists.mp served.decoded
    refine ⟨hashes, decoded, ?_⟩
    intro hash mentioned
    obtain ⟨slot, known, -⟩ := served.items .txset hash (by
      rw [mentions, decoded]
      exact mentioned)
    obtain ⟨item, found, -⟩ := Option.map_eq_some_iff.mp known
    rw [getTxSet, found]
    rfl

/-- Whatever happens, an envelope becomes ready at most once while its slot
is remembered. -/
theorem run_moves_once {events : List (PendingEvent ε η σ τ)}
    (genuine : ∀ event ∈ events, Genuine contents event)
    (intact : pending.Intact reading contents) {env : ε}
    (remembered : ∀ event ∈ events,
      forgets event (reading.slotIndex env) = false) :
    (pending.run reading events).broadcast.count env ≤
      pending.broadcast.count env + 1 := by
  have moves := run_moves genuine intact remembered
  have once : (pending.run reading events).processedCount reading env ≤ 1 :=
    List.nodup_iff_count_le_one.mp
      ((run_intact genuine intact).slots (reading.slotIndex env)).once env
  omega

/-- How many items a cache holds. -/
def capacity : Item → ℕ
  | .qset => qsetCacheSize
  | .txset => txsetCacheSize

theorem run_append (reading : Reading ε η σ)
    (pending : PendingEnvelopes ε η σ τ)
    (first second : List (PendingEvent ε η σ τ)) :
    pending.run reading (first ++ second) =
      (pending.run reading first).run reading second :=
  List.foldl_append

/-- At every moment of a run of careful events the collections of a slot have
no envelope in common, an envelope has become ready at most once since its
slot was last forgotten, and what a ready envelope mentions is known. -/
theorem envelope_intake {events : List (PendingEvent ε η σ τ)}
    (genuine : ∀ event ∈ events, Genuine contents event)
    (few : ∀ item, events.countP (inserts item) ≤ capacity item)
    (careful : ∀ moment event, events[moment]? = some event →
      (new.run reading (events.take moment)).Careful reading event)
    (moment : ℕ) :
    (∀ index, ((new.run reading (events.take moment)).mEnvelopes
        index).Apart) ∧
      (∀ earlier ≤ moment, ∀ env,
        (∀ event ∈ (events.take moment).drop earlier,
          forgets event (reading.slotIndex env) = false) →
        (new.run reading (events.take moment)).broadcast.count env ≤
          (new.run reading (events.take earlier)).broadcast.count env + 1) ∧
      ∀ index, ∀ env ∈ ((new.run reading (events.take moment)).mEnvelopes
          index).mReadyEnvelopes,
        (new.run reading (events.take moment)).HasItems reading env := by
  have isGenuine : ∀ event ∈ events.take moment, Genuine contents event :=
    fun event member => genuine event (List.mem_of_mem_take member)
  have intact : (new.run reading (events.take moment)).Intact reading
      contents := run_intact isGenuine new_intact
  refine ⟨fun index => (intact.slots index).apart, ?_, ?_⟩
  · intro earlier before env remembered
    have split := (List.take_append_drop earlier (events.take moment)).symm
    rw [List.take_take, Nat.min_eq_left before] at split
    have intactEarlier : (new.run reading (events.take earlier)).Intact
        reading contents :=
      run_intact (fun event member =>
        genuine event (List.mem_of_mem_take member)) new_intact
    rw [split, run_append]
    exact run_moves_once
      (fun event member => isGenuine event (List.mem_of_mem_drop member))
      intactEarlier remembered
  · intro index env isReady
    apply Served.hasItems
    refine run_served isGenuine new_intact ?_ ?_ ?_ index env isReady
    · intro index env impossible
      cases impossible
    · intro item
      have fewer : (events.take moment).countP (inserts item) ≤
          events.countP (inserts item) :=
        (List.take_sublist moment events).countP_le
      have fits := few item
      cases item with
      | qset =>
          show 0 + _ ≤ capacity .qset
          omega
      | txset =>
          show 0 + _ ≤ capacity .txset
          omega
    · intro earlier event isNext
      obtain ⟨inside, found⟩ := List.getElem?_eq_some_iff.mp isNext
      have before : earlier < moment := by
        rw [List.length_take] at inside
        omega
      rw [List.take_take, Nat.min_eq_left before.le]
      apply careful
      rw [List.getElem?_take_of_lt before] at isNext
      exact isNext

/-- Envelopes as a slot, the hash of a quorum set and the hashes of
transaction sets. -/
def openReading : Reading (ℕ × ℕ × List ℕ) ℕ Bool :=
  { slotIndex := fun env => env.1
    qsetHash := fun env => env.2.1
    getTxSetHashes := fun env => some env.2.2
    isQuorumSetSane := id }

/-- An envelope of slot 10 waits for transaction set 2, which then
arrives. -/
def arrivals : List (PendingEvent (ℕ × ℕ × List ℕ) ℕ Bool Unit) :=
  [.addSCPQuorumSet 1 0 true, .recvSCPEnvelope (10, 1, [2]) true,
    .recvTxSet 2 (), .drain true, .drain true]

theorem arrivals_intake :
    (∀ event ∈ arrivals, Genuine (fun _ => true) event) ∧
      (∀ item, arrivals.countP (inserts item) ≤ capacity item) ∧
      (∀ moment event, arrivals[moment]? = some event →
        (new.run openReading (arrivals.take moment)).Careful openReading
          event) ∧
      ((new.run openReading arrivals).mEnvelopes 10).mReadyEnvelopes =
        [(10, 1, [2])] ∧
      (new.run openReading arrivals).HasItems openReading (10, 1, [2]) := by
  have genuine : ∀ event ∈ arrivals, Genuine (fun _ => true) event := by
    simp [arrivals, Genuine]
  have few : ∀ item, arrivals.countP (inserts item) ≤ capacity item := by
    intro item
    cases item with
    | qset => decide
    | txset => decide
  have careful : ∀ moment event, arrivals[moment]? = some event →
      (new.run openReading (arrivals.take moment)).Careful openReading
        event := by
    have fetching : (new.run openReading (arrivals.take 2)).mEnvelopes =
        Function.update (fun _ : ℕ => SlotEnvelopes.empty) 10
          ⟨[], [], [(10, 1, [2])], []⟩ := rfl
    have noneReady : ∀ index, ((new.run openReading
        (arrivals.take 2)).mEnvelopes index).mReadyEnvelopes = [] := by
      intro index
      rw [fetching, Function.update_apply]
      split
      · rfl
      · rfl
    intro moment event isNext
    rcases moment with _ | _ | _ | _ | _ | moment
    · cases isNext
      refine ⟨?_, nofun⟩
      intro _ _ _ _ _ env impossible
      cases impossible
    · cases isNext
      exact ⟨nofun, nofun⟩
    · cases isNext
      refine ⟨?_, nofun⟩
      intro _ _ _ _ index env isReady
      have impossible : env ∈ ((new.run openReading
        (arrivals.take 2)).mEnvelopes index).mReadyEnvelopes := isReady
      rw [noneReady] at impossible
      cases impossible
    · cases isNext
      exact ⟨nofun, nofun⟩
    · cases isNext
      exact ⟨nofun, nofun⟩
    · cases isNext
  have isReady : ((new.run openReading arrivals).mEnvelopes
      10).mReadyEnvelopes = [(10, 1, [2])] := by
    decide +kernel
  refine ⟨genuine, few, careful, isReady, ?_⟩
  apply (envelope_intake genuine few careful 5).2.2 10 (10, 1, [2])
  show _ ∈ ((new.run openReading arrivals).mEnvelopes 10).mReadyEnvelopes
  rw [isReady]
  exact List.mem_singleton.mpr rfl

/-- The node then adds the same transaction set for slot 7 as its own, and
the slots below 8 are erased. -/
def lowered : List (PendingEvent (ℕ × ℕ × List ℕ) ℕ Bool Unit) :=
  arrivals ++ [.addTxSet 2 7 (), .drain true, .eraseBelow 8]

theorem lowered_loses :
    (∀ event ∈ lowered, Genuine (fun _ => true) event) ∧
      (∀ item, lowered.countP (inserts item) ≤ capacity item) ∧
      (10, 1, [2]) ∈ ((new.run openReading lowered).mEnvelopes
        10).mReadyEnvelopes ∧
      (new.run openReading lowered).getTxSet 2 = none ∧
      ¬ (new.run openReading lowered).HasItems openReading (10, 1, [2]) := by
  have lost : (new.run openReading lowered).getTxSet 2 = none := by
    decide +kernel
  refine ⟨?_, ?_, ?_, lost, ?_⟩
  · simp [lowered, arrivals, Genuine]
  · intro item
    cases item with
    | qset => decide
    | txset => decide
  · decide +kernel
  · rintro ⟨-, hashes, decoded, known⟩
    cases decoded
    have found := known 2 (List.mem_singleton.mpr rfl)
    rw [lost] at found
    cases found

end PendingEnvelopes

end StellarCore.Herder
