import StellarCore.Herder.EnvelopeCaches

/-!
# The quorum set of the local node

It is added at startup with the slot index 0, which marks data that does not
expire.  An envelope that mentions its hash raises the mark to the slot of
the envelope, and from then on the quorum set expires like any other.
-/

namespace StellarCore.Herder

open StellarCore.Lib

namespace PendingEnvelopes

variable {ε η σ τ : Type} [DecidableEq ε] [DecidableEq η]

/-! ## Expiry -/

/-- The slot that a quorum set is marked with. -/
def qsetSlot (pending : PendingEnvelopes ε η σ τ) (hash : η) : ℕ :=
  ((pending.mQsetCache.find? hash).map Prod.fst).getD 0

/-- No expiry reaches the slot that the quorum set is marked with. -/
def Spares (hash : η) (pending : PendingEnvelopes ε η σ τ) :
    PendingEvent ε η σ τ → Prop
  | .eraseBelow slotIndex =>
      pending.qsetSlot hash = 0 ∨ slotIndex ≤ pending.qsetSlot hash
  | .slotClosed slotIndex =>
      maxSlotsToRemember < slotIndex →
        pending.qsetSlot hash ≠ slotIndex - maxSlotsToRemember
  | _ => True

/-- The events that may put a quorum set into the cache. -/
def insertsQset : PendingEvent ε η σ τ → Bool
  | .recvSCPQuorumSet _ _ => true
  | .addSCPQuorumSet _ _ _ => true
  | _ => false

omit [DecidableEq ε] [DecidableEq η] in
theorem inserts_qset (event : PendingEvent ε η σ τ) :
    inserts .qset event = insertsQset event := by
  cases event with
  | _ => rfl

omit [DecidableEq ε] in
/-- An expiry spares a quorum set exactly if its slot does not expire. -/
theorem spares_iff {pending : PendingEnvelopes ε η σ τ} {hash : η}
    {slot : ℕ} (known : pending.itemSlot .qset hash = some slot)
    (event : PendingEvent ε η σ τ) :
    pending.Spares hash event ↔ expires event slot = false := by
  have marked : pending.qsetSlot hash = slot := by
    show (pending.itemSlot .qset hash).getD 0 = slot
    rw [known]
    rfl
  cases event with
  | eraseBelow slotIndex =>
      rw [Spares, marked, expires, Bool.and_eq_false_iff,
        decide_eq_false_iff_not, decide_eq_false_iff_not]
      omega
  | slotClosed slotIndex =>
      rw [Spares, marked, expires, Bool.and_eq_false_iff,
        decide_eq_false_iff_not, decide_eq_false_iff_not]
      exact imp_iff_not_or
  | _ => exact ⟨fun _ => rfl, fun _ => trivial⟩

theorem step_known_iff (reading : Reading ε η σ)
    (pending : PendingEnvelopes ε η σ τ) {event : PendingEvent ε η σ τ}
    (room : insertsQset event = true →
      pending.cacheLength .qset < pending.cacheSize .qset)
    {hash : η} (known : (pending.itemSlot .qset hash).isSome = true) :
    ((pending.step reading event).itemSlot .qset hash).isSome = true ↔
      pending.Spares hash event := by
  obtain ⟨slot, found⟩ := Option.isSome_iff_exists.mp known
  rw [← inserts_qset] at room
  have fate : pending.Fate reading event .qset hash slot :=
    step_fate room found
  rw [spares_iff found]
  constructor
  · intro still
    rw [← Bool.not_eq_true]
    intro gone
    rw [fate.gone gone] at still
    cases still
  · intro kept
    obtain ⟨later, foundLater, -⟩ := fate.kept kept
    rw [foundLater]
    rfl

/-! ## Runs -/

omit [DecidableEq ε] in
theorem isSome_getQSet (pending : PendingEnvelopes ε η σ τ) (hash : η) :
    (pending.getQSet hash).isSome =
      (pending.itemSlot .qset hash).isSome := by
  rw [getQSet, itemSlot, Option.isSome_map, Option.isSome_map]

/-- The quorum set is known at every moment of a run exactly if every expiry
in it spares its slot. -/
private theorem run_known_iff {reading : Reading ε η σ} {hash : η}
    {pending : PendingEnvelopes ε η σ τ}
    {events : List (PendingEvent ε η σ τ)}
    (known : (pending.itemSlot .qset hash).isSome = true)
    (room : pending.cacheLength .qset + events.countP insertsQset ≤
      pending.cacheSize .qset) :
    (∀ moment, ((pending.run reading (events.take moment)).getQSet
        hash).isSome = true) ↔
      ∀ moment event, events[moment]? = some event →
        (pending.run reading (events.take moment)).Spares hash event := by
  induction events generalizing pending with
  | nil =>
      constructor
      · intro _ moment event impossible
        cases impossible
      · intro _ moment
        rw [List.take_nil, isSome_getQSet]
        exact known
  | cons event events ih =>
      have fits : insertsQset event = true →
          pending.cacheLength .qset < pending.cacheSize .qset := by
        intro inserts
        rw [List.countP_cons_of_pos inserts] at room
        omega
      have roomAfter : (pending.step reading event).cacheLength .qset +
          events.countP insertsQset ≤
            (pending.step reading event).cacheSize .qset := by
        obtain ⟨length, size⟩ := pending.step_cacheLength reading event .qset
        rw [inserts_qset] at length
        rw [List.countP_cons] at room
        rw [size]
        omega
      have first := pending.step_known_iff reading fits known
      constructor
      · intro always
        have second := always 1
        rw [isSome_getQSet] at second
        have rest := (ih second roomAfter).mp
          (fun moment => always (moment + 1))
        intro moment next isNext
        cases moment with
        | zero =>
            cases isNext
            exact first.mp second
        | succ moment => exact rest moment next isNext
      · intro spares moment
        have second := first.mpr (spares 0 event rfl)
        cases moment with
        | zero =>
            rw [isSome_getQSet]
            exact known
        | succ moment =>
            exact (ih second roomAfter).mpr
              (fun moment next isNext =>
                spares (moment + 1) next isNext) moment

/-- `PendingEnvelopes` as the constructor of the herder leaves it. -/
def started (reading : Reading ε η σ) (hash : η) (q : σ) :
    PendingEnvelopes ε η σ τ :=
  PendingEnvelopes.new.addSCPQuorumSet reading hash 0 q

/-- In a run that inserts fewer quorum sets than the cache holds, the local
quorum set is known throughout exactly if every expiry spares its slot. -/
theorem getQSet_local_iff (reading : Reading ε η σ) {hash : η} {q : σ}
    (sane : reading.isQuorumSetSane q = true)
    {events : List (PendingEvent ε η σ τ)}
    (few : events.countP insertsQset < qsetCacheSize) :
    (∀ moment, (((started reading hash q).run reading
        (events.take moment)).getQSet hash).isSome = true) ↔
      ∀ moment event, events[moment]? = some event →
        ((started reading hash q).run reading
          (events.take moment)).Spares hash event := by
  have cache : (started reading hash q :
      PendingEnvelopes ε η σ τ).mQsetCache =
        (LruCache.empty qsetCacheSize).put hash (0, q) := by
    unfold started addSCPQuorumSet
    rw [if_pos sane, (startDrain_caches _ _ _).1]
    rfl
  apply run_known_iff
  · have room : 0 < (LruCache.empty qsetCacheSize :
        LruCache η (ℕ × σ)).maxSize := by
      simp [LruCache.empty, qsetCacheSize]
    rw [itemSlot, cache, LruCache.find?_put_self _ _ _ room]
    rfl
  · have one : ((LruCache.empty qsetCacheSize).put hash
        ((0, q) : ℕ × σ)).items.length ≤ 0 + 1 := LruCache.length_put _ _ _
    rw [cacheLength, cacheSize, cache, LruCache.maxSize_put]
    show _ ≤ qsetCacheSize
    omega

/-- Envelopes without transaction sets: a slot and the hash of a quorum
set. -/
def plainReading : Reading (ℕ × ℕ) ℕ Bool :=
  { slotIndex := Prod.fst
    qsetHash := Prod.snd
    getTxSetHashes := fun _ => some []
    isQuorumSetSane := id }

/-- A peer with the local quorum set is heard for slot 5, and again for slot
16. -/
def heardRun : List (PendingEvent (ℕ × ℕ) ℕ Bool Unit) :=
  [.recvSCPEnvelope (5, 7) true, .recvSCPEnvelope (16, 7) true,
    .slotClosed 17]

theorem heardRun_known :
    (∀ moment event, heardRun[moment]? = some event →
        ((started plainReading 7 true).run plainReading
          (heardRun.take moment)).Spares 7 event) ∧
      ∀ moment, (((started plainReading 7 true).run plainReading
        (heardRun.take moment)).getQSet 7).isSome = true := by
  have spares : ∀ moment event, heardRun[moment]? = some event →
      ((started plainReading 7 true).run plainReading
        (heardRun.take moment)).Spares 7 event := by
    intro moment event isNext
    rcases moment with _ | _ | _ | moment
    · cases isNext
      trivial
    · cases isNext
      trivial
    · cases isNext
      intro _
      decide +kernel
    · cases isNext
  exact ⟨spares,
    (getQSet_local_iff plainReading rfl (by decide)).mpr spares⟩

/-- After slot 5 the peer falls silent, and the local quorum set expires. -/
def silentRun : List (PendingEvent (ℕ × ℕ) ℕ Bool Unit) :=
  [.recvSCPEnvelope (5, 7) true, .slotClosed 17]

theorem silentRun_loses :
    (started plainReading 7 true :
        PendingEnvelopes (ℕ × ℕ) ℕ Bool Unit).getQSet 7 = some true ∧
      silentRun.countP insertsQset < qsetCacheSize ∧
      ((started plainReading 7 true).run plainReading silentRun).getQSet 7 =
        none := by
  refine ⟨?_, ?_, ?_⟩
  · decide +kernel
  · decide +kernel
  · decide +kernel

end PendingEnvelopes

end StellarCore.Herder
