import StellarCore.Lib.LruCache

/-!
# Envelopes that wait for their data

`PendingEnvelopes.cpp`, `ItemFetcher.cpp` and `Tracker.cpp`.  When an item
arrives, `ItemFetcher::recv` gives the waiting envelopes back to the herder
one by one, and anything may happen in between: a loop that is under way
stands in `draining`, and each turn of it is a step of its own.  Tasks posted
to the event loop stand in `posted`.  Requests to peers, timers, metrics and
logging are left out; whether the herder lets an envelope through and knows
its node to be in the quorum is an input.
-/

namespace StellarCore.Herder

open StellarCore.Lib

def maxSlotsToRemember : ℕ := 12

def qsetCacheSize : ℕ := 10000

def txsetCacheSize : ℕ := 10000

/-- How envelopes and quorum sets are read.  `getTxSetHashes` throws when a
value of the statement cannot be decoded. -/
structure Reading (ε η σ : Type) where
  slotIndex : ε → ℕ
  qsetHash : ε → η
  getTxSetHashes : ε → Option (List η)
  isQuorumSetSane : σ → Bool

inductive Item where
  | qset
  | txset
  deriving DecidableEq, Repr

structure Tracker (ε : Type) where
  mWaitingEnvelopes : List ε
  mLastSeenSlotIndex : ℕ

/-- The trackers of an `ItemFetcher`. -/
abbrev ItemFetcher (ε η : Type) := η → Option (Tracker ε)

structure SlotEnvelopes (ε : Type) where
  mProcessedEnvelopes : List ε
  mDiscardedEnvelopes : List ε
  mFetchingEnvelopes : List ε
  mReadyEnvelopes : List ε

def SlotEnvelopes.empty {ε : Type} : SlotEnvelopes ε :=
  { mProcessedEnvelopes := []
    mDiscardedEnvelopes := []
    mFetchingEnvelopes := []
    mReadyEnvelopes := [] }

/-- A slot that is not in the map `mEnvelopes` is one without envelopes.
`broadcast` are the envelopes sent on when they became ready. -/
structure PendingEnvelopes (ε η σ τ : Type) where
  mEnvelopes : ℕ → SlotEnvelopes ε
  mQsetCache : LruCache η (ℕ × σ)
  mTxSetCache : LruCache η (ℕ × τ)
  fetcher : Item → ItemFetcher ε η
  draining : List (Item × η)
  posted : List (Item × ℕ)
  broadcast : List ε

inductive EnvelopeStatus where
  | discarded
  | fetching
  | processed
  | ready
  deriving DecidableEq, Repr

variable {ε η σ τ : Type} [DecidableEq ε] [DecidableEq η]

/-! ## `Tracker` and `ItemFetcher` -/

section Fetcher

variable (reading : Reading ε η σ)

omit [DecidableEq ε] [DecidableEq η] in
def Tracker.listen (tracker : Tracker ε) (env : ε) : Tracker ε :=
  { mWaitingEnvelopes := tracker.mWaitingEnvelopes ++ [env]
    mLastSeenSlotIndex :=
      max (reading.slotIndex env) tracker.mLastSeenSlotIndex }

def Tracker.cancel (tracker : Tracker ε) : Tracker ε :=
  { tracker with mLastSeenSlotIndex := 0 }

namespace ItemFetcher

def fetch (fetcher : ItemFetcher ε η) (itemHash : η) (env : ε) :
    ItemFetcher ε η :=
  match fetcher itemHash with
  | none =>
      Function.update fetcher itemHash
        (some (Tracker.listen reading ⟨[], 0⟩ env))
  | some tracker =>
      Function.update fetcher itemHash (some (tracker.listen reading env))

def stopFetch (fetcher : ItemFetcher ε η) (itemHash : η) (env : ε) :
    ItemFetcher ε η :=
  match fetcher itemHash with
  | none => fetcher
  | some tracker =>
      let tracker :=
        { tracker with
          mWaitingEnvelopes :=
            tracker.mWaitingEnvelopes.filter (fun other => other ≠ env) }
      Function.update fetcher itemHash
        (some (if tracker.mWaitingEnvelopes = [] then tracker.cancel
          else tracker))

def getLastSeenSlotIndex (fetcher : ItemFetcher ε η) (itemHash : η) : ℕ :=
  match fetcher itemHash with
  | none => 0
  | some tracker => tracker.mLastSeenSlotIndex

def fetchingFor (fetcher : ItemFetcher ε η) (itemHash : η) : List ε :=
  match fetcher itemHash with
  | none => []
  | some tracker => tracker.mWaitingEnvelopes

/-- `clearEnvelopesBelow` for every tracker; those left empty are erased. -/
def stopFetchingBelowInternal (fetcher : ItemFetcher ε η)
    (slotIndex : ℕ) : ItemFetcher ε η :=
  fun itemHash =>
    match fetcher itemHash with
    | none => none
    | some tracker =>
        let waiting := tracker.mWaitingEnvelopes.filter
          (fun env => slotIndex ≤ reading.slotIndex env)
        if waiting = [] then none
        else some { tracker with mWaitingEnvelopes := waiting }

end ItemFetcher

end Fetcher

/-! ## `PendingEnvelopes` -/

namespace PendingEnvelopes

def new : PendingEnvelopes ε η σ τ :=
  { mEnvelopes := fun _ => SlotEnvelopes.empty
    mQsetCache := LruCache.empty qsetCacheSize
    mTxSetCache := LruCache.empty txsetCacheSize
    fetcher := fun _ _ => none
    draining := []
    posted := []
    broadcast := [] }

def setFetcher (pending : PendingEnvelopes ε η σ τ) (item : Item)
    (fetcher : ItemFetcher ε η) : PendingEnvelopes ε η σ τ :=
  { pending with fetcher := Function.update pending.fetcher item fetcher }

def setSlot (pending : PendingEnvelopes ε η σ τ) (slotIndex : ℕ)
    (slot : SlotEnvelopes ε) : PendingEnvelopes ε η σ τ :=
  { pending with
    mEnvelopes := Function.update pending.mEnvelopes slotIndex slot }

/-- `ItemFetcher::recv` enters its loop. -/
def startDrain (pending : PendingEnvelopes ε η σ τ) (item : Item)
    (itemHash : η) : PendingEnvelopes ε η σ τ :=
  match pending.fetcher item itemHash with
  | none => pending
  | some _ =>
      { pending with draining := (item, itemHash) :: pending.draining }

def addTxSet (pending : PendingEnvelopes ε η σ τ) (hash : η)
    (lastSeenSlotIndex : ℕ) (txset : τ) : PendingEnvelopes ε η σ τ :=
  startDrain
    { pending with
      mTxSetCache := pending.mTxSetCache.put hash
        (lastSeenSlotIndex, txset) } .txset hash

def recvTxSet (pending : PendingEnvelopes ε η σ τ) (hash : η)
    (txset : τ) : PendingEnvelopes ε η σ τ :=
  let lastSeenSlotIndex :=
    (pending.fetcher .txset).getLastSeenSlotIndex hash
  if lastSeenSlotIndex = 0 then pending
  else pending.addTxSet hash lastSeenSlotIndex txset

/-- The item of the cache is used and its slot raised. -/
def touch {ν : Type} (cache : LruCache η (ℕ × ν)) (slotIndex : ℕ)
    (hash : η) : LruCache η (ℕ × ν) :=
  match cache.get? hash with
  | none => cache
  | some (item, cache) => cache.front hash (max item.1 slotIndex, item.2)

section Reading

variable (reading : Reading ε η σ)

/-- The assertion that the quorum set is sane ends the process: nothing
comes after it. -/
def addSCPQuorumSet (pending : PendingEnvelopes ε η σ τ) (hash : η)
    (lastSeenSlotIndex : ℕ) (q : σ) : PendingEnvelopes ε η σ τ :=
  if reading.isQuorumSetSane q then
    startDrain
      { pending with
        mQsetCache := pending.mQsetCache.put hash
          (lastSeenSlotIndex, q) } .qset hash
  else pending

def isDiscarded (pending : PendingEnvelopes ε η σ τ) (env : ε) : Bool :=
  decide (env ∈ (pending.mEnvelopes
    (reading.slotIndex env)).mDiscardedEnvelopes)

def stopFetch (pending : PendingEnvelopes ε η σ τ) (env : ε) :
    PendingEnvelopes ε η σ τ :=
  let pending := pending.setFetcher .qset
    ((pending.fetcher .qset).stopFetch (reading.qsetHash env) env)
  match reading.getTxSetHashes env with
  | none => pending
  | some hashes =>
      pending.setFetcher .txset (hashes.foldl
        (fun fetcher hash => fetcher.stopFetch hash env)
        (pending.fetcher .txset))

def discardSCPEnvelope (pending : PendingEnvelopes ε η σ τ) (env : ε) :
    PendingEnvelopes ε η σ τ :=
  if pending.isDiscarded reading env then pending
  else
    let slot := pending.mEnvelopes (reading.slotIndex env)
    stopFetch reading (pending.setSlot (reading.slotIndex env)
      { slot with
        mDiscardedEnvelopes := env :: slot.mDiscardedEnvelopes
        mFetchingEnvelopes :=
          slot.mFetchingEnvelopes.filter (fun other => other ≠ env) }) env

def discardSCPEnvelopesWithQSet (pending : PendingEnvelopes ε η σ τ)
    (hash : η) : PendingEnvelopes ε η σ τ :=
  ((pending.fetcher .qset).fetchingFor hash).foldl
    (discardSCPEnvelope reading) pending

def recvSCPQuorumSet (pending : PendingEnvelopes ε η σ τ) (hash : η)
    (q : σ) : PendingEnvelopes ε η σ τ :=
  let lastSeenSlotIndex :=
    (pending.fetcher .qset).getLastSeenSlotIndex hash
  if lastSeenSlotIndex = 0 then pending
  else if reading.isQuorumSetSane q then
    pending.addSCPQuorumSet reading hash lastSeenSlotIndex q
  else pending.discardSCPEnvelopesWithQSet reading hash

def touchQset (pending : PendingEnvelopes ε η σ τ) (env : ε) :
    PendingEnvelopes ε η σ τ :=
  { pending with
    mQsetCache := touch pending.mQsetCache (reading.slotIndex env)
      (reading.qsetHash env) }

def touchTxSets (pending : PendingEnvelopes ε η σ τ) (env : ε)
    (hashes : List η) : PendingEnvelopes ε η σ τ :=
  { pending with
    mTxSetCache := hashes.foldl
      (fun cache hash => touch cache (reading.slotIndex env) hash)
      pending.mTxSetCache }

def startFetch (pending : PendingEnvelopes ε η σ τ) (env : ε)
    (hashes : List η) : PendingEnvelopes ε η σ τ :=
  let pending :=
    if pending.mQsetCache.contains (reading.qsetHash env) then pending
    else
      pending.setFetcher .qset ((pending.fetcher .qset).fetch reading
        (reading.qsetHash env) env)
  pending.setFetcher .txset (hashes.foldl
    (fun fetcher hash =>
      if pending.mTxSetCache.contains hash then fetcher
      else fetcher.fetch reading hash env)
    (pending.fetcher .txset))

def isFullyFetched (pending : PendingEnvelopes ε η σ τ) (env : ε)
    (hashes : List η) : Bool :=
  pending.mQsetCache.contains (reading.qsetHash env) &&
    hashes.all (fun hash => pending.mTxSetCache.contains hash)

/-- From fetching to processed and ready, once everything is there. -/
def finishFetch (pending : PendingEnvelopes ε η σ τ) (env : ε)
    (hashes : List η) : EnvelopeStatus × PendingEnvelopes ε η σ τ :=
  if pending.isFullyFetched reading env hashes then
    let slot := pending.mEnvelopes (reading.slotIndex env)
    let pending := pending.setSlot (reading.slotIndex env)
      { slot with
        mProcessedEnvelopes := slot.mProcessedEnvelopes ++ [env]
        mFetchingEnvelopes :=
          slot.mFetchingEnvelopes.filter (fun other => other ≠ env)
        mReadyEnvelopes := slot.mReadyEnvelopes ++ [env] }
    (.ready, { pending with broadcast := pending.broadcast ++ [env] })
  else (.fetching, pending)

def recvSCPEnvelope (pending : PendingEnvelopes ε η σ τ) (env : ε)
    (admitted : Bool) : EnvelopeStatus × PendingEnvelopes ε η σ τ :=
  if !admitted then (.discarded, pending)
  else if pending.isDiscarded reading env then (.discarded, pending)
  else
    match reading.getTxSetHashes env with
    | none => (.discarded, pending.touchQset reading env)
    | some hashes =>
        let pending :=
          (pending.touchQset reading env).touchTxSets reading env hashes
        let slot := pending.mEnvelopes (reading.slotIndex env)
        if env ∈ slot.mFetchingEnvelopes then
          pending.finishFetch reading env hashes
        else if env ∈ slot.mProcessedEnvelopes then (.processed, pending)
        else
          let pending := pending.setSlot (reading.slotIndex env)
            { slot with
              mFetchingEnvelopes := env :: slot.mFetchingEnvelopes }
          (pending.startFetch reading env hashes).finishFetch reading env
            hashes

/-- One turn of the loop of `ItemFetcher::recv`, or its end. -/
def drain (pending : PendingEnvelopes ε η σ τ) (admitted : Bool) :
    PendingEnvelopes ε η σ τ :=
  match pending.draining with
  | [] => pending
  | (item, hash) :: draining =>
      match pending.fetcher item hash with
      | none => { pending with draining := draining }
      | some tracker =>
          match tracker.mWaitingEnvelopes.getLast? with
          | none =>
              { pending.setFetcher item (Function.update
                  (pending.fetcher item) hash (some tracker.cancel)) with
                draining := draining }
          | some env =>
              ((pending.setFetcher item (Function.update
                (pending.fetcher item) hash
                (some { tracker with
                  mWaitingEnvelopes :=
                    tracker.mWaitingEnvelopes.dropLast
                  }))).recvSCPEnvelope reading env admitted).2

/-- The event loop runs the task posted first. -/
def poll (pending : PendingEnvelopes ε η σ τ) :
    PendingEnvelopes ε η σ τ :=
  match pending.posted with
  | [] => pending
  | (item, slotIndex) :: posted =>
      { pending.setFetcher item
          ((pending.fetcher item).stopFetchingBelowInternal reading
            slotIndex) with
        posted := posted }

end Reading

def pop (pending : PendingEnvelopes ε η σ τ) (slotIndex : ℕ) :
    Option ε × PendingEnvelopes ε η σ τ :=
  match (List.range (slotIndex + 1)).find? (fun index =>
      !(pending.mEnvelopes index).mReadyEnvelopes.isEmpty) with
  | none => (none, pending)
  | some index =>
      let slot := pending.mEnvelopes index
      (slot.mReadyEnvelopes.getLast?,
        pending.setSlot index
          { slot with mReadyEnvelopes := slot.mReadyEnvelopes.dropLast })

def eraseBelow (pending : PendingEnvelopes ε η σ τ) (slotIndex : ℕ) :
    PendingEnvelopes ε η σ τ :=
  { pending with
    mEnvelopes := fun index =>
      if index < slotIndex then SlotEnvelopes.empty
      else pending.mEnvelopes index
    mQsetCache := pending.mQsetCache.eraseIf
      (fun item => decide (item.1 ≠ 0) && decide (item.1 < slotIndex))
    mTxSetCache := pending.mTxSetCache.eraseIf
      (fun item => decide (item.1 ≠ 0) && decide (item.1 < slotIndex)) }

def slotClosed (pending : PendingEnvelopes ε η σ τ) (slotIndex : ℕ) :
    PendingEnvelopes ε η σ τ :=
  if slotIndex > maxSlotsToRemember then
    let slotIndex := slotIndex - maxSlotsToRemember
    { pending with
      mEnvelopes := Function.update pending.mEnvelopes slotIndex
        SlotEnvelopes.empty
      mQsetCache := pending.mQsetCache.eraseIf
        (fun item => decide (item.1 = slotIndex))
      mTxSetCache := pending.mTxSetCache.eraseIf
        (fun item => decide (item.1 = slotIndex))
      posted := pending.posted ++
        [(.txset, slotIndex + 1), (.qset, slotIndex + 1)] }
  else pending

def getTxSet (pending : PendingEnvelopes ε η σ τ) (hash : η) : Option τ :=
  (pending.mTxSetCache.find? hash).map Prod.snd

def getQSet (pending : PendingEnvelopes ε η σ τ) (hash : η) : Option σ :=
  (pending.mQsetCache.find? hash).map Prod.snd

end PendingEnvelopes

inductive PendingEvent (ε η σ τ : Type) where
  | recvSCPEnvelope (env : ε) (admitted : Bool)
  | recvSCPQuorumSet (hash : η) (q : σ)
  | addSCPQuorumSet (hash : η) (lastSeenSlotIndex : ℕ) (q : σ)
  | recvTxSet (hash : η) (txset : τ)
  | addTxSet (hash : η) (lastSeenSlotIndex : ℕ) (txset : τ)
  | drain (admitted : Bool)
  | poll
  | pop (slotIndex : ℕ)
  | eraseBelow (slotIndex : ℕ)
  | slotClosed (slotIndex : ℕ)

namespace PendingEnvelopes

/-- The event loop is not entered while items are handed out. -/
def step (reading : Reading ε η σ) (pending : PendingEnvelopes ε η σ τ) :
    PendingEvent ε η σ τ → PendingEnvelopes ε η σ τ
  | .recvSCPEnvelope env admitted =>
      (pending.recvSCPEnvelope reading env admitted).2
  | .recvSCPQuorumSet hash q => pending.recvSCPQuorumSet reading hash q
  | .addSCPQuorumSet hash lastSeenSlotIndex q =>
      pending.addSCPQuorumSet reading hash lastSeenSlotIndex q
  | .recvTxSet hash txset => pending.recvTxSet hash txset
  | .addTxSet hash lastSeenSlotIndex txset =>
      pending.addTxSet hash lastSeenSlotIndex txset
  | .drain admitted => pending.drain reading admitted
  | .poll => if pending.draining = [] then pending.poll reading else pending
  | .pop slotIndex => (pending.pop slotIndex).2
  | .eraseBelow slotIndex => pending.eraseBelow slotIndex
  | .slotClosed slotIndex => pending.slotClosed slotIndex

def run (reading : Reading ε η σ) (pending : PendingEnvelopes ε η σ τ)
    (events : List (PendingEvent ε η σ τ)) : PendingEnvelopes ε η σ τ :=
  events.foldl (step reading) pending

end PendingEnvelopes

end StellarCore.Herder
