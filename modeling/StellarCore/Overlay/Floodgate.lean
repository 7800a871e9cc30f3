import Mathlib.Tactic

/-!
# The flood gate

`Floodgate.cpp`: which peers have sent a message or were sent it, by the hash
of the message.  A run keeps the history of what was received and sent, so
that the records can be compared with it.  `sha256` of the encoded message is
a parameter; a peer is known by its pointer, which may be null where a record
is added.  The asynchronous sending changes no other peer during a broadcast.
-/

namespace StellarCore.Overlay

variable {Peer Message Hash : Type} [DecidableEq Peer] [DecidableEq Hash]

structure FloodRecord (Peer Message : Type) where
  mLedgerSeq : UInt32
  mMessage : Message
  mPeersTold : List (Option Peer)

/-- The constructor; a null pointer is not recorded. -/
def FloodRecord.new (msg : Message) (ledger : UInt32)
    (peer : Option Peer) : FloodRecord Peer Message where
  mLedgerSeq := ledger
  mMessage := msg
  mPeersTold := if peer.isSome then [peer] else []

structure Floodgate (Peer Message Hash : Type) where
  mFloodMap : Hash → Option (FloodRecord Peer Message)
  mShuttingDown : Bool := false

namespace Floodgate

def empty : Floodgate Peer Message Hash where
  mFloodMap _ := none

/-- An assignment to an entry of the map. -/
def assign (gate : Floodgate Peer Message Hash) (index : Hash)
    (record : FloodRecord Peer Message) : Floodgate Peer Message Hash :=
  { gate with
    mFloodMap := Function.update gate.mFloodMap index (some record) }

/-- `std::map::insert` leaves an entry that exists as it is, and gives the
entry that is then there. -/
def insert (gate : Floodgate Peer Message Hash) (index : Hash)
    (record : FloodRecord Peer Message) :
    Floodgate Peer Message Hash × FloodRecord Peer Message :=
  match gate.mFloodMap index with
  | some existing => (gate, existing)
  | none => (gate.assign index record, record)

/-- The sum of 32-bit integers may wrap around. -/
def clearBelow (gate : Floodgate Peer Message Hash)
    (currentLedger : UInt32) : Floodgate Peer Message Hash :=
  { gate with
    mFloodMap := fun index =>
      (gate.mFloodMap index).filter
        (fun record => !(record.mLedgerSeq + 10 < currentLedger)) }

variable (hash : Message → Hash)

def addRecord (gate : Floodgate Peer Message Hash) (msg : Message)
    (peer : Option Peer) (currentLedgerSeq : UInt32) :
    Floodgate Peer Message Hash × Bool :=
  if gate.mShuttingDown then
    (gate, false)
  else
    let index := hash msg
    match gate.mFloodMap index with
    | none => (gate.assign index (.new msg currentLedgerSeq peer), true)
    | some record =>
        (gate.assign index
          { record with mPeersTold := peer :: record.mPeersTold }, false)

/-- The loop over the connected peers, with whether each is authenticated:
the peers told in the end, and those the message is sent to. -/
def tellPeers : List (Peer × Bool) → List (Option Peer) →
    List (Option Peer) × List Peer
  | [], peersTold => (peersTold, [])
  | (peer, isAuthenticated) :: peers, peersTold =>
      if some peer ∉ peersTold ∧ isAuthenticated = true then
        let later := tellPeers peers (some peer :: peersTold)
        (later.1, peer :: later.2)
      else
        tellPeers peers peersTold

/-- The gate afterwards and the peers that the message is sent to. -/
def broadcast (gate : Floodgate Peer Message Hash)
    (peers : List (Peer × Bool)) (msg : Message) (force : Bool)
    (currentLedgerSeq : UInt32) :
    Floodgate Peer Message Hash × List Peer :=
  if gate.mShuttingDown then
    (gate, [])
  else
    let index := hash msg
    let (gate, record) :=
      match gate.mFloodMap index with
      | none => gate.insert index (.new msg currentLedgerSeq none)
      | some record =>
          if force then gate.insert index (.new msg currentLedgerSeq none)
          else (gate, record)
    let told := tellPeers peers record.mPeersTold
    (gate.assign index { record with mPeersTold := told.1 }, told.2)

end Floodgate

/-! ## Runs -/

inductive FloodEvent (Peer Message Hash : Type) where
  | created (index : Hash)
  | received (peer : Peer) (msg : Message)
  | sent (peer : Peer) (msg : Message)

/-- The gate with the connected peers, and what has happened so far, the
latest first. -/
structure FloodWorld (Peer Message Hash : Type) where
  gate : Floodgate Peer Message Hash
  peers : List (Peer × Bool) := []
  history : List (FloodEvent Peer Message Hash) := []

inductive FloodInput (Peer Message : Type) where
  | addRecord (msg : Message) (peer : Option Peer)
      (currentLedgerSeq : UInt32)
  | broadcast (msg : Message) (force : Bool) (currentLedgerSeq : UInt32)
  | clearBelow (currentLedger : UInt32)
  | connect (peers : List (Peer × Bool))

/-- `HerderImpl::rebroadcast`, as the calls of the gate that it makes. -/
def rebroadcast (manualClose : Bool) (latestMessagesSend : List Message)
    (currentLedgerSeq : UInt32) : List (FloodInput Peer Message) :=
  latestMessagesSend.flatMap fun msg =>
    if !manualClose then [.broadcast msg true currentLedgerSeq] else []

namespace FloodWorld

variable (hash : Message → Hash)

def start : FloodWorld Peer Message Hash where
  gate := Floodgate.empty

/-- The creation of a record, if there is none. -/
def creation (world : FloodWorld Peer Message Hash) (msg : Message) :
    List (FloodEvent Peer Message Hash) :=
  if (world.gate.mFloodMap (hash msg)).isNone then [.created (hash msg)]
  else []

/-- The peers that the input sends its message to. -/
def sends (world : FloodWorld Peer Message Hash) :
    FloodInput Peer Message → List Peer
  | .broadcast msg force currentLedgerSeq =>
      (world.gate.broadcast hash world.peers msg force currentLedgerSeq).2
  | _ => []

def step (world : FloodWorld Peer Message Hash)
    (input : FloodInput Peer Message) : FloodWorld Peer Message Hash :=
  match input with
  | .addRecord msg peer currentLedgerSeq =>
      { world with
        gate := (world.gate.addRecord hash msg peer currentLedgerSeq).1
        history := (peer.map (.received · msg)).toList ++
          world.creation hash msg ++ world.history }
  | .broadcast msg force currentLedgerSeq =>
      { world with
        gate := (world.gate.broadcast hash world.peers msg force
          currentLedgerSeq).1
        history := ((world.sends hash input).map (.sent · msg)).reverse ++
          world.creation hash msg ++ world.history }
  | .clearBelow currentLedger =>
      { world with gate := world.gate.clearBelow currentLedger }
  | .connect peers => { world with peers }

/-- Every step of the run is as the predicate says of the world before it. -/
def AllSteps (P : FloodWorld Peer Message Hash →
      FloodInput Peer Message → Prop) :
    FloodWorld Peer Message Hash → List (FloodInput Peer Message) → Prop
  | _, [] => True
  | world, input :: inputs =>
      P world input ∧ AllSteps P (world.step hash input) inputs

end FloodWorld

end StellarCore.Overlay
