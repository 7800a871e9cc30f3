import StellarCore.Lib.Program
import StellarCore.Overlay.PeerAuth

/-!
# One end of a peer connection

The handlers of a `Peer` work on the peer itself, on the keys of its node and
on the messages it sends.  The messages that other parts of the node exchange
are `other` messages.
-/

namespace StellarCore.Overlay

open StellarCore.Lib

inductive PeerState where
  | connecting
  | connected
  | gotHello
  | gotAuth
  | closing
  deriving DecidableEq, Repr

def PeerState.rank : PeerState → Nat
  | connecting => 0
  | connected => 1
  | gotHello => 2
  | gotAuth => 3
  | closing => 4

structure Hello where
  ledgerVersion : Nat
  overlayVersion : Nat
  overlayMinVersion : Nat
  networkID : Bytes
  versionStr : String
  listeningPort : Int
  peerID : NodeID
  cert : AuthCert
  nonce : Bytes
  deriving DecidableEq, Repr

inductive ErrorCode where
  | errMisc
  | errData
  | errConf
  | errAuth
  | errLoad
  deriving DecidableEq, Repr

inductive StellarMessage where
  | errorMsg (code : ErrorCode) (msg : String)
  | hello (elo : Hello)
  | auth
  | other (payload : Bytes)
  deriving DecidableEq, Repr

structure AuthenticatedMessage where
  sequence : Nat
  message : StellarMessage
  mac : Bytes
  deriving DecidableEq, Repr

/-- `keyRole` is a history variable: once the peer has processed a HELLO, the
role in which its shared key was derived. -/
structure Peer where
  mRole : PeerRole
  mState : PeerState
  mPeerID : NodeID
  mSendNonce : Bytes
  mRecvNonce : Bytes
  mSendMacKey : HmacSha256Key
  mRecvMacKey : HmacSha256Key
  mSendMacSeq : Nat
  mRecvMacSeq : Nat
  mRemoteVersion : String
  mRemoteOverlayMinVersion : Nat
  mRemoteOverlayVersion : Nat
  mRemoteListeningPort : Nat
  keyRole : Option PeerRole

/-- A peer is constructed with a random nonce. -/
def Peer.start (role : PeerRole) (nonce : Bytes) : Peer :=
  { mRole := role
    mState := if role = .weCalledRemote then .connecting else .connected
    mPeerID := List.replicate 32 0
    mSendNonce := nonce
    mRecvNonce := List.replicate 32 0
    mSendMacKey := List.replicate 32 0
    mRecvMacKey := List.replicate 32 0
    mSendMacSeq := 0
    mRecvMacSeq := 0
    mRemoteVersion := ""
    mRemoteOverlayMinVersion := 0
    mRemoteOverlayVersion := 0
    mRemoteListeningPort := 0
    keyRole := none }

/-- The configuration of a node, and the XDR encoding that a MAC covers. -/
structure Config where
  identity : Identity
  ledgerProtocolVersion : Nat
  overlayProtocolMinVersion : Nat
  overlayProtocolVersion : Nat
  versionStr : String
  peerPort : Nat
  messageOpaque : Nat → StellarMessage → Bytes

/-- What a handler asks the rest of its node: the clock, the ban list, the
IDs of the other connected peers, whether there is a slot for the peer, its
address, and what it is greeted with after the handshake. -/
structure Surroundings where
  now : Nat
  shuttingDown : Bool
  isBanned : NodeID → Bool
  otherPeers : List NodeID
  isPeerAccepted : Bool
  ipEmpty : Bool
  sendPeers : List Bytes
  sendScpState : List Bytes

structure Session where
  peerAuth : PeerAuth
  peer : Peer
  sent : List AuthenticatedMessage
  dispatched : List StellarMessage

inductive PeerFailure where
  | couldNotDeriveSharedKey
  deriving DecidableEq, Repr

abbrev Handler := EStateM PeerFailure Session

section Handlers

variable (crypto : Crypto) (config : Config) (around : Surroundings)

def modifyPeer (change : Peer → Peer) : Handler Unit :=
  modify (fun session => { session with peer := change session.peer })

def queueMessage (message : AuthenticatedMessage) : Handler Unit :=
  modify (fun session => { session with sent := session.sent ++ [message] })

def sendMessage (message : StellarMessage) : Handler Unit := do
  let peer := (← get).peer
  match message with
  | .hello _ | .errorMsg _ _ =>
      queueMessage { sequence := 0, message, mac := List.replicate 32 0 }
  | _ =>
      queueMessage
        { sequence := peer.mSendMacSeq
          message
          mac := crypto.hmacSha256 peer.mSendMacKey
            (config.messageOpaque peer.mSendMacSeq message) }
      modifyPeer (fun peer =>
        { peer with mSendMacSeq := (peer.mSendMacSeq + 1) % 2 ^ 64 })

/-- The connection is shut down; what was queued before is still sent. -/
def drop : Handler Unit :=
  modifyPeer (fun peer => { peer with mState := .closing })

def dropWith (code : ErrorCode) (msg : String) : Handler Unit := do
  sendMessage crypto config (.errorMsg code msg)
  drop

def sendHello : Handler Unit := do
  let session ← get
  let (cert, auth) :=
    session.peerAuth.getAuthCert crypto config.identity around.now
  modify (fun session => { session with peerAuth := auth })
  sendMessage crypto config
    (.hello
      { ledgerVersion := config.ledgerProtocolVersion
        overlayMinVersion := config.overlayProtocolMinVersion
        overlayVersion := config.overlayProtocolVersion
        versionStr := config.versionStr
        networkID := config.identity.networkID
        listeningPort := config.peerPort
        peerID := config.identity.nodeID
        cert
        nonce := session.peer.mSendNonce })

def sendAuth : Handler Unit :=
  sendMessage crypto config .auth

/-- The TCP connection of a calling peer is there. -/
def connectHandler : Handler Unit := do
  modifyPeer (fun peer => { peer with mState := .connected })
  sendHello crypto config around

/-- A `PeerAuth` operation that ends the handler when it throws. -/
def withPeerAuth (operation : PeerAuth → Option (HmacSha256Key × PeerAuth)) :
    Handler HmacSha256Key := do
  match operation (← get).peerAuth with
  | some (key, auth) =>
      modify (fun session => { session with peerAuth := auth })
      pure key
  | none => throw .couldNotDeriveSharedKey

def setMacKeys (elo : Hello) : Handler Unit := do
  modifyPeer (fun peer =>
    { peer with
      mRemoteListeningPort := (elo.listeningPort % 2 ^ 16).toNat
      mRemoteOverlayMinVersion := elo.overlayMinVersion
      mRemoteOverlayVersion := elo.overlayVersion
      mRemoteVersion := elo.versionStr
      mPeerID := elo.peerID
      mRecvNonce := elo.nonce
      mSendMacSeq := 0
      mRecvMacSeq := 0 })
  let peer := (← get).peer
  let sendMacKey ← withPeerAuth (fun auth =>
    auth.getSendingMacKey crypto elo.cert.pubkey peer.mSendNonce
      peer.mRecvNonce peer.mRole)
  modifyPeer (fun peer => { peer with mSendMacKey := sendMacKey })
  let recvMacKey ← withPeerAuth (fun auth =>
    auth.getReceivingMacKey crypto elo.cert.pubkey peer.mSendNonce
      peer.mRecvNonce peer.mRole)
  modify (fun session =>
    { session with peer :=
      { session.peer with
        mRecvMacKey := recvMacKey
        mState := .gotHello
        keyRole := session.peerAuth.derivedAs elo.cert.pubkey } })

/-- The checks made once the caller can decode an authenticated error. -/
def checkHello (elo : Hello) : Handler Unit := do
  let peer := (← get).peer
  if elo.overlayMinVersion > elo.overlayVersion ∨
      elo.overlayVersion < config.overlayProtocolMinVersion ∨
      elo.overlayMinVersion > config.overlayProtocolVersion then
    dropWith crypto config .errConf "wrong protocol version"
  else if elo.peerID = config.identity.nodeID then
    dropWith crypto config .errConf "connecting to self"
  else if elo.networkID ≠ config.identity.networkID then
    dropWith crypto config .errConf "wrong network passphrase"
  else if elo.peerID ∈ around.otherPeers then
    dropWith crypto config .errConf "connecting already-connected peer"
  else if elo.listeningPort ≤ 0 ∨ elo.listeningPort > 65535 then
    dropWith crypto config .errConf "bad port number"
  else if peer.mRole = .weCalledRemote then
    sendAuth crypto config
  else
    pure ()

/-- The HELLO reaches the key derivation. -/
def acceptsHello (elo : Hello) (peer : Peer) : Bool :=
  peer.mState.rank < PeerState.gotHello.rank &&
    PeerAuth.verifyRemoteAuthCert crypto config.identity around.now
      elo.peerID elo.cert &&
    !around.isBanned elo.peerID

/-- A called node sends its HELLO even when an error follows: the caller
decodes no authenticated message before it. -/
def answerHello (elo : Hello) : Handler Unit := do
  let peer := (← get).peer
  if peer.mRole = .remoteCalledUs then
    sendHello crypto config around
    checkHello crypto config around elo
  else
    checkHello crypto config around elo

def recvHello (elo : Hello) : Handler Unit := do
  let peer := (← get).peer
  if acceptsHello crypto config around elo peer then
    setMacKeys crypto elo
    answerHello crypto config around elo
  else
    drop

def sendAll (payloads : List Bytes) : Handler Unit :=
  match payloads with
  | [] => pure ()
  | payload :: rest => do
      sendMessage crypto config (.other payload)
      sendAll rest

def noteHandshakeSuccessInPeerRecord : Handler Unit := do
  let peer := (← get).peer
  if around.ipEmpty ∨ peer.mRemoteListeningPort = 0 then
    drop
  else
    pure ()

/-- Only the called node answers an AUTH with its own. -/
def answerAuth : Handler Unit := do
  let peer := (← get).peer
  if peer.mRole = .remoteCalledUs then
    sendAuth crypto config
    sendAll crypto config around.sendPeers
  else
    pure ()

def greetPeer : Handler Unit := do
  noteHandshakeSuccessInPeerRecord around
  answerAuth crypto config around
  sendAll crypto config around.sendScpState

def recvAuth : Handler Unit := do
  let peer := (← get).peer
  if peer.mState ≠ .gotHello then
    dropWith crypto config .errMisc "out-of-order AUTH message"
  else
    modifyPeer (fun peer => { peer with mState := .gotAuth })
    if !around.isPeerAccepted then
      dropWith crypto config .errLoad "peer rejected"
    else
      greetPeer crypto config around

def handle (message : StellarMessage) : Handler Unit :=
  match message with
  | .errorMsg _ _ => drop
  | .hello elo => recvHello crypto config around elo
  | .auth => recvAuth crypto config around
  | .other _ => pure ()

def noteDispatched (message : StellarMessage) : Handler Unit :=
  modify (fun session =>
    { session with dispatched := session.dispatched ++ [message] })

/-- Before the handshake is complete only its own messages reach a
handler. -/
def dispatch (message : StellarMessage) : Handler Unit := do
  let peer := (← get).peer
  let ofHandshake := match message with
    | .other _ => false
    | _ => true
  if peer.mState ≠ .gotAuth ∧ !ofHandshake then
    drop
  else
    handle crypto config around message
    noteDispatched message

def countReceived : Handler Unit :=
  modifyPeer (fun peer =>
    { peer with mRecvMacSeq := (peer.mRecvMacSeq + 1) % 2 ^ 64 })

def recvMessage (msg : AuthenticatedMessage) : Handler Unit := do
  let peer := (← get).peer
  if peer.mState = .closing ∨ around.shuttingDown then
    pure ()
  else
    let isError := match msg.message with
      | .errorMsg _ _ => true
      | _ => false
    if peer.mState.rank ≥ PeerState.gotHello.rank ∧ !isError then
      if msg.sequence ≠ peer.mRecvMacSeq then
        countReceived
        dropWith crypto config .errAuth "unexpected auth sequence"
      else if !crypto.hmacSha256Verify msg.mac peer.mRecvMacKey
          (config.messageOpaque msg.sequence msg.message) then
        countReceived
        dropWith crypto config .errAuth "unexpected MAC"
      else
        countReceived
        dispatch crypto config around msg.message
    else
      dispatch crypto config around msg.message

end Handlers

end StellarCore.Overlay
