import Mathlib
import StellarCore.Overlay.Handshake

/-!
# Agreement on the keys of a connection

Two nodes open connections to each other in either direction, and a
connection may break at any moment.  The ends of a connection agree on their
MAC keys as long as no node derives a shared key in another direction than
the one in use at the other node.
-/

namespace StellarCore.Overlay

open StellarCore.Lib

inductive Side where
  | nodeA
  | nodeB
  deriving DecidableEq, Repr

def Side.other : Side → Side
  | nodeA => nodeB
  | nodeB => nodeA

@[simp] theorem Side.other_other (side : Side) : side.other.other = side := by
  cases side with
  | nodeA => rfl
  | nodeB => rfl

@[simp] theorem Side.other_ne (side : Side) : side.other ≠ side := by
  cases side with
  | nodeA => decide
  | nodeB => decide

theorem Side.eq_or_eq_other (side asked : Side) :
    asked = side ∨ asked = side.other := by
  cases side with
  | nodeA =>
      cases asked with
      | nodeA => exact .inl rfl
      | nodeB => exact .inr rfl
  | nodeB =>
      cases asked with
      | nodeA => exact .inr rfl
      | nodeB => exact .inl rfl

/-- A TCP connection: its two ends and what is on the way to each of them,
in order. -/
structure Connection where
  ends : Side → Peer
  inFlight : Side → List AuthenticatedMessage

structure Net where
  auth : Side → PeerAuth
  connections : List Connection

/-- `otherHello` is a HELLO from a third node: it uses the cache too. -/
inductive NetEvent where
  | connect (caller : Side) (around : Surroundings)
      (callerNonce calledNonce : Bytes)
  | deliver (side : Side) (index : Nat) (around : Surroundings)
  | close (side : Side) (index : Nat)
  | send (side : Side) (index : Nat) (payload : Bytes)
  | otherHello (side : Side) (remotePublic : Curve25519Public)
      (role : PeerRole)

section Steps

variable (crypto : Crypto) (config : Side → Config)

def Net.session (net : Net) (side : Side) (connection : Connection) :
    Session :=
  { peerAuth := net.auth side
    peer := connection.ends side
    sent := []
    dispatched := [] }

/-- The connection after a handler of one end. -/
def Connection.after (connection : Connection) (side : Side)
    (session : Session) : Connection :=
  { ends := Function.update connection.ends side session.peer
    inFlight := Function.update connection.inFlight side.other
      (connection.inFlight side.other ++ session.sent) }

def Connection.take (connection : Connection) (side : Side)
    (rest : List AuthenticatedMessage) : Connection :=
  { connection with
    inFlight := Function.update connection.inFlight side rest }

def newConnection (caller : Side) (callerNonce calledNonce : Bytes) :
    Connection :=
  { ends := fun side =>
      if side = caller then Peer.start .weCalledRemote callerNonce
      else Peer.start .remoteCalledUs calledNonce
    inFlight := fun _ => [] }

/-- Runs a handler of one end of a connection; nothing comes back when it
throws. -/
def Net.handle (net : Net) (side : Side) (connection : Connection)
    (handler : Handler Unit) : Option (PeerAuth × Connection) :=
  match handler (net.session side connection) with
  | .ok _ session =>
      some (session.peerAuth, connection.after side session)
  | .error _ _ => none

def Net.store (net : Net) (side : Side) (index : Nat)
    (result : PeerAuth × Connection) : Net :=
  { auth := Function.update net.auth side result.1
    connections := net.connections.set index result.2 }

def Net.onConnection (net : Net) (side : Side) (index : Nat)
    (handler : Handler Unit) : Option Net :=
  match net.connections[index]? with
  | none => some net
  | some connection =>
      (net.handle side connection handler).map (net.store side index)

def Net.step (net : Net) (event : NetEvent) : Option Net :=
  match event with
  | .connect caller around callerNonce calledNonce =>
      let fresh := newConnection caller callerNonce calledNonce
      (net.handle caller fresh
        (connectHandler crypto (config caller) around)).map
        (fun (auth, connection) =>
          { auth := Function.update net.auth caller auth
            connections := net.connections ++ [connection] })
  | .deliver side index around =>
      match net.connections[index]? with
      | none => some net
      | some connection =>
          match connection.inFlight side with
          | [] => some net
          | message :: rest =>
              (net.handle side (connection.take side rest)
                (recvMessage crypto (config side) around message)).map
                (net.store side index)
  | .close side index => net.onConnection side index drop
  | .send side index payload =>
      net.onConnection side index
        (sendMessage crypto (config side) (.other payload))
  | .otherHello side remotePublic role =>
      if remotePublic = (net.auth side.other).mECDHPublicKey then
        some net
      else
        ((net.auth side).getSharedKey crypto remotePublic role).map
          (fun (_, auth) =>
            { net with auth := Function.update net.auth side auth })

end Steps

/-- Two honest nodes: what they run with, and their keys, which give both of
them the same shared point. -/
structure Pairing where
  crypto : Crypto
  config : Side → Config
  secret : Side → Curve25519Secret
  pub : Side → Curve25519Public
  startTime : Side → Nat
  samePoint : crypto.scalarmult (secret .nodeA) (pub .nodeB) =
    crypto.scalarmult (secret .nodeB) (pub .nodeA)

namespace Pairing

variable (pairing : Pairing)

def start : Net :=
  { auth := fun side =>
      PeerAuth.start pairing.crypto (pairing.config side).identity
        (pairing.startTime side) (pairing.secret side) (pairing.pub side)
    connections := [] }

def run (net : Net) : List NetEvent → Option Net
  | [] => some net
  | event :: events =>
      (net.step pairing.crypto pairing.config event).bind
        (fun after => run after events)

/-- The shared key of a node with the other one, derived in a role. -/
def sharedKey (side : Side) (role : PeerRole) : Option HmacSha256Key :=
  pairing.crypto.ecdhDeriveSharedKey (pairing.secret side)
    (pairing.pub side) (pairing.pub side.other) (role = .weCalledRemote)

/-- The caller comes first on both sides. -/
theorem sharedKey_other (side : Side) (role : PeerRole) :
    pairing.sharedKey side.other role.flip = pairing.sharedKey side role := by
  have points := pairing.samePoint
  unfold sharedKey Crypto.ecdhDeriveSharedKey
  cases side with
  | nodeA =>
      cases role with
      | remoteCalledUs => simp [Side.other, PeerRole.flip, points]
      | weCalledRemote => simp [Side.other, PeerRole.flip, points]
  | nodeB =>
      cases role with
      | remoteCalledUs => simp [Side.other, PeerRole.flip, points]
      | weCalledRemote => simp [Side.other, PeerRole.flip, points]

end Pairing

/-- The role in which the cached key of a remote node was derived. -/
def PeerAuth.direction (auth : PeerAuth) (remotePublic : Curve25519Public) :
    Option PeerRole :=
  if auth.mSharedKeyCache.contains remotePublic then
    auth.derivedAs remotePublic
  else
    none

/-- The shared keys the other node has for this one, in its cache or on a
connection where only it has processed a HELLO, were derived for the calling
side that this node would derive one for in the given role. -/
def Net.OtherUses (pairing : Pairing) (net : Net) (side : Side)
    (role : PeerRole) : Prop :=
  (∀ used ∈ (net.auth side.other).direction (pairing.pub side),
    used = role.flip) ∧
  ∀ connection ∈ net.connections,
    (connection.ends side).keyRole = none →
    (connection.ends side).mState ≠ .closing →
    ∀ used ∈ (connection.ends side.other).keyRole, used = role.flip

instance (pairing : Pairing) (net : Net) (side : Side) (role : PeerRole) :
    Decidable (net.OtherUses pairing side role) :=
  inferInstanceAs (Decidable (_ ∧ _))

/-- A HELLO for which the end has to derive a shared key arrives only while
the other node uses keys derived for the same calling side. -/
def Net.HelloKeepsCaller (pairing : Pairing) (net : Net) (side : Side)
    (around : Surroundings) (peer : Peer) (message : StellarMessage) :
    Prop :=
  match message with
  | .hello elo =>
      acceptsHello pairing.crypto (pairing.config side) around elo peer →
      (net.auth side).mSharedKeyCache.contains elo.cert.pubkey = false →
      net.OtherUses pairing side peer.mRole
  | _ => True

instance (pairing : Pairing) (net : Net) (side : Side)
    (around : Surroundings) (peer : Peer) (message : StellarMessage) :
    Decidable (net.HelloKeepsCaller pairing side around peer message) :=
  match message with
  | .hello _ => inferInstanceAs (Decidable (_ → _ → _))
  | .errorMsg _ _ => instDecidableTrue
  | .auth => instDecidableTrue
  | .other _ => instDecidableTrue

/-- No node derives a shared key for another calling side than the other node
uses one for. -/
def Net.KeepsCaller (pairing : Pairing) (net : Net) (event : NetEvent) :
    Prop :=
  match event with
  | .deliver side index around =>
      ∀ connection ∈ net.connections[index]?,
        ∀ message ∈ (connection.inFlight side).head?,
          net.HelloKeepsCaller pairing side around (connection.ends side)
            message.message
  | _ => True

instance (pairing : Pairing) (net : Net) (event : NetEvent) :
    Decidable (net.KeepsCaller pairing event) :=
  match event with
  | .deliver _ _ _ => inferInstanceAs (Decidable (∀ _ ∈ _, _))
  | .connect _ _ _ _ => instDecidableTrue
  | .close _ _ => instDecidableTrue
  | .send _ _ _ => instDecidableTrue
  | .otherHello _ _ _ => instDecidableTrue

/-- Every event of the run keeps the caller in the state it finds. -/
def Pairing.RunKeepsCaller (pairing : Pairing) (net : Net) :
    List NetEvent → Prop
  | [] => True
  | event :: events =>
      net.KeepsCaller pairing event ∧
        ∀ after ∈ net.step pairing.crypto pairing.config event,
          RunKeepsCaller pairing after events

instance Pairing.decidableRunKeepsCaller (pairing : Pairing) (net : Net) :
    (events : List NetEvent) →
      Decidable (pairing.RunKeepsCaller net events)
  | [] => instDecidableTrue
  | _ :: events =>
      have (after : Net) := decidableRunKeepsCaller pairing after events
      inferInstanceAs (Decidable (_ ∧ ∀ _ ∈ _, _))

/-- The MAC keys of an end come from the shared key of a role. -/
def Peer.KeyedBy (pairing : Pairing) (side : Side) (remoteNonce : Bytes)
    (peer : Peer) (role : PeerRole) : Prop :=
  ∃ key, pairing.sharedKey side role = some key ∧
    peer.mSendMacKey = pairing.crypto.hkdfExpand key
      (PeerAuth.sendingBuffer peer.mSendNonce remoteNonce peer.mRole) ∧
    peer.mRecvMacKey = pairing.crypto.hkdfExpand key
      (PeerAuth.receivingBuffer peer.mSendNonce remoteNonce peer.mRole)

/-- The invariant of a connection, given the directions of the cached keys. -/
structure Connection.Agrees (pairing : Pairing)
    (direction : Side → Option PeerRole) (connection : Connection) :
    Prop where
  roles : ∀ side, (connection.ends side.other).mRole =
    (connection.ends side).mRole.flip
  flight : ∀ side, ∀ message ∈ connection.inFlight side,
    ∀ elo, message.message = .hello elo →
      elo.cert.pubkey = pairing.pub side.other ∧
        elo.nonce = (connection.ends side.other).mSendNonce
  ungreeted : ∀ side,
    (connection.ends side).mState.rank < PeerState.gotHello.rank →
      (connection.ends side).keyRole = none
  keyed : ∀ side role, (connection.ends side).keyRole = some role →
    (connection.ends side).KeyedBy pairing side
      (connection.ends side.other).mSendNonce role
  half : ∀ side role used, (connection.ends side).keyRole = none →
    (connection.ends side).mState ≠ .closing →
    (connection.ends side.other).keyRole = some used →
    direction side = some role → used = role.flip
  both : ∀ side role used, (connection.ends side).keyRole = some role →
    (connection.ends side.other).keyRole = some used → used = role.flip

def Net.direction (pairing : Pairing) (net : Net) (side : Side) :
    Option PeerRole :=
  (net.auth side).direction (pairing.pub side.other)

structure Net.Agrees (pairing : Pairing) (net : Net) : Prop where
  secret : ∀ side, (net.auth side).mECDHSecretKey = pairing.secret side
  pub : ∀ side, (net.auth side).mECDHPublicKey = pairing.pub side
  sound : ∀ side, (net.auth side).Sound pairing.crypto
  caches : ∀ side role used, net.direction pairing side = some role →
    net.direction pairing side.other = some used → used = role.flip
  connected : ∀ connection ∈ net.connections,
    connection.Agrees pairing (net.direction pairing)

section Agreement

variable {pairing : Pairing} {net : Net} {connection : Connection}
  {direction direction' : Side → Option PeerRole} {side : Side}
  {session : Session}

theorem PeerState.ne_closing_of_rank {state : PeerState}
    (early : state.rank < PeerState.gotHello.rank) : state ≠ .closing := by
  intro closing
  rw [closing] at early
  exact absurd early (by decide)

/-- The keys depend on nothing else than the directions in use. -/
theorem Connection.Agrees.of_direction
    (agrees : connection.Agrees pairing direction)
    (uses : ∀ side role used, (connection.ends side).keyRole = none →
      (connection.ends side).mState ≠ .closing →
      (connection.ends side.other).keyRole = some used →
      direction' side = some role → used = role.flip) :
    connection.Agrees pairing direction' :=
  ⟨agrees.roles, agrees.flight, agrees.ungreeted, agrees.keyed, uses,
    agrees.both⟩

/-- Fewer cached keys leave a connection in agreement. -/
theorem Connection.Agrees.forget
    (agrees : connection.Agrees pairing direction)
    (fewer : ∀ side role, direction' side = some role →
      direction side = some role) :
    connection.Agrees pairing direction' := by
  apply agrees.of_direction
  intro side role used fresh opened greeted derived
  exact agrees.half side role used fresh opened greeted
    (fewer side role derived)

@[simp] theorem Connection.after_ends_self (connection : Connection)
    (side : Side) (session : Session) :
    (connection.after side session).ends side = session.peer := by
  simp [Connection.after]

@[simp] theorem Connection.after_ends_other (connection : Connection)
    (side : Side) (session : Session) :
    (connection.after side session).ends side.other =
      connection.ends side.other := by
  simp [Connection.after]

@[simp] theorem Connection.after_inFlight_self (connection : Connection)
    (side : Side) (session : Session) :
    (connection.after side session).inFlight side =
      connection.inFlight side := by
  have different : side ≠ side.other := fun same => side.other_ne same.symm
  simp [Connection.after, different]

@[simp] theorem Connection.after_inFlight_other (connection : Connection)
    (side : Side) (session : Session) :
    (connection.after side session).inFlight side.other =
      connection.inFlight side.other ++ session.sent := by
  simp [Connection.after]

/-- A statement about both sides, told from one of them. -/
theorem Side.forall_iff {holds : Side → Prop} (side : Side) :
    (∀ each, holds each) ↔ holds side ∧ holds side.other := by
  constructor
  · intro all
    exact ⟨all side, all side.other⟩
  · intro two each
    rcases side.eq_or_eq_other each with rfl | rfl
    · exact two.1
    · exact two.2

/-- What a handler of one end sends, the other end takes for its HELLO. -/
theorem Connection.flight_after
    (agrees : connection.Agrees pairing direction)
    (pub : (net.auth side).mECDHPublicKey = pairing.pub side)
    (sent : ∀ message ∈ session.sent,
      message ∈ (net.session side connection).sent ∨
        message.Own (net.session side connection))
    (nonce : session.peer.mSendNonce =
      (connection.ends side).mSendNonce) :
    ∀ each, ∀ message ∈ (connection.after side session).inFlight each,
      ∀ elo, message.message = .hello elo →
        elo.cert.pubkey = pairing.pub each.other ∧ elo.nonce =
          ((connection.after side session).ends each.other).mSendNonce := by
  rw [Side.forall_iff side]
  constructor
  · intro message member elo hello
    rw [Connection.after_inFlight_self] at member
    rw [Connection.after_ends_other]
    exact agrees.flight side message member elo hello
  · intro message member elo hello
    rw [Connection.after_inFlight_other] at member
    rw [Side.other_other, Connection.after_ends_self, nonce]
    rcases List.mem_append.mp member with old | new
    · have earlier := agrees.flight side.other message old elo hello
      rwa [Side.other_other] at earlier
    · rcases sent message new with never | own
      · exact absurd never List.not_mem_nil
      · obtain ⟨pubkey, ownNonce⟩ := own elo hello
        exact ⟨pubkey.trans pub, ownNonce⟩

/-- A quiet handler of one end keeps the agreement. -/
theorem Connection.Agrees.quiet
    (agrees : connection.Agrees pairing direction)
    (pub : (net.auth side).mECDHPublicKey = pairing.pub side)
    (sound : (net.auth side).Sound pairing.crypto)
    (same : (net.session side connection).Quiet session) :
    (connection.after side session).Agrees pairing direction := by
  have role : session.peer.mRole = (connection.ends side).mRole := same.role
  have keyRole : session.peer.keyRole = (connection.ends side).keyRole :=
    same.keyRole
  have nonce : session.peer.mSendNonce =
    (connection.ends side).mSendNonce := same.sendNonce
  have state : (connection.ends side).mState.rank ≤
    session.peer.mState.rank := same.state
  have opened : session.peer.mState ≠ .closing →
      (connection.ends side).mState ≠ .closing := by
    intro opened closing
    rw [closing] at state
    apply opened
    cases after : session.peer.mState with
    | closing => rfl
    | connecting => simp [after, PeerState.rank] at state
    | connected => simp [after, PeerState.rank] at state
    | gotHello => simp [after, PeerState.rank] at state
    | gotAuth => simp [after, PeerState.rank] at state
  constructor
  · rw [Side.forall_iff side]
    have before := agrees.roles side
    simp [role, before]
  · exact Connection.flight_after agrees pub (same.sent sound.certOwn) nonce
  · rw [Side.forall_iff side]
    constructor
    · intro early
      rw [Connection.after_ends_self] at early ⊢
      rw [keyRole]
      exact agrees.ungreeted side (state.trans_lt early)
    · rw [Connection.after_ends_other]
      exact agrees.ungreeted side.other
  · rw [Side.forall_iff side]
    constructor
    · intro used greeted
      rw [Connection.after_ends_self] at greeted ⊢
      rw [keyRole] at greeted
      obtain ⟨key, shared, sendKey, recvKey⟩ := agrees.keyed side used greeted
      refine ⟨key, shared, ?_, ?_⟩
      · rw [Connection.after_ends_other, nonce, role]
        exact same.sendMacKey.trans sendKey
      · rw [Connection.after_ends_other, nonce, role]
        exact same.recvMacKey.trans recvKey
    · intro used greeted
      rw [Connection.after_ends_other] at greeted ⊢
      rw [Side.other_other, Connection.after_ends_self, nonce]
      have earlier := agrees.keyed side.other used greeted
      rwa [Side.other_other] at earlier
  · rw [Side.forall_iff side]
    constructor
    · intro used other fresh notClosing greeted
      rw [Connection.after_ends_self] at fresh notClosing
      rw [Connection.after_ends_other] at greeted
      rw [keyRole] at fresh
      exact agrees.half side used other fresh (opened notClosing) greeted
    · intro used other fresh notClosing greeted
      rw [Connection.after_ends_other] at fresh notClosing
      rw [Side.other_other, Connection.after_ends_self, keyRole] at greeted
      refine agrees.half side.other used other fresh notClosing ?_
      rwa [Side.other_other]
  · rw [Side.forall_iff side]
    constructor
    · intro used other greeted otherGreeted
      rw [Connection.after_ends_self, keyRole] at greeted
      rw [Connection.after_ends_other] at otherGreeted
      exact agrees.both side used other greeted otherGreeted
    · intro used other greeted otherGreeted
      rw [Connection.after_ends_other] at greeted
      rw [Side.other_other, Connection.after_ends_self, keyRole]
        at otherGreeted
      refine agrees.both side.other used other greeted ?_
      rwa [Side.other_other]

/-- Processing a HELLO keeps the agreement of its connection, if the other
node uses keys of the same direction. -/
theorem Connection.Agrees.greets {elo : Hello} {keyRole : PeerRole}
    (agrees : connection.Agrees pairing direction)
    (pub : (net.auth side).mECDHPublicKey = pairing.pub side)
    (secret : (net.auth side).mECDHSecretKey = pairing.secret side)
    (greeted : (net.session side connection).Greets pairing.crypto elo
      session)
    (sender : elo.cert.pubkey = pairing.pub side.other ∧
      elo.nonce = (connection.ends side.other).mSendNonce)
    (now : session.peer.keyRole = some keyRole)
    (onConnection : ∀ used,
      (connection.ends side.other).keyRole = some used →
        used = keyRole.flip)
    (inCache : ∀ used, direction' side.other = some used →
      used = keyRole.flip) :
    (connection.after side session).Agrees pairing direction' := by
  have role : session.peer.mRole = (connection.ends side).mRole :=
    greeted.role
  have nonce : session.peer.mSendNonce =
    (connection.ends side).mSendNonce := greeted.sendNonce
  constructor
  · rw [Side.forall_iff side]
    have before := agrees.roles side
    simp [role, before]
  · exact Connection.flight_after agrees pub greeted.sent nonce
  · rw [Side.forall_iff side]
    constructor
    · intro early
      rw [Connection.after_ends_self] at early
      exact absurd greeted.state (Nat.not_le.mpr early)
    · rw [Connection.after_ends_other]
      exact agrees.ungreeted side.other
  · rw [Side.forall_iff side]
    constructor
    · intro used keyed
      rw [Connection.after_ends_self] at keyed ⊢
      obtain ⟨known, sameRole, key, shared, sendKey, recvKey⟩ :=
        greeted.keyed
      obtain rfl : known = used := by
        rw [keyed] at sameRole
        exact (Option.some.inj sameRole).symm
      refine ⟨key, ?_, ?_, ?_⟩
      · unfold PeerAuth.sharedKey at shared
        rw [greeted.secret.trans secret, greeted.pub.trans pub, sender.1]
          at shared
        exact shared
      · rw [Connection.after_ends_other, ← sender.2]
        exact sendKey
      · rw [Connection.after_ends_other, ← sender.2]
        exact recvKey
    · intro used keyed
      rw [Connection.after_ends_other] at keyed ⊢
      rw [Side.other_other, Connection.after_ends_self, nonce]
      have earlier := agrees.keyed side.other used keyed
      rwa [Side.other_other] at earlier
  · rw [Side.forall_iff side]
    constructor
    · intro used other fresh
      rw [Connection.after_ends_self, now] at fresh
      exact absurd fresh (by simp)
    · intro used other fresh _ keyed derived
      rw [Side.other_other, Connection.after_ends_self, now] at keyed
      rw [inCache used derived, PeerRole.flip_flip]
      exact (Option.some.inj keyed).symm
  · rw [Side.forall_iff side]
    constructor
    · intro used other keyed otherKeyed
      rw [Connection.after_ends_self, now] at keyed
      rw [Connection.after_ends_other] at otherKeyed
      rw [← Option.some.inj keyed]
      exact onConnection other otherKeyed
    · intro used other keyed otherKeyed
      rw [Connection.after_ends_other] at keyed
      rw [Side.other_other, Connection.after_ends_self, now] at otherKeyed
      rw [onConnection used keyed, PeerRole.flip_flip]
      exact (Option.some.inj otherKeyed).symm

theorem Session.Greets.direction_eq {elo : Hello} {before after : Session}
    {crypto : Crypto} (greeted : before.Greets crypto elo after) :
    after.peerAuth.direction elo.cert.pubkey = after.peer.keyRole := by
  obtain ⟨key, shares⟩ := greeted.shares
  have known : after.peerAuth.mSharedKeyCache.find? elo.cert.pubkey =
      some key := by
    cases shares with
    | cached found same _ => rw [same, found]
    | derived _ _ known _ _ => exact known
  rw [greeted.keyRole]
  simp [PeerAuth.direction, LruCache.contains, known]

/-- The key in use after a HELLO has the direction the other node uses. -/
theorem Net.Agrees.otherUses {elo : Hello} {keyRole : PeerRole}
    (agrees : net.Agrees pairing)
    (greeted : (net.session side connection).Greets pairing.crypto elo
      session)
    (sender : elo.cert.pubkey = pairing.pub side.other)
    (now : session.peer.keyRole = some keyRole)
    (keeps : (net.auth side).mSharedKeyCache.contains elo.cert.pubkey =
      false → net.OtherUses pairing side (connection.ends side).mRole) :
    net.OtherUses pairing side keyRole := by
  obtain ⟨key, shares⟩ := greeted.shares
  have history := greeted.keyRole
  rw [now] at history
  cases shares with
  | cached found _ same =>
      have derived : net.direction pairing side = some keyRole := by
        have contains : (net.auth side).mSharedKeyCache.contains
            (pairing.pub side.other) = true := by
          rw [← sender]
          exact Option.isSome_iff_exists.mpr ⟨key, found⟩
        unfold Net.direction PeerAuth.direction
        rw [if_pos contains, history, same, sender]
        rfl
      constructor
      · intro used other
        apply agrees.caches side keyRole used derived
        unfold Net.direction
        rwa [Side.other_other]
      · intro half member fresh opened used greetedThere
        exact (agrees.connected half member).half side keyRole used fresh
          opened greetedThere derived
  | derived unknown _ _ _ same =>
      have role : keyRole = (connection.ends side).mRole := by
        rw [same, Function.update_self] at history
        exact Option.some.inj history
      rw [role]
      apply keeps
      unfold LruCache.contains
      have none : (net.auth side).mSharedKeyCache.find? elo.cert.pubkey =
          none := unknown
      rw [none]
      rfl

/-- The state after a handler of one end, with its connection put among the
others. -/
def Net.after (net : Net) (side : Side) (session : Session)
    (connections : List Connection) : Net :=
  { auth := Function.update net.auth side session.peerAuth
    connections }

theorem Net.after_auth_self (connections : List Connection) :
    (net.after side session connections).auth side = session.peerAuth :=
  Function.update_self ..

theorem Net.after_auth_other (connections : List Connection) :
    (net.after side session connections).auth side.other =
      net.auth side.other :=
  Function.update_of_ne side.other_ne ..

theorem Net.after_direction_other (connections : List Connection) :
    (net.after side session connections).direction pairing side.other =
      net.direction pairing side.other := by
  unfold Net.direction
  rw [Net.after_auth_other]

theorem Net.Agrees.quiet {connections : List Connection}
    (agrees : net.Agrees pairing)
    (onIt : connection.Agrees pairing (net.direction pairing))
    (same : (net.session side connection).Quiet session)
    (members : ∀ each ∈ connections,
      each ∈ net.connections ∨ each = connection.after side session) :
    (net.after side session connections).Agrees pairing := by
  have direction :
      (net.after side session connections).direction pairing =
        net.direction pairing := by
    funext each
    rcases side.eq_or_eq_other each with rfl | rfl
    · unfold Net.direction PeerAuth.direction
      rw [Net.after_auth_self, same.cache, same.history]
      rfl
    · exact Net.after_direction_other connections
  constructor
  · rw [Side.forall_iff side, Net.after_auth_self, Net.after_auth_other]
    exact ⟨same.secret.trans (agrees.secret side),
      agrees.secret side.other⟩
  · rw [Side.forall_iff side, Net.after_auth_self, Net.after_auth_other]
    exact ⟨same.pub.trans (agrees.pub side), agrees.pub side.other⟩
  · rw [Side.forall_iff side, Net.after_auth_self, Net.after_auth_other]
    exact ⟨same.sound (agrees.sound side), agrees.sound side.other⟩
  · rw [direction]
    exact agrees.caches
  · intro each member
    rw [direction]
    rcases members each member with old | rfl
    · exact agrees.connected each old
    · exact onIt.quiet (agrees.pub side) (agrees.sound side) same

theorem Net.Agrees.greets {elo : Hello} {connections : List Connection}
    (agrees : net.Agrees pairing)
    (onIt : connection.Agrees pairing (net.direction pairing))
    (greeted : (net.session side connection).Greets pairing.crypto elo
      session)
    (sender : elo.cert.pubkey = pairing.pub side.other ∧
      elo.nonce = (connection.ends side.other).mSendNonce)
    (uses : ∀ keyRole, session.peer.keyRole = some keyRole →
      net.OtherUses pairing side keyRole ∧
        ∀ used, (connection.ends side.other).keyRole = some used →
          used = keyRole.flip)
    (members : ∀ each ∈ connections,
      each ∈ net.connections ∨ each = connection.after side session) :
    (net.after side session connections).Agrees pairing := by
  obtain ⟨keyRole, now, _⟩ := greeted.keyed
  obtain ⟨otherUses, onConnection⟩ := uses keyRole now
  have own : (net.after side session connections).direction pairing side =
      some keyRole := by
    unfold Net.direction
    rw [Net.after_auth_self, ← sender.1, greeted.direction_eq, now]
  have inCache : ∀ used,
      (net.after side session connections).direction pairing side.other =
        some used → used = keyRole.flip := by
    intro used derived
    rw [Net.after_direction_other] at derived
    unfold Net.direction at derived
    rw [Side.other_other] at derived
    exact otherUses.1 used derived
  constructor
  · rw [Side.forall_iff side, Net.after_auth_self, Net.after_auth_other]
    exact ⟨greeted.secret.trans (agrees.secret side),
      agrees.secret side.other⟩
  · rw [Side.forall_iff side, Net.after_auth_self, Net.after_auth_other]
    exact ⟨greeted.pub.trans (agrees.pub side), agrees.pub side.other⟩
  · rw [Side.forall_iff side, Net.after_auth_self, Net.after_auth_other]
    exact ⟨greeted.sound, agrees.sound side.other⟩
  · rw [Side.forall_iff side]
    constructor
    · intro role used derived other
      rw [own] at derived
      rw [← Option.some.inj derived]
      exact inCache used other
    · intro role used derived other
      rw [Side.other_other, own] at other
      rw [inCache role derived, PeerRole.flip_flip]
      exact (Option.some.inj other).symm
  · intro each member
    rcases members each member with old | rfl
    · apply (agrees.connected each old).of_direction
      rw [Side.forall_iff side]
      constructor
      · intro role used fresh opened there derived
        rw [own] at derived
        rw [← Option.some.inj derived]
        exact otherUses.2 each old fresh opened used there
      · intro role used fresh opened there derived
        rw [Net.after_direction_other] at derived
        exact (agrees.connected each old).half side.other role used fresh
          opened there derived
    · exact onIt.greets (agrees.pub side) (agrees.secret side) greeted
        sender now onConnection inCache

theorem Connection.Agrees.take {rest : List AuthenticatedMessage}
    (agrees : connection.Agrees pairing direction)
    (fewer : rest ⊆ connection.inFlight side) :
    (connection.take side rest).Agrees pairing direction := by
  refine ⟨agrees.roles, ?_, agrees.ungreeted, agrees.keyed, agrees.half,
    agrees.both⟩
  rw [Side.forall_iff side]
  constructor
  · intro message member elo hello
    simp only [Connection.take, Function.update_self] at member
    exact agrees.flight side message (fewer member) elo hello
  · intro message member elo hello
    simp only [Connection.take, Function.update_of_ne side.other_ne]
      at member
    exact agrees.flight side.other message member elo hello

theorem newConnection_agrees (caller : Side) (callerNonce calledNonce : Bytes) :
    (newConnection caller callerNonce calledNonce).Agrees pairing
      direction := by
  have fresh : ∀ side,
      ((newConnection caller callerNonce calledNonce).ends side).keyRole =
        none := by
    intro side
    unfold newConnection
    dsimp only
    split
    · rfl
    · rfl
  constructor
  · rw [Side.forall_iff caller]
    have different : caller ≠ caller.other :=
      fun same => caller.other_ne same.symm
    simp [newConnection, Peer.start, PeerRole.flip]
  · intro side message member
    exact absurd member List.not_mem_nil
  · intro side _
    exact fresh side
  · intro side role greeted
    rw [fresh side] at greeted
    exact absurd greeted (by simp)
  · intro side role used _ _ greeted
    rw [fresh side.other] at greeted
    exact absurd greeted (by simp)
  · intro side role used greeted
    rw [fresh side] at greeted
    exact absurd greeted (by simp)

theorem Net.handle_eq_some {handler : Handler Unit}
    {result : PeerAuth × Connection}
    (handled : net.handle side connection handler = some result) :
    ∃ session, handler (net.session side connection) = .ok () session ∧
      result = (session.peerAuth, connection.after side session) := by
  unfold Net.handle at handled
  cases outcome : handler (net.session side connection) with
  | ok value session =>
      rw [outcome] at handled
      exact ⟨session, rfl, (Option.some.inj handled).symm⟩
  | error reason session =>
      rw [outcome] at handled
      exact absurd handled (by simp)

/-- A quiet handler of an end keeps the agreement of the nodes. -/
theorem Net.Agrees.onConnection {handler : Handler Unit} {after : Net}
    {index : Nat} (agrees : net.Agrees pairing) (quietly : Quietly handler)
    (stepped : net.onConnection side index handler = some after) :
    after.Agrees pairing := by
  unfold Net.onConnection at stepped
  cases found : net.connections[index]? with
  | none =>
      rw [found] at stepped
      rwa [← Option.some.inj stepped]
  | some connection =>
      rw [found] at stepped
      obtain ⟨result, handled, rfl⟩ := Option.map_eq_some_iff.mp stepped
      obtain ⟨session, outcome, rfl⟩ := Net.handle_eq_some handled
      have onIt := agrees.connected connection
        (List.mem_of_getElem? found)
      exact agrees.quiet onIt ((quietly _).of_ok outcome)
        (fun each member => List.mem_or_eq_of_mem_set member)

theorem Net.Agrees.deliver {after : Net} {index : Nat}
    {around : Surroundings} (agrees : net.Agrees pairing)
    (keeps : net.KeepsCaller pairing (.deliver side index around))
    (stepped : net.step pairing.crypto pairing.config
      (.deliver side index around) = some after) :
    after.Agrees pairing := by
  unfold Net.step at stepped
  cases found : net.connections[index]? with
  | none =>
      simp only [found] at stepped
      rwa [← Option.some.inj stepped]
  | some connection =>
      simp only [found] at stepped
      cases waiting : connection.inFlight side with
      | nil =>
          simp only [waiting] at stepped
          rwa [← Option.some.inj stepped]
      | cons message rest =>
          simp only [waiting] at stepped
          obtain ⟨result, handled, rfl⟩ := Option.map_eq_some_iff.mp stepped
          obtain ⟨session, outcome, rfl⟩ := Net.handle_eq_some handled
          have onIt := agrees.connected connection
            (List.mem_of_getElem? found)
          have onRest : (connection.take side rest).Agrees pairing
              (net.direction pairing) := by
            apply onIt.take
            rw [waiting]
            exact List.subset_cons_self message rest
          have members : ∀ each ∈ net.connections.set index
              ((connection.take side rest).after side session),
              each ∈ net.connections ∨
                each = (connection.take side rest).after side session :=
            fun each member => List.mem_or_eq_of_mem_set member
          cases (recvMessage_receives (agrees.sound side)).of_ok outcome with
          | quiet same => exact agrees.quiet onRest same members
          | @greets elo hello accepted greeted =>
              have sender := onIt.flight side message
                (by rw [waiting]; exact List.mem_cons_self) elo hello
              refine agrees.greets onRest greeted sender ?_ members
              intro keyRole now
              have kept := keeps connection found message
                (by rw [waiting]; rfl)
              rw [hello] at kept
              have uses := agrees.otherUses greeted sender.1 now
                (kept accepted)
              refine ⟨uses, ?_⟩
              have early : (connection.ends side).mState.rank <
                  PeerState.gotHello.rank := by
                simp only [acceptsHello, Bool.and_eq_true,
                  decide_eq_true_eq] at accepted
                exact accepted.1.1
              exact uses.2 connection (List.mem_of_getElem? found)
                (onIt.ungreeted side early)
                (PeerState.ne_closing_of_rank early)

/-- Asking for another key can only make the direction of a key
forgotten. -/
theorem PeerAuth.direction_of_getSharedKey {crypto : Crypto}
    {auth after : PeerAuth} {remotePublic asked : Curve25519Public}
    {key : HmacSha256Key} {role used : PeerRole}
    (sound : auth.Sound crypto)
    (result : auth.getSharedKey crypto remotePublic role =
      some (key, after))
    (different : asked ≠ remotePublic)
    (derived : after.direction asked = some used) :
    auth.direction asked = some used := by
  unfold PeerAuth.direction LruCache.contains at *
  split at derived
  · rename_i contains
    obtain ⟨cached, known⟩ := Option.isSome_iff_exists.mp contains
    cases PeerAuth.getSharedKey_shares sound result with
    | cached _ same history =>
        rw [same] at known
        rw [known, ← derived, history]
        rfl
    | derived _ _ _ kept history =>
        rw [kept _ _ different known, ← derived, history,
          Function.update_of_ne different]
        rfl
  · exact absurd derived (by simp)

theorem Net.Agrees.otherHello {after : Net}
    {remotePublic : Curve25519Public} {role : PeerRole}
    (agrees : net.Agrees pairing)
    (stepped : net.step pairing.crypto pairing.config
      (.otherHello side remotePublic role) = some after) :
    after.Agrees pairing := by
  unfold Net.step at stepped
  dsimp only at stepped
  split at stepped
  · rwa [← Option.some.inj stepped]
  · rename_i third
    rw [agrees.pub side.other] at third
    obtain ⟨⟨key, auth⟩, result, rfl⟩ := Option.map_eq_some_iff.mp stepped
    have sound := (agrees.sound side).getSharedKey result
    obtain ⟨secret, pub, -, -⟩ := PeerAuth.getSharedKey_keeps result
    have self : Function.update net.auth side auth side = auth :=
      Function.update_self ..
    have other : Function.update net.auth side auth side.other =
        net.auth side.other :=
      Function.update_of_ne side.other_ne ..
    have fewer : ∀ each used,
        (Function.update net.auth side auth each).direction
          (pairing.pub each.other) = some used →
            net.direction pairing each = some used := by
      rw [Side.forall_iff side, self, other]
      constructor
      · intro used derived
        exact PeerAuth.direction_of_getSharedKey (agrees.sound side) result
          (fun same => third same.symm) derived
      · exact fun used derived => derived
    constructor
    · rw [Side.forall_iff side]
      dsimp only
      rw [self, other]
      exact ⟨secret.trans (agrees.secret side), agrees.secret side.other⟩
    · rw [Side.forall_iff side]
      dsimp only
      rw [self, other]
      exact ⟨pub.trans (agrees.pub side), agrees.pub side.other⟩
    · rw [Side.forall_iff side]
      dsimp only
      rw [self, other]
      exact ⟨sound, agrees.sound side.other⟩
    · intro each first second derived another
      exact agrees.caches each first second (fewer each first derived)
        (fewer each.other second another)
    · intro connection member
      exact (agrees.connected connection member).forget fewer

theorem Net.Agrees.step {after : Net} {event : NetEvent}
    (agrees : net.Agrees pairing) (keeps : net.KeepsCaller pairing event)
    (stepped : net.step pairing.crypto pairing.config event = some after) :
    after.Agrees pairing := by
  cases event with
  | connect caller around callerNonce calledNonce =>
      unfold Net.step at stepped
      obtain ⟨result, handled, rfl⟩ := Option.map_eq_some_iff.mp stepped
      obtain ⟨session, outcome, rfl⟩ := Net.handle_eq_some handled
      have connecting : (net.session caller
          (newConnection caller callerNonce calledNonce)).peer.mState =
            .connecting := by
        simp [Net.session, newConnection, Peer.start]
      refine agrees.quiet
        (newConnection_agrees caller callerNonce calledNonce)
        ((connectHandler_quiet connecting).of_ok outcome) ?_
      intro each member
      rcases List.mem_append.mp member with old | new
      · exact .inl old
      · exact .inr (List.mem_singleton.mp new)
  | deliver side index around => exact agrees.deliver keeps stepped
  | close side index => exact agrees.onConnection drop_quiet stepped
  | send side index payload =>
      exact agrees.onConnection (sendMessage_quiet (by simp)) stepped
  | otherHello side remotePublic role => exact agrees.otherHello stepped

theorem Pairing.start_agrees (pairing : Pairing) :
    pairing.start.Agrees pairing := by
  have undirected : ∀ side, pairing.start.direction pairing side = none :=
    fun _ => rfl
  constructor
  · exact fun _ => rfl
  · exact fun _ => rfl
  · intro side
    refine ⟨rfl, Nat.zero_lt_succ 65534, ?_⟩
    intro remotePublic key known
    exact absurd known (by simp [Pairing.start, PeerAuth.start,
      LruCache.empty, LruCache.find?])
  · intro side role used derived
    rw [undirected side] at derived
    exact absurd derived (by simp)
  · intro connection member
    exact absurd member List.not_mem_nil

theorem Pairing.run_agrees {events : List NetEvent} {after : Net}
    (agrees : net.Agrees pairing)
    (keeps : pairing.RunKeepsCaller net events)
    (ran : pairing.run net events = some after) : after.Agrees pairing := by
  induction events generalizing net with
  | nil => rwa [← Option.some.inj ran]
  | cons event events ih =>
      obtain ⟨middle, stepped, rest⟩ := Option.bind_eq_some_iff.mp ran
      exact ih (agrees.step keeps.1 stepped) (keeps.2 middle stepped) rest

theorem PeerAuth.receivingBuffer_flip (localNonce remoteNonce : Bytes)
    (role : PeerRole) :
    receivingBuffer remoteNonce localNonce role.flip =
      sendingBuffer localNonce remoteNonce role := by
  cases role with
  | remoteCalledUs => rfl
  | weCalledRemote => rfl

/-- What one end sends with, the other end receives with. -/
theorem Connection.Agrees.sendKey {role used : PeerRole}
    (agrees : connection.Agrees pairing direction)
    (greeted : (connection.ends side).keyRole = some role)
    (otherGreeted : (connection.ends side.other).keyRole = some used) :
    (connection.ends side).mSendMacKey =
      (connection.ends side.other).mRecvMacKey := by
  obtain ⟨key, shared, sendKey, -⟩ := agrees.keyed side role greeted
  obtain ⟨otherKey, otherShared, -, recvKey⟩ :=
    agrees.keyed side.other used otherGreeted
  have sameKey : otherKey = key := by
    rw [agrees.both side role used greeted otherGreeted,
      pairing.sharedKey_other, shared] at otherShared
    exact (Option.some.inj otherShared).symm
  rw [sendKey, recvKey, sameKey, agrees.roles side, Side.other_other,
    PeerAuth.receivingBuffer_flip]

/-- The ends of a connection have the same MAC keys. -/
def Connection.SameKeys (crypto : Crypto) (connection : Connection) : Prop :=
  ∀ side : Side,
    (connection.ends side).mSendMacKey =
        (connection.ends side.other).mRecvMacKey ∧
      ∀ bin, crypto.hmacSha256Verify
        (crypto.hmacSha256 (connection.ends side).mSendMacKey bin)
        (connection.ends side.other).mRecvMacKey bin = true

/-- Both ends of a connection have processed the HELLO of the other one. -/
def Connection.Greeted (connection : Connection) : Prop :=
  ∀ side, (connection.ends side).keyRole ≠ none

theorem Pairing.run_sameKeys {pairing : Pairing} {events : List NetEvent}
    {net : Net} {connection : Connection}
    (keeps : pairing.RunKeepsCaller pairing.start events)
    (ran : pairing.run pairing.start events = some net)
    (member : connection ∈ net.connections)
    (greeted : connection.Greeted) :
    connection.SameKeys pairing.crypto := by
  have agrees := (Pairing.run_agrees pairing.start_agrees keeps
    ran).connected connection member
  intro side
  obtain ⟨role, here⟩ := Option.ne_none_iff_exists'.mp (greeted side)
  obtain ⟨used, there⟩ :=
    Option.ne_none_iff_exists'.mp (greeted side.other)
  have same := agrees.sendKey here there
  refine ⟨same, ?_⟩
  intro bin
  unfold Crypto.hmacSha256Verify
  rw [same]
  exact decide_eq_true rfl

end Agreement

/-- Two nodes over a toy curve, whose points add up, and a hash that keeps
its input. -/
def smallPairing : Pairing :=
  { crypto :=
      { scalarmult := fun secret pub =>
          some [secret.sum + pub.sum]
        hmacSha256 := fun key bin => key ++ bin
        sha256 := id
        sign := fun nodeID hash => nodeID ++ hash
        verifySig := fun nodeID sig hash => sig = nodeID ++ hash }
    config := fun side =>
      { identity :=
          { nodeID := if side = .nodeA then [1] else [2]
            networkID := [7]
            certOpaque := fun networkID _ pub => networkID ++ pub }
        ledgerProtocolVersion := 9
        overlayProtocolMinVersion := 5
        overlayProtocolVersion := 5
        versionStr := "v9"
        peerPort := 11625
        messageOpaque := fun _ _ => [] }
    secret := fun side => if side = .nodeA then [10] else [20]
    pub := fun side => if side = .nodeA then [10] else [20]
    startTime := fun _ => 0
    samePoint := by decide }

def quietSurroundings : Surroundings :=
  { now := 0
    shuttingDown := false
    isBanned := fun _ => false
    otherPeers := []
    isPeerAccepted := true
    ipEmpty := false
    sendPeers := []
    sendScpState := [] }

def smallHandshake (caller : Side) (index : Nat) : List NetEvent :=
  [.connect caller quietSurroundings [3] [4],
    .deliver caller.other index quietSurroundings,
    .deliver caller index quietSurroundings]

/-- The first connection is called by `nodeA` and breaks after `nodeB` has
answered its HELLO; the second one is called by `nodeB`. -/
def brokenHandshake : List NetEvent :=
  [.connect .nodeA quietSurroundings [3] [4],
    .deliver .nodeB 0 quietSurroundings,
    .close .nodeB 0,
    .close .nodeA 0] ++ smallHandshake .nodeB 1

def finalConnection (events : List NetEvent) (index : Nat) :
    Option Connection :=
  (smallPairing.run smallPairing.start events).bind
    (fun net => net.connections[index]?)

theorem finalConnection_eq_some {events : List NetEvent} {index : Nat}
    {connection : Connection}
    (found : finalConnection events index = some connection) :
    ∃ net, smallPairing.run smallPairing.start events = some net ∧
      connection ∈ net.connections := by
  obtain ⟨net, ran, at_⟩ := Option.bind_eq_some_iff.mp found
  exact ⟨net, ran, List.mem_of_getElem? at_⟩

theorem smallHandshake_sameKeys :
    ∃ connection,
      finalConnection (smallHandshake .nodeA 0) 0 = some connection ∧
        connection.Greeted ∧ connection.SameKeys smallPairing.crypto := by
  obtain ⟨connection, found⟩ : ∃ connection,
      finalConnection (smallHandshake .nodeA 0) 0 = some connection :=
    Option.isSome_iff_exists.mp (by decide +kernel)
  have greeted : ∀ reached ∈ finalConnection (smallHandshake .nodeA 0) 0,
      ∀ side ∈ [Side.nodeA, Side.nodeB],
        (reached.ends side).keyRole ≠ none := by
    decide +kernel
  have both : connection.Greeted := by
    rw [Connection.Greeted, Side.forall_iff .nodeA]
    exact ⟨greeted connection found .nodeA (by decide),
      greeted connection found .nodeB (by decide)⟩
  obtain ⟨net, ran, member⟩ := finalConnection_eq_some found
  exact ⟨connection, found, both,
    Pairing.run_sameKeys (by decide +kernel) ran member both⟩

theorem brokenHandshake_differentKeys :
    ¬ ∀ (pairing : Pairing) (events : List NetEvent) (net : Net),
      pairing.run pairing.start events = some net →
        ∀ connection ∈ net.connections, connection.Greeted →
          connection.SameKeys pairing.crypto := by
  intro agreement
  obtain ⟨connection, found⟩ : ∃ connection,
      finalConnection brokenHandshake 1 = some connection :=
    Option.isSome_iff_exists.mp (by decide +kernel)
  have reached : ∀ reached ∈ finalConnection brokenHandshake 1,
      (reached.ends .nodeA).keyRole ≠ none ∧
        (reached.ends .nodeB).keyRole ≠ none ∧
        (reached.ends .nodeA).mSendMacKey ≠
          (reached.ends .nodeB).mRecvMacKey := by
    decide +kernel
  obtain ⟨greetedA, greetedB, different⟩ := reached connection found
  obtain ⟨net, ran, member⟩ := finalConnection_eq_some found
  have both : connection.Greeted := by
    rw [Connection.Greeted, Side.forall_iff .nodeA]
    exact ⟨greetedA, greetedB⟩
  exact different
    (agreement smallPairing brokenHandshake net ran connection member both
      .nodeA).1

end StellarCore.Overlay
