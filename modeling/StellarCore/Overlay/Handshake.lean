import StellarCore.Overlay.Peer

/-!
# What the handshake does to the keys

Most handlers are quiet: they leave the keys alone and send no HELLO but the
own one.  Only processing a HELLO sets the MAC keys of a peer, both of them
from one shared key.
-/

namespace StellarCore.Overlay

open StellarCore.Lib

def PeerRole.flip : PeerRole → PeerRole
  | remoteCalledUs => weCalledRemote
  | weCalledRemote => remoteCalledUs

@[simp] theorem PeerRole.flip_flip (role : PeerRole) :
    role.flip.flip = role := by
  cases role with
  | remoteCalledUs => rfl
  | weCalledRemote => rfl

variable {crypto : Crypto} {config : Config} {around : Surroundings}

/-- The shared key of a node with a remote one, derived in a role. -/
def PeerAuth.sharedKey (crypto : Crypto) (auth : PeerAuth)
    (remotePublic : Curve25519Public) (role : PeerRole) :
    Option HmacSha256Key :=
  crypto.ecdhDeriveSharedKey auth.mECDHSecretKey auth.mECDHPublicKey
    remotePublic (role = .weCalledRemote)

/-- Every cached key was derived in the role the history names. -/
structure PeerAuth.Sound (crypto : Crypto) (auth : PeerAuth) : Prop where
  certOwn : auth.mCert.pubkey = auth.mECDHPublicKey
  roomy : 0 < auth.mSharedKeyCache.maxSize
  cached : ∀ remotePublic key,
    auth.mSharedKeyCache.find? remotePublic = some key →
      ∃ role, auth.derivedAs remotePublic = some role ∧
        auth.sharedKey crypto remotePublic role = some key

namespace PeerAuth

variable {auth after : PeerAuth} {remotePublic : Curve25519Public}
  {role : PeerRole} {key : HmacSha256Key}

/-- What asking for a shared key does: it is found in the cache, or derived
in the present role and put there. -/
inductive Shares (crypto : Crypto) (auth : PeerAuth)
    (remotePublic : Curve25519Public) (role : PeerRole)
    (key : HmacSha256Key) (after : PeerAuth) : Prop where
  | cached
      (found : auth.mSharedKeyCache.find? remotePublic = some key)
      (same : ∀ asked, after.mSharedKeyCache.find? asked =
        auth.mSharedKeyCache.find? asked)
      (history : after.derivedAs = auth.derivedAs)
  | derived
      (unknown : auth.mSharedKeyCache.find? remotePublic = none)
      (fresh : auth.sharedKey crypto remotePublic role = some key)
      (known : after.mSharedKeyCache.find? remotePublic = some key)
      (fewer : ∀ asked found, asked ≠ remotePublic →
        after.mSharedKeyCache.find? asked = some found →
          auth.mSharedKeyCache.find? asked = some found)
      (history : after.derivedAs =
        Function.update auth.derivedAs remotePublic (some role))

theorem getSharedKey_keeps
    (result : auth.getSharedKey crypto remotePublic role =
      some (key, after)) :
    after.mECDHSecretKey = auth.mECDHSecretKey ∧
      after.mECDHPublicKey = auth.mECDHPublicKey ∧
      after.mCert = auth.mCert ∧
      after.mSharedKeyCache.maxSize = auth.mSharedKeyCache.maxSize := by
  unfold getSharedKey LruCache.get? at result
  cases found : auth.mSharedKeyCache.find? remotePublic with
  | some cachedKey =>
      rw [found] at result
      obtain ⟨-, rfl⟩ := Prod.mk.inj (Option.some.inj result)
      exact ⟨rfl, rfl, rfl, rfl⟩
  | none =>
      rw [found] at result
      obtain ⟨fresh, -, pair⟩ := Option.map_eq_some_iff.mp result
      obtain ⟨-, rfl⟩ := Prod.mk.inj pair
      exact ⟨rfl, rfl, rfl, by simp⟩

theorem getSharedKey_shares (sound : auth.Sound crypto)
    (result : auth.getSharedKey crypto remotePublic role =
      some (key, after)) :
    auth.Shares crypto remotePublic role key after := by
  unfold getSharedKey LruCache.get? at result
  cases found : auth.mSharedKeyCache.find? remotePublic with
  | some cachedKey =>
      rw [found] at result
      obtain ⟨rfl, rfl⟩ := Prod.mk.inj (Option.some.inj result)
      exact .cached found (LruCache.find?_front _ found) rfl
  | none =>
      rw [found] at result
      obtain ⟨fresh, derivation, pair⟩ := Option.map_eq_some_iff.mp result
      obtain ⟨rfl, rfl⟩ := Prod.mk.inj pair
      refine .derived found derivation
        (LruCache.find?_put_self _ _ _ sound.roomy) ?_ rfl
      intro asked value different known
      exact LruCache.find?_put_of_ne _ different known

theorem sharedKey_congr (secret : after.mECDHSecretKey =
      auth.mECDHSecretKey)
    (pub : after.mECDHPublicKey = auth.mECDHPublicKey) :
    after.sharedKey crypto remotePublic role =
      auth.sharedKey crypto remotePublic role := by
  unfold sharedKey
  rw [secret, pub]

theorem Sound.getSharedKey (sound : auth.Sound crypto)
    (result : auth.getSharedKey crypto remotePublic role =
      some (key, after)) : after.Sound crypto := by
  obtain ⟨secret, pub, cert, room⟩ := getSharedKey_keeps result
  refine ⟨by rw [cert, pub, sound.certOwn], by rw [room]; exact sound.roomy,
    ?_⟩
  intro asked found known
  cases getSharedKey_shares sound result with
  | cached _ same history =>
      rw [same asked] at known
      obtain ⟨askedRole, derived, shared⟩ := sound.cached asked found known
      refine ⟨askedRole, by rw [history, derived], ?_⟩
      rw [sharedKey_congr secret pub, shared]
  | derived _ fresh here fewer history =>
      rw [history]
      by_cases same : asked = remotePublic
      · subst same
        rw [here] at known
        rw [Option.some.inj known] at fresh
        refine ⟨role, Function.update_self .., ?_⟩
        rw [sharedKey_congr secret pub, fresh]
      · obtain ⟨askedRole, derived, shared⟩ :=
          sound.cached asked found (fewer asked found same known)
        refine ⟨askedRole, ?_, ?_⟩
        · rw [Function.update_of_ne same, derived]
        · rw [sharedKey_congr secret pub, shared]

/-- The key asked for is cached afterwards. -/
theorem getSharedKey_known (sound : auth.Sound crypto)
    (result : auth.getSharedKey crypto remotePublic role =
      some (key, after)) :
    after.mSharedKeyCache.find? remotePublic = some key := by
  cases getSharedKey_shares sound result with
  | cached found same _ => rw [same, found]
  | derived _ _ known _ _ => exact known

/-- Asking a second time changes no key. -/
theorem getSharedKey_again {again : PeerAuth} {second : HmacSha256Key}
    (sound : auth.Sound crypto)
    (known : auth.mSharedKeyCache.find? remotePublic = some key)
    (result : auth.getSharedKey crypto remotePublic role =
      some (second, again)) :
    second = key ∧ again.derivedAs = auth.derivedAs ∧
      ∀ asked, again.mSharedKeyCache.find? asked =
        auth.mSharedKeyCache.find? asked := by
  cases getSharedKey_shares sound result with
  | cached found same history =>
      rw [known] at found
      exact ⟨(Option.some.inj found).symm, history, same⟩
  | derived unknown _ _ _ _ =>
      rw [known] at unknown
      exact absurd unknown (by simp)

end PeerAuth

/-- A HELLO is the own one of the session. -/
def AuthenticatedMessage.Own (session : Session)
    (message : AuthenticatedMessage) : Prop :=
  ∀ elo, message.message = .hello elo →
    elo.cert.pubkey = session.peerAuth.mECDHPublicKey ∧
      elo.nonce = session.peer.mSendNonce

/-- The peers' and the node's keys have not changed. -/
structure Session.Quiet (before after : Session) : Prop where
  secret : after.peerAuth.mECDHSecretKey = before.peerAuth.mECDHSecretKey
  pub : after.peerAuth.mECDHPublicKey = before.peerAuth.mECDHPublicKey
  cache : after.peerAuth.mSharedKeyCache = before.peerAuth.mSharedKeyCache
  history : after.peerAuth.derivedAs = before.peerAuth.derivedAs
  cert : before.peerAuth.mCert.pubkey = before.peerAuth.mECDHPublicKey →
    after.peerAuth.mCert.pubkey = before.peerAuth.mECDHPublicKey
  role : after.peer.mRole = before.peer.mRole
  sendNonce : after.peer.mSendNonce = before.peer.mSendNonce
  keyRole : after.peer.keyRole = before.peer.keyRole
  sendMacKey : after.peer.mSendMacKey = before.peer.mSendMacKey
  recvMacKey : after.peer.mRecvMacKey = before.peer.mRecvMacKey
  state : before.peer.mState.rank ≤ after.peer.mState.rank
  sent : before.peerAuth.mCert.pubkey = before.peerAuth.mECDHPublicKey →
    ∀ message ∈ after.sent, message ∈ before.sent ∨ message.Own before

namespace Session.Quiet

variable {before middle after : Session}

theorem refl (session : Session) : session.Quiet session := by
  refine ⟨rfl, rfl, rfl, rfl, id, rfl, rfl, rfl, rfl, rfl, le_rfl, ?_⟩
  intro _ message member
  exact .inl member

theorem own_iff (quiet : before.Quiet after)
    (message : AuthenticatedMessage) :
    message.Own after ↔ message.Own before := by
  unfold AuthenticatedMessage.Own
  rw [quiet.pub, quiet.sendNonce]

theorem trans (first : before.Quiet middle) (second : middle.Quiet after) :
    before.Quiet after := by
  constructor
  · rw [second.secret, first.secret]
  · rw [second.pub, first.pub]
  · rw [second.cache, first.cache]
  · rw [second.history, first.history]
  · intro own
    rw [second.cert (by rw [first.cert own, first.pub]), first.pub]
  · rw [second.role, first.role]
  · rw [second.sendNonce, first.sendNonce]
  · rw [second.keyRole, first.keyRole]
  · rw [second.sendMacKey, first.sendMacKey]
  · rw [second.recvMacKey, first.recvMacKey]
  · exact first.state.trans second.state
  · intro own message member
    have kept : middle.peerAuth.mCert.pubkey =
        middle.peerAuth.mECDHPublicKey := by
      rw [first.cert own, first.pub]
    rcases second.sent kept message member with old | hello
    · exact first.sent own message old
    · exact .inr ((first.own_iff message).mp hello)

theorem sound (quiet : before.Quiet after)
    (valid : before.peerAuth.Sound crypto) : after.peerAuth.Sound crypto := by
  constructor
  · rw [quiet.cert valid.certOwn, quiet.pub]
  · rw [quiet.cache]
    exact valid.roomy
  · intro remotePublic key known
    rw [quiet.cache] at known
    obtain ⟨role, derived, shared⟩ := valid.cached remotePublic key known
    refine ⟨role, by rw [quiet.history, derived], ?_⟩
    rw [PeerAuth.sharedKey_congr quiet.secret quiet.pub, shared]

end Session.Quiet

/-- The handler never fails and is quiet. -/
def Quietly (handler : Handler Unit) : Prop :=
  ∀ start, Ends handler start (fun _ finish => start.Quiet finish)
    (fun _ _ => False)

namespace Quietly

variable {first second : Handler Unit}

theorem skip : Quietly (pure ()) :=
  fun start => Session.Quiet.refl start

theorem andThen (one : Quietly first) (two : Quietly second) :
    Quietly (do first; second) := by
  intro start
  apply Ends.bind_iff.mpr
  refine (one start).mono ?_ (fun _ _ never => never)
  intro _ middle quiet
  refine (two middle).mono ?_ (fun _ _ never => never)
  intro _ finish after
  exact quiet.trans after

theorem read {next : Session → Handler Unit}
    (each : ∀ session, Quietly (next session)) :
    Quietly (do let session ← get; next session) := by
  intro start
  exact each start start

theorem choose {condition : Prop} [Decidable condition]
    (one : Quietly first) (two : Quietly second) :
    Quietly (if condition then first else second) := by
  intro start
  exact Ends.ite_iff.mpr ⟨fun _ => one start, fun _ => two start⟩

end Quietly

theorem queueMessage_quiet {message : AuthenticatedMessage}
    (noHello : ∀ elo, message.message ≠ .hello elo) :
    Quietly (queueMessage message) := by
  intro start
  refine ⟨rfl, rfl, rfl, rfl, id, rfl, rfl, rfl, rfl, rfl, le_rfl, ?_⟩
  intro _ sent member
  rcases List.mem_append.mp member with old | new
  · exact .inl old
  · rw [List.mem_singleton.mp new]
    exact .inr (fun elo hello => absurd hello (noHello elo))

/-- A change of the peer that keeps its keys. -/
theorem modifyPeer_quiet {change : Peer → Peer}
    (role : ∀ peer, (change peer).mRole = peer.mRole)
    (nonce : ∀ peer, (change peer).mSendNonce = peer.mSendNonce)
    (keyRole : ∀ peer, (change peer).keyRole = peer.keyRole)
    (sendKey : ∀ peer, (change peer).mSendMacKey = peer.mSendMacKey)
    (recvKey : ∀ peer, (change peer).mRecvMacKey = peer.mRecvMacKey)
    (state : ∀ peer, peer.mState.rank ≤ (change peer).mState.rank) :
    Quietly (modifyPeer change) := by
  intro start
  refine ⟨rfl, rfl, rfl, rfl, id, role _, nonce _, keyRole _, sendKey _,
    recvKey _, state _, ?_⟩
  intro _ message member
  exact .inl member

theorem rank_le_closing (state : PeerState) :
    state.rank ≤ PeerState.closing.rank := by
  cases state with
  | connecting => decide
  | connected => decide
  | gotHello => decide
  | gotAuth => decide
  | closing => decide

theorem drop_quiet : Quietly drop := by
  apply modifyPeer_quiet
  · exact fun _ => rfl
  · exact fun _ => rfl
  · exact fun _ => rfl
  · exact fun _ => rfl
  · exact fun _ => rfl
  · exact fun peer => rank_le_closing peer.mState

theorem countReceived_quiet : Quietly countReceived := by
  apply modifyPeer_quiet
  · exact fun _ => rfl
  · exact fun _ => rfl
  · exact fun _ => rfl
  · exact fun _ => rfl
  · exact fun _ => rfl
  · exact fun _ => le_rfl

theorem countSent_quiet :
    Quietly (modifyPeer (fun peer =>
      { peer with mSendMacSeq := (peer.mSendMacSeq + 1) % 2 ^ 64 })) := by
  apply modifyPeer_quiet
  · exact fun _ => rfl
  · exact fun _ => rfl
  · exact fun _ => rfl
  · exact fun _ => rfl
  · exact fun _ => rfl
  · exact fun _ => le_rfl

theorem sendMessage_quiet {message : StellarMessage}
    (noHello : ∀ elo, message ≠ .hello elo) :
    Quietly (sendMessage crypto config message) := by
  apply Quietly.read
  intro session
  cases message with
  | hello elo => exact absurd rfl (noHello elo)
  | errorMsg code msg => exact queueMessage_quiet noHello
  | auth =>
      exact (queueMessage_quiet (by simp)).andThen countSent_quiet
  | other payload =>
      exact (queueMessage_quiet (by simp)).andThen countSent_quiet

theorem dropWith_quiet {code : ErrorCode} {msg : String} :
    Quietly (dropWith crypto config code msg) :=
  (sendMessage_quiet (by simp)).andThen drop_quiet

theorem sendAuth_quiet : Quietly (sendAuth crypto config) :=
  sendMessage_quiet (by simp)

theorem sendAll_quiet (payloads : List Bytes) :
    Quietly (sendAll crypto config payloads) := by
  induction payloads with
  | nil => exact Quietly.skip
  | cons payload rest ih =>
      exact (sendMessage_quiet (by simp)).andThen ih

theorem getAuthCert_pubkey {auth : PeerAuth} {identity : Identity}
    {now : Nat} (own : auth.mCert.pubkey = auth.mECDHPublicKey) :
    (auth.getAuthCert crypto identity now).1.pubkey =
        auth.mECDHPublicKey ∧
      (auth.getAuthCert crypto identity now).2.mCert.pubkey =
        auth.mECDHPublicKey := by
  unfold PeerAuth.getAuthCert
  split
  · exact ⟨rfl, rfl⟩
  · exact ⟨own, own⟩

theorem getAuthCert_keeps (crypto : Crypto) (identity : Identity)
    (now : Nat) (auth : PeerAuth) :
    let after := (auth.getAuthCert crypto identity now).2
    after.mECDHSecretKey = auth.mECDHSecretKey ∧
      after.mECDHPublicKey = auth.mECDHPublicKey ∧
      after.mSharedKeyCache = auth.mSharedKeyCache ∧
      after.derivedAs = auth.derivedAs := by
  unfold PeerAuth.getAuthCert
  split
  · exact ⟨rfl, rfl, rfl, rfl⟩
  · exact ⟨rfl, rfl, rfl, rfl⟩

theorem sendHello_quiet : Quietly (sendHello crypto config around) := by
  intro start
  obtain ⟨secret, pub, cache, history⟩ := getAuthCert_keeps crypto
    config.identity around.now start.peerAuth
  refine ⟨secret, pub, cache, history, ?_, rfl, rfl, rfl, rfl, rfl, le_rfl,
    ?_⟩
  · exact fun own => (getAuthCert_pubkey own).2
  · intro own message member
    rcases List.mem_append.mp member with old | new
    · exact .inl old
    · right
      intro elo hello
      rw [List.mem_singleton.mp new] at hello
      cases hello
      exact ⟨(getAuthCert_pubkey own).1, rfl⟩

theorem connectHandler_quiet {start : Session}
    (connecting : start.peer.mState = .connecting) :
    Ends (connectHandler crypto config around) start
      (fun _ finish => start.Quiet finish) (fun _ _ => False) := by
  let connected : Session :=
    { start with peer := { start.peer with mState := .connected } }
  have first : start.Quiet connected := by
    refine ⟨rfl, rfl, rfl, rfl, id, rfl, rfl, rfl, rfl, rfl, ?_, ?_⟩
    · rw [connecting]
      exact Nat.zero_le _
    · intro _ message member
      exact .inl member
  have second : Ends (sendHello crypto config around) connected
      (fun _ finish => connected.Quiet finish) (fun _ _ => False) :=
    sendHello_quiet connected
  exact second.mono (fun _ _ quiet => first.trans quiet)
    (fun _ _ never => never)

theorem checkHello_quiet {elo : Hello} :
    Quietly (checkHello crypto config around elo) := by
  apply Quietly.read
  intro session
  apply Quietly.choose dropWith_quiet
  apply Quietly.choose dropWith_quiet
  apply Quietly.choose dropWith_quiet
  apply Quietly.choose dropWith_quiet
  apply Quietly.choose dropWith_quiet
  exact Quietly.choose sendAuth_quiet Quietly.skip

theorem greetPeer_quiet : Quietly (greetPeer crypto config around) := by
  apply Quietly.andThen
  · apply Quietly.read
    intro session
    exact Quietly.choose drop_quiet Quietly.skip
  · apply Quietly.andThen
    · apply Quietly.read
      intro session
      apply Quietly.choose
      · exact sendAuth_quiet.andThen (sendAll_quiet _)
      · exact Quietly.skip
    · exact sendAll_quiet _

theorem recvAuth_quiet : Quietly (recvAuth crypto config around) := by
  intro start
  by_cases fits : start.peer.mState = .gotHello
  · let middle : Session :=
      { start with peer := { start.peer with mState := .gotAuth } }
    have first : start.Quiet middle := by
      refine ⟨rfl, rfl, rfl, rfl, id, rfl, rfl, rfl, rfl, rfl, ?_, ?_⟩
      · rw [fits]
        show PeerState.gotHello.rank ≤ PeerState.gotAuth.rank
        decide
      · intro _ message member
        exact .inl member
    have second : Quietly (if !around.isPeerAccepted then
          dropWith crypto config .errLoad "peer rejected"
        else
          greetPeer crypto config around) :=
      Quietly.choose dropWith_quiet greetPeer_quiet
    have whole := (second middle).mono
      (fun _ _ quiet => first.trans quiet) (fun _ _ never => never)
    unfold recvAuth
    simp only [Ends.bind_iff, Ends.get_iff, fits, ne_eq, not_true_eq_false,
      if_false]
    exact whole
  · unfold recvAuth
    simp only [Ends.bind_iff, Ends.get_iff, fits, ne_eq, not_false_eq_true,
      if_true]
    exact dropWith_quiet start

/-- The MAC keys of a peer come from the shared key of a role. -/
def Peer.Keyed (crypto : Crypto) (auth : PeerAuth)
    (remotePublic : Curve25519Public) (remoteNonce : Bytes) (peer : Peer)
    (role : PeerRole) : Prop :=
  ∃ key, auth.sharedKey crypto remotePublic role = some key ∧
    peer.mSendMacKey = crypto.hkdfExpand key
      (PeerAuth.sendingBuffer peer.mSendNonce remoteNonce peer.mRole) ∧
    peer.mRecvMacKey = crypto.hkdfExpand key
      (PeerAuth.receivingBuffer peer.mSendNonce remoteNonce peer.mRole)

/-- What processing a HELLO does to a session. -/
structure Session.Greets (crypto : Crypto) (elo : Hello)
    (before after : Session) : Prop where
  secret : after.peerAuth.mECDHSecretKey = before.peerAuth.mECDHSecretKey
  pub : after.peerAuth.mECDHPublicKey = before.peerAuth.mECDHPublicKey
  sound : after.peerAuth.Sound crypto
  role : after.peer.mRole = before.peer.mRole
  sendNonce : after.peer.mSendNonce = before.peer.mSendNonce
  state : PeerState.gotHello.rank ≤ after.peer.mState.rank
  keyRole : after.peer.keyRole = after.peerAuth.derivedAs elo.cert.pubkey
  keyed : ∃ keyRole, after.peer.keyRole = some keyRole ∧
    after.peer.Keyed crypto after.peerAuth elo.cert.pubkey elo.nonce keyRole
  shares : ∃ key,
    before.peerAuth.Shares crypto elo.cert.pubkey before.peer.mRole key
      after.peerAuth
  sent : ∀ message ∈ after.sent,
    message ∈ before.sent ∨ message.Own before

theorem withPeerAuth_ends {start : Session}
    {operation : PeerAuth → Option (HmacSha256Key × PeerAuth)}
    {done : HmacSha256Key → Session → Prop}
    (each : ∀ key auth, operation start.peerAuth = some (key, auth) →
      done key { start with peerAuth := auth }) :
    Ends (withPeerAuth operation) start done (fun _ _ => True) := by
  unfold withPeerAuth
  simp only [Ends.bind_iff, Ends.get_iff]
  cases result : operation start.peerAuth with
  | none => exact Ends.throw_iff.mpr trivial
  | some pair => exact each pair.1 pair.2 result

theorem setMacKeys_greets {elo : Hello} {start : Session}
    (sound : start.peerAuth.Sound crypto) :
    Ends (setMacKeys crypto elo) start
      (fun _ finish => start.Greets crypto elo finish)
      (fun _ _ => True) := by
  unfold setMacKeys modifyPeer
  simp only [Ends.bind_iff, Ends.get_iff, Ends.modify_iff]
  apply withPeerAuth_ends
  intro sendMacKey middle sendResult
  apply withPeerAuth_ends
  intro recvMacKey finish recvResult
  obtain ⟨⟨key, _⟩, first, sendPair⟩ := Option.map_eq_some_iff.mp sendResult
  obtain ⟨⟨again, _⟩, second, recvPair⟩ :=
    Option.map_eq_some_iff.mp recvResult
  obtain ⟨rfl, rfl⟩ := Prod.mk.inj sendPair
  obtain ⟨rfl, rfl⟩ := Prod.mk.inj recvPair
  have middleSound := sound.getSharedKey first
  have known := PeerAuth.getSharedKey_known sound first
  obtain ⟨rfl, history, same⟩ :=
    PeerAuth.getSharedKey_again middleSound known second
  have keptFirst := PeerAuth.getSharedKey_keeps first
  have keptSecond := PeerAuth.getSharedKey_keeps second
  have finishSound := middleSound.getSharedKey second
  obtain ⟨keyRole, derived, shared⟩ := finishSound.cached _ _
    (PeerAuth.getSharedKey_known middleSound second)
  refine ⟨?_, ?_, finishSound, rfl, rfl, le_rfl, rfl,
    ⟨keyRole, derived, again, shared, rfl, rfl⟩, ⟨again, ?_⟩, ?_⟩
  · exact keptSecond.1.trans keptFirst.1
  · exact keptSecond.2.1.trans keptFirst.2.1
  · -- The second request finds the key of the first one.
    cases PeerAuth.getSharedKey_shares sound first with
    | cached found unchanged earlier =>
        exact .cached found (fun asked => (same asked).trans (unchanged asked))
          (history.trans earlier)
    | derived unknown fresh here fewer earlier =>
        refine .derived unknown fresh ?_ ?_ (history.trans earlier)
        · exact (same _).trans here
        · intro asked found different cached
          exact fewer asked found different ((same asked).symm.trans cached)
  · intro message member
    exact .inl member

theorem Session.Greets.quiet {elo : Hello} {before middle after : Session}
    (greets : before.Greets crypto elo middle)
    (quiet : middle.Quiet after) : before.Greets crypto elo after := by
  obtain ⟨keyRole, sameRole, key, shared, sendKey, recvKey⟩ := greets.keyed
  constructor
  · rw [quiet.secret, greets.secret]
  · rw [quiet.pub, greets.pub]
  · exact quiet.sound greets.sound
  · rw [quiet.role, greets.role]
  · rw [quiet.sendNonce, greets.sendNonce]
  · exact greets.state.trans quiet.state
  · rw [quiet.keyRole, greets.keyRole, quiet.history]
  · refine ⟨keyRole, by rw [quiet.keyRole, sameRole], key, ?_, ?_, ?_⟩
    · rw [PeerAuth.sharedKey_congr quiet.secret quiet.pub, shared]
    · rw [quiet.sendMacKey, sendKey, quiet.sendNonce, quiet.role]
    · rw [quiet.recvMacKey, recvKey, quiet.sendNonce, quiet.role]
  · obtain ⟨key, shares⟩ := greets.shares
    refine ⟨key, ?_⟩
    cases shares with
    | cached found same history =>
        refine .cached found ?_ (quiet.history.trans history)
        intro asked
        rw [quiet.cache, same]
    | derived unknown fresh known fewer history =>
        refine .derived unknown fresh ?_ ?_ (quiet.history.trans history)
        · rw [quiet.cache, known]
        · intro asked found different cached
          rw [quiet.cache] at cached
          exact fewer asked found different cached
  · intro message member
    rcases quiet.sent greets.sound.certOwn message member with old | own
    · exact greets.sent message old
    · right
      intro elo hello
      obtain ⟨pubkey, nonce⟩ := own elo hello
      exact ⟨by rw [pubkey, greets.pub], by rw [nonce, greets.sendNonce]⟩

/-- What a received message does to the keys: nothing, or it is a HELLO that
is processed. -/
inductive Session.Receives (crypto : Crypto) (config : Config)
    (around : Surroundings) (message : AuthenticatedMessage)
    (before after : Session) : Prop where
  | quiet (same : before.Quiet after)
  | greets {elo : Hello} (hello : message.message = .hello elo)
      (accepted : acceptsHello crypto config around elo before.peer = true)
      (greeted : before.Greets crypto elo after)

theorem answerHello_quiet {elo : Hello} :
    Quietly (answerHello crypto config around elo) := by
  apply Quietly.read
  intro session
  apply Quietly.choose
  · exact sendHello_quiet.andThen checkHello_quiet
  · exact checkHello_quiet

theorem recvHello_receives {elo : Hello} {start : Session}
    {message : AuthenticatedMessage} (hello : message.message = .hello elo)
    (sound : start.peerAuth.Sound crypto) :
    Ends (recvHello crypto config around elo) start
      (fun _ finish => start.Receives crypto config around message finish)
      (fun _ _ => True) := by
  unfold recvHello
  simp only [Ends.bind_iff, Ends.get_iff]
  apply Ends.ite_iff.mpr
  constructor
  · intro accepted
    apply Ends.bind_iff.mpr
    refine (setMacKeys_greets sound).mono ?_ (fun _ _ _ => trivial)
    intro _ middle greets
    refine (answerHello_quiet middle).mono ?_ (fun _ _ _ => trivial)
    intro _ finish quiet
    exact .greets hello accepted (greets.quiet quiet)
  · intro _
    exact (drop_quiet start).mono (fun _ _ quiet => .quiet quiet)
      (fun _ _ _ => trivial)

theorem Quietly.receives {handler : Handler Unit}
    {message : AuthenticatedMessage} (quietly : Quietly handler)
    (start : Session) :
    Ends handler start
      (fun _ finish => start.Receives crypto config around message finish)
      (fun _ _ => True) :=
  (quietly start).mono (fun _ _ quiet => .quiet quiet)
    (fun _ _ _ => trivial)

theorem Session.Receives.quietAfter {before middle after : Session}
    {message : AuthenticatedMessage}
    (receives : before.Receives crypto config around message middle)
    (quiet : middle.Quiet after) :
    before.Receives crypto config around message after := by
  cases receives with
  | quiet same => exact .quiet (same.trans quiet)
  | greets hello accepted greeted =>
      exact .greets hello accepted (greeted.quiet quiet)

theorem noteDispatched_quiet {message : StellarMessage} :
    Quietly (noteDispatched message) := by
  intro start
  refine ⟨rfl, rfl, rfl, rfl, id, rfl, rfl, rfl, rfl, rfl, le_rfl, ?_⟩
  intro _ sent member
  exact .inl member

theorem dispatch_receives {message : AuthenticatedMessage}
    {start : Session} (sound : start.peerAuth.Sound crypto) :
    Ends (dispatch crypto config around message.message) start
      (fun _ finish => start.Receives crypto config around message finish)
      (fun _ _ => True) := by
  unfold dispatch
  simp only [Ends.bind_iff, Ends.get_iff]
  apply Ends.ite_iff.mpr
  constructor
  · intro _
    exact drop_quiet.receives start
  · intro _
    apply Ends.bind_iff.mpr
    have handled : Ends (handle crypto config around message.message) start
        (fun _ finish => start.Receives crypto config around message finish)
        (fun _ _ => True) := by
      cases kind : message.message with
      | errorMsg code msg => exact drop_quiet.receives start
      | hello elo => exact recvHello_receives kind sound
      | auth => exact recvAuth_quiet.receives start
      | other payload => exact Quietly.skip.receives start
    refine handled.mono ?_ (fun _ _ _ => trivial)
    intro _ middle receives
    refine (noteDispatched_quiet middle).mono ?_ (fun _ _ _ => trivial)
    intro _ finish quiet
    exact receives.quietAfter quiet

/-- Counting a message changes nothing a HELLO depends on. -/
theorem Session.Receives.afterCount {before after : Session}
    {message : AuthenticatedMessage} {count : Nat}
    (greeted : PeerState.gotHello.rank ≤ before.peer.mState.rank)
    (receives : Session.Receives crypto config around message
      { before with peer := { before.peer with mRecvMacSeq := count } }
      after) :
    before.Receives crypto config around message after := by
  have quiet : before.Quiet
      { before with peer := { before.peer with mRecvMacSeq := count } } := by
    refine ⟨rfl, rfl, rfl, rfl, id, rfl, rfl, rfl, rfl, rfl, le_rfl, ?_⟩
    intro _ sent member
    exact .inl member
  cases receives with
  | quiet same => exact .quiet (quiet.trans same)
  | @greets elo hello accepted _ =>
      -- A HELLO is not accepted twice.
      simp only [acceptsHello, Bool.and_eq_true, decide_eq_true_eq]
        at accepted
      omega

theorem recvMessage_receives {message : AuthenticatedMessage}
    {start : Session} (sound : start.peerAuth.Sound crypto) :
    Ends (recvMessage crypto config around message) start
      (fun _ finish => start.Receives crypto config around message finish)
      (fun _ _ => True) := by
  unfold recvMessage
  simp only [Ends.bind_iff, Ends.get_iff]
  apply Ends.ite_iff.mpr
  constructor
  · intro _
    exact Quietly.skip.receives start
  · intro _
    apply Ends.ite_iff.mpr
    constructor
    · intro greeted
      apply Ends.ite_iff.mpr
      constructor
      · intro _
        exact (countReceived_quiet.andThen dropWith_quiet).receives start
      · intro _
        apply Ends.ite_iff.mpr
        constructor
        · intro _
          exact (countReceived_quiet.andThen dropWith_quiet).receives start
        · intro _
          let counted : Session :=
            { start with peer := { start.peer with mRecvMacSeq :=
              (start.peer.mRecvMacSeq + 1) % 2 ^ 64 } }
          have handled : Ends
              (dispatch crypto config around message.message) counted
              (fun _ finish =>
                counted.Receives crypto config around message finish)
              (fun _ _ => True) :=
            dispatch_receives sound
          refine handled.mono ?_ (fun _ _ _ => trivial)
          intro _ finish receives
          exact receives.afterCount greeted.1
    · intro _
      exact dispatch_receives sound

end StellarCore.Overlay
