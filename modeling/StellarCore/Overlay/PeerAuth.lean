import StellarCore.Lib.LruCache

/-!
# Keys of peer connections

`Ecdh` and the hash are given by libsodium and are parameters here.  The
shared key of two nodes depends on which of them called the other; `PeerAuth`
caches it under the public key of the remote node alone.
-/

namespace StellarCore.Overlay

open StellarCore.Lib

abbrev Bytes := List UInt8
abbrev NodeID := Bytes
abbrev Curve25519Secret := Bytes
abbrev Curve25519Public := Bytes
abbrev HmacSha256Key := Bytes

inductive PeerRole where
  | remoteCalledUs
  | weCalledRemote
  deriving DecidableEq, Repr

structure AuthCert where
  pubkey : Curve25519Public
  expiration : Nat
  sig : Bytes
  deriving DecidableEq, Repr

/-- The operations of libsodium.  `scalarmult` has no result when the library
reports an error. -/
structure Crypto where
  scalarmult : Curve25519Secret → Curve25519Public → Option Bytes
  hmacSha256 : HmacSha256Key → Bytes → Bytes
  sha256 : Bytes → Bytes
  sign : NodeID → Bytes → Bytes
  verifySig : NodeID → Bytes → Bytes → Bool

namespace Crypto

variable (crypto : Crypto)

def hmacSha256Verify (mac : Bytes) (key : HmacSha256Key) (bin : Bytes) :
    Bool :=
  crypto.hmacSha256 key bin = mac

def hkdfExtract (bin : Bytes) : HmacSha256Key :=
  crypto.hmacSha256 (List.replicate 32 0) bin

def hkdfExpand (key : HmacSha256Key) (bin : Bytes) : HmacSha256Key :=
  crypto.hmacSha256 key (bin ++ [1])

/-- No result stands for the exception when the multiplication fails. -/
def ecdhDeriveSharedKey (localSecret : Curve25519Secret)
    (localPublic remotePublic : Curve25519Public) (localFirst : Bool) :
    Option HmacSha256Key :=
  let publicA := if localFirst then localPublic else remotePublic
  let publicB := if localFirst then remotePublic else localPublic
  (crypto.scalarmult localSecret remotePublic).map
    (fun q => crypto.hkdfExtract (q ++ publicA ++ publicB))

end Crypto

/-- `derivedAs` is a history variable: the role in which the key of a remote
node was derived last. -/
structure PeerAuth where
  mECDHSecretKey : Curve25519Secret
  mECDHPublicKey : Curve25519Public
  mCert : AuthCert
  mSharedKeyCache : LruCache Curve25519Public HmacSha256Key
  derivedAs : Curve25519Public → Option PeerRole

def expirationLimit : Nat := 3600

/-- What a node signs with and for: its seed is known by its node ID, and
`certOpaque` is the XDR encoding of what a certificate covers. -/
structure Identity where
  nodeID : NodeID
  networkID : Bytes
  certOpaque : Bytes → Nat → Curve25519Public → Bytes

def makeAuthCert (crypto : Crypto) (identity : Identity) (now : Nat)
    (pub : Curve25519Public) : AuthCert :=
  let expiration := now + expirationLimit
  let hash := crypto.sha256
    (identity.certOpaque identity.networkID expiration pub)
  { pubkey := pub
    expiration
    sig := crypto.sign identity.nodeID hash }

namespace PeerAuth

def start (crypto : Crypto) (identity : Identity) (now : Nat)
    (secret : Curve25519Secret) (pub : Curve25519Public) : PeerAuth :=
  { mECDHSecretKey := secret
    mECDHPublicKey := pub
    mCert := makeAuthCert crypto identity now pub
    mSharedKeyCache := LruCache.empty 0xffff
    derivedAs := fun _ => none }

def getAuthCert (crypto : Crypto) (identity : Identity) (now : Nat)
    (auth : PeerAuth) : AuthCert × PeerAuth :=
  if auth.mCert.expiration < now + expirationLimit / 2 then
    let cert := makeAuthCert crypto identity now auth.mECDHPublicKey
    (cert, { auth with mCert := cert })
  else
    (auth.mCert, auth)

def verifyRemoteAuthCert (crypto : Crypto) (identity : Identity)
    (now : Nat) (remoteNode : NodeID) (cert : AuthCert) : Bool :=
  if cert.expiration < now then
    false
  else
    crypto.verifySig remoteNode cert.sig
      (crypto.sha256 (identity.certOpaque identity.networkID
        cert.expiration cert.pubkey))

/-- The key comes from the cache whatever the role is now. -/
def getSharedKey (crypto : Crypto) (auth : PeerAuth)
    (remotePublic : Curve25519Public) (role : PeerRole) :
    Option (HmacSha256Key × PeerAuth) :=
  match auth.mSharedKeyCache.get? remotePublic with
  | some (key, cache) => some (key, { auth with mSharedKeyCache := cache })
  | none =>
      (crypto.ecdhDeriveSharedKey auth.mECDHSecretKey auth.mECDHPublicKey
        remotePublic (role = .weCalledRemote)).map
        (fun key =>
          (key, { auth with
            mSharedKeyCache := auth.mSharedKeyCache.put remotePublic key
            derivedAs :=
              Function.update auth.derivedAs remotePublic (some role) }))

def sendingBuffer (localNonce remoteNonce : Bytes) (role : PeerRole) :
    Bytes :=
  match role with
  | .weCalledRemote => [0] ++ localNonce ++ remoteNonce
  | .remoteCalledUs => [1] ++ localNonce ++ remoteNonce

def receivingBuffer (localNonce remoteNonce : Bytes) (role : PeerRole) :
    Bytes :=
  match role with
  | .weCalledRemote => [1] ++ remoteNonce ++ localNonce
  | .remoteCalledUs => [0] ++ remoteNonce ++ localNonce

def getSendingMacKey (crypto : Crypto) (auth : PeerAuth)
    (remotePublic : Curve25519Public) (localNonce remoteNonce : Bytes)
    (role : PeerRole) : Option (HmacSha256Key × PeerAuth) :=
  (auth.getSharedKey crypto remotePublic role).map
    (fun (key, after) =>
      (crypto.hkdfExpand key (sendingBuffer localNonce remoteNonce role),
        after))

def getReceivingMacKey (crypto : Crypto) (auth : PeerAuth)
    (remotePublic : Curve25519Public) (localNonce remoteNonce : Bytes)
    (role : PeerRole) : Option (HmacSha256Key × PeerAuth) :=
  (auth.getSharedKey crypto remotePublic role).map
    (fun (key, after) =>
      (crypto.hkdfExpand key (receivingBuffer localNonce remoteNonce role),
        after))

end PeerAuth

end StellarCore.Overlay
