import StellarCore.Crypto.Base32
import StellarCore.Transactions.Entries

/-!
# Keys as text

`StrKey.cpp` and `KeyUtils.h`: the version of a key and its bytes, followed
by a checksum, in base 32.  A `SecretKey` has no `KeyFunctions`; its seed is
read and written apart.
-/

namespace StellarCore.Crypto

open StellarCore.Lib StellarCore.Transactions

/-! ## The checksum -/

def crc16tab : List UInt16 :=
  [
    0x0000, 0x1021, 0x2042, 0x3063, 0x4084, 0x50a5, 0x60c6, 0x70e7,
    0x8108, 0x9129, 0xa14a, 0xb16b, 0xc18c, 0xd1ad, 0xe1ce, 0xf1ef,
    0x1231, 0x0210, 0x3273, 0x2252, 0x52b5, 0x4294, 0x72f7, 0x62d6,
    0x9339, 0x8318, 0xb37b, 0xa35a, 0xd3bd, 0xc39c, 0xf3ff, 0xe3de,
    0x2462, 0x3443, 0x0420, 0x1401, 0x64e6, 0x74c7, 0x44a4, 0x5485,
    0xa56a, 0xb54b, 0x8528, 0x9509, 0xe5ee, 0xf5cf, 0xc5ac, 0xd58d,
    0x3653, 0x2672, 0x1611, 0x0630, 0x76d7, 0x66f6, 0x5695, 0x46b4,
    0xb75b, 0xa77a, 0x9719, 0x8738, 0xf7df, 0xe7fe, 0xd79d, 0xc7bc,
    0x48c4, 0x58e5, 0x6886, 0x78a7, 0x0840, 0x1861, 0x2802, 0x3823,
    0xc9cc, 0xd9ed, 0xe98e, 0xf9af, 0x8948, 0x9969, 0xa90a, 0xb92b,
    0x5af5, 0x4ad4, 0x7ab7, 0x6a96, 0x1a71, 0x0a50, 0x3a33, 0x2a12,
    0xdbfd, 0xcbdc, 0xfbbf, 0xeb9e, 0x9b79, 0x8b58, 0xbb3b, 0xab1a,
    0x6ca6, 0x7c87, 0x4ce4, 0x5cc5, 0x2c22, 0x3c03, 0x0c60, 0x1c41,
    0xedae, 0xfd8f, 0xcdec, 0xddcd, 0xad2a, 0xbd0b, 0x8d68, 0x9d49,
    0x7e97, 0x6eb6, 0x5ed5, 0x4ef4, 0x3e13, 0x2e32, 0x1e51, 0x0e70,
    0xff9f, 0xefbe, 0xdfdd, 0xcffc, 0xbf1b, 0xaf3a, 0x9f59, 0x8f78,
    0x9188, 0x81a9, 0xb1ca, 0xa1eb, 0xd10c, 0xc12d, 0xf14e, 0xe16f,
    0x1080, 0x00a1, 0x30c2, 0x20e3, 0x5004, 0x4025, 0x7046, 0x6067,
    0x83b9, 0x9398, 0xa3fb, 0xb3da, 0xc33d, 0xd31c, 0xe37f, 0xf35e,
    0x02b1, 0x1290, 0x22f3, 0x32d2, 0x4235, 0x5214, 0x6277, 0x7256,
    0xb5ea, 0xa5cb, 0x95a8, 0x8589, 0xf56e, 0xe54f, 0xd52c, 0xc50d,
    0x34e2, 0x24c3, 0x14a0, 0x0481, 0x7466, 0x6447, 0x5424, 0x4405,
    0xa7db, 0xb7fa, 0x8799, 0x97b8, 0xe75f, 0xf77e, 0xc71d, 0xd73c,
    0x26d3, 0x36f2, 0x0691, 0x16b0, 0x6657, 0x7676, 0x4615, 0x5634,
    0xd94c, 0xc96d, 0xf90e, 0xe92f, 0x99c8, 0x89e9, 0xb98a, 0xa9ab,
    0x5844, 0x4865, 0x7806, 0x6827, 0x18c0, 0x08e1, 0x3882, 0x28a3,
    0xcb7d, 0xdb5c, 0xeb3f, 0xfb1e, 0x8bf9, 0x9bd8, 0xabbb, 0xbb9a,
    0x4a75, 0x5a54, 0x6a37, 0x7a16, 0x0af1, 0x1ad0, 0x2ab3, 0x3a92,
    0xfd2e, 0xed0f, 0xdd6c, 0xcd4d, 0xbdaa, 0xad8b, 0x9de8, 0x8dc9,
    0x7c26, 0x6c07, 0x5c64, 0x4c45, 0x3ca2, 0x2c83, 0x1ce0, 0x0cc1,
    0xef1f, 0xff3e, 0xcf5d, 0xdf7c, 0xaf9b, 0xbfba, 0x8fd9, 0x9ff8,
    0x6e17, 0x7e36, 0x4e55, 0x5e74, 0x2e93, 0x3eb2, 0x0ed1, 0x1ef0]

def crc16Step (crc : UInt16) (c : UInt8) : UInt16 :=
  let index : UInt16 := ((crc >>> 8) ^^^ c.toUInt16) &&& 0x00FF
  ((crc <<< 8) &&& 0xFFFF) ^^^ crc16tab.getD index.toNat 0

def crc16 (buf : List UInt8) : UInt16 :=
  buf.foldl crc16Step 0

/-! ## Versions and bytes -/

abbrev StrKeyVersionByte := UInt8

def strKeyPubKeyEd25519 : StrKeyVersionByte := 6

def strKeySeedEd25519 : StrKeyVersionByte := 18

def strKeyPreAuthTx : StrKeyVersionByte := 19

def strKeyHashX : StrKeyVersionByte := 23

namespace StrKey

/-- The two bytes that follow the encoded ones, the lower one first. -/
def checksum (encoded : List UInt8) : List UInt8 :=
  let crc := crc16 encoded
  [(crc &&& 0xFF).toUInt8, ((crc >>> 8) &&& 0xFF).toUInt8]

def toStrKey (ver : UInt8) (bin : List UInt8) : List UInt8 :=
  let ver := ver <<< 3
  let toEncode := ver :: bin
  encodeB32 (toEncode ++ checksum toEncode)

def getStrKeySize (dataSize : ℕ) : ℕ :=
  encodedSize32 (dataSize + 3)

/-- The version and the decoded bytes, `none` where it returns false. -/
def fromStrKey (strKey : List UInt8) : Option (UInt8 × List UInt8) :=
  let decoded := decodeB32 strKey
  if decoded.length < 3 then
    none
  else
    let crc := (decoded.getLastD 0).toUInt16
    let decoded := decoded.dropLast
    let crc := (crc <<< 8) ||| (decoded.getLastD 0).toUInt16
    let decoded := decoded.dropLast
    if crc16 decoded ≠ crc then
      none
    else
      some (decoded.headD 0 >>> 3, decoded.tail)

end StrKey

/-! ## Key types -/

/-- `std::invalid_argument`. -/
structure InvalidArgument where
  what : String
  deriving DecidableEq

/-- `KeyFunctions` of a type of keys.  `make` is `key.type(...)` followed by
an assignment to the bytes of `getKeyValue`. -/
class KeyFunctions (T : Type) where
  KeyType : Type
  getKeyTypeName : String
  getKeyVersionIsSupported : StrKeyVersionByte → Bool
  toKeyType : StrKeyVersionByte → Except InvalidArgument KeyType
  toKeyVersion : KeyType → StrKeyVersionByte
  type : T → KeyType
  getKeyValue : T → BitVec 256
  make : KeyType → BitVec 256 → T

abbrev PublicKey := AccountID

inductive PublicKeyType where
  | ed25519
  deriving DecidableEq

instance : KeyFunctions PublicKey where
  KeyType := PublicKeyType
  getKeyTypeName := "public key"
  getKeyVersionIsSupported keyVersion := keyVersion = strKeyPubKeyEd25519
  toKeyType keyVersion :=
    if keyVersion = strKeyPubKeyEd25519 then .ok .ed25519
    else .error ⟨"invalid public key type"⟩
  toKeyVersion
    | .ed25519 => strKeyPubKeyEd25519
  type _ := .ed25519
  getKeyValue key := key
  make _ value := value

inductive SignerKeyType where
  | ed25519
  | preAuthTx
  | hashX
  deriving DecidableEq

instance : KeyFunctions SignerKey where
  KeyType := SignerKeyType
  getKeyTypeName := "signer key"
  getKeyVersionIsSupported keyVersion :=
    keyVersion = strKeyPubKeyEd25519 || keyVersion = strKeyPreAuthTx ||
      keyVersion = strKeyHashX
  toKeyType keyVersion :=
    if keyVersion = strKeyPubKeyEd25519 then .ok .ed25519
    else if keyVersion = strKeyPreAuthTx then .ok .preAuthTx
    else if keyVersion = strKeyHashX then .ok .hashX
    else .error ⟨"invalid signer key type"⟩
  toKeyVersion
    | .ed25519 => strKeyPubKeyEd25519
    | .preAuthTx => strKeyPreAuthTx
    | .hashX => strKeyHashX
  type
    | .ed25519 _ => .ed25519
    | .preAuthTx _ => .preAuthTx
    | .hashX _ => .hashX
  getKeyValue
    | .ed25519 key => key
    | .preAuthTx hash => hash
    | .hashX hash => hash
  make
    | .ed25519, value => .ed25519 value
    | .preAuthTx, value => .preAuthTx value
    | .hashX, value => .hashX value

namespace KeyUtils

open KeyFunctions

/-- The bytes of a `uint256`. -/
def bytesOf (value : BitVec 256) : List UInt8 :=
  (digitsOf 256 32 value.toNat).map UInt8.ofNat

def ofBytes (bytes : List UInt8) : BitVec 256 :=
  BitVec.ofNat 256 (number 256 (bytes.map UInt8.toNat))

def getKeyVersionSize (keyVersion : StrKeyVersionByte) :
    Except InvalidArgument ℕ :=
  if keyVersion = strKeyPubKeyEd25519 ∨ keyVersion = strKeySeedEd25519 then
    .ok 32
  else if keyVersion = strKeyPreAuthTx ∨ keyVersion = strKeyHashX then
    .ok 32
  else
    .error ⟨"invalid key version: " ++ toString keyVersion⟩

variable {T : Type} [KeyFunctions T]

def toStrKey (key : T) : List UInt8 :=
  StrKey.toStrKey (toKeyVersion (type key)) (bytesOf (getKeyValue key))

def fromStrKey (T : Type) [KeyFunctions T] (s : List UInt8) :
    Except InvalidArgument T := do
  match StrKey.fromStrKey s with
  | none => throw ⟨"bad " ++ getKeyTypeName T⟩
  | some (ver, k) =>
      if !getKeyVersionIsSupported T ver then
        throw ⟨"bad " ++ getKeyTypeName T⟩
      let size ← getKeyVersionSize ver
      if k.length ≠ size ∨ s.length ≠ StrKey.getStrKeySize size then
        throw ⟨"bad " ++ getKeyTypeName T⟩
      let keyType ← toKeyType ver
      return make keyType (ofBytes k)

end KeyUtils

end StellarCore.Crypto
