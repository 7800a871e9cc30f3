import StellarCore.Lib.Containers
import StellarCore.Transactions.Entries

/-!
# Signature checks

`SignatureChecker.cpp`.  A checker keeps, beside the signatures of the
transaction, which of them were used and the one-time signers that were
found.
-/

namespace StellarCore.Transactions

open StellarCore.Lib

structure DecoratedSignature where
  hint : BitVec 32
  signature : List UInt8
  deriving DecidableEq

/-- The functions of `crypto/` that signatures are checked with. -/
structure Crypto where
  verifySig : BitVec 256 → List UInt8 → Hash → Bool
  sha256 : List UInt8 → Hash

namespace SignatureUtils

def doesHintMatch (key : BitVec 256) (hint : BitVec 32) : Bool :=
  key.setWidth 32 = hint

def verify (crypto : Crypto) (sig : DecoratedSignature) (key : BitVec 256)
    (hash : Hash) : Bool :=
  doesHintMatch key sig.hint && crypto.verifySig key sig.signature hash

def verifyHashX (crypto : Crypto) (sig : DecoratedSignature) (hashX : Hash) :
    Bool :=
  doesHintMatch hashX sig.hint && hashX = crypto.sha256 sig.signature

end SignatureUtils

/-- Insertion into a `std::set`. -/
def insertKey (key : SignerKey) (keys : List SignerKey) : List SignerKey :=
  if key ∈ keys then keys else keys.orderedInsert (· ≤ ·) key

/-- `mUsedOneTimeSignerKeys[accountID].insert(key)`. -/
def insertUsed (accountID : AccountID) (key : SignerKey) :
    List (AccountID × List SignerKey) → List (AccountID × List SignerKey) :=
  upsert accountID (fun keys => insertKey key (keys.getD []))

/-- `signatures` are paired with their flag in `mUsedSignatures`. -/
structure SignatureChecker where
  protocolVersion : ℕ
  contentsHash : Hash
  signatures : List (DecoratedSignature × Bool)
  usedOneTimeSignerKeys : List (AccountID × List SignerKey)

namespace SignatureChecker

variable (crypto : Crypto)

def start (protocolVersion : ℕ) (contentsHash : Hash)
    (signatures : List DecoratedSignature) : SignatureChecker :=
  { protocolVersion, contentsHash
    signatures := signatures.map (fun sig => (sig, false))
    usedOneTimeSignerKeys := [] }

/-- `totalWeight += signerKey.weight`. -/
def addWeight (totalWeight : ℤ) (signer : Signer) : ℤ :=
  wrap32 (totalWeight + signer.weight)

/-- The walk over the pre-authorized transactions; `none` for the weight where
the needed weight was reached. -/
def checkPreAuth (contentsHash : Hash) (accountID : AccountID)
    (neededWeight : ℤ) (totalWeight : ℤ)
    (used : List (AccountID × List SignerKey)) :
    List Signer → Option ℤ × List (AccountID × List SignerKey)
  | [] => (some totalWeight, used)
  | signer :: rest =>
      if signer.key = .preAuthTx contentsHash then
        let used := insertUsed accountID signer.key used
        let totalWeight := addWeight totalWeight signer
        if totalWeight ≥ neededWeight then
          (none, used)
        else
          checkPreAuth contentsHash accountID neededWeight totalWeight used
            rest
      else
        checkPreAuth contentsHash accountID neededWeight totalWeight used rest

/-- `verifyAll`: every signature takes the first signer it is valid for. -/
def verifyAll (verify : DecoratedSignature → Signer → Bool)
    (neededWeight : ℤ) :
    List (DecoratedSignature × Bool) → List Signer → ℤ →
      Option ℤ × List (DecoratedSignature × Bool)
  | [], _, totalWeight => (some totalWeight, [])
  | (sig, used) :: rest, signers, totalWeight =>
      match signers.find? (verify sig) with
      | none =>
          let (weight, flags) :=
            verifyAll verify neededWeight rest signers totalWeight
          (weight, (sig, used) :: flags)
      | some signer =>
          let totalWeight := addWeight totalWeight signer
          if totalWeight ≥ neededWeight then
            (none, (sig, true) :: rest)
          else
            let (weight, flags) :=
              verifyAll verify neededWeight rest
                (signers.eraseP (verify sig)) totalWeight
            (weight, (sig, true) :: flags)

def isHashX (signer : Signer) : Bool :=
  match signer.key with
  | .hashX _ => true
  | _ => false

def isEd25519 (signer : Signer) : Bool :=
  match signer.key with
  | .ed25519 _ => true
  | _ => false

def verifyHashX (sig : DecoratedSignature) (signer : Signer) : Bool :=
  match signer.key with
  | .hashX hash => SignatureUtils.verifyHashX crypto sig hash
  | _ => false

def verifyEd25519 (contentsHash : Hash) (sig : DecoratedSignature)
    (signer : Signer) : Bool :=
  match signer.key with
  | .ed25519 key => SignatureUtils.verify crypto sig key contentsHash
  | _ => false

def checkSignature (checker : SignatureChecker) (accountID : AccountID)
    (signers : List Signer) (neededWeight : ℤ) : Bool × SignatureChecker :=
  if checker.protocolVersion = 7 then
    (true, checker)
  else
    match checkPreAuth checker.contentsHash accountID neededWeight 0
        checker.usedOneTimeSignerKeys signers with
    | (none, used) => (true, { checker with usedOneTimeSignerKeys := used })
    | (some totalWeight, used) =>
        let checker := { checker with usedOneTimeSignerKeys := used }
        match verifyAll (verifyHashX crypto) neededWeight checker.signatures
            (signers.filter isHashX) totalWeight with
        | (none, signatures) => (true, { checker with signatures })
        | (some totalWeight, signatures) =>
            match verifyAll (verifyEd25519 crypto checker.contentsHash)
                neededWeight signatures (signers.filter isEd25519)
                totalWeight with
            | (none, signatures) => (true, { checker with signatures })
            | (some _, signatures) => (false, { checker with signatures })

def checkAllSignaturesUsed (checker : SignatureChecker) : Bool :=
  checker.protocolVersion = 7 || checker.signatures.all (fun sig => sig.2)

end SignatureChecker

end StellarCore.Transactions
