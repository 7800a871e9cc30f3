import StellarCore.Lib.Program
import StellarCore.Lib.Table

/-!
# Ledger entries

The entries and the header of a ledger, the `isValid` predicates of
`AccountFrame`, `TrustFrame`, `OfferFrame` and `DataFrame`, and loading and
storing of entries.  Integers are unbounded; where the code can overflow the
result is reduced explicitly.  A ledger is its tables and the header of the
ledger being closed; a load reads the row, since the entry cache holds nothing
else.
-/

namespace StellarCore.Transactions

open StellarCore.Lib

def int32Max : ℕ := 2 ^ 31 - 1

def int64Max : ℤ := 2 ^ 63 - 1

/-- The value of a 64-bit signed integer after it overflowed. -/
def wrap64 (value : ℤ) : ℤ :=
  value.bmod (2 ^ 64)

def wrap32 (value : ℤ) : ℤ :=
  value.bmod (2 ^ 32)

abbrev AccountID := BitVec 256

abbrev Hash := BitVec 256

/-- Keys are compared as numbers with the first byte leading. -/
instance : LinearOrder AccountID :=
  LinearOrder.lift' BitVec.toNat (fun _ _ => BitVec.eq_of_toNat_eq)

inductive Asset where
  | native
  | alphaNum4 (assetCode : Vector UInt8 4) (issuer : AccountID)
  | alphaNum12 (assetCode : Vector UInt8 12) (issuer : AccountID)
  deriving DecidableEq

namespace Asset

/-- The code of `getIssuer` reads the issuer of a 12-character asset where
the asset is native; it is called for credit only. -/
def getIssuer : Asset → AccountID
  | .native => 0
  | .alphaNum4 _ issuer => issuer
  | .alphaNum12 _ issuer => issuer

def isalnum (byte : UInt8) : Bool :=
  (48 ≤ byte && byte ≤ 57) || (65 ≤ byte && byte ≤ 90) ||
    (97 ≤ byte && byte ≤ 122)

/-- The number of characters of an asset code, if only zeros follow them. -/
def codeLength (zeros : Bool) (charcount : ℕ) : List UInt8 → Option ℕ
  | [] => some charcount
  | byte :: rest =>
      if byte = 0 then
        codeLength true charcount rest
      else if zeros then
        none
      else if byte > 0x7F || !isalnum byte then
        none
      else
        codeLength zeros (charcount + 1) rest

def isAssetValid : Asset → Bool
  | .native => true
  | .alphaNum4 assetCode _ =>
      match codeLength false 0 assetCode.toList with
      | some charcount => 0 < charcount
      | none => false
  | .alphaNum12 assetCode _ =>
      match codeLength false 0 assetCode.toList with
      | some charcount => 4 < charcount
      | none => false

end Asset

/-- The characters before the first zero. -/
def assetCodeToStr {n : ℕ} (code : Vector UInt8 n) : List UInt8 :=
  code.toList.takeWhile (fun c => c ≠ 0)

def Asset.codeStr : Asset → List UInt8
  | .native => []
  | .alphaNum4 assetCode _ => assetCodeToStr assetCode
  | .alphaNum12 assetCode _ => assetCodeToStr assetCode

def isString32Valid (str : List UInt8) : Bool :=
  str.all (fun c => 32 ≤ c && c < 127)

structure Price where
  n : ℤ
  d : ℤ
  deriving DecidableEq

inductive SignerKey where
  | ed25519 (key : BitVec 256)
  | preAuthTx (hash : Hash)
  | hashX (hash : Hash)
  deriving DecidableEq

namespace SignerKey

def rank : SignerKey → ℕ ×ₗ ℕ
  | .ed25519 key => toLex (0, key.toNat)
  | .preAuthTx hash => toLex (1, hash.toNat)
  | .hashX hash => toLex (2, hash.toNat)

theorem rank_injective : Function.Injective rank := by
  intro first second same
  cases first with
  | ed25519 first =>
      cases second with
      | ed25519 second => simpa [rank, BitVec.toNat_inj] using same
      | preAuthTx second => simp [rank] at same
      | hashX second => simp [rank] at same
  | preAuthTx first =>
      cases second with
      | ed25519 second => simp [rank] at same
      | preAuthTx second => simpa [rank, BitVec.toNat_inj] using same
      | hashX second => simp [rank] at same
  | hashX first =>
      cases second with
      | ed25519 second => simp [rank] at same
      | preAuthTx second => simp [rank] at same
      | hashX second => simpa [rank, BitVec.toNat_inj] using same

instance : LinearOrder SignerKey :=
  LinearOrder.lift' rank rank_injective

end SignerKey

structure Signer where
  key : SignerKey
  weight : ℕ
  deriving DecidableEq

structure Thresholds where
  masterWeight : UInt8
  low : UInt8
  med : UInt8
  high : UInt8
  deriving DecidableEq

def authRequiredFlag : BitVec 32 := 0x1

def authRevocableFlag : BitVec 32 := 0x2

def authImmutableFlag : BitVec 32 := 0x4

def maskAccountFlags : BitVec 32 := 0x7

def authorizedFlag : BitVec 32 := 1

def maskTrustLineFlags : BitVec 32 := 1

def passiveFlag : BitVec 32 := 1

def maskOfferEntryFlags : BitVec 32 := 1

structure AccountEntry where
  accountID : AccountID
  balance : ℤ
  seqNum : ℕ
  numSubEntries : ℕ
  inflationDest : Option AccountID
  flags : BitVec 32
  homeDomain : List UInt8
  thresholds : Thresholds
  signers : List Signer
  lastModified : ℕ
  deriving DecidableEq

structure TrustLineEntry where
  accountID : AccountID
  asset : Asset
  balance : ℤ
  limit : ℤ
  flags : BitVec 32
  lastModified : ℕ
  deriving DecidableEq

structure OfferEntry where
  sellerID : AccountID
  offerID : ℕ
  selling : Asset
  buying : Asset
  amount : ℤ
  price : Price
  flags : BitVec 32
  lastModified : ℕ
  deriving DecidableEq

structure DataEntry where
  accountID : AccountID
  dataName : List UInt8
  dataValue : List UInt8
  lastModified : ℕ
  deriving DecidableEq

inductive LedgerEntryType where
  | account
  | trustLine
  | offer
  | data
  deriving DecidableEq

/-- `closeTime` is the one of `scpValue`; the hashes are left out. -/
structure LedgerHeader where
  ledgerVersion : ℕ
  closeTime : ℕ
  ledgerSeq : ℕ
  totalCoins : ℤ
  feePool : ℤ
  inflationSeq : ℕ
  idPool : ℕ
  baseFee : ℕ
  baseReserve : ℕ
  maxTxSetSize : ℕ
  deriving DecidableEq

structure LedgerState where
  accounts : Table AccountID AccountEntry
  trustLines : Table (AccountID × Asset) TrustLineEntry
  offers : Table ℕ OfferEntry
  data : Table (AccountID × List UInt8) DataEntry
  header : LedgerHeader

/-- `invalidEntry` is an exception `Invalid ...`, for an account a failed
`assert(isValid())`; `assertion` is any other failed assertion. -/
inductive Failure where
  | invalidEntry (type : LedgerEntryType)
  | assertion
  | runtimeError (what : String)
  deriving DecidableEq

abbrev Ledger := EStateM Failure LedgerState

def assert (condition : Bool) : Ledger Unit :=
  if condition then pure () else throw .assertion

def getHeader : Ledger LedgerHeader := do
  return (← get).header

/-! ## Validity -/

namespace AccountEntry

def isValid (a : AccountEntry) : Bool :=
  a.lastModified ≤ int32Max &&
  isString32Valid a.homeDomain &&
  0 ≤ a.balance &&
  a.seqNum ≤ int64Max &&
  decide (a.signers.IsChain (fun s1 s2 => s1.key < s2.key)) &&
  a.flags &&& ~~~maskAccountFlags = 0 &&
  a.numSubEntries ≤ int32Max &&
  a.signers.all (fun s => s.weight ≤ 255 && s.weight ≠ 0)

def isAuthRequired (a : AccountEntry) : Bool :=
  a.flags &&& authRequiredFlag ≠ 0

def isImmutableAuth (a : AccountEntry) : Bool :=
  a.flags &&& authImmutableFlag ≠ 0

/-- `AccountFrame(AccountID const&)`: by default the master key has
weight 1. -/
def fresh (accountID : AccountID) : AccountEntry :=
  { accountID, balance := 0, seqNum := 0, numSubEntries := 0
    inflationDest := none, flags := 0, homeDomain := []
    thresholds := { masterWeight := 1, low := 0, med := 0, high := 0 }
    signers := [], lastModified := 0 }

/-- `makeAuthOnlyAccount`. -/
def authOnly (accountID : AccountID) : AccountEntry :=
  { fresh accountID with balance := -2 ^ 63 }

def normalize (a : AccountEntry) : AccountEntry :=
  { a with signers := a.signers.insertionSort (fun s1 s2 => s1.key ≤ s2.key) }

end AccountEntry

def TrustLineEntry.isValid (tl : TrustLineEntry) : Bool :=
  tl.lastModified ≤ int32Max &&
  tl.asset ≠ .native &&
  tl.asset.isAssetValid &&
  0 ≤ tl.balance &&
  0 < tl.limit &&
  tl.balance ≤ tl.limit &&
  tl.flags &&& ~~~maskTrustLineFlags = 0

def OfferEntry.isValid (oe : OfferEntry) : Bool :=
  oe.lastModified ≤ int32Max &&
  oe.offerID ≤ int64Max &&
  0 < oe.amount &&
  0 < oe.price.n &&
  1 ≤ oe.price.d &&
  oe.selling.isAssetValid &&
  oe.buying.isAssetValid &&
  oe.flags &&& ~~~maskOfferEntryFlags = 0

def DataEntry.isValid (d : DataEntry) : Bool :=
  d.lastModified ≤ int32Max &&
  0 < d.dataName.length &&
  isString32Valid d.dataName

/-! ## Balances and reserves -/

/-- `addBalance` of `types.cpp`. -/
def addBalance (balance delta : ℤ) (maxBalance : ℤ := int64Max) :
    Ledger (Option ℤ) := do
  assert (0 ≤ balance)
  assert (0 ≤ maxBalance)
  if delta = 0 then
    return some balance
  else if delta < -balance then
    return none
  else if maxBalance - balance < delta then
    return none
  else
    return some (balance + delta)

/-- The product is taken in 32-bit arithmetic. -/
def LedgerHeader.getMinBalance (header : LedgerHeader) (ownerCount : ℕ) : ℤ :=
  ((2 + ownerCount) * header.baseReserve % 2 ^ 32 : ℕ)

/-- `getStartingSequenceNumber`. -/
def LedgerHeader.getStartingSequenceNumber (header : LedgerHeader) : ℕ :=
  header.ledgerSeq * 2 ^ 32 % 2 ^ 64

namespace AccountEntry

def addBalance (a : AccountEntry) (delta : ℤ) :
    Ledger (Option AccountEntry) := do
  let balance ← Transactions.addBalance a.balance delta
  return balance.map (fun balance => { a with balance })

def getMinimumBalance (a : AccountEntry) (header : LedgerHeader) : ℤ :=
  header.getMinBalance a.numSubEntries

def getBalanceAboveReserve (a : AccountEntry) (header : LedgerHeader) : ℤ :=
  max 0 (a.balance - header.getMinBalance a.numSubEntries)

/-- `none` where the balance is too low for the new entry; the new count is
converted to a signed integer. -/
def addNumEntries (a : AccountEntry) (count : ℤ) :
    Ledger (Option AccountEntry) := do
  let newEntriesCount := (a.numSubEntries + count).bmod (2 ^ 32)
  let header ← getHeader
  if newEntriesCount < 0 then
    throw (.runtimeError "invalid account state")
  else if count > 0 &&
      a.balance < header.getMinBalance newEntriesCount.toNat then
    return none
  else
    return some { a with numSubEntries := newEntriesCount.toNat }

end AccountEntry

/-! ## Accounts -/

/-- `touch`: the ledger in which an entry is stored. -/
def touch : Ledger ℕ := do
  let header ← getHeader
  assert (header.ledgerSeq ≠ 0)
  return header.ledgerSeq

/-- Signers are read only for an account with sub-entries. -/
def AccountEntry.loaded (row : AccountEntry) (accountID : AccountID) :
    AccountEntry :=
  { row with
    accountID
    signers := if row.numSubEntries = 0 then [] else row.signers }

def loadAccount (accountID : AccountID) : Ledger (Option AccountEntry) := do
  match (← get).accounts.find? accountID with
  | none => return none
  | some row =>
      let account := row.loaded accountID
      if account.isValid then
        return some account
      else
        throw (.invalidEntry .account)

def storeChangeAccount (a : AccountEntry) : Ledger AccountEntry := do
  if a.isValid then
    let a := { a with lastModified := ← touch }
    let ledger ← get
    if ledger.accounts.contains a.accountID then
      set { ledger with accounts := ledger.accounts.update a.accountID a }
      return a
    else
      throw (.runtimeError "Could not update data in SQL")
  else
    throw (.invalidEntry .account)

def storeAddAccount (a : AccountEntry) : Ledger AccountEntry := do
  if a.isValid then
    let a := { a with lastModified := ← touch }
    let ledger ← get
    if ledger.accounts.contains a.accountID then
      throw (.runtimeError "Could not update data in SQL")
    else
      set { ledger with accounts := ledger.accounts.insert a.accountID a }
      return a
  else
    throw (.invalidEntry .account)

def storeDeleteAccount (accountID : AccountID) : Ledger Unit :=
  modify (fun ledger =>
    { ledger with accounts := ledger.accounts.erase accountID })

/-! ## Trust lines -/

/-- `mIsIssuer` marks the line that an issuer is given for its own asset. -/
structure TrustFrame where
  line : TrustLineEntry
  mIsIssuer : Bool
  deriving DecidableEq

namespace TrustFrame

def isAuthorized (frame : TrustFrame) : Bool :=
  frame.line.flags &&& authorizedFlag ≠ 0

def setAuthorized (frame : TrustFrame) (authorized : Bool) : TrustFrame :=
  { frame with
    line :=
      { frame.line with
        flags :=
          if authorized then frame.line.flags ||| authorizedFlag
          else frame.line.flags &&& ~~~authorizedFlag } }

def getBalance (frame : TrustFrame) : Ledger ℤ := do
  if frame.line.isValid then
    return frame.line.balance
  else
    throw .assertion

def addBalance (frame : TrustFrame) (delta : ℤ) :
    Ledger (Option TrustFrame) := do
  if frame.mIsIssuer || delta = 0 then
    return some frame
  else if !frame.isAuthorized then
    return none
  else
    let balance ←
      Transactions.addBalance frame.line.balance delta frame.line.limit
    return balance.map
      (fun balance => { frame with line := { frame.line with balance } })

def getMaxAmountReceive (frame : TrustFrame) : ℤ :=
  if frame.mIsIssuer then
    int64Max
  else if frame.isAuthorized then
    frame.line.limit - frame.line.balance
  else
    0

def createIssuerFrame (asset : Asset) : TrustFrame :=
  { line :=
      { accountID := asset.getIssuer, asset, balance := int64Max
        limit := int64Max, flags := authorizedFlag, lastModified := 0 }
    mIsIssuer := true }

end TrustFrame

def loadTrustLine (accountID : AccountID) (asset : Asset) :
    Ledger (Option TrustFrame) := do
  if asset = .native then
    throw (.runtimeError "XLM TrustLine?")
  else if accountID = asset.getIssuer then
    return some (.createIssuerFrame asset)
  else
    match (← get).trustLines.find? (accountID, asset) with
    | none => return none
    | some row =>
        let line := { row with accountID, asset }
        if line.isValid then
          return some { line, mIsIssuer := false }
        else
          throw (.invalidEntry .trustLine)

def loadTrustLineIssuer (accountID : AccountID) (asset : Asset) :
    Ledger (Option TrustFrame × Option AccountEntry) := do
  let line ← loadTrustLine accountID asset
  let issuer ← loadAccount asset.getIssuer
  return (line, issuer)

/-- `getKeyFields`. -/
def checkKeyFields (line : TrustLineEntry) : Ledger Unit :=
  if line.accountID = line.asset.getIssuer then
    throw (.runtimeError
      ("Issuer's own trustline should not be used " ++
        "outside of OperationFrame"))
  else
    pure ()

def storeChangeTrust (frame : TrustFrame) : Ledger TrustFrame := do
  if frame.line.isValid then
    if frame.mIsIssuer then
      return frame
    else
      let line := { frame.line with lastModified := ← touch }
      checkKeyFields line
      let ledger ← get
      let key := (line.accountID, line.asset)
      if ledger.trustLines.contains key then
        set { ledger with trustLines := ledger.trustLines.update key line }
        return { frame with line }
      else
        throw (.runtimeError "Could not update data in SQL")
  else
    throw (.invalidEntry .trustLine)

def storeAddTrust (frame : TrustFrame) : Ledger TrustFrame := do
  if frame.line.isValid then
    if frame.mIsIssuer then
      return frame
    else
      let line := { frame.line with lastModified := ← touch }
      checkKeyFields line
      let ledger ← get
      let key := (line.accountID, line.asset)
      if ledger.trustLines.contains key then
        throw (.runtimeError "Could not update data in SQL")
      else
        set { ledger with trustLines := ledger.trustLines.insert key line }
        return { frame with line }
  else
    throw (.invalidEntry .trustLine)

def storeDeleteTrust (line : TrustLineEntry) : Ledger Unit := do
  checkKeyFields line
  modify (fun ledger =>
    { ledger with
      trustLines := ledger.trustLines.erase (line.accountID, line.asset) })

/-! ## Offers -/

def loadOffer (sellerID : AccountID) (offerID : ℕ) :
    Ledger (Option OfferEntry) := do
  match (← get).offers.find? offerID with
  | none => return none
  | some row =>
      let offer := { row with offerID }
      if offer.sellerID ≠ sellerID then
        return none
      else if offer.isValid then
        return some offer
      else
        throw (.invalidEntry .offer)

def storeChangeOffer (offer : OfferEntry) : Ledger OfferEntry := do
  let offer := { offer with lastModified := ← touch }
  if offer.isValid then
    let ledger ← get
    if ledger.offers.contains offer.offerID then
      set { ledger with offers := ledger.offers.update offer.offerID offer }
      return offer
    else
      throw (.runtimeError "could not update SQL")
  else
    throw (.invalidEntry .offer)

def storeAddOffer (offer : OfferEntry) : Ledger OfferEntry := do
  let offer := { offer with lastModified := ← touch }
  if offer.isValid then
    let ledger ← get
    if ledger.offers.contains offer.offerID then
      throw (.runtimeError "could not update SQL")
    else
      set { ledger with offers := ledger.offers.insert offer.offerID offer }
      return offer
  else
    throw (.invalidEntry .offer)

def storeDeleteOffer (offerID : ℕ) : Ledger Unit :=
  modify (fun ledger => { ledger with offers := ledger.offers.erase offerID })

/-! ## Data -/

def loadData (accountID : AccountID) (dataName : List UInt8) :
    Ledger (Option DataEntry) := do
  match (← get).data.find? (accountID, dataName) with
  | none => return none
  | some row =>
      let entry := { row with accountID, dataName }
      if entry.isValid then
        return some entry
      else
        throw (.invalidEntry .data)

def storeChangeData (entry : DataEntry) : Ledger DataEntry := do
  if entry.isValid then
    let entry := { entry with lastModified := ← touch }
    let ledger ← get
    let key := (entry.accountID, entry.dataName)
    if ledger.data.contains key then
      set { ledger with data := ledger.data.update key entry }
      return entry
    else
      throw (.runtimeError "could not update SQL")
  else
    throw .assertion

def storeAddData (entry : DataEntry) : Ledger DataEntry := do
  if entry.isValid then
    let entry := { entry with lastModified := ← touch }
    let ledger ← get
    let key := (entry.accountID, entry.dataName)
    if ledger.data.contains key then
      throw (.runtimeError "could not update SQL")
    else
      set { ledger with data := ledger.data.insert key entry }
      return entry
  else
    throw .assertion

def storeDeleteData (accountID : AccountID) (dataName : List UInt8) :
    Ledger Unit :=
  modify (fun ledger =>
    { ledger with data := ledger.data.erase (accountID, dataName) })

end StellarCore.Transactions
