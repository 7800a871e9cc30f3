import StellarCore.Transactions.SignatureChecker

/-!
# Operations

The operations of a transaction, their results, and the checks that do not
depend on the ledger (`doCheckValid`).
-/

namespace StellarCore.Transactions

structure CreateAccountOp where
  destination : AccountID
  startingBalance : ℤ
  deriving DecidableEq

structure PaymentOp where
  destination : AccountID
  asset : Asset
  amount : ℤ
  deriving DecidableEq

structure PathPaymentOp where
  sendAsset : Asset
  sendMax : ℤ
  destination : AccountID
  destAsset : Asset
  destAmount : ℤ
  path : List Asset
  deriving DecidableEq

structure ManageOfferOp where
  selling : Asset
  buying : Asset
  amount : ℤ
  price : Price
  offerID : ℕ
  deriving DecidableEq

structure CreatePassiveOfferOp where
  selling : Asset
  buying : Asset
  amount : ℤ
  price : Price
  deriving DecidableEq

structure SetOptionsOp where
  inflationDest : Option AccountID
  clearFlags : Option (BitVec 32)
  setFlags : Option (BitVec 32)
  masterWeight : Option ℕ
  lowThreshold : Option ℕ
  medThreshold : Option ℕ
  highThreshold : Option ℕ
  homeDomain : Option (List UInt8)
  signer : Option Signer
  deriving DecidableEq

structure ChangeTrustOp where
  line : Asset
  limit : ℤ
  deriving DecidableEq

/-- The asset is one of the source account; `native` is what the code rejects
first. -/
inductive AllowTrustAsset where
  | native
  | assetCode4 (assetCode : Vector UInt8 4)
  | assetCode12 (assetCode : Vector UInt8 12)
  deriving DecidableEq

structure AllowTrustOp where
  trustor : AccountID
  asset : AllowTrustAsset
  authorize : Bool
  deriving DecidableEq

structure ManageDataOp where
  dataName : List UInt8
  dataValue : Option (List UInt8)
  deriving DecidableEq

inductive OperationBody where
  | createAccount (op : CreateAccountOp)
  | payment (op : PaymentOp)
  | pathPayment (op : PathPaymentOp)
  | manageOffer (op : ManageOfferOp)
  | createPassiveOffer (op : CreatePassiveOfferOp)
  | setOptions (op : SetOptionsOp)
  | changeTrust (op : ChangeTrustOp)
  | allowTrust (op : AllowTrustOp)
  | accountMerge (destination : AccountID)
  | inflation
  | manageData (op : ManageDataOp)
  deriving DecidableEq

structure Operation where
  sourceAccount : Option AccountID
  body : OperationBody
  deriving DecidableEq

/-! ## Results -/

inductive CreateAccountResult where
  | success
  | malformed
  | underfunded
  | lowReserve
  | alreadyExist
  deriving DecidableEq

inductive PaymentResult where
  | success
  | malformed
  | underfunded
  | srcNoTrust
  | srcNotAuthorized
  | noDestination
  | noTrust
  | notAuthorized
  | lineFull
  | noIssuer
  deriving DecidableEq

structure ClaimOfferAtom where
  sellerID : AccountID
  offerID : ℕ
  assetSold : Asset
  amountSold : ℤ
  assetBought : Asset
  amountBought : ℤ
  deriving DecidableEq

structure SimplePaymentResult where
  destination : AccountID
  asset : Asset
  amount : ℤ
  deriving DecidableEq

inductive PathPaymentResult where
  | success (offers : List ClaimOfferAtom) (last : SimplePaymentResult)
  | malformed
  | underfunded
  | srcNoTrust
  | srcNotAuthorized
  | noDestination
  | noTrust
  | notAuthorized
  | lineFull
  | noIssuer (asset : Asset)
  | tooFewOffers
  | offerCrossSelf
  | overSendmax
  deriving DecidableEq

inductive ManageOfferEffect where
  | created (offer : OfferEntry)
  | updated (offer : OfferEntry)
  | deleted
  deriving DecidableEq

inductive ManageOfferResult where
  | success (offersClaimed : List ClaimOfferAtom) (offer : ManageOfferEffect)
  | malformed
  | sellNoTrust
  | buyNoTrust
  | sellNotAuthorized
  | buyNotAuthorized
  | lineFull
  | underfunded
  | crossSelf
  | sellNoIssuer
  | buyNoIssuer
  | notFound
  | lowReserve
  deriving DecidableEq

inductive SetOptionsResult where
  | success
  | lowReserve
  | tooManySigners
  | badFlags
  | invalidInflation
  | cantChange
  | unknownFlag
  | thresholdOutOfRange
  | badSigner
  | invalidHomeDomain
  deriving DecidableEq

inductive ChangeTrustResult where
  | success
  | malformed
  | noIssuer
  | invalidLimit
  | lowReserve
  | selfNotAllowed
  deriving DecidableEq

inductive AllowTrustResult where
  | success
  | malformed
  | noTrustLine
  | trustNotRequired
  | cantRevoke
  | selfNotAllowed
  deriving DecidableEq

inductive AccountMergeResult where
  | success (sourceAccountBalance : ℤ)
  | malformed
  | noAccount
  | immutableSet
  | hasSubEntries
  deriving DecidableEq

structure InflationPayout where
  destination : AccountID
  amount : ℤ
  deriving DecidableEq

inductive InflationResult where
  | success (payouts : List InflationPayout)
  | notTime
  deriving DecidableEq

inductive ManageDataResult where
  | success
  | notSupportedYet
  | nameNotFound
  | lowReserve
  | invalidName
  deriving DecidableEq

inductive OperationResult where
  | badAuth
  | noAccount
  | createAccount (result : CreateAccountResult)
  | payment (result : PaymentResult)
  | pathPayment (result : PathPaymentResult)
  | manageOffer (result : ManageOfferResult)
  | setOptions (result : SetOptionsResult)
  | changeTrust (result : ChangeTrustResult)
  | allowTrust (result : AllowTrustResult)
  | accountMerge (result : AccountMergeResult)
  | inflation (result : InflationResult)
  | manageData (result : ManageDataResult)
  deriving DecidableEq

/-! ## Checks -/

/-- The first failure, if any of the checks fails. -/
def firstOf {ρ : Type} : List (Bool × ρ) → Option ρ
  | [] => none
  | (fails, result) :: rest => if fails then some result else firstOf rest

def CreateAccountOp.doCheckValid (op : CreateAccountOp)
    (sourceID : AccountID) : Option CreateAccountResult :=
  firstOf
    [(op.startingBalance ≤ 0, .malformed),
      (op.destination = sourceID, .malformed)]

def PaymentOp.doCheckValid (op : PaymentOp) : Option PaymentResult :=
  firstOf
    [(op.amount ≤ 0, .malformed),
      (!op.asset.isAssetValid, .malformed)]

def PathPaymentOp.doCheckValid (op : PathPaymentOp) :
    Option PathPaymentResult :=
  firstOf
    [(op.destAmount ≤ 0 || op.sendMax ≤ 0, .malformed),
      (!op.sendAsset.isAssetValid || !op.destAsset.isAssetValid, .malformed),
      (!op.path.all Asset.isAssetValid, .malformed)]

def ManageOfferOp.doCheckValid (op : ManageOfferOp) (ledgerVersion : ℕ) :
    Option ManageOfferResult :=
  firstOf
    [(!op.selling.isAssetValid || !op.buying.isAssetValid, .malformed),
      (op.selling = op.buying, .malformed),
      (op.amount < 0 || op.price.d ≤ 0 || op.price.n ≤ 0, .malformed),
      (ledgerVersion > 2 && op.offerID = 0 && op.amount = 0, .notFound)]

/-- `ManageOfferOpHolder`. -/
def CreatePassiveOfferOp.toManageOffer (op : CreatePassiveOfferOp) :
    ManageOfferOp :=
  { selling := op.selling, buying := op.buying, amount := op.amount
    price := op.price, offerID := 0 }

def outOfRange (threshold : Option ℕ) : Bool :=
  match threshold with
  | none => false
  | some value => value > 255

def SetOptionsOp.unknownFlags (flags : Option (BitVec 32)) : Bool :=
  match flags with
  | none => false
  | some flags => flags &&& ~~~maskAccountFlags ≠ 0

def SetOptionsOp.badFlags (op : SetOptionsOp) : Bool :=
  match op.setFlags, op.clearFlags with
  | some setFlags, some clearFlags => setFlags &&& clearFlags ≠ 0
  | _, _ => false

def SetOptionsOp.badSigner (op : SetOptionsOp) (sourceID : AccountID)
    (ledgerVersion : ℕ) : Bool :=
  match op.signer with
  | none => false
  | some signer =>
      match signer.key with
      | .ed25519 key => key = sourceID
      | _ => ledgerVersion < 3

def SetOptionsOp.badHomeDomain (op : SetOptionsOp) : Bool :=
  match op.homeDomain with
  | none => false
  | some homeDomain => !isString32Valid homeDomain

def SetOptionsOp.doCheckValid (op : SetOptionsOp) (sourceID : AccountID)
    (ledgerVersion : ℕ) : Option SetOptionsResult :=
  firstOf
    [(SetOptionsOp.unknownFlags op.setFlags, .unknownFlag),
      (SetOptionsOp.unknownFlags op.clearFlags, .unknownFlag),
      (op.badFlags, .badFlags),
      (outOfRange op.masterWeight, .thresholdOutOfRange),
      (outOfRange op.lowThreshold, .thresholdOutOfRange),
      (outOfRange op.medThreshold, .thresholdOutOfRange),
      (outOfRange op.highThreshold, .thresholdOutOfRange),
      (op.badSigner sourceID ledgerVersion, .badSigner),
      (op.badHomeDomain, .invalidHomeDomain)]

def ChangeTrustOp.doCheckValid (op : ChangeTrustOp) :
    Option ChangeTrustResult :=
  firstOf
    [(op.limit < 0, .malformed),
      (!op.line.isAssetValid, .malformed)]

def AllowTrustOp.toAsset (op : AllowTrustOp) (sourceID : AccountID) : Asset :=
  match op.asset with
  | .native => .native
  | .assetCode4 assetCode => .alphaNum4 assetCode sourceID
  | .assetCode12 assetCode => .alphaNum12 assetCode sourceID

def AllowTrustOp.doCheckValid (op : AllowTrustOp) (sourceID : AccountID) :
    Option AllowTrustResult :=
  firstOf
    [(op.toAsset sourceID = .native, .malformed),
      (!(op.toAsset sourceID).isAssetValid, .malformed)]

def mergeDoCheckValid (destination sourceID : AccountID) :
    Option AccountMergeResult :=
  firstOf [(sourceID = destination, .malformed)]

def ManageDataOp.doCheckValid (op : ManageDataOp) (ledgerVersion : ℕ) :
    Option ManageDataResult :=
  firstOf
    [(ledgerVersion < 2, .notSupportedYet),
      (op.dataName.length < 1 || !isString32Valid op.dataName, .invalidName)]

/-- `none` where the operation is well formed. -/
def OperationBody.doCheckValid (sourceID : AccountID) (ledgerVersion : ℕ) :
    OperationBody → Option OperationResult
  | .createAccount op => (op.doCheckValid sourceID).map .createAccount
  | .payment op => op.doCheckValid.map .payment
  | .pathPayment op => op.doCheckValid.map .pathPayment
  | .manageOffer op => (op.doCheckValid ledgerVersion).map .manageOffer
  | .createPassiveOffer op =>
      (op.toManageOffer.doCheckValid ledgerVersion).map .manageOffer
  | .setOptions op =>
      (op.doCheckValid sourceID ledgerVersion).map .setOptions
  | .changeTrust op => op.doCheckValid.map .changeTrust
  | .allowTrust op => (op.doCheckValid sourceID).map .allowTrust
  | .accountMerge destination =>
      (mergeDoCheckValid destination sourceID).map .accountMerge
  | .inflation => none
  | .manageData op => (op.doCheckValid ledgerVersion).map .manageData

/-! ## Thresholds -/

inductive ThresholdLevel where
  | low
  | medium
  | high
  deriving DecidableEq

def OperationBody.getThresholdLevel : OperationBody → ThresholdLevel
  | .setOptions op =>
      if op.masterWeight.isSome || op.lowThreshold.isSome ||
          op.medThreshold.isSome || op.highThreshold.isSome ||
          op.signer.isSome then
        .high
      else
        .medium
  | .allowTrust _ => .low
  | .accountMerge _ => .high
  | .inflation => .low
  | _ => .medium

def getNeededThreshold (account : AccountEntry) : ThresholdLevel → ℕ
  | .low => account.thresholds.low.toNat
  | .medium => account.thresholds.med.toNat
  | .high => account.thresholds.high.toNat

end StellarCore.Transactions
