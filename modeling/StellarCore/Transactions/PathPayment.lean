import StellarCore.Lib.Attempt
import StellarCore.Transactions.OfferExchange

/-!
# Payments

`doApply` of `PathPaymentOpFrame` and `PaymentOpFrame`.  The source account is
`mSourceAccount`, as `checkValid` has loaded it.  What a failed operation has
stored stays in the ledger until the transaction is rolled back.
-/

namespace StellarCore.Transactions

open StellarCore.Lib

/-- A `doApply` that ends early with the code of a failure. -/
abbrev Applying (ρ : Type) := Attempt Failure LedgerState ρ

/-- Where the code follows a null pointer or an assertion fails. -/
def abort {α : Type} : Ledger α :=
  throw .assertion

namespace PathPaymentOp

/-- Credits may be sent back to their issuer even if its account does not
exist. -/
def bypassIssuerCheck (op : PathPaymentOp) : Bool :=
  op.destAsset ≠ .native && (op.sendAsset :: op.path).length = 1 &&
    op.sendAsset = op.destAsset && op.destAsset.getIssuer = op.destination

def loadDestination (op : PathPaymentOp) :
    Applying PathPaymentResult (Option AccountEntry) := do
  if op.bypassIssuerCheck then
    return none
  else
    match ← loadAccount op.destination with
    | none => reject .noDestination
    | some destination => return some destination

/-- The trust line of the destination or the source, whose issuer must
exist. -/
def loadCheckedLine (op : PathPaymentOp) (accountID : AccountID)
    (asset : Asset) : Applying PathPaymentResult (Option TrustFrame) := do
  if op.bypassIssuerCheck then
    loadTrustLine accountID asset
  else
    let (line, issuer) ← loadTrustLineIssuer accountID asset
    if issuer.isNone then
      reject (.noIssuer asset)
    else
      return line

/-- Changes the balance of a trust line; the codes are those of the three ways
in which this fails. -/
def changeLine (line : Option TrustFrame) (amount : ℤ)
    (absent untrusted cannot : PathPaymentResult) :
    Applying PathPaymentResult Unit := do
  match line with
  | none => reject absent
  | some line =>
      if !line.isAuthorized then
        reject untrusted
      else
        match ← line.addBalance amount with
        | none => reject cannot
        | some line => let _ ← storeChangeTrust line

/-- Updates the last balance in the chain. -/
def creditDestination (op : PathPaymentOp) :
    Applying PathPaymentResult Unit := do
  let destination ← op.loadDestination
  if op.destAsset = .native then
    match destination with
    | none => abort
    | some destination =>
        match ← destination.addBalance op.destAmount with
        | none => reject .malformed
        | some destination => let _ ← storeChangeAccount destination
  else
    let destLine ← op.loadCheckedLine op.destination op.destAsset
    changeLine destLine op.destAmount .noTrust .notAuthorized .lineFull

/-- The variables of the loop over the path: what is to be delivered next, and
the offers that were taken. -/
structure Hop where
  curB : Asset
  curBReceived : ℤ
  offers : List ClaimOfferAtom

section Convert

variable (computePrice : Price → ℚ)

/-- An offer of the source stops the conversion. -/
def crossSelf (sourceID : AccountID) (offer : OfferEntry) :
    OfferFilterResult :=
  if offer.sellerID = sourceID then .stop else .keep

def convertHop (sourceID : AccountID) (hop : Hop) (curA : Asset) :
    Applying PathPaymentResult Hop := do
  let conversion ← convertWithOffers computePrice curA int64Max hop.curB
    hop.curBReceived (crossSelf sourceID)
  assert (conversion.sheepSend ≥ 0)
  match conversion.result with
  | .filterStop _ => reject .offerCrossSelf
  | .partially => reject .tooFewOffers
  | .ok =>
      if hop.curBReceived = conversion.wheatReceived then
        return { curB := curA, curBReceived := conversion.sheepSend
                 offers := conversion.trail ++ hop.offers }
      else
        reject .tooFewOffers

/-- The body of the loop that walks the path backwards. -/
def walkHop (sourceID : AccountID) (hop : Hop) (curA : Asset) :
    Applying PathPaymentResult Hop := do
  if curA = hop.curB then
    return hop
  else if curA = .native then
    convertHop computePrice sourceID hop curA
  else
    match ← loadAccount curA.getIssuer with
    | none => reject (.noIssuer curA)
    | some _ => convertHop computePrice sourceID hop curA

end Convert

/-- Since version 8 the account is loaded again, as the path may have changed
it. -/
def reloadSource (source : AccountEntry) :
    Applying PathPaymentResult AccountEntry := do
  if (← getHeader).ledgerVersion > 7 then
    match ← loadAccount source.accountID with
    | none => reject .malformed
    | some sourceAccount => return sourceAccount
  else
    return source

def debitNative (source : AccountEntry) (curBSent : ℤ) :
    Applying PathPaymentResult Unit := do
  let sourceAccount ← reloadSource source
  let minBalance := sourceAccount.getMinimumBalance (← getHeader)
  if sourceAccount.balance - curBSent < minBalance then
    reject .underfunded
  else
    match ← sourceAccount.addBalance (-curBSent) with
    | none => abort
    | some sourceAccount => let _ ← storeChangeAccount sourceAccount

def debitLine (op : PathPaymentOp) (source : AccountEntry) (curB : Asset)
    (curBSent : ℤ) : Applying PathPaymentResult Unit := do
  let sourceLineFrame ← op.loadCheckedLine source.accountID curB
  changeLine sourceLineFrame (-curBSent) .srcNoTrust .srcNotAuthorized
    .underfunded

/-- The last step: the first account in the chain pays. -/
def debitSource (op : PathPaymentOp) (source : AccountEntry) (hop : Hop) :
    Applying PathPaymentResult Unit :=
  if hop.curBReceived > op.sendMax then
    reject .overSendmax
  else if hop.curB = .native then
    debitNative source hop.curBReceived
  else
    op.debitLine source hop.curB hop.curBReceived

/-- The offers that were taken, in the order of the path. -/
def settle (computePrice : Price → ℚ) (op : PathPaymentOp)
    (source : AccountEntry) :
    Applying PathPaymentResult (List ClaimOfferAtom) := do
  op.creditDestination
  let hop ← (op.sendAsset :: op.path).reverse.foldlM
    (walkHop computePrice source.accountID)
    { curB := op.destAsset, curBReceived := op.destAmount, offers := [] }
  op.debitSource source hop
  return hop.offers

def doApply (computePrice : Price → ℚ) (op : PathPaymentOp)
    (source : AccountEntry) : Ledger PathPaymentResult := do
  match ← (op.settle computePrice source).run with
  | .ok offers =>
      return .success offers
        { destination := op.destination, asset := op.destAsset
          amount := op.destAmount }
  | .error result => return result

end PathPaymentOp

/-! ## Payments of one asset -/

namespace PaymentOp

def instantSuccess (op : PaymentOp) (sourceID : AccountID)
    (ledgerVersion : ℕ) : Bool :=
  if ledgerVersion > 2 then
    op.destination = sourceID && op.asset = .native
  else
    op.destination = sourceID

def toPathPayment (op : PaymentOp) : PathPaymentOp :=
  { sendAsset := op.asset, sendMax := op.amount
    destination := op.destination, destAsset := op.asset
    destAmount := op.amount, path := [] }

end PaymentOp

/-- The code of a payment for the code of a path payment that failed; there is
none for the codes that are not expected. -/
def PathPaymentResult.toPayment : PathPaymentResult → Option PaymentResult
  | .underfunded => some .underfunded
  | .srcNotAuthorized => some .srcNotAuthorized
  | .srcNoTrust => some .srcNoTrust
  | .noDestination => some .noDestination
  | .noTrust => some .noTrust
  | .notAuthorized => some .notAuthorized
  | .lineFull => some .lineFull
  | .noIssuer _ => some .noIssuer
  | _ => none

def PaymentOp.doApply (computePrice : Price → ℚ) (op : PaymentOp)
    (source : AccountEntry) : Ledger PaymentResult := do
  if op.instantSuccess source.accountID (← getHeader).ledgerVersion then
    return .success
  else
    let result ←
      match op.toPathPayment.doCheckValid with
      | some failure => pure failure
      | none => op.toPathPayment.doApply computePrice source
    match result with
    | .success _ _ => return .success
    | failure =>
        match failure.toPayment with
        | some code => return code
        | none =>
            throw (.runtimeError "Unexpected error code from pathPayment")

end StellarCore.Transactions
