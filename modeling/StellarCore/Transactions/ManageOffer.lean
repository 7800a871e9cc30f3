import StellarCore.Lib.Attempt
import StellarCore.Transactions.PathPayment

/-!
# Managing offers

`ManageOfferOpFrame::doApply`, which also applies passive offers.  The frames
of the source account and its trust lines are kept in memory while offers are
crossed.
-/

namespace StellarCore.Transactions

open StellarCore.Lib

/-- The comparisons multiply crosswise in 128 bits; both prices are
positive. -/
def Price.atLeast (a b : Price) : Bool :=
  a.n * b.d ≥ a.d * b.n

def Price.exceeds (a b : Price) : Bool :=
  a.n * b.d > a.d * b.n

/-- `generateID`. -/
def generateID : Ledger ℕ := do
  let ledger ← get
  let idPool := (ledger.header.idPool + 1) % 2 ^ 64
  set { ledger with header := { ledger.header with idPool } }
  return idPool

namespace ManageOfferOp

/-! ## Checks -/

/-- `mSheepLineA`. -/
def loadSheepLine (op : ManageOfferOp) (sourceID : AccountID) :
    Applying ManageOfferResult (Option TrustFrame) := do
  if op.selling = .native then
    return none
  else
    let (line, issuer) ← loadTrustLineIssuer sourceID op.selling
    if issuer.isNone then
      reject .sellNoIssuer
    else
      match line with
      | none => reject .sellNoTrust
      | some line =>
          if (← line.getBalance) = 0 then
            reject .underfunded
          else if !line.isAuthorized then
            reject .sellNotAuthorized
          else
            return some line

/-- `mWheatLineA`. -/
def loadWheatLine (op : ManageOfferOp) (sourceID : AccountID) :
    Applying ManageOfferResult (Option TrustFrame) := do
  if op.buying = .native then
    return none
  else
    let (line, issuer) ← loadTrustLineIssuer sourceID op.buying
    if issuer.isNone then
      reject .buyNoIssuer
    else
      match line with
      | none => reject .buyNoTrust
      | some line =>
          if !line.isAuthorized then
            reject .buyNotAuthorized
          else
            return some line

/-- The trust lines of the source account. -/
structure SourceLines where
  sheep : Option TrustFrame
  wheat : Option TrustFrame

/-- An offer that is deleted needs no trust lines. -/
def checkOfferValid (op : ManageOfferOp) (sourceID : AccountID) :
    Applying ManageOfferResult SourceLines := do
  if op.amount = 0 then
    return { sheep := none, wheat := none }
  else
    let sheep ← op.loadSheepLine sourceID
    let wheat ← op.loadWheatLine sourceID
    return { sheep, wheat }

/-! ## The offer -/

def buildOffer (op : ManageOfferOp) (account : AccountID)
    (flags : BitVec 32) : OfferEntry :=
  { sellerID := account, offerID := op.offerID, selling := op.selling
    buying := op.buying, amount := op.amount, price := op.price, flags
    lastModified := 0 }

/-- `mSellSheepOffer`: an old offer rebuilt, or a new one. -/
def findOffer (op : ManageOfferOp) (mPassive : Bool) (sourceID : AccountID) :
    Applying ManageOfferResult OfferEntry := do
  if op.offerID ≠ 0 then
    match ← loadOffer sourceID op.offerID with
    | none => reject .notFound
    | some old => return op.buildOffer sourceID old.flags
  else
    return op.buildOffer sourceID (if mPassive then passiveFlag else 0)

def creatingNewOffer (op : ManageOfferOp) : Bool :=
  op.offerID = 0

/-! ## Limits -/

/-- `maxAmountOfSheepCanSell`, with the source account as it is left: the
reserve of a new offer is counted and taken back. -/
def canSell (op : ManageOfferOp) (source : AccountEntry)
    (sheepLine : Option TrustFrame) :
    Applying ManageOfferResult (ℤ × AccountEntry) := do
  if op.selling = .native then
    let header ← getHeader
    if op.creatingNewOffer && header.ledgerVersion > 8 then
      match ← source.addNumEntries 1 with
      | none => reject .lowReserve
      | some counted =>
          let restored ← counted.addNumEntries (-1)
          return (counted.getBalanceAboveReserve header,
            restored.getD counted)
    else
      return (source.getBalanceAboveReserve header, source)
  else
    match sheepLine with
    | none => abort
    | some sheepLine => return (← sheepLine.getBalance, source)

/-- `maxWheatCanBuy`. -/
def canBuy (op : ManageOfferOp) (wheatLine : Option TrustFrame) :
    Applying ManageOfferResult ℤ := do
  if op.buying = .native then
    return int64Max
  else
    match wheatLine with
    | none => abort
    | some wheatLine =>
        if wheatLine.getMaxAmountReceive = 0 then
          reject .lineFull
        else
          return wheatLine.getMaxAmountReceive

/-- What crossing may exchange, and the source account. -/
structure Limits where
  maxSheepSend : ℤ
  maxWheatCanBuy : ℤ
  source : AccountEntry

def limits (op : ManageOfferOp) (source : AccountEntry)
    (lines : SourceLines) : Applying ManageOfferResult Limits := do
  let (maxAmountOfSheepCanSell, source) ← op.canSell source lines.sheep
  let maxWheatCanBuy ← op.canBuy lines.wheat
  let divided ← (ofExcept (bigDivide? maxWheatCanBuy op.price.d op.price.n
    .roundDown) : Ledger (Option ℤ))
  let maxAmountOfSheepCanSell :=
    min maxAmountOfSheepCanSell (divided.getD int64Max)
  return { maxSheepSend := min op.amount maxAmountOfSheepCanSell
           maxWheatCanBuy, source }

/-! ## Crossing -/

/-- The price at which the book is too dear. -/
def tooDear (mPassive : Bool) (maxWheatPrice : Price) (o : OfferEntry) :
    Bool :=
  (mPassive && o.price.atLeast maxWheatPrice) ||
    o.price.exceeds maxWheatPrice

def filter (op : ManageOfferOp) (mPassive : Bool) (sourceID : AccountID)
    (o : OfferEntry) : OfferFilterResult :=
  if o.offerID = op.offerID then
    .skip
  else if tooDear mPassive ⟨op.price.d, op.price.n⟩ o then
    .stop
  else if o.sellerID = sourceID then
    .stop
  else
    .keep

/-- The filter has stopped at an offer of the source. -/
def crossesSelf (op : ManageOfferOp) (mPassive : Bool)
    (result : ConvertResult) : Bool :=
  match result with
  | .filterStop o => !tooDear mPassive ⟨op.price.d, op.price.n⟩ o
  | _ => false

/-- Changes a balance of the source; `what` is the exception where this
fails. -/
def settleBalance (asset : Asset) (source : AccountEntry)
    (line : Option TrustFrame) (amount : ℤ) (what : String) :
    Ledger AccountEntry := do
  if asset = .native then
    match ← source.addBalance amount with
    | none => throw (.runtimeError what)
    | some source => storeChangeAccount source
  else
    match line with
    | none => abort
    | some line =>
        match ← line.addBalance amount with
        | none => throw (.runtimeError what)
        | some line => do
            let _ ← storeChangeTrust line
            return source

def settleSource (op : ManageOfferOp) (source : AccountEntry)
    (lines : SourceLines) (conversion : Conversion) : Ledger AccountEntry := do
  if conversion.wheatReceived > 0 then
    let source ← settleBalance op.buying source lines.wheat
      conversion.wheatReceived "offer claimed over limit"
    settleBalance op.selling source lines.sheep (-conversion.sheepSend)
      "offer sold more than balance"
  else
    return source

/-- The amount that is left to sell, the claimed offers and the source
account. -/
structure Crossings where
  amount : ℤ
  offersClaimed : List ClaimOfferAtom
  source : AccountEntry

def cross (computePrice : Price → ℚ) (op : ManageOfferOp) (mPassive : Bool)
    (source : AccountEntry) (lines : SourceLines) :
    Applying ManageOfferResult Crossings := do
  let limits ← op.limits source lines
  let conversion ← convertWithOffers computePrice op.selling
    limits.maxSheepSend op.buying limits.maxWheatCanBuy
    (op.filter mPassive source.accountID)
  assert (conversion.sheepSend ≥ 0)
  if op.crossesSelf mPassive conversion.result then
    reject .crossSelf
  else
    let source ← op.settleSource limits.source lines conversion
    return { amount := limits.maxSheepSend - conversion.sheepSend
             offersClaimed := conversion.trail, source }

/-! ## Storing the offer -/

def storeNew (offer : OfferEntry) (source : AccountEntry) :
    Applying ManageOfferResult ManageOfferEffect := do
  match ← source.addNumEntries 1 with
  | none => reject .lowReserve
  | some source =>
      let offerID ← generateID
      let offer ← storeAddOffer { offer with offerID }
      let _ ← storeChangeAccount source
      return .created offer

def removeOld (offer : OfferEntry) (source : AccountEntry) :
    Ledger ManageOfferEffect := do
  storeDeleteOffer offer.offerID
  let counted ← source.addNumEntries (-1)
  let _ ← storeChangeAccount (counted.getD source)
  return .deleted

def storeRest (op : ManageOfferOp) (offer : OfferEntry)
    (source : AccountEntry) :
    Applying ManageOfferResult ManageOfferEffect := do
  if offer.amount > 0 then
    if op.creatingNewOffer then
      storeNew offer source
    else
      return .updated (← storeChangeOffer offer)
  else if op.creatingNewOffer then
    return .deleted
  else
    removeOld offer source

/-- The part that is made within a transaction of its own. -/
def exchangeAndStore (computePrice : Price → ℚ) (op : ManageOfferOp)
    (mPassive : Bool) (source : AccountEntry) (lines : SourceLines)
    (offer : OfferEntry) :
    Applying ManageOfferResult (List ClaimOfferAtom × ManageOfferEffect) := do
  let crossings ←
    if op.amount = 0 then
      pure { amount := 0, offersClaimed := [], source }
    else
      op.cross computePrice mPassive source lines
  let effect ← op.storeRest { offer with amount := crossings.amount }
    crossings.source
  return (crossings.offersClaimed, effect)

def settle (computePrice : Price → ℚ) (op : ManageOfferOp) (mPassive : Bool)
    (source : AccountEntry) :
    Applying ManageOfferResult (List ClaimOfferAtom × ManageOfferEffect) := do
  let lines ← op.checkOfferValid source.accountID
  let offer ← op.findOffer mPassive source.accountID
  let mPassive :=
    if op.offerID ≠ 0 then decide (offer.flags &&& passiveFlag ≠ 0)
    else mPassive
  transactional (op.exchangeAndStore computePrice mPassive source lines offer)

def doApply (computePrice : Price → ℚ) (op : ManageOfferOp) (mPassive : Bool)
    (source : AccountEntry) : Ledger ManageOfferResult := do
  match ← (op.settle computePrice mPassive source).run with
  | .ok (offersClaimed, effect) => return .success offersClaimed effect
  | .error result => return result

end ManageOfferOp

end StellarCore.Transactions
