import StellarCore.Transactions.Exchange

/-!
# Crossing offers

`OfferExchange` of `OfferExchange.cpp`: buying wheat with sheep from one offer
and from the order book, and `OfferFrame::loadBestOffers`, which reads a page
of the book.
-/

namespace StellarCore.Transactions

open StellarCore.Lib

def canBuyAtMost (asset : Asset) (trustLine : Option TrustFrame)
    (price : Price) : Except Failure ℤ := do
  if asset = .native then
    return int64Max
  else
    let sellerMaxSheep :=
      match trustLine with
      | some trustLine => trustLine.getMaxAmountReceive
      | none => 0
    return (← bigDivide? sellerMaxSheep price.d price.n .roundDown).getD
      int64Max

def canSellAtMost (account : AccountEntry) (asset : Asset)
    (trustLine : Option TrustFrame) : Ledger ℤ := do
  if asset = .native then
    return account.getBalanceAboveReserve (← getHeader)
  else
    match trustLine with
    | some trustLine =>
        if trustLine.isAuthorized then
          trustLine.getBalance
        else
          return 0
    | none => return 0

inductive CrossOfferResult where
  | offerPartial
  | offerTaken
  | offerCantConvert
  deriving DecidableEq

/-- What `crossOffer` returns, with its two arguments by reference. -/
structure Crossing where
  result : CrossOfferResult
  numWheatReceived : ℤ
  numSheepSend : ℤ
  deriving DecidableEq

/-- A balance of an account is changed and stored.  `none` where
`addBalance` fails; without a trust line the code follows a null pointer. -/
def adjustBalance (asset : Asset) (account : AccountEntry)
    (trustLine : Option TrustFrame) (delta : ℤ) :
    Ledger (Option AccountEntry) := do
  if delta = 0 then
    return some account
  else if asset = .native then
    match ← account.addBalance delta with
    | none => return none
    | some account => return some (← storeChangeAccount account)
  else
    match trustLine with
    | none => throw .assertion
    | some trustLine =>
        match ← trustLine.addBalance delta with
        | none => return none
        | some trustLine =>
            let _ ← storeChangeTrust trustLine
            return some account

/-- The offer is deleted, or stored with what is left of it. -/
def storeCrossed (offer : OfferEntry) (accountB : AccountEntry)
    (numWheatReceived : ℤ) (offerTaken : Bool) : Ledger AccountEntry := do
  if offerTaken then
    storeDeleteOffer offer.offerID
    let counted ← accountB.addNumEntries (-1)
    storeChangeAccount (counted.getD accountB)
  else
    let _ ← storeChangeOffer
      { offer with amount := offer.amount - numWheatReceived }
    return accountB

/-- The last part of `crossOffer`, from the point where the amounts are
known. -/
def settleCrossing (offer : OfferEntry) (accountB : AccountEntry)
    (wheatLine sheepLine : Option TrustFrame)
    (numWheatReceived numSheepSend : ℤ) (offerTaken : Bool) :
    Ledger Crossing := do
  let accountB ← storeCrossed offer accountB numWheatReceived offerTaken
  match ← adjustBalance offer.buying accountB sheepLine numSheepSend with
  | none => return ⟨.offerCantConvert, numWheatReceived, numSheepSend⟩
  | some accountB =>
      match ← adjustBalance offer.selling accountB wheatLine
        (-numWheatReceived) with
      | none => return ⟨.offerCantConvert, numWheatReceived, numSheepSend⟩
      | some _ =>
          return ⟨if offerTaken then .offerTaken else .offerPartial,
            numWheatReceived, numSheepSend⟩

def loadLine (accountID : AccountID) (asset : Asset) :
    Ledger (Option TrustFrame) :=
  if asset = .native then return none else loadTrustLine accountID asset

def exchange (ledgerVersion : ℕ) (wheatReceived : ℤ) (price : Price)
    (maxWheatReceive maxSheepSend : ℤ) : Except Failure ExchangeResult :=
  if ledgerVersion < 3 then
    exchangeV2 wheatReceived price maxWheatReceive maxSheepSend
  else
    exchangeV3 wheatReceived price maxWheatReceive maxSheepSend

def crossOffer (offer : OfferEntry) (maxWheatReceived maxSheepSend : ℤ) :
    Ledger Crossing := do
  assert (maxWheatReceived > 0)
  assert (maxSheepSend > 0)
  match ← loadAccount offer.sellerID with
  | none =>
      throw (.runtimeError
        "invalid database state: offer must have matching account")
  | some accountB =>
      let wheatLine ← loadLine offer.sellerID offer.selling
      let sheepLine ← loadLine offer.sellerID offer.buying
      let canBuy ← ofExcept (canBuyAtMost offer.buying sheepLine offer.price)
      let canSell ← canSellAtMost accountB offer.selling wheatLine
      let amount := min (min canBuy canSell) offer.amount
      assert (amount ≥ 0)
      let offer := { offer with amount }
      let result ← ofExcept (exchange (← getHeader).ledgerVersion amount
        offer.price maxWheatReceived maxSheepSend)
      match result.type with
      | .reducedToZero =>
          return ⟨.offerCantConvert, result.numWheatReceived,
            result.numSheepSend⟩
      | .bogus =>
          settleCrossing offer accountB wheatLine sheepLine 0 0 true
      | .normal =>
          settleCrossing offer accountB wheatLine sheepLine
            result.numWheatReceived result.numSheepSend
            (amount ≤ result.numWheatReceived)

/-- The entry of the trail that a crossed offer leaves. -/
def Crossing.claim (crossing : Crossing) (offer : OfferEntry) :
    ClaimOfferAtom :=
  { sellerID := offer.sellerID, offerID := offer.offerID
    assetSold := offer.selling, amountSold := crossing.numWheatReceived
    assetBought := offer.buying, amountBought := crossing.numSheepSend }

/-! ## The order book -/

/-- The condition of the query: the type of an asset counts only for the
native one. -/
def Asset.matchesColumn (asset column : Asset) : Bool :=
  if asset = .native then
    column = .native
  else
    column ≠ .native && asset.codeStr = column.codeStr &&
      asset.getIssuer = column.getIssuer

section Book

-- The column `price`: the quotient as a floating point number.
variable (computePrice : Price → ℚ)

def OfferEntry.rank (offer : OfferEntry) : ℚ ×ₗ ℕ :=
  toLex (computePrice offer.price, offer.offerID)

/-- The offers that sell one asset for another, in the order of the query. -/
def orderBook (offers : Table ℕ OfferEntry) (selling buying : Asset) :
    List OfferEntry :=
  ((offers.rows.map Prod.snd).filter (fun offer =>
      selling.matchesColumn offer.selling &&
        buying.matchesColumn offer.buying)).insertionSort
    (fun first second => first.rank computePrice ≤ second.rank computePrice)

/-- `LIMIT` and `OFFSET` cut the page out of the book. -/
def loadBestOffers (numOffers offset : ℕ) (selling buying : Asset) :
    Ledger (List OfferEntry) := do
  let book := orderBook computePrice (← get).offers selling buying
  let page := (book.drop offset).take numOffers
  if page.all OfferEntry.isValid then
    return page
  else
    throw (.invalidEntry .offer)

inductive OfferFilterResult where
  | keep
  | stop
  | skip
  deriving DecidableEq

/-- `filterStop` names the offer at which the filter stopped: the filter of a
caller notes why it did. -/
inductive ConvertResult where
  | ok
  | partially
  | filterStop (offer : OfferEntry)
  deriving DecidableEq

/-- What `convertWithOffers` returns, with its arguments by reference and the
trail. -/
structure Conversion where
  result : ConvertResult
  sheepSend : ℤ
  wheatReceived : ℤ
  trail : List ClaimOfferAtom
  deriving DecidableEq

/-- The variables of the loop: the totals, what may still be exchanged, the
offset and the trail. -/
structure Progress where
  sheepSend : ℤ
  wheatReceived : ℤ
  maxSheepSend : ℤ
  maxWheatReceive : ℤ
  offerOffset : ℕ
  trail : List ClaimOfferAtom

def Progress.finish (progress : Progress) (result : ConvertResult) :
    Conversion :=
  ⟨result, progress.sheepSend, progress.wheatReceived, progress.trail⟩

def Progress.needMore (progress : Progress) : Bool :=
  progress.maxWheatReceive > 0 && progress.maxSheepSend > 0

/-- The totals after an offer was crossed. -/
def Progress.add (progress : Progress) (offer : OfferEntry)
    (crossing : Crossing) : Progress :=
  { sheepSend := progress.sheepSend + crossing.numSheepSend
    wheatReceived := progress.wheatReceived + crossing.numWheatReceived
    maxSheepSend := progress.maxSheepSend - crossing.numSheepSend
    maxWheatReceive := progress.maxWheatReceive - crossing.numWheatReceived
    offerOffset :=
      if crossing.result = .offerTaken then progress.offerOffset - 1
      else progress.offerOffset
    trail := progress.trail ++ [crossing.claim offer] }

/-- The body of the loop over a page: either the function returns, or the loop
goes on. -/
def convertPage (filter : OfferEntry → OfferFilterResult) :
    List OfferEntry → Progress → Ledger (Conversion ⊕ Progress)
  | [], progress => return .inr progress
  | offer :: page, progress =>
      match filter offer with
      | .stop => return .inl (progress.finish (.filterStop offer))
      | .skip => convertPage filter page progress
      | .keep => do
          let crossing ← crossOffer offer progress.maxWheatReceive
            progress.maxSheepSend
          assert (crossing.numSheepSend ≥ 0)
          assert (crossing.numSheepSend ≤ progress.maxSheepSend)
          assert (crossing.numWheatReceived ≥ 0)
          assert (crossing.numWheatReceived ≤ progress.maxWheatReceive)
          match crossing.result with
          | .offerCantConvert => return .inl (progress.finish .partially)
          | .offerTaken => do
              assert (progress.offerOffset > 0)
              let progress := progress.add offer crossing
              if progress.needMore then
                convertPage filter page progress
              else
                return .inl (progress.finish .ok)
          | .offerPartial =>
              let progress := progress.add offer crossing
              return .inl (progress.finish
                (if progress.needMore then .partially else .ok))

/-- The loop over the pages, as far as `turns` turns reach; without a result
they do not suffice. -/
def convertPages (sheep wheat : Asset)
    (filter : OfferEntry → OfferFilterResult) :
    ℕ → Progress → Ledger (Option Conversion)
  | 0, _ => return none
  | turns + 1, progress => do
      if progress.needMore then
        let retList ←
          loadBestOffers computePrice 5 progress.offerOffset wheat sheep
        match ← convertPage filter retList
          { progress with
            offerOffset := progress.offerOffset + retList.length } with
        | .inl conversion => return some conversion
        | .inr progress =>
            if progress.needMore && retList.length < 5 then
              return some (progress.finish .ok)
            else
              convertPages sheep wheat filter turns progress
      else
        return some (progress.finish .ok)

def Progress.start (maxSheepSend maxWheatReceive : ℤ) : Progress :=
  { sheepSend := 0, wheatReceived := 0, maxSheepSend, maxWheatReceive
    offerOffset := 0, trail := [] }

/-- There are turns for every offer of the ledger. -/
def convertWithOffers (sheep : Asset) (maxSheepSend : ℤ) (wheat : Asset)
    (maxWheatReceive : ℤ) (filter : OfferEntry → OfferFilterResult) :
    Ledger Conversion := do
  let turns := (← get).offers.rows.length + 1
  match ← convertPages computePrice sheep wheat filter turns
    (.start maxSheepSend maxWheatReceive) with
  | some conversion => return conversion
  | none => throw .assertion

end Book

end StellarCore.Transactions
