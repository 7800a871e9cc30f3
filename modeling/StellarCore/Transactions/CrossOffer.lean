import StellarCore.Transactions.Balances
import StellarCore.Transactions.BookWalk

/-!
# What crossing an offer does

On a valid ledger `crossOffer` does not fail, and what it reports is what has
moved.  The offer is stored before the balances of the seller are changed; the
one change that can still fail is a payment in the native asset.
-/

namespace StellarCore.Transactions

open StellarCore.Lib

/-! ## Storing what is left of an offer -/

section Settle

variable {ledger : LedgerState} {off : AccountID → ℤ}

/-- The offer is deleted, and its seller counts one entry less. -/
def LedgerState.takeOffer (ledger : LedgerState) (offer : OfferEntry)
    (seller : AccountEntry) : LedgerState :=
  (ledger.dropOffer offer.offerID).putAccount
    { seller with numSubEntries := seller.numSubEntries - 1 }

theorem LedgerState.Valid.numSubEntries_pos (valid : ledger.Valid)
    {offer : OfferEntry} {seller : AccountEntry} {offerID : ℕ}
    (found : ledger.offers.find? offerID = some offer)
    (account : ledger.accounts.find? offer.sellerID = some seller) :
    0 < seller.numSubEntries := by
  have counted := valid.counted.found account
  have less := ledger.owned_dropOffer found offer.sellerID
  have nonneg := (ledger.dropOffer offerID).owned_nonneg offer.sellerID
  rw [if_pos rfl] at less
  omega

theorem AccountEntry.addNumEntries_pred {a : AccountEntry}
    (valid : a.isValid = true) (some : 0 < a.numSubEntries) :
    a.addNumEntries (-1) ledger =
      .ok (Option.some { a with numSubEntries := a.numSubEntries - 1 })
        ledger := by
  have small := (AccountEntry.isValid_iff.mp valid).numSubEntries
  unfold int32Max at small
  have counted : ((a.numSubEntries : ℤ) + -1).bmod (2 ^ 32) =
      (a.numSubEntries - 1 : ℕ) := by
    rw [Int.bmod_eq_of_le (by omega) (by omega)]
    omega
  apply Ends.eq_ok
  unfold AccountEntry.addNumEntries
  simp only [Ends.bind_iff, getHeader_ends, counted, Ends.ite_iff,
    Ends.throw_iff, Ends.pure_iff, Int.toNat_natCast]
  refine ⟨fun negative => absurd negative (by omega), fun _ => ⟨?_, ?_⟩⟩
  · intro low
    simp at low
  · exact fun _ => ⟨trivial, trivial⟩

theorem AccountEntry.isValid_count {a : AccountEntry} {numSubEntries : ℕ}
    (valid : a.isValid = true) (small : numSubEntries ≤ int32Max) :
    { a with numSubEntries }.isValid = true := by
  rw [AccountEntry.isValid_iff] at valid ⊢
  exact { valid with numSubEntries := small }

theorem LedgerState.Valid.takeOffer (valid : ledger.Valid)
    {offer row : OfferEntry} {seller : AccountEntry}
    (found : ledger.offers.find? offer.offerID = some row)
    (same : row.sellerID = offer.sellerID)
    (account : ledger.accounts.find? offer.sellerID = some seller) :
    (ledger.takeOffer offer seller).Valid := by
  have stored := valid.accounts.found account
  have counted := valid.counted.found account
  have positive := valid.numSubEntries_pos found (same ▸ account)
  have small := (AccountEntry.isValid_iff.mp stored.valid).numSubEntries
  have less := ledger.owned_dropOffer found offer.sellerID
  rw [if_pos same] at less
  refine (valid.dropOffer found).putAccount
    (AccountEntry.isValid_count stored.valid (by omega)) stored.most ?_ ?_
  · intro id other
    have different : row.sellerID ≠ id := by
      rw [same, ← stored.keyed]
      exact Ne.symm other
    rw [if_neg different]
    rfl
  · simp only [stored.keyed, less]
    omega

variable {offer : OfferEntry} {seller : AccountEntry}

theorem LedgerState.Valid.storeCrossed_taken (valid : ledger.Valid)
    {row : OfferEntry}
    (found : ledger.offers.find? offer.offerID = some row)
    (same : row.sellerID = offer.sellerID)
    (account : ledger.accounts.find? offer.sellerID = some seller)
    (wheat : ℤ) :
    ∃ after, storeCrossed offer seller wheat true ledger =
        .ok after (ledger.takeOffer offer seller) ∧
      (ledger.takeOffer offer seller).accounts.find? offer.sellerID =
        some after := by
  have stored := valid.accounts.found account
  have small := (AccountEntry.isValid_iff.mp stored.valid).numSubEntries
  have positive := valid.numSubEntries_pos found (same ▸ account)
  have storable : { seller with
      numSubEntries := seller.numSubEntries - 1 }.isValid = true :=
    AccountEntry.isValid_count stored.valid (by omega)
  have present : ledger.accounts.contains seller.accountID = true :=
    Table.contains_eq_true.mpr ⟨seller, stored.keyed.symm ▸ account⟩
  have deleted : storeDeleteOffer offer.offerID ledger =
      .ok ⟨⟩ (ledger.dropOffer offer.offerID) := rfl
  unfold storeCrossed
  rw [if_pos rfl, run_bind, deleted]
  simp only
  rw [run_bind, AccountEntry.addNumEntries_pred stored.valid positive]
  simp only [Option.getD_some]
  rw [(valid.dropOffer found).storeChangeAccount storable present]
  refine ⟨_, rfl, ?_⟩
  have found' : (ledger.dropOffer offer.offerID).accounts.find?
      offer.sellerID = some seller := account
  simp [LedgerState.takeOffer, LedgerState.putAccount, stored.keyed, found']

theorem LedgerState.Valid.storeCrossed_left (valid : ledger.Valid)
    {row : OfferEntry} {wheat : ℤ}
    (found : ledger.offers.find? offer.offerID = some row)
    (storable : { offer with
      amount := offer.amount - wheat
      lastModified := ledger.header.ledgerSeq }.isValid = true) :
    storeCrossed offer seller wheat false ledger =
      .ok seller
        (ledger.putOffer { offer with amount := offer.amount - wheat }) := by
  let left : OfferEntry := { offer with amount := offer.amount - wheat }
  have present : ledger.offers.contains left.offerID = true :=
    Table.contains_eq_true.mpr ⟨row, found⟩
  have stored := valid.storeChangeOffer storable present
  unfold storeCrossed
  rw [if_neg Bool.false_ne_true, run_bind, stored]
  rfl

/-- Both balances are changed where both can be. -/
theorem settleCrossing_paid {after : AccountEntry} {middle : LedgerState}
    {wheat sheep : ℤ} {taken : Bool}
    (stored : storeCrossed offer seller wheat taken ledger =
      .ok after middle)
    (valid : middle.Valid)
    (account : middle.accounts.find? offer.sellerID = some after)
    (apart : offer.buying ≠ offer.selling)
    (canBuy : sheep ≠ 0 →
      middle.CanAdjust offer.sellerID offer.buying sheep)
    (canSell : -wheat ≠ 0 →
      middle.CanAdjust offer.sellerID offer.selling (-wheat)) :
    settleCrossing offer seller (middle.lineFor offer.sellerID offer.selling)
        (middle.lineFor offer.sellerID offer.buying) wheat sheep taken
        ledger =
      .ok ⟨if taken then .offerTaken else .offerPartial, wheat, sheep⟩
        ((middle.adjust offer.sellerID offer.buying sheep).adjust
          offer.sellerID offer.selling (-wheat)) := by
  obtain ⟨paid, first, account⟩ := valid.adjustBalance account canBuy
  have canSell' : -wheat ≠ 0 →
      (middle.adjust offer.sellerID offer.buying sheep).CanAdjust
        offer.sellerID offer.selling (-wheat) :=
    fun changes => valid.canAdjust_other apart (canSell changes)
  obtain ⟨_, second, _⟩ :=
    (valid.adjust canBuy).adjustBalance account canSell'
  rw [valid.lineFor_other apart] at second
  unfold settleCrossing
  rw [run_bind, stored]
  simp only
  rw [run_bind, first]
  simp only
  rw [run_bind, second]
  rfl

/-- A payment that does not fit is found out after the offer is stored. -/
theorem settleCrossing_unpaid {after : AccountEntry} {middle : LedgerState}
    {wheat sheep : ℤ} {taken : Bool} {wheatLine sheepLine : Option TrustFrame}
    (stored : storeCrossed offer seller wheat taken ledger =
      .ok after middle)
    (native : offer.buying = .native) (positive : 0 < sheep)
    (holds : 0 ≤ after.balance)
    (exceeds : int64Max < after.balance + sheep) :
    settleCrossing offer seller wheatLine sheepLine wheat sheep taken ledger =
      .ok ⟨.offerCantConvert, wheat, sheep⟩ middle := by
  have exceeded : ¬ (0 ≤ after.balance + sheep ∧
      after.balance + sheep ≤ int64Max) := by omega
  have failed : adjustBalance offer.buying after sheepLine sheep middle =
      .ok none middle := by
    unfold adjustBalance
    rw [if_neg positive.ne', if_pos native, run_bind,
      AccountEntry.addBalance_eq holds positive.ne', if_neg exceeded]
    rfl
  unfold settleCrossing
  rw [run_bind, stored]
  simp only
  rw [run_bind, failed]
  rfl

end Settle

/-! ## The amounts -/

section Amounts

variable {ledger : LedgerState} {offer : OfferEntry} {maxWheat maxSheep : ℤ}

/-- What `canBuyAtMost` finds. -/
def LedgerState.buyable (ledger : LedgerState) (offer : OfferEntry) : ℤ :=
  if offer.buying = .native then
    int64Max
  else
    (cutOff (offer.price.worth
      (ledger.receivable offer.sellerID offer.buying))).getD int64Max

/-- The amount of an offer that its seller can cover. -/
def LedgerState.forSale (ledger : LedgerState) (offer : OfferEntry) : ℤ :=
  min (min (ledger.buyable offer)
    (ledger.sendable offer.sellerID offer.selling)) offer.amount

/-- What is exchanged for a crossed offer. -/
def LedgerState.exchanged (ledger : LedgerState) (offer : OfferEntry)
    (maxWheat maxSheep : ℤ) : ExchangeResult :=
  exactExchange .roundUp (ledger.forSale offer) offer.price maxWheat maxSheep

theorem OfferStored.positive {offerID : ℕ}
    (stored : OfferStored offerID offer) : offer.price.Positive := by
  have valid := OfferEntry.isValid_iff.mp stored.valid
  exact ⟨⟨valid.n, stored.priceMost.1⟩, ⟨valid.d, stored.priceMost.2⟩⟩

theorem LedgerState.Valid.buyable_bounds (valid : ledger.Valid)
    (positive : offer.price.Positive) :
    0 ≤ ledger.buyable offer ∧ ledger.buyable offer ≤ int64Max := by
  have most : 0 ≤ int64Max := by decide
  have receivable := valid.receivable_bounds offer.sellerID offer.buying
  have worth := positive.worth_nonneg receivable.1
  unfold LedgerState.buyable cutOff
  split
  · exact ⟨most, le_refl _⟩
  · split
    · exact ⟨worth, by assumption⟩
    · exact ⟨most, le_refl _⟩

theorem LedgerState.buyable_le_worth (credit : offer.buying ≠ .native) :
    ledger.buyable offer ≤ offer.price.worth
      (ledger.receivable offer.sellerID offer.buying) := by
  rw [LedgerState.buyable, if_neg credit, cutOff]
  split
  case isTrue => exact le_refl _
  case isFalse more => exact (not_le.mp more).le

theorem LedgerState.Valid.canBuyAtMost_eq (valid : ledger.Valid)
    (positive : offer.price.Positive) :
    canBuyAtMost offer.buying (ledger.lineFor offer.sellerID offer.buying)
      offer.price = .ok (ledger.buyable offer) := by
  unfold canBuyAtMost LedgerState.buyable LedgerState.lineFor
  by_cases native : offer.buying = .native
  · rw [if_pos native, if_pos native]
    rfl
  · have receivable :=
      valid.receivable_bounds offer.sellerID offer.buying
    have divided := positive.bigDivide?_worth receivable
    rw [LedgerState.receivable, if_neg native] at divided ⊢
    rw [if_neg native, if_neg native, if_neg native]
    cases found : ledger.lineOf offer.sellerID offer.buying with
    | none =>
        rw [found] at divided
        simp only [divided]
        rfl
    | some frame =>
        rw [found] at divided
        simp only [divided]
        rfl

theorem LedgerState.Valid.canSellAtMost_eq (valid : ledger.Valid)
    {a : AccountEntry} {id : AccountID} {asset : Asset}
    (assetValid : asset.isAssetValid = true)
    (account : ledger.accounts.find? id = some a) :
    canSellAtMost a asset (ledger.lineFor id asset) ledger =
      .ok (ledger.sendable id asset) ledger := by
  unfold canSellAtMost LedgerState.sendable LedgerState.lineFor
  by_cases native : asset = .native
  · rw [if_pos native, if_pos native, account]
    rfl
  · rw [if_neg native, if_neg native, if_neg native]
    cases found : ledger.lineOf id asset with
    | none => rfl
    | some frame =>
        have storable := valid.lineOf_valid native assetValid found
        simp only [TrustFrame.getBalance, if_pos storable]
        split
        · rfl
        · rfl

theorem LedgerState.Valid.exchangeInput (valid : ledger.Valid)
    {offerID : ℕ} (stored : OfferStored offerID offer)
    (wheat : 0 < maxWheat ∧ maxWheat ≤ int64Max)
    (sheep : 0 < maxSheep ∧ maxSheep ≤ int64Max) :
    ExchangeInput (ledger.forSale offer) offer.price maxWheat maxSheep := by
  have buyable := valid.buyable_bounds stored.positive
  have sendable := valid.sendable_bounds offer.sellerID offer.selling
  have amount := (OfferEntry.isValid_iff.mp stored.valid).amount
  refine ⟨?_, stored.positive, wheat, sheep⟩
  unfold LedgerState.forSale
  omega

/-- The last part of `crossOffer`, with the amounts filled in. -/
def LedgerState.settle (ledger : LedgerState) (offer : OfferEntry)
    (a : AccountEntry) (exchanged : ExchangeResult) : Ledger Crossing :=
  let settle := settleCrossing
    { offer with amount := ledger.forSale offer } a
    (ledger.lineFor offer.sellerID offer.selling)
    (ledger.lineFor offer.sellerID offer.buying)
  match exchanged.type with
  | .reducedToZero =>
      pure ⟨.offerCantConvert, exchanged.numWheatReceived,
        exchanged.numSheepSend⟩
  | .bogus => settle 0 0 true
  | .normal =>
      settle exchanged.numWheatReceived exchanged.numSheepSend
        (ledger.forSale offer ≤ exchanged.numWheatReceived)

theorem LedgerState.Valid.crossOffer_eq (valid : ledger.Valid)
    {a : AccountEntry} {offerID : ℕ}
    (version : ledger.header.ledgerVersion = 9)
    (stored : OfferStored offerID offer)
    (account : ledger.accounts.find? offer.sellerID = some a)
    (wheat : 0 < maxWheat ∧ maxWheat ≤ int64Max)
    (sheep : 0 < maxSheep ∧ maxSheep ≤ int64Max) :
    crossOffer offer maxWheat maxSheep ledger =
      ledger.settle offer a (ledger.exchanged offer maxWheat maxSheep)
        ledger := by
  have input := valid.exchangeInput stored wheat sheep
  have entry := OfferEntry.isValid_iff.mp stored.valid
  have computed : exchange ledger.header.ledgerVersion (ledger.forSale offer)
      offer.price maxWheat maxSheep =
        .ok (ledger.exchanged offer maxWheat maxSheep) := by
    rw [exchange, version, if_neg (by decide), exchangeV3_eq input]
    rfl
  have header : getHeader ledger = .ok ledger.header ledger := rfl
  have bought : (ofExcept (canBuyAtMost offer.buying
      (ledger.lineFor offer.sellerID offer.buying) offer.price) :
        Ledger ℤ) ledger = .ok (ledger.buyable offer) ledger := by
    rw [valid.canBuyAtMost_eq stored.positive]
    rfl
  have exchanged : (ofExcept (exchange ledger.header.ledgerVersion
      (ledger.forSale offer) offer.price maxWheat maxSheep) :
        Ledger ExchangeResult) ledger =
          .ok (ledger.exchanged offer maxWheat maxSheep) ledger := by
    rw [computed]
    rfl
  unfold crossOffer
  rw [assert_true wheat.1, assert_true sheep.1]
  simp only [pure_bind]
  rw [run_bind, valid.loadAccount, account]
  simp only
  rw [run_bind, valid.loadLine]
  simp only
  rw [run_bind, valid.loadLine]
  simp only
  rw [run_bind, bought]
  simp only
  rw [run_bind, valid.canSellAtMost_eq entry.selling account]
  simp only
  have sold : min (min (ledger.buyable offer)
      (ledger.sendable offer.sellerID offer.selling)) offer.amount =
        ledger.forSale offer := rfl
  have nonneg : ledger.forSale offer ≥ 0 := input.wheat.1
  rw [sold, assert_true nonneg, pure_bind, run_bind, header]
  simp only
  rw [run_bind, exchanged]
  rfl

end Amounts

/-! ## The outcome -/

section Outcome

variable {ledger : LedgerState} {offer : OfferEntry} {a : AccountEntry}
  {maxWheat maxSheep : ℤ}

/-- The ledger in which the offer is stored and nothing is paid yet. -/
def LedgerState.settleOffer (ledger : LedgerState) (offer : OfferEntry)
    (a : AccountEntry) (wheat : ℤ) (taken : Bool) : LedgerState :=
  if taken then
    ledger.takeOffer offer a
  else
    ledger.putOffer { offer with amount := ledger.forSale offer - wheat }

/-- What an offer that is crossed in part is stored as. -/
def LedgerState.leftOver (ledger : LedgerState) (offer : OfferEntry)
    (wheat : ℤ) : OfferEntry :=
  { offer with
    amount := ledger.forSale offer - wheat
    lastModified := ledger.header.ledgerSeq }

/-- What storing the offer does to the rest of the ledger. -/
structure OfferSettled (offer : OfferEntry) (a : AccountEntry) (taken : Bool)
    (before middle : LedgerState) : Prop where
  valid : middle.Valid
  seller : ∃ a', middle.accounts.find? offer.sellerID = some a' ∧
    a'.balance = a.balance ∧
    a'.numSubEntries + (if taken then 1 else 0) = a.numSubEntries
  moved : Moved [⟨offer.sellerID, .native, 0⟩] before middle
  lines : middle.trustLines = before.trustLines

theorem LedgerState.Valid.takeOffer_settled (valid : ledger.Valid)
    (found : ledger.offers.find? offer.offerID = some offer)
    (account : ledger.accounts.find? offer.sellerID = some a) :
    OfferSettled offer a true ledger (ledger.takeOffer offer a) := by
  have stored := valid.accounts.found account
  have positive := valid.numSubEntries_pos found account
  let counted : AccountEntry :=
    { a with numSubEntries := a.numSubEntries - 1 }
  have keyed : counted.accountID = offer.sellerID := stored.keyed
  have account' : (ledger.dropOffer offer.offerID).accounts.find?
      counted.accountID = some a := keyed.symm ▸ account
  refine ⟨valid.takeOffer found rfl account, ?_, ?_, rfl⟩
  · have found' := LedgerState.find?_putAccount account'
    rw [keyed] at found'
    exact ⟨_, found', rfl, Nat.sub_add_cancel positive⟩
  · have dropped : Moved [] ledger (ledger.dropOffer offer.offerID) :=
      .of_eq rfl rfl rfl rfl
    have put : Moved [⟨counted.accountID, .native, 0⟩]
        (ledger.dropOffer offer.offerID) (ledger.takeOffer offer a) :=
      moved_putAccount account' (add_zero _).symm rfl
    rw [keyed] at put
    exact dropped.append put

/-- What is left is a valid offer. -/
theorem LedgerState.Valid.leftOver_stored (valid : ledger.Valid)
    {wheat : ℤ}
    (found : ledger.offers.find? offer.offerID = some offer)
    (nonneg : 0 ≤ wheat) (more : wheat < ledger.forSale offer) :
    OfferStored offer.offerID (ledger.leftOver offer wheat) := by
  have stored := valid.offers.found found
  have most : ledger.forSale offer ≤ offer.amount := min_le_right _ _
  have amount := stored.most
  refine ⟨rfl, ?_, ?_, stored.priceMost, stored.apart⟩
  · rw [OfferEntry.isValid_iff]
    have entry := OfferEntry.isValid_iff.mp stored.valid
    have positive : 0 < (ledger.leftOver offer wheat).amount := by
      simp only [LedgerState.leftOver]
      omega
    exact { entry with lastModified := valid.sequence, amount := positive }
  · simp only [LedgerState.leftOver]
    omega

theorem LedgerState.Valid.putOffer_settled (valid : ledger.Valid)
    {wheat : ℤ}
    (found : ledger.offers.find? offer.offerID = some offer)
    (account : ledger.accounts.find? offer.sellerID = some a)
    (nonneg : 0 ≤ wheat) (more : wheat < ledger.forSale offer) :
    OfferSettled offer a false ledger (ledger.putOffer
      { offer with amount := ledger.forSale offer - wheat }) where
  valid := valid.putOffer found rfl
    (valid.leftOver_stored found nonneg more)
  seller := ⟨a, account, rfl, rfl⟩
  moved := by
    have same : Moved [] ledger (ledger.putOffer
        { offer with amount := ledger.forSale offer - wheat }) :=
      .of_eq rfl rfl rfl rfl
    exact same.append (.idle (Move.amountOf_zero _ _))
  lines := rfl

/-- Storing the offer succeeds, and leaves the frame that is stored. -/
theorem LedgerState.Valid.storeCrossed_eq (valid : ledger.Valid)
    {wheat : ℤ} {taken : Bool}
    (found : ledger.offers.find? offer.offerID = some offer)
    (account : ledger.accounts.find? offer.sellerID = some a)
    (nonneg : 0 ≤ wheat)
    (more : taken = false → wheat < ledger.forSale offer) :
    ∃ a', storeCrossed { offer with amount := ledger.forSale offer } a wheat
        taken ledger = .ok a' (ledger.settleOffer offer a wheat taken) ∧
      (ledger.settleOffer offer a wheat taken).accounts.find? offer.sellerID =
        some a' ∧
      OfferSettled offer a taken ledger
        (ledger.settleOffer offer a wheat taken) := by
  let asked : OfferEntry := { offer with amount := ledger.forSale offer }
  have row : ledger.offers.find? asked.offerID = some offer := found
  cases taken with
  | true =>
      obtain ⟨a', stored, account'⟩ :=
        valid.storeCrossed_taken row rfl account wheat
      exact ⟨a', stored, account', valid.takeOffer_settled found account⟩
  | false =>
      have left := valid.leftOver_stored found nonneg (more rfl)
      exact ⟨a, valid.storeCrossed_left row left.valid,
        account, valid.putOffer_settled found account nonneg (more rfl)⟩

/-- The moves that a crossing reports. -/
def Crossing.moves (crossing : Crossing) (offer : OfferEntry) : List Move :=
  [⟨offer.sellerID, offer.buying, crossing.numSheepSend⟩,
    ⟨offer.sellerID, offer.selling, -crossing.numWheatReceived⟩]

/-- An offer has been crossed, and what is reported has moved. -/
structure Crossed (offer : OfferEntry) (before : LedgerState)
    (crossing : Crossing) (after : LedgerState) : Prop where
  amounts : (crossing.numWheatReceived = 0 ∧ crossing.numSheepSend = 0) ∨
    (0 < crossing.numWheatReceived ∧ 0 < crossing.numSheepSend)
  wheat : after.holding offer.sellerID offer.selling =
    before.holding offer.sellerID offer.selling -
      if offer.selling.isIssuedBy offer.sellerID then 0
      else crossing.numWheatReceived
  sheep : after.holding offer.sellerID offer.buying =
    before.holding offer.sellerID offer.buying +
      if offer.buying.isIssuedBy offer.sellerID then 0
      else crossing.numSheepSend
  moved : Moved (crossing.moves offer) before after
  limits : ∀ asset line,
    after.trustLines.find? (offer.sellerID, asset) = some line →
      0 ≤ line.balance ∧ line.balance ≤ line.limit
  counted : ∀ a a', before.accounts.find? offer.sellerID = some a →
    after.accounts.find? offer.sellerID = some a' →
      a'.numSubEntries +
          (if crossing.result = .offerTaken then 1 else 0) =
        a.numSubEntries
  taken : crossing.result = .offerTaken →
    after.offers = before.offers.erase offer.offerID
  left : crossing.result = .offerPartial →
    ∃ amount, 0 < amount ∧ amount < offer.amount ∧
      after.offers = before.offers.update offer.offerID
        { offer with amount, lastModified := before.header.ledgerSeq }

/-- A seller that has paid in the native asset has the reserve of the
sub-entries left to it. -/
def KeepsReserve (offer : OfferEntry) (crossing : Crossing)
    (after : LedgerState) : Prop :=
  offer.selling = .native → 0 < crossing.numWheatReceived →
    ∀ a, after.accounts.find? offer.sellerID = some a →
      (exactReserve after.header a.numSubEntries : ℤ) ≤ a.balance

/-- What is to hold of every crossing: nothing has changed if the offer could
not be converted. -/
structure CrossedExactly (offer : OfferEntry) (before : LedgerState)
    (crossing : Crossing) (after : LedgerState) : Prop where
  valid : after.Valid
  crossed : crossing.result ≠ .offerCantConvert →
    Crossed offer before crossing after
  reserve : crossing.result ≠ .offerCantConvert →
    KeepsReserve offer crossing after
  cantConvert : crossing.result = .offerCantConvert → after = before

/-- The payment for the offer fits on the balance of its seller, where it is
made in the native asset: the buyer may not spend more than that, the offer
does not cost more, or what the buyer may spend buys nothing. -/
def PaymentFits (ledger : LedgerState) (offer : OfferEntry)
    (maxWheat maxSheep : ℤ) : Prop :=
  offer.buying = .native →
    let room := int64Max - ledger.holding offer.sellerID .native
    let most := min (min (ledger.sendable offer.sellerID offer.selling)
      offer.amount) maxWheat
    maxSheep ≤ room ∨ most * offer.price.n ≤ room * offer.price.d ∨
      maxSheep * offer.price.d < offer.price.n

/-- The buyer gets no more than `amount`: it asks for no more, the seller
cannot cover more, or what the buyer may spend buys no more. -/
def SellsAtMost (ledger : LedgerState) (offer : OfferEntry)
    (maxWheat maxSheep amount : ℤ) : Prop :=
  min (ledger.forSale offer) maxWheat ≤ amount ∨
    maxSheep * offer.price.d < (amount + 1) * offer.price.n

/-- A seller that pays in the native asset can spare what the buyer gets:
nothing, no more than it has above its reserve, or the whole offer, where it
has that much above the reserve with one sub-entry less. -/
def ReserveFits (ledger : LedgerState) (offer : OfferEntry)
    (maxWheat maxSheep : ℤ) : Prop :=
  offer.selling = .native →
    ∀ a, ledger.accounts.find? offer.sellerID = some a →
      let spare (n : ℕ) : ℤ := a.balance - exactReserve ledger.header n
      SellsAtMost ledger offer maxWheat maxSheep 0 ∨
        SellsAtMost ledger offer maxWheat maxSheep (spare a.numSubEntries) ∨
        (¬ SellsAtMost ledger offer maxWheat maxSheep
            (ledger.forSale offer - 1) ∧
          ledger.forSale offer ≤ spare (a.numSubEntries - 1))

theorem Crossing.sumFor_selling {crossing : Crossing}
    (apart : offer.buying ≠ offer.selling) :
    sumFor (crossing.moves offer) offer.sellerID offer.selling =
      -(if offer.selling.isIssuedBy offer.sellerID then 0
        else crossing.numWheatReceived) := by
  simp only [Crossing.moves, sumFor_cons, sumFor_nil, Move.amountFor,
    Move.amountOf, apart, false_and, ↓reduceIte, true_and]
  cases offer.selling.isIssuedBy offer.sellerID with
  | false => simp
  | true => simp

theorem Crossing.sumFor_buying {crossing : Crossing}
    (apart : offer.buying ≠ offer.selling) :
    sumFor (crossing.moves offer) offer.sellerID offer.buying =
      if offer.buying.isIssuedBy offer.sellerID then 0
      else crossing.numSheepSend := by
  simp only [Crossing.moves, sumFor_cons, sumFor_nil, Move.amountFor,
    Move.amountOf, Ne.symm apart, false_and, ↓reduceIte, true_and]
  cases offer.buying.isIssuedBy offer.sellerID with
  | false => simp
  | true => simp

@[simp] theorem LedgerState.adjust_offers {id : AccountID} {asset : Asset}
    {delta : ℤ} : (ledger.adjust id asset delta).offers = ledger.offers := by
  unfold LedgerState.adjust LedgerState.credit
  split
  · rfl
  · split
    · split
      · rfl
      · rfl
    · split
      · rfl
      · rfl

@[simp] theorem LedgerState.adjust_header {id : AccountID} {asset : Asset}
    {delta : ℤ} : (ledger.adjust id asset delta).header = ledger.header := by
  unfold LedgerState.adjust LedgerState.credit
  split
  · rfl
  · split
    · split
      · rfl
      · rfl
    · split
      · rfl
      · rfl

/-- A change of a balance leaves the count of sub-entries. -/
theorem LedgerState.ValidUpTo.adjust_counted {off : AccountID → ℤ}
    (valid : ledger.ValidUpTo off) {id : AccountID} {asset : Asset}
    {delta : ℤ} {a' : AccountEntry}
    (account : ledger.accounts.find? id = some a)
    (found : (ledger.adjust id asset delta).accounts.find? id = some a') :
    a'.numSubEntries = a.numSubEntries := by
  unfold LedgerState.adjust at found
  by_cases zero : delta = 0
  · rw [if_pos zero, account, Option.some_inj] at found
    rw [found]
  · rw [if_neg zero] at found
    by_cases native : asset = .native
    · have keyed := (valid.accounts.found account).keyed
      rw [LedgerState.credit, if_pos native, account] at found
      simp only [LedgerState.putAccount, keyed, Table.find?_update, account,
        ↓reduceIte, Option.map_some, Option.some_inj] at found
      rw [← found]
    · rw [LedgerState.credit_accounts native, account,
        Option.some_inj] at found
      rw [found]

/-- The two balances are changed after the offer is stored. -/
def LedgerState.pay (middle : LedgerState) (offer : OfferEntry)
    (wheat sheep : ℤ) : LedgerState :=
  (middle.adjust offer.sellerID offer.buying sheep).adjust offer.sellerID
    offer.selling (-wheat)

/-- What allows the two balances to be changed. -/
structure Payable (offer : OfferEntry) (wheat sheep : ℤ)
    (middle : LedgerState) : Prop where
  apart : offer.buying ≠ offer.selling
  canBuy : sheep ≠ 0 → middle.CanAdjust offer.sellerID offer.buying sheep
  canSell : -wheat ≠ 0 →
    middle.CanAdjust offer.sellerID offer.selling (-wheat)

theorem Payable.canSell_after {wheat sheep : ℤ} {middle : LedgerState}
    (payable : Payable offer wheat sheep middle) (valid : middle.Valid) :
    -wheat ≠ 0 →
      (middle.adjust offer.sellerID offer.buying sheep).CanAdjust
        offer.sellerID offer.selling (-wheat) :=
  fun changes => valid.canAdjust_other payable.apart (payable.canSell changes)

theorem Payable.pay_valid {wheat sheep : ℤ} {middle : LedgerState}
    (payable : Payable offer wheat sheep middle) (valid : middle.Valid) :
    (middle.pay offer wheat sheep).Valid :=
  (valid.adjust payable.canBuy).adjust (payable.canSell_after valid)

theorem Payable.pay_moved {wheat sheep : ℤ} {middle : LedgerState}
    (payable : Payable offer wheat sheep middle) (valid : middle.Valid) :
    Moved [⟨offer.sellerID, offer.buying, sheep⟩,
      ⟨offer.sellerID, offer.selling, -wheat⟩] middle
        (middle.pay offer wheat sheep) :=
  (valid.moved_adjust payable.canBuy).append
    ((valid.adjust payable.canBuy).moved_adjust
      (payable.canSell_after valid))

theorem Payable.crossed {wheat sheep : ℤ} {taken : Bool}
    {middle : LedgerState} {crossing : Crossing}
    (payable : Payable offer wheat sheep middle)
    (settled : OfferSettled offer a taken ledger middle)
    (account : ledger.accounts.find? offer.sellerID = some a)
    (reported : crossing =
      ⟨if taken then .offerTaken else .offerPartial, wheat, sheep⟩)
    (amounts : (wheat = 0 ∧ sheep = 0) ∨ (0 < wheat ∧ 0 < sheep))
    (erased : taken = true →
      middle.offers = ledger.offers.erase offer.offerID)
    (left : taken = false →
      ∃ amount, 0 < amount ∧ amount < offer.amount ∧
        middle.offers = ledger.offers.update offer.offerID
          { offer with amount, lastModified := ledger.header.ledgerSeq }) :
    Crossed offer ledger crossing (middle.pay offer wheat sheep) := by
  subst reported
  have valid := settled.valid
  have after := payable.pay_valid valid
  have moved : Moved (Crossing.moves ⟨if taken then .offerTaken
      else .offerPartial, wheat, sheep⟩ offer) ledger
      (middle.pay offer wheat sheep) := by
    refine (settled.moved.append (payable.pay_moved valid)).of_sums ?_ ?_ ?_
    · intro move member
      refine ⟨_, List.mem_cons_self, ?_⟩
      simp only [List.singleton_append, List.mem_cons, List.not_mem_nil,
        or_false] at member
      obtain rfl | rfl | rfl := member
      · rfl
      · rfl
      · rfl
    · intro id asset
      simp [Crossing.moves, Move.amountFor, Move.amountOf_zero]
    · intro asset
      simp [Crossing.moves, Move.amountOf_zero]
  have wheatAfter := moved.holding offer.sellerID offer.selling
  rw [Crossing.sumFor_selling payable.apart, ← sub_eq_add_neg] at wheatAfter
  have sheepAfter := moved.holding offer.sellerID offer.buying
  rw [Crossing.sumFor_buying payable.apart] at sheepAfter
  refine ⟨amounts, wheatAfter, sheepAfter, moved, ?_, ?_, ?_, ?_⟩
  · intro asset line found
    have stored := TrustLineEntry.isValid_iff.mp
      (after.trustLines.found found).valid
    exact ⟨stored.balance, stored.within⟩
  · intro before last same found
    rw [account, Option.some_inj] at same
    subst same
    obtain ⟨kept, stored, _, counted⟩ := settled.seller
    have present : (middle.adjust offer.sellerID offer.buying
        sheep).accounts.contains offer.sellerID = true := by
      rw [(valid.moved_adjust payable.canBuy).present]
      exact Table.contains_eq_true.mpr ⟨kept, stored⟩
    obtain ⟨paid, between⟩ := Table.contains_eq_true.mp present
    have first := valid.adjust_counted stored between
    have second :=
      (valid.adjust payable.canBuy).adjust_counted between found
    rw [second, first]
    cases taken with
    | true => exact counted
    | false => exact counted
  · intro isTaken
    cases taken with
    | false => cases isTaken
    | true =>
        simp only [LedgerState.pay, LedgerState.adjust_offers]
        exact erased rfl
  · intro isPartial
    cases taken with
    | true => cases isPartial
    | false =>
        simp only [LedgerState.pay, LedgerState.adjust_offers]
        exact left rfl

/-- An exchange in which something changes hands. -/
structure Trade (ledger : LedgerState) (offer : OfferEntry)
    (maxWheat maxSheep wheat sheep : ℤ) : Prop where
  positive : 0 < wheat ∧ 0 < sheep
  within : wheat ≤ maxWheat ∧ sheep ≤ maxSheep
  forSale : wheat ≤ ledger.forSale offer
  receivable : offer.buying ≠ .native →
    sheep ≤ ledger.receivable offer.sellerID offer.buying

theorem ExchangeResult.type_normal_iff {result : ExchangeResult} :
    result.type = .normal ↔
      result.numWheatReceived ≠ 0 ∧ result.numSheepSend ≠ 0 := by
  unfold ExchangeResult.type
  split
  case isTrue both => exact ⟨fun _ => both, fun _ => rfl⟩
  case isFalse other =>
      split
      · exact ⟨(by intro impossible; cases impossible),
          fun both => absurd both other⟩
      · exact ⟨(by intro impossible; cases impossible),
          fun both => absurd both other⟩

/-- What the seller is paid for what it can sell does not exceed what it can
receive. -/
theorem LedgerState.Valid.trade (valid : ledger.Valid) {offerID : ℕ}
    (stored : OfferStored offerID offer)
    (wheat : 0 < maxWheat ∧ maxWheat ≤ int64Max)
    (sheep : 0 < maxSheep ∧ maxSheep ≤ int64Max)
    (normal : (ledger.exchanged offer maxWheat maxSheep).type = .normal) :
    Trade ledger offer maxWheat maxSheep
      (ledger.exchanged offer maxWheat maxSheep).numWheatReceived
      (ledger.exchanged offer maxWheat maxSheep).numSheepSend := by
  have input := valid.exchangeInput stored wheat sheep
  obtain ⟨received, sent, _⟩ := exactExchange_fair .roundUp input
  obtain ⟨someWheat, someSheep⟩ :=
    ExchangeResult.type_normal_iff.mp normal
  unfold LedgerState.exchanged at someWheat someSheep ⊢
  refine ⟨by omega, by omega, by omega, ?_⟩
  intro credit
  have within : min (ledger.forSale offer) maxWheat ≤ offer.price.worth
      (ledger.receivable offer.sellerID offer.buying) := by
    have most : ledger.buyable offer ≤ offer.price.worth
        (ledger.receivable offer.sellerID offer.buying) :=
      LedgerState.buyable_le_worth credit
    have sale : ledger.forSale offer ≤ ledger.buyable offer :=
      (min_le_left _ _).trans (min_le_left _ _)
    omega
  have cost : offer.price.cost .roundUp (min (ledger.forSale offer) maxWheat) ≤
      ledger.receivable offer.sellerID offer.buying :=
    (divide_roundUp_le_iff stored.positive.d.1).mpr
      (stored.positive.le_worth_iff.mp within)
  exact (min_le_left _ _).trans cost

theorem Trade.sendable {wheat sheep : ℤ}
    (trade : Trade ledger offer maxWheat maxSheep wheat sheep) :
    wheat ≤ ledger.sendable offer.sellerID offer.selling := by
  have sale := trade.forSale
  unfold LedgerState.forSale at sale
  omega

theorem Trade.payable {wheat sheep : ℤ} {taken : Bool} {middle : LedgerState}
    {offerID : ℕ}
    (trade : Trade ledger offer maxWheat maxSheep wheat sheep)
    (valid : ledger.Valid) (stored : OfferStored offerID offer)
    (account : ledger.accounts.find? offer.sellerID = some a)
    (settled : OfferSettled offer a taken ledger middle)
    (fits : offer.buying = .native → a.balance + sheep ≤ int64Max) :
    Payable offer wheat sheep middle := by
  have entry := OfferEntry.isValid_iff.mp stored.valid
  obtain ⟨a', account', balance, _⟩ := settled.seller
  have kept : ∀ other, ledger.accounts.find? offer.sellerID = some other →
      ∃ a', middle.accounts.find? offer.sellerID = some a' ∧
        a'.balance = other.balance := by
    intro other same
    rw [account, Option.some_inj] at same
    subst same
    exact ⟨a', account', balance⟩
  have positive := trade.positive
  refine ⟨Ne.symm stored.apart, ?_, ?_⟩
  · intro _
    by_cases native : offer.buying = .native
    · have nonneg := (AccountEntry.isValid_iff.mp
        (valid.accounts.found account).valid).balance
      have limit := fits native
      rw [native]
      exact .native account' (by omega)
    · refine (valid.canReceive native entry.buying positive.2
        (trade.receivable native)).of_same (fun _ => kept) ?_
      rw [settled.lines]
  · intro _
    refine (valid.canSend entry.selling positive.1 trade.sendable).of_same
      (fun _ => kept) ?_
    rw [settled.lines]

/-- When more than `room` is paid for something. -/
theorem Price.Positive.exceeds_iff {price : Price} {wheat room : ℤ}
    (positive : price.Positive) (nonneg : 0 ≤ wheat) (empty : 0 ≤ room) :
    (min wheat (price.worth (min (price.cost .roundUp wheat) maxSheep)) ≠ 0 ∧
        room < min (price.cost .roundUp wheat) maxSheep) ↔
      room < maxSheep ∧ room * price.d < wheat * price.n ∧
        price.n ≤ maxSheep * price.d := by
  have dearer : room < min (price.cost .roundUp wheat) maxSheep ↔
      room * price.d < wheat * price.n ∧ room < maxSheep := by
    rw [lt_min_iff, positive.lt_cost_iff]
  have n := positive.n.1
  have d := positive.d.1
  have buys : ∀ sheep, 1 ≤ price.worth sheep ↔
      price.n ≤ sheep * price.d := by
    intro sheep
    rw [positive.le_worth_iff, one_mul]
  constructor
  · rintro ⟨received, exceeds⟩
    obtain ⟨dear, spends⟩ := dearer.mp exceeds
    have paid := positive.worth_nonneg (empty.trans exceeds.le)
    have least : 1 ≤ price.worth
        (min (price.cost .roundUp wheat) maxSheep) := by omega
    refine ⟨spends, dear, ((buys _).mp least).trans ?_⟩
    exact mul_le_mul_of_nonneg_right (min_le_right _ _) d.le
  · rintro ⟨spends, dear, affords⟩
    have exceeds := dearer.mpr ⟨dear, spends⟩
    have some : 0 < wheat * price.n :=
      (mul_nonneg empty d.le).trans_lt dear
    have wheatSome : 0 < wheat := pos_of_mul_pos_left some n.le
    have least : 1 ≤ price.worth
        (min (price.cost .roundUp wheat) maxSheep) := by
      rw [buys]
      obtain cheap | capped := le_total (price.cost .roundUp wheat) maxSheep
      · rw [min_eq_left cheap]
        have covered : wheat * price.n ≤
            price.cost .roundUp wheat * price.d :=
          (divide_roundUp_le_iff d).mp (le_refl _)
        exact (le_mul_of_one_le_left n.le wheatSome).trans covered
      · rw [min_eq_right capped]
        exact affords
    exact ⟨by omega, exceeds⟩

/-- Exactly where the payment does not fit is it made and fails. -/
theorem LedgerState.Valid.not_paymentFits_iff (valid : ledger.Valid)
    {offerID : ℕ} (stored : OfferStored offerID offer)
    (account : ledger.accounts.find? offer.sellerID = some a)
    (wheat : 0 < maxWheat ∧ maxWheat ≤ int64Max)
    (sheep : 0 < maxSheep ∧ maxSheep ≤ int64Max) :
    ¬ PaymentFits ledger offer maxWheat maxSheep ↔
      offer.buying = .native ∧
        (ledger.exchanged offer maxWheat maxSheep).type = .normal ∧
        int64Max < a.balance +
          (ledger.exchanged offer maxWheat maxSheep).numSheepSend := by
  have balance : ledger.holding offer.sellerID .native = a.balance := by
    simp [LedgerState.holding, account]
  have most := (valid.accounts.found account).most
  unfold PaymentFits
  rw [Classical.not_imp]
  refine and_congr_right (fun native => ?_)
  have sendable := valid.sendable_bounds offer.sellerID offer.selling
  have sale : ledger.forSale offer =
      min (ledger.sendable offer.sellerID offer.selling) offer.amount := by
    rw [LedgerState.forSale, LedgerState.buyable, if_pos native,
      min_eq_right sendable.2]
  have nonneg := (valid.exchangeInput stored wheat sheep).most.1
  have positive := stored.positive
  simp only [balance, ← sale, ExchangeResult.type_normal_iff]
  unfold LedgerState.exchanged exactExchange
  simp only
  generalize min (ledger.forSale offer) maxWheat = wheat at nonneg ⊢
  push Not
  rw [← positive.exceeds_iff nonneg (sub_nonneg.mpr most)]
  constructor
  · rintro ⟨received, exceeds⟩
    exact ⟨⟨received, by omega⟩, by omega⟩
  · rintro ⟨⟨received, _⟩, exceeds⟩
    exact ⟨received, by omega⟩

/-! ### The reserve -/

/-- How much of the offer is sold. -/
theorem ExchangeInput.received_le_iff
    (input : ExchangeInput (ledger.forSale offer) offer.price maxWheat
      maxSheep) {amount : ℤ} :
    (ledger.exchanged offer maxWheat maxSheep).numWheatReceived ≤ amount ↔
      SellsAtMost ledger offer maxWheat maxSheep amount := by
  have positive := input.price
  unfold SellsAtMost LedgerState.exchanged exactExchange
  simp only
  generalize min (ledger.forSale offer) maxWheat = most
  have covered : most ≤
      offer.price.worth (offer.price.cost .roundUp most) :=
    positive.le_worth_iff.mpr
      ((divide_roundUp_le_iff positive.d.1).mp (le_refl _))
  have bought : ∀ sheep, offer.price.worth sheep ≤ amount ↔
      sheep * offer.price.d < (amount + 1) * offer.price.n := by
    intro sheep
    rw [← Int.lt_add_one_iff, ← not_le, positive.le_worth_iff, not_le]
  rw [← bought, min_le_iff]
  obtain whole | cut :=
    le_total (offer.price.cost .roundUp most) maxSheep
  · have more : offer.price.worth (offer.price.cost .roundUp most) ≤
        offer.price.worth maxSheep :=
      Int.ediv_le_ediv positive.n.1
        (mul_le_mul_of_nonneg_right whole positive.d.1.le)
    rw [min_eq_left whole]
    omega
  · rw [min_eq_right cut]

/-- What is received is no more than what is for sale. -/
theorem LedgerState.received_le_forSale :
    (ledger.exchanged offer maxWheat maxSheep).numWheatReceived ≤
      ledger.forSale offer :=
  (min_le_left _ _).trans (min_le_left _ _)

/-- Where the reserve of the seller fits into 32 bits it is kept. -/
theorem ReserveFits.of_exact
    (account : ledger.accounts.find? offer.sellerID = some a)
    (exact32 : (2 + a.numSubEntries) * ledger.header.baseReserve < 2 ^ 32) :
    ReserveFits ledger offer maxWheat maxSheep := by
  rintro native other same
  rw [account, Option.some_inj] at same
  subst same
  have sale : ledger.forSale offer ≤
      ledger.sendable offer.sellerID offer.selling :=
    (min_le_left _ _).trans (min_le_right _ _)
  have minimum : ledger.header.getMinBalance a.numSubEntries =
      exactReserve ledger.header a.numSubEntries :=
    getMinBalance_eq_iff.mpr exact32
  rw [LedgerState.sendable, if_pos native, account] at sale
  simp only [AccountEntry.getBalanceAboveReserve, minimum] at sale
  obtain none | some := le_total
    (a.balance - exactReserve ledger.header a.numSubEntries) 0
  · rw [max_eq_left none] at sale
    exact .inl (.inl ((min_le_left _ _).trans sale))
  · rw [max_eq_right some] at sale
    exact .inr (.inl (.inl ((min_le_left _ _).trans sale)))

/-- A buyer that gets nothing takes nothing from the reserve. -/
theorem ReserveFits.of_not_normal
    (input : ExchangeInput (ledger.forSale offer) offer.price maxWheat
      maxSheep)
    (other : (ledger.exchanged offer maxWheat maxSheep).type ≠ .normal) :
    (ledger.exchanged offer maxWheat maxSheep).numWheatReceived ≤ 0 ∧
      ReserveFits ledger offer maxWheat maxSheep := by
  have none : (ledger.exchanged offer maxWheat maxSheep).numWheatReceived ≤
      0 := by
    by_contra some
    obtain ⟨_, _, paid⟩ := exactExchange_fair .roundUp input
    refine other (ExchangeResult.type_normal_iff.mpr ⟨by omega, ?_⟩)
    intro free
    unfold LedgerState.exchanged at some free
    rw [free, zero_mul] at paid
    have worth := mul_pos (not_le.mp some) input.price.n.1
    exact absurd paid (not_le.mpr worth)
  exact ⟨none, fun _ _ _ => .inl (input.received_le_iff.mp none)⟩

/-- The seller has its reserve afterwards exactly where it can spare what it
pays. -/
theorem Crossed.keepsReserve_iff {crossing : Crossing} {after : LedgerState}
    (crossed : Crossed offer ledger crossing after)
    (input : ExchangeInput (ledger.forSale offer) offer.price maxWheat
      maxSheep)
    (account : ledger.accounts.find? offer.sellerID = some a)
    (counts : 0 < a.numSubEntries) (header : after.header = ledger.header)
    (received : crossing.numWheatReceived =
      (ledger.exchanged offer maxWheat maxSheep).numWheatReceived)
    (taken : 0 < crossing.numWheatReceived →
      (crossing.result = .offerTaken ↔
        ledger.forSale offer ≤ crossing.numWheatReceived)) :
    KeepsReserve offer crossing after ↔
      ReserveFits ledger offer maxWheat maxSheep := by
  have sells : ∀ amount, crossing.numWheatReceived ≤ amount ↔
      SellsAtMost ledger offer maxWheat maxSheep amount := by
    intro amount
    rw [received]
    exact input.received_le_iff
  have whole : crossing.numWheatReceived ≤ ledger.forSale offer :=
    received.trans_le LedgerState.received_le_forSale
  unfold KeepsReserve ReserveFits
  refine forall_congr' (fun native => ?_)
  obtain ⟨a', account'⟩ : ∃ a', after.accounts.find? offer.sellerID =
      some a' := by
    rw [← Table.contains_eq_true, crossed.moved.present]
    exact Table.contains_eq_true.mpr ⟨a, account⟩
  have counted := crossed.counted a a' account account'
  have balance : a'.balance = a.balance - crossing.numWheatReceived := by
    have wheat := crossed.wheat
    rw [native] at wheat
    simpa [Asset.isIssuedBy, LedgerState.holding, account, account']
      using wheat
  simp only [account, account', Option.some_inj, forall_eq', header, balance,
    ← sells]
  have fewer : exactReserve ledger.header (a.numSubEntries - 1) ≤
      exactReserve ledger.header a.numSubEntries :=
    exactReserve_mono (Nat.sub_le _ _)
  by_cases isTaken : crossing.result = .offerTaken
  · have pred : a'.numSubEntries = a.numSubEntries - 1 := by
      rw [if_pos isTaken] at counted
      omega
    rw [pred]
    constructor
    · intro keeps
      by_cases some : 0 < crossing.numWheatReceived
      · have all := (taken some).mp isTaken
        have left := keeps some
        exact .inr (.inr ⟨by omega, by omega⟩)
      · exact .inl (not_lt.mp some)
    · rintro (none | above | ⟨_, covered⟩) some
      · exact absurd none (not_le.mpr some)
      · omega
      · omega
  · have same : a'.numSubEntries = a.numSubEntries := by
      rw [if_neg isTaken] at counted
      exact counted
    rw [same]
    constructor
    · intro keeps
      by_cases some : 0 < crossing.numWheatReceived
      · have left := keeps some
        exact .inr (.inl (by omega))
      · exact .inl (not_lt.mp some)
    · rintro (none | above | ⟨all, _⟩) some
      · exact absurd none (not_le.mpr some)
      · omega
      · exact absurd ((taken some).mpr (by omega)) isTaken

/-- How a crossing ends: nothing changes, what is reported moves, or the
offer is stored without being paid for. -/
inductive CrossOutcome (ledger : LedgerState) (offer : OfferEntry)
    (maxWheat maxSheep : ℤ) : Crossing → LedgerState → Prop
  | kept {crossing : Crossing} (cant : crossing.result = .offerCantConvert)
      (fits : PaymentFits ledger offer maxWheat maxSheep)
      (reserve : ReserveFits ledger offer maxWheat maxSheep) :
      CrossOutcome ledger offer maxWheat maxSheep crossing ledger
  | crossed {crossing : Crossing} {after : LedgerState}
      (can : crossing.result ≠ .offerCantConvert)
      (fits : PaymentFits ledger offer maxWheat maxSheep)
      (valid : after.Valid) (moved : Crossed offer ledger crossing after)
      (header : after.header = ledger.header)
      (reserve : KeepsReserve offer crossing after ↔
        ReserveFits ledger offer maxWheat maxSheep) :
      CrossOutcome ledger offer maxWheat maxSheep crossing after
  | unpaid {crossing : Crossing} {after : LedgerState}
      (cant : crossing.result = .offerCantConvert)
      (exceeds : ¬ PaymentFits ledger offer maxWheat maxSheep)
      (valid : after.Valid) (changed : after.offers ≠ ledger.offers) :
      CrossOutcome ledger offer maxWheat maxSheep crossing after

theorem LedgerState.pay_header {wheat sheep : ℤ} {taken : Bool} :
    ((ledger.settleOffer offer a wheat taken).pay offer wheat sheep).header =
      ledger.header := by
  cases taken with
  | true => simp [LedgerState.pay, LedgerState.settleOffer,
      LedgerState.takeOffer, LedgerState.putAccount, LedgerState.dropOffer]
  | false => simp [LedgerState.pay, LedgerState.settleOffer,
      LedgerState.putOffer]

theorem LedgerState.settleOffer_left {wheat : ℤ} (positive : 0 < wheat)
    (found : ledger.offers.find? offer.offerID = some offer)
    {taken : Bool}
    (more : taken = false → wheat < ledger.forSale offer) :
    (taken = true → (ledger.settleOffer offer a wheat taken).offers =
        ledger.offers.erase offer.offerID) ∧
      (taken = false → ∃ amount, 0 < amount ∧ amount < offer.amount ∧
        (ledger.settleOffer offer a wheat taken).offers =
          ledger.offers.update offer.offerID
            { offer with
              amount
              lastModified := ledger.header.ledgerSeq }) ∧
      (ledger.settleOffer offer a wheat taken).offers ≠ ledger.offers := by
  cases taken with
  | true =>
      refine ⟨fun _ => rfl, (by intro impossible; cases impossible), ?_⟩
      intro same
      have gone : (ledger.offers.erase offer.offerID).find? offer.offerID =
          none := by simp
      have kept : (ledger.offers.erase offer.offerID).find? offer.offerID =
          some offer := by
        rw [← found]
        exact congrArg (fun offers => offers.find? offer.offerID) same
      rw [gone] at kept
      cases kept
  | false =>
      have less := more rfl
      have most : ledger.forSale offer ≤ offer.amount := min_le_right _ _
      refine ⟨(by intro impossible; cases impossible), ?_, ?_⟩
      · intro _
        exact ⟨ledger.forSale offer - wheat, by omega, by omega, rfl⟩
      · intro same
        have stored : (ledger.offers.update offer.offerID
            (ledger.leftOver offer wheat)).find? offer.offerID =
              some (ledger.leftOver offer wheat) := by
          simp [found]
        have kept : (ledger.offers.update offer.offerID
            (ledger.leftOver offer wheat)).find? offer.offerID =
              some offer := by
          rw [← found]
          exact congrArg (fun offers => offers.find? offer.offerID) same
        rw [stored, Option.some_inj] at kept
        have amount := congrArg OfferEntry.amount kept
        simp only [LedgerState.leftOver] at amount
        omega

theorem OfferSettled.lineFor {taken : Bool} {middle : LedgerState}
    (settled : OfferSettled offer a taken ledger middle) (id : AccountID)
    (asset : Asset) : middle.lineFor id asset = ledger.lineFor id asset := by
  unfold LedgerState.lineFor LedgerState.lineOf
  rw [settled.lines]

/-- The last part where the balances can be changed. -/
theorem LedgerState.Valid.settleCrossing_eq (valid : ledger.Valid)
    {wheat sheep : ℤ} {taken : Bool}
    (found : ledger.offers.find? offer.offerID = some offer)
    (account : ledger.accounts.find? offer.sellerID = some a)
    (nonneg : 0 ≤ wheat)
    (more : taken = false → wheat < ledger.forSale offer)
    (payable : Payable offer wheat sheep
      (ledger.settleOffer offer a wheat taken)) :
    settleCrossing { offer with amount := ledger.forSale offer } a
        (ledger.lineFor offer.sellerID offer.selling)
        (ledger.lineFor offer.sellerID offer.buying) wheat sheep taken
        ledger =
      .ok ⟨if taken then .offerTaken else .offerPartial, wheat, sheep⟩
        ((ledger.settleOffer offer a wheat taken).pay offer wheat sheep) := by
  obtain ⟨a', stored, account', settled⟩ :=
    valid.storeCrossed_eq found account nonneg more
  have paid := settleCrossing_paid stored settled.valid account'
    payable.apart payable.canBuy payable.canSell
  rw [settled.lineFor, settled.lineFor] at paid
  exact paid

theorem LedgerState.Valid.crossOffer_outcome (valid : ledger.Valid)
    (version : ledger.header.ledgerVersion = 9)
    (found : ledger.offers.find? offer.offerID = some offer)
    (wheat : 0 < maxWheat ∧ maxWheat ≤ int64Max)
    (sheep : 0 < maxSheep ∧ maxSheep ≤ int64Max) :
    ∃ crossing after, crossOffer offer maxWheat maxSheep ledger =
        .ok crossing after ∧
      CrossOutcome ledger offer maxWheat maxSheep crossing after := by
  have stored := valid.offers.found found
  obtain ⟨a, account⟩ :=
    Table.contains_eq_true.mp (valid.sellers.found found)
  have unpaid := valid.not_paymentFits_iff stored account wheat sheep
  have input := valid.exchangeInput stored wheat sheep
  have counts := valid.numSubEntries_pos found account
  rw [valid.crossOffer_eq version stored account wheat sheep]
  unfold LedgerState.settle
  cases type : (ledger.exchanged offer maxWheat maxSheep).type with
  | reducedToZero =>
      have fits : PaymentFits ledger offer maxWheat maxSheep := by
        by_contra exceeds
        have normal := (unpaid.mp exceeds).2.1
        rw [type] at normal
        cases normal
      have other : (ledger.exchanged offer maxWheat maxSheep).type ≠
          .normal := by
        rw [type]
        exact ExchangeResultType.noConfusion
      exact ⟨_, ledger, rfl,
        .kept rfl fits (ReserveFits.of_not_normal input other).2⟩
  | bogus =>
      have fits : PaymentFits ledger offer maxWheat maxSheep := by
        by_contra exceeds
        have normal := (unpaid.mp exceeds).2.1
        rw [type] at normal
        cases normal
      have payable : Payable offer 0 0
          (ledger.settleOffer offer a 0 true) :=
        ⟨Ne.symm stored.apart, fun changes => absurd rfl changes,
          fun changes => absurd rfl changes⟩
      have settled := valid.takeOffer_settled found account
      refine ⟨_, _, valid.settleCrossing_eq found account (le_refl 0)
        (by intro impossible; cases impossible) payable, ?_⟩
      have moved : Crossed offer ledger ⟨.offerTaken, 0, 0⟩
          ((ledger.settleOffer offer a 0 true).pay offer 0 0) :=
        payable.crossed settled account rfl (.inl ⟨rfl, rfl⟩) (fun _ => rfl)
          (by intro impossible; cases impossible)
      have other : (ledger.exchanged offer maxWheat maxSheep).type ≠
          .normal := by
        rw [type]
        exact ExchangeResultType.noConfusion
      obtain ⟨none, reserve⟩ := ReserveFits.of_not_normal input other
      exact .crossed (by simp) fits (payable.pay_valid settled.valid) moved
        LedgerState.pay_header
        (iff_of_true (fun _ positive => absurd positive (lt_irrefl 0))
          reserve)
  | normal =>
      have trade := valid.trade stored wheat sheep type
      generalize got : (ledger.exchanged offer maxWheat
        maxSheep).numWheatReceived = received at trade unpaid ⊢
      generalize (ledger.exchanged offer maxWheat
        maxSheep).numSheepSend = sent at trade unpaid ⊢
      have positive := trade.positive
      generalize taking : decide (ledger.forSale offer ≤ received) = taken
      have more : taken = false → received < ledger.forSale offer := by
        intro no
        rw [no, decide_eq_false_iff_not] at taking
        omega
      obtain ⟨after, storing, account', settled⟩ :=
        valid.storeCrossed_eq found account positive.1.le more
      obtain ⟨erased, left, changed⟩ :=
        LedgerState.settleOffer_left (a := a) positive.1 found more
      by_cases fits : PaymentFits ledger offer maxWheat maxSheep
      · have room : offer.buying = .native →
            a.balance + sent ≤ int64Max := by
          intro native
          by_contra exceeds
          exact unpaid.mpr ⟨native, type, not_le.mp exceeds⟩ fits
        have payable := trade.payable valid stored account settled room
        have moved : Crossed offer ledger
            ⟨if taken then .offerTaken else .offerPartial, received, sent⟩
            ((ledger.settleOffer offer a received taken).pay offer received
              sent) :=
          payable.crossed settled account rfl (.inr positive) erased left
        refine ⟨_, _, valid.settleCrossing_eq found account positive.1.le
          more payable, ?_⟩
        refine .crossed ?_ fits (payable.pay_valid settled.valid) moved
          LedgerState.pay_header ?_
        · cases taken with
          | true => simp
          | false => simp
        · refine moved.keepsReserve_iff input account counts
            LedgerState.pay_header got.symm (fun _ => ?_)
          rw [← decide_eq_true_iff (p := ledger.forSale offer ≤ received),
            taking]
          cases taken with
          | true => simp
          | false => simp
      · obtain ⟨native, _, exceeds⟩ := unpaid.mp fits
        obtain ⟨kept, account'', balance, _⟩ := settled.seller
        rw [account'', Option.some_inj] at account'
        subst account'
        have nonneg := (AccountEntry.isValid_iff.mp
          (valid.accounts.found account).valid).balance
        refine ⟨_, _, settleCrossing_unpaid storing native positive.2
          (by omega) (by omega), .unpaid rfl fits settled.valid changed⟩

end Outcome

/-- A crossing does not fail, and it does exactly what it reports, exactly
where the payment fits on the balance of the seller and the seller can spare
what it pays. -/
theorem crossOffer_exact_iff (ledger : LedgerState) (offer : OfferEntry)
    (maxWheat maxSheep : ℤ) (valid : ledger.Valid)
    (version : ledger.header.ledgerVersion = 9)
    (found : ledger.offers.find? offer.offerID = some offer)
    (wheat : 0 < maxWheat ∧ maxWheat ≤ int64Max)
    (sheep : 0 < maxSheep ∧ maxSheep ≤ int64Max) :
    (∃ crossing after, crossOffer offer maxWheat maxSheep ledger =
        .ok crossing after ∧ CrossedExactly offer ledger crossing after) ↔
      PaymentFits ledger offer maxWheat maxSheep ∧
        ReserveFits ledger offer maxWheat maxSheep := by
  obtain ⟨crossing, after, crossed, outcome⟩ :=
    valid.crossOffer_outcome version found wheat sheep
  constructor
  · rintro ⟨crossing', after', same, exactly⟩
    rw [crossed] at same
    cases same
    cases outcome with
    | kept _ fits reserve => exact ⟨fits, reserve⟩
    | crossed can fits _ _ _ reserve =>
        exact ⟨fits, reserve.mp (exactly.reserve can)⟩
    | unpaid cant _ _ changed =>
        exact absurd (congrArg LedgerState.offers (exactly.cantConvert cant))
          changed
  · rintro ⟨fits, spared⟩
    refine ⟨crossing, after, crossed, ?_⟩
    cases outcome with
    | kept cant _ _ =>
        exact ⟨valid, fun can => absurd cant can, fun can => absurd cant can,
          fun _ => rfl⟩
    | crossed can _ valid moved _ reserve =>
        exact ⟨valid, fun _ => moved, fun _ => reserve.mpr spared,
          fun cant => absurd cant can⟩
    | unpaid _ exceeds _ _ => exact absurd fits exceeds

theorem usd_size : #[(85 : UInt8), 83, 68, 0].size = 4 := rfl

def usd : Asset :=
  .alphaNum4 ⟨#[85, 83, 68, 0], usd_size⟩ 1

/-- The issuer of an asset sells all of it that can be sold for the native
one. -/
def issuerOffer : OfferEntry :=
  { sellerID := 1, offerID := 1, selling := usd, buying := .native
    amount := int64Max, price := ⟨1, 1⟩, flags := 0, lastModified := 1 }

def issuerAccount : AccountEntry :=
  { AccountEntry.fresh 1 with balance := 1000000000, numSubEntries := 1 }

def issuerLedger : LedgerState :=
  { accounts := { rows := [(1, issuerAccount)], distinct := by decide }
    trustLines := .empty
    offers := { rows := [(1, issuerOffer)], distinct := by decide }
    data := .empty
    header := { genesisLedger with ledgerVersion := 9, idPool := 1 } }

theorem crossOffer_exact_hundred :
    ∃ crossing after, crossOffer issuerOffer 100 100 issuerLedger =
        .ok crossing after ∧
      CrossedExactly issuerOffer issuerLedger crossing after :=
  (crossOffer_exact_iff issuerLedger issuerOffer 100 100
    (by decide +kernel) rfl rfl (by decide) (by decide)).mpr
    ⟨fun _ => .inl (by decide +kernel), .of_exact rfl (by decide)⟩

/-- An offer of 1000 units of the native asset. -/
def nativeOffer (offerID : ℕ) : OfferEntry :=
  { sellerID := 1, offerID, selling := .native, buying := usd, amount := 1000
    price := ⟨1, 1⟩, flags := 0, lastModified := 1 }

/-- The last offer sells the other asset for the native one. -/
def crowdedOffers : List (ℕ × OfferEntry) :=
  (42, { issuerOffer with sellerID := 2, offerID := 42, amount := 1000 }) ::
    (List.range 41).map (fun n => (n + 1, nativeOffer (n + 1)))

theorem crowdedOffers_distinct :
    (crowdedOffers.map Prod.fst).Nodup := by
  decide +kernel

def crowdedAccount : AccountEntry :=
  { AccountEntry.fresh 1 with balance := 5033704, numSubEntries := 41 }

/-- With 41 offers an issuer has 1000 units more than the reserve that is
computed for it. -/
def crowdedLedger : LedgerState :=
  { accounts :=
      { rows := [(1, crowdedAccount),
          (2, { AccountEntry.fresh 2 with
            balance := 1000000000, numSubEntries := 2 })]
        distinct := by decide }
    trustLines :=
      { rows := [((2, usd),
          { accountID := 2, asset := usd, balance := 1000, limit := 1000
            flags := authorizedFlag, lastModified := 1 })]
        distinct := by decide }
    offers := { rows := crowdedOffers, distinct := crowdedOffers_distinct }
    data := .empty
    header := { genesisLedger with ledgerVersion := 9, idPool := 42 } }

/-- The offer is taken, and its seller has less than its reserve. -/
def spendsReserve {ε : Type} : EStateM.Result ε LedgerState Crossing → Bool
  | .ok crossing after =>
      decide (crossing.result = .offerTaken ∧
        0 < crossing.numWheatReceived) &&
      (after.accounts.find? 1).any (fun a =>
        decide (a.balance <
          (exactReserve after.header a.numSubEntries : ℤ)))
  | .error _ _ => false

/-- With 100 units of its own the seller cannot be paid all there can be; its
offer is deleted all the same.  With 41 sub-entries it sells what belongs to
its reserve. -/
theorem crossOffer_inexact :
    (issuerLedger.Valid ∧ issuerLedger.total .native ≤ int64Max ∧
      issuerLedger.offers.find? 1 = some issuerOffer ∧
      ¬ ∃ crossing after, crossOffer issuerOffer int64Max int64Max
          issuerLedger = .ok crossing after ∧
        CrossedExactly issuerOffer issuerLedger crossing after) ∧
      crowdedLedger.Valid ∧ crowdedLedger.total .native ≤ int64Max ∧
      crowdedLedger.offers.find? 1 = some (nativeOffer 1) ∧
      ¬ ∃ crossing after, crossOffer (nativeOffer 1) 1000 1000
          crowdedLedger = .ok crossing after ∧
        CrossedExactly (nativeOffer 1) crowdedLedger crossing after := by
  refine ⟨⟨by decide +kernel, by decide +kernel, rfl, ?_⟩,
    by decide +kernel, by decide +kernel, by decide +kernel, ?_⟩
  · rintro ⟨crossing, after, crossed, exactly⟩
    have run : crossOffer issuerOffer int64Max int64Max issuerLedger =
        .ok ⟨.offerCantConvert, int64Max, int64Max⟩
          (issuerLedger.takeOffer issuerOffer issuerAccount) := by
      rfl
    rw [run] at crossed
    cases crossed
    have kept : (issuerLedger.takeOffer issuerOffer
        issuerAccount).offers.rows = issuerLedger.offers.rows :=
      congrArg (fun ledger => ledger.offers.rows) (exactly.cantConvert rfl)
    exact absurd kept (by decide +kernel)
  · rintro ⟨crossing, after, crossed, exactly⟩
    have run : spendsReserve (crossOffer (nativeOffer 1) 1000 1000
        crowdedLedger) = true := by
      decide +kernel
    rw [crossed, spendsReserve, Bool.and_eq_true, decide_eq_true_eq,
      Option.any_eq_true] at run
    obtain ⟨⟨taken, some⟩, a, account, low⟩ := run
    have can : crossing.result ≠ .offerCantConvert := by
      rw [taken]
      exact CrossOfferResult.noConfusion
    have enough := exactly.reserve can rfl some a account
    exact absurd enough (not_le.mpr (of_decide_eq_true low))

end StellarCore.Transactions
