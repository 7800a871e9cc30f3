import StellarCore.Transactions.OfferExchange

/-!
# Walking the order book

`convertWithOffers` reads the book in pages of five while it deletes offers
from it.  It does the same as a walk over the book as it is at the start, each
offer in its turn.
-/

namespace StellarCore.Transactions

open StellarCore.Lib

/-- The offers of a ledger, as `storeAdd` and `storeChange` leave them. -/
structure OffersStored (offers : Table ℕ OfferEntry) : Prop where
  keyed : ∀ row ∈ offers.rows, row.2.offerID = row.1
  valid : ∀ row ∈ offers.rows, row.2.isValid = true
  price : ∀ row ∈ offers.rows, row.2.price.Positive
  amount : ∀ row ∈ offers.rows, row.2.amount ≤ int64Max

theorem OffersStored.erase {offers : Table ℕ OfferEntry} {offerID : ℕ}
    (stored : OffersStored offers) : OffersStored (offers.erase offerID) := by
  refine ⟨?_, ?_, ?_, ?_⟩
  · intro row member
    exact stored.keyed row (Table.mem_rows_erase.mp member).1
  · intro row member
    exact stored.valid row (Table.mem_rows_erase.mp member).1
  · intro row member
    exact stored.price row (Table.mem_rows_erase.mp member).1
  · intro row member
    exact stored.amount row (Table.mem_rows_erase.mp member).1

/-! ## The book -/

section Book

variable {computePrice : Price → ℚ} {offers : Table ℕ OfferEntry}
  {selling buying : Asset}

/-- An offer belongs to the book of two assets. -/
def OfferEntry.inBook (selling buying : Asset) (offer : OfferEntry) : Bool :=
  selling.matchesColumn offer.selling && buying.matchesColumn offer.buying

theorem orderBook_perm :
    (orderBook computePrice offers selling buying).Perm
      ((offers.rows.map Prod.snd).filter
        (OfferEntry.inBook selling buying)) :=
  List.perm_insertionSort _ _

theorem mem_orderBook {offer : OfferEntry} :
    offer ∈ orderBook computePrice offers selling buying ↔
      (∃ row ∈ offers.rows, row.2 = offer) ∧
        offer.inBook selling buying = true := by
  rw [orderBook_perm.mem_iff, List.mem_filter, List.mem_map]

theorem OffersStored.map_offerID (stored : OffersStored offers) :
    (offers.rows.map Prod.snd).map OfferEntry.offerID =
      offers.rows.map Prod.fst := by
  rw [List.map_map]
  exact List.map_congr_left stored.keyed

theorem OffersStored.offerIDs_nodup (stored : OffersStored offers) :
    ((orderBook computePrice offers selling buying).map
      OfferEntry.offerID).Nodup := by
  rw [(orderBook_perm.map _).nodup_iff]
  apply List.Nodup.sublist (List.filter_sublist.map _)
  rw [stored.map_offerID]
  exact offers.distinct

theorem orderBook_sorted :
    (orderBook computePrice offers selling buying).Pairwise
      (fun first second =>
        first.rank computePrice ≤ second.rank computePrice) :=
  List.pairwise_insertionSort _ _

theorem offerID_eq_of_rank {first second : OfferEntry}
    (same : first.rank computePrice = second.rank computePrice) :
    first.offerID = second.offerID :=
  congrArg (fun rank : ℚ ×ₗ ℕ => (ofLex rank).2) same

theorem OffersStored.eq_of_offerID (stored : OffersStored offers)
    {first second : ℕ × OfferEntry} (firstIn : first ∈ offers.rows)
    (secondIn : second ∈ offers.rows)
    (same : first.2.offerID = second.2.offerID) : first.2 = second.2 := by
  have firstFound : offers.find? first.1 = some first.2 :=
    Table.find?_eq_some.mpr firstIn
  have secondFound : offers.find? second.1 = some second.2 :=
    Table.find?_eq_some.mpr secondIn
  rw [← stored.keyed first firstIn, same,
    stored.keyed second secondIn] at firstFound
  exact Option.some_inj.mp (firstFound.symm.trans secondFound)

theorem OffersStored.map_erase (stored : OffersStored offers) (offerID : ℕ) :
    (offers.erase offerID).rows.map Prod.snd =
      (offers.rows.map Prod.snd).filter
        (fun offer => offer.offerID ≠ offerID) := by
  rw [List.filter_map]
  show (offers.rows.filter _).map Prod.snd = _
  congr 1
  apply List.filter_congr
  intro row member
  simp [stored.keyed row member]

/-- Deleting an offer takes it out of the book and leaves the others where
they are. -/
theorem OffersStored.orderBook_erase (stored : OffersStored offers)
    (offerID : ℕ) :
    orderBook computePrice (offers.erase offerID) selling buying =
      (orderBook computePrice offers selling buying).filter
        (fun offer => offer.offerID ≠ offerID) := by
  refine List.Perm.eq_of_pairwise ?_ orderBook_sorted
    (orderBook_sorted.filter _) ?_
  · intro first second firstIn secondIn below above
    obtain ⟨⟨firstRow, firstMember, rfl⟩, _⟩ := mem_orderBook.mp firstIn
    obtain ⟨⟨secondRow, secondMember, rfl⟩, _⟩ :=
      mem_orderBook.mp (List.mem_filter.mp secondIn).1
    exact stored.eq_of_offerID (Table.mem_rows_erase.mp firstMember).1
      secondMember (offerID_eq_of_rank (le_antisymm below above))
  · refine orderBook_perm.trans ?_
    rw [stored.map_erase, List.filter_comm]
    exact (orderBook_perm.filter _).symm

end Book

/-! ## What a crossing leaves of the book -/

/-- A program does not touch the offers. -/
def SameOffers (before after : LedgerState) : Prop :=
  after.offers = before.offers

instance : Std.Refl SameOffers :=
  ⟨fun _ => rfl⟩

instance : IsTrans LedgerState SameOffers :=
  ⟨fun _ _ _ first second => second.trans first⟩

theorem assert_keepsOffers {condition : Bool} :
    Keeps (assert condition) SameOffers := by
  unfold assert
  exact .ite .of_pure .of_throw

theorem ofExcept_keepsOffers {α : Type} (result : Except Failure α) :
    Keeps (ofExcept result : Ledger α) SameOffers := by
  cases result with
  | ok value => exact .of_pure
  | error failure => exact .of_throw

theorem getHeader_keepsOffers : Keeps getHeader SameOffers :=
  .bind .of_get (fun _ => .of_pure)

theorem touch_keepsOffers : Keeps touch SameOffers :=
  .bind getHeader_keepsOffers
    (fun _ => .bind assert_keepsOffers (fun _ => .of_pure))

/-- What is stored in another table leaves the offers as they are. -/
theorem keepsOffers_of_get {α : Type} {body : LedgerState → Ledger α}
    (kept : ∀ ledger, Ends (body ledger) ledger
      (fun _ after => SameOffers ledger after)
      (fun _ after => SameOffers ledger after)) :
    Keeps (get >>= body) SameOffers := by
  intro ledger
  rw [Ends.bind_iff, Ends.get_iff]
  exact kept ledger

theorem storeChangeAccount_keepsOffers (a : AccountEntry) :
    Keeps (storeChangeAccount a) SameOffers := by
  refine .ite (.bind touch_keepsOffers
    (fun _ => keepsOffers_of_get ?_)) .of_throw
  intro ledger
  rw [Ends.ite_iff]
  exact ⟨fun _ => rfl, fun _ => rfl⟩

theorem storeChangeTrust_keepsOffers (frame : TrustFrame) :
    Keeps (storeChangeTrust frame) SameOffers := by
  refine .ite (.ite .of_pure (.bind touch_keepsOffers
    (fun _ => .bind (.ite .of_throw .of_pure)
      (fun _ => keepsOffers_of_get ?_)))) .of_throw
  intro ledger
  rw [Ends.ite_iff]
  exact ⟨fun _ => rfl, fun _ => rfl⟩

theorem addBalance_keepsOffers (balance delta maxBalance : ℤ) :
    Keeps (addBalance balance delta maxBalance) SameOffers := by
  refine .bind assert_keepsOffers (fun _ => .bind assert_keepsOffers ?_)
  intro _
  exact .ite .of_pure (.ite .of_pure (.ite .of_pure .of_pure))

theorem adjustBalance_keepsOffers (asset : Asset) (account : AccountEntry)
    (trustLine : Option TrustFrame) (delta : ℤ) :
    Keeps (adjustBalance asset account trustLine delta) SameOffers := by
  unfold adjustBalance
  refine .ite .of_pure (.ite (.bind (.bind (addBalance_keepsOffers _ _ _)
    (fun _ => .of_pure)) ?_) ?_)
  · intro changed
    cases changed with
    | none => exact .of_pure
    | some account =>
        exact .bind (storeChangeAccount_keepsOffers account)
          (fun _ => .of_pure)
  · cases trustLine with
    | none => exact .of_throw
    | some trustLine =>
        refine .bind ?_ ?_
        · unfold TrustFrame.addBalance
          exact .ite .of_pure (.ite .of_pure
            (.bind (addBalance_keepsOffers _ _ _) (fun _ => .of_pure)))
        · intro changed
          cases changed with
          | none => exact .of_pure
          | some trustLine =>
              exact .bind (storeChangeTrust_keepsOffers trustLine)
                (fun _ => .of_pure)

theorem loadAccount_keepsOffers (accountID : AccountID) :
    Keeps (loadAccount accountID) SameOffers := by
  intro ledger
  rw [loadAccount_ends]
  exact ⟨fun _ => rfl, fun _ _ => ⟨fun _ => rfl, fun _ => rfl⟩⟩

theorem loadTrustLine_keepsOffers (accountID : AccountID) (asset : Asset) :
    Keeps (loadTrustLine accountID asset) SameOffers := by
  refine .ite .of_throw (.ite .of_pure (keepsOffers_of_get ?_))
  intro ledger
  cases ledger.trustLines.find? (accountID, asset) with
  | none => rfl
  | some row =>
      rw [Ends.ite_iff]
      exact ⟨fun _ => rfl, fun _ => rfl⟩

theorem loadLine_keepsOffers (accountID : AccountID) (asset : Asset) :
    Keeps (loadLine accountID asset) SameOffers :=
  .ite .of_pure (loadTrustLine_keepsOffers accountID asset)

theorem canSellAtMost_keepsOffers (account : AccountEntry) (asset : Asset)
    (trustLine : Option TrustFrame) :
    Keeps (canSellAtMost account asset trustLine) SameOffers := by
  refine .ite (.bind getHeader_keepsOffers (fun _ => .of_pure)) ?_
  cases trustLine with
  | none => exact .of_pure
  | some trustLine => exact .ite (.ite .of_pure .of_throw) .of_pure

/-- What a crossing that ends without a failure leaves: amounts within the
limits, and the book without the offer if it was taken. -/
structure CrossedWithin (offers : Table ℕ OfferEntry) (offerID : ℕ)
    (maxWheat maxSheep : ℤ) (crossing : Crossing) (after : LedgerState) :
    Prop where
  wheat : 0 ≤ crossing.numWheatReceived ∧
    crossing.numWheatReceived ≤ maxWheat
  sheep : 0 ≤ crossing.numSheepSend ∧ crossing.numSheepSend ≤ maxSheep
  taken : crossing.result = .offerTaken →
    after.offers = offers.erase offerID

theorem addNumEntries_keepsOffers (a : AccountEntry) (count : ℤ) :
    Keeps (a.addNumEntries count) SameOffers :=
  .bind getHeader_keepsOffers
    (fun _ => .ite .of_throw (.ite .of_pure .of_pure))

theorem storeCrossed_erases {offer : OfferEntry} {accountB : AccountEntry}
    {numWheat : ℤ} {offerTaken : Bool} {ledger : LedgerState} :
    Ends (storeCrossed offer accountB numWheat offerTaken) ledger
      (fun _ after => offerTaken = true →
        after.offers = ledger.offers.erase offer.offerID)
      (fun _ _ => True) := by
  unfold storeCrossed
  rw [Ends.ite_iff]
  constructor
  · intro _
    rw [Ends.bind_iff, storeDeleteOffer, Ends.modify_iff]
    refine (Keeps.bind (addNumEntries_keepsOffers accountB (-1))
      (fun _ => storeChangeAccount_keepsOffers _) _).mono ?_
      (fun _ _ _ => trivial)
    intro _ after same _
    exact same
  · intro remains
    exact Ends.of_always (fun _ _ taken => absurd taken remains)
      (fun _ _ => trivial)

theorem settleCrossing_within {offer : OfferEntry} {accountB : AccountEntry}
    {wheatLine sheepLine : Option TrustFrame} {numWheat numSheep : ℤ}
    {maxWheat maxSheep : ℤ} {offerTaken : Bool} {ledger : LedgerState}
    (wheat : 0 ≤ numWheat ∧ numWheat ≤ maxWheat)
    (sheep : 0 ≤ numSheep ∧ numSheep ≤ maxSheep) :
    Ends (settleCrossing offer accountB wheatLine sheepLine numWheat numSheep
        offerTaken) ledger
      (CrossedWithin ledger.offers offer.offerID maxWheat maxSheep)
      (fun _ _ => True) := by
  unfold settleCrossing
  rw [Ends.bind_iff]
  refine storeCrossed_erases.mono ?_ (fun _ _ _ => trivial)
  intro accountB middle erased
  rw [Ends.bind_iff]
  refine (adjustBalance_keepsOffers _ _ _ _ middle).mono ?_
    (fun _ _ _ => trivial)
  intro paid next same
  cases paid with
  | none => exact ⟨wheat, sheep, fun impossible => by cases impossible⟩
  | some accountB =>
      simp only
      rw [Ends.bind_iff]
      refine (adjustBalance_keepsOffers _ _ _ _ next).mono ?_
        (fun _ _ _ => trivial)
      intro sent last unchanged
      cases sent with
      | none => exact ⟨wheat, sheep, fun impossible => by cases impossible⟩
      | some accountB =>
          refine ⟨wheat, sheep, ?_⟩
          cases offerTaken with
          | false =>
              intro impossible
              cases impossible
          | true =>
              intro _
              exact (unchanged.trans same).trans (erased rfl)

@[simp] theorem ofExcept_ends {α : Type} {result : Except Failure α}
    {ledger : LedgerState} {done : α → LedgerState → Prop}
    {failed : Failure → LedgerState → Prop} :
    Ends (ofExcept result : Ledger α) ledger done failed ↔
      match result with
      | .ok value => done value ledger
      | .error failure => failed failure ledger := by
  cases result with
  | ok value => exact Iff.rfl
  | error failure => exact Iff.rfl

theorem exchange_ok (ledgerVersion : ℕ) {wheat maxWheat maxSheep : ℤ}
    {price : Price} (input : ExchangeInput wheat price maxWheat maxSheep) :
    ∃ result, exchange ledgerVersion wheat price maxWheat maxSheep =
        .ok result ∧ FairExchange wheat price maxWheat maxSheep result := by
  unfold exchange
  split
  · refine ⟨_, exchangeV2_eq input, ?_⟩
    obtain ⟨received, sent, seller⟩ := exactExchange_fair .roundDown input
    exact ⟨received, sent, seller⟩
  · exact ⟨_, exchangeV3_eq input, exactExchange_fair .roundUp input⟩

theorem crossOffer_within {offer : OfferEntry} {maxWheat maxSheep : ℤ}
    {ledger : LedgerState} (price : offer.price.Positive)
    (amount : offer.amount ≤ int64Max) (wheatMost : maxWheat ≤ int64Max)
    (sheepMost : maxSheep ≤ int64Max) :
    Ends (crossOffer offer maxWheat maxSheep) ledger
      (CrossedWithin ledger.offers offer.offerID maxWheat maxSheep)
      (fun _ _ => True) := by
  unfold crossOffer
  rw [Ends.bind_iff, assert_ends]
  refine ⟨?_, fun _ => trivial⟩
  intro wheatPositive
  rw [Ends.bind_iff, assert_ends]
  refine ⟨?_, fun _ => trivial⟩
  intro sheepPositive
  rw [Ends.bind_iff]
  refine (loadAccount_keepsOffers _ ledger).mono ?_ (fun _ _ _ => trivial)
  intro accountB middle same
  cases accountB with
  | none => trivial
  | some accountB =>
      simp only
      rw [Ends.bind_iff]
      refine (loadLine_keepsOffers _ _ middle).mono ?_ (fun _ _ _ => trivial)
      intro wheatLine second sameSecond
      rw [Ends.bind_iff]
      refine (loadLine_keepsOffers _ _ second).mono ?_ (fun _ _ _ => trivial)
      intro sheepLine third sameThird
      rw [Ends.bind_iff]
      refine (ofExcept_keepsOffers _ third).mono ?_ (fun _ _ _ => trivial)
      intro canBuy fourth sameFourth
      rw [Ends.bind_iff]
      refine (canSellAtMost_keepsOffers _ _ _ fourth).mono ?_
        (fun _ _ _ => trivial)
      intro canSell fifth sameFifth
      have unchanged : fifth.offers = ledger.offers :=
        sameFifth.trans (sameFourth.trans (sameThird.trans
          (sameSecond.trans same)))
      rw [Ends.bind_iff, assert_ends]
      refine ⟨?_, fun _ => trivial⟩
      intro nonneg
      have input : ExchangeInput (min (min canBuy canSell) offer.amount)
          offer.price maxWheat maxSheep :=
        ⟨⟨of_decide_eq_true nonneg, (min_le_right _ _).trans amount⟩, price,
          ⟨of_decide_eq_true wheatPositive, wheatMost⟩,
          ⟨of_decide_eq_true sheepPositive, sheepMost⟩⟩
      obtain ⟨result, computed, fair⟩ :=
        exchange_ok fifth.header.ledgerVersion input
      rw [Ends.bind_iff, getHeader_ends, Ends.bind_iff, ofExcept_ends,
        computed]
      have wheat := (fair.wheatReceived.2.trans (min_le_right _ _))
      simp only
      cases result.type with
      | reducedToZero =>
          exact ⟨⟨fair.wheatReceived.1, wheat⟩, fair.sheepSend,
            fun impossible => by cases impossible⟩
      | bogus =>
          simp only
          rw [← unchanged]
          exact settleCrossing_within
            ⟨le_refl 0, (of_decide_eq_true wheatPositive).le⟩
            ⟨le_refl 0, (of_decide_eq_true sheepPositive).le⟩
      | normal =>
          simp only
          rw [← unchanged]
          exact settleCrossing_within ⟨fair.wheatReceived.1, wheat⟩
            fair.sheepSend

/-! ## The walk -/

/-- A conversion that starts with a crossing. -/
def Conversion.prepend (offer : OfferEntry) (crossing : Crossing)
    (rest : Conversion) : Conversion :=
  { result := rest.result
    sheepSend := crossing.numSheepSend + rest.sheepSend
    wheatReceived := crossing.numWheatReceived + rest.wheatReceived
    trail := crossing.claim offer :: rest.trail }

def Conversion.nothing (result : ConvertResult) : Conversion :=
  ⟨result, 0, 0, []⟩

/-- The offers in their turn, each with the limits that are left. -/
def walk (filter : OfferEntry → OfferFilterResult) :
    List OfferEntry → ℤ → ℤ → Ledger Conversion
  | [], _, _ => return .nothing .ok
  | offer :: rest, maxSheep, maxWheat =>
      match filter offer with
      | .stop => return .nothing (.filterStop offer)
      | .skip => walk filter rest maxSheep maxWheat
      | .keep => do
          let crossing ← crossOffer offer maxWheat maxSheep
          let maxSheep := maxSheep - crossing.numSheepSend
          let maxWheat := maxWheat - crossing.numWheatReceived
          match crossing.result with
          | .offerCantConvert => return .nothing .partially
          | .offerPartial =>
              return (Conversion.nothing
                (if maxWheat > 0 && maxSheep > 0 then .partially
                else .ok)).prepend offer crossing
          | .offerTaken =>
              if maxWheat > 0 && maxSheep > 0 then
                return (← walk filter rest maxSheep maxWheat).prepend offer
                  crossing
              else
                return (Conversion.nothing .ok).prepend offer crossing

/-- The totals of a loop that goes on as a conversion does. -/
def Progress.then (progress : Progress) (rest : Conversion) : Conversion :=
  { result := rest.result
    sheepSend := progress.sheepSend + rest.sheepSend
    wheatReceived := progress.wheatReceived + rest.wheatReceived
    trail := progress.trail ++ rest.trail }

theorem Progress.then_nothing (progress : Progress) (result : ConvertResult) :
    progress.then (.nothing result) = progress.finish result := by
  simp [Progress.then, Conversion.nothing, Progress.finish]

theorem Progress.then_prepend (progress : Progress) (offer : OfferEntry)
    (crossing : Crossing) (rest : Conversion) :
    progress.then (rest.prepend offer crossing) =
      (progress.add offer crossing).then rest := by
  simp [Progress.then, Conversion.prepend, Progress.add, Int.add_assoc]

/-- The loop goes on as the walk over `rest` does. -/
def Progress.walkOn (filter : OfferEntry → OfferFilterResult)
    (rest : List OfferEntry) (progress : Progress) :
    Ledger (Option Conversion) := do
  return some (progress.then
    (← walk filter rest progress.maxSheepSend progress.maxWheatReceive))

section Pages

variable {computePrice : Price → ℚ} {sheep wheat : Asset}
  {filter : OfferEntry → OfferFilterResult}

/-- Between two offers: `kept` has been passed over and `rest` is still to be
visited, the first `ahead` of it in the page at hand. -/
structure Reading (computePrice : Price → ℚ) (sheep wheat : Asset)
    (kept rest : List OfferEntry) (ahead : ℕ) (progress : Progress)
    (ledger : LedgerState) : Prop where
  stored : OffersStored ledger.offers
  book : orderBook computePrice ledger.offers wheat sheep = kept ++ rest
  offset : progress.offerOffset = kept.length + ahead
  sheepLeft : 0 < progress.maxSheepSend ∧ progress.maxSheepSend ≤ int64Max
  wheatLeft : 0 < progress.maxWheatReceive ∧
    progress.maxWheatReceive ≤ int64Max

theorem Reading.skip {kept rest : List OfferEntry} {offer : OfferEntry}
    {ahead : ℕ} {progress : Progress} {ledger : LedgerState}
    (reading : Reading computePrice sheep wheat kept (offer :: rest)
      (ahead + 1) progress ledger) :
    Reading computePrice sheep wheat (kept ++ [offer]) rest ahead progress
      ledger := by
  refine ⟨reading.stored, ?_, ?_, reading.sheepLeft, reading.wheatLeft⟩
  · rw [reading.book, List.append_assoc, List.singleton_append]
  · rw [reading.offset, List.length_append, List.length_singleton]
    omega

theorem Reading.row {kept rest : List OfferEntry} {offer : OfferEntry}
    {ahead : ℕ} {progress : Progress} {ledger : LedgerState}
    (reading : Reading computePrice sheep wheat kept (offer :: rest) ahead
      progress ledger) :
    ∃ row ∈ ledger.offers.rows, row.2 = offer := by
  have member : offer ∈
      orderBook computePrice ledger.offers wheat sheep := by
    rw [reading.book]
    exact List.mem_append_right _ List.mem_cons_self
  exact (mem_orderBook.mp member).1

theorem filter_offerID_ne {kept rest : List OfferEntry} {offer : OfferEntry}
    (distinct : ((kept ++ offer :: rest).map OfferEntry.offerID).Nodup) :
    (kept ++ offer :: rest).filter
      (fun other => other.offerID ≠ offer.offerID) = kept ++ rest := by
  rw [List.map_append, List.map_cons, List.nodup_middle,
    List.nodup_cons, ← List.map_append] at distinct
  rw [List.filter_append, List.filter_cons_of_neg (by simp),
    ← List.filter_append, List.filter_eq_self]
  intro other member
  have different : other.offerID ≠ offer.offerID := by
    intro same
    exact distinct.1 (List.mem_map.mpr ⟨other, member, same⟩)
  simpa using different

theorem Reading.taken {kept rest : List OfferEntry} {offer : OfferEntry}
    {ahead : ℕ} {progress : Progress} {ledger after : LedgerState}
    {crossing : Crossing}
    (reading : Reading computePrice sheep wheat kept (offer :: rest)
      (ahead + 1) progress ledger)
    (within : CrossedWithin ledger.offers offer.offerID
      progress.maxWheatReceive progress.maxSheepSend crossing after)
    (taken : crossing.result = .offerTaken)
    (more : (progress.add offer crossing).needMore = true) :
    Reading computePrice sheep wheat kept rest ahead
      (progress.add offer crossing) after := by
  have erased := within.taken taken
  have distinct : ((orderBook computePrice ledger.offers wheat sheep).map
      OfferEntry.offerID).Nodup :=
    reading.stored.offerIDs_nodup
  rw [reading.book] at distinct
  simp only [Progress.needMore, Bool.and_eq_true, decide_eq_true_eq] at more
  refine ⟨?_, ?_, ?_, ⟨more.2, ?_⟩, ⟨more.1, ?_⟩⟩
  · rw [erased]
    exact reading.stored.erase
  · rw [erased, reading.stored.orderBook_erase, reading.book]
    exact filter_offerID_ne distinct
  · simp only [Progress.add, taken, ↓reduceIte]
    have offset := reading.offset
    omega
  · have sent := within.sheep.1
    have most := reading.sheepLeft.2
    simp only [Progress.add]
    omega
  · have received := within.wheat.1
    have most := reading.wheatLeft.2
    simp only [Progress.add]
    omega

/-- A page is read as the walk goes over its offers, and what follows it goes
on as the walk over the rest of the book does. -/
theorem convertPage_eq {page later kept : List OfferEntry}
    {progress : Progress} {ledger : LedgerState}
    {next : Progress → Ledger (Option Conversion)}
    (reading : Reading computePrice sheep wheat kept (page ++ later)
      page.length progress ledger)
    (goesOn : ∀ kept progress ledger,
      Reading computePrice sheep wheat kept later 0 progress ledger →
        next progress ledger = progress.walkOn filter later ledger) :
    (convertPage filter page progress >>=
        Sum.elim (fun conversion => pure (some conversion)) next) ledger =
      progress.walkOn filter (page ++ later) ledger := by
  induction page generalizing kept progress ledger with
  | nil => exact goesOn kept progress ledger reading
  | cons offer page ih =>
      have limits : 0 < progress.maxSheepSend ∧ 0 < progress.maxWheatReceive :=
        ⟨reading.sheepLeft.1, reading.wheatLeft.1⟩
      unfold convertPage Progress.walkOn
      rw [List.cons_append, walk]
      cases filter offer with
      | stop =>
          simp only [pure_bind, Sum.elim_inl, Progress.then_nothing]
      | skip => exact ih reading.skip
      | keep =>
          simp only [bind_assoc]
          rw [run_bind, run_bind]
          cases crossed : crossOffer offer progress.maxWheatReceive
            progress.maxSheepSend ledger with
          | error failure after => rfl
          | ok crossing after =>
              obtain ⟨row, member, rfl⟩ := reading.row
              have within := (crossOffer_within
                (reading.stored.price row member)
                (reading.stored.amount row member) reading.wheatLeft.2
                reading.sheepLeft.2).of_ok crossed
              simp only [assert_true within.sheep.1,
                assert_true within.sheep.2, assert_true within.wheat.1,
                assert_true within.wheat.2, pure_bind, ge_iff_le]
              cases result : crossing.result with
              | offerCantConvert =>
                  simp only [pure_bind, Sum.elim_inl, Progress.then_nothing]
              | offerPartial =>
                  simp only [pure_bind, Sum.elim_inl, Progress.then_prepend,
                    Progress.then_nothing]
                  rfl
              | offerTaken =>
                  have counted : 0 < progress.offerOffset := by
                    rw [reading.offset, List.length_cons]
                    omega
                  simp only [gt_iff_lt, assert_true counted, pure_bind]
                  have same : (progress.add row.2 crossing).needMore =
                      (decide (0 < progress.maxWheatReceive -
                        crossing.numWheatReceived) &&
                      decide (0 < progress.maxSheepSend -
                        crossing.numSheepSend)) := rfl
                  rw [← same]
                  by_cases more :
                      (progress.add row.2 crossing).needMore = true
                  · rw [if_pos more, if_pos more,
                      ih (reading.taken within result more)]
                    simp only [Progress.walkOn, bind_assoc, pure_bind,
                      Progress.then_prepend]
                    rfl
                  · rw [if_neg more, if_neg more]
                    simp only [pure_bind, Sum.elim_inl,
                      Progress.then_prepend, Progress.then_nothing]

theorem Reading.needMore {kept rest : List OfferEntry} {ahead : ℕ}
    {progress : Progress} {ledger : LedgerState}
    (reading : Reading computePrice sheep wheat kept rest ahead progress
      ledger) : progress.needMore = true := by
  simp only [Progress.needMore, Bool.and_eq_true, decide_eq_true_eq]
  exact ⟨reading.wheatLeft.1, reading.sheepLeft.1⟩

theorem Reading.load {kept rest : List OfferEntry} {progress : Progress}
    {ledger : LedgerState}
    (reading : Reading computePrice sheep wheat kept rest 0 progress
      ledger) :
    loadBestOffers computePrice 5 progress.offerOffset wheat sheep ledger =
      .ok (rest.take 5) ledger := by
  have page : ((orderBook computePrice ledger.offers wheat sheep).drop
      progress.offerOffset).take 5 = rest.take 5 := by
    rw [reading.book, reading.offset, Nat.add_zero, List.drop_left]
  have valid : (rest.take 5).all OfferEntry.isValid = true := by
    rw [List.all_eq_true]
    intro offer member
    have listed : offer ∈
        orderBook computePrice ledger.offers wheat sheep := by
      rw [reading.book]
      exact List.mem_append_right _ (List.mem_of_mem_take member)
    obtain ⟨⟨row, stored, rfl⟩, _⟩ := mem_orderBook.mp listed
    exact reading.stored.valid row stored
  apply Ends.eq_ok
  unfold loadBestOffers
  simp only [Ends.bind_iff, Ends.get_iff, Ends.ite_iff, page, valid]
  exact ⟨fun _ => ⟨rfl, rfl⟩, fun impossible => absurd trivial impossible⟩

/-- As many turns as there are offers left suffice. -/
theorem convertPages_eq {turns : ℕ} {kept rest : List OfferEntry}
    {progress : Progress} {ledger : LedgerState}
    (reading : Reading computePrice sheep wheat kept rest 0 progress ledger)
    (enough : rest.length < turns) :
    convertPages computePrice sheep wheat filter turns progress ledger =
      progress.walkOn filter rest ledger := by
  induction turns generalizing kept rest progress ledger with
  | zero => omega
  | succ turns ih =>
      have paged : Reading computePrice sheep wheat kept
          (rest.take 5 ++ rest.drop 5) (rest.take 5).length
          { progress with
            offerOffset := progress.offerOffset + (rest.take 5).length }
          ledger := by
        rw [List.take_append_drop]
        exact ⟨reading.stored, reading.book,
          congrArg (· + (rest.take 5).length) reading.offset,
          reading.sheepLeft, reading.wheatLeft⟩
      have goesOn : ∀ kept progress ledger,
          Reading computePrice sheep wheat kept (rest.drop 5) 0 progress
            ledger →
          (if progress.needMore && decide ((rest.take 5).length < 5) then
            pure (some (progress.finish .ok))
          else
            convertPages computePrice sheep wheat filter turns
              progress) ledger =
            progress.walkOn filter (rest.drop 5) ledger := by
        intro kept progress ledger reading
        have more : progress.needMore = true := reading.needMore
        by_cases short : (rest.take 5).length < 5
        · have last : rest.drop 5 = [] := by
            rw [List.length_take] at short
            exact List.drop_eq_nil_of_le (by omega)
          rw [more, decide_eq_true short, Bool.and_self, if_pos rfl, last]
          simp only [Progress.walkOn, walk, pure_bind,
            Progress.then_nothing]
        · rw [decide_eq_false short, Bool.and_false, if_neg Bool.false_ne_true]
          apply ih reading
          rw [List.length_take] at short
          rw [List.length_drop]
          omega
      unfold convertPages
      rw [if_pos reading.needMore, run_bind, reading.load]
      have whole := convertPage_eq paged goesOn
      rw [List.take_append_drop] at whole
      refine Eq.trans ?_ whole
      simp only
      rw [run_bind, run_bind]
      cases convertPage filter (rest.take 5) _ ledger with
      | error failure after => rfl
      | ok returned after =>
          cases returned with
          | inl conversion => rfl
          | inr progress => rfl

/-- The walk over the book that the ledger has at the start. -/
def walkBook (computePrice : Price → ℚ) (sheep : Asset) (maxSheepSend : ℤ)
    (wheat : Asset) (maxWheatReceive : ℤ)
    (filter : OfferEntry → OfferFilterResult) : Ledger Conversion := do
  let book := orderBook computePrice (← get).offers wheat sheep
  if maxWheatReceive > 0 && maxSheepSend > 0 then
    walk filter book maxSheepSend maxWheatReceive
  else
    return .nothing .ok

theorem Progress.start_then (maxSheepSend maxWheatReceive : ℤ)
    (conversion : Conversion) :
    (Progress.start maxSheepSend maxWheatReceive).then conversion =
      conversion := by
  simp [Progress.then, Progress.start]

theorem convertPages_start {maxSheepSend maxWheatReceive : ℤ}
    {ledger : LedgerState} {turns : ℕ} (stored : OffersStored ledger.offers)
    (sheepMost : maxSheepSend ≤ int64Max)
    (wheatMost : maxWheatReceive ≤ int64Max)
    (enough : (orderBook computePrice ledger.offers wheat sheep).length <
      turns) :
    convertPages computePrice sheep wheat filter turns
        (.start maxSheepSend maxWheatReceive) ledger =
      (do return some (← walkBook computePrice sheep maxSheepSend wheat
        maxWheatReceive filter)) ledger := by
  unfold walkBook
  simp only [bind_assoc]
  rw [run_bind]
  show _ = ((if maxWheatReceive > 0 && maxSheepSend > 0 then _ else _) >>= _ :
    Ledger _) ledger
  by_cases limits : (decide (maxWheatReceive > 0) &&
      decide (maxSheepSend > 0)) = true
  · rw [if_pos limits]
    simp only [Bool.and_eq_true, decide_eq_true_eq] at limits
    have reading : Reading computePrice sheep wheat []
        (orderBook computePrice ledger.offers wheat sheep) 0
        (.start maxSheepSend maxWheatReceive) ledger :=
      ⟨stored, rfl, rfl, ⟨limits.2, sheepMost⟩, ⟨limits.1, wheatMost⟩⟩
    rw [convertPages_eq reading enough, Progress.walkOn]
    simp only [Progress.start_then]
    rfl
  · rw [if_neg limits]
    cases turns with
    | zero => omega
    | succ turns =>
        unfold convertPages
        have done : ¬ (Progress.start maxSheepSend
            maxWheatReceive).needMore = true := limits
        rw [if_neg done]
        rfl

theorem convertWithOffers_eq {maxSheepSend maxWheatReceive : ℤ}
    {ledger : LedgerState} (stored : OffersStored ledger.offers)
    (sheepMost : maxSheepSend ≤ int64Max)
    (wheatMost : maxWheatReceive ≤ int64Max) :
    convertWithOffers computePrice sheep maxSheepSend wheat maxWheatReceive
        filter ledger =
      walkBook computePrice sheep maxSheepSend wheat maxWheatReceive filter
        ledger := by
  have enough : (orderBook computePrice ledger.offers wheat sheep).length <
      ledger.offers.rows.length + 1 := by
    rw [orderBook_perm.length_eq, Nat.lt_succ_iff]
    refine (List.length_filter_le _ _).trans ?_
    rw [List.length_map]
  unfold convertWithOffers
  rw [run_bind]
  show (convertPages computePrice sheep wheat filter _ _ >>= _ : Ledger _)
    ledger = _
  rw [run_bind, convertPages_start stored sheepMost wheatMost enough, run_bind]
  cases walkBook computePrice sheep maxSheepSend wheat maxWheatReceive filter
    ledger with
  | ok conversion after => rfl
  | error failure after => rfl

/-- The totals are the sums over the trail and keep to the limits; the trail
names offers of the book, in its order and each at most once. -/
structure Conversion.Adds (conversion : Conversion) (book : List OfferEntry)
    (maxSheep maxWheat : ℤ) : Prop where
  sheepSum : conversion.sheepSend =
    (conversion.trail.map ClaimOfferAtom.amountBought).sum
  wheatSum : conversion.wheatReceived =
    (conversion.trail.map ClaimOfferAtom.amountSold).sum
  sheep : 0 ≤ conversion.sheepSend ∧ conversion.sheepSend ≤ maxSheep
  wheat : 0 ≤ conversion.wheatReceived ∧ conversion.wheatReceived ≤ maxWheat
  trail : (conversion.trail.map ClaimOfferAtom.offerID).Sublist
    (book.map OfferEntry.offerID)

theorem Conversion.Adds.nothing (result : ConvertResult)
    (book : List OfferEntry) {maxSheep maxWheat : ℤ} (sheep : 0 ≤ maxSheep)
    (wheat : 0 ≤ maxWheat) :
    (Conversion.nothing result).Adds book maxSheep maxWheat :=
  ⟨rfl, rfl, ⟨le_refl 0, sheep⟩, ⟨le_refl 0, wheat⟩, List.nil_sublist _⟩

theorem Conversion.Adds.prepend {conversion : Conversion}
    {book : List OfferEntry} {maxSheep maxWheat : ℤ} {offer : OfferEntry}
    {crossing : Crossing} {offers : Table ℕ OfferEntry} {after : LedgerState}
    (within : CrossedWithin offers offer.offerID maxWheat maxSheep crossing
      after)
    (adds : conversion.Adds book (maxSheep - crossing.numSheepSend)
      (maxWheat - crossing.numWheatReceived)) :
    (conversion.prepend offer crossing).Adds (offer :: book) maxSheep
      maxWheat := by
  have sheep := adds.sheep
  have wheat := adds.wheat
  have sent := within.sheep
  have received := within.wheat
  refine ⟨?_, ?_, ?_, ?_, ?_⟩
  · simp [Conversion.prepend, Crossing.claim, adds.sheepSum]
  · simp [Conversion.prepend, Crossing.claim, adds.wheatSum]
  · simp only [Conversion.prepend]
    omega
  · simp only [Conversion.prepend]
    omega
  · exact adds.trail.cons_cons offer.offerID

theorem Conversion.Adds.skip {conversion : Conversion}
    {book : List OfferEntry} {maxSheep maxWheat : ℤ}
    (adds : conversion.Adds book maxSheep maxWheat) (offer : OfferEntry) :
    conversion.Adds (offer :: book) maxSheep maxWheat :=
  ⟨adds.sheepSum, adds.wheatSum, adds.sheep, adds.wheat,
    adds.trail.cons offer.offerID⟩

theorem walk_adds {book : List OfferEntry} {maxSheep maxWheat : ℤ}
    {ledger : LedgerState}
    (usable : ∀ offer ∈ book, offer.price.Positive ∧
      offer.amount ≤ int64Max)
    (sheep : 0 ≤ maxSheep ∧ maxSheep ≤ int64Max)
    (wheat : 0 ≤ maxWheat ∧ maxWheat ≤ int64Max) :
    Ends (walk filter book maxSheep maxWheat) ledger
      (fun conversion _ => conversion.Adds book maxSheep maxWheat)
      (fun _ _ => True) := by
  induction book generalizing maxSheep maxWheat ledger with
  | nil => exact .nothing .ok [] sheep.1 wheat.1
  | cons offer book ih =>
      rw [List.forall_mem_cons] at usable
      unfold walk
      cases filter offer with
      | stop => exact .nothing (.filterStop offer) _ sheep.1 wheat.1
      | skip =>
          exact (ih usable.2 sheep wheat).mono
            (fun _ _ adds => adds.skip offer) (fun _ _ _ => trivial)
      | keep =>
          simp only
          rw [Ends.bind_iff]
          refine (crossOffer_within usable.1.1 usable.1.2 wheat.2
            sheep.2).mono ?_ (fun _ _ _ => trivial)
          intro crossing after within
          have sheepLeft : 0 ≤ maxSheep - crossing.numSheepSend ∧
              maxSheep - crossing.numSheepSend ≤ int64Max := by
            have sent := within.sheep
            omega
          have wheatLeft : 0 ≤ maxWheat - crossing.numWheatReceived ∧
              maxWheat - crossing.numWheatReceived ≤ int64Max := by
            have received := within.wheat
            omega
          have only : ∀ result, ((Conversion.nothing result).prepend offer
              crossing).Adds (offer :: book) maxSheep maxWheat := by
            intro result
            exact .prepend within
              (.nothing result book sheepLeft.1 wheatLeft.1)
          cases crossing.result with
          | offerCantConvert => exact .nothing .partially _ sheep.1 wheat.1
          | offerPartial => exact only _
          | offerTaken =>
              simp only
              rw [Ends.ite_iff]
              refine ⟨?_, fun _ => only .ok⟩
              intro _
              rw [Ends.bind_iff]
              exact (ih usable.2 sheepLeft wheatLeft).mono
                (fun _ _ adds => .prepend within adds) (fun _ _ _ => trivial)

theorem walkBook_adds {maxSheepSend maxWheatReceive : ℤ}
    {ledger : LedgerState} (stored : OffersStored ledger.offers)
    (sheepMost : maxSheepSend ≤ int64Max)
    (wheatMost : maxWheatReceive ≤ int64Max) :
    Ends (walkBook computePrice sheep maxSheepSend wheat maxWheatReceive
        filter) ledger
      (fun conversion _ => conversion.Adds
        (orderBook computePrice ledger.offers wheat sheep)
        (max 0 maxSheepSend) (max 0 maxWheatReceive))
      (fun _ _ => True) := by
  unfold walkBook
  rw [Ends.bind_iff, Ends.get_iff, Ends.ite_iff]
  constructor
  · intro limits
    simp only [Bool.and_eq_true, decide_eq_true_eq] at limits
    rw [max_eq_right limits.2.le, max_eq_right limits.1.le]
    refine walk_adds ?_ ⟨limits.2.le, sheepMost⟩ ⟨limits.1.le, wheatMost⟩
    intro offer member
    obtain ⟨⟨row, listed, rfl⟩, _⟩ := mem_orderBook.mp member
    exact ⟨stored.price row listed, stored.amount row listed⟩
  · intro _
    exact .nothing .ok _ (le_max_left _ _) (le_max_left _ _)

end Pages

/-- The loop over the pages ends, and it does what the walk over the book at
the start does; the totals are those of the offers that were crossed. -/
theorem convertWithOffers_walks (computePrice : Price → ℚ)
    (ledger : LedgerState) (sheep wheat : Asset)
    (maxSheepSend maxWheatReceive : ℤ)
    (filter : OfferEntry → OfferFilterResult)
    (stored : OffersStored ledger.offers)
    (sheepMost : maxSheepSend ≤ int64Max)
    (wheatMost : maxWheatReceive ≤ int64Max) :
    (∀ turns, (orderBook computePrice ledger.offers wheat sheep).length <
        turns →
      convertPages computePrice sheep wheat filter turns
          (.start maxSheepSend maxWheatReceive) ledger =
        (do return some (← walkBook computePrice sheep maxSheepSend wheat
          maxWheatReceive filter)) ledger) ∧
      convertWithOffers computePrice sheep maxSheepSend wheat
          maxWheatReceive filter ledger =
        walkBook computePrice sheep maxSheepSend wheat maxWheatReceive filter
          ledger ∧
      Ends (walkBook computePrice sheep maxSheepSend wheat maxWheatReceive
          filter) ledger
        (fun conversion _ => conversion.Adds
          (orderBook computePrice ledger.offers wheat sheep)
          (max 0 maxSheepSend) (max 0 maxWheatReceive))
        (fun _ _ => True) :=
  ⟨fun _ => convertPages_start stored sheepMost wheatMost,
    convertWithOffers_eq stored sheepMost wheatMost,
    walkBook_adds stored sheepMost wheatMost⟩

/-- Six offers of an account that does not hold what it sells. -/
def deadOffers : Table ℕ OfferEntry :=
  { rows := (List.range 6).map (fun index =>
      (index + 1,
        { sellerID := 1, offerID := index + 1
          selling := .alphaNum4 #v[85, 83, 68, 0] 2, buying := .native
          amount := 10, price := ⟨3, 2⟩, flags := 0, lastModified := 1 }))
    distinct := by decide }

def deadBook : LedgerState :=
  { accounts :=
      { rows := [(1, { AccountEntry.fresh 1 with
          balance := 1000000000, numSubEntries := 6 })]
        distinct := by decide }
    trustLines := .empty, offers := deadOffers, data := .empty
    header :=
      { ledgerVersion := 9, closeTime := 0, ledgerSeq := 2
        totalCoins := 1000000000000000000, feePool := 0, inflationSeq := 0
        idPool := 6, baseFee := 100, baseReserve := 100000000
        maxTxSetSize := 100 } }

/-- The offers taken, and those left in the ledger. -/
def takenAndLeft {ε : Type} :
    EStateM.Result ε LedgerState Conversion → Option (ℕ × ℕ)
  | .ok conversion after =>
      some (conversion.trail.length, after.offers.rows.length)
  | .error _ _ => none

/-- The sixth offer is on the second page; all six are deleted. -/
theorem convertWithOffers_walks_deadBook :
    OffersStored deadBook.offers ∧
      ∃ conversion after,
        convertWithOffers (fun price => price.n / price.d) .native 100
            (.alphaNum4 #v[85, 83, 68, 0] 2) 100 (fun _ => .keep) deadBook =
          .ok conversion after ∧
        walkBook (fun price => price.n / price.d) .native 100
            (.alphaNum4 #v[85, 83, 68, 0] 2) 100 (fun _ => .keep) deadBook =
          .ok conversion after ∧
        conversion.trail.length = 6 ∧ after.offers.rows.length = 0 := by
  have stored : OffersStored deadBook.offers := by
    refine ⟨by decide, by decide, ?_, by decide⟩
    intro row member
    obtain ⟨index, _, rfl⟩ := List.mem_map.mp member
    have three : (0 : ℤ) < 3 ∧ (3 : ℤ) ≤ int32Max := by decide
    have two : (0 : ℤ) < 2 ∧ (2 : ℤ) ≤ int32Max := by decide
    exact ⟨three, two⟩
  have same := (convertWithOffers_walks (fun price => price.n / price.d)
    deadBook .native (.alphaNum4 #v[85, 83, 68, 0] 2) 100 100
    (fun _ => .keep) stored (by decide) (by decide)).2.1
  have run : takenAndLeft (convertWithOffers
      (fun price => price.n / price.d) .native 100
      (.alphaNum4 #v[85, 83, 68, 0] 2) 100 (fun _ => .keep) deadBook) =
        some (6, 0) := by
    decide +kernel
  refine ⟨stored, ?_⟩
  rw [← same]
  unfold takenAndLeft at run
  split at run
  · rename_i conversion after walked
    have counts := Option.some.inj run
    exact ⟨conversion, after, walked, walked, congrArg Prod.fst counts,
      congrArg Prod.snd counts⟩
  · cases run

end StellarCore.Transactions
