import StellarCore.Lib.Attempt
import StellarCore.Transactions.AssetColumns
import StellarCore.Transactions.CrossOffer

/-!
# What a conversion does

`convertWithOffers` on a valid ledger: it does not fail, and what it has moved
is told by the offers in its trail.  It can be cut short by a payment that does
not fit, and then the offer it was for is stored all the same.
-/

namespace StellarCore.Transactions

open StellarCore.Lib

/-! ## Assets in the columns of the book -/

/-- Between valid assets the columns decide. -/
theorem Asset.eq_of_matchesColumn {asset column : Asset}
    (valid : asset.isAssetValid = true) (stored : column.isAssetValid = true)
    (same : asset.matchesColumn column = true) : column = asset := by
  rw [matchesColumn_eq_selects, selects_columns_iff valid stored] at same
  exact same.symm

section Settlement

variable {ledger middle after : LedgerState} {computePrice : Price → ℚ}
  {sheep wheat : Asset} {filter : OfferEntry → OfferFilterResult}
  {offer : OfferEntry} {crossing : Crossing} {conversion : Conversion}
  {maxSheep maxWheat : ℤ}

theorem LedgerState.Valid.offersStored (valid : ledger.Valid) :
    OffersStored ledger.offers where
  keyed row member := (valid.offers row member).keyed
  valid row member := (valid.offers row member).valid
  price row member := (valid.offers row member).positive
  amount row member := (valid.offers row member).most

/-- The offers of a book that are still to be visited are in the ledger. -/
structure BookStored (sheep wheat : Asset) (ledger : LedgerState)
    (book : List OfferEntry) : Prop where
  found : ∀ offer ∈ book, ledger.offers.find? offer.offerID = some offer
  sold : ∀ offer ∈ book, offer.selling = wheat
  bought : ∀ offer ∈ book, offer.buying = sheep
  distinct : (book.map OfferEntry.offerID).Nodup

theorem LedgerState.Valid.orderBook_stored (valid : ledger.Valid)
    (sheepValid : sheep.isAssetValid = true)
    (wheatValid : wheat.isAssetValid = true) :
    BookStored sheep wheat ledger
      (orderBook computePrice ledger.offers wheat sheep) := by
  have columns : ∀ offer ∈ orderBook computePrice ledger.offers wheat sheep,
      offer.selling = wheat ∧ offer.buying = sheep := by
    intro offer member
    obtain ⟨⟨row, listed, rfl⟩, inBook⟩ := mem_orderBook.mp member
    have entry := OfferEntry.isValid_iff.mp (valid.offers row listed).valid
    simp only [OfferEntry.inBook, Bool.and_eq_true] at inBook
    exact ⟨Asset.eq_of_matchesColumn wheatValid entry.selling inBook.1,
      Asset.eq_of_matchesColumn sheepValid entry.buying inBook.2⟩
  refine ⟨?_, fun offer member => (columns offer member).1,
    fun offer member => (columns offer member).2,
    valid.offersStored.offerIDs_nodup⟩
  intro offer member
  obtain ⟨⟨row, listed, rfl⟩, _⟩ := mem_orderBook.mp member
  rw [(valid.offers row listed).keyed]
  exact Table.find?_eq_some.mpr listed

theorem BookStored.tail {book : List OfferEntry}
    (stored : BookStored sheep wheat ledger (offer :: book)) :
    BookStored sheep wheat ledger book where
  found other member := stored.found other (List.mem_cons_of_mem _ member)
  sold other member := stored.sold other (List.mem_cons_of_mem _ member)
  bought other member := stored.bought other (List.mem_cons_of_mem _ member)
  distinct := (List.nodup_cons.mp stored.distinct).2

/-- A crossing leaves the other offers. -/
theorem Crossed.offers_other {before : LedgerState}
    (crossed : Crossed offer before crossing after)
    (can : crossing.result ≠ .offerCantConvert) {offerID : ℕ}
    (other : offerID ≠ offer.offerID) :
    after.offers.find? offerID = before.offers.find? offerID := by
  cases result : crossing.result with
  | offerCantConvert => exact absurd result can
  | offerTaken =>
      rw [crossed.taken result]
      simp [other]
  | offerPartial =>
      obtain ⟨amount, _, _, same⟩ := crossed.left result
      rw [same]
      simp [other]

/-! ## Moves of a trail -/

def ClaimOfferAtom.moves (atom : ClaimOfferAtom) : List Move :=
  [⟨atom.sellerID, atom.assetBought, atom.amountBought⟩,
    ⟨atom.sellerID, atom.assetSold, -atom.amountSold⟩]

def movesOf (trail : List ClaimOfferAtom) : List Move :=
  trail.flatMap ClaimOfferAtom.moves

theorem mem_movesOf {trail : List ClaimOfferAtom} {move : Move}
    (member : move ∈ movesOf trail) :
    ∃ atom ∈ trail, move.id = atom.sellerID := by
  obtain ⟨atom, listed, found⟩ := List.mem_flatMap.mp member
  refine ⟨atom, listed, ?_⟩
  simp only [ClaimOfferAtom.moves, List.mem_cons, List.not_mem_nil,
    or_false] at found
  obtain rfl | rfl := found
  · rfl
  · rfl

/-- An offer of the ledger that the filter let pass was crossed, as the atom
tells. -/
structure Claimed (filter : OfferEntry → OfferFilterResult)
    (sheep wheat : Asset) (before : LedgerState) (atom : ClaimOfferAtom) :
    Prop where
  offer : ∃ offer, before.offers.find? atom.offerID = some offer ∧
    filter offer = .keep ∧ offer.sellerID = atom.sellerID
  sold : atom.assetSold = wheat
  bought : atom.assetBought = sheep
  amounts : (atom.amountSold = 0 ∧ atom.amountBought = 0) ∨
    (0 < atom.amountSold ∧ 0 < atom.amountBought)

/-- What a conversion has done when it ends. -/
structure Settled (filter : OfferEntry → OfferFilterResult)
    (sheep wheat : Asset) (before : LedgerState) (conversion : Conversion)
    (after : LedgerState) : Prop where
  valid : after.Valid
  moved : Moved (movesOf conversion.trail) before after
  claimed : ∀ atom ∈ conversion.trail,
    Claimed filter sheep wheat before atom
  others : ∀ offerID, offerID ∉ conversion.trail.map ClaimOfferAtom.offerID →
    after.offers.find? offerID = before.offers.find? offerID
  header : after.header = before.header

theorem Settled.nothing (valid : ledger.Valid) (result : ConvertResult) :
    Settled filter sheep wheat ledger (.nothing result) ledger where
  valid := valid
  moved := .refl ledger
  claimed _ member := absurd member List.not_mem_nil
  others _ _ := rfl
  header := rfl

/-- A crossing in front of a conversion. -/
theorem Settled.prepend
    (crossed : Crossed offer ledger crossing middle)
    (can : crossing.result ≠ .offerCantConvert)
    (found : ledger.offers.find? offer.offerID = some offer)
    (kept : filter offer = .keep) (sold : offer.selling = wheat)
    (bought : offer.buying = sheep)
    (header : middle.header = ledger.header)
    (later : offer.offerID ∉
      conversion.trail.map ClaimOfferAtom.offerID)
    (settled : Settled filter sheep wheat middle conversion after) :
    Settled filter sheep wheat ledger (conversion.prepend offer crossing)
      after where
  valid := settled.valid
  moved := crossed.moved.append settled.moved
  claimed := by
    intro atom member
    obtain rfl | listed := List.mem_cons.mp member
    · exact ⟨⟨offer, found, kept, rfl⟩, sold, bought, crossed.amounts⟩
    · obtain ⟨⟨other, stored, pass, seller⟩, sold, bought, amounts⟩ :=
        settled.claimed atom listed
      refine ⟨⟨other, ?_, pass, seller⟩, sold, bought, amounts⟩
      rw [← crossed.offers_other can]
      · exact stored
      · intro same
        exact later (same ▸ List.mem_map_of_mem listed)
  others := by
    intro offerID absent
    rw [Conversion.prepend, List.map_cons, List.mem_cons, not_or] at absent
    rw [settled.others offerID absent.2, crossed.offers_other can absent.1]
  header := settled.header.trans header

/-- The conversion is cut short by an offer that is stored without being paid
for. -/
structure CutShort (filter : OfferEntry → OfferFilterResult) (sheep : Asset)
    (maxSheep : ℤ) (conversion : Conversion) (middle after : LedgerState) :
    Prop where
  valid : after.Valid
  result : conversion.result = .partially
  native : sheep = .native
  exceeds : ∃ offer, filter offer = .keep ∧
    int64Max < middle.holding offer.sellerID .native +
      (maxSheep - conversion.sheepSend)

/-- A conversion ends after the offers of its trail have been settled. -/
def Converts (filter : OfferEntry → OfferFilterResult) (sheep wheat : Asset)
    (maxSheep : ℤ) (before : LedgerState) (conversion : Conversion)
    (after : LedgerState) : Prop :=
  ∃ middle, Settled filter sheep wheat before conversion middle ∧
    (after = middle ∨ CutShort filter sheep maxSheep conversion middle after)

theorem Converts.of_settled
    (settled : Settled filter sheep wheat ledger conversion after) :
    Converts filter sheep wheat maxSheep ledger conversion after :=
  ⟨after, settled, .inl rfl⟩

theorem CutShort.prepend
    (short : CutShort filter sheep (maxSheep - crossing.numSheepSend)
      conversion middle after) :
    CutShort filter sheep maxSheep (conversion.prepend offer crossing) middle
      after where
  valid := short.valid
  result := short.result
  native := short.native
  exceeds := by
    obtain ⟨other, kept, exceeds⟩ := short.exceeds
    refine ⟨other, kept, ?_⟩
    simp only [Conversion.prepend]
    omega

theorem CutShort.of_unpaid (bought : offer.buying = sheep)
    (kept : filter offer = .keep) (valid : after.Valid)
    (exceeds : ¬ PaymentFits ledger offer maxWheat maxSheep) :
    CutShort filter sheep maxSheep (.nothing .partially) ledger after := by
  unfold PaymentFits at exceeds
  rw [Classical.not_imp] at exceeds
  obtain ⟨native, exceeds⟩ := exceeds
  simp only [not_or, not_le] at exceeds
  refine ⟨valid, rfl, bought.symm.trans native, offer, kept, ?_⟩
  have more := exceeds.1
  simp only [Conversion.nothing]
  omega

/-- The rest of the book is not touched by a crossing. -/
theorem BookStored.crossed {book : List OfferEntry}
    (stored : BookStored sheep wheat ledger (offer :: book))
    (crossed : Crossed offer ledger crossing middle)
    (can : crossing.result ≠ .offerCantConvert) :
    BookStored sheep wheat middle book :=
  { stored.tail with
    found := by
      intro other member
      rw [crossed.offers_other can]
      · exact stored.tail.found other member
      · intro same
        apply (List.nodup_cons.mp stored.distinct).1
        exact same ▸ List.mem_map_of_mem member }

theorem BookStored.usable {book : List OfferEntry}
    (stored : BookStored sheep wheat ledger book) (valid : ledger.Valid) :
    ∀ offer ∈ book, offer.price.Positive ∧ offer.amount ≤ int64Max := by
  intro offer member
  have entry := valid.offers.found (stored.found offer member)
  exact ⟨entry.positive, entry.most⟩

theorem Converts.prepend {conversion : Conversion} {book : List OfferEntry}
    {maxSheep' maxWheat' : ℤ}
    (crossed : Crossed offer ledger crossing middle)
    (can : crossing.result ≠ .offerCantConvert)
    (found : ledger.offers.find? offer.offerID = some offer)
    (kept : filter offer = .keep) (sold : offer.selling = wheat)
    (bought : offer.buying = sheep)
    (header : middle.header = ledger.header)
    (absent : offer.offerID ∉ book.map OfferEntry.offerID)
    (adds : conversion.Adds book maxSheep' maxWheat')
    (converts : Converts filter sheep wheat
      (maxSheep - crossing.numSheepSend) middle conversion after) :
    Converts filter sheep wheat maxSheep ledger
      (conversion.prepend offer crossing) after := by
  obtain ⟨last, settled, ends⟩ := converts
  have later : offer.offerID ∉
      conversion.trail.map ClaimOfferAtom.offerID :=
    fun member => absent (adds.trail.subset member)
  refine ⟨last, .prepend crossed can found kept sold bought header later
    settled, ?_⟩
  obtain same | short := ends
  · exact .inl same
  · exact .inr short.prepend

/-- The walk over a book, one offer after the other. -/
theorem walk_converts {book : List OfferEntry} (valid : ledger.Valid)
    (version : ledger.header.ledgerVersion = 9)
    (stored : BookStored sheep wheat ledger book)
    (sheepMost : 0 < maxSheep ∧ maxSheep ≤ int64Max)
    (wheatMost : 0 < maxWheat ∧ maxWheat ≤ int64Max) :
    Ends (walk filter book maxSheep maxWheat) ledger
      (Converts filter sheep wheat maxSheep ledger)
      (fun _ _ => False) := by
  induction book generalizing ledger maxSheep maxWheat with
  | nil => exact .of_settled (.nothing valid .ok)
  | cons offer book ih =>
      have found := stored.found offer List.mem_cons_self
      have sold := stored.sold offer List.mem_cons_self
      have bought := stored.bought offer List.mem_cons_self
      have absent := (List.nodup_cons.mp stored.distinct).1
      unfold walk
      cases pass : filter offer with
      | stop => exact .of_settled (.nothing valid (.filterStop offer))
      | skip => exact ih valid version stored.tail sheepMost wheatMost
      | keep =>
          obtain ⟨crossing, middle, run, outcome⟩ :=
            valid.crossOffer_outcome version found wheatMost sheepMost
          simp only
          rw [Ends.bind_iff]
          refine .of_run run ?_
          cases outcome with
          | kept cant _ _ =>
              rw [cant]
              exact .of_settled (.nothing valid .partially)
          | unpaid cant exceeds afterValid _ =>
              rw [cant]
              exact ⟨ledger, .nothing valid .partially,
                .inr (.of_unpaid bought pass afterValid exceeds)⟩
          | crossed can _ afterValid moved header _ =>
              have only : ∀ result, Converts filter sheep wheat maxSheep
                  ledger ((Conversion.nothing result).prepend offer crossing)
                  middle := by
                intro result
                exact .of_settled (.prepend moved can found pass sold bought
                  header List.not_mem_nil (.nothing afterValid result))
              have amounts := moved.amounts
              cases result : crossing.result with
              | offerCantConvert => exact absurd result can
              | offerPartial => exact only _
              | offerTaken =>
                  simp only
                  rw [Ends.ite_iff]
                  refine ⟨?_, fun _ => only .ok⟩
                  intro more
                  simp only [Bool.and_eq_true, decide_eq_true_eq] at more
                  have rest := stored.crossed moved can
                  have sheepLeft : 0 < maxSheep - crossing.numSheepSend ∧
                      maxSheep - crossing.numSheepSend ≤ int64Max := by omega
                  have wheatLeft :
                      0 < maxWheat - crossing.numWheatReceived ∧
                        maxWheat - crossing.numWheatReceived ≤ int64Max := by
                    omega
                  rw [Ends.bind_iff]
                  refine ((ih afterValid (moved.moved.version.trans version)
                    rest sheepLeft wheatLeft).and (walk_adds
                      (rest.usable afterValid)
                      ⟨sheepLeft.1.le, sheepLeft.2⟩
                      ⟨wheatLeft.1.le, wheatLeft.2⟩)).mono ?_
                      (fun _ _ impossible => impossible.1)
                  rintro conversion after ⟨converts, adds⟩
                  exact .prepend moved can found pass sold bought header
                    absent adds converts

/-- What a conversion does, with its totals. -/
structure Conversion.Settles (filter : OfferEntry → OfferFilterResult)
    (sheep wheat : Asset) (maxSheep maxWheat : ℤ) (before : LedgerState)
    (conversion : Conversion) (after : LedgerState) : Prop where
  converts : Converts filter sheep wheat maxSheep before conversion after
  sheepSum : conversion.sheepSend =
    (conversion.trail.map ClaimOfferAtom.amountBought).sum
  wheatSum : conversion.wheatReceived =
    (conversion.trail.map ClaimOfferAtom.amountSold).sum
  sheep : 0 ≤ conversion.sheepSend ∧ conversion.sheepSend ≤ max 0 maxSheep
  wheat : 0 ≤ conversion.wheatReceived ∧
    conversion.wheatReceived ≤ max 0 maxWheat

theorem LedgerState.Valid.convertWithOffers_settles (valid : ledger.Valid)
    (version : ledger.header.ledgerVersion = 9)
    (sheepValid : sheep.isAssetValid = true)
    (wheatValid : wheat.isAssetValid = true) (sheepMost : maxSheep ≤ int64Max)
    (wheatMost : maxWheat ≤ int64Max) :
    Ends (convertWithOffers computePrice sheep maxSheep wheat maxWheat filter)
      ledger (Conversion.Settles filter sheep wheat maxSheep maxWheat ledger)
      (fun _ _ => False) := by
  have converts : Ends (walkBook computePrice sheep maxSheep wheat maxWheat
      filter) ledger (Converts filter sheep wheat maxSheep ledger)
      (fun _ _ => False) := by
    unfold walkBook
    rw [Ends.bind_iff, Ends.get_iff, Ends.ite_iff]
    constructor
    · intro limits
      simp only [Bool.and_eq_true, decide_eq_true_eq] at limits
      exact walk_converts valid version
        (valid.orderBook_stored sheepValid wheatValid) ⟨limits.2, sheepMost⟩
        ⟨limits.1, wheatMost⟩
    · exact fun _ => .of_settled (.nothing valid .ok)
  have both := converts.and
    (walkBook_adds valid.offersStored sheepMost wheatMost)
  unfold Ends
  rw [convertWithOffers_eq valid.offersStored sheepMost wheatMost]
  refine both.mono ?_ (fun _ _ impossible => impossible.1)
  rintro conversion after ⟨converts, adds⟩
  exact ⟨converts, adds.sheepSum, adds.wheatSum, adds.sheep, adds.wheat⟩

end Settlement

/-! ## Totals of a trail -/

section Trail

variable {sheep wheat : Asset} {filter : OfferEntry → OfferFilterResult}
  {ledger : LedgerState} {trail : List ClaimOfferAtom}

theorem movesOf_cons (atom : ClaimOfferAtom) (trail : List ClaimOfferAtom) :
    movesOf (atom :: trail) = atom.moves ++ movesOf trail :=
  rfl

theorem movesOf_append (first second : List ClaimOfferAtom) :
    movesOf (first ++ second) = movesOf first ++ movesOf second :=
  List.flatMap_append

/-- A conversion takes wheat out of the book and puts sheep in. -/
theorem grossSum_movesOf
    (claimed : ∀ atom ∈ trail, Claimed filter sheep wheat ledger atom)
    (asset : Asset) :
    grossSum (movesOf trail) asset =
      (if sheep = asset then (trail.map ClaimOfferAtom.amountBought).sum
        else 0) -
      if wheat = asset then (trail.map ClaimOfferAtom.amountSold).sum
        else 0 := by
  induction trail with
  | nil => simp [movesOf]
  | cons atom trail ih =>
      rw [List.forall_mem_cons] at claimed
      rw [movesOf_cons, grossSum_append, ih claimed.2]
      simp only [ClaimOfferAtom.moves, grossSum_cons, grossSum_nil,
        Move.grossOf, claimed.1.sold, claimed.1.bought, List.map_cons,
        List.sum_cons]
      by_cases bought : sheep = asset
      · by_cases sold : wheat = asset
        · simp only [bought, sold, ↓reduceIte]
          omega
        · simp only [bought, sold, ↓reduceIte]
          omega
      · by_cases sold : wheat = asset
        · simp only [bought, sold, ↓reduceIte]
          omega
        · simp only [bought, sold, ↓reduceIte]
          omega

theorem sumOf_native (moves : List Move) :
    sumOf moves .native = grossSum moves .native := by
  have issued : issuerSum moves .native = 0 := by
    simp [issuerSum, Move.issuedOf, Asset.isIssuedBy]
  rw [grossSum_eq, issued, add_zero]

/-- Two accounts hold no more than all of them. -/
theorem LedgerState.Valid.holding_add_le_total {ledger : LedgerState}
    (valid : ledger.Valid) {first second : AccountID} {a b : AccountEntry}
    (found : ledger.accounts.find? first = some a)
    (found' : ledger.accounts.find? second = some b)
    (apart : second ≠ first) :
    a.balance + b.balance ≤ ledger.total .native := by
  have nonneg : ledger.accounts.All (fun _ a => 0 ≤ a.balance) :=
    fun row member =>
      (AccountEntry.isValid_iff.mp (valid.accounts row member).valid).balance
  exact Table.add_le_sum nonneg found found' apart

theorem LedgerState.Valid.balance_le_total {ledger : LedgerState}
    (valid : ledger.Valid) {id : AccountID} {a : AccountEntry}
    (found : ledger.accounts.find? id = some a) :
    a.balance ≤ ledger.total .native := by
  have nonneg : ledger.accounts.All (fun _ a => 0 ≤ a.balance) :=
    fun row member =>
      (AccountEntry.isValid_iff.mp (valid.accounts row member).valid).balance
  exact Table.le_sum nonneg found

theorem amounts_sum
    (claimed : ∀ atom ∈ trail, Claimed filter sheep wheat ledger atom) :
    ((trail.map ClaimOfferAtom.amountSold).sum = 0 ∧
        (trail.map ClaimOfferAtom.amountBought).sum = 0) ∨
      (0 < (trail.map ClaimOfferAtom.amountSold).sum ∧
        0 < (trail.map ClaimOfferAtom.amountBought).sum) := by
  induction trail with
  | nil => exact .inl ⟨rfl, rfl⟩
  | cons atom trail ih =>
      rw [List.forall_mem_cons] at claimed
      have amounts := claimed.1.amounts
      have rest := ih claimed.2
      simp only [List.map_cons, List.sum_cons]
      omega

end Trail

end StellarCore.Transactions
