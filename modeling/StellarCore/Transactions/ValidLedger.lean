import StellarCore.Transactions.EntryRules

/-!
# Valid ledgers

What every ledger satisfies between two operations: each row stands under the
key it names and satisfies its `isValid` predicate, sub-entries belong to
accounts that exist, and each account counts them.  On such a ledger entries
are loaded and stored without a failure.
-/

namespace StellarCore.Transactions

open StellarCore.Lib

structure AccountStored (id : AccountID) (a : AccountEntry) : Prop where
  keyed : a.accountID = id
  valid : a.isValid = true
  most : a.balance ≤ int64Max

structure LineStored (key : AccountID × Asset) (line : TrustLineEntry) :
    Prop where
  keyed : (line.accountID, line.asset) = key
  valid : line.isValid = true
  most : line.limit ≤ int64Max
  holder : line.accountID ≠ line.asset.getIssuer

structure OfferStored (offerID : ℕ) (offer : OfferEntry) : Prop where
  keyed : offer.offerID = offerID
  valid : offer.isValid = true
  most : offer.amount ≤ int64Max
  priceMost : offer.price.n ≤ int32Max ∧ offer.price.d ≤ int32Max
  apart : offer.selling ≠ offer.buying

structure DataStored (key : AccountID × List UInt8) (entry : DataEntry) :
    Prop where
  keyed : (entry.accountID, entry.dataName) = key
  valid : entry.isValid = true

namespace LedgerState

/-- The trust lines, offers and data entries of an account. -/
def owned (ledger : LedgerState) (id : AccountID) : ℤ :=
  ledger.trustLines.sum (fun key _ => if key.1 = id then 1 else 0) +
    ledger.offers.sum (fun _ offer => if offer.sellerID = id then 1 else 0) +
    ledger.data.sum (fun key _ => if key.1 = id then 1 else 0)

/-- Valid but for the counts of sub-entries: `off` says how many an account
has more than it counts. -/
structure ValidUpTo (ledger : LedgerState) (off : AccountID → ℤ) : Prop where
  accounts : ledger.accounts.All AccountStored
  trustLines : ledger.trustLines.All LineStored
  offers : ledger.offers.All OfferStored
  data : ledger.data.All DataStored
  holders : ledger.trustLines.All
    (fun key _ => ledger.accounts.contains key.1 = true)
  sellers : ledger.offers.All
    (fun _ offer => ledger.accounts.contains offer.sellerID = true)
  namers : ledger.data.All
    (fun key _ => ledger.accounts.contains key.1 = true)
  counted : ledger.accounts.All (fun id a =>
    a.numSubEntries + off id = a.signers.length + ledger.owned id)
  numbered : ledger.offers.All (fun offerID _ =>
    offerID ≤ ledger.header.idPool)
  started : ledger.header.ledgerSeq ≠ 0
  sequence : ledger.header.ledgerSeq ≤ int32Max

/-- The sub-entries are counted as `checkDbState` counts them. -/
abbrev Valid (ledger : LedgerState) : Prop :=
  ledger.ValidUpTo (fun _ => 0)

end LedgerState

instance (id : AccountID) (a : AccountEntry) :
    Decidable (AccountStored id a) :=
  decidable_of_iff
    (a.accountID = id ∧ a.isValid = true ∧ a.balance ≤ int64Max)
    ⟨fun ⟨keyed, valid, most⟩ => ⟨keyed, valid, most⟩,
      fun stored => ⟨stored.keyed, stored.valid, stored.most⟩⟩

instance (key : AccountID × Asset) (line : TrustLineEntry) :
    Decidable (LineStored key line) :=
  decidable_of_iff
    ((line.accountID, line.asset) = key ∧ line.isValid = true ∧
      line.limit ≤ int64Max ∧ line.accountID ≠ line.asset.getIssuer)
    ⟨fun ⟨keyed, valid, most, holder⟩ => ⟨keyed, valid, most, holder⟩,
      fun stored =>
        ⟨stored.keyed, stored.valid, stored.most, stored.holder⟩⟩

instance (offerID : ℕ) (offer : OfferEntry) :
    Decidable (OfferStored offerID offer) :=
  decidable_of_iff
    (offer.offerID = offerID ∧ offer.isValid = true ∧
      offer.amount ≤ int64Max ∧
      (offer.price.n ≤ int32Max ∧ offer.price.d ≤ int32Max) ∧
      offer.selling ≠ offer.buying)
    ⟨fun ⟨keyed, valid, most, priceMost, apart⟩ =>
        ⟨keyed, valid, most, priceMost, apart⟩,
      fun stored => ⟨stored.keyed, stored.valid, stored.most,
        stored.priceMost, stored.apart⟩⟩

instance (key : AccountID × List UInt8) (entry : DataEntry) :
    Decidable (DataStored key entry) :=
  decidable_of_iff
    ((entry.accountID, entry.dataName) = key ∧ entry.isValid = true)
    ⟨fun ⟨keyed, valid⟩ => ⟨keyed, valid⟩,
      fun stored => ⟨stored.keyed, stored.valid⟩⟩

instance {κ ν : Type} (table : Table κ ν) (holds : κ → ν → Prop)
    [∀ key value, Decidable (holds key value)] :
    Decidable (table.All holds) :=
  inferInstanceAs (Decidable (∀ row ∈ table.rows, holds row.1 row.2))

/-- Whether a ledger is valid can be computed. -/
instance (ledger : LedgerState) : Decidable ledger.Valid :=
  decidable_of_iff
    ((ledger.accounts.All AccountStored ∧
      ledger.trustLines.All LineStored ∧
      ledger.offers.All OfferStored ∧ ledger.data.All DataStored) ∧
      (ledger.trustLines.All
        (fun key _ => ledger.accounts.contains key.1 = true) ∧
      ledger.offers.All
        (fun _ offer => ledger.accounts.contains offer.sellerID = true) ∧
      ledger.data.All
        (fun key _ => ledger.accounts.contains key.1 = true)) ∧
      ledger.accounts.All (fun id a =>
        a.numSubEntries + 0 = a.signers.length + ledger.owned id) ∧
      ledger.offers.All (fun offerID _ =>
        offerID ≤ ledger.header.idPool) ∧
      ledger.header.ledgerSeq ≠ 0 ∧ ledger.header.ledgerSeq ≤ int32Max)
    ⟨fun ⟨⟨accounts, trustLines, offers, data⟩, ⟨holders, sellers, namers⟩,
        counted, numbered, started, sequence⟩ =>
        ⟨accounts, trustLines, offers, data, holders, sellers, namers,
          counted, numbered, started, sequence⟩,
      fun valid => ⟨⟨valid.accounts, valid.trustLines, valid.offers,
        valid.data⟩, ⟨valid.holders, valid.sellers, valid.namers⟩,
        valid.counted, valid.numbered, valid.started, valid.sequence⟩⟩

/-! ## Loading -/

section Loading

variable {ledger : LedgerState} {id : AccountID} {asset : Asset}

theorem LedgerState.owned_nonneg (ledger : LedgerState) (id : AccountID) :
    0 ≤ ledger.owned id := by
  have positive : ∀ condition : Prop, [Decidable condition] →
      (0 : ℤ) ≤ if condition then 1 else 0 := by
    intro condition _
    split
    · decide
    · decide
  unfold owned
  refine add_nonneg (add_nonneg ?_ ?_) ?_
  · exact Table.sum_nonneg (fun _ _ => positive _)
  · exact Table.sum_nonneg (fun _ _ => positive _)
  · exact Table.sum_nonneg (fun _ _ => positive _)

theorem LedgerState.Valid.loaded (valid : ledger.Valid) {a : AccountEntry}
    (found : ledger.accounts.find? id = some a) : a.loaded id = a := by
  have stored := valid.accounts.found found
  have counted := valid.counted.found found
  have owned := ledger.owned_nonneg id
  have signers : (if a.numSubEntries = 0 then [] else a.signers) =
      a.signers := by
    split
    case isTrue none =>
        have empty : a.signers.length = 0 := by
          rw [none] at counted
          omega
        exact (List.eq_nil_of_length_eq_zero empty).symm
    case isFalse => rfl
  rw [AccountEntry.loaded, signers, ← stored.keyed]

theorem LedgerState.Valid.loadAccount (valid : ledger.Valid)
    (id : AccountID) :
    loadAccount id ledger = .ok (ledger.accounts.find? id) ledger := by
  apply Ends.eq_ok
  rw [loadAccount_ends]
  refine ⟨fun none => ⟨none.symm, rfl⟩, ?_⟩
  intro a found
  rw [valid.loaded found, (valid.accounts.found found).valid]
  exact ⟨fun _ => ⟨found.symm, rfl⟩, fun impossible => by cases impossible⟩

/-- The trust line of an account as `loadTrustLine` returns it. -/
def LedgerState.lineOf (ledger : LedgerState) (id : AccountID)
    (asset : Asset) : Option TrustFrame :=
  if id = asset.getIssuer then
    some (.createIssuerFrame asset)
  else
    (ledger.trustLines.find? (id, asset)).map
      (fun line => { line, mIsIssuer := false })

theorem LedgerState.Valid.loadTrustLine (valid : ledger.Valid)
    (id : AccountID) (credit : asset ≠ .native) :
    loadTrustLine id asset ledger = .ok (ledger.lineOf id asset) ledger := by
  apply Ends.eq_ok
  unfold StellarCore.Transactions.loadTrustLine LedgerState.lineOf
  rw [if_neg credit]
  by_cases issuer : id = asset.getIssuer
  · rw [if_pos issuer, if_pos issuer, Ends.pure_iff]
    exact ⟨rfl, rfl⟩
  · rw [if_neg issuer, if_neg issuer, Ends.bind_iff, Ends.get_iff]
    cases found : ledger.trustLines.find? (id, asset) with
    | none => exact ⟨rfl, rfl⟩
    | some row =>
        have stored := valid.trustLines.found found
        have holder : row.accountID = id := congrArg Prod.fst stored.keyed
        have held : row.asset = asset := congrArg Prod.snd stored.keyed
        have same : { row with accountID := id, asset } = row := by
          rw [← holder, ← held]
        simp only [same]
        rw [if_pos stored.valid]
        exact ⟨rfl, rfl⟩

end Loading

/-! ## Storing -/

section Storing

variable {ledger : LedgerState} {off : AccountID → ℤ}

def LedgerState.putAccount (ledger : LedgerState) (a : AccountEntry) :
    LedgerState :=
  { ledger with
    accounts := ledger.accounts.update a.accountID
      { a with lastModified := ledger.header.ledgerSeq } }

def LedgerState.putLine (ledger : LedgerState) (line : TrustLineEntry) :
    LedgerState :=
  { ledger with
    trustLines := ledger.trustLines.update (line.accountID, line.asset)
      { line with lastModified := ledger.header.ledgerSeq } }

def LedgerState.putOffer (ledger : LedgerState) (offer : OfferEntry) :
    LedgerState :=
  { ledger with
    offers := ledger.offers.update offer.offerID
      { offer with lastModified := ledger.header.ledgerSeq } }

def LedgerState.dropOffer (ledger : LedgerState) (offerID : ℕ) :
    LedgerState :=
  { ledger with offers := ledger.offers.erase offerID }

theorem AccountEntry.isValid_stamp {a : AccountEntry} {stamp : ℕ}
    (valid : a.isValid = true) (small : stamp ≤ int32Max) :
    { a with lastModified := stamp }.isValid = true := by
  rw [AccountEntry.isValid_iff] at valid ⊢
  exact { valid with lastModified := small }

theorem TrustLineEntry.isValid_stamp {line : TrustLineEntry} {stamp : ℕ}
    (valid : line.isValid = true) (small : stamp ≤ int32Max) :
    { line with lastModified := stamp }.isValid = true := by
  rw [TrustLineEntry.isValid_iff] at valid ⊢
  exact { valid with lastModified := small }

theorem DataEntry.isValid_stamp {entry : DataEntry} {stamp : ℕ}
    (valid : entry.isValid = true) (small : stamp ≤ int32Max) :
    { entry with lastModified := stamp }.isValid = true := by
  rw [DataEntry.isValid_iff] at valid ⊢
  exact { valid with lastModified := small }

theorem LedgerState.ValidUpTo.storeChangeAccount
    (valid : ledger.ValidUpTo off) {a : AccountEntry}
    (storable : a.isValid = true)
    (present : ledger.accounts.contains a.accountID = true) :
    storeChangeAccount a ledger =
      .ok { a with lastModified := ledger.header.ledgerSeq }
        (ledger.putAccount a) := by
  apply Ends.eq_ok
  rw [storeChangeAccount_ends valid.started, storable, present]
  exact ⟨fun _ => ⟨fun _ => ⟨rfl, rfl⟩, fun impossible => by
    cases impossible⟩, fun impossible => by cases impossible⟩

theorem LedgerState.ValidUpTo.storeChangeTrust
    (valid : ledger.ValidUpTo off) {line : TrustLineEntry}
    (storable : line.isValid = true)
    (holder : line.accountID ≠ line.asset.getIssuer)
    (present : ledger.trustLines.contains (line.accountID, line.asset) =
      true) :
    storeChangeTrust ⟨line, false⟩ ledger =
      .ok ⟨{ line with lastModified := ledger.header.ledgerSeq }, false⟩
        (ledger.putLine line) := by
  apply Ends.eq_ok
  unfold StellarCore.Transactions.storeChangeTrust checkKeyFields
  rw [if_pos storable]
  simp only [Bool.false_eq_true, ↓reduceIte]
  rw [Ends.bind_iff, touch_ends]
  refine ⟨fun _ => ?_, fun zero => absurd zero valid.started⟩
  simp only [if_neg holder]
  rw [Ends.bind_iff, Ends.pure_iff, Ends.bind_iff, Ends.get_iff,
    if_pos present]
  exact ⟨rfl, rfl⟩

theorem LedgerState.ValidUpTo.storeChangeOffer
    (valid : ledger.ValidUpTo off) {offer : OfferEntry}
    (storable : { offer with
      lastModified := ledger.header.ledgerSeq }.isValid = true)
    (present : ledger.offers.contains offer.offerID = true) :
    storeChangeOffer offer ledger =
      .ok { offer with lastModified := ledger.header.ledgerSeq }
        (ledger.putOffer offer) := by
  apply Ends.eq_ok
  unfold StellarCore.Transactions.storeChangeOffer
  rw [Ends.bind_iff, touch_ends]
  refine ⟨fun _ => ?_, fun zero => absurd zero valid.started⟩
  simp only
  rw [if_pos storable, Ends.bind_iff, Ends.get_iff, if_pos present]
  exact ⟨rfl, rfl⟩

namespace LedgerState

theorem contains_putAccount (a : AccountEntry) (id : AccountID) :
    (ledger.putAccount a).accounts.contains id =
      ledger.accounts.contains id :=
  Table.contains_update

theorem find?_putAccount {a old : AccountEntry}
    (found : ledger.accounts.find? a.accountID = some old) :
    (ledger.putAccount a).accounts.find? a.accountID =
      some { a with lastModified := ledger.header.ledgerSeq } := by
  simp [LedgerState.putAccount, found]

/-- The counts of one account may be put right, or wrong, by storing it. -/
theorem ValidUpTo.putAccount (valid : ledger.ValidUpTo off)
    {a : AccountEntry} {off' : AccountID → ℤ} (storable : a.isValid = true)
    (most : a.balance ≤ int64Max)
    (others : ∀ id, id ≠ a.accountID → off' id = off id)
    (counted : a.numSubEntries + off' a.accountID =
      a.signers.length + ledger.owned a.accountID) :
    (ledger.putAccount a).ValidUpTo off' where
  accounts := valid.accounts.update
    (fun _ => ⟨rfl, AccountEntry.isValid_stamp storable valid.sequence, most⟩)
  trustLines := valid.trustLines
  offers := valid.offers
  data := valid.data
  holders := by
    intro row member
    rw [contains_putAccount]
    exact valid.holders row member
  sellers := by
    intro row member
    rw [contains_putAccount]
    exact valid.sellers row member
  namers := by
    intro row member
    rw [contains_putAccount]
    exact valid.namers row member
  counted := by
    refine Table.all_update ?_ (fun _ => counted)
    intro row member other
    rw [others row.1 other]
    exact valid.counted row member
  numbered := valid.numbered
  started := valid.started
  sequence := valid.sequence

theorem owned_putLine {line : TrustLineEntry} (id : AccountID) :
    (ledger.putLine line).owned id = ledger.owned id := by
  have same : (ledger.putLine line).trustLines.sum
      (fun key _ => if key.1 = id then 1 else 0) =
        ledger.trustLines.sum (fun key _ => if key.1 = id then 1 else 0) :=
    Table.sum_update_same (fun _ _ => rfl)
  unfold owned
  rw [same]
  rfl

theorem ValidUpTo.putLine (valid : ledger.ValidUpTo off)
    {line : TrustLineEntry} (storable : line.isValid = true)
    (most : line.limit ≤ int64Max)
    (holder : line.accountID ≠ line.asset.getIssuer) :
    (ledger.putLine line).ValidUpTo off where
  accounts := valid.accounts
  trustLines := valid.trustLines.update
    (fun _ => ⟨rfl, TrustLineEntry.isValid_stamp storable valid.sequence,
      most, holder⟩)
  offers := valid.offers
  data := valid.data
  holders := by
    refine valid.holders.update ?_
    intro present
    obtain ⟨old, found⟩ := Table.contains_eq_true.mp present
    exact valid.holders.found found
  sellers := valid.sellers
  namers := valid.namers
  counted := by
    intro row member
    rw [owned_putLine]
    exact valid.counted row member
  numbered := valid.numbered
  started := valid.started
  sequence := valid.sequence

theorem owned_putOffer {offer old : OfferEntry}
    (found : ledger.offers.find? offer.offerID = some old)
    (same : offer.sellerID = old.sellerID) (id : AccountID) :
    (ledger.putOffer offer).owned id = ledger.owned id := by
  have sum : (ledger.putOffer offer).offers.sum
      (fun _ offer => if offer.sellerID = id then 1 else 0) =
        ledger.offers.sum
          (fun _ offer => if offer.sellerID = id then 1 else 0) := by
    apply Table.sum_update_same
    intro other present
    rw [found] at present
    cases present
    simp only [same]
  unfold owned
  rw [sum]
  rfl

theorem ValidUpTo.putOffer (valid : ledger.ValidUpTo off)
    {offer old : OfferEntry}
    (found : ledger.offers.find? offer.offerID = some old)
    (same : offer.sellerID = old.sellerID)
    (stored : OfferStored offer.offerID
      { offer with lastModified := ledger.header.ledgerSeq }) :
    (ledger.putOffer offer).ValidUpTo off where
  accounts := valid.accounts
  trustLines := valid.trustLines
  offers := valid.offers.update (fun _ => stored)
  data := valid.data
  holders := valid.holders
  sellers := by
    refine valid.sellers.update ?_
    intro _
    have present := valid.sellers.found found
    rw [← same] at present
    exact present
  namers := valid.namers
  counted := by
    intro row member
    rw [owned_putOffer found same]
    exact valid.counted row member
  numbered := valid.numbered.update (fun _ => valid.numbered.found found)
  started := valid.started
  sequence := valid.sequence

theorem owned_dropOffer {offer : OfferEntry} {offerID : ℕ}
    (found : ledger.offers.find? offerID = some offer) (id : AccountID) :
    (ledger.dropOffer offerID).owned id =
      ledger.owned id - if offer.sellerID = id then 1 else 0 := by
  unfold owned dropOffer
  simp only [Table.sum_erase found]
  omega

/-- The seller of an offer that is deleted counts one entry too many. -/
theorem ValidUpTo.dropOffer (valid : ledger.ValidUpTo off)
    {offer : OfferEntry} {offerID : ℕ}
    (found : ledger.offers.find? offerID = some offer) :
    (ledger.dropOffer offerID).ValidUpTo
      (fun id => off id - if offer.sellerID = id then 1 else 0) where
  accounts := valid.accounts
  trustLines := valid.trustLines
  offers := valid.offers.erase
  data := valid.data
  holders := valid.holders
  sellers := valid.sellers.erase
  namers := valid.namers
  counted := by
    intro row member
    have counted := valid.counted row member
    rw [owned_dropOffer found]
    omega
  numbered := valid.numbered.erase
  started := valid.started
  sequence := valid.sequence

end LedgerState

end Storing

end StellarCore.Transactions
