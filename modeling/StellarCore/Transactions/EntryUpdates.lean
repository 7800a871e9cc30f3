import StellarCore.Transactions.Balances

/-!
# Adding and deleting entries

Sub-entries are added and deleted before or after their account counts them,
so that in between the ledger is valid up to one.  Putting the count right is
`ValidUpTo.putAccount`.
-/

namespace StellarCore.Transactions

open StellarCore.Lib

variable {ledger : LedgerState} {off : AccountID → ℤ}

namespace LedgerState

def addOffer (ledger : LedgerState) (offer : OfferEntry) : LedgerState :=
  { ledger with
    offers := ledger.offers.insert offer.offerID
      { offer with lastModified := ledger.header.ledgerSeq } }

def addLine (ledger : LedgerState) (line : TrustLineEntry) : LedgerState :=
  { ledger with
    trustLines := ledger.trustLines.insert (line.accountID, line.asset)
      { line with lastModified := ledger.header.ledgerSeq } }

def dropLine (ledger : LedgerState) (key : AccountID × Asset) : LedgerState :=
  { ledger with trustLines := ledger.trustLines.erase key }

def addData (ledger : LedgerState) (entry : DataEntry) : LedgerState :=
  { ledger with
    data := ledger.data.insert (entry.accountID, entry.dataName)
      { entry with lastModified := ledger.header.ledgerSeq } }

def putData (ledger : LedgerState) (entry : DataEntry) : LedgerState :=
  { ledger with
    data := ledger.data.update (entry.accountID, entry.dataName)
      { entry with lastModified := ledger.header.ledgerSeq } }

def dropData (ledger : LedgerState) (key : AccountID × List UInt8) :
    LedgerState :=
  { ledger with data := ledger.data.erase key }

/-- One entry of an account. -/
def one (owner id : AccountID) : ℤ :=
  if owner = id then 1 else 0

/-! ## Counting -/

theorem owned_addOffer {offer : OfferEntry}
    (absent : ledger.offers.find? offer.offerID = none) (id : AccountID) :
    (ledger.addOffer offer).owned id =
      ledger.owned id + one offer.sellerID id := by
  unfold owned addOffer one
  simp only [Table.sum_insert absent]
  omega

theorem owned_addLine {line : TrustLineEntry}
    (absent : ledger.trustLines.find? (line.accountID, line.asset) = none)
    (id : AccountID) :
    (ledger.addLine line).owned id =
      ledger.owned id + one line.accountID id := by
  unfold owned addLine one
  simp only [Table.sum_insert absent]
  omega

theorem owned_dropLine {key : AccountID × Asset} {line : TrustLineEntry}
    (found : ledger.trustLines.find? key = some line) (id : AccountID) :
    (ledger.dropLine key).owned id = ledger.owned id - one key.1 id := by
  unfold owned dropLine one
  simp only [Table.sum_erase found]
  omega

theorem owned_addData {entry : DataEntry}
    (absent : ledger.data.find? (entry.accountID, entry.dataName) = none)
    (id : AccountID) :
    (ledger.addData entry).owned id =
      ledger.owned id + one entry.accountID id := by
  unfold owned addData one
  simp only [Table.sum_insert absent]
  omega

theorem owned_dropData {key : AccountID × List UInt8} {entry : DataEntry}
    (found : ledger.data.find? key = some entry) (id : AccountID) :
    (ledger.dropData key).owned id = ledger.owned id - one key.1 id := by
  unfold owned dropData one
  simp only [Table.sum_erase found]
  omega

theorem owned_putData {entry : DataEntry} (id : AccountID) :
    (ledger.putData entry).owned id = ledger.owned id := by
  have same : (ledger.putData entry).data.sum
      (fun key _ => if key.1 = id then 1 else 0) =
        ledger.data.sum (fun key _ => if key.1 = id then 1 else 0) :=
    Table.sum_update_same (fun _ _ => rfl)
  unfold owned
  rw [same]
  rfl

/-! ## Offers -/

theorem Valid.loadOffer (valid : ledger.Valid) (sellerID : AccountID)
    (offerID : ℕ) :
    loadOffer sellerID offerID ledger =
      .ok ((ledger.offers.find? offerID).filter
        (fun row => row.sellerID = sellerID)) ledger := by
  apply Ends.eq_ok
  unfold Transactions.loadOffer
  rw [Ends.bind_iff, Ends.get_iff]
  cases found : ledger.offers.find? offerID with
  | none => exact ⟨rfl, rfl⟩
  | some row =>
      have stored := valid.offers.found found
      have same : { row with offerID } = row := by
        rw [← stored.keyed]
      simp only [same]
      rw [Ends.ite_iff]
      constructor
      · intro other
        rw [Ends.pure_iff]
        exact ⟨by simp [Option.filter, other], rfl⟩
      · intro own
        rw [if_pos stored.valid, Ends.pure_iff]
        have kept : row.sellerID = sellerID := not_not.mp own
        exact ⟨by simp [Option.filter, kept], rfl⟩

theorem ValidUpTo.storeAddOffer (valid : ledger.ValidUpTo off)
    {offer : OfferEntry}
    (storable : { offer with
      lastModified := ledger.header.ledgerSeq }.isValid = true)
    (absent : ledger.offers.find? offer.offerID = none) :
    storeAddOffer offer ledger =
      .ok { offer with lastModified := ledger.header.ledgerSeq }
        (ledger.addOffer offer) := by
  have missing : ledger.offers.contains offer.offerID = false := by
    rw [Table.contains, absent]
    rfl
  apply Ends.eq_ok
  unfold Transactions.storeAddOffer
  rw [Ends.bind_iff, touch_ends]
  refine ⟨fun _ => ?_, fun zero => absurd zero valid.started⟩
  simp only
  rw [if_pos storable, Ends.bind_iff, Ends.get_iff, missing]
  exact ⟨rfl, rfl⟩

/-! ## Validity -/

namespace ValidUpTo

theorem addOffer (valid : ledger.ValidUpTo off) {offer : OfferEntry}
    (absent : ledger.offers.find? offer.offerID = none)
    (stored : OfferStored offer.offerID
      { offer with lastModified := ledger.header.ledgerSeq })
    (seller : ledger.accounts.contains offer.sellerID = true)
    (numbered : offer.offerID ≤ ledger.header.idPool) :
    (ledger.addOffer offer).ValidUpTo
      (fun id => off id + one offer.sellerID id) :=
  { valid with
    offers := valid.offers.insert stored
    sellers := valid.sellers.insert seller
    counted := by
      intro row member
      have counted := valid.counted row member
      rw [owned_addOffer absent]
      omega
    numbered := valid.numbered.insert numbered }

theorem addLine (valid : ledger.ValidUpTo off) {line : TrustLineEntry}
    (absent : ledger.trustLines.find? (line.accountID, line.asset) = none)
    (storable : line.isValid = true) (most : line.limit ≤ int64Max)
    (holder : line.accountID ≠ line.asset.getIssuer)
    (present : ledger.accounts.contains line.accountID = true) :
    (ledger.addLine line).ValidUpTo
      (fun id => off id + one line.accountID id) :=
  { valid with
    trustLines := valid.trustLines.insert
      ⟨rfl, TrustLineEntry.isValid_stamp storable valid.sequence, most,
        holder⟩
    holders := valid.holders.insert present
    counted := by
      intro row member
      have counted := valid.counted row member
      rw [owned_addLine absent]
      omega }

theorem dropLine (valid : ledger.ValidUpTo off) {key : AccountID × Asset}
    {line : TrustLineEntry}
    (found : ledger.trustLines.find? key = some line) :
    (ledger.dropLine key).ValidUpTo (fun id => off id - one key.1 id) :=
  { valid with
    trustLines := valid.trustLines.erase
    holders := valid.holders.erase
    counted := by
      intro row member
      have counted := valid.counted row member
      rw [owned_dropLine found]
      omega }

theorem addData (valid : ledger.ValidUpTo off) {entry : DataEntry}
    (absent : ledger.data.find? (entry.accountID, entry.dataName) = none)
    (storable : entry.isValid = true)
    (present : ledger.accounts.contains entry.accountID = true) :
    (ledger.addData entry).ValidUpTo
      (fun id => off id + one entry.accountID id) :=
  { valid with
    data := valid.data.insert
      ⟨rfl, DataEntry.isValid_stamp storable valid.sequence⟩
    namers := valid.namers.insert present
    counted := by
      intro row member
      have counted := valid.counted row member
      rw [owned_addData absent]
      omega }

theorem putData (valid : ledger.ValidUpTo off) {entry : DataEntry}
    (storable : entry.isValid = true) :
    (ledger.putData entry).ValidUpTo off :=
  { valid with
    data := valid.data.update
      (fun _ => ⟨rfl, DataEntry.isValid_stamp storable valid.sequence⟩)
    namers := by
      refine valid.namers.update ?_
      intro present
      obtain ⟨old, found⟩ := Table.contains_eq_true.mp present
      exact valid.namers.found found
    counted := by
      intro row member
      rw [owned_putData]
      exact valid.counted row member }

theorem dropData (valid : ledger.ValidUpTo off)
    {key : AccountID × List UInt8} {entry : DataEntry}
    (found : ledger.data.find? key = some entry) :
    (ledger.dropData key).ValidUpTo (fun id => off id - one key.1 id) :=
  { valid with
    data := valid.data.erase
    namers := valid.namers.erase
    counted := by
      intro row member
      have counted := valid.counted row member
      rw [owned_dropData found]
      omega }

/-- Numbers may be handed out. -/
theorem withIdPool (valid : ledger.ValidUpTo off) {idPool : ℕ}
    (grows : ledger.header.idPool ≤ idPool) :
    ({ ledger with
      header := { ledger.header with idPool } } : LedgerState).ValidUpTo
        off :=
  { valid with
    numbered := fun row member => (valid.numbered row member).trans grows }

end ValidUpTo

end LedgerState

end StellarCore.Transactions
