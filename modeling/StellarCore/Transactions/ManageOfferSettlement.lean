import StellarCore.Transactions.OfferCrossings
import StellarCore.Transactions.PaymentRefines

/-!
# Settlement of offers

What is left of an offer is stored, and the operation as a whole has settled.
-/

namespace StellarCore.Transactions

open StellarCore.Lib

namespace ManageOfferOp

variable {computePrice : Price → ℚ} {ledger : LedgerState}
  {op : ManageOfferOp} {sourceID : AccountID} {source : AccountEntry}
  {asset : Asset}

/-! ## Storing the rest -/

/-- The entry that is stored for what is left of the offer. -/
structure Remains (op : ManageOfferOp) (sourceID : AccountID) (amount : ℤ)
    (offer : OfferEntry) : Prop where
  positive : 0 < amount
  amount : offer.amount = amount
  seller : offer.sellerID = sourceID
  selling : offer.selling = op.selling
  buying : offer.buying = op.buying
  price : offer.price = op.price

/-- What is stored of the offer, and how many sub-entries more its seller
has. -/
inductive Left (op : ManageOfferOp) (source : AccountEntry) (amount : ℤ)
    (before after : LedgerState) : ManageOfferEffect → ℤ → Prop
  | created {offer : OfferEntry} (creating : op.offerID = 0)
      (remains : Remains op source.accountID amount offer)
      (fresh : before.header.idPool < offer.offerID)
      (offers : after.offers = before.offers.insert offer.offerID offer)
      (reserve : before.header.getMinBalance (source.numSubEntries + 1) ≤
        source.balance) :
      Left op source amount before after (.created offer) 1
  | updated {offer : OfferEntry} (modifying : op.offerID ≠ 0)
      (remains : Remains op source.accountID amount offer)
      (same : offer.offerID = op.offerID)
      (present : before.offers.contains op.offerID = true)
      (offers : after.offers = before.offers.update op.offerID offer) :
      Left op source amount before after (.updated offer) 0
  | nothing (creating : op.offerID = 0) (zero : amount = 0)
      (offers : after.offers = before.offers) :
      Left op source amount before after .deleted 0
  | deleted (modifying : op.offerID ≠ 0) (zero : amount = 0)
      (offers : after.offers = before.offers.erase op.offerID) :
      Left op source amount before after .deleted (-1)

/-- Storing the rest moves nothing. -/
structure RestStored (op : ManageOfferOp) (source : AccountEntry)
    (amount : ℤ) (before : LedgerState) (effect : ManageOfferEffect)
    (after : LedgerState) : Prop where
  valid : after.Valid
  moved : Moved [⟨source.accountID, .native, 0⟩] before after
  left : ∃ change, Left op source amount before after effect change ∧
    ∃ a, after.accounts.find? source.accountID = some a ∧
      a.numSubEntries = source.numSubEntries + change

/-- A new offer can be numbered and counted. -/
def Room (ledger : LedgerState) (op : ManageOfferOp)
    (source : AccountEntry) : Prop :=
  op.offerID = 0 →
    source.numSubEntries < int32Max ∧ ledger.header.idPool < int64Max

/-- What a manage-offer operation relies on: a new offer can be numbered and
counted, and the reserve that the source is held to fits into 32 bits. -/
structure Settleable (ledger : LedgerState) (op : ManageOfferOp)
    (source : AccountEntry) : Prop where
  room : Room ledger op source
  reserve : 0 < op.amount → op.selling = .native ∨ op.offerID = 0 →
    (2 + op.reserved source) * ledger.header.baseReserve < 2 ^ 32

theorem Settleable.exact (settleable : Settleable ledger op source)
    (some : 0 < op.amount) (held : op.selling = .native ∨ op.offerID = 0) :
    ledger.header.getMinBalance (op.reserved source) =
      exactReserve ledger.header (op.reserved source) :=
  getMinBalance_eq_iff.mpr (settleable.reserve some held)

theorem generateID_ends {done : ℕ → LedgerState → Prop}
    {failed : Failure → LedgerState → Prop}
    (room : ledger.header.idPool < int64Max) :
    Ends generateID ledger done failed ↔
      done (ledger.header.idPool + 1)
        { ledger with
          header :=
            { ledger.header with idPool := ledger.header.idPool + 1 } } := by
  have small : (ledger.header.idPool + 1) % 2 ^ 64 =
      ledger.header.idPool + 1 := by
    apply Nat.mod_eq_of_lt
    unfold int64Max at room
    omega
  unfold generateID
  simp only [Ends.bind_iff, Ends.get_iff, Ends.set_iff, Ends.pure_iff, small]

theorem unnumbered (valid : ledger.Valid) {offerID : ℕ}
    (fresh : ledger.header.idPool < offerID) :
    ledger.offers.find? offerID = none := by
  cases taken : ledger.offers.find? offerID with
  | none => rfl
  | some row => exact absurd (valid.numbered.found taken) (not_le.mpr fresh)

section Rest

variable {offer : OfferEntry} {amount : ℤ}

/-- The entry with its number, its amount and its ledger filled in. -/
def entryOf (offer : OfferEntry) (offerID : ℕ) (amount : ℤ)
    (ledgerSeq : ℕ) : OfferEntry :=
  { offer with offerID, amount, lastModified := ledgerSeq }

theorem entryOf_stored {offerID ledgerSeq : ℕ} (checked : op.Checked)
    (ready : OfferReady ledger op sourceID offer)
    (positive : 0 < amount) (most : amount ≤ int64Max)
    (small : (offerID : ℤ) ≤ int64Max) (sequence : ledgerSeq ≤ int32Max) :
    OfferStored offerID (entryOf offer offerID amount ledgerSeq) := by
  have built := ready.built
  have selling : offer.selling = op.selling := by rw [built]; rfl
  have buying : offer.buying = op.buying := by rw [built]; rfl
  have price : offer.price = op.price := by rw [built]; rfl
  refine ⟨rfl, ?_, most, ?_, ?_⟩
  · rw [OfferEntry.isValid_iff]
    refine ⟨sequence, small, positive, ?_, ?_, ?_, ?_, ready.flags⟩
    · exact price ▸ checked.price.n.1
    · exact price ▸ checked.price.d.1
    · exact selling ▸ checked.selling
    · exact buying ▸ checked.buying
  · exact price ▸ ⟨checked.price.n.2, checked.price.d.2⟩
  · simp only [entryOf, selling, buying]
    exact checked.apart

theorem entryOf_remains {offerID ledgerSeq : ℕ}
    (ready : OfferReady ledger op sourceID offer) (positive : 0 < amount) :
    Remains op sourceID amount (entryOf offer offerID amount ledgerSeq) := by
  have built := ready.built
  refine ⟨positive, rfl, ?_, ?_, ?_, ?_⟩
  · rw [entryOf, built]
    rfl
  · rw [entryOf, built]
    rfl
  · rw [entryOf, built]
    rfl
  · rw [entryOf, built]
    rfl

/-- The ledger with a new offer that its seller counts. -/
def placed (ledger : LedgerState) (offer : OfferEntry)
    (counted : AccountEntry) : LedgerState :=
  (ledger.addOffer offer).putAccount counted

/-- Storing an offer under a fresh number. -/
theorem placed_valid {counted : AccountEntry} (valid : ledger.Valid)
    (found : ledger.accounts.find? source.accountID = some source)
    (seller : offer.sellerID = source.accountID)
    (fresh : ledger.offers.find? offer.offerID = none)
    (stored : OfferStored offer.offerID
      { offer with lastModified := ledger.header.ledgerSeq })
    (numbered : offer.offerID ≤ ledger.header.idPool)
    (same : counted =
      { source with numSubEntries := source.numSubEntries + 1 })
    (few : source.numSubEntries < int32Max) :
    (placed ledger offer counted).Valid := by
  have account := valid.accounts.found found
  have entries := valid.counted.found found
  have added := valid.addOffer fresh stored
    (seller ▸ Table.contains_eq_true.mpr ⟨source, found⟩) numbered
  have one : ∀ id, LedgerState.one offer.sellerID id =
      if source.accountID = id then 1 else 0 := by
    intro id
    rw [LedgerState.one, seller]
  subst same
  refine added.putAccount (AccountEntry.isValid_count account.valid few)
    account.most ?_ ?_
  · intro id other
    rw [one, if_neg (Ne.symm other)]
    rfl
  · simp only
    rw [LedgerState.owned_addOffer fresh, one, if_pos rfl]
    push_cast
    omega

theorem placed_moved {counted : AccountEntry}
    (found : ledger.accounts.find? source.accountID = some source)
    (same : counted =
      { source with numSubEntries := source.numSubEntries + 1 }) :
    Moved [⟨source.accountID, .native, 0⟩] ledger
      (placed ledger offer counted) := by
  subst same
  have added : Moved [] ledger (ledger.addOffer offer) :=
    .of_eq rfl rfl rfl rfl
  let counted : AccountEntry :=
    { source with numSubEntries := source.numSubEntries + 1 }
  have put : Moved [⟨counted.accountID, .native, 0⟩] (ledger.addOffer offer)
      (placed ledger offer counted) :=
    moved_putAccount found (add_zero _).symm rfl
  exact added.append put

theorem place_attempts {counted : AccountEntry}
    {done : ManageOfferEffect → LedgerState → Prop}
    {rejected : ManageOfferResult → LedgerState → Prop}
    (valid : ledger.Valid)
    (found : ledger.accounts.find? source.accountID = some source)
    (seller : offer.sellerID = source.accountID)
    (fresh : ledger.offers.find? offer.offerID = none)
    (stored : OfferStored offer.offerID
      { offer with lastModified := ledger.header.ledgerSeq })
    (numbered : offer.offerID ≤ ledger.header.idPool)
    (same : counted =
      { source with numSubEntries := source.numSubEntries + 1 })
    (few : source.numSubEntries < int32Max)
    (placedDone : done (.created
      { offer with lastModified := ledger.header.ledgerSeq })
      (placed ledger offer counted)) :
    Attempts (do
      let offer ← storeAddOffer offer
      let _ ← storeChangeAccount counted
      return .created offer : Applying ManageOfferResult ManageOfferEffect)
      ledger done rejected (fun _ _ => False) := by
  have account := valid.accounts.found found
  have added := valid.addOffer fresh stored
    (seller ▸ Table.contains_eq_true.mpr ⟨source, found⟩) numbered
  have storable : counted.isValid = true := by
    rw [same]
    exact AccountEntry.isValid_count account.valid few
  have present : (ledger.addOffer offer).accounts.contains
      counted.accountID = true := by
    rw [same]
    exact Table.contains_eq_true.mpr ⟨source, found⟩
  rw [Attempts.bind_iff, Attempts.lift_iff]
  refine .of_run (valid.storeAddOffer stored.valid fresh) ?_
  rw [Attempts.bind_iff, Attempts.lift_iff]
  exact .of_run (added.storeChangeAccount storable present) placedDone

theorem storeNew_attempts (valid : ledger.Valid) (checked : op.Checked)
    (found : ledger.accounts.find? source.accountID = some source)
    (ready : OfferReady ledger op source.accountID offer)
    (creating : op.offerID = 0) (room : Room ledger op source)
    (positive : 0 < amount) (most : amount ≤ int64Max) :
    Attempts (storeNew { offer with amount } source) ledger
      (RestStored op source amount ledger) (fun result _ => Fails result)
      (fun _ _ => False) := by
  have few := (room creating).1
  have free := (room creating).2
  have seller : offer.sellerID = source.accountID := by
    rw [ready.built]
    rfl
  unfold storeNew
  rw [Attempts.bind_iff, Attempts.lift_iff, addNumEntries_succ_ends few]
  by_cases covered : ledger.header.getMinBalance
      (source.numSubEntries + 1) ≤ source.balance
  case neg =>
    rw [if_neg covered]
    exact fun _ _ impossible => by cases impossible
  rw [if_pos covered]
  simp only
  rw [Attempts.bind_iff, Attempts.lift_iff, generateID_ends free]
  have small : ((ledger.header.idPool + 1 : ℕ) : ℤ) ≤ int64Max := by
    push_cast
    omega
  have next : ledger.header.idPool < ledger.header.idPool + 1 :=
    Nat.lt_succ_self _
  have fresh := unnumbered valid next
  have grows : ledger.header.idPool ≤ ledger.header.idPool + 1 :=
    Nat.le_succ _
  have numbered := valid.withIdPool grows
  generalize same : { source with
    numSubEntries := source.numSubEntries + 1 } = counted
  generalize ledger.header.idPool + 1 = offerID at *
  have stored : OfferStored offerID
      (entryOf offer offerID amount ledger.header.ledgerSeq) :=
    entryOf_stored checked ready positive most small valid.sequence
  have remains : Remains op source.accountID amount
      (entryOf offer offerID amount ledger.header.ledgerSeq) :=
    entryOf_remains ready positive
  let last : LedgerState :=
    { ledger with header := { ledger.header with idPool := offerID } }
  let entry : OfferEntry := { offer with offerID, amount }
  have placed : (placed last entry counted).Valid :=
    placed_valid numbered found seller fresh stored (le_refl _) same.symm few
  have moved : Moved [⟨source.accountID, .native, 0⟩] last
      (ManageOfferOp.placed last entry counted) :=
    placed_moved found same.symm
  have renumbered : Moved [] ledger last := .of_eq rfl rfl rfl rfl
  have counts : (ManageOfferOp.placed last entry counted).accounts.find?
      source.accountID =
        some { counted with lastModified := ledger.header.ledgerSeq } := by
    have row : (last.addOffer entry).accounts.find? counted.accountID =
        some source := by
      rw [← same]
      exact found
    have put := LedgerState.find?_putAccount row
    rw [← same] at put ⊢
    exact put
  refine place_attempts numbered found seller fresh stored (le_refl _)
    same.symm few ⟨placed, renumbered.append moved, 1, ?_, _, counts, ?_⟩
  · exact .created creating remains next rfl covered
  · rw [← same]
    push_cast
    rfl

theorem storeOld_ends (valid : ledger.Valid) (checked : op.Checked)
    (found : ledger.accounts.find? source.accountID = some source)
    (ready : OfferReady ledger op source.accountID offer)
    (modifying : op.offerID ≠ 0) (positive : 0 < amount)
    (most : amount ≤ int64Max) :
    Ends (storeChangeOffer { offer with amount }) ledger
      (fun offer => RestStored op source amount ledger (.updated offer))
      (fun _ _ => False) := by
  obtain ⟨row, old, own⟩ := ready.old modifying
  have entry := OfferEntry.isValid_iff.mp (valid.offers.found old).valid
  have small : (op.offerID : ℤ) ≤ int64Max :=
    (valid.offers.found old).keyed ▸ entry.offerID
  have stored := entryOf_stored checked ready positive most small
    valid.sequence
  have remains : Remains op source.accountID amount
      (entryOf offer op.offerID amount ledger.header.ledgerSeq) :=
    entryOf_remains ready positive
  have number : offer.offerID = op.offerID := by
    rw [ready.built]
    rfl
  have seller : offer.sellerID = row.sellerID := by
    rw [ready.built, own]
    rfl
  have present : ledger.offers.contains op.offerID = true :=
    Table.contains_eq_true.mpr ⟨row, old⟩
  rw [← number] at stored old present remains
  refine .of_run (valid.storeChangeOffer stored.valid present) ?_
  refine ⟨valid.putOffer old seller stored, ?_, 0, ?_, source, found, ?_⟩
  · have put : Moved [] ledger (ledger.putOffer { offer with amount }) :=
      .of_eq rfl rfl rfl rfl
    exact put.append (.idle (Move.amountOf_zero _ _))
  · refine .updated modifying remains number (number ▸ present) ?_
    rw [← number]
    rfl
  · rw [add_zero]

theorem removeOld_eq (offer : OfferEntry) (source : AccountEntry) :
    removeOld offer source = (do
      let _ ← storeCrossed offer source 0 true
      return .deleted) := by
  unfold removeOld storeCrossed
  simp only [↓reduceIte, bind_assoc]

/-- The offer is deleted as one that is taken. -/
theorem removeOld_ends (valid : ledger.Valid)
    (found : ledger.accounts.find? source.accountID = some source)
    (ready : OfferReady ledger op source.accountID offer)
    (modifying : op.offerID ≠ 0) :
    Ends (removeOld { offer with amount := 0 } source) ledger
      (RestStored op source 0 ledger) (fun _ _ => False) := by
  obtain ⟨row, old, own⟩ := ready.old modifying
  have number : offer.offerID = op.offerID := by
    rw [ready.built]
    rfl
  have seller : offer.sellerID = source.accountID := by
    rw [ready.built]
    rfl
  let gone : OfferEntry := { offer with amount := 0 }
  have named : ledger.offers.find? gone.offerID = some row :=
    number.symm ▸ old
  have account : ledger.accounts.find? gone.sellerID = some source :=
    seller.symm ▸ found
  obtain ⟨a, run, found'⟩ := valid.storeCrossed_taken named
    (own.trans seller.symm) account 0
  have keyed := (valid.offers.found old).keyed
  have settled := valid.takeOffer_settled (keyed.symm ▸ old)
    (own.symm ▸ found)
  have same : ledger.takeOffer row source = ledger.takeOffer gone source := by
    unfold LedgerState.takeOffer
    rw [keyed, ← number]
  rw [same] at settled
  have moved := settled.moved
  obtain ⟨b, found'', _, counted⟩ := settled.seller
  rw [own] at moved found''
  simp only [↓reduceIte] at counted
  rw [removeOld_eq, Ends.bind_iff]
  refine .of_run run ⟨settled.valid, moved, -1, ?_, b, found'', by omega⟩
  refine .deleted modifying rfl ?_
  rw [← number]
  rfl

-- The literals in `storeNew` are not to be evaluated.
attribute [local irreducible] storeNew

theorem storeRest_attempts (valid : ledger.Valid) (checked : op.Checked)
    (found : ledger.accounts.find? source.accountID = some source)
    (ready : OfferReady ledger op source.accountID offer)
    (room : Room ledger op source)
    (bounds : 0 ≤ amount ∧ amount ≤ int64Max) :
    Attempts (op.storeRest { offer with amount } source) ledger
      (RestStored op source amount ledger) (fun result _ => Fails result)
      (fun _ _ => False) := by
  unfold storeRest
  rw [Attempts.ite_iff]
  constructor
  · intro positive
    rw [Attempts.ite_iff]
    constructor
    · intro creating
      have new : op.offerID = 0 := of_decide_eq_true creating
      exact storeNew_attempts valid checked found ready new room positive
        bounds.2
    · intro modifying
      rw [Attempts.bind_iff, Attempts.lift_iff]
      exact storeOld_ends valid checked found ready
        (by simpa [creatingNewOffer] using modifying) positive bounds.2
  · intro done
    have zero : amount = 0 := le_antisymm (not_lt.mp done) bounds.1
    subst zero
    rw [Attempts.ite_iff]
    constructor
    · intro creating
      refine ⟨valid, .idle (Move.amountOf_zero _ _), 0,
        .nothing (of_decide_eq_true creating) rfl rfl, source, found, ?_⟩
      rw [add_zero]
    · intro modifying
      rw [Attempts.lift_iff]
      exact removeOld_ends valid found ready
        (by simpa [creatingNewOffer] using modifying)

end Rest

/-! ## The operation -/

/-- The number under which the rest of the offer is stored. -/
def ownID (op : ManageOfferOp) : ManageOfferEffect → ℕ
  | .created offer => offer.offerID
  | .updated _ => op.offerID
  | .deleted => op.offerID

/-- What has become of the offer, and how many sub-entries more its seller
has. -/
inductive Outcome (op : ManageOfferOp) (source : AccountEntry) (paid : ℤ)
    (before after : LedgerState) : ManageOfferEffect → ℤ → Prop
  | created {offer : OfferEntry} (creating : op.offerID = 0)
      (remains : Remains op source.accountID offer.amount offer)
      (within : offer.amount + paid ≤ op.amount)
      (fresh : before.offers.find? offer.offerID = none)
      (stored : after.offers.find? offer.offerID = some offer)
      (reserve :
        (exactReserve before.header (source.numSubEntries + 1) : ℤ) ≤
          after.holding source.accountID .native) :
      Outcome op source paid before after (.created offer) 1
  | updated {offer : OfferEntry} (modifying : op.offerID ≠ 0)
      (remains : Remains op source.accountID offer.amount offer)
      (within : offer.amount + paid ≤ op.amount)
      (present : before.offers.contains op.offerID = true)
      (stored : after.offers.find? op.offerID = some offer) :
      Outcome op source paid before after (.updated offer) 0
  | nothing (creating : op.offerID = 0) :
      Outcome op source paid before after .deleted 0
  | deleted (modifying : op.offerID ≠ 0)
      (gone : after.offers.find? op.offerID = none) :
      Outcome op source paid before after .deleted (-1)

/-- What a manage-offer operation that succeeds has done. -/
structure Settles (op : ManageOfferOp) (mPassive : Bool)
    (source : AccountEntry) (before : LedgerState)
    (claimed : List ClaimOfferAtom) (effect : ManageOfferEffect)
    (after : LedgerState) : Prop where
  valid : after.Valid
  amounts : (received claimed = 0 ∧ paid claimed = 0) ∨
    (0 < received claimed ∧ 0 < paid claimed)
  moved : Moved (op.moves source.accountID claimed) before after
  taken : ∃ passive, (op.offerID = 0 → passive = mPassive) ∧
    ∀ atom ∈ claimed, Taken op passive source.accountID before atom
  reserve : op.selling = .native → op.offerID = 0 ∨ 0 < paid claimed →
    ∀ a, after.accounts.find? source.accountID = some a →
      (exactReserve before.header
        (if op.offerID = 0 then source.numSubEntries + 1
        else a.numSubEntries) : ℤ) ≤ a.balance
  stored : ∃ change,
    Outcome op source (paid claimed) before after effect change ∧
      ∃ a, after.accounts.find? source.accountID = some a ∧
        a.numSubEntries = source.numSubEntries + change
  others : ∀ offerID, offerID ∉ claimed.map ClaimOfferAtom.offerID →
    offerID ≠ op.ownID effect →
      after.offers.find? offerID = before.offers.find? offerID

section Operation

variable {mPassive passive : Bool} {lines : SourceLines}
  {offer : OfferEntry} {crossings : Crossings}
  {middle after : LedgerState} {effect : ManageOfferEffect}

theorem Traded.unclaimed (valid : ledger.Valid)
    (traded : Traded op passive source ledger crossings middle) :
    op.offerID ∉ crossings.offersClaimed.map ClaimOfferAtom.offerID := by
  intro member
  obtain ⟨atom, listed, same⟩ := List.mem_map.mp member
  exact (traded.taken atom listed).other valid same

theorem Traded.account
    (traded : Traded op passive source ledger crossings middle) :
    crossings.source.accountID = source.accountID :=
  (traded.valid.accounts.found traded.found).keyed

/-- The offer is as ready for the ledger in which it is stored. -/
theorem Traded.ready (valid : ledger.Valid)
    (traded : Traded op passive source ledger crossings middle)
    (ready : OfferReady ledger op source.accountID offer) :
    OfferReady middle op crossings.source.accountID offer where
  built := traded.account ▸ ready.built
  flags := ready.flags
  old := by
    intro modifying
    rw [traded.others op.offerID (traded.unclaimed valid), traded.account]
    exact ready.old modifying

theorem Left.outcome {change : ℤ} (valid : ledger.Valid)
    (checked : op.Checked) (settleable : Settleable ledger op source)
    (traded : Traded op passive source ledger crossings middle)
    (holding : after.holding source.accountID .native =
      crossings.source.balance)
    (left : Left op crossings.source crossings.amount middle after effect
      change) :
    Outcome op source (paid crossings.offersClaimed) ledger after effect
      change := by
  have within := traded.left.2
  cases left with
  | created creating remains fresh offers reserve =>
      rename_i offer
      have entry := remains
      rw [traded.account, ← remains.amount] at entry
      have new : op.creatingNewOffer = true := decide_eq_true creating
      have counted : op.reserved source = source.numSubEntries + 1 :=
        if_pos new
      have minimum := settleable.exact (checked.some new) (.inr creating)
      rw [counted] at minimum
      rw [traded.counted, traded.header, ← holding, minimum] at reserve
      refine .created creating entry (remains.amount ▸ within) ?_ ?_ reserve
      · exact unnumbered valid (traded.header ▸ fresh)
      · rw [offers, Table.find?_insert,
          if_pos ⟨rfl, unnumbered traded.valid fresh⟩]
  | updated modifying remains same present offers =>
      have entry := remains
      rw [traded.account, ← remains.amount] at entry
      have kept := traded.others op.offerID (traded.unclaimed valid)
      obtain ⟨row, found⟩ := Table.contains_eq_true.mp present
      refine .updated modifying entry (remains.amount ▸ within) ?_ ?_
      · rw [Table.contains, ← kept]
        exact present
      · simp [offers, found]
  | nothing creating zero offers => exact .nothing creating
  | deleted modifying zero offers =>
      refine .deleted modifying ?_
      simp [offers]

theorem Left.others {amount change : ℤ} {offerID : ℕ}
    (left : Left op source amount middle after effect change)
    (other : offerID ≠ op.ownID effect) :
    after.offers.find? offerID = middle.offers.find? offerID := by
  cases left with
  | created creating remains fresh offers reserve =>
      have apart : offerID ≠ _ := other
      rw [offers, Table.find?_insert, if_neg (fun same => apart same.1)]
  | updated modifying remains same present offers =>
      have apart : offerID ≠ op.offerID := other
      simp [offers, apart]
  | nothing creating zero offers => rw [offers]
  | deleted modifying zero offers =>
      have apart : offerID ≠ op.offerID := other
      simp [offers, apart]

/-- The count the reserve is computed for is no less than the one that is
stored. -/
theorem Left.counted_le {amount change : ℤ} {a : AccountEntry}
    (left : Left op crossings.source amount middle after effect change)
    (modifying : op.offerID ≠ 0)
    (counted : a.numSubEntries = crossings.source.numSubEntries + change) :
    a.numSubEntries ≤ crossings.source.numSubEntries := by
  cases left with
  | created creating => exact absurd creating modifying
  | updated => omega
  | nothing creating => exact absurd creating modifying
  | deleted => omega

theorem RestStored.settles (valid : ledger.Valid) (checked : op.Checked)
    (settleable : Settleable ledger op source)
    (traded : Traded op passive source ledger crossings middle)
    (asked : op.offerID = 0 → passive = mPassive)
    (rest : RestStored op crossings.source crossings.amount middle effect
      after) :
    Settles op mPassive source ledger crossings.offersClaimed effect
      after := by
  obtain ⟨change, left, a, found, counted⟩ := rest.left
  have holding : after.holding source.accountID .native =
      crossings.source.balance := by
    rw [rest.moved.holding]
    simp [LedgerState.holding, traded.found, Move.amountFor,
      Move.amountOf_zero]
  refine ⟨rest.valid, traded.amounts, ?_, ⟨passive, asked, traded.taken⟩,
    ?_, ⟨change, left.outcome valid checked settleable traded holding,
      a, ?_, ?_⟩, ?_⟩
  · refine (traded.moved.append rest.moved).of_sums ?_ ?_ ?_
    · intro move member
      rw [List.mem_append] at member
      obtain listed | last := member
      · exact ⟨move, listed, rfl⟩
      · refine ⟨_, List.mem_cons_self, ?_⟩
        rw [List.mem_singleton.mp last]
        exact traded.account.symm
    · intro id asset
      simp [Move.amountFor, Move.amountOf_zero]
    · intro asset
      simp [Move.amountOf_zero]
  · intro native needed b account
    have balance : b.balance = crossings.source.balance := by
      rw [← holding, LedgerState.holding, if_pos rfl, account]
      rfl
    have amount : 0 < op.amount := by
      obtain creating | positive := needed
      · exact checked.some (decide_eq_true creating)
      · have within := traded.left
        omega
    have kept := traded.reserve native (needed.imp_left decide_eq_true)
    rw [settleable.exact amount (.inl native), ← balance] at kept
    refine le_trans ?_ kept
    rw [Nat.cast_le]
    apply exactReserve_mono
    by_cases creating : op.offerID = 0
    · have new : op.creatingNewOffer = true := decide_eq_true creating
      rw [if_pos creating, reserved, if_pos new]
    · have old : ¬ op.creatingNewOffer = true :=
        fun new => creating (of_decide_eq_true new)
      have row : after.accounts.find? source.accountID = some a := by
        rw [← traded.account]
        exact found
      rw [row, Option.some_inj] at account
      subst account
      rw [if_neg creating, reserved, if_neg old, ← traded.counted]
      exact left.counted_le creating counted
  · rw [← traded.account]
    exact found
  · rw [counted, traded.counted]
  · intro offerID absent other
    rw [left.others other, traded.others offerID absent]

theorem exchangeAndStore_attempts (valid : ledger.Valid)
    (version : ledger.header.ledgerVersion = 9)
    (total : ledger.total .native ≤ int64Max) (checked : op.Checked)
    (found : ledger.accounts.find? source.accountID = some source)
    (settleable : Settleable ledger op source)
    (linesReady : LinesReady ledger op source.accountID lines)
    (ready : OfferReady ledger op source.accountID offer)
    (asked : op.offerID = 0 → passive = mPassive) :
    Attempts (op.exchangeAndStore computePrice passive source lines offer)
      ledger
      (fun stored => Settles op mPassive source ledger stored.1 stored.2)
      (fun result _ => Fails result) (fun _ _ => False) := by
  have countable : op.Countable source :=
    fun creating => (settleable.room creating).1
  have last : ∀ crossings middle,
      Traded op passive source ledger crossings middle →
        Attempts (do
          let effect ← op.storeRest { offer with amount := crossings.amount }
            crossings.source
          return (crossings.offersClaimed, effect)) middle
          (fun stored => Settles op mPassive source ledger stored.1 stored.2)
          (fun result _ => Fails result) (fun _ _ => False) := by
    intro crossings middle traded
    have row : middle.accounts.find? crossings.source.accountID =
        some crossings.source := by
      rw [traded.account]
      exact traded.found
    have left : Room middle op crossings.source := by
      unfold Room
      rw [traded.counted, traded.header]
      exact settleable.room
    have bounds : 0 ≤ crossings.amount ∧ crossings.amount ≤ int64Max := by
      have most := checked.amount.2
      have within := traded.left
      have amounts := traded.amounts
      omega
    rw [Attempts.bind_iff]
    refine (storeRest_attempts traded.valid checked row
      (traded.ready valid ready) left bounds).mono ?_ (fun _ _ => id)
      (fun _ _ => id)
    intro effect after rest
    exact rest.settles valid checked settleable traded asked
  unfold exchangeAndStore
  simp only
  rw [Attempts.ite_iff]
  constructor
  · intro zero
    rw [Attempts.bind_iff, Attempts.pure_iff]
    exact last _ _ (.nothing valid checked found zero)
  · intro changes
    obtain ⟨sheepReady, wheatReady⟩ := linesReady changes
    rw [Attempts.bind_iff]
    exact (cross_attempts valid version total checked found countable
      sheepReady wheatReady).mono last (fun _ _ => id) (fun _ _ => id)

theorem settle_attempts (valid : ledger.Valid)
    (version : ledger.header.ledgerVersion = 9)
    (total : ledger.total .native ≤ int64Max) (checked : op.Checked)
    (found : ledger.accounts.find? source.accountID = some source)
    (settleable : Settleable ledger op source) :
    Attempts (op.settle computePrice mPassive source) ledger
      (fun stored => Settles op mPassive source ledger stored.1 stored.2)
      (fun result _ => Fails result) (fun _ _ => False) := by
  unfold settle
  rw [Attempts.bind_iff]
  refine (checkOfferValid_attempts valid checked source.accountID).mono ?_
    (fun _ _ => id) (fun _ _ => id)
  rintro lines ledger ⟨rfl, linesReady⟩
  rw [Attempts.bind_iff]
  refine (findOffer_attempts valid mPassive).mono ?_ (fun _ _ => id)
    (fun _ _ => id)
  rintro offer ledger ⟨rfl, ready⟩
  rw [Attempts.transactional_iff]
  refine exchangeAndStore_attempts valid version total checked found
    settleable linesReady ready ?_
  intro creating
  rw [if_neg (not_not.mpr creating)]

theorem doApply_of_attempts
    {done : List ClaimOfferAtom × ManageOfferEffect → LedgerState → Prop}
    {rejected : ManageOfferResult → LedgerState → Prop}
    (attempts : Attempts (op.settle computePrice mPassive source) ledger done
      rejected (fun _ _ => False)) :
    ∃ result after, op.doApply computePrice mPassive source ledger =
        .ok result after ∧
      ((∃ claimed effect, result = .success claimed effect ∧
        done (claimed, effect) after) ∨ rejected result after) := by
  unfold Attempts Ends at attempts
  unfold doApply
  rw [run_bind]
  cases settled : (op.settle computePrice mPassive source).run ledger with
  | error failure after =>
      rw [settled] at attempts
      exact attempts.elim
  | ok outcome after =>
      rw [settled] at attempts
      cases outcome with
      | ok stored => exact ⟨_, after, rfl, .inl ⟨_, _, rfl, attempts⟩⟩
      | error result => exact ⟨result, after, rfl, .inr attempts⟩

end Operation

end ManageOfferOp

end StellarCore.Transactions
