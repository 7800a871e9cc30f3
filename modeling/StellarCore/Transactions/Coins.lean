import StellarCore.Transactions.EntryUpdates

/-!
# Coins

The native coins are those that accounts hold and those in the fee pool.  A
sound ledger has as many as its header says.  Taking the fee of a transaction
moves coins to the pool and the sequence number of its source forward.
-/

namespace StellarCore.Transactions

open StellarCore.Lib

namespace LedgerState

/-- The balances of all accounts and the fee pool. -/
def coins (ledger : LedgerState) : ℤ :=
  ledger.total .native + ledger.header.feePool

structure Sound (ledger : LedgerState) : Prop where
  valid : ledger.Valid
  pool : 0 ≤ ledger.header.feePool
  backed : ledger.coins = ledger.header.totalCoins
  most : ledger.header.totalCoins ≤ int64Max

variable {ledger : LedgerState} {off : AccountID → ℤ}

theorem ValidUpTo.total_nonneg (valid : ledger.ValidUpTo off) :
    0 ≤ ledger.total .native := by
  rw [total, if_pos rfl]
  apply Table.sum_nonneg
  intro row member
  exact (AccountEntry.isValid_iff.mp (valid.accounts row member).valid).balance

theorem ValidUpTo.balance_le (valid : ledger.ValidUpTo off)
    {id : AccountID} {a : AccountEntry}
    (found : ledger.accounts.find? id = some a) :
    a.balance ≤ ledger.total .native := by
  have nonneg : ledger.accounts.All
      (fun _ (a : AccountEntry) => 0 ≤ a.balance) := by
    intro row member
    exact (AccountEntry.isValid_iff.mp
      (valid.accounts row member).valid).balance
  rw [total, if_pos rfl]
  exact Table.le_sum nonneg found

theorem total_putAccount {a old : AccountEntry}
    (found : ledger.accounts.find? a.accountID = some old) :
    (ledger.putAccount a).total .native =
      ledger.total .native - old.balance + a.balance := by
  rw [total, total, if_pos rfl, if_pos rfl, putAccount,
    Table.sum_update found]

/-- An amount is added to the fee pool. -/
def collect (ledger : LedgerState) (amount : ℤ) : LedgerState :=
  { ledger with
    header :=
      { ledger.header with feePool := ledger.header.feePool + amount } }

/-- A valid ledger may have any header that keeps the numbers in use. -/
theorem ValidUpTo.withHeader (valid : ledger.ValidUpTo off)
    {header : LedgerHeader} (idPool : ledger.header.idPool ≤ header.idPool)
    (started : header.ledgerSeq ≠ 0) (sequence : header.ledgerSeq ≤ int32Max) :
    ({ ledger with header } : LedgerState).ValidUpTo off :=
  { valid with
    numbered := fun row member =>
      (valid.numbered row member).trans idPool
    started
    sequence }

theorem ValidUpTo.collect (valid : ledger.ValidUpTo off) (amount : ℤ) :
    (ledger.collect amount).ValidUpTo off :=
  valid.withHeader le_rfl valid.started valid.sequence

end LedgerState

/-! ## The fee of a transaction -/

namespace Transaction

/-- The account after its fee was taken. -/
def charged (tx : Transaction) (a : AccountEntry) : AccountEntry :=
  { a with balance := a.balance - tx.fee, seqNum := tx.seqNum }

/-- The ledger after the fee was taken from the account. -/
def charge (tx : Transaction) (a : AccountEntry) (ledger : LedgerState) :
    LedgerState :=
  (ledger.collect tx.fee).putAccount (tx.charged a)

/-- The transaction is the next one of the account, which can pay for it. -/
structure Chargeable (tx : Transaction) (a : AccountEntry)
    (ledger : LedgerState) : Prop where
  found : ledger.accounts.find? tx.sourceAccount = some a
  follows : tx.seqNum = a.seqNum + 1
  most : (tx.seqNum : ℤ) ≤ int64Max
  affords : (tx.fee : ℤ) ≤ a.balance

variable {tx : Transaction} {a : AccountEntry} {ledger : LedgerState}

theorem chargeFee_eq (chargeable : tx.Chargeable a ledger)
    (valid : ledger.Valid) (pool : 0 ≤ ledger.header.feePool)
    (most : ledger.coins ≤ int64Max) :
    tx.chargeFee a ledger =
      .ok ((tx.fee : ℤ), { a with balance := a.balance - tx.fee })
        (ledger.collect tx.fee) := by
  unfold LedgerState.collect
  have stored := valid.accounts.found chargeable.found
  have affords := chargeable.affords
  have held := valid.balance_le chargeable.found
  unfold LedgerState.coins at most
  unfold chargeFee
  by_cases free : tx.fee = 0
  · rw [if_neg (by omega), free]
    simp only [Nat.cast_zero, sub_zero, add_zero]
    rfl
  · have lower := (AccountEntry.isValid_iff.mp stored.valid).balance
    have upper := stored.most
    have balance : a.balance + -(tx.fee : ℤ) = a.balance - tx.fee := rfl
    have room : wrap64 (ledger.header.feePool + tx.fee) =
        ledger.header.feePool + tx.fee := by
      unfold wrap64
      unfold int64Max at most
      exact Int.bmod_eq_of_le (by omega) (by omega)
    rw [if_pos (Nat.pos_of_ne_zero free), min_eq_right affords]
    simp only
    rw [run_bind, AccountEntry.addBalance_eq lower (by omega),
      if_pos ⟨by omega, by omega⟩, balance]
    simp only
    show (EStateM.Result.ok ((tx.fee : ℤ),
        { a with balance := a.balance - tx.fee })
      { ledger with
        header :=
          { ledger.header with
            feePool := wrap64 (ledger.header.feePool + tx.fee) } } :
      EStateM.Result Failure LedgerState (ℤ × AccountEntry)) = _
    rw [room]

theorem processFeeSeqNum_eq (chargeable : tx.Chargeable a ledger)
    (valid : ledger.Valid) (pool : 0 ≤ ledger.header.feePool)
    (most : ledger.coins ≤ int64Max) :
    tx.processFeeSeqNum ledger = .ok (tx.fee : ℤ) (tx.charge a ledger) := by
  have stored := valid.accounts.found chargeable.found
  have entry := AccountEntry.isValid_iff.mp stored.valid
  have follows := chargeable.follows
  have small := chargeable.most
  have affords := chargeable.affords
  unfold int64Max at small
  have next : (a.seqNum + 1) % 2 ^ 64 = tx.seqNum := by
    rw [← follows]
    exact Nat.mod_eq_of_lt (by omega)
  have storable : (tx.charged a).isValid = true := by
    rw [AccountEntry.isValid_iff]
    exact { entry with
      balance := by
        show 0 ≤ a.balance - tx.fee
        omega
      seqNum := chargeable.most }
  have present : ledger.accounts.contains (tx.charged a).accountID = true := by
    refine Table.contains_eq_true.mpr ⟨a, ?_⟩
    show ledger.accounts.find? a.accountID = some a
    rw [stored.keyed]
    exact chargeable.found
  have saved := (valid.collect tx.fee).storeChangeAccount storable present
  unfold processFeeSeqNum
  rw [run_bind, valid.loadAccount, chargeable.found]
  simp only
  rw [run_bind, chargeFee_eq chargeable valid pool most]
  simp only [next, ne_eq, not_true_eq_false, ↓reduceIte]
  unfold charged at saved
  rw [run_bind, saved]
  rfl

theorem charge_valid (chargeable : tx.Chargeable a ledger)
    (valid : ledger.Valid) : (tx.charge a ledger).Valid := by
  have stored := valid.accounts.found chargeable.found
  have entry := AccountEntry.isValid_iff.mp stored.valid
  have affords := chargeable.affords
  have most := stored.most
  have counted := valid.counted.found chargeable.found
  refine (valid.collect tx.fee).putAccount ?_ ?_ (fun _ _ => rfl) ?_
  · rw [AccountEntry.isValid_iff]
    exact { entry with
      balance := by
        show 0 ≤ a.balance - tx.fee
        omega
      seqNum := chargeable.most }
  · show a.balance - tx.fee ≤ int64Max
    omega
  · show (a.numSubEntries : ℤ) + 0 =
      a.signers.length + ledger.owned a.accountID
    rw [stored.keyed]
    exact counted

theorem coins_charge (chargeable : tx.Chargeable a ledger)
    (valid : ledger.Valid) :
    (tx.charge a ledger).coins = ledger.coins := by
  have stored := valid.accounts.found chargeable.found
  have found : (ledger.collect tx.fee).accounts.find?
      (tx.charged a).accountID = some a := by
    show ledger.accounts.find? a.accountID = some a
    rw [stored.keyed]
    exact chargeable.found
  unfold LedgerState.coins charge
  rw [LedgerState.total_putAccount found]
  show ledger.total .native - a.balance + (a.balance - tx.fee) +
    (ledger.header.feePool + tx.fee) = _
  omega

theorem find?_charge (chargeable : tx.Chargeable a ledger)
    (valid : ledger.Valid) (id : AccountID) :
    (tx.charge a ledger).accounts.find? id =
      if id = tx.sourceAccount then
        some { tx.charged a with lastModified := ledger.header.ledgerSeq }
      else ledger.accounts.find? id := by
  have keyed : (tx.charged a).accountID = tx.sourceAccount :=
    (valid.accounts.found chargeable.found).keyed
  have updated := Table.find?_update ledger.accounts (tx.charged a).accountID
    id { tx.charged a with lastModified := ledger.header.ledgerSeq }
  by_cases same : id = tx.sourceAccount
  · rw [if_pos (same.trans keyed.symm), same, chargeable.found] at updated
    rw [if_pos same, same]
    exact updated
  · rw [if_neg (fun equal => same (equal.trans keyed))] at updated
    rw [if_neg same]
    exact updated

end Transaction

end StellarCore.Transactions
