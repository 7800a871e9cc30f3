import StellarCore.Lib.Growth
import StellarCore.Transactions.Coins
import StellarCore.Transactions.Inflation

/-!
# Ledgers between operations

What every ledger satisfies between two operations, as long as ledgers are
closed before the coins could overflow, and what an operation may change.
New coins are made by inflation only, by the same share each time.
-/

namespace StellarCore.Transactions

open StellarCore.Lib

/-! ## Coins over time -/

/-- The coins after one more inflation. -/
def inflated : ℤ → ℤ :=
  grow inflationRateTrillionths trillion

/-- The coins after as many inflations, from the first ledger on. -/
def coinsAfter (inflationSeq : ℕ) : ℤ :=
  inflated^[inflationSeq] genesisLedger.totalCoins

/-- For so long the coins do not overflow, even if inflation runs every
week. -/
def horizon : ℕ := inflationStartTime + 11000 * inflationFrequency

theorem inflated_mono : Monotone inflated :=
  grow_mono (by decide) (by decide)

theorem le_inflated {coins : ℤ} (nonneg : 0 ≤ coins) :
    coins ≤ inflated coins :=
  le_grow (by decide) (by decide) nonneg

theorem coinsAfter_mono : Monotone coinsAfter :=
  iterate_grow_mono (by decide) (by decide) (by decide)

theorem coinsAfter_succ (inflationSeq : ℕ) :
    coinsAfter (inflationSeq + 1) = inflated (coinsAfter inflationSeq) :=
  Function.iterate_succ_apply' inflated inflationSeq _

theorem coinsAfter_le {inflationSeq : ℕ} (few : inflationSeq ≤ 11001) :
    coinsAfter inflationSeq ≤ int64Max := by
  have cast : ∀ k : ℕ, 1000000000000000000 * 1000190721000 ^ k ≤
      (2 ^ 63 - 1) * 1000000000000 ^ k →
        genesisLedger.totalCoins * (trillion + inflationRateTrillionths) ^ k ≤
          int64Max * trillion ^ k := by
    intro k interest
    have coins : genesisLedger.totalCoins =
        (1000000000000000000 : ℕ) := by decide
    have factor : trillion + inflationRateTrillionths =
        (1000190721000 : ℕ) := by decide
    have most : int64Max = (2 ^ 63 - 1 : ℕ) := by decide
    have whole : trillion = (1000000000000 : ℕ) := by decide
    rw [coins, factor, most, whole]
    exact_mod_cast interest
  have last : coinsAfter 11001 ≤ int64Max :=
    iterate_grow_le (by decide) (by decide) (cast 11001 (by decide +kernel))
  exact (coinsAfter_mono few).trans last

namespace LedgerState

/-- A ledger of the current version, with the numbers of its header in their
bounds. -/
structure Running (ledger : LedgerState) : Prop extends ledger.Sound where
  version : ledger.header.ledgerVersion = 9
  numbers : (ledger.header.idPool : ℤ) ≤ int64Max
  timely : ledger.header.closeTime ≤ horizon
  paced : ledger.header.inflationSeq ≤ 11001
  minted : ledger.header.totalCoins ≤
    coinsAfter ledger.header.inflationSeq

end LedgerState

/-! ## Steps -/

/-- What no operation changes of a header. -/
def LedgerHeader.fixed (header : LedgerHeader) : LedgerHeader :=
  { header with idPool := 0, feePool := 0, totalCoins := 0
                inflationSeq := 0 }

/-- The ledger after operations: sound again, with new coins for every
inflation that has run, and with no sequence number but those that were there
and the one of new accounts. -/
structure Applied (before after : LedgerState) : Prop where
  running : after.Running
  fixed : after.header.fixed = before.header.fixed
  coins : ∃ k, after.header.inflationSeq = before.header.inflationSeq + k ∧
    after.header.totalCoins = inflated^[k] before.header.totalCoins
  numbers : ∀ id a, after.accounts.find? id = some a →
    (∃ b, before.accounts.find? id = some b ∧ a.seqNum = b.seqNum) ∨
      a.seqNum = before.header.getStartingSequenceNumber

namespace Applied

variable {before middle after : LedgerState}

theorem refl (running : before.Running) : Applied before before where
  running := running
  fixed := rfl
  coins := ⟨0, rfl, rfl⟩
  numbers _ a found := .inl ⟨a, found, rfl⟩

theorem starting
    (fixed : middle.header.fixed = before.header.fixed) :
    middle.header.getStartingSequenceNumber =
      before.header.getStartingSequenceNumber := by
  have same := congrArg LedgerHeader.ledgerSeq fixed
  exact congrArg (fun ledgerSeq => ledgerSeq * 2 ^ 32 % 2 ^ 64) same

theorem trans (first : Applied before middle)
    (second : Applied middle after) : Applied before after where
  running := second.running
  fixed := second.fixed.trans first.fixed
  coins := by
    obtain ⟨k, passed, made⟩ := first.coins
    obtain ⟨l, later, more⟩ := second.coins
    refine ⟨l + k, by omega, ?_⟩
    rw [more, made, Function.iterate_add_apply]
  numbers := by
    intro id a found
    rcases second.numbers id a found with ⟨b, present, same⟩ | new
    · rcases first.numbers id b present with ⟨c, old, same'⟩ | new
      · exact .inl ⟨c, old, same.trans same'⟩
      · exact .inr (same.trans new)
    · rw [starting first.fixed] at new
      exact .inr new

/-- While inflation does not run, no coin is made and none is lost. -/
theorem coins_eq (applied : Applied before after) (running : before.Running)
    (none : after.header.inflationSeq = before.header.inflationSeq) :
    after.coins = before.coins := by
  obtain ⟨k, passed, made⟩ := applied.coins
  obtain rfl : k = 0 := by omega
  rw [applied.running.backed, made, running.backed]
  rfl

/-- An operation other than inflation: the coins are moved only. -/
theorem of_kept (running : before.Running) (valid : after.Valid)
    (header : after.header = { before.header with
      idPool := after.header.idPool })
    (numbered : (after.header.idPool : ℤ) ≤ int64Max)
    (total : after.total .native = before.total .native)
    (numbers : ∀ id a, after.accounts.find? id = some a →
      (∃ b, before.accounts.find? id = some b ∧ a.seqNum = b.seqNum) ∨
        a.seqNum = before.header.getStartingSequenceNumber) :
    Applied before after := by
  have coins : after.coins = before.coins := by
    unfold LedgerState.coins
    rw [total, header]
  generalize after.header.idPool = idPool at header numbered
  refine ⟨?_, ?_, ⟨0, ?_, ?_⟩, numbers⟩
  · exact {
      valid
      pool := by
        rw [header]
        exact running.pool
      backed := by
        rw [coins, header]
        exact running.backed
      most := by
        rw [header]
        exact running.most
      version := by
        rw [header]
        exact running.version
      numbers := by
        rw [header]
        exact numbered
      timely := by
        rw [header]
        exact running.timely
      paced := by
        rw [header]
        exact running.paced
      minted := by
        rw [header]
        exact running.minted }
  · rw [header]
    rfl
  · rw [header]
    rfl
  · rw [header]
    rfl

end Applied

/-- A stored account keeps the sequence number that it had. -/
theorem numbers_putAccount {ledger : LedgerState} {a old : AccountEntry}
    (found : ledger.accounts.find? a.accountID = some old)
    (same : a.seqNum = old.seqNum) (id : AccountID) (x : AccountEntry)
    (present : (ledger.putAccount a).accounts.find? id = some x) :
    ∃ b, ledger.accounts.find? id = some b ∧ x.seqNum = b.seqNum := by
  rw [LedgerState.putAccount, Table.find?_update] at present
  split at present
  case isTrue equal =>
      subst equal
      rw [found, Option.map_some, Option.some_inj] at present
      subst present
      exact ⟨old, found, same⟩
  case isFalse => exact ⟨x, present, rfl⟩

namespace Applied

variable {before after : LedgerState}

/-- Of the accounts one was stored, with its balance and its sequence
number. -/
theorem of_account (running : before.Running) (valid : after.Valid)
    {a old : AccountEntry}
    (found : before.accounts.find? a.accountID = some old)
    (balance : a.balance = old.balance) (sequence : a.seqNum = old.seqNum)
    (accounts : after.accounts = (before.putAccount a).accounts)
    (header : after.header = before.header) : Applied before after := by
  refine of_kept running valid ?_ ?_ ?_ ?_
  · rw [header]
  · rw [header]
    exact running.numbers
  · have same : after.total .native = (before.putAccount a).total .native := by
      rw [LedgerState.total, LedgerState.total, accounts]
      rfl
    have moved := LedgerState.total_putAccount found
    omega
  · intro id x present
    rw [accounts] at present
    exact .inl (numbers_putAccount found sequence id x present)

/-- The accounts were not changed. -/
theorem of_entries (running : before.Running) (valid : after.Valid)
    (accounts : after.accounts = before.accounts)
    (header : after.header = before.header) : Applied before after := by
  refine of_kept running valid ?_ ?_ ?_ ?_
  · rw [header]
  · rw [header]
    exact running.numbers
  · rw [LedgerState.total, LedgerState.total, accounts]
    rfl
  · intro id x present
    rw [accounts] at present
    exact .inl ⟨x, present, rfl⟩

end Applied

/-- An operation that succeeds is applied; one that fails has changed
nothing. -/
structure Concludes (success : Prop) (before after : LedgerState) : Prop where
  applied : success → Applied before after
  unchanged : ¬ success → after = before

namespace Concludes

variable {success : Prop} {before after : LedgerState}

theorem failed (fails : ¬ success) (ledger : LedgerState) :
    Concludes success ledger ledger where
  applied success := absurd success fails
  unchanged _ := rfl

theorem succeeded (holds : success) (applied : Applied before after) :
    Concludes success before after where
  applied _ := applied
  unchanged fails := absurd holds fails

/-- Whatever came out, the ledger satisfies what it did. -/
theorem outcome (concludes : Concludes success before after)
    (running : before.Running) : Applied before after := by
  by_cases holds : success
  · exact concludes.applied holds
  · rw [concludes.unchanged holds]
    exact .refl running

end Concludes

/-! ## New and deleted accounts -/

namespace LedgerState

variable {ledger : LedgerState} {off : AccountID → ℤ}

def addAccount (ledger : LedgerState) (a : AccountEntry) : LedgerState :=
  { ledger with
    accounts := ledger.accounts.insert a.accountID
      { a with lastModified := ledger.header.ledgerSeq } }

def dropAccount (ledger : LedgerState) (id : AccountID) : LedgerState :=
  { ledger with accounts := ledger.accounts.erase id }

theorem total_addAccount {a : AccountEntry}
    (absent : ledger.accounts.find? a.accountID = none) :
    (ledger.addAccount a).total .native =
      ledger.total .native + a.balance := by
  rw [total, total, if_pos rfl, if_pos rfl, addAccount,
    Table.sum_insert absent]

theorem total_dropAccount {id : AccountID} {a : AccountEntry}
    (found : ledger.accounts.find? id = some a) :
    (ledger.dropAccount id).total .native =
      ledger.total .native - a.balance := by
  rw [total, total, if_pos rfl, if_pos rfl, dropAccount,
    Table.sum_erase found]

theorem ValidUpTo.storeAddAccount (valid : ledger.ValidUpTo off)
    {a : AccountEntry} (storable : a.isValid = true)
    (absent : ledger.accounts.find? a.accountID = none) :
    Transactions.storeAddAccount a ledger =
      .ok { a with lastModified := ledger.header.ledgerSeq }
        (ledger.addAccount a) := by
  have missing : ledger.accounts.contains a.accountID = false := by
    rw [Table.contains, absent]
    rfl
  apply Ends.eq_ok
  unfold Transactions.storeAddAccount
  rw [if_pos storable, Ends.bind_iff, touch_ends]
  refine ⟨fun _ => ?_, fun zero => absurd zero valid.started⟩
  simp only
  rw [Ends.bind_iff, Ends.get_iff, missing]
  exact ⟨rfl, rfl⟩

/-- Rows of a table that each belong to an account. -/
theorem sum_absent {κ ν : Type} {table : Table κ ν}
    (owner : κ → ν → AccountID) {id : AccountID}
    (present : table.All (fun key value =>
      ledger.accounts.contains (owner key value) = true))
    (absent : ledger.accounts.find? id = none) :
    table.sum (fun key value => if owner key value = id then 1 else 0) =
      0 := by
  apply List.sum_eq_zero
  intro count member
  obtain ⟨row, listed, rfl⟩ := List.mem_map.mp member
  have apart : owner row.1 row.2 ≠ id := by
    rintro rfl
    have found : ledger.accounts.contains (owner row.1 row.2) = true :=
      present row listed
    rw [Table.contains, absent] at found
    cases found
  exact if_neg apart

/-- An account that does not exist owns nothing. -/
theorem ValidUpTo.owned_absent (valid : ledger.ValidUpTo off)
    {id : AccountID} (absent : ledger.accounts.find? id = none) :
    ledger.owned id = 0 := by
  have lines := sum_absent (fun (key : AccountID × Asset) _ => key.1)
    valid.holders absent
  have offers := sum_absent (fun _ (offer : OfferEntry) => offer.sellerID)
    valid.sellers absent
  have data := sum_absent (fun (key : AccountID × List UInt8) _ => key.1)
    valid.namers absent
  rw [owned, lines, offers, data]
  rfl

theorem contains_addAccount {a : AccountEntry} {id : AccountID}
    (present : ledger.accounts.contains id = true) :
    (ledger.addAccount a).accounts.contains id = true := by
  obtain ⟨row, found⟩ := Table.contains_eq_true.mp present
  refine Table.contains_eq_true.mpr ⟨row, ?_⟩
  rw [addAccount, Table.find?_insert, if_neg]
  · exact found
  · rintro ⟨rfl, absent⟩
    rw [absent] at found
    cases found

theorem ValidUpTo.addAccount (valid : ledger.ValidUpTo off)
    {a : AccountEntry} (storable : a.isValid = true)
    (most : a.balance ≤ int64Max)
    (absent : ledger.accounts.find? a.accountID = none)
    (counted : a.numSubEntries + off a.accountID = a.signers.length) :
    (ledger.addAccount a).ValidUpTo off :=
  { valid with
    accounts := valid.accounts.insert
      ⟨rfl, AccountEntry.isValid_stamp storable valid.sequence, most⟩
    holders := fun row member =>
      contains_addAccount (valid.holders row member)
    sellers := fun row member =>
      contains_addAccount (valid.sellers row member)
    namers := fun row member =>
      contains_addAccount (valid.namers row member)
    counted := by
      refine Table.All.insert valid.counted ?_
      show (a.numSubEntries : ℤ) + off a.accountID =
        a.signers.length + ledger.owned a.accountID
      rw [valid.owned_absent absent, add_zero]
      exact counted }

/-- Of an account that owns nothing no row is left behind. -/
theorem contains_dropAccount {κ ν : Type} [DecidableEq κ]
    {table : Table κ ν} (owner : κ → ν → AccountID) {id : AccountID}
    (present : table.All (fun key value =>
      ledger.accounts.contains (owner key value) = true))
    (none : table.sum (fun key value => if owner key value = id then 1 else 0)
      = 0) :
    table.All (fun key value =>
      (ledger.dropAccount id).accounts.contains (owner key value) =
        true) := by
  intro row member
  have apart : owner row.1 row.2 ≠ id := by
    intro same
    have nonneg : table.All (fun key value =>
        (0 : ℤ) ≤ if owner key value = id then 1 else 0) := by
      intro other _
      split
      · decide
      · decide
    have counts := Table.le_sum nonneg (Table.find?_eq_some.mpr member)
    rw [none, if_pos same] at counts
    exact absurd counts (by decide)
  obtain ⟨a, found⟩ := Table.contains_eq_true.mp (present row member)
  refine Table.contains_eq_true.mpr ⟨a, ?_⟩
  rw [dropAccount, Table.find?_erase, if_neg apart]
  exact found

theorem sums_of_owned {id : AccountID} (none : ledger.owned id = 0) :
    ledger.trustLines.sum (fun key _ => if key.1 = id then 1 else 0) = 0 ∧
      ledger.offers.sum
        (fun _ offer => if offer.sellerID = id then 1 else 0) = 0 ∧
      ledger.data.sum (fun key _ => if key.1 = id then 1 else 0) = 0 := by
  have positive : ∀ condition : Prop, [Decidable condition] →
      (0 : ℤ) ≤ if condition then 1 else 0 := by
    intro condition _
    split
    · decide
    · decide
  have lines : 0 ≤ ledger.trustLines.sum
      (fun key _ => if key.1 = id then 1 else 0) :=
    Table.sum_nonneg (fun _ _ => positive _)
  have offers : 0 ≤ ledger.offers.sum
      (fun _ offer => if offer.sellerID = id then 1 else 0) :=
    Table.sum_nonneg (fun _ _ => positive _)
  have data : 0 ≤ ledger.data.sum
      (fun key _ => if key.1 = id then 1 else 0) :=
    Table.sum_nonneg (fun _ _ => positive _)
  unfold owned at none
  omega

theorem ValidUpTo.dropAccount (valid : ledger.ValidUpTo off)
    {id : AccountID} (none : ledger.owned id = 0) :
    (ledger.dropAccount id).ValidUpTo off := by
  obtain ⟨lines, offers, data⟩ := sums_of_owned none
  exact { valid with
    accounts := valid.accounts.erase
    holders := contains_dropAccount
      (fun (key : AccountID × Asset) _ => key.1) valid.holders lines
    sellers := contains_dropAccount
      (fun _ (offer : OfferEntry) => offer.sellerID) valid.sellers offers
    namers := contains_dropAccount
      (fun (key : AccountID × List UInt8) _ => key.1) valid.namers data
    counted := valid.counted.erase }

end LedgerState

end StellarCore.Transactions
