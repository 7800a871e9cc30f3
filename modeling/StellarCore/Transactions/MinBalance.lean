import StellarCore.Transactions.EntryRules

/-!
# The minimum balance

`getMinBalance` multiplies two 32-bit numbers in 32-bit arithmetic and widens
the product afterwards.  The reserve of an account is exact as long as the
product fits; from then on it starts again at 0, and an account with many
sub-entries may hold less than one with few.
-/

namespace StellarCore.Transactions

open StellarCore.Lib

/-- The reserve of an account with `n` sub-entries. -/
def exactReserve (header : LedgerHeader) (n : ℕ) : ℕ :=
  (2 + n) * header.baseReserve

theorem exactReserve_mono {header : LedgerHeader} {few many : ℕ}
    (fewer : few ≤ many) :
    exactReserve header few ≤ exactReserve header many :=
  Nat.mul_le_mul_right _ (by omega)

theorem getMinBalance_eq_iff {header : LedgerHeader} {n : ℕ} :
    header.getMinBalance n = exactReserve header n ↔
      exactReserve header n < 2 ^ 32 := by
  unfold LedgerHeader.getMinBalance
  rw [Nat.cast_inj]
  exact Nat.mod_eq_iff_lt (by decide)

theorem getMinBalance_nonneg (header : LedgerHeader) (n : ℕ) :
    0 ≤ header.getMinBalance n :=
  Int.natCast_nonneg _

/-- What operations rely on when an account has, or is to have, `n`
sub-entries. -/
structure ReserveExact (header : LedgerHeader) (n : ℕ) : Prop where
  minimum : header.getMinBalance n = exactReserve header n
  count : ∀ fewer ≤ n, header.getMinBalance fewer ≤ header.getMinBalance n
  reserve : ∀ lower ≤ header.baseReserve,
    { header with baseReserve := lower }.getMinBalance n ≤
      header.getMinBalance n
  above : ∀ account : AccountEntry, account.numSubEntries = n →
    account.getBalanceAboveReserve header =
      max 0 (account.balance - exactReserve header n)
  adds : ∀ (ledger : LedgerState) (account : AccountEntry) (k : ℤ),
    ledger.header = header → 0 < k → account.numSubEntries + k = n →
      account.addNumEntries k ledger =
        .ok (if (exactReserve header n : ℤ) ≤ account.balance then
          some { account with numSubEntries := n }
        else none) ledger

/-- Adding sub-entries compares the balance with the computed reserve. -/
theorem addNumEntries_eq {ledger : LedgerState} {account : AccountEntry}
    {k : ℤ} {n : ℕ} (bounded : n ≤ int32Max) (positive : 0 < k)
    (sum : account.numSubEntries + k = n) :
    account.addNumEntries k ledger =
      .ok (if ledger.header.getMinBalance n ≤ account.balance then
        some { account with numSubEntries := n }
      else none) ledger := by
  have counted : (account.numSubEntries + k).bmod (2 ^ 32) = n := by
    rw [sum]
    have small : (n : ℤ) ≤ 2 ^ 31 - 1 := by
      unfold int32Max at bounded
      omega
    exact Int.bmod_eq_of_le (by omega) (by omega)
  apply Ends.eq_ok
  unfold AccountEntry.addNumEntries
  simp only [Ends.bind_iff, getHeader_ends, counted, Ends.ite_iff,
    Ends.throw_iff, Ends.pure_iff, Int.toNat_natCast]
  refine ⟨fun negative => absurd negative (by omega), fun _ => ⟨?_, ?_⟩⟩
  · intro low
    have less : ¬ ledger.header.getMinBalance n ≤ account.balance := by
      simpa [positive] using low
    exact ⟨by rw [if_neg less], trivial⟩
  · intro enough
    have covered : ledger.header.getMinBalance n ≤ account.balance := by
      simpa [positive] using enough
    exact ⟨by rw [if_pos covered], trivial⟩

/-- The reserve is exact exactly as long as the product fits into 32 bits. -/
theorem reserveExact_iff (header : LedgerHeader) (n : ℕ)
    (bounded : n ≤ int32Max) (reserve : header.baseReserve < 2 ^ 32) :
    ReserveExact header n ↔ (2 + n) * header.baseReserve < 2 ^ 32 := by
  constructor
  · intro holds
    exact getMinBalance_eq_iff.mp holds.minimum
  · intro fits
    have minimum := getMinBalance_eq_iff.mpr fits
    refine ⟨minimum, ?_, ?_, ?_, ?_⟩
    · intro fewer below
      have less : exactReserve header fewer ≤ exactReserve header n :=
        exactReserve_mono below
      rw [minimum, getMinBalance_eq_iff.mpr (less.trans_lt fits)]
      exact_mod_cast less
    · intro lower below
      have less : exactReserve { header with baseReserve := lower } n ≤
          exactReserve header n :=
        Nat.mul_le_mul_left _ below
      rw [minimum, getMinBalance_eq_iff.mpr (less.trans_lt fits)]
      exact_mod_cast less
    · intro account counted
      rw [AccountEntry.getBalanceAboveReserve, counted, minimum]
    · intro ledger account k same positive sum
      subst same
      rw [addNumEntries_eq bounded positive sum, minimum]

/-- `LedgerManager::genesisLedger`. -/
def genesisLedger : LedgerHeader :=
  { ledgerVersion := 0, closeTime := 0, ledgerSeq := 1
    totalCoins := 1000000000000000000, feePool := 0, inflationSeq := 0
    idPool := 0, baseFee := 100, baseReserve := 100000000
    maxTxSetSize := 100 }

theorem reserveExact_forty :
    (2 + 40) * genesisLedger.baseReserve < 2 ^ 32 ∧
      ReserveExact genesisLedger 40 :=
  ⟨by decide, (reserveExact_iff genesisLedger 40 (by decide)
    (by decide)).mpr (by decide)⟩

/-- With 41 sub-entries the reserve of the first ledger is less than with
none. -/
theorem getMinBalance_wraps :
    genesisLedger.getMinBalance 41 = 5032704 ∧
      exactReserve genesisLedger 41 = 4300000000 ∧
      genesisLedger.getMinBalance 41 < genesisLedger.getMinBalance 0 ∧
      ¬ ReserveExact genesisLedger 41 := by
  refine ⟨by decide, by decide, by decide, ?_⟩
  intro exact41
  exact absurd exact41.minimum (by decide)

end StellarCore.Transactions
