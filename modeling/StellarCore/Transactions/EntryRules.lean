import StellarCore.Transactions.TransactionFrame

/-!
# Rules for entries

What loading and storing an entry does, as rules for `Ends`, and the parts of
the `isValid` predicates by name.
-/

namespace StellarCore.Transactions

open StellarCore.Lib

structure AccountEntry.Valid (a : AccountEntry) : Prop where
  lastModified : a.lastModified ≤ int32Max
  homeDomain : isString32Valid a.homeDomain = true
  balance : 0 ≤ a.balance
  seqNum : (a.seqNum : ℤ) ≤ int64Max
  ordered : a.signers.IsChain (fun s1 s2 => s1.key < s2.key)
  flags : a.flags &&& ~~~maskAccountFlags = 0
  numSubEntries : a.numSubEntries ≤ int32Max
  weights : ∀ s ∈ a.signers, s.weight ≤ 255 ∧ s.weight ≠ 0

theorem AccountEntry.isValid_iff {a : AccountEntry} :
    a.isValid = true ↔ a.Valid := by
  constructor
  · intro valid
    simp only [isValid, Bool.and_eq_true, decide_eq_true_eq,
      List.all_eq_true] at valid
    obtain ⟨⟨⟨⟨⟨⟨⟨lastModified, homeDomain⟩, balance⟩, seqNum⟩, ordered⟩,
      flags⟩, numSubEntries⟩, weights⟩ := valid
    exact ⟨lastModified, homeDomain, balance, seqNum, ordered, flags,
      numSubEntries, weights⟩
  · intro valid
    simp only [isValid, Bool.and_eq_true, decide_eq_true_eq,
      List.all_eq_true]
    exact ⟨⟨⟨⟨⟨⟨⟨valid.lastModified, valid.homeDomain⟩, valid.balance⟩,
      valid.seqNum⟩, valid.ordered⟩, valid.flags⟩, valid.numSubEntries⟩,
      valid.weights⟩

structure TrustLineEntry.Valid (tl : TrustLineEntry) : Prop where
  lastModified : tl.lastModified ≤ int32Max
  credit : tl.asset ≠ .native
  asset : tl.asset.isAssetValid = true
  balance : 0 ≤ tl.balance
  limit : 0 < tl.limit
  within : tl.balance ≤ tl.limit
  flags : tl.flags &&& ~~~maskTrustLineFlags = 0

theorem TrustLineEntry.isValid_iff {tl : TrustLineEntry} :
    tl.isValid = true ↔ tl.Valid := by
  simp only [isValid, Bool.and_eq_true, decide_eq_true_eq]
  constructor
  · rintro ⟨⟨⟨⟨⟨⟨lastModified, credit⟩, asset⟩, balance⟩, limit⟩, within⟩,
      flags⟩
    exact ⟨lastModified, credit, asset, balance, limit, within, flags⟩
  · intro valid
    exact ⟨⟨⟨⟨⟨⟨valid.lastModified, valid.credit⟩, valid.asset⟩,
      valid.balance⟩, valid.limit⟩, valid.within⟩, valid.flags⟩

structure OfferEntry.Valid (oe : OfferEntry) : Prop where
  lastModified : oe.lastModified ≤ int32Max
  offerID : (oe.offerID : ℤ) ≤ int64Max
  amount : 0 < oe.amount
  n : 0 < oe.price.n
  d : 1 ≤ oe.price.d
  selling : oe.selling.isAssetValid = true
  buying : oe.buying.isAssetValid = true
  flags : oe.flags &&& ~~~maskOfferEntryFlags = 0

theorem OfferEntry.isValid_iff {oe : OfferEntry} :
    oe.isValid = true ↔ oe.Valid := by
  simp only [isValid, Bool.and_eq_true, decide_eq_true_eq]
  constructor
  · rintro ⟨⟨⟨⟨⟨⟨⟨lastModified, offerID⟩, amount⟩, n⟩, d⟩, selling⟩,
      buying⟩, flags⟩
    exact ⟨lastModified, offerID, amount, n, d, selling, buying, flags⟩
  · intro valid
    exact ⟨⟨⟨⟨⟨⟨⟨valid.lastModified, valid.offerID⟩, valid.amount⟩, valid.n⟩,
      valid.d⟩, valid.selling⟩, valid.buying⟩, valid.flags⟩

structure DataEntry.Valid (d : DataEntry) : Prop where
  lastModified : d.lastModified ≤ int32Max
  named : 0 < d.dataName.length
  dataName : isString32Valid d.dataName = true

theorem DataEntry.isValid_iff {d : DataEntry} :
    d.isValid = true ↔ d.Valid := by
  simp only [isValid, Bool.and_eq_true, decide_eq_true_eq]
  constructor
  · rintro ⟨⟨lastModified, named⟩, dataName⟩
    exact ⟨lastModified, named, dataName⟩
  · intro valid
    exact ⟨⟨valid.lastModified, valid.named⟩, valid.dataName⟩

theorem firstOf_eq_none {ρ : Type} {checks : List (Bool × ρ)} :
    firstOf checks = none ↔ ∀ check ∈ checks, check.1 = false := by
  induction checks with
  | nil => simp [firstOf]
  | cons check checks ih =>
      obtain ⟨fails, result⟩ := check
      cases fails with
      | false => simpa [firstOf] using ih
      | true => simp [firstOf]

theorem run_bind {α β : Type} (program : Ledger α) (next : α → Ledger β)
    (ledger : LedgerState) :
    (program >>= next) ledger =
      match program ledger with
      | .ok value after => next value after
      | .error failure after => .error failure after := by
  show EStateM.bind program next ledger = _
  unfold EStateM.bind
  cases program ledger with
  | ok value after => rfl
  | error failure after => rfl

theorem assert_true {condition : Prop} [Decidable condition]
    (holds : condition) : assert (decide condition) = pure () := by
  rw [assert, if_pos (decide_eq_true holds)]

variable {ledger : LedgerState} {failed : Failure → LedgerState → Prop}

@[simp] theorem assert_ends {condition : Bool}
    {done : Unit → LedgerState → Prop} :
    Ends (assert condition) ledger done failed ↔
      (condition = true → done () ledger) ∧
        (condition = false → failed .assertion ledger) := by
  unfold assert
  simp only [Ends.ite_iff, Ends.pure_iff, Ends.throw_iff, Bool.not_eq_true]

@[simp] theorem getHeader_ends {done : LedgerHeader → LedgerState → Prop} :
    Ends getHeader ledger done failed ↔ done ledger.header ledger :=
  Iff.rfl

@[simp] theorem touch_ends {done : ℕ → LedgerState → Prop} :
    Ends touch ledger done failed ↔
      (ledger.header.ledgerSeq ≠ 0 → done ledger.header.ledgerSeq ledger) ∧
        (ledger.header.ledgerSeq = 0 → failed .assertion ledger) := by
  unfold touch
  simp only [Ends.bind_iff, getHeader_ends, assert_ends, Ends.pure_iff,
    decide_eq_true_eq, decide_eq_false_iff_not, ne_eq, not_not]

theorem addBalance_ends {balance delta maxBalance : ℤ}
    {done : Option ℤ → LedgerState → Prop}
    (holds : 0 ≤ balance) (limited : 0 ≤ maxBalance) :
    Ends (addBalance balance delta maxBalance) ledger done failed ↔
      done (if delta = 0 ∨ (0 ≤ balance + delta ∧
          balance + delta ≤ maxBalance)
        then some (balance + delta) else none) ledger := by
  unfold addBalance
  simp only [Ends.bind_iff, assert_ends, Ends.ite_iff, Ends.pure_iff,
    decide_eq_true_eq, decide_eq_false_iff_not, holds, limited,
    not_true_eq_false, false_implies, and_true, true_implies]
  by_cases zero : delta = 0
  · simp [zero]
  · by_cases low : delta < -balance
    · have less : ¬ 0 ≤ balance + delta := by omega
      simp [zero, low, less]
    · by_cases high : maxBalance - balance < delta
      · have more : ¬ balance + delta ≤ maxBalance := by omega
        simp [zero, low, high, more]
      · have inside : 0 ≤ balance + delta ∧
            balance + delta ≤ maxBalance := by omega
        simp [zero, low, high, inside]

theorem loadAccount_ends {accountID : AccountID}
    {done : Option AccountEntry → LedgerState → Prop} :
    Ends (loadAccount accountID) ledger done failed ↔
      (ledger.accounts.find? accountID = none → done none ledger) ∧
        ∀ row, ledger.accounts.find? accountID = some row →
          ((row.loaded accountID).isValid = true →
            done (some (row.loaded accountID)) ledger) ∧
          ((row.loaded accountID).isValid = false →
            failed (.invalidEntry .account) ledger) := by
  unfold loadAccount
  rw [Ends.bind_iff, Ends.get_iff]
  cases found : ledger.accounts.find? accountID with
  | none => simp
  | some row => simp

theorem storeChangeAccount_ends {a : AccountEntry}
    {done : AccountEntry → LedgerState → Prop}
    (positive : ledger.header.ledgerSeq ≠ 0) :
    Ends (storeChangeAccount a) ledger done failed ↔
      (a.isValid = true →
        ((ledger.accounts.contains a.accountID = true →
          done { a with lastModified := ledger.header.ledgerSeq }
            { ledger with
              accounts := ledger.accounts.update a.accountID
                { a with lastModified := ledger.header.ledgerSeq } }) ∧
        (ledger.accounts.contains a.accountID = false →
          failed (.runtimeError "Could not update data in SQL") ledger))) ∧
      (a.isValid = false → failed (.invalidEntry .account) ledger) := by
  unfold storeChangeAccount
  simp [positive]

end StellarCore.Transactions
