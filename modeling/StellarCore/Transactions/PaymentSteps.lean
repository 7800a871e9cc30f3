import StellarCore.Transactions.Balances
import StellarCore.Transactions.PathPayment

/-!
# The two ends of a payment

What crediting the destination and debiting the source of a path payment do on
a valid ledger: a balance is changed, or the payment is rejected and nothing
has been stored.
-/

namespace StellarCore.Transactions

open StellarCore.Lib

variable {ledger : LedgerState} {op : PathPaymentOp} {id : AccountID}
  {asset : Asset} {amount : ℤ}

namespace PathPaymentOp

theorem loadCheckedLine_attempts (valid : ledger.Valid)
    (credit : asset ≠ .native) :
    Attempts (op.loadCheckedLine id asset) ledger
      (fun line after => line = ledger.lineOf id asset ∧ after = ledger)
      (fun result after => result = .noIssuer asset ∧ after = ledger)
      (fun _ _ => False) := by
  unfold loadCheckedLine
  rw [Attempts.ite_iff]
  constructor
  · intro _
    rw [Attempts.lift_iff]
    exact .of_run (valid.loadTrustLine id credit) ⟨rfl, rfl⟩
  · intro _
    rw [Attempts.bind_iff, Attempts.lift_iff]
    refine .of_run (valid.loadTrustLineIssuer id credit) ?_
    simp only
    rw [Attempts.ite_iff]
    exact ⟨fun _ => ⟨rfl, rfl⟩, fun _ => ⟨rfl, rfl⟩⟩

theorem changeLine_attempts (valid : ledger.Valid)
    (credit : asset ≠ .native) (assetValid : asset.isAssetValid = true)
    (changes : amount ≠ 0)
    (absent untrusted cannot : PathPaymentResult) :
    Attempts (changeLine (ledger.lineOf id asset) amount absent untrusted
        cannot) ledger
      (fun _ after => ledger.CanAdjust id asset amount ∧
        after = ledger.credit id asset amount)
      (fun result after => (result = absent ∨ result = untrusted ∨
        result = cannot) ∧ after = ledger)
      (fun _ _ => False) := by
  unfold changeLine
  cases found : ledger.lineOf id asset with
  | none => exact ⟨.inl rfl, rfl⟩
  | some frame =>
      simp only
      rw [Attempts.ite_iff]
      constructor
      · exact fun _ => ⟨.inr (.inl rfl), rfl⟩
      · intro trusted
        have authorized : frame.isAuthorized = true := by
          simpa using trusted
        rw [Attempts.bind_iff, Attempts.lift_iff]
        by_cases can : ledger.CanAdjust id asset amount
        · obtain ⟨paid, row, added, stored⟩ :=
            valid.payLine found credit changes can
          refine .of_run added ?_
          simp only
          rw [Attempts.bind_iff, Attempts.lift_iff]
          exact .of_run stored ⟨can, rfl⟩
        · exact .of_run (valid.overdrawn found credit assetValid changes
            authorized can) ⟨.inr (.inr rfl), rfl⟩

theorem bypassIssuerCheck_credit (bypass : op.bypassIssuerCheck = true) :
    op.destAsset ≠ .native := by
  simp only [bypassIssuerCheck, Bool.and_eq_true, decide_eq_true_eq] at bypass
  exact bypass.1.1.1

theorem loadDestination_attempts (valid : ledger.Valid) :
    Attempts op.loadDestination ledger
      (fun destination after => after = ledger ∧
        (op.destAsset = .native → ∃ a, destination = some a ∧
          ledger.accounts.find? op.destination = some a))
      (fun result after => result = .noDestination ∧ after = ledger)
      (fun _ _ => False) := by
  unfold loadDestination
  rw [Attempts.ite_iff]
  constructor
  · intro bypass
    exact ⟨rfl, fun native => absurd native (bypassIssuerCheck_credit bypass)⟩
  · intro _
    rw [Attempts.bind_iff, Attempts.lift_iff]
    refine .of_run (valid.loadAccount op.destination) ?_
    cases ledger.accounts.find? op.destination with
    | none => exact ⟨rfl, rfl⟩
    | some a => exact ⟨rfl, fun _ => ⟨a, rfl, rfl⟩⟩

/-- The destination cannot hold what it is paid in the native asset. -/
def Overflows (ledger : LedgerState) (op : PathPaymentOp) : Prop :=
  op.destAsset = .native ∧
    ∃ a, ledger.accounts.find? op.destination = some a ∧
      int64Max < a.balance + op.destAmount

theorem creditDestination_attempts (valid : ledger.Valid)
    (assetValid : op.destAsset.isAssetValid = true)
    (positive : 0 < op.destAmount) :
    Attempts op.creditDestination ledger
      (fun _ after =>
        ledger.CanAdjust op.destination op.destAsset op.destAmount ∧
          after =
            ledger.credit op.destination op.destAsset op.destAmount)
      (fun result after => (result.toPayment.isSome = true ∨
        result = .malformed ∧ Overflows ledger op) ∧ after = ledger)
      (fun _ _ => False) := by
  unfold creditDestination
  rw [Attempts.bind_iff]
  refine (loadDestination_attempts valid).mono ?_ ?_ (fun _ _ => id)
  · rintro destination after ⟨rfl, loaded⟩
    rw [Attempts.ite_iff]
    constructor
    · intro native
      obtain ⟨a, rfl, found⟩ := loaded native
      have nonneg := (AccountEntry.isValid_iff.mp
        (valid.accounts.found found).valid).balance
      simp only
      rw [Attempts.bind_iff, Attempts.lift_iff]
      by_cases fits : 0 ≤ a.balance + op.destAmount ∧
          a.balance + op.destAmount ≤ int64Max
      · obtain ⟨paid, row, added, stored, _⟩ :=
          valid.payAccount found positive.ne' fits
        refine .of_run added ?_
        simp only
        rw [Attempts.bind_iff, Attempts.lift_iff, native]
        exact .of_run stored ⟨.native found fits, rfl⟩
      · refine .of_run (valid.overpaid found positive.ne' fits) ?_
        exact ⟨.inr ⟨rfl, native, a, found, by omega⟩, rfl⟩
    · intro credit
      rw [Attempts.bind_iff]
      refine (loadCheckedLine_attempts valid credit).mono ?_ ?_
        (fun _ _ => id)
      · rintro line after ⟨rfl, rfl⟩
        refine (changeLine_attempts valid credit assetValid positive.ne'
          _ _ _).mono (fun _ _ => id) ?_ (fun _ _ => id)
        rintro result after ⟨codes, same⟩
        refine ⟨.inl ?_, same⟩
        obtain rfl | rfl | rfl := codes
        · rfl
        · rfl
        · rfl
      · rintro result after ⟨rfl, same⟩
        exact ⟨.inl rfl, same⟩
  · rintro result after ⟨rfl, same⟩
    exact ⟨.inl rfl, same⟩

/-- The source account is the row, or it is loaded again. -/
structure SourceReady (source : AccountEntry) (ledger : LedgerState) :
    Prop where
  present : ledger.accounts.contains source.accountID = true
  current : ledger.header.ledgerVersion ≤ 7 →
    ledger.accounts.find? source.accountID = some source

theorem reloadSource_attempts {source : AccountEntry} (valid : ledger.Valid)
    (ready : SourceReady source ledger) :
    Attempts (reloadSource source) ledger
      (fun a after => after = ledger ∧
        ledger.accounts.find? source.accountID = some a)
      (fun _ _ => False) (fun _ _ => False) := by
  unfold reloadSource
  rw [Attempts.bind_iff, Attempts.lift_iff, getHeader_ends, Attempts.ite_iff]
  constructor
  · intro _
    rw [Attempts.bind_iff, Attempts.lift_iff]
    refine .of_run (valid.loadAccount source.accountID) ?_
    obtain ⟨a, found⟩ := Table.contains_eq_true.mp ready.present
    rw [found]
    exact ⟨rfl, rfl⟩
  · intro old
    exact ⟨rfl, ready.current (not_lt.mp old)⟩

theorem debitSource_attempts {source : AccountEntry} {hop : Hop}
    (valid : ledger.Valid) (ready : SourceReady source ledger)
    (assetValid : hop.curB.isAssetValid = true)
    (positive : 0 < hop.curBReceived) :
    Attempts (op.debitSource source hop) ledger
      (fun _ after => hop.curBReceived ≤ op.sendMax ∧
        ledger.CanAdjust source.accountID hop.curB (-hop.curBReceived) ∧
          after = ledger.credit source.accountID hop.curB
            (-hop.curBReceived))
      (fun result after => (result.toPayment.isSome = true ∨
        result = .overSendmax ∧ op.sendMax < hop.curBReceived) ∧
          after = ledger)
      (fun _ _ => False) := by
  have changes : -hop.curBReceived ≠ 0 := by omega
  unfold debitSource
  rw [Attempts.ite_iff]
  constructor
  · exact fun exceeds => ⟨.inr ⟨rfl, exceeds⟩, rfl⟩
  intro within
  rw [Attempts.ite_iff]
  constructor
  · intro native
    unfold debitNative
    rw [Attempts.bind_iff]
    refine (reloadSource_attempts valid ready).mono ?_
      (fun _ _ impossible => impossible.elim) (fun _ _ => id)
    rintro a kept ⟨rfl, found⟩
    rw [Attempts.bind_iff, Attempts.lift_iff, getHeader_ends,
      Attempts.ite_iff]
    constructor
    · exact fun _ => ⟨.inl rfl, rfl⟩
    · intro enough
      have most := (valid.accounts.found found).most
      have reserve := getMinBalance_nonneg kept.header a.numSubEntries
      have fits : 0 ≤ a.balance + -hop.curBReceived ∧
          a.balance + -hop.curBReceived ≤ int64Max := by
        unfold AccountEntry.getMinimumBalance at enough
        omega
      obtain ⟨paid, row, added, stored, _⟩ :=
        valid.payAccount found changes fits
      rw [Attempts.bind_iff, Attempts.lift_iff]
      refine .of_run added ?_
      simp only
      rw [Attempts.bind_iff, Attempts.lift_iff, native]
      exact .of_run stored ⟨not_lt.mp within, .native found fits, rfl⟩
  · intro credit
    unfold debitLine
    rw [Attempts.bind_iff]
    refine (loadCheckedLine_attempts valid credit).mono ?_ ?_ (fun _ _ => id)
    · rintro line after ⟨rfl, rfl⟩
      refine (changeLine_attempts valid credit assetValid changes
        _ _ _).mono ?_ ?_ (fun _ _ => id)
      · rintro _ after ⟨can, same⟩
        exact ⟨not_lt.mp within, can, same⟩
      · rintro result after ⟨codes, same⟩
        refine ⟨.inl ?_, same⟩
        obtain rfl | rfl | rfl := codes
        · rfl
        · rfl
        · rfl
    · rintro result after ⟨rfl, same⟩
      exact ⟨.inl rfl, same⟩

end PathPaymentOp

end StellarCore.Transactions
