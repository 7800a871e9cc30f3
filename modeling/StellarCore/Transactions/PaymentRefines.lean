import StellarCore.Transactions.PaymentSteps

/-!
# Payments are path payments

A payment is applied as a path payment of one step, and its code is the one
for the code of the path payment.  A native payment to the source itself
succeeds at once.
-/

namespace StellarCore.Transactions

open StellarCore.Lib

/-- The code that a payment has for each code it expects. -/
def PathPaymentResult.asPayment : PathPaymentResult → Option PaymentResult
  | .success _ _ => some .success
  | failure => failure.toPayment

theorem PathPaymentResult.asPayment_eq_success {result : PathPaymentResult} :
    result.asPayment = some .success ↔
      ∃ offers last, result = .success offers last := by
  cases result with
  | success offers last => simp [asPayment]
  | _ => simp [asPayment, toPayment]

section Direct

variable {computePrice : Price → ℚ} {ledger : LedgerState} {op : PaymentOp}
  {source : AccountEntry}

theorem PaymentOp.settle_toPathPayment :
    op.toPathPayment.settle computePrice source = (do
      op.toPathPayment.creditDestination
      op.toPathPayment.debitSource source
        { curB := op.asset, curBReceived := op.amount, offers := [] }
      return []) := by
  have step : PathPaymentOp.walkHop computePrice source.accountID
      { curB := op.asset, curBReceived := op.amount, offers := [] }
      op.asset =
        pure { curB := op.asset, curBReceived := op.amount
               offers := [] } := by
    unfold PathPaymentOp.walkHop
    rw [if_pos rfl]
  unfold PathPaymentOp.settle
  simp only [PaymentOp.toPathPayment, List.reverse_singleton,
    List.foldlM_cons, List.foldlM_nil, step, pure_bind]

theorem PaymentOp.checked_iff :
    op.doCheckValid = none ↔
      0 < op.amount ∧ op.asset.isAssetValid = true := by
  simp only [doCheckValid, firstOf_eq_none, List.forall_mem_cons,
    List.not_mem_nil, false_implies, implies_true, and_true,
    decide_eq_false_iff_not, not_le, Bool.not_eq_false']

/-- The source is still what it was when the destination has been paid. -/
theorem PaymentOp.sourceReady (valid : ledger.Valid)
    (found : ledger.accounts.find? source.accountID = some source)
    (apart : op.instantSuccess source.accountID ledger.header.ledgerVersion =
      false)
    (can : ledger.CanAdjust op.destination op.asset op.amount) :
    PathPaymentOp.SourceReady source
      (ledger.credit op.destination op.asset op.amount) := by
  have moved := valid.moved_credit can
  refine ⟨?_, ?_⟩
  · rw [moved.present]
    exact Table.contains_eq_true.mpr ⟨source, found⟩
  · intro _
    by_cases native : op.asset = .native
    · have other : op.destination ≠ source.accountID := by
        intro same
        rw [instantSuccess] at apart
        simp [same, native] at apart
      rw [moved.accounts source.accountID (by simpa using other)]
      exact found
    · rw [LedgerState.credit_accounts native]
      exact found

theorem PaymentOp.settle_attempts (valid : ledger.Valid)
    (found : ledger.accounts.find? source.accountID = some source)
    (checked : op.doCheckValid = none)
    (apart : op.instantSuccess source.accountID ledger.header.ledgerVersion =
      false) :
    Attempts (op.toPathPayment.settle computePrice source) ledger
      (fun _ _ => True)
      (fun result _ => result.toPayment.isSome = true ∨
        result = .malformed ∧
          PathPaymentOp.Overflows ledger op.toPathPayment)
      (fun _ _ => False) := by
  obtain ⟨positive, assetValid⟩ := PaymentOp.checked_iff.mp checked
  rw [PaymentOp.settle_toPathPayment, Attempts.bind_iff]
  refine (PathPaymentOp.creditDestination_attempts valid assetValid
    positive).mono ?_ (fun _ _ codes => codes.1) (fun _ _ => id)
  rintro _ middle ⟨can, rfl⟩
  have ready := PaymentOp.sourceReady valid found apart can
  rw [Attempts.bind_iff]
  refine (PathPaymentOp.debitSource_attempts (valid.credit can) ready
    assetValid positive).mono (fun _ _ _ => trivial) ?_ (fun _ _ => id)
  rintro result _ ⟨code | ⟨_, more⟩, _⟩
  · exact .inl code
  · exact absurd more (lt_irrefl _)

theorem PathPaymentOp.doApply_of_attempts {op : PathPaymentOp}
    {done : List ClaimOfferAtom → LedgerState → Prop}
    {rejected : PathPaymentResult → LedgerState → Prop}
    (attempts : Attempts (op.settle computePrice source) ledger done rejected
      (fun _ _ => False)) :
    ∃ result after, op.doApply computePrice source ledger =
        .ok result after ∧
      ((∃ offers last, result = .success offers last ∧ done offers after) ∨
        rejected result after) := by
  unfold Attempts Ends at attempts
  unfold doApply
  rw [run_bind]
  cases settled : (op.settle computePrice source).run ledger with
  | error failure after =>
      rw [settled] at attempts
      exact attempts.elim
  | ok outcome after =>
      rw [settled] at attempts
      cases outcome with
      | ok offers =>
          exact ⟨_, after, rfl, .inl ⟨offers, _, rfl, attempts⟩⟩
      | error result => exact ⟨result, after, rfl, .inr attempts⟩

theorem PaymentOp.toPathPayment_checked (checked : op.doCheckValid = none) :
    op.toPathPayment.doCheckValid = none := by
  obtain ⟨positive, assetValid⟩ := PaymentOp.checked_iff.mp checked
  have amount : ¬ op.amount ≤ 0 := not_le.mpr positive
  simp [PathPaymentOp.doCheckValid, firstOf, toPathPayment, amount,
    assetValid]

theorem PaymentOp.doApply_eq {result : PathPaymentResult}
    {code : PaymentResult} {after : LedgerState}
    (checked : op.doCheckValid = none)
    (apart : op.instantSuccess source.accountID ledger.header.ledgerVersion =
      false)
    (applied : op.toPathPayment.doApply computePrice source ledger =
      .ok result after)
    (expected : result.asPayment = some code) :
    op.doApply computePrice source ledger = .ok code after := by
  have header : getHeader ledger = .ok ledger.header ledger := rfl
  unfold PaymentOp.doApply
  rw [run_bind, header]
  simp only [apart, Bool.false_eq_true, ↓reduceIte]
  rw [PaymentOp.toPathPayment_checked checked]
  simp only
  rw [run_bind, applied]
  cases result with
  | malformed => cases expected
  | tooFewOffers => cases expected
  | offerCrossSelf => cases expected
  | overSendmax => cases expected
  | _ =>
      cases expected
      rfl

end Direct

/-- A payment to the source itself may succeed at once.  Any other does what
the path payment does, as long as the destination can hold a native
amount. -/
theorem payment_refines (computePrice : Price → ℚ) (ledger : LedgerState)
    (op : PaymentOp) (source : AccountEntry) (valid : ledger.Valid)
    (found : ledger.accounts.find? source.accountID = some source)
    (checked : op.doCheckValid = none) :
    (op.instantSuccess source.accountID ledger.header.ledgerVersion = true →
      op.doApply computePrice source ledger = .ok .success ledger) ∧
    (op.instantSuccess source.accountID ledger.header.ledgerVersion = false →
      ∃ result after,
        op.toPathPayment.doApply computePrice source ledger =
          .ok result after ∧
        (¬ PathPaymentOp.Overflows ledger op.toPathPayment →
          ∃ code, result.asPayment = some code ∧
            op.doApply computePrice source ledger = .ok code after ∧
            (code = .success ↔
              ∃ offers last, result = .success offers last))) := by
  constructor
  · intro instant
    have header : getHeader ledger = .ok ledger.header ledger := rfl
    unfold PaymentOp.doApply
    rw [run_bind, header]
    simp only [instant, ↓reduceIte]
    rfl
  · intro apart
    have attempts : Attempts (op.toPathPayment.settle computePrice source)
        ledger _ _ _ := PaymentOp.settle_attempts valid found checked apart
    obtain ⟨result, after, applied, outcome⟩ :=
      PathPaymentOp.doApply_of_attempts attempts
    refine ⟨result, after, applied, ?_⟩
    intro fits
    have expected : ∃ code, result.asPayment = some code := by
      obtain ⟨offers, last, rfl, _⟩ | code | ⟨_, exceeds⟩ := outcome
      · exact ⟨_, rfl⟩
      · rw [Option.isSome_iff_exists] at code
        obtain ⟨code, known⟩ := code
        cases result with
        | success offers last => exact ⟨_, rfl⟩
        | _ => exact ⟨code, known⟩
      · exact absurd exceeds fits
    obtain ⟨code, known⟩ := expected
    refine ⟨code, known,
      PaymentOp.doApply_eq checked apart applied known, ?_⟩
    rw [← PathPaymentResult.asPayment_eq_success, known, Option.some_inj]

/-- Two accounts, of which the second holds less than its reserve. -/
def payerLedger : LedgerState :=
  { accounts :=
      { rows :=
          [(1, { AccountEntry.fresh 1 with balance := 1000000000 }),
            (2, { AccountEntry.fresh 2 with balance := 10 })]
        distinct := by decide }
    trustLines := .empty, offers := .empty, data := .empty
    header := { genesisLedger with ledgerVersion := 9 } }

def quotient (price : Price) : ℚ :=
  price.n / price.d

def isSuccess {ε σ : Type} : EStateM.Result ε σ PaymentResult → Bool
  | .ok code _ => decide (code = .success)
  | .error _ _ => false

theorem payment_refines_hundred :
    ∃ offers last after,
      (PaymentOp.mk 2 .native 100).toPathPayment.doApply quotient
        { AccountEntry.fresh 1 with balance := 1000000000 } payerLedger =
          .ok (.success offers last) after ∧
      (PaymentOp.mk 2 .native 100).doApply quotient
        { AccountEntry.fresh 1 with balance := 1000000000 } payerLedger =
          .ok .success after := by
  obtain ⟨result, after, applied, refines⟩ :=
    (payment_refines quotient payerLedger ⟨2, .native, 100⟩
      { AccountEntry.fresh 1 with balance := 1000000000 }
      (by decide +kernel) rfl (by decide)).2 (by decide)
  have fits : ¬ PathPaymentOp.Overflows payerLedger
      (PaymentOp.mk 2 .native 100).toPathPayment := by
    rintro ⟨_, a, found, exceeds⟩
    have row : payerLedger.accounts.find? 2 =
        some { AccountEntry.fresh 2 with balance := 10 } := rfl
    obtain rfl := Option.some.inj (row.symm.trans found)
    exact absurd exceeds (by decide)
  obtain ⟨code, -, paid, succeeds⟩ := refines fits
  have run : isSuccess ((PaymentOp.mk 2 .native 100).doApply quotient
      { AccountEntry.fresh 1 with balance := 1000000000 }
      payerLedger) = true := by
    decide +kernel
  rw [paid] at run
  obtain rfl : code = .success := of_decide_eq_true run
  obtain ⟨offers, last, rfl⟩ := succeeds.mp rfl
  exact ⟨offers, last, after, applied, paid⟩

/-- A path payment to itself is one that the second account cannot afford. -/
theorem payment_to_itself :
    payerLedger.Valid ∧
      (PaymentOp.mk 2 .native 5).doCheckValid = none ∧
      payerLedger.accounts.find? 2 =
        some { AccountEntry.fresh 2 with balance := 10 } ∧
      (PaymentOp.mk 2 .native 5).doApply quotient
        { AccountEntry.fresh 2 with balance := 10 } payerLedger =
          .ok .success payerLedger ∧
      ∃ after, (PaymentOp.mk 2 .native 5).toPathPayment.doApply quotient
        { AccountEntry.fresh 2 with balance := 10 } payerLedger =
          .ok .underfunded after :=
  ⟨by decide +kernel, by decide, rfl, rfl, _, rfl⟩

end StellarCore.Transactions
