import StellarCore.Transactions.EntryRules

/-!
# What a check of a transaction depends on

A check reads the ledger and leaves it as it is.  It can fail on a stored
account that is not valid.  If it succeeds, the sequence number follows the
one it was checked against.
-/

namespace StellarCore.Transactions

open StellarCore.Lib

/-- The failure of loading an account. -/
def AccountFailure (reason : Failure) : Prop :=
  reason = .invalidEntry .account

theorem getHeader_reads : Reads AccountFailure getHeader :=
  Reads.get.bind (fun _ => Reads.pure _)

theorem loadAccount_reads (accountID : AccountID) :
    Reads AccountFailure (loadAccount accountID) := by
  refine Reads.get.bind ?_
  intro ledger
  cases ledger.accounts.find? accountID with
  | none => exact Reads.pure _
  | some row => exact (Reads.pure _).ite (Reads.throw rfl)

section Checks

variable (crypto : Crypto) (tx : Transaction)

theorem commonValid_reads (checker : SignatureChecker) (applying : Bool)
    (current : ℕ) :
    Reads AccountFailure (tx.commonValid crypto checker applying current) := by
  refine getHeader_reads.bind ?_
  intro header
  refine Reads.ite (Reads.pure _) ?_
  cases tx.outsideTimeBounds header.closeTime with
  | some code => exact Reads.pure _
  | none =>
      refine Reads.ite (Reads.pure _) ?_
      refine (loadAccount_reads tx.sourceAccount).bind ?_
      intro loaded
      cases loaded with
      | none => exact Reads.pure _
      | some account =>
          refine Reads.ite (Reads.pure _) ?_
          refine Reads.ite (Reads.pure _) ?_
          exact Reads.ite (Reads.pure _) (Reads.pure _)

theorem operation_checkValid_reads (op : Operation)
    (checker : SignatureChecker) (forApply : Bool) :
    Reads AccountFailure (op.checkValid crypto tx checker forApply) := by
  refine getHeader_reads.bind ?_
  intro header
  refine (loadAccount_reads _).bind ?_
  intro loaded
  refine Reads.ite (Reads.pure _) ?_
  exact Reads.ite (Reads.pure _) (Reads.pure _)

theorem operationsValid_reads (checker : SignatureChecker)
    (operations : List Operation) :
    Reads AccountFailure
      (tx.operationsValid crypto checker operations) := by
  induction operations generalizing checker with
  | nil => exact Reads.pure _
  | cons op operations ih =>
      refine (operation_checkValid_reads crypto tx op checker false).bind ?_
      rintro ⟨failure, account, checker⟩
      exact Reads.ite (Reads.pure _) (ih checker)

theorem checkValid_reads (current : ℕ) :
    Reads AccountFailure (tx.checkValid crypto current) := by
  refine getHeader_reads.bind ?_
  intro header
  refine (commonValid_reads crypto tx _ false current).bind ?_
  intro validity
  refine Reads.ite (Reads.pure _) ?_
  refine (operationsValid_reads crypto tx _ _).bind ?_
  rintro ⟨valid, checker⟩
  refine Reads.ite (Reads.pure _) ?_
  exact Reads.ite (Reads.pure _) (Reads.pure _)

end Checks

/-- The account is there and valid. -/
def Loads (ledger : LedgerState) (accountID : AccountID)
    (account : AccountEntry) : Prop :=
  loadAccount accountID ledger = .ok (some account) ledger

theorem Loads.unique {ledger : LedgerState} {accountID : AccountID}
    {first second : AccountEntry} (one : Loads ledger accountID first)
    (two : Loads ledger accountID second) : first = second := by
  have same := one.symm.trans two
  cases same
  rfl

theorem Loads.isValid {ledger : LedgerState} {accountID : AccountID}
    {account : AccountEntry} (loads : Loads ledger accountID account) :
    account.isValid = true := by
  have ends : Ends (loadAccount accountID) ledger
      (fun loaded _ => ∀ account, loaded = some account →
        account.isValid = true) (fun _ _ => True) := by
    rw [loadAccount_ends]
    refine ⟨?_, ?_⟩
    · intro _ _ impossible
      cases impossible
    · intro row _
      refine ⟨?_, fun _ => trivial⟩
      intro valid _ same
      cases same
      exact valid
  exact ends.of_ok loads account rfl

section Accepted

variable {crypto : Crypto} {tx : Transaction} {ledger : LedgerState}

/-- What a check that succeeds has found. -/
def Signed (ledger : LedgerState) (tx : Transaction) (current : ℕ)
    (validity : Transaction.Validity) : Prop :=
  validity.code = .txSuccess →
    ∃ account, validity.signingAccount = some account ∧
      Loads ledger tx.sourceAccount account ∧
      tx.badSeq account current = false

theorem signed_of_failed {current : ℕ} {code : TransactionResultCode}
    {account : Option AccountEntry} {checker : SignatureChecker}
    (failed : code ≠ .txSuccess) :
    Signed ledger tx current ⟨code, account, checker⟩ :=
  fun succeeded => absurd succeeded failed

theorem commonValid_signed (checker : SignatureChecker) (current : ℕ) :
    Ends (tx.commonValid crypto checker false current) ledger
      (fun validity _ => Signed ledger tx current validity)
      (fun _ _ => True) := by
  unfold Transaction.commonValid
  rw [Ends.bind_iff, getHeader_ends, Ends.ite_iff]
  refine ⟨fun _ => signed_of_failed (by decide), fun _ => ?_⟩
  cases bounds : tx.outsideTimeBounds ledger.header.closeTime with
  | some code =>
      refine signed_of_failed ?_
      unfold Transaction.outsideTimeBounds at bounds
      split at bounds
      · cases bounds
      · split at bounds
        · cases bounds
          decide
        · split at bounds
          · cases bounds
            decide
          · cases bounds
  | none =>
      rw [Ends.ite_iff]
      refine ⟨fun _ => signed_of_failed (by decide), fun _ => ?_⟩
      rw [Ends.bind_iff]
      rcases (loadAccount_reads tx.sourceAccount).cases ledger with
        ⟨loaded, result⟩ | ⟨reason, result, _⟩
      · refine Ends.of_run result ?_
        cases loaded with
        | none => exact signed_of_failed (by decide)
        | some account =>
            rw [Ends.ite_iff]
            refine ⟨fun _ => signed_of_failed (by decide), fun follows => ?_⟩
            have sequence : tx.badSeq account current = false := by
              simpa using follows
            dsimp only
            rw [Ends.ite_iff, Ends.ite_iff]
            refine ⟨fun _ => signed_of_failed (by decide),
              fun _ => ⟨fun _ => signed_of_failed (by decide), ?_⟩⟩
            intro _ _
            exact ⟨account, rfl, result, sequence⟩
      · exact (Ends.run_error_iff result).mpr trivial

theorem checkValid_signed (current : ℕ) :
    Ends (tx.checkValid crypto current) ledger
      (fun validity _ => Signed ledger tx current validity)
      (fun _ _ => True) := by
  unfold Transaction.checkValid
  rw [Ends.bind_iff, getHeader_ends, Ends.bind_iff]
  refine (commonValid_signed _ current).mono ?_ (fun _ _ failed => failed)
  intro validity middle signed
  rw [Ends.ite_iff]
  refine ⟨fun _ => signed, fun _ => ?_⟩
  rw [Ends.bind_iff]
  refine Ends.of_always ?_ (fun _ _ => trivial)
  rintro ⟨valid, checker⟩ finish
  dsimp only
  rw [Ends.ite_iff]
  refine ⟨fun _ => signed_of_failed (by decide), fun _ => ?_⟩
  rw [Ends.ite_iff]
  exact ⟨fun _ => signed_of_failed (by decide), fun _ => signed⟩

/-- The transaction is valid after the sequence number `current`, where 0
stands for that of the account. -/
structure Accepted (crypto : Crypto) (ledger : LedgerState)
    (tx : Transaction) (current : ℕ) (account : AccountEntry) : Prop where
  loads : Loads ledger tx.sourceAccount account
  follows : tx.badSeq account current = false
  checked : ∃ validity, tx.checkValid crypto current ledger =
      .ok validity ledger ∧
    validity.code = .txSuccess ∧ validity.signingAccount = some account

theorem accepted_of_checkValid {current : ℕ}
    {validity : Transaction.Validity}
    (checked : tx.checkValid crypto current ledger = .ok validity ledger)
    (succeeded : validity.code = .txSuccess) :
    ∃ account, Accepted crypto ledger tx current account := by
  obtain ⟨account, signing, loads, follows⟩ :=
    (checkValid_signed current).of_ok checked succeeded
  exact ⟨account, loads, follows, validity, checked, succeeded, signing⟩

end Accepted

end StellarCore.Transactions
