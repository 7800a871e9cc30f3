import StellarCore.Transactions.EntryOperations
import StellarCore.Transactions.Inflation
import StellarCore.Transactions.ManageOffer

/-!
# Applying transactions

`OperationFrame::apply`, `TransactionFrame::apply` and
`LedgerManagerImpl::applyTransactions`.  The operations of a transaction are
all applied, one after the other, and what they did is kept only if none of
them failed.  Below version 8 the frame of the signing account was shared by
the operations; here every operation loads its source.
-/

namespace StellarCore.Transactions

open StellarCore.Lib

/-! ## Operations -/

section Operations

variable (crypto : Crypto) (computePrice : Price → ℚ)

def OperationBody.doApply (source : AccountEntry) :
    OperationBody → Ledger OperationResult
  | .createAccount op => return .createAccount (← op.doApply source)
  | .payment op => return .payment (← op.doApply computePrice source)
  | .pathPayment op => return .pathPayment (← op.doApply computePrice source)
  | .manageOffer op =>
      return .manageOffer (← op.doApply computePrice false source)
  | .createPassiveOffer op =>
      return .manageOffer
        (← op.toManageOffer.doApply computePrice true source)
  | .setOptions op => return .setOptions (← op.doApply source)
  | .changeTrust op => return .changeTrust (← op.doApply source)
  | .allowTrust op => return .allowTrust (← op.doApply source)
  | .accountMerge destination =>
      return .accountMerge (← mergeDoApply destination source)
  | .inflation => return .inflation (← inflationDoApply)
  | .manageData op => return .manageData (← op.doApply source)

/-- What `doApply` returns besides the result. -/
def OperationResult.succeeded : OperationResult → Bool
  | .createAccount .success => true
  | .payment .success => true
  | .pathPayment (.success _ _) => true
  | .manageOffer (.success _ _) => true
  | .setOptions .success => true
  | .changeTrust .success => true
  | .allowTrust .success => true
  | .accountMerge (.success _) => true
  | .inflation (.success _) => true
  | .manageData .success => true
  | _ => false

/-- `OperationFrame::apply`. -/
def Operation.apply (op : Operation) (tx : Transaction)
    (checker : SignatureChecker) :
    Ledger (OperationResult × SignatureChecker) := do
  let (failure, source, checker) ← op.checkValid crypto tx checker true
  match failure with
  | some result => return (result, checker)
  | none => return (← op.body.doApply computePrice source, checker)

end Operations

/-! ## One-time signers -/

/-- `removeAccountSigner`; the count is taken back by one. -/
def removeAccountSigner (account : AccountEntry) (signerKey : SignerKey) :
    Ledger (Option AccountEntry) := do
  if account.signers.any (fun signer => signer.key = signerKey) then
    match ← account.addNumEntries (-1) with
    | none => abort
    | some counted =>
        return some { counted with
          signers := counted.signers.eraseP
            (fun signer => signer.key = signerKey) }
  else
    return none

/-- The keys are tried in order up to the first one that is a signer. -/
def removeFirstSigner (account : AccountEntry) :
    List SignerKey → Ledger (Option AccountEntry)
  | [] => return none
  | signerKey :: rest => do
      match ← removeAccountSigner account signerKey with
      | some changed => return some changed
      | none => removeFirstSigner account rest

def removeUsedOneTimeSignerKeysOf (accountID : AccountID)
    (keys : List SignerKey) : Ledger Unit := do
  match ← loadAccount accountID with
  | none => return ()
  | some account =>
      match ← removeFirstSigner account keys with
      | none => return ()
      | some changed =>
          let _ ← storeChangeAccount changed.normalize

def removeUsedOneTimeSignerKeys :
    List (AccountID × List SignerKey) → Ledger Unit
  | [] => return ()
  | (accountID, keys) :: rest => do
      removeUsedOneTimeSignerKeysOf accountID keys
      removeUsedOneTimeSignerKeys rest

/-! ## Transactions -/

structure TransactionResult where
  code : TransactionResultCode
  results : List OperationResult
  deriving DecidableEq

namespace Transaction

variable (crypto : Crypto) (computePrice : Price → ℚ)

/-- An error does not stop the operations that follow. -/
def applyOperations (tx : Transaction) (checker : SignatureChecker) :
    List Operation → Ledger (List OperationResult × SignatureChecker)
  | [] => return ([], checker)
  | op :: rest => do
      let (result, checker) ← op.apply crypto computePrice tx checker
      let (results, checker) ← applyOperations tx checker rest
      return (result :: results, checker)

/-- What follows the last operation; the ledger before the first one is put
back unless all have succeeded. -/
def finish (before : LedgerState) (results : List OperationResult)
    (checker : SignatureChecker) : Ledger TransactionResult := do
  if results.all OperationResult.succeeded then
    if !checker.checkAllSignaturesUsed then
      set before
      return ⟨.txBadAuthExtra, []⟩
    else
      removeUsedOneTimeSignerKeys checker.usedOneTimeSignerKeys
      return ⟨.txSuccess, results⟩
  else
    set before
    return ⟨.txFailed, results⟩

/-- `TransactionFrame::apply`. -/
def apply (tx : Transaction) : Ledger TransactionResult := do
  let header ← getHeader
  let validity ← tx.commonValid crypto (tx.start header) true 0
  if validity.code ≠ .txSuccess then
    return ⟨validity.code, []⟩
  else
    let before ← get
    let (results, checker) ←
      tx.applyOperations crypto computePrice validity.checker tx.operations
    finish before results checker

end Transaction

/-- A failed assertion ends the process, an exception does not. -/
def Failure.aborts : Failure → Bool
  | .invalidEntry .account => true
  | .invalidEntry _ => false
  | .assertion => true
  | .runtimeError _ => false

/-- The body of the loop of `applyTransactions`: an exception leaves no
trace in the ledger. -/
def Transaction.applyCaught (crypto : Crypto) (computePrice : Price → ℚ)
    (tx : Transaction) : Ledger TransactionResult := fun ledger =>
  match tx.apply crypto computePrice ledger with
  | .ok result after => .ok result after
  | .error failure after =>
      if failure.aborts then .error failure after
      else .ok ⟨.txInternalError, []⟩ ledger

def applyTransactions (crypto : Crypto) (computePrice : Price → ℚ) :
    List Transaction → Ledger (List TransactionResult)
  | [] => return []
  | tx :: rest => do
      let result ← tx.applyCaught crypto computePrice
      let results ← applyTransactions crypto computePrice rest
      return result :: results

end StellarCore.Transactions
