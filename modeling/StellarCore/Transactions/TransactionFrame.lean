import StellarCore.Lib.Doubles
import StellarCore.Transactions.Operations

/-!
# Transactions

`TransactionFrame.cpp` up to the collection of the fee: the checks of a
transaction before it is applied, and `processFeeSeqNum`.
-/

namespace StellarCore.Transactions

open StellarCore.Lib

structure TimeBounds where
  minTime : ℕ
  maxTime : ℕ
  deriving DecidableEq

/-- A transaction envelope; the two hashes are those of its encoding. -/
structure Transaction where
  sourceAccount : AccountID
  fee : ℕ
  fee_lt : fee < 2 ^ 32
  seqNum : ℕ
  seqNum_lt : seqNum < 2 ^ 64
  timeBounds : Option TimeBounds
  operations : List Operation
  signatures : List DecoratedSignature
  contentsHash : Hash
  fullHash : Hash
  deriving DecidableEq

inductive TransactionResultCode where
  | txSuccess
  | txFailed
  | txTooEarly
  | txTooLate
  | txMissingOperation
  | txBadSeq
  | txBadAuth
  | txInsufficientBalance
  | txNoAccount
  | txInsufficientFee
  | txBadAuthExtra
  | txInternalError
  deriving DecidableEq

namespace Transaction

variable (crypto : Crypto)

/-- The product is taken in 64-bit arithmetic. -/
def getMinFee (tx : Transaction) (header : LedgerHeader) : ℕ :=
  header.baseFee * max 1 tx.operations.length % 2 ^ 64

def getFeeRatio (tx : Transaction) (header : LedgerHeader) : Double :=
  Double.div tx.fee (tx.getMinFee header)

def start (tx : Transaction) (header : LedgerHeader) : SignatureChecker :=
  .start header.ledgerVersion tx.contentsHash tx.signatures

end Transaction

/-- The master key is a signer unless its weight is 0. -/
def AccountEntry.allSigners (account : AccountEntry) : List Signer :=
  (if account.thresholds.masterWeight ≠ 0 then
    [{ key := .ed25519 account.accountID
       weight := account.thresholds.masterWeight.toNat }]
  else
    []) ++ account.signers

def checkSignature (crypto : Crypto) (checker : SignatureChecker)
    (account : AccountEntry) (neededWeight : ℤ) : Bool × SignatureChecker :=
  checker.checkSignature crypto account.accountID account.allSigners
    neededWeight

namespace Transaction

variable (crypto : Crypto)

def outsideTimeBounds (tx : Transaction) (closeTime : ℕ) :
    Option TransactionResultCode :=
  match tx.timeBounds with
  | none => none
  | some bounds =>
      if bounds.minTime > closeTime then
        some .txTooEarly
      else if bounds.maxTime ≠ 0 ∧ bounds.maxTime < closeTime then
        some .txTooLate
      else
        none

/-- Whether `current`, where 0 stands for the number of the account, is not
followed by the number of the transaction. -/
def badSeq (tx : Transaction) (account : AccountEntry) (current : ℕ) : Bool :=
  let current := if current = 0 then account.seqNum else current
  (current + 1) % 2 ^ 64 ≠ tx.seqNum

/-- The balance that must stay above the reserve. -/
def balanceAfter (tx : Transaction) (account : AccountEntry)
    (header : LedgerHeader) (applying : Bool) : ℤ :=
  if applying && header.ledgerVersion > 8 then
    account.balance
  else
    account.balance - tx.fee

/-- The outcome of `commonValid`, with the account that signs and the checker
as it is left. -/
structure Validity where
  code : TransactionResultCode
  signingAccount : Option AccountEntry
  checker : SignatureChecker

def commonValid (tx : Transaction) (checker : SignatureChecker)
    (applying : Bool) (current : ℕ) : Ledger Validity := do
  let header ← getHeader
  if tx.operations.length = 0 then
    return ⟨.txMissingOperation, none, checker⟩
  else
    match tx.outsideTimeBounds header.closeTime with
    | some code => return ⟨code, none, checker⟩
    | none =>
        if tx.fee < tx.getMinFee header then
          return ⟨.txInsufficientFee, none, checker⟩
        else
          match ← loadAccount tx.sourceAccount with
          | none => return ⟨.txNoAccount, none, checker⟩
          | some account =>
              if !applying && tx.badSeq account current then
                return ⟨.txBadSeq, account, checker⟩
              else
                let (signed, checker) := checkSignature crypto checker account
                  account.thresholds.low.toNat
                if !signed then
                  return ⟨.txBadAuth, account, checker⟩
                else if tx.balanceAfter account header applying <
                    account.getMinimumBalance header then
                  return ⟨.txInsufficientBalance, account, checker⟩
                else
                  return ⟨.txSuccess, account, checker⟩

end Transaction

def Operation.getSourceID (op : Operation) (tx : Transaction) : AccountID :=
  op.sourceAccount.getD tx.sourceAccount

/-- `OperationFrame::checkValid`: the failure, if there is one, the source
account and the checker. -/
def Operation.checkValid (crypto : Crypto) (op : Operation)
    (tx : Transaction) (checker : SignatureChecker) (forApply : Bool) :
    Ledger (Option OperationResult × AccountEntry × SignatureChecker) := do
  let header ← getHeader
  let sourceID := op.getSourceID tx
  let auth := AccountEntry.authOnly sourceID
  let loaded ← loadAccount sourceID
  if loaded.isNone && (forApply || op.sourceAccount.isNone) then
    return (some .noAccount, auth, checker)
  else
    let account := loaded.getD auth
    let (signed, checker) := checkSignature crypto checker account
      (getNeededThreshold account op.body.getThresholdLevel)
    if !signed then
      return (some .badAuth, account, checker)
    else
      return (op.body.doCheckValid sourceID header.ledgerVersion, account,
        checker)

namespace Transaction

variable (crypto : Crypto)

/-- The operations up to the first one that is not valid. -/
def operationsValid (tx : Transaction) (checker : SignatureChecker) :
    List Operation → Ledger (Bool × SignatureChecker)
  | [] => return (true, checker)
  | op :: rest => do
      let (failure, _, checker) ← op.checkValid crypto tx checker false
      if failure.isSome then
        return (false, checker)
      else
        operationsValid tx checker rest

def checkValid (tx : Transaction) (current : ℕ) : Ledger Validity := do
  let header ← getHeader
  let validity ← tx.commonValid crypto (tx.start header) false current
  if validity.code ≠ .txSuccess then
    return validity
  else
    let (valid, checker) ←
      tx.operationsValid crypto validity.checker tx.operations
    if !valid then
      return { validity with code := .txFailed, checker }
    else if !checker.checkAllSignaturesUsed then
      return { validity with code := .txBadAuthExtra, checker }
    else
      return { validity with checker }

/-- The fee that is taken, at most the balance, and the account after it. -/
def chargeFee (tx : Transaction) (account : AccountEntry) :
    Ledger (ℤ × AccountEntry) := do
  if 0 < tx.fee then
    let fee := min account.balance tx.fee
    let charged ← account.addBalance (-fee)
    modify (fun ledger =>
      { ledger with
        header :=
          { ledger.header with
            feePool := wrap64 (ledger.header.feePool + fee) } })
    return (fee, charged.getD account)
  else
    return (0, account)

/-- `feeCharged` of the result. -/
def processFeeSeqNum (tx : Transaction) : Ledger ℤ := do
  match ← loadAccount tx.sourceAccount with
  | none => throw (.runtimeError "Unexpected database state")
  | some account =>
      let (fee, account) ← tx.chargeFee account
      if (account.seqNum + 1) % 2 ^ 64 ≠ tx.seqNum then
        throw (.runtimeError "Unexpected account state")
      else
        let _ ← storeChangeAccount { account with seqNum := tx.seqNum }
        return fee

end Transaction

end StellarCore.Transactions
