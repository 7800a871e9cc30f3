import StellarCore.Transactions.TransactionFrame

/-!
# Transaction sets

`TxSetFrame.cpp`: the order in which a set is applied, the check of a set
against the last closed ledger, and the two filters that a new set passes;
`LedgerManagerImpl::processFeesSeqNums` takes the fees in that order.  A
transaction is removed by its value: equal ones are next to each other.
-/

namespace StellarCore.Herder

open StellarCore.Lib
open StellarCore.Transactions

/-- `contentsHash` is the hash of the encoded set. -/
structure TxSetFrame where
  previousLedgerHash : Hash
  transactions : List Transaction
  contentsHash : Hash

def lessThanXored (l r x : Hash) : Bool :=
  (x ^^^ l).toNat < (x ^^^ r).toNat

def hashTxSorter (tx1 tx2 : Transaction) : Bool :=
  tx1.fullHash.toNat < tx2.fullHash.toNat

def seqSorter (tx1 tx2 : Transaction) : Bool :=
  tx1.seqNum < tx2.seqNum

def applyTxSorter (setHash : Hash) (tx1 tx2 : Transaction) : Bool :=
  lessThanXored tx1.fullHash tx2.fullHash setHash

/-- `accountTxCountMap` and `txBatches`. -/
structure TxBatches where
  accountTxCountMap : AccountID → ℕ
  txBatches : List (List Transaction)

namespace TxBatches

def start : TxBatches :=
  { accountTxCountMap := fun _ => 0
    txBatches := List.replicate 4 [] }

def resize (batches : List (List Transaction)) (size : ℕ) :
    List (List Transaction) :=
  batches ++ List.replicate (size - batches.length) []

def push (batches : TxBatches) (tx : Transaction) : TxBatches :=
  let v := batches.accountTxCountMap tx.sourceAccount
  let txBatches :=
    if v ≥ batches.txBatches.length then resize batches.txBatches (v + 4)
    else batches.txBatches
  { accountTxCountMap :=
      Function.update batches.accountTxCountMap tx.sourceAccount (v + 1)
    txBatches := txBatches.modify v (fun batch => batch ++ [tx]) }

end TxBatches

namespace TxSetFrame

variable (sorter : Sorter) (crypto : Crypto)

def sortForHash (set : TxSetFrame) : TxSetFrame :=
  { set with transactions := sorter.sort hashTxSorter set.transactions }

/-- `digest` is SHA-256 over the hash of the previous ledger and the encoded
transactions. -/
def getContentsHash (digest : Hash → List Transaction → Hash)
    (set : TxSetFrame) : Hash :=
  let set := set.sortForHash sorter
  digest set.previousLedgerHash set.transactions

def sortForApply (set : TxSetFrame) : List Transaction :=
  let retList := sorter.sort seqSorter set.transactions
  let batches := retList.foldl TxBatches.push TxBatches.start
  batches.txBatches.flatMap (sorter.sort (applyTxSorter set.contentsHash))

/-! ## Surge pricing -/

/-- `accountFeeMap`: the lowest fee ratio of an account, zero for an account
that is not there. -/
def accountFeeMap (header : LedgerHeader) (transactions : List Transaction) :
    AccountID → Double :=
  transactions.foldl
    (fun map tx =>
      let r := tx.getFeeRatio header
      let now := map tx.sourceAccount
      if now.eq (.finite 0) then Function.update map tx.sourceAccount r
      else if r.lt now then Function.update map tx.sourceAccount r
      else map)
    (fun _ => .finite 0)

def surgeSorter (accountFee : AccountID → Double) (tx1 tx2 : Transaction) :
    Bool :=
  if tx1.sourceAccount = tx2.sourceAccount then
    tx1.seqNum < tx2.seqNum
  else
    let fee1 := accountFee tx1.sourceAccount
    let fee2 := accountFee tx2.sourceAccount
    if fee1.eq fee2 then tx1.sourceAccount < tx2.sourceAccount
    else fee2.lt fee1

def removeTx (set : TxSetFrame) (tx : Transaction) : TxSetFrame :=
  { set with transactions := set.transactions.erase tx }

def surgePricingFilter (header : LedgerHeader) (set : TxSetFrame) :
    TxSetFrame :=
  let max := header.maxTxSetSize
  if set.transactions.length > max then
    let accountFee := accountFeeMap header set.transactions
    let tempList := sorter.sort (surgeSorter accountFee) set.transactions
    (tempList.drop max).foldl removeTx set
  else
    set

/-! ## The check of a set -/

def sortedByHash (lastHash : Hash) : List Transaction → Bool
  | [] => true
  | tx :: rest =>
      if tx.fullHash.toNat < lastHash.toNat then false
      else sortedByHash tx.fullHash rest

def accountTxMap (transactions : List Transaction) :
    List (AccountID × List Transaction) :=
  transactions.foldl
    (fun map tx => upsert tx.sourceAccount
      (fun txs => txs.getD [] ++ [tx]) map) []

/-- The loop over the transactions of an account; `lastTx` is the account that
the last one was checked with. -/
def checkAccount (lastSeq : ℕ) (totFee : ℤ) (lastTx : Option AccountEntry) :
    List Transaction → Ledger Bool
  | [] => do
      match lastTx with
      | none => return true
      | some account =>
          let header ← getHeader
          let newBalance := wrap64 (account.balance - totFee)
          return !(newBalance < account.getMinimumBalance header)
  | tx :: rest => do
      let validity ← tx.checkValid crypto lastSeq
      if validity.code ≠ .txSuccess then
        return false
      else
        checkAccount tx.seqNum (wrap64 (totFee + tx.fee))
          validity.signingAccount rest

def checkAccounts : List (AccountID × List Transaction) → Ledger Bool
  | [] => return true
  | (_, txs) :: rest => do
      if ← checkAccount crypto 0 0 none (sorter.sort seqSorter txs) then
        checkAccounts rest
      else
        return false

def checkValid (set : TxSetFrame) (lclHash : Hash) : Ledger Bool := do
  let header ← getHeader
  if lclHash ≠ set.previousLedgerHash then
    return false
  else if set.transactions.length > header.maxTxSetSize then
    return false
  else if !sortedByHash 0 set.transactions then
    return false
  else
    checkAccounts sorter crypto (accountTxMap set.transactions)

/-! ## Trimming -/

/-- The set, the transactions that were removed from it, and what is carried
along the transactions of an account. -/
structure TrimState where
  set : TxSetFrame
  trimmed : List Transaction
  lastTx : Option AccountEntry
  lastSeq : ℕ
  totFee : ℤ

def TrimState.remove (state : TrimState) (tx : Transaction) : TrimState :=
  { state with
    set := state.set.removeTx tx
    trimmed := state.trimmed ++ [tx] }

def trimLoop : List Transaction → TrimState → Ledger TrimState
  | [], state => return state
  | tx :: rest, state => do
      let validity ← tx.checkValid crypto state.lastSeq
      if validity.code ≠ .txSuccess then
        trimLoop rest (state.remove tx)
      else
        trimLoop rest
          { state with
            totFee := wrap64 (state.totFee + tx.fee)
            lastTx := validity.signingAccount
            lastSeq := tx.seqNum }

/-- An account that cannot pay all fees loses all its transactions. -/
def trimAccount (txs : List Transaction) (state : TrimState) :
    Ledger TrimState := do
  let state ← trimLoop crypto txs
    { state with lastTx := none, lastSeq := 0, totFee := 0 }
  match state.lastTx with
  | none => return state
  | some account =>
      let header ← getHeader
      let newBalance := wrap64 (account.balance - state.totFee)
      if newBalance < account.getMinimumBalance header then
        return txs.foldl TrimState.remove state
      else
        return state

def trimAccounts : List (AccountID × List Transaction) → TrimState →
    Ledger TrimState
  | [], state => return state
  | (_, txs) :: rest, state => do
      let state ← trimAccount crypto (sorter.sort seqSorter txs) state
      trimAccounts rest state

/-- The set that is left, and the transactions that were removed. -/
def trimInvalid (set : TxSetFrame) :
    Ledger (TxSetFrame × List Transaction) := do
  let set := set.sortForHash sorter
  let state ← trimAccounts sorter crypto (accountTxMap set.transactions)
    { set, trimmed := [], lastTx := none, lastSeq := 0, totFee := 0 }
  return (state.set, state.trimmed)

end TxSetFrame

/-- `processFeesSeqNums`: the fees that are charged, in the given order. -/
def processFeesSeqNums : List Transaction → Ledger (List ℤ)
  | [] => return []
  | tx :: rest => do
      let fee ← tx.processFeeSeqNum
      let fees ← processFeesSeqNums rest
      return fee :: fees

end StellarCore.Herder
